import TransactionalMemory.PolicyDocument
import TransactionalMemory.Proofs.StandardLibrary

/-! A retry policy that is written as a document is read back as it was, whichever library for TOML
does it. Its lines may also be reordered or left out, and lines for other keys may be added. -/
namespace TransactionalMemory.RetryPolicy
open Toml

def names : List String :=
  ["max_retries", "base_delay_ms", "max_delay_ms"]

/-- The policy as far as its parts are among the names; the other parts are standard. -/
def restricted (names : List String) (policy : RetryPolicy) : RetryPolicy :=
  ⟨if "max_retries" ∈ names then policy.maxRetries else standard.maxRetries,
    if "base_delay_ms" ∈ names then policy.baseDelay else standard.baseDelay,
    if "max_delay_ms" ∈ names then policy.maxDelay else standard.maxDelay⟩

/-- The line gives a part of the policy, however it spells it. -/
def Gives (policy : RetryPolicy) (row : Row) : Prop :=
  ∃ index, (policy.fields index).Written row.entry

private theorem names_fields (policy : RetryPolicy) :
    (List.ofFn policy.fields).map Field.name = names := rfl

private theorem distinct_fields (policy : RetryPolicy) : Distinct policy.fields := by
  have once : ((List.ofFn policy.fields).map Field.name).Nodup := by
    rw [names_fields]
    decide
  rw [List.map_ofFn] at once
  exact List.nodup_ofFn.mp once

private theorem name_mem (policy : RetryPolicy) (index : Fin 3) :
    (policy.fields index).name ∈ names := by
  rw [← policy.names_fields]
  exact List.mem_map_of_mem (List.mem_ofFn.mpr ⟨index, rfl⟩)

private theorem isBare_of_mem {name : String} (listed : name ∈ names) : IsBare name := by
  have bare : ∀ name ∈ names, name ≠ "" ∧ name.toList.all isBareKey = true := by decide
  obtain ⟨some, all⟩ := bare name listed
  exact ⟨some, List.all_eq_true.mp all⟩

section
variable {library : Library} {policy : RetryPolicy} {text : String}

private theorem write_eq_ok_iff :
    policy.write library = .ok text ↔ library.write policy.fields = .ok text := by
  unfold write
  cases library.write policy.fields <;> simp

private theorem restricted_of_perm {names' : List String} (all : names'.Perm names) :
    policy.restricted names' = policy := by
  simp [restricted, all.mem_iff, names]

private theorem read_document (laws : library.Laws) {rows : List Row}
    (document : Document rows text.toList) (distinct : (rows.map Row.name).Nodup)
    (own : ∀ row ∈ rows, policy.Gives row ∨ row.name ∉ names) :
    read library text = .ok (policy.restricted (rows.map Row.name)) := by
  have alike (index : Fin 3) : (standard.fields index).name = (policy.fields index).name := by
    match index with
    | 0 => rfl
    | 1 => rfl
    | 2 => rfl
  have mine : ∀ row ∈ rows, ∀ index, (policy.fields index).name = row.name →
      (policy.fields index).Written row.entry := by
    intro row member index same
    have named : row.name ∈ names := same ▸ policy.name_mem index
    obtain ⟨other, written⟩ := (own row member).resolve_right (not_not_intro named)
    have equal : (policy.fields other).name = (policy.fields index).name :=
      written.1.symm.trans same.symm
    rwa [policy.distinct_fields other index equal] at written
  rw [read, laws.read_rows alike standard.distinct_fields document distinct mine]
  rfl

end

/-- A policy is written exactly if each part of it is a signed 64-bit word. What is written has a
line for each part, and any document of lines that give a part, or are for another key, is read as
the policy, with standard values in place of the parts that have no line. -/
theorem document_round_trip {library : Library} (laws : library.Laws) (policy : RetryPolicy) :
    ((∃ text, policy.write library = .ok text) ↔ policy.maxRetries.toNat ≤ 2 ^ 63 - 1 ∧
      policy.baseDelay.toNat ≤ 2 ^ 63 - 1 ∧ policy.maxDelay.toNat ≤ 2 ^ 63 - 1) ∧
    (∀ text, policy.write library = .ok text → read library text = .ok policy ∧
      ∃ rows, Document rows text.toList ∧ (rows.map Row.name).Perm names ∧
        ∀ row ∈ rows, policy.Gives row) ∧
    ∀ rows text, Document rows text.toList → (rows.map Row.name).Nodup →
      (∀ row ∈ rows, policy.Gives row ∨ row.name ∉ names) →
        read library text = .ok (policy.restricted (rows.map Row.name)) := by
  refine ⟨?_, ?_, fun rows text => read_document laws⟩
  · simp only [write_eq_ok_iff]
    rw [laws.write_ok_iff policy.distinct_fields]
    simp [Fin.forall_fin_succ, fields]
  · intro text wrote
    obtain ⟨rows, document, same, own⟩ :=
      laws.written policy.distinct_fields (fun index => isBare_of_mem (policy.name_mem index))
        (write_eq_ok_iff.mp wrote)
    rw [policy.names_fields] at same
    have distinct : (rows.map Row.name).Nodup := same.nodup_iff.mpr (by decide)
    have whole := read_document laws document distinct fun row member => .inl (own row member)
    rw [restricted_of_perm same] at whole
    exact ⟨whole, rows, document, same, own⟩

/-- The lines stand in another order, one of them is left out, and one with a quoted key and a
hexadecimal number comes between. -/
theorem document_round_trip_reordered :
    let policy : RetryPolicy := ⟨7, 5, 9223372036854775807⟩
    let text := "max_retries = 7\nbase_delay_ms = 5\nmax_delay_ms = 9223372036854775807\n"
    let changed := "max_delay_ms = 9223372036854775807\r\n \"a\\tb\" =0xf_F# x\nmax_retries = 7"
    Library.standard.Laws ∧ policy.toText = .ok text ∧ read .standard text = .ok policy ∧
      read .standard changed = .ok ⟨7, 0, 9223372036854775807⟩ := by
  intro policy text changed
  have written : policy.toText = .ok text := by decide +kernel
  obtain ⟨_, whole, parts⟩ := document_round_trip standard_laws policy
  have line (name : String) (listed : name ∈ names) (number : Int64) :
      LineSpells name number.toInt
        (name.toList ++ (' ' :: '=' :: ' ' :: (toString number).toList)) :=
    lineSpells_printed (isBare_of_mem listed) number
  let retries : Row := ⟨"max_retries", 7, _, line _ (by decide) 7⟩
  let cap : Row := ⟨"max_delay_ms", 9223372036854775807, _, line _ (by decide) _⟩
  have foreign : LineSpells "a\tb" (255 : Int64).toInt " \"a\\tb\" =0xf_F# x".toList := by
    have blank : Blank [' '] := by simp [Blank, isBlank]
    have none : Blank [] := by simp [Blank]
    have content : BasicSpells ['a', '\t', 'b'] ['a', '\\', 't', 'b'] :=
      .plain rfl (by decide) (by decide) (.escaped (by decide)
        (.plain rfl (by decide) (by decide) .nil))
    have number : IntegerSpells (numeral 16 ['f', 'F']) ['0', 'x', 'f', '_', 'F'] :=
      .radix (by decide) rfl (.scored rfl .nil) (by decide)
    have remark : RemarkSpells ['#', ' ', 'x'] := .comment (List.all_eq_true.mp (by decide))
    exact .intro blank (.basic content) blank none number none remark
  let extra : Row := ⟨"a\tb", 255, _, foreign⟩
  have spelled : ("max_delay_ms".toList ++
        (' ' :: '=' :: ' ' :: (toString (9223372036854775807 : Int64)).toList)) ++
      (['\r', '\n'] ++ (" \"a\\tb\" =0xf_F# x".toList ++ (['\n'] ++
        ("max_retries".toList ++ (' ' :: '=' :: ' ' :: (toString (7 : Int64)).toList))))) =
    changed.toList := by decide
  have document : Document [cap, extra, retries] changed.toList :=
    spelled ▸ .line cap .carriage (.line extra .feed (.last retries))
  have distinct : ["max_delay_ms", "a\tb", "max_retries"].Nodup := by decide
  have other : "a\tb" ∉ names := by decide
  have mine : ∀ row ∈ [cap, extra, retries], policy.Gives row ∨ row.name ∉ names := by
    simp only [List.forall_mem_cons, List.not_mem_nil, false_implies, implies_true, and_true]
    exact ⟨.inl ⟨2, rfl, _, rfl, rfl⟩, .inr other, .inl ⟨0, rfl, _, rfl, rfl⟩⟩
  exact ⟨standard_laws, written, (whole text written).1, parts _ _ document distinct mine⟩

end TransactionalMemory.RetryPolicy
