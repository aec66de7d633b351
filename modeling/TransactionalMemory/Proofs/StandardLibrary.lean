import TransactionalMemory.Proofs.LibraryLaws

/-! The parser and the printer of this library keep the laws of a library for TOML. -/
namespace TransactionalMemory.Toml

private theorem entries_ok_iff {fields : List Field} {table : Table} :
    fields.mapM Field.entry = .ok table ↔
      List.Forall₂ (fun field entry => field.entry = .ok entry) fields table := by
  induction fields generalizing table with
  | nil => cases table <;> simp [pure, Except.pure]
  | cons field fields ih =>
    rw [List.mapM_cons]
    cases first : field.entry with
    | error reason => cases table <;> simp [bind, Except.bind, first]
    | ok entry =>
      cases rest : fields.mapM Field.entry with
      | error reason =>
        cases table <;> simp [bind, Except.bind, ← ih, rest, first]
      | ok others =>
        cases table <;> simp [bind, Except.bind, pure, Except.pure, ← ih, rest, first]

private theorem entry_written {field : Field} {entry : String × Node}
    (made : field.entry = .ok entry) : field.Written (entry.1, entry.2.integer?) := by
  unfold Field.entry at made
  split at made
  · next fits =>
    cases made
    have greatest : Int64.maxValue.toInt = 2 ^ 63 - 1 := by decide
    exact ⟨rfl, _, rfl, Int64.toInt_ofInt_of_le (by omega) (by omega)⟩
  · cases made

private theorem exists_entry {field : Field} {number : Int64}
    (same : number.toInt = field.value.toNat) : ∃ entry, field.entry = .ok entry := by
  have fits : field.value.toNat ≤ Int64.maxValue.toInt := same ▸ number.toInt_le
  exact ⟨_, if_pos fits⟩

private theorem exists_entries {fields : List Field}
    (fits : ∀ field ∈ fields, ∃ number : Int64, number.toInt = field.value.toNat) :
    ∃ table, fields.mapM Field.entry = .ok table := by
  simp only [entries_ok_iff]
  induction fields with
  | nil => exact ⟨[], .nil⟩
  | cons field fields ih =>
    obtain ⟨⟨number, same⟩, others⟩ := List.forall_mem_cons.mp fits
    obtain ⟨entry, first⟩ := exists_entry same
    obtain ⟨table, rest⟩ := ih others
    exact ⟨entry :: table, .cons first rest⟩

theorem lineSpells_printed {name : String} (bare : IsBare name) (number : Int64) :
    LineSpells name number.toInt
      (name.toList ++ (' ' :: '=' :: ' ' :: (toString number).toList)) := by
  have names : KeySpells name name.toList := by
    have spells : KeySpells (String.ofList name.toList) name.toList := by
      refine .bare ?_ bare.2
      simpa using bare.1
    rwa [String.ofList_toList] at spells
  have blank : Blank [' '] := by simp [Blank, isBlank]
  have none : Blank [] := by simp [Blank]
  have line := LineSpells.intro none names blank blank (integerSpells_toString number) none .absent
  simpa using line

private theorem printed_document {table : Table}
    (simple : ∀ entry ∈ table.integers, IsBare entry.1 ∧ entry.2.isSome) :
    ∃ rows, Document rows table.print.toList ∧ rows.map Row.entry = table.integers := by
  induction table with
  | nil => exact ⟨[], .empty, rfl⟩
  | cons entry table ih =>
    obtain ⟨name, node⟩ := entry
    have simple : ∀ entry ∈ (name, node.integer?) :: Table.integers table,
      IsBare entry.1 ∧ entry.2.isSome := simple
    obtain ⟨⟨bare, integral⟩, others⟩ := List.forall_mem_cons.mp simple
    obtain ⟨rows, document, same⟩ := ih others
    obtain ⟨number, found⟩ : ∃ number, node.integer? = some number :=
      Option.isSome_iff_exists.mp integral
    let row : Row := ⟨name, number, _, lineSpells_printed bare number⟩
    have text : (Table.print ((name, node) :: table)).toList =
        row.written ++ (['\n'] ++ (Table.print table).toList) := by
      rw [Table.print, List.map_cons, String.join_cons, String.toList_append, ← Table.print]
      simp [printLine, found, row]
    have entries : Table.integers ((name, node) :: table) = row.entry :: Table.integers table :=
      congrArg (· :: _) (Prod.ext rfl found)
    rw [text, entries, ← same]
    exact ⟨row :: rows, .line row .feed document, rfl⟩

private theorem unsigned_of_integer {node : Node} {number : Int64} {word : UInt64} (type : String)
    (found : node.integer? = some number) (same : number.toInt = word.toNat) :
    node.unsigned type = .ok word := by
  cases node with
  | value extent literal =>
    cases literal with
    | integer value =>
      obtain rfl := Option.some.inj found
      simp [Node.unsigned, Literal.unsigned?, same]
    | _ => cases found
  | _ => cases found

section
variable {field : Field} {entry : String × Option Int64} {entries : List (String × Option Int64)}
  {word : UInt64}

private theorem filled_tail (other : entry.1 ≠ field.name)
    (filled : field.Filled (entry :: entries) word) : field.Filled entries word := by
  rcases filled with ⟨found, member, written⟩ | ⟨absent, same⟩
  · rcases List.mem_cons.mp member with rfl | member
    · exact absurd written.1 other
    · exact .inl ⟨found, member, written⟩
  · exact .inr ⟨fun member => absent (List.mem_cons_of_mem _ member), same⟩

private theorem filled_head (same : entry.1 = field.name) (fresh : entry.1 ∉ entries.map Prod.fst)
    (filled : field.Filled (entry :: entries) word) :
    Field.Written {field with value := word} entry := by
  rcases filled with ⟨found, member, written⟩ | ⟨absent, _⟩
  · rcases List.mem_cons.mp member with rfl | member
    · exact written
    · have named : found.1 = entry.1 := written.1.trans same.symm
      exact absurd (named ▸ List.mem_map_of_mem member) fresh
  · exact absurd (by simp [same]) absent

end

/-- The induction is over the table; `start` is what the entries before have given. -/
private theorem foldlM_assignedField {size : Nat} {defaults : Fin size → Field}
    {start words : Fin size → UInt64} {table : Table} (distinct : Distinct defaults)
    (once : (table.integers.map Prod.fst).Nodup)
    (filled : ∀ index,
      Field.Filled {defaults index with value := start index} table.integers (words index)) :
    table.foldlM (Table.assignedField defaults) start = .ok words := by
  induction table generalizing start with
  | nil =>
    refine congrArg Except.ok (funext fun index => ?_)
    rcases filled index with ⟨_, member, _⟩ | ⟨_, same⟩
    · cases member
    · exact same.symm
  | cons entry table ih =>
    obtain ⟨name, node⟩ := entry
    obtain ⟨fresh, once⟩ := List.nodup_cons.mp once
    rw [List.foldlM_cons]
    cases chosen : (List.finRange size).find? fun index => (defaults index).name = name with
    | none =>
      have step : Table.assignedField defaults start (name, node) = .ok start := by
        simp only [Table.assignedField, chosen]
      rw [step]
      refine ih once fun index => filled_tail (fun same => ?_) (filled index)
      have other := List.find?_eq_none.mp chosen index (List.mem_finRange index)
      exact other (decide_eq_true same.symm)
    | some index =>
      have same : (defaults index).name = name := by simpa using List.find?_some chosen
      obtain ⟨_, number, found, value⟩ := filled_head same.symm fresh (filled index)
      have step : Table.assignedField defaults start (name, node) =
          .ok fun other => if other = index then words index else start other := by
        simp only [Table.assignedField, chosen, unsigned_of_integer _ found value]
        rfl
      rw [step]
      refine ih once fun other => ?_
      by_cases self : other = index
      · subst self
        refine .inr ⟨?_, by simp⟩
        rwa [same]
      · have apart : name ≠ (defaults other).name :=
          fun named => self (distinct other index (named.symm.trans same.symm))
        rw [if_neg self]
        exact filled_tail apart (filled other)

theorem standard_laws : Library.standard.Laws where
  serializes fields fits := exists_entries (List.forall_mem_ofFn_iff.mpr fits)
  serialized distinct made :=
    List.forall₂_map_right_iff.mpr ((entries_ok_iff.mp made).imp fun _ _ => entry_written)
  prints simple once := by
    obtain ⟨rows, document, same⟩ := printed_document simple
    exact ⟨rows, document, .of_eq same⟩
  parses document distinct := by
    obtain ⟨table, read, same⟩ := parse_document document distinct
    exact ⟨table, read, .of_eq same⟩
  deserializes distinct once filled := foldlM_assignedField distinct once filled

end TransactionalMemory.Toml
