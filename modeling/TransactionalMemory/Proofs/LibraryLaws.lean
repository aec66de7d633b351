import Mathlib.Data.List.FinRange
import Mathlib.Data.List.Forall2
import TransactionalMemory.Proofs.IntegerDocuments

/-! What is known of libraries for TOML, as far as records of unsigned words need it. Integers are
signed words of 64 bits, tables have no order, keys are bare or quoted, and what a line may look
like is told by the grammar alone. -/
namespace TransactionalMemory.Toml

/-- An entry of a table, with the integer it holds, under the name of a field and with its word. -/
def Field.Written (field : Field) (entry : String × Option Int64) : Prop :=
  entry.1 = field.name ∧ ∃ number, entry.2 = some number ∧ number.toInt = field.value.toNat

/-- The word stands among the entries under the name of the field, or nothing does and it is the
word of the field. -/
def Field.Filled (field : Field) (entries : List (String × Option Int64)) (word : UInt64) : Prop :=
  (∃ entry ∈ entries, Written {field with value := word} entry) ∨
    field.name ∉ entries.map Prod.fst ∧ word = field.value

/-- No two fields have the same name. -/
def Distinct {size : Nat} (fields : Fin size → Field) : Prop :=
  ∀ index other, (fields index).name = (fields other).name → index = other

def IsBare (name : String) : Prop :=
  name ≠ "" ∧ ∀ c ∈ name.toList, isBareKey c = true

namespace Library

def integers (library : Library) (table : List (String × library.Value)) :
    List (String × Option Int64) :=
  table.map fun entry => (entry.1, library.integer? entry.2)

structure Laws (library : Library) : Prop where
  /-- A record can be written if each of its words is one of the integers of the format. -/
  serializes : ∀ {size : Nat} (fields : Fin size → Field),
    (∀ index, ∃ number : Int64, number.toInt = (fields index).value.toNat) →
      ∃ table, library.serialize fields = .ok table
  /-- The table of a record has an entry for each field. -/
  serialized : ∀ {size : Nat} {fields : Fin size → Field} {table : List (String × library.Value)},
    Distinct fields → library.serialize fields = .ok table →
      List.Forall₂ Field.Written (List.ofFn fields) (library.integers table)
  /-- A table of integers is printed as a document with one line for each of them. -/
  prints : ∀ {table : List (String × library.Value)},
    (∀ entry ∈ library.integers table, IsBare entry.1 ∧ entry.2.isSome) →
      ((library.integers table).map Prod.fst).Nodup →
        ∃ rows, Document rows (library.print table).toList ∧
          (rows.map Row.entry).Perm (library.integers table)
  /-- A document in which each line gives an integer to a key of its own is read as a table. -/
  parses : ∀ {rows : List Row} {text : String}, Document rows text.toList →
    (rows.map Row.name).Nodup → ∃ table, library.parse text = .ok table ∧
      (library.integers table).Perm (rows.map Row.entry)
  /-- The fields of a record are looked up by name, and other entries are ignored. -/
  deserializes : ∀ {size : Nat} {defaults : Fin size → Field} {words : Fin size → UInt64}
    {table : List (String × library.Value)}, Distinct defaults →
      ((library.integers table).map Prod.fst).Nodup →
        (∀ index, (defaults index).Filled (library.integers table) (words index)) →
          library.deserialize defaults table = .ok words

end Library

private theorem exists_toInt_eq (word : UInt64) :
    (∃ number : Int64, number.toInt = word.toNat) ↔ word.toNat ≤ 2 ^ 63 - 1 := by
  constructor
  · rintro ⟨number, same⟩
    have bound := number.toInt_lt
    omega
  · intro fits
    exact ⟨.ofInt word.toNat, Int64.toInt_ofInt_of_le (by omega) (by omega)⟩

private theorem fst_entry (rows : List Row) :
    (rows.map Row.entry).map Prod.fst = rows.map Row.name := by
  rw [List.map_map]
  rfl

private theorem names_of_written {fields : List Field} {entries : List (String × Option Int64)}
    (written : List.Forall₂ Field.Written fields entries) :
    entries.map Prod.fst = fields.map Field.name := by
  induction written with
  | nil => rfl
  | cons first rest ih => rw [List.map_cons, List.map_cons, first.1, ih]

private theorem exists_of_forall₂ {α β : Type} {holds : α → β → Prop} {firsts : List α}
    {seconds : List β} (related : List.Forall₂ holds firsts seconds) {first : α}
    (member : first ∈ firsts) : ∃ second ∈ seconds, holds first second := by
  induction related with
  | nil => cases member
  | cons one more ih =>
    rcases List.mem_cons.mp member with rfl | member
    · exact ⟨_, List.mem_cons_self, one⟩
    · obtain ⟨second, listed, same⟩ := ih member
      exact ⟨second, List.mem_cons_of_mem _ listed, same⟩

private theorem Field.Filled.perm {field : Field} {entries entries' : List (String × Option Int64)}
    {word : UInt64} (same : entries.Perm entries') (filled : field.Filled entries word) :
    field.Filled entries' word := by
  rcases filled with ⟨entry, member, written⟩ | ⟨absent, rfl⟩
  · exact .inl ⟨entry, same.mem_iff.mp member, written⟩
  · exact .inr ⟨fun member => absent ((same.map Prod.fst).mem_iff.mpr member), rfl⟩

namespace Library
variable {library : Library} {size : Nat} {fields : Fin size → Field} {text : String}

private theorem exists_table (wrote : library.write fields = .ok text) :
    ∃ table, library.serialize fields = .ok table ∧ library.print table = text := by
  unfold write at wrote
  cases made : library.serialize fields with
  | error reason =>
    rw [made] at wrote
    cases wrote
  | ok table =>
    rw [made] at wrote
    cases wrote
    exact ⟨table, rfl, rfl⟩

namespace Laws

theorem write_ok_iff (laws : library.Laws) (distinct : Distinct fields) :
    (∃ text, library.write fields = .ok text) ↔
      ∀ index, (fields index).value.toNat ≤ 2 ^ 63 - 1 := by
  simp only [← exists_toInt_eq]
  constructor
  · rintro ⟨text, wrote⟩ index
    obtain ⟨table, made, _⟩ := exists_table wrote
    have listed : fields index ∈ List.ofFn fields := List.mem_ofFn.mpr ⟨index, rfl⟩
    obtain ⟨entry, _, _, number, _, same⟩ :=
      exists_of_forall₂ (laws.serialized distinct made) listed
    exact ⟨number, same⟩
  · intro fits
    obtain ⟨table, made⟩ := laws.serializes fields fits
    exact ⟨library.print table, by rw [write, made]; rfl⟩

/-- What is written is a document with one line for each field. -/
theorem written (laws : library.Laws) (distinct : Distinct fields)
    (bare : ∀ index, IsBare (fields index).name) (wrote : library.write fields = .ok text) :
    ∃ rows, Document rows text.toList ∧
      (rows.map Row.name).Perm ((List.ofFn fields).map Field.name) ∧
      ∀ row ∈ rows, ∃ index, (fields index).Written row.entry := by
  obtain ⟨table, made, rfl⟩ := exists_table wrote
  have written := laws.serialized distinct made
  have names := names_of_written written
  have source : ∀ entry ∈ library.integers table, ∃ index, (fields index).Written entry := by
    intro entry member
    obtain ⟨field, listed, written⟩ := exists_of_forall₂ written.flip member
    obtain ⟨index, rfl⟩ := List.mem_ofFn.mp listed
    exact ⟨index, written⟩
  have simple : ∀ entry ∈ library.integers table, IsBare entry.1 ∧ entry.2.isSome := by
    intro entry member
    obtain ⟨index, name, number, found, _⟩ := source entry member
    rw [name, found]
    exact ⟨bare index, rfl⟩
  have once : ((library.integers table).map Prod.fst).Nodup := by
    rw [names, List.map_ofFn]
    exact List.nodup_ofFn.mpr distinct
  obtain ⟨rows, document, same⟩ := laws.prints simple once
  refine ⟨rows, document, ?_, fun row member => ?_⟩
  · rw [← fst_entry, ← names]
    exact same.map Prod.fst
  · exact source _ (same.mem_iff.mp (List.mem_map_of_mem member))

/-- Each line under the name of a field gives the word of that field. A field without a line has its
default. -/
theorem read_rows (laws : library.Laws) {defaults : Fin size → Field} {rows : List Row}
    (names : ∀ index, (defaults index).name = (fields index).name) (unique : Distinct defaults)
    (document : Document rows text.toList) (distinct : (rows.map Row.name).Nodup)
    (own : ∀ row ∈ rows, ∀ index, (fields index).name = row.name →
      (fields index).Written row.entry) :
    library.read defaults text = .ok fun index =>
      if (fields index).name ∈ rows.map Row.name then (fields index).value
      else (defaults index).value := by
  obtain ⟨table, parsed, same⟩ := laws.parses document distinct
  have once : ((library.integers table).map Prod.fst).Nodup := by
    rwa [(same.map Prod.fst).nodup_iff, fst_entry]
  -- The order of the lines is forgotten here: all that counts is which entries there are.
  have filled (index : Fin size) : (defaults index).Filled (library.integers table)
      (if (fields index).name ∈ rows.map Row.name then (fields index).value
        else (defaults index).value) := by
    refine Field.Filled.perm same.symm ?_
    split
    · next listed =>
      obtain ⟨row, member, equal⟩ := List.mem_map.mp listed
      obtain ⟨_, value⟩ := own row member index equal.symm
      exact .inl ⟨row.entry, List.mem_map_of_mem member, equal.trans (names index).symm, value⟩
    · next absent =>
      refine .inr ⟨?_, rfl⟩
      rwa [fst_entry, names index]
  rw [read, parsed]
  simp only [bind, Except.bind, laws.deserializes unique once filled, Except.mapError]

end Laws
end Library
end TransactionalMemory.Toml
