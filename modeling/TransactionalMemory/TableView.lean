import TransactionalMemory.Table

/-! What a reader sees in a table after each operation. Every operation is described through
`lookup`, which leaves no trace in the log; the entries as a whole say the same. -/
namespace TransactionalMemory
variable {K V : Type} [Ord K] [Std.TransOrd K]

namespace Table

@[simp] theorem lookup_touch (key other : K) (table : Table K V) :
    (table.touch key).lookup other = table.lookup other := by
  simp only [touch]
  split <;> rfl

end Table

variable [Std.LawfulEqOrd K]

@[simp] theorem Entries.mem_keySet (entries : Entries K V) (key : K) :
    key ∈ entries.keySet ↔ key ∈ entries := by
  classical
  simp [keySet, Std.ExtTreeSet.mem_ofList]

namespace Table

theorem getElem?_entries (table : Table K V) (key : K) :
    table.entries[key]? = table.lookup key := by
  simp only [entries, Entries.overlay, lookup, Std.ExtTreeMap.getElem?_filter',
    Std.ExtTreeMap.getElem?_union]
  cases (table.modified[key]?).or table.source.content[key]? <;>
    by_cases gone : key ∈ table.deleted <;> simp [gone]

theorem entries_ofObject (source : Object (Entries K V)) :
    (ofObject source).entries = source.content := by
  apply Std.ExtTreeMap.ext_getElem?
  intro key
  simp [getElem?_entries, lookup, ofObject]

@[simp] theorem lookup_put_self (key : K) (object : Object V) (table : Table K V) :
    (table.put key object).2.lookup key = some object := by
  simp [put, lookup]

theorem lookup_put_of_ne {key other : K} (apart : key ≠ other) (object : Object V)
    (table : Table K V) : (table.put key object).2.lookup other = table.lookup other := by
  rw [← lookup_touch key other table]
  simp [put, lookup, Std.ExtTreeMap.getElem?_insert, Std.ExtTreeSet.mem_erase, apart]

@[simp] theorem lookup_remove_self (key : K) (table : Table K V) :
    (table.remove key).2.lookup key = none := by
  simp only [remove, lookup]
  by_cases present : key ∈ (table.touch key).source.content <;> simp [present]

theorem lookup_remove_of_ne {key other : K} (apart : key ≠ other) (table : Table K V) :
    (table.remove key).2.lookup other = table.lookup other := by
  rw [← lookup_touch key other table]
  simp only [remove, lookup]
  by_cases present : key ∈ (table.touch key).source.content <;>
    simp [present, Std.ExtTreeMap.getElem?_erase, Std.ExtTreeSet.mem_insert, apart]

/-- After a clear every committed key counts as deleted. -/
@[simp] theorem lookup_clear (key : K) (table : Table K V) : table.clear.lookup key = none := by
  simp only [clear, lookup]
  by_cases present : key ∈ table.touchCommitted.source.content <;> simp [present]

end Table
end TransactionalMemory
