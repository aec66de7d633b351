import Mathlib.Order.BooleanAlgebra.Set
import TransactionalMemory.Proofs.PlainTable
import TransactionalMemory.Proofs.RememberedReads
import TransactionalMemory.Proofs.Sources

/-! A multimap between two commits is a set of pairs. Each key that is stored has a set of its own,
and none of these sets is ever empty: whatever would leave one empty removes the key instead. That
is why the keys of the table are the keys of the pairs, and are counted right. -/
namespace TransactionalMemory

/-- The pairs that the stored sets make up. -/
def Entries.pairs {K V : Type} [Ord K] [Std.TransOrd K] [Ord V] [Std.TransOrd V]
    (entries : Entries K (ValueSet V)) : Set (K × V) :=
  {pair | ∃ object, entries[pair.1]? = some object ∧ pair.2 ∈ object.content}

namespace Multimap
variable {K V : Type}

/-- What a request makes of a set of pairs. -/
def Request.apply (pairs : Set (K × V)) : Request K V → Set (K × V)
  | .put key value => insert (key, value) pairs
  | .putAll key values => pairs ∪ {pair | pair.1 = key ∧ pair.2 ∈ values}
  | .removeValue key value => pairs \ {(key, value)}
  | .remove key => {pair ∈ pairs | pair.1 ≠ key}
  | .clear => ∅
  | _ => pairs

/-- All keys that have a value, each of them once. -/
structure Lists (pairs : Set (K × V)) (order : List K) : Prop where
  once : order.Nodup
  all : ∀ key, key ∈ order ↔ ∃ value, (key, value) ∈ pairs

def Holds [Ord V] [Std.TransOrd V] (pairs : Set (K × V)) (key : K) (set : ValueSet V) : Prop :=
  ∀ value, value ∈ set ↔ (key, value) ∈ pairs

/-- The answer of a set of pairs to a request. Whatever changes the values of a key answers with
the previous ones. Keys may be listed in any order. -/
inductive Answers [Ord V] [Std.TransOrd V] (pairs : Set (K × V)) :
    Request K V → Reply K V → Prop where
  | get {key : K} {set : ValueSet V} (holds : Holds pairs key set) :
      Answers pairs (.get key) (.values set)
  | contains {key : K} {truth : Bool} (has : truth = true ↔ ∃ value, (key, value) ∈ pairs) :
      Answers pairs (.contains key) (.flag truth)
  | put {key : K} {set : ValueSet V} (value : V) (holds : Holds pairs key set) :
      Answers pairs (.put key value) (.values set)
  | putAll {key : K} {set : ValueSet V} (values : List V) (holds : Holds pairs key set) :
      Answers pairs (.putAll key values) (.values set)
  | removeValue {key : K} {set : ValueSet V} (value : V) (holds : Holds pairs key set) :
      Answers pairs (.removeValue key value) (.values set)
  | remove {key : K} {set : ValueSet V} (holds : Holds pairs key set) :
      Answers pairs (.remove key) (.values set)
  | clear : Answers pairs .clear .done
  | size {order : List K} (lists : Lists pairs order) : Answers pairs .size (.count order.length)
  | isEmpty {truth : Bool} (has : truth = true ↔ pairs = ∅) : Answers pairs .isEmpty (.flag truth)
  | keys (limit : Option Nat) {order : List K} (lists : Lists pairs order) :
      Answers pairs (.keys limit) (.listing (.upTo limit order))

end Multimap

namespace Entries
variable {K V : Type} [Ord K] [Std.TransOrd K] [Ord V] [Std.TransOrd V]
  {entries : Entries K (ValueSet V)}

theorem pairs_empty : pairs (∅ : Entries K (ValueSet V)) = ∅ := by
  ext pair
  simp [pairs]

theorem mem_iff_pairs (filled : entries.Every fun object => Multimap.Filled object.content)
    (key : K) : key ∈ entries ↔ ∃ value, (key, value) ∈ entries.pairs := by
  rw [Std.ExtTreeMap.mem_iff_isSome_getElem?, Option.isSome_iff_exists]
  constructor
  · rintro ⟨object, found⟩
    obtain ⟨value, member⟩ : ∃ value, value ∈ object.content := by
      by_contra none
      exact filled key object found
        (Std.ExtTreeSet.eq_empty_iff_forall_not_mem.mpr fun value member => none ⟨value, member⟩)
    exact ⟨value, object, found, member⟩
  · rintro ⟨value, object, found, _⟩
    exact ⟨object, found⟩

private theorem pairs_eq_empty_iff
    (filled : entries.Every fun object => Multimap.Filled object.content) :
    entries.pairs = ∅ ↔ entries = ∅ := by
  rw [Std.ExtTreeMap.eq_empty_iff_forall_not_mem, Set.eq_empty_iff_forall_notMem]
  simp only [mem_iff_pairs filled, not_exists, Prod.forall]

variable [Std.LawfulEqOrd K]

private theorem pairs_insert (key : K) (object : Object (ValueSet V))
    (entries : Entries K (ValueSet V)) :
    pairs (entries.insert key object) =
      {pair | pair.1 = key ∧ pair.2 ∈ object.content ∨ pair.1 ≠ key ∧ pair ∈ entries.pairs} := by
  ext ⟨other, value⟩
  by_cases same : key = other
  · subst same
    simp [pairs]
  · simp [pairs, Std.ExtTreeMap.getElem?_insert, same, Ne.symm same]

private theorem pairs_erase (key : K) (entries : Entries K (ValueSet V)) :
    pairs (entries.erase key) = {pair ∈ entries.pairs | pair.1 ≠ key} := by
  ext ⟨other, value⟩
  by_cases same : key = other
  · subst same
    simp [pairs]
  · simp [pairs, Std.ExtTreeMap.getElem?_erase, same, Ne.symm same]

end Entries

namespace Multimap
variable {K V : Type} [Ord K] [Std.TransOrd K] [Ord V]
  {multimap : Multimap K V} {marks : Object (ValueSet V) → Prop}

private theorem fst_replace (fresh : Identity) (key : K) (set : ValueSet V)
    (multimap : Multimap K V) : (multimap.replace fresh key set).1 = (multimap.get key).1 := by
  unfold replace
  split <;> rfl

private theorem entries_get (key : K) (multimap : Multimap K V) :
    (multimap.get key).2.table.entries = multimap.table.entries :=
  Table.entries_touch key multimap.table

private theorem every_touched (written : multimap.table.modified.Every marks) (key : K) :
    (multimap.get key).2.table.modified.Every marks := by
  injection Table.unlogged_touch key multimap.table with _ kept
  exact kept.symm ▸ written

private theorem every_replace (written : multimap.table.modified.Every marks) (fresh : Identity)
    (key : K) {set : ValueSet V} (new : Filled set → marks ⟨fresh, set⟩) :
    (multimap.replace fresh key set).2.table.modified.Every marks := by
  have touched := every_touched written key
  cases empty : set.isEmpty with
  | true =>
    rw [replace, if_pos empty]
    exact touched.erase key
  | false =>
    rw [replace, if_neg (by simp [empty])]
    exact touched.insert key (new fun same => by simp [same] at empty)

variable [Std.TransOrd V]

/-- A request stores at most one set, under the identity that it is given. -/
theorem every_perform (fresh : Identity) (multimap : Multimap K V) (request : Request K V) :
    ∃ set, ∀ marks, multimap.table.modified.Every marks → (Filled set → marks ⟨fresh, set⟩) →
      (multimap.perform fresh request).2.table.modified.Every marks := by
  have whole : multimap.table.touchWhole.modified = multimap.table.modified := by
    injection Table.unlogged_touchWhole multimap.table
  cases request with
  | get key => exact ⟨∅, fun _ written _ => every_touched written key⟩
  | contains key => exact ⟨∅, fun _ written _ => every_touched written key⟩
  | put key value =>
    exact ⟨_, fun _ written new => every_replace (every_touched written key) fresh key new⟩
  | putAll key values =>
    exact ⟨_, fun _ written new => every_replace (every_touched written key) fresh key new⟩
  | removeValue key value =>
    simp only [perform, removeValue, Prod.map_snd, id]
    split
    · exact ⟨_, fun _ written new => every_replace (every_touched written key) fresh key new⟩
    · exact ⟨∅, fun _ written _ => every_touched written key⟩
  | remove key => exact ⟨∅, fun _ written _ => (every_touched written key).erase key⟩
  | clear => exact ⟨∅, fun marks _ _ => Entries.every_empty marks⟩
  | size => exact ⟨∅, fun _ written _ => whole.symm ▸ written⟩
  | isEmpty =>
    refine ⟨∅, fun marks written _ => ?_⟩
    show multimap.table.isEmpty.2.modified.Every marks
    rcases multimap.table.snd_isEmpty with same | same <;> rw [same]
    · exact written
    · exact whole.symm ▸ written
  | keys limit =>
    refine ⟨∅, fun marks written _ => ?_⟩
    show (multimap.table.keys limit).2.modified.Every marks
    rcases multimap.table.snd_keys limit with same | same <;> rw [same]
    · exact written
    · exact whole.symm ▸ written

private theorem fst_putAll (fresh : Identity) (key : K) (added : List V) (multimap : Multimap K V) :
    (multimap.putAll fresh key added).1 = (multimap.get key).1 := by
  have again : ((multimap.get key).2.get key).1 = (multimap.get key).1 := by
    simp only [get, Table.get, Prod.map_fst, Prod.map_snd, Table.lookup_touch]
  exact (fst_replace fresh key _ (multimap.get key).2).trans again

private theorem removeValue_of_mem {key : K} {removed : V}
    (present : removed ∈ (multimap.get key).1) (fresh : Identity) :
    multimap.removeValue fresh key removed = ((multimap.get key).1,
      ((multimap.get key).2.replace fresh key ((multimap.get key).1.erase removed)).2) :=
  if_pos present

private theorem removeValue_of_not_mem {key : K} {removed : V}
    (absent : removed ∉ (multimap.get key).1) (fresh : Identity) :
    multimap.removeValue fresh key removed = multimap.get key :=
  if_neg absent

private theorem fst_removeValue (fresh : Identity) (key : K) (removed : V)
    (multimap : Multimap K V) :
    (multimap.removeValue fresh key removed).1 = (multimap.get key).1 := by
  by_cases present : removed ∈ (multimap.get key).1
  · rw [removeValue_of_mem present]
  · rw [removeValue_of_not_mem present]

variable [Std.LawfulEqOrd K]

theorem holds_get (multimap : Multimap K V) (key : K) :
    Holds multimap.table.entries.pairs key (multimap.get key).1 := by
  intro value
  have found := Table.getElem?_entries multimap.table key
  show value ∈ (multimap.get key).1 ↔ ∃ object, multimap.table.entries[key]? = some object ∧ _
  rw [found, get, Table.get]
  cases multimap.table.lookup key with
  | none => exact iff_of_false Std.ExtTreeSet.not_mem_empty (by simp)
  | some object => exact iff_of_eq (by simp; rfl)

private theorem pairs_replace (fresh : Identity) (key : K) (set : ValueSet V)
    (multimap : Multimap K V) :
    (multimap.replace fresh key set).2.table.entries.pairs =
      {pair | pair.1 = key ∧ pair.2 ∈ set ∨
        pair.1 ≠ key ∧ pair ∈ multimap.table.entries.pairs} := by
  cases empty : set.isEmpty with
  | true =>
    rw [replace, if_pos empty, Std.ExtTreeSet.isEmpty_iff.mp empty, remove, Prod.map_snd,
      Table.entries_remove, Entries.pairs_erase]
    ext pair
    simp [and_comm]
  | false =>
    rw [replace, if_neg (by simp [empty]), Prod.map_snd, Table.entries_put, Entries.pairs_insert]

variable [Std.LawfulEqOrd V]

private theorem pairs_putAll (fresh : Identity) (key : K) (added : List V)
    (multimap : Multimap K V) :
    (multimap.putAll fresh key added).2.table.entries.pairs =
      multimap.table.entries.pairs ∪ {pair | pair.1 = key ∧ pair.2 ∈ added} := by
  classical
  have holds := multimap.holds_get key
  show (replace fresh key ((multimap.get key).1.insertMany added)
    (multimap.get key).2).2.table.entries.pairs = _
  rw [pairs_replace, entries_get]
  ext ⟨other, value⟩
  by_cases same : other = key
  · subst same
    simp [holds value]
  · simp [same]

private theorem pairs_removeValue (fresh : Identity) (key : K) (removed : V)
    (multimap : Multimap K V) :
    (multimap.removeValue fresh key removed).2.table.entries.pairs =
      multimap.table.entries.pairs \ {(key, removed)} := by
  have holds := multimap.holds_get key
  by_cases present : removed ∈ (multimap.get key).1
  · rw [removeValue_of_mem present, pairs_replace, entries_get]
    ext ⟨other, value⟩
    by_cases same : other = key
    · subst same
      simp [holds value, and_comm, eq_comm (a := value)]
    · simp [same]
  · rw [removeValue_of_not_mem present, entries_get]
    rw [holds removed] at present
    exact (Set.sdiff_singleton_eq_self present).symm

theorem pairs_perform (fresh : Identity) (multimap : Multimap K V) (request : Request K V) :
    (multimap.perform fresh request).2.table.entries.pairs =
      request.apply multimap.table.entries.pairs := by
  cases request with
  | get key => exact congrArg Entries.pairs (entries_get key multimap)
  | contains key => exact congrArg Entries.pairs (Table.entries_touch key multimap.table)
  | put key value =>
    refine (pairs_putAll fresh key [value] multimap).trans ?_
    ext ⟨other, found⟩
    simp [Request.apply, or_comm]
  | putAll key values => exact pairs_putAll fresh key values multimap
  | removeValue key value => exact pairs_removeValue fresh key value multimap
  | remove key =>
    show Entries.pairs (multimap.table.remove key).2.entries = _
    rw [Table.entries_remove, Entries.pairs_erase]
    rfl
  | clear =>
    show Entries.pairs multimap.table.clear.entries = _
    rw [Table.entries_clear, Entries.pairs_empty]
    rfl
  | size => exact congrArg Entries.pairs (Table.entries_perform multimap.table .size)
  | isEmpty => exact congrArg Entries.pairs (Table.entries_perform multimap.table .isEmpty)
  | keys limit => exact congrArg Entries.pairs (Table.entries_perform multimap.table (.keys limit))

omit [Std.LawfulEqOrd V]

/-- Only committed keys count as deleted, and no stored set is empty. -/
structure Proper (multimap : Multimap K V) : Prop where
  tidy : multimap.table.Tidy
  stores : multimap.table.Stores Filled
  writes : multimap.table.modified.Every fun object => Filled object.content

omit [Std.TransOrd V] in
theorem Proper.filled (proper : multimap.Proper) :
    multimap.table.entries.Every fun object => Filled object.content := by
  intro key object found
  rw [Table.getElem?_entries, Table.lookup] at found
  split at found
  · cases found
  · rcases Option.or_eq_some_iff.mp found with written | ⟨_, committed⟩
    · exact proper.writes key object written
    · exact proper.stores key object committed

theorem Proper.perform (proper : multimap.Proper) (fresh : Identity) (request : Request K V) :
    (multimap.perform fresh request).2.Proper where
  tidy := perform_induction Table.Tidy (fun _ request tidy => tidy.perform request) fresh multimap
    request proper.tidy
  stores := by
    unfold Table.Stores
    rw [source_perform]
    exact proper.stores
  writes := by
    obtain ⟨set, every⟩ := every_perform fresh multimap request
    exact every _ proper.writes id

private theorem Proper.lists (proper : multimap.Proper) {order : List K}
    (all : order.Perm multimap.table.entries.keys) :
    Lists multimap.table.entries.pairs order := by
  refine ⟨all.nodup_iff.mpr Std.ExtTreeMap.nodup_keys, fun key => ?_⟩
  rw [all.mem_iff, Std.ExtTreeMap.mem_keys, Entries.mem_iff_pairs proper.filled]

theorem Proper.answers (proper : multimap.Proper) (fresh : Identity) (request : Request K V) :
    Answers multimap.table.entries.pairs request (multimap.perform fresh request).1 := by
  have holds := multimap.holds_get
  cases request with
  | get key => exact .get (holds key)
  | contains key =>
    refine .contains ?_
    rw [← Entries.mem_iff_pairs proper.filled]
    exact Table.contains_iff multimap.table key
  | put key value =>
    exact .put value (fst_putAll fresh key [value] multimap ▸ holds key)
  | putAll key values =>
    exact .putAll values (fst_putAll fresh key values multimap ▸ holds key)
  | removeValue key value =>
    exact .removeValue value (fst_removeValue fresh key value multimap ▸ holds key)
  | remove key => exact .remove (holds key)
  | clear => exact .clear
  | size =>
    show Answers _ _ (.count multimap.table.count)
    rw [proper.tidy.count_eq, ← Std.ExtTreeMap.length_keys]
    exact .size (proper.lists (.refl _))
  | isEmpty =>
    show Answers _ _ (.flag multimap.table.isEmpty.1)
    rw [Table.fst_isEmpty, proper.tidy.vacant_eq]
    refine .isEmpty ?_
    rw [Std.ExtTreeMap.isEmpty_iff, Entries.pairs_eq_empty_iff proper.filled]
  | keys limit =>
    have listed := proper.tidy.answers (.keys limit)
    show Answers _ _ (.listing (multimap.table.keys limit).1)
    simp only [Table.perform, Prod.map_fst] at listed
    generalize (multimap.table.keys limit).1 = listing at listed ⊢
    cases listed with
    | keys _ all => exact .keys limit (proper.lists all)

end Multimap
end TransactionalMemory
