import Mathlib.Data.List.Forall2
import Mathlib.Data.List.Induction
import Mathlib.Data.List.Nodup
import TransactionalMemory.Proofs.Footprint

/-! A table between two commits is a plain map. What its readers see is spread over committed,
modified and deleted entries, and each request puts it together in a way of its own; all of them
are right as long as only committed keys count as deleted and none of those is modified as well. -/
namespace TransactionalMemory.Table
variable {K V : Type}

/-- What can be done with a pool of copies. -/
inductive Handling (K V : Type) where
  | ask (index : Nat) (request : Request K V)
  | copy (index : Nat) (mode : CopyMode)
  | merge (branch target : Nat) (mode : MergeMode)

/-- A copy joins the pool. A branch stays there after its merge, and may be merged once more. -/
def Handling.run {E : Type} (ask : Request K V → E → E) (copy : CopyMode → E → E)
    (merge : MergeMode → (branch target : E) → E) (pool : List E) : Handling K V → List E
  | .ask index request =>
    match pool[index]? with
    | some member => pool.set index (ask request member)
    | none => pool
  | .copy index mode =>
    match pool[index]? with
    | some member => pool ++ [copy mode member]
    | none => pool
  | .merge branch target mode =>
    match pool[branch]?, pool[target]? with
    | some branch, some member => pool.set target (merge mode branch member)
    | _, _ => pool

open Entity in
theorem Handling.forall₂_run {E F : Type} {R : E → F → Prop}
    {ask : Request K V → E → E} {ask' : Request K V → F → F}
    {copy : CopyMode → E → E} {copy' : CopyMode → F → F}
    {merge : MergeMode → E → E → E} {merge' : MergeMode → F → F → F}
    (asked : ∀ request one one', R one one' → R (ask request one) (ask' request one'))
    (copied : ∀ mode one one', R one one' → R (copy mode one) (copy' mode one'))
    (merged : ∀ mode one one' other other', R one one' → R other other' →
      R (merge mode one other) (merge' mode one' other'))
    (handling : Handling K V) {pool : List E} {pool' : List F}
    (related : List.Forall₂ R pool pool') :
    List.Forall₂ R (handling.run ask copy merge pool) (handling.run ask' copy' merge' pool') := by
  have found := forall₂_getElem? related
  cases handling with
  | ask index request =>
    simp only [run]
    rcases found index with ⟨none, none'⟩ | ⟨one, one', some, some', holds⟩
    · rwa [none, none']
    · rw [some, some']
      exact forall₂_set related index (asked request one one' holds)
  | copy index mode =>
    simp only [run]
    rcases found index with ⟨none, none'⟩ | ⟨one, one', some, some', holds⟩
    · rwa [none, none']
    · rw [some, some']
      exact List.rel_append related (.cons (copied mode one one' holds) .nil)
  | merge branch target mode =>
    simp only [run]
    rcases found branch with ⟨none, none'⟩ | ⟨one, one', some, some', holds⟩
    · rwa [none, none']
    rw [some, some']
    rcases found target with ⟨none, none'⟩ | ⟨other, other', there, there', holds'⟩
    · rwa [none, none']
    · rw [there, there']
      exact forall₂_set related target (merged mode one one' other other' holds holds')

variable [Ord K] [Std.TransOrd K]

/-- An iteration that is asked for a key up to some number of times, and yields the keys in the
given order. -/
def Listing.upTo (limit : Option Nat) (order : List K) : Listing K :=
  match limit with
  | none => ⟨order.length, order, true⟩
  | some limit => ⟨order.length, order.take limit, order.length < limit⟩

/-- The answer of a plain map to a request. Keys may be listed in any order. -/
inductive Answers (plain : Entries K V) : Request K V → Reply K V → Prop where
  | get (key : K) : Answers plain (.get key) (.entry plain[key]?)
  | contains (key : K) : Answers plain (.contains key) (.flag (key ∈ plain))
  | put (key : K) (object : Object V) : Answers plain (.put key object) (.entry plain[key]?)
  | putAll (entries : List (K × Object V)) : Answers plain (.putAll entries) .done
  | remove (key : K) : Answers plain (.remove key) (.entry plain[key]?)
  | clear : Answers plain .clear .done
  | size : Answers plain .size (.count plain.size)
  | isEmpty : Answers plain .isEmpty (.flag plain.isEmpty)
  | keys (limit : Option Nat) {order : List K} (all : order.Perm plain.keys) :
      Answers plain (.keys limit) (.listing (.upTo limit order))

/-- What a request makes of a plain map. -/
def Request.apply (plain : Entries K V) : Request K V → Entries K V
  | .put key object => plain.insert key object
  | .putAll entries => entries.foldl (fun plain entry => plain.insert entry.1 entry.2) plain
  | .remove key => plain.erase key
  | .clear => ∅
  | _ => plain

def runTables (source : Object (Entries K V)) (handlings : List (Handling K V)) :
    List (Table K V) :=
  handlings.foldl
    (Handling.run (fun request table => (table.perform request).2)
      (fun mode table => table.copy mode)
      fun mode branch table => (branch.merge mode table).toOption.getD table)
    [ofObject source]

/-- A clean copy goes back to the committed entries. A merge takes the branch's map over, or leaves
the target as it is. -/
def runPlain (committed : Entries K V) (handlings : List (Handling K V)) : List (Entries K V) :=
  handlings.foldl
    (Handling.run (fun request plain => request.apply plain)
      (fun mode plain => match mode with | .clean => committed | .dirty => plain) MergeMode.pick)
    [committed]

theorem entries_unlogged {table other : Table K V} (same : table.unlogged = other.unlogged) :
    table.entries = other.entries := by
  injection same with source modified deleted
  rw [entries, entries, source, modified, deleted]

theorem entries_touch (key : K) (table : Table K V) : (table.touch key).entries = table.entries :=
  entries_unlogged (unlogged_touch key table)

private theorem entries_touchWhole (table : Table K V) : table.touchWhole.entries = table.entries :=
  entries_unlogged (unlogged_touchWhole table)

/-- Only committed keys count as deleted, and none of them is modified as well. -/
structure Tidy (table : Table K V) : Prop where
  committed : ∀ key ∈ table.deleted, key ∈ table.source.content
  apart : ∀ key ∈ table.deleted, key ∉ table.modified

theorem tidy_ofObject (source : Object (Entries K V)) : (ofObject source).Tidy := by
  constructor <;> simp [ofObject]

theorem Tidy.unlogged {table other : Table K V} (tidy : table.Tidy)
    (same : table.unlogged = other.unlogged) : other.Tidy := by
  injection same with source modified deleted
  constructor
  · rw [← deleted, ← source]
    exact tidy.committed
  · rw [← deleted, ← modified]
    exact tidy.apart

variable {table : Table K V}

private theorem Tidy.touch (tidy : table.Tidy) (key : K) : (table.touch key).Tidy :=
  tidy.unlogged (unlogged_touch key table).symm

private theorem Tidy.touchWhole (tidy : table.Tidy) : table.touchWhole.Tidy :=
  tidy.unlogged (unlogged_touchWhole table).symm

variable [Std.LawfulEqOrd K]

theorem entries_put (key : K) (object : Object V) (table : Table K V) :
    (table.put key object).2.entries = table.entries.insert key object := by
  apply Std.ExtTreeMap.ext_getElem?
  intro other
  rw [getElem?_entries]
  by_cases same : key = other
  · subst same
    simp
  · rw [lookup_put_of_ne same, ← getElem?_entries]
    simp [Std.ExtTreeMap.getElem?_insert, same]

private theorem entries_putAll (added : List (K × Object V)) (table : Table K V) :
    (table.putAll added).entries =
      added.foldl (fun plain entry => plain.insert entry.1 entry.2) table.entries := by
  induction added generalizing table with
  | nil => rfl
  | cons entry added ih =>
    rw [List.foldl_cons, ← entries_put]
    exact ih _

theorem entries_remove (key : K) (table : Table K V) :
    (table.remove key).2.entries = table.entries.erase key := by
  apply Std.ExtTreeMap.ext_getElem?
  intro other
  rw [getElem?_entries]
  by_cases same : key = other
  · subst same
    simp
  · rw [lookup_remove_of_ne same, ← getElem?_entries]
    simp [Std.ExtTreeMap.getElem?_erase, same]

theorem entries_clear (table : Table K V) : table.clear.entries = ∅ := by
  apply Std.ExtTreeMap.ext_getElem?
  intro key
  rw [getElem?_entries, lookup_clear, Std.ExtTreeMap.getElem?_empty]

theorem entries_perform (table : Table K V) (request : Request K V) :
    (table.perform request).2.entries = request.apply table.entries := by
  have whole := table.entries_touchWhole
  cases request with
  | get key => exact entries_touch key table
  | contains key => exact entries_touch key table
  | put key object => exact entries_put key object table
  | putAll added => exact entries_putAll added table
  | remove key => exact entries_remove key table
  | clear => exact entries_clear table
  | size => exact whole
  | isEmpty =>
    show table.isEmpty.2.entries = table.entries
    rcases table.snd_isEmpty with same | same <;> rw [same]
    exact whole
  | keys limit =>
    show (table.keys limit).2.entries = table.entries
    rcases table.snd_keys limit with same | same <;> rw [same]
    exact whole

private theorem Tidy.put (tidy : table.Tidy) (key : K) (object : Object V) :
    (table.put key object).2.Tidy := by
  obtain ⟨committed, apart⟩ := tidy.touch key
  constructor
  · intro other gone
    exact committed other (Std.ExtTreeSet.mem_of_mem_erase gone)
  · intro other gone
    have kept := apart other (Std.ExtTreeSet.mem_of_mem_erase gone)
    simp only [Table.put, Std.ExtTreeSet.mem_erase, Std.ExtTreeMap.mem_insert] at gone ⊢
    simp_all

private theorem Tidy.remove (tidy : table.Tidy) (key : K) : (table.remove key).2.Tidy := by
  obtain ⟨committed, apart⟩ := tidy.touch key
  constructor
  · intro other gone
    simp only [Table.remove] at gone ⊢
    split at gone
    · next present =>
      rcases Std.ExtTreeSet.mem_insert.mp gone with same | old
      · simp_all
      · exact committed other old
    · exact committed other gone
  · intro other gone
    simp only [Table.remove, Std.ExtTreeMap.mem_erase] at gone ⊢
    split at gone
    · rcases Std.ExtTreeSet.mem_insert.mp gone with same | old
      · simp_all
      · simp [apart other old]
    · simp [apart other gone]

private theorem Tidy.clear (tidy : table.Tidy) : table.clear.Tidy := by
  have touched := tidy.unlogged (unlogged_touchCommitted table).symm
  constructor
  · intro key gone
    rcases Std.ExtTreeSet.mem_union_iff.mp gone with old | present
    · exact touched.committed key old
    · exact (Entries.mem_keySet _ key).mp present
  · simp [Table.clear]

theorem Tidy.perform (tidy : table.Tidy) (request : Request K V) :
    (table.perform request).2.Tidy :=
  perform_induction Tidy (fun _ => .touchWhole) (fun key _ tidy => tidy.touch key)
    (fun key object _ tidy => tidy.put key object) (fun key _ tidy => tidy.remove key)
    (fun _ => .clear) table request tidy

private theorem mem_entries (table : Table K V) (key : K) :
    key ∈ table.entries ↔
      (key ∈ table.source.content ∨ key ∈ table.modified) ∧ key ∉ table.deleted := by
  simp [entries, Entries.overlay, Std.ExtTreeMap.mem_filter]

theorem contains_iff (table : Table K V) (key : K) :
    (table.contains key).1 = true ↔ key ∈ table.entries := by
  simp [contains, mem_entries]

private theorem mem_visibleKeys (table : Table K V) (key : K) :
    key ∈ table.visibleKeys ↔ key ∈ table.entries := by
  rw [mem_entries, visibleKeys]
  by_cases modified : key ∈ table.modified <;> simp [modified]

private theorem nodup_visibleKeys (table : Table K V) : table.visibleKeys.Nodup := by
  apply List.Nodup.filter
  apply (Std.ExtTreeMap.nodup_keys.filter _).append Std.ExtTreeMap.nodup_keys
  intro key committed modified
  simp_all

private theorem visibleKeys_perm (table : Table K V) :
    table.visibleKeys.Perm table.entries.keys := by
  rw [List.perm_ext_iff_of_nodup table.nodup_visibleKeys Std.ExtTreeMap.nodup_keys]
  intro key
  rw [mem_visibleKeys, Std.ExtTreeMap.mem_keys]

/-- Visible and deleted keys together are the committed ones and those that were added. -/
theorem Tidy.keys_perm (tidy : table.Tidy) :
    (table.entries.keys ++ table.deleted.toList).Perm
      (table.source.content.keys ++
        (table.modified.filter fun key _ => key ∉ table.source.content).keys) := by
  have distinct : table.deleted.toList.Nodup :=
    Std.ExtTreeSet.distinct_toList.imp fun apart same => apart (by simp [same])
  rw [List.perm_ext_iff_of_nodup]
  · intro key
    have committed := tidy.committed key
    have apart := tidy.apart key
    simp only [List.mem_append, Std.ExtTreeMap.mem_keys, Std.ExtTreeSet.mem_toList, mem_entries,
      Std.ExtTreeMap.mem_filter]
    by_cases gone : key ∈ table.deleted <;>
      by_cases present : key ∈ table.source.content <;> simp_all
  · apply Std.ExtTreeMap.nodup_keys.append distinct
    intro key visible gone
    simp_all [mem_entries]
  · apply Std.ExtTreeMap.nodup_keys.append Std.ExtTreeMap.nodup_keys
    intro key committed added
    simp_all [Std.ExtTreeMap.mem_filter]

/-- So counting never falls short of zero. -/
theorem Tidy.size_add (tidy : table.Tidy) :
    table.entries.size + table.deleted.size = table.source.content.size +
      (table.modified.filter fun key _ => key ∉ table.source.content).size := by
  simpa [Std.ExtTreeMap.length_keys, Std.ExtTreeSet.length_toList] using tidy.keys_perm.length_eq

theorem Tidy.count_eq (tidy : table.Tidy) : table.count = table.entries.size := by
  have sizes := tidy.size_add
  unfold count
  omega

theorem Tidy.vacant_eq (tidy : table.Tidy) : table.vacant = table.entries.isEmpty := by
  have sizes := tidy.size_add
  have few := table.modified.size_filter_le_size (f := fun key _ => key ∉ table.source.content)
  rw [Bool.eq_iff_iff, vacant, Bool.and_eq_true, decide_eq_true_eq,
    Std.ExtTreeMap.isEmpty_iff, Std.ExtTreeMap.isEmpty_iff,
    Std.ExtTreeMap.eq_empty_iff_size_eq_zero, Std.ExtTreeMap.eq_empty_iff_size_eq_zero]
  constructor
  · rintro ⟨same, unmodified⟩
    omega
  · intro empty
    have unmodified : table.modified = ∅ := by
      rw [Std.ExtTreeMap.eq_empty_iff_forall_not_mem]
      intro key modified
      have visible : key ∈ table.entries :=
        (mem_entries table key).mpr ⟨.inr modified, fun gone => tidy.apart key gone modified⟩
      rw [Std.ExtTreeMap.eq_empty_iff_size_eq_zero.mpr empty] at visible
      exact Std.ExtTreeMap.not_mem_empty visible
    rw [Std.ExtTreeMap.eq_empty_iff_size_eq_zero] at unmodified
    omega

theorem Tidy.answers (tidy : table.Tidy) (request : Request K V) :
    Answers table.entries request (table.perform request).1 := by
  have seen (key : K) : table.lookup key = table.entries[key]? := (getElem?_entries table key).symm
  cases request with
  | get key =>
    simp only [Table.perform, Table.get, Prod.map_fst, seen]
    exact .get key
  | contains key =>
    have present : (table.contains key).1 = decide (key ∈ table.entries) := by
      rw [Bool.eq_iff_iff, contains_iff, decide_eq_true_eq]
    simp only [Table.perform, Prod.map_fst, present]
    exact .contains key
  | put key object =>
    simp only [Table.perform, Table.put, Prod.map_fst, seen]
    exact .put key object
  | putAll added => exact .putAll added
  | remove key =>
    simp only [Table.perform, Table.remove, Prod.map_fst, seen]
    exact .remove key
  | clear => exact .clear
  | size =>
    simp only [Table.perform, Table.size, Prod.map_fst, tidy.count_eq]
    exact .size
  | isEmpty =>
    simp only [Table.perform, Prod.map_fst, fst_isEmpty, tidy.vacant_eq]
    exact .isEmpty
  | keys limit =>
    have same : (table.keys limit).1 = .upTo limit table.visibleKeys := by
      unfold keys Listing.upTo
      cases limit with
      | none => rfl
      | some limit =>
        dsimp only
        split
        · next ended => simp [ended, List.take_of_length_le (Nat.le_of_lt ended)]
        · next going => simp [going]
    simp only [Table.perform, Prod.map_fst, same]
    exact .keys limit table.visibleKeys_perm

/-- A table that has come from the source by handling its copies, and shows the plain map. -/
structure Mirrors (source : Object (Entries K V)) (table : Table K V) (plain : Entries K V) :
    Prop where
  source : table.source = source
  tidy : table.Tidy
  entries : table.entries = plain

variable {source : Object (Entries K V)} {plain plain' : Entries K V} {branch : Table K V}

private theorem mirrors_ofObject (source : Object (Entries K V)) :
    Mirrors source (ofObject source) source.content :=
  ⟨rfl, tidy_ofObject source, entries_ofObject source⟩

theorem Mirrors.perform (mirrors : Mirrors source table plain) (request : Request K V) :
    Mirrors source (table.perform request).2 (request.apply plain) := by
  refine ⟨(source_perform table request).trans mirrors.source, mirrors.tidy.perform request, ?_⟩
  rw [entries_perform, mirrors.entries]

omit [Std.LawfulEqOrd K] in
theorem Mirrors.merge (branches : Mirrors source branch plain')
    (target : Mirrors source table plain) (mode : MergeMode) :
    ∃ merged, branch.merge mode table = .ok merged ∧
      Mirrors source merged (mode.pick plain' plain) := by
  obtain ⟨merged, accepted, kept⟩ :=
    merge_unlogged (branches.source.trans target.source.symm) mode
  have picked : Mirrors source (mode.pick branch table) (mode.pick plain' plain) := by
    cases mode with
    | everything => exact branches
    | readsOnly => exact target
  refine ⟨merged, accepted, ?_, picked.tidy.unlogged kept.symm, ?_⟩
  · injection kept with same
    exact same.trans picked.source
  · rw [entries_unlogged kept, picked.entries]

theorem mirrors_run (source : Object (Entries K V)) (handlings : List (Handling K V)) :
    List.Forall₂ (Mirrors source) (runTables source handlings)
      (runPlain source.content handlings) := by
  induction handlings using List.reverseRecOn with
  | nil => exact .cons (mirrors_ofObject source) .nil
  | append_singleton handlings handling ih =>
    rw [runTables, runPlain, List.foldl_concat, List.foldl_concat, ← runTables, ← runPlain]
    refine Handling.forall₂_run (fun request _ _ one => one.perform request) ?_ ?_ handling ih
    · intro mode table plain one
      cases mode with
      | clean =>
        rw [Table.copy, one.source]
        exact mirrors_ofObject source
      | dirty => exact one
    · intro mode branch plain' table plain one other
      obtain ⟨merged, accepted, mirrors⟩ := one.merge other mode
      rw [accepted]
      exact mirrors

/-- What readers can tell of a table that shows the plain map, and what they rely on. -/
structure Shows (plain : Entries K V) (table : Table K V) : Prop where
  answers : ∀ request, Answers plain request (table.perform request).1
  found : ∀ key, (table.contains key).1 = true ↔ (table.get key).1.isSome
  listed : ∀ key, (table.contains key).1 = true ↔ key ∈ (table.keys none).1.taken
  once : (table.keys none).1.taken.Nodup
  counted : table.size.1 = (table.keys none).1.taken.length
  enough : table.deleted.size ≤ table.source.content.size +
    (table.modified.filter fun key _ => key ∉ table.source.content).size
  vacant : table.isEmpty.1 = true ↔ table.size.1 = 0
  tidy : table.Tidy

private theorem Mirrors.shows (mirrors : Mirrors source table plain) : Shows plain table where
  answers := mirrors.entries ▸ mirrors.tidy.answers
  found key := by
    rw [contains_iff, Std.ExtTreeMap.mem_iff_isSome_getElem?, getElem?_entries]
    rfl
  listed key := (contains_iff table key).trans (mem_visibleKeys table key).symm
  once := table.nodup_visibleKeys
  counted := by
    show table.count = table.visibleKeys.length
    rw [mirrors.tidy.count_eq, table.visibleKeys_perm.length_eq, Std.ExtTreeMap.length_keys]
  enough := by
    have sizes := mirrors.tidy.size_add
    omega
  vacant := by
    show table.isEmpty.1 = true ↔ table.count = 0
    rw [fst_isEmpty, mirrors.tidy.vacant_eq, mirrors.tidy.count_eq,
      Std.ExtTreeMap.isEmpty_eq_size_beq_zero, beq_iff_eq]
  tidy := mirrors.tidy

/-- Whatever is done with a table and its copies, each of them is a plain map to its readers, with
the entries that the same handlings of plain maps lead to, and every merge is accepted. -/
theorem shows_plain_map (source : Object (Entries K V)) (handlings : List (Handling K V)) :
    List.Forall₂ Shows (runPlain source.content handlings) (runTables source handlings) ∧
      ∀ branch ∈ runTables source handlings, ∀ table ∈ runTables source handlings, ∀ mode,
        ∃ merged, branch.merge mode table = .ok merged ∧
          merged.entries = mode.pick branch.entries table.entries := by
  have mirrors := mirrors_run source handlings
  have made : ∀ table ∈ runTables source handlings, ∃ plain, Mirrors source table plain := by
    intro table member
    obtain ⟨index, found⟩ := List.mem_iff_getElem?.mp member
    rcases Entity.forall₂_getElem? mirrors index with ⟨missing, _⟩ | ⟨_, plain, there, _, one⟩
    · rw [missing] at found
      cases found
    · rw [there] at found
      cases found
      exact ⟨plain, one⟩
  constructor
  · exact mirrors.flip.imp fun _ _ => Mirrors.shows
  · intro branch member table member' mode
    obtain ⟨plain', branches⟩ := made branch member
    obtain ⟨plain, target⟩ := made table member'
    obtain ⟨merged, accepted, after⟩ := branches.merge target mode
    refine ⟨merged, accepted, ?_⟩
    rw [after.entries, branches.entries, target.entries]

def sharedSource : Object (Entries Nat Nat) :=
  ⟨⟨0, []⟩, (∅ : Entries Nat Nat).insert 1 ⟨⟨1, []⟩, 10⟩ |>.insert 2 ⟨⟨2, []⟩, 20⟩⟩

/-- A branch of a branch is emptied. Its reads alone are merged first, and then all of it. -/
def sharedHandlings : List (Handling Nat Nat) :=
  [.ask 0 (.remove 1), .ask 0 (.put 3 ⟨⟨3, []⟩, 30⟩), .copy 0 .dirty, .ask 1 (.remove 3),
    .copy 1 .dirty, .ask 2 .clear, .merge 2 0 .readsOnly, .merge 2 1 .everything]

theorem shows_plain_map_shared :
    (runTables sharedSource sharedHandlings).map (fun table => table.size.1) = [2, 0, 0] ∧
      List.Forall₂ Shows (runPlain sharedSource.content sharedHandlings)
        (runTables sharedSource sharedHandlings) ∧
      ∀ branch ∈ runTables sharedSource sharedHandlings,
        ∀ table ∈ runTables sharedSource sharedHandlings, ∀ mode,
          ∃ merged, branch.merge mode table = .ok merged ∧
            merged.entries = mode.pick branch.entries table.entries :=
  ⟨by decide +kernel, shows_plain_map sharedSource sharedHandlings⟩

end TransactionalMemory.Table
