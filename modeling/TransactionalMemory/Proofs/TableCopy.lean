import Mathlib.Tactic.ByContra
import TransactionalMemory.TableView

/-! Working copies of a table. A copy keeps the committed entries that it started from, what it
stores is marked, and its log only grows: to more keys, or to the table as a whole. Only a copy
that is allowed to clear tables is ever cleared. -/
namespace TransactionalMemory

def Entries.Every {K V : Type} [Ord K] [Std.TransOrd K] (marks : Object V → Prop)
    (entries : Entries K V) : Prop :=
  ∀ (key : K) object, entries[key]? = some object → marks object

namespace Entries
variable {K V : Type} [Ord K] [Std.TransOrd K] {marks : Object V → Prop}
  {entries modified : Entries K V}

theorem every_empty (marks : Object V → Prop) : Every marks (∅ : Entries K V) := by
  simp [Every]

theorem Every.insert (every : entries.Every marks) (key : K) {object : Object V}
    (marked : marks object) : Every marks (entries.insert key object) := by
  intro other found same
  rw [Std.ExtTreeMap.getElem?_insert] at same
  split at same
  · cases same
    exact marked
  · exact every other found same

theorem Every.erase (every : entries.Every marks) (key : K) :
    Every marks (entries.erase key) := by
  intro other found same
  rw [Std.ExtTreeMap.getElem?_erase] at same
  split at same
  · cases same
  · exact every other found same

theorem Every.imp {known : Object V → Prop} (every : entries.Every marks)
    (implies : ∀ object, marks object → known object) : entries.Every known :=
  fun key object found => implies object (every key object found)

end Entries

namespace Table

section
variable {K V : Type} [Ord K]

/-- Two copies, perhaps of different tables, that have done the same. -/
structure Alike (table other : Table K V) : Prop where
  modified : other.modified = table.modified
  deleted : other.deleted = table.deleted
  accessed : other.accessed = table.accessed
  accessedWhole : other.accessedWhole = table.accessedWhole
  cleared : other.cleared = table.cleared

theorem Alike.refl (table : Table K V) : table.Alike table :=
  ⟨rfl, rfl, rfl, rfl, rfl⟩

theorem Alike.symm {table other : Table K V} (alike : table.Alike other) : other.Alike table :=
  ⟨alike.modified.symm, alike.deleted.symm, alike.accessed.symm, alike.accessedWhole.symm,
    alike.cleared.symm⟩

theorem Alike.trans {table other last : Table K V} (first : table.Alike other)
    (second : other.Alike last) : table.Alike last :=
  ⟨second.modified.trans first.modified, second.deleted.trans first.deleted,
    second.accessed.trans first.accessed, second.accessedWhole.trans first.accessedWhole,
    second.cleared.trans first.cleared⟩

private theorem Alike.touchWhole {table other : Table K V} (alike : table.Alike other) :
    table.touchWhole.Alike other.touchWhole := by
  obtain ⟨modified, deleted, accessed, accessedWhole, cleared⟩ := alike
  rw [Table.touchWhole, Table.touchWhole, cleared]
  split
  · exact ⟨modified, deleted, accessed, accessedWhole, cleared⟩
  · exact ⟨modified, deleted, rfl, rfl, rfl⟩

/-- What a target becomes: a branch that has moved on from it takes its place, or only leaves its
log behind. -/
def absorbed (mode : MergeMode) (branch table : Table K V) : Table K V :=
  match mode with
  | .everything => branch
  | .readsOnly => {table with accessed := branch.accessed, accessedWhole := branch.accessedWhole}

theorem Alike.absorbed {branch branch' table other : Table K V} (alike : branch.Alike branch')
    (target : table.Alike other) (mode : MergeMode) :
    (absorbed mode branch table).Alike (absorbed mode branch' other) := by
  cases mode with
  | everything => exact alike
  | readsOnly =>
    exact ⟨target.modified, target.deleted, alike.accessed, alike.accessedWhole, target.cleared⟩

def Untouched (table : Table K V) : Prop :=
  table.copy .clean = table

theorem Untouched.copy_eq {table : Table K V} (untouched : table.Untouched) (mode : CopyMode) :
    table.copy mode = table.copy .clean := by
  cases mode with
  | clean => rfl
  | dirty => exact untouched.symm

theorem alike_clean (table other : Table K V) :
    (table.copy .clean).Alike (other.copy .clean) :=
  ⟨rfl, rfl, rfl, rfl, rfl⟩

end

variable {K V : Type} [Ord K] [Std.TransOrd K]
  {marks known : Object V → Prop} {clearing clearing' : Prop}
  {base latest table other : Table K V}

structure CopyOf (marks : Object V → Prop) (clearing : Prop) (base table : Table K V) :
    Prop where
  source : table.source = base.source
  whole : table.accessedWhole = true → table.cleared = false ∧ table.accessed = ∅
  cleared : table.cleared = true → clearing
  marked : table.modified.Every marks

structure Extends (table later : Table K V) : Prop where
  source : later.source = table.source
  whole : table.accessedWhole = true → later.accessedWhole = true
  accessed : ∀ key ∈ table.accessed, key ∈ later.accessed ∨ later.accessedWhole = true
  cleared : table.cleared = true → later.cleared = true

theorem Extends.refl (table : Table K V) : table.Extends table :=
  ⟨rfl, id, fun _ => .inl, id⟩

theorem Extends.trans {later last : Table K V} (first : table.Extends later)
    (second : later.Extends last) : table.Extends last := by
  refine ⟨second.source.trans first.source, second.whole ∘ first.whole, ?_,
    second.cleared ∘ first.cleared⟩
  intro key seen
  rcases first.accessed key seen with kept | whole
  · exact second.accessed key kept
  · exact .inr (second.whole whole)

private theorem Extends.not_cleared {later : Table K V} (ahead : table.Extends later)
    (open_ : later.cleared = false) : table.cleared = false := by
  by_contra closed
  rw [Bool.not_eq_false] at closed
  rw [ahead.cleared closed] at open_
  cases open_

private theorem Extends.not_whole {later : Table K V} (ahead : table.Extends later)
    (partly : later.accessedWhole = false) : table.accessedWhole = false := by
  by_contra whole
  rw [Bool.not_eq_false] at whole
  rw [ahead.whole whole] at partly
  cases partly

theorem copyOf_clean (marks : Object V → Prop) (clearing : Prop) (base : Table K V) :
    CopyOf marks clearing base (base.copy .clean) :=
  ⟨rfl, nofun, nofun, Entries.every_empty marks⟩

theorem CopyOf.extends_clean (copy : CopyOf marks clearing base table) :
    (base.copy .clean).Extends table :=
  ⟨copy.source, nofun, by simp [Table.copy, ofObject], nofun⟩

theorem CopyOf.eq_of_alike (copy : CopyOf marks clearing base table)
    (copy' : CopyOf known clearing' base other) (alike : table.Alike other) : other = table := by
  have source := copy'.source.trans copy.source.symm
  obtain ⟨modified, deleted, accessed, accessedWhole, cleared⟩ := alike
  cases table
  cases other
  simp_all

/-- Whatever was seen of the committed entries is still the same in the latest table. -/
structure Fits (latest table : Table K V) : Prop where
  entry : ∀ key ∈ table.accessed, table.source.content[key]? = latest.source.content[key]?
  whole : table.accessedWhole = true → table.source.content = latest.source.content

theorem Extends.fits {later : Table K V} (ahead : table.Extends later)
    (fits : latest.Fits later) : latest.Fits table := by
  obtain ⟨entry, whole⟩ := fits
  rw [ahead.source] at entry whole
  refine ⟨?_, whole ∘ ahead.whole⟩
  intro key seen
  rcases ahead.accessed key seen with kept | all
  · exact entry key kept
  · rw [whole all]

theorem Extends.fits_absorbed {branch : Table K V} (ahead : table.Extends branch)
    {mode : MergeMode} (fits : latest.Fits (absorbed mode branch table)) : latest.Fits branch := by
  cases mode with
  | everything => exact fits
  | readsOnly =>
    obtain ⟨entry, whole⟩ := fits
    constructor
    · rw [ahead.source]
      exact entry
    · rw [ahead.source]
      exact whole

/-- An answer that stays true as long as the entries that it tells of do not change. -/
def Protected : Request K V → Reply K V → Prop
  | .clear, _ => False
  | .isEmpty, .flag truth => truth = true
  | .keys _, .listing listing => listing.ended = true
  | .keys _, _ => False
  | _, _ => True

omit [Std.TransOrd K] in
theorem fst_isEmpty (table : Table K V) : table.isEmpty.1 = table.vacant := by
  unfold isEmpty
  split <;> simp_all

omit [Std.TransOrd K] in
theorem snd_isEmpty (table : Table K V) :
    table.isEmpty.2 = table ∨ table.isEmpty.2 = table.touchWhole := by
  unfold isEmpty
  split
  · exact .inr rfl
  · exact .inl rfl

theorem snd_keys (limit : Option Nat) (table : Table K V) :
    (table.keys limit).2 = table ∨ (table.keys limit).2 = table.touchWhole := by
  cases limit with
  | none => exact .inr rfl
  | some limit =>
    rw [keys]
    split
    · exact .inr rfl
    · exact .inl rfl

theorem perform_induction (Holds : Table K V → Prop)
    (whole : ∀ table : Table K V, Holds table → Holds table.touchWhole)
    (touch : ∀ key (table : Table K V), Holds table → Holds (table.touch key))
    (put : ∀ key object (table : Table K V), Holds table → Holds (table.put key object).2)
    (remove : ∀ key (table : Table K V), Holds table → Holds (table.remove key).2)
    (clear : ∀ table : Table K V, Holds table → Holds table.clear)
    (table : Table K V) (request : Request K V) (holds : Holds table) :
    Holds (table.perform request).2 := by
  cases request with
  | get key => exact touch key table holds
  | contains key => exact touch key table holds
  | put key object => exact put key object table holds
  | putAll entries =>
    exact List.foldlRecOn entries _ holds fun table holds entry _ =>
      put entry.1 entry.2 table holds
  | remove key => exact remove key table holds
  | clear => exact clear table holds
  | size => exact whole table holds
  | isEmpty =>
    show Holds table.isEmpty.2
    rcases table.snd_isEmpty with same | same <;> rw [same]
    · exact holds
    · exact whole table holds
  | keys limit =>
    show Holds (table.keys limit).2
    rcases table.snd_keys limit with same | same <;> rw [same]
    · exact holds
    · exact whole table holds

private theorem CopyOf.write (copy : CopyOf marks clearing base table) {modified : Entries K V}
    (marked : modified.Every marks) (deleted : KeySet K) :
    CopyOf marks clearing base {table with modified, deleted} ∧
      table.Extends {table with modified, deleted} :=
  ⟨⟨copy.source, copy.whole, copy.cleared, marked⟩, rfl, id, fun _ => .inl, id⟩

private theorem CopyOf.touchWhole (copy : CopyOf marks clearing base table) :
    CopyOf marks clearing base table.touchWhole ∧ table.Extends table.touchWhole := by
  unfold Table.touchWhole
  split
  · exact ⟨copy, .refl table⟩
  · next open_ =>
    refine ⟨⟨copy.source, fun _ => ⟨?_, rfl⟩, copy.cleared, copy.marked⟩, rfl, fun _ => rfl,
      fun _ _ => .inr rfl, id⟩
    simpa using open_

theorem CopyOf.clear (copy : CopyOf marks clearing base table) (allowed : clearing) :
    CopyOf marks clearing base table.clear ∧ table.Extends table.clear := by
  rw [Table.clear, touchCommitted]
  split
  · exact copy.write (Entries.every_empty marks) _
  · next open_ =>
    refine ⟨⟨copy.source, fun whole => absurd whole open_, fun _ => allowed,
      Entries.every_empty marks⟩, rfl, id,
      fun key seen => .inl ?_, fun _ => rfl⟩
    exact Std.ExtTreeSet.mem_union_of_left seen

private theorem Fits.content_of_touchWhole (open_ : table.cleared = false)
    (fits : latest.Fits table.touchWhole) : table.source.content = latest.source.content := by
  rw [touchWhole, open_] at fits
  exact fits.whole rfl

private theorem Alike.lookup (alike : table.Alike other) {key : K}
    (same : table.source.content[key]? = other.source.content[key]?) :
    other.lookup key = table.lookup key := by
  rw [Table.lookup, Table.lookup, alike.modified, alike.deleted, same]

private theorem Alike.reads (alike : table.Alike other)
    (content : table.source.content = other.source.content) :
    other.count = table.count ∧ other.vacant = table.vacant ∧
      other.visibleKeys = table.visibleKeys := by
  refine ⟨?_, ?_, ?_⟩
  · rw [Table.count, Table.count, alike.modified, alike.deleted, content]
  · rw [Table.vacant, Table.vacant, alike.modified, alike.deleted, content]
  · rw [Table.visibleKeys, Table.visibleKeys, alike.modified, alike.deleted, content]

private theorem touch_source (key : K) (table : Table K V) :
    (table.touch key).source = table.source := by
  unfold touch
  split <;> rfl

omit [Std.TransOrd K] in
private theorem source_touchWhole (table : Table K V) : table.touchWhole.source = table.source := by
  unfold touchWhole
  split <;> rfl

private theorem source_clear (table : Table K V) : table.clear.source = table.source := by
  unfold clear touchCommitted
  split <;> rfl

theorem source_perform (table : Table K V) (request : Request K V) :
    (table.perform request).2.source = table.source := by
  have touched (key : K) (later : Table K V) (same : later.source = table.source) :
      (later.touch key).source = table.source :=
    (touch_source key later).trans same
  refine perform_induction (fun later => later.source = table.source) ?_ touched
    (fun key _ => touched key) touched ?_ table request rfl
  · exact fun later same => later.source_touchWhole.trans same
  · exact fun later same => later.source_clear.trans same

private theorem Alike.touch (alike : table.Alike other) (key : K) :
    (table.touch key).Alike (other.touch key) := by
  obtain ⟨modified, deleted, accessed, accessedWhole, cleared⟩ := alike
  rw [Table.touch, Table.touch, accessedWhole]
  split
  · exact ⟨modified, deleted, accessed, accessedWhole, cleared⟩
  · exact ⟨modified, deleted, by rw [accessed], rfl, cleared⟩

private theorem Alike.put (alike : table.Alike other) (key : K) (object : Object V) :
    (table.put key object).2.Alike (other.put key object).2 := by
  obtain ⟨modified, deleted, accessed, accessedWhole, cleared⟩ := alike.touch key
  exact ⟨by rw [Table.put, Table.put, modified], by rw [Table.put, Table.put, deleted], accessed,
    accessedWhole, cleared⟩

private theorem Alike.putAll (alike : table.Alike other) (entries : List (K × Object V)) :
    (table.putAll entries).Alike (other.putAll entries) := by
  induction entries generalizing table other with
  | nil => exact alike
  | cons entry entries ih => exact ih (alike.put entry.1 entry.2)

private theorem Alike.remove (alike : table.Alike other) {key : K}
    (same : table.source.content[key]? = other.source.content[key]?) :
    (table.remove key).2.Alike (other.remove key).2 := by
  obtain ⟨modified, deleted, accessed, accessedWhole, cleared⟩ := alike.touch key
  have present : key ∈ other.source.content ↔ key ∈ table.source.content := by
    rw [Std.ExtTreeMap.mem_iff_isSome_getElem?, Std.ExtTreeMap.mem_iff_isSome_getElem?, same]
  refine ⟨by rw [Table.remove, Table.remove, modified], ?_, accessed, accessedWhole, cleared⟩
  simp only [Table.remove, touch_source, deleted, present]

variable [Std.LawfulEqOrd K]

theorem CopyOf.touch (copy : CopyOf marks clearing base table) (key : K) :
    CopyOf marks clearing base (table.touch key) ∧ table.Extends (table.touch key) := by
  unfold Table.touch
  split
  · exact ⟨copy, .refl table⟩
  · next open_ =>
    refine ⟨⟨copy.source, fun whole => absurd whole open_, copy.cleared, copy.marked⟩, rfl, id,
      fun other seen => .inl ?_, id⟩
    simp [seen]

theorem CopyOf.put (copy : CopyOf marks clearing base table) (key : K) {object : Object V}
    (marked : marks object) :
    CopyOf marks clearing base (table.put key object).2 ∧
      table.Extends (table.put key object).2 := by
  obtain ⟨touched, ahead⟩ := copy.touch key
  obtain ⟨written, kept⟩ := touched.write (touched.marked.insert key marked) _
  exact ⟨written, ahead.trans kept⟩

theorem CopyOf.remove (copy : CopyOf marks clearing base table) (key : K) :
    CopyOf marks clearing base (table.remove key).2 ∧ table.Extends (table.remove key).2 := by
  obtain ⟨touched, ahead⟩ := copy.touch key
  obtain ⟨written, kept⟩ := touched.write (touched.marked.erase key) _
  exact ⟨written, ahead.trans kept⟩

private theorem CopyOf.putAll {entries : List (K × Object V)}
    (copy : CopyOf marks clearing base table) (marked : ∀ entry ∈ entries, marks entry.2) :
    CopyOf marks clearing base (table.putAll entries) ∧
      table.Extends (table.putAll entries) := by
  induction entries generalizing table with
  | nil => exact ⟨copy, .refl table⟩
  | cons entry entries ih =>
    obtain ⟨first, ahead⟩ := copy.put entry.1 (marked entry List.mem_cons_self)
    obtain ⟨rest, later⟩ := ih first fun other member => marked other (.tail _ member)
    exact ⟨rest, ahead.trans later⟩

/-- What a request stores is marked, and it clears the table only if that is allowed. -/
def Request.Marked (marks : Object V → Prop) (clearing : Prop) : Request K V → Prop
  | .put _ object => marks object
  | .putAll entries => ∀ entry ∈ entries, marks entry.2
  | .clear => clearing
  | _ => True

theorem CopyOf.perform (copy : CopyOf marks clearing base table) (request : Request K V)
    (marked : request.Marked marks clearing) :
    CopyOf marks clearing base (table.perform request).2 ∧
      table.Extends (table.perform request).2 := by
  have whole := copy.touchWhole
  cases request with
  | get key => exact copy.touch key
  | contains key => exact copy.touch key
  | put key object => exact copy.put key marked
  | putAll entries => exact copy.putAll marked
  | remove key => exact copy.remove key
  | clear => exact copy.clear marked
  | size => exact whole
  | isEmpty =>
    rw [Table.perform, Prod.map_snd, isEmpty]
    split
    · exact whole
    · exact ⟨copy, .refl table⟩
  | keys limit =>
    cases limit with
    | none => exact whole
    | some limit =>
      rw [Table.perform, Prod.map_snd, keys]
      split
      · exact whole
      · exact ⟨copy, .refl table⟩

private theorem mergeLog_of_extends {branch : Table K V} (copy : CopyOf marks clearing base branch)
    (ahead : table.Extends branch) :
    mergeLog branch table =
      {table with accessed := branch.accessed, accessedWhole := branch.accessedWhole} := by
  cases seen : branch.accessedWhole with
  | true =>
    obtain ⟨untouched, empty⟩ := copy.whole seen
    have open_ : table.cleared = false := ahead.not_cleared untouched
    simp [mergeLog, touchWhole, seen, open_, empty]
  | false =>
    have unseen : table.accessedWhole = false := ahead.not_whole seen
    have union : table.accessed ∪ branch.accessed = branch.accessed := by
      apply Std.ExtTreeSet.ext_mem
      intro key
      rw [Std.ExtTreeSet.mem_union_iff]
      constructor
      · rintro (old | new)
        · simpa [seen] using ahead.accessed key old
        · exact new
      · exact .inr
    simp [mergeLog, seen, unseen, union]

theorem CopyOf.merge {branch : Table K V} (copy : CopyOf marks clearing base branch)
    (target : CopyOf marks clearing base table) (ahead : table.Extends branch)
    (mode : MergeMode) :
    branch.merge mode table = .ok (absorbed mode branch table) ∧
      CopyOf marks clearing base (absorbed mode branch table) ∧
      table.Extends (absorbed mode branch table) := by
  have same : table.sameSource branch = true := by simp [sameSource, ahead.source]
  have logged := mergeLog_of_extends copy ahead
  cases mode with
  | everything =>
    refine ⟨?_, copy, ahead⟩
    have cleared : (table.cleared || branch.cleared) = branch.cleared := by
      cases closed : table.cleared with
      | false => rfl
      | true => rw [ahead.cleared closed, Bool.or_self]
    rw [Table.merge, if_pos same, logged, absorbed]
    dsimp only
    rw [cleared, ← ahead.source]
  | readsOnly =>
    refine ⟨?_, ⟨target.source, ?_, target.cleared, target.marked⟩, rfl, ahead.whole,
      ahead.accessed, id⟩
    · rw [Table.merge, if_pos same, logged, absorbed]
    · intro seen
      obtain ⟨untouched, empty⟩ := copy.whole seen
      exact ⟨ahead.not_cleared untouched, empty⟩

private theorem Fits.entry_of_touch {key : K} (fits : latest.Fits (table.touch key)) :
    table.source.content[key]? = latest.source.content[key]? := by
  unfold touch at fits
  split at fits
  · next seen => rw [fits.whole seen]
  · exact fits.entry key (by simp)

theorem perform_alike (copy : CopyOf marks clearing base table)
    (copy' : CopyOf known clearing' latest other) (alike : table.Alike other)
    (request : Request K V)
    (safe : base = latest ∨ ¬clearing ∧ Protected request (table.perform request).1 ∧
      latest.Fits (table.perform request).2) :
    (other.perform request).1 = (table.perform request).1 ∧
      (table.perform request).2.Alike (other.perform request).2 := by
  rcases safe with rfl | ⟨still, shown, fits⟩
  · rw [copy.eq_of_alike copy' alike]
    exact ⟨rfl, .refl _⟩
  -- A key that was read has the same entry in both sources, and after a look at all keys the
  -- sources have the same content.
  have entry {key : K} (fits : latest.Fits (table.touch key)) :
      table.source.content[key]? = other.source.content[key]? := by
    rw [copy'.source, fits.entry_of_touch]
  have content (fits : latest.Fits table.touchWhole) :
      table.source.content = other.source.content := by
    have open_ : table.cleared = false := by
      by_contra closed
      rw [Bool.not_eq_false] at closed
      exact still (copy.cleared closed)
    rw [copy'.source, fits.content_of_touchWhole open_]
  cases request with
  | get key =>
    refine ⟨?_, alike.touch key⟩
    simp only [perform, get, Prod.map_fst, alike.lookup (entry fits)]
  | contains key =>
    have same := entry fits
    refine ⟨?_, alike.touch key⟩
    have present : key ∈ other.source.content ↔ key ∈ table.source.content := by
      rw [Std.ExtTreeMap.mem_iff_isSome_getElem?, Std.ExtTreeMap.mem_iff_isSome_getElem?, same]
    simp only [perform, contains, Prod.map_fst, present, alike.modified, alike.deleted]
  | put key object =>
    have touched : table.touch key |>.Extends (table.put key object).2 :=
      ⟨rfl, id, fun _ => .inl, id⟩
    refine ⟨?_, alike.put key object⟩
    simp only [perform, put, Prod.map_fst, alike.lookup (entry (touched.fits fits))]
  | putAll entries => exact ⟨rfl, alike.putAll entries⟩
  | remove key =>
    have touched : table.touch key |>.Extends (table.remove key).2 :=
      ⟨rfl, id, fun _ => .inl, id⟩
    have same := entry (touched.fits fits)
    refine ⟨?_, alike.remove same⟩
    simp only [perform, remove, Prod.map_fst, alike.lookup same]
  | clear => exact shown.elim
  | size =>
    refine ⟨?_, alike.touchWhole⟩
    simp only [perform, size, Prod.map_fst, (alike.reads (content fits)).1]
  | isEmpty =>
    cases vacant : table.vacant with
    | false =>
      simp only [perform, isEmpty, vacant] at shown
      cases shown
    | true =>
      simp only [perform, isEmpty, vacant, if_true, Prod.map_snd, id] at fits ⊢
      rw [(alike.reads (content fits)).2.1, vacant]
      exact ⟨rfl, alike.touchWhole⟩
  | keys limit =>
    cases limit with
    | none =>
      refine ⟨?_, alike.touchWhole⟩
      simp only [perform, keys, Prod.map_fst, (alike.reads (content fits)).2.2]
    | some limit =>
      by_cases ended : table.visibleKeys.length < limit
      · simp only [perform, keys, if_pos ended, Prod.map_snd, id] at fits ⊢
        rw [(alike.reads (content fits)).2.2, if_pos ended]
        exact ⟨rfl, alike.touchWhole⟩
      · simp only [perform, keys, if_neg ended] at shown
        cases shown

end Table
end TransactionalMemory
