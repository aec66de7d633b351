import Mathlib.Data.List.Perm.Subperm
import TransactionalMemory.Proofs.TableCopy

/-! Committing a working copy of a table. A commit compares identities only; as long as an identity
stands for one object, it is accepted if nothing that was seen has changed, and a copy of the
latest table with the same changes would give the same next table. -/
namespace TransactionalMemory.Table
variable {K V : Type} [Ord K] [Std.TransOrd K]
  {marks known : Object V → Prop} {clearing clearing' : Prop}
  {base latest table other : Table K V}

/-- What the latest table is after a copy with these changes was committed. -/
def advanced (fresh : Identity) (table latest : Table K V) : Table K V :=
  if table.deleted.isEmpty && table.modified.isEmpty then latest.copy .clean
  else ofObject ⟨fresh, latest.source.content.overlay table.modified table.deleted⟩

theorem untouched_advanced (fresh : Identity) (table latest : Table K V) :
    (table.advanced fresh latest).Untouched := by
  unfold advanced
  split <;> rfl

/-- No other entries go by the identity of the base, and under no key does another object go by
the identity of the one that the base holds there. -/
structure Later (base latest : Table K V) : Prop where
  same : base.source.identity = latest.source.identity →
    base.source.content = latest.source.content
  entry : ∀ (key : K) one another, base.source.content[key]? = some one →
    latest.source.content[key]? = some another → one.identity = another.identity → one = another

theorem Later.refl (table : Table K V) : Later table table := by
  refine ⟨fun _ => rfl, ?_⟩
  intro key one another found found' _
  rw [found] at found'
  exact Option.some.inj found'

theorem Later.entry_eq (later : Later base latest) {key : K}
    (same : base.source.content.identity? key = latest.source.content.identity? key) :
    base.source.content[key]? = latest.source.content[key]? := by
  rw [Entries.identity?, Entries.identity?] at same
  cases found : base.source.content[key]? with
  | none =>
    rw [found] at same
    exact (Option.map_eq_none_iff.mp same.symm).symm
  | some one =>
    rw [found] at same
    obtain ⟨another, found', named⟩ := Option.map_eq_some_iff.mp same.symm
    rw [found', later.entry key one another found found' named.symm]

variable [Std.LawfulEqOrd K]

theorem commit_ok {fresh : Identity} {next : Table K V}
    (accepted : table.commit fresh latest = .ok next) :
    latest.hasLog = false ∧
      (table.accessedWhole = true → table.source.identity = latest.source.identity ∨
        table.source.content.sameEntries latest.source.content = true) ∧
      (∀ key ∈ table.accessed,
        table.source.content.identity? key = latest.source.content.identity? key) ∧
      next = table.advanced fresh latest := by
  unfold commit at accepted
  split at accepted
  · cases accepted
  next settled =>
  split at accepted
  · cases accepted
  next whole =>
  split at accepted
  · cases accepted
  next entries =>
  refine ⟨by simpa using settled, fun seen => ?_, fun key seen => ?_, ?_⟩
  · by_contra changed
    rw [not_or] at changed
    apply whole
    simp [seen, sameSource, changed.1, changed.2]
  · have listed : key ∈ table.accessed.toList := Std.ExtTreeSet.mem_toList.mpr seen
    rw [Bool.not_eq_true, Bool.not_eq_false'] at entries
    simpa [Entries.sameEntry] using List.all_eq_true.mp entries key listed
  · unfold advanced
    split at accepted <;> cases accepted <;> simp_all

theorem commit_accepted {fresh : Identity} (settled : latest.hasLog = false)
    (whole : table.accessedWhole = true → table.source.identity = latest.source.identity ∨
      table.source.content.sameEntries latest.source.content = true)
    (entries : ∀ key ∈ table.accessed,
      table.source.content.identity? key = latest.source.content.identity? key) :
    table.commit fresh latest = .ok (table.advanced fresh latest) := by
  have all : (table.accessedWhole && !(table.sameSource latest
      || table.source.content.sameEntries latest.source.content)) = false := by
    cases seen : table.accessedWhole with
    | false => rfl
    | true => rcases whole seen with same | same <;> simp [sameSource, same]
  have each :
      table.accessed.toList.all (table.source.content.sameEntry latest.source.content) = true := by
    rw [List.all_eq_true]
    intro key listed
    simpa [Entries.sameEntry] using entries key (Std.ExtTreeSet.mem_toList.mp listed)
  rw [commit, advanced, settled, all, each]
  simp only [Bool.false_eq_true, if_false, Bool.not_true]
  split <;> rfl

theorem commit_of_copy {fresh : Identity} (settled : latest.hasLog = false)
    (copy : CopyOf marks clearing latest table) :
    table.commit fresh latest = .ok (table.advanced fresh latest) := by
  have source := copy.source
  apply commit_accepted settled
  · exact fun _ => .inl (congrArg Object.identity source)
  · exact fun key _ => by rw [source]

theorem commit_alike {fresh : Identity} {next : Table K V}
    (accepted : table.commit fresh latest = .ok next) (copy : CopyOf marks clearing latest other)
    (alike : table.Alike other) : other.commit fresh latest = .ok next := by
  obtain ⟨settled, _, _, rfl⟩ := commit_ok accepted
  rw [commit_of_copy settled copy, advanced, advanced, alike.modified, alike.deleted]

theorem content_advanced (fresh : Identity) (table latest : Table K V) (key : K) :
    (table.advanced fresh latest).source.content[key]? =
      {table with source := latest.source}.lookup key := by
  unfold advanced
  split
  · next idle =>
    rw [Bool.and_eq_true, Std.ExtTreeSet.isEmpty_iff, Std.ExtTreeMap.isEmpty_iff] at idle
    simp [Table.lookup, copy, ofObject, idle]
  · exact getElem?_entries {table with source := latest.source} key

theorem entry_advanced {fresh : Identity} {key : K} {object : Object V}
    (found : (table.advanced fresh latest).source.content[key]? = some object) :
    latest.source.content[key]? = some object ∨ table.modified[key]? = some object := by
  rw [content_advanced, Table.lookup] at found
  split at found
  · cases found
  · exact (Option.or_eq_some_iff.mp found).symm.imp And.right id

/-- Equal sizes leave no room for an entry that only the other has. -/
theorem sameEntries_iff (entries other : Entries K V) :
    entries.sameEntries other = true ↔ ∀ key, entries.identity? key = other.identity? key := by
  have present (entries : Entries K V) (key : K) :
      key ∈ entries.keys ↔ (entries.identity? key).isSome := by
    rw [Entries.identity?, Option.isSome_map, ← Std.ExtTreeMap.mem_iff_isSome_getElem?,
      Std.ExtTreeMap.mem_keys]
  rw [Entries.sameEntries, Bool.and_eq_true, decide_eq_true_eq, List.all_eq_true]
  constructor
  · rintro ⟨sizes, all⟩
    have agree {key : K} (listed : key ∈ entries.keys) :
        entries.identity? key = other.identity? key := by
      simpa [Entries.sameEntry] using all key listed
    have subset : entries.keys ⊆ other.keys := by
      intro key listed
      rw [present, ← agree listed, ← present]
      exact listed
    have perm := (Std.ExtTreeMap.nodup_keys.subperm subset).perm_of_length_le
      (by rw [Std.ExtTreeMap.length_keys, Std.ExtTreeMap.length_keys]
          exact Nat.le_of_eq sizes.symm)
    intro key
    by_cases listed : key ∈ entries.keys
    · exact agree listed
    · have unlisted : key ∉ other.keys := perm.mem_iff.not.mp listed
      rw [present, Option.not_isSome_iff_eq_none] at listed unlisted
      rw [listed, unlisted]
  · intro same
    have perm : entries.keys.Perm other.keys := by
      rw [List.perm_ext_iff_of_nodup Std.ExtTreeMap.nodup_keys Std.ExtTreeMap.nodup_keys]
      intro key
      rw [present, present, same]
    constructor
    · simpa [Std.ExtTreeMap.length_keys] using perm.length_eq
    · intro key _
      simpa [Entries.sameEntry] using same key

private theorem Later.content_eq (later : Later base latest)
    (same : base.source.content.sameEntries latest.source.content = true) :
    base.source.content = latest.source.content := by
  rw [sameEntries_iff] at same
  exact Std.ExtTreeMap.ext_getElem? fun key => later.entry_eq (same key)

theorem Later.fits {fresh : Identity} {next : Table K V} (later : Later base latest)
    (copy : CopyOf marks clearing base table) (accepted : table.commit fresh latest = .ok next) :
    latest.Fits table := by
  obtain ⟨_, whole, entries, _⟩ := commit_ok accepted
  rw [copy.source] at whole entries
  constructor
  · intro key seen
    rw [copy.source]
    exact later.entry_eq (entries key seen)
  · intro seen
    rw [copy.source]
    rcases whole seen with named | same
    · exact later.same named
    · exact later.content_eq same

theorem Later.commit {fresh : Identity} {base' next : Table K V} (later : Later base latest)
    (copy : CopyOf marks clearing base' table) (apart : base.source.identity ≠ fresh)
    (agree : ∀ (key : K) one another, base.source.content[key]? = some one → marks another →
      one.identity = another.identity → one = another)
    (accepted : table.commit fresh latest = .ok next) : Later base next := by
  obtain ⟨_, _, _, rfl⟩ := commit_ok accepted
  constructor
  · unfold advanced
    split
    · exact later.same
    · exact fun same => absurd same apart
  · intro key one another found found' named
    rcases entry_advanced found' with old | new
    · exact later.entry key one another found old named
    · exact agree key one another found (copy.marked key another new) named

end TransactionalMemory.Table
