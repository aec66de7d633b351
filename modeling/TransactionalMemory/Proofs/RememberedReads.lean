import TransactionalMemory.Proofs.CommittedState
import TransactionalMemory.Proofs.ConflictRule
import TransactionalMemory.Proofs.SeenDepth

/-! What a merge leaves of the reads. Each kind of entity merges its log in a way of its own: a cell
takes over the flag of the branch, a table unites the keys unless a flag is in the way, a queue
keeps the greater depth. A branch that was taken from the entity as it is now never costs a read;
of any other copy it is said here which reads are lost. -/
namespace TransactionalMemory

def Conflicting {α : Type} (result : Except Failure α) : Prop :=
  ∃ cause, result = .error (.conflict cause)

private theorem conflicting_map {α β : Type} (f : α → β) (result : Except Failure α) :
    Conflicting (result.map f) ↔ Conflicting result := by
  cases result <;> simp [Conflicting, Except.map]

/-- No latest state accepts the merged entity that would have turned down the entity as it was
before, or the branch. -/
def Remembers {E : Type} (admits : E → Prop) (commit : (entity latest : E) → Except Failure E)
    (entity branch merged : E) : Prop :=
  ∀ latest, admits latest →
    Conflicting (commit entity latest) ∨ Conflicting (commit branch latest) →
      Conflicting (commit merged latest)

namespace Cell
variable {α : Type} {cell latest : Cell α}

private theorem conflicting_commit (settled : latest.accessed = false) (cell : Cell α) :
    Conflicting (cell.commit latest) ↔
      cell.accessed = true ∧ latest.source.identity ≠ cell.source.identity := by
  rw [Conflicting, commit, settled]
  by_cases same : latest.source.identity = cell.source.identity <;>
    cases seen : cell.accessed <;> cases written : cell.updated <;>
      simp [sameSource, same]

/-- The branch overwrites the flag. -/
def Keeps (cell branch : Cell α) : Prop :=
  cell.accessed = true → branch.accessed = true

private theorem remembers_iff {branch : Cell α} (same : branch.source = cell.source)
    (mode : MergeMode) :
    ∃ merged, branch.merge mode cell = .ok merged ∧
      (Remembers Untouched commit cell branch merged ↔ cell.Keeps branch) := by
  obtain ⟨merged, accepted, source, accessed⟩ : ∃ merged, branch.merge mode cell = .ok merged ∧
      merged.source = cell.source ∧ merged.accessed = branch.accessed := by
    unfold Cell.merge
    rw [if_pos (by simp [sameSource, same])]
    cases mode <;> exact ⟨_, rfl, rfl, rfl⟩
  refine ⟨merged, accepted, fun remembers seen => ?_, fun kept latest untouched => ?_⟩
  · have apart := cell.source.identity.child_ne_self 0
    have refused := remembers (ofObject ⟨cell.source.identity.child 0, cell.source.content⟩) rfl
      (.inl ((conflicting_commit rfl cell).mpr ⟨seen, apart⟩))
    rw [← accessed]
    exact ((conflicting_commit rfl merged).mp refused).1
  · have settled := untouched.accessed
    rw [conflicting_commit settled, conflicting_commit settled, conflicting_commit settled, source,
      accessed, same]
    exact Or.rec (And.imp_left kept) id

end Cell

namespace Table
variable {K V : Type} [Ord K] [Std.TransOrd K] {stored : V → Prop}
  {table branch latest merged : Table K V}

/-- Only such objects are stored. -/
def Stores (stored : V → Prop) (table : Table K V) : Prop :=
  table.source.content.Every fun object => stored object.content

/-- A state that a copy of the table may be committed against. An identity stands for one object. -/
structure Admits (stored : V → Prop) (table latest : Table K V) : Prop where
  settled : latest.hasLog = false
  same : table.source.identity = latest.source.identity →
    table.source.content = latest.source.content
  stores : latest.Stores stored

private theorem Admits.of_source {other : Table K V} (admits : table.Admits stored latest)
    (same : other.source = table.source) : other.Admits stored latest :=
  ⟨admits.settled, same ▸ admits.same, admits.stores⟩

private theorem accesses_mergeLog (branch table : Table K V) (key : K) :
    (mergeLog branch table).Accesses key ↔ table.Accesses key ∨ key ∈ branch.accessed ∨
      branch.accessedWhole = true ∧ table.cleared = false := by
  unfold mergeLog touchWhole Accesses
  cases branch.accessedWhole <;> cases table.cleared <;> cases whole : table.accessedWhole <;>
    simp [whole]

/-- A branch that has seen all keys hands on none of them to a table that was cleared. -/
def Keeps (table branch : Table K V) : Prop :=
  branch.accessedWhole = true → table.cleared = true →
    table.accessedWhole = true ∨ ∀ key, key ∈ table.accessed ∨ key ∈ branch.accessed

theorem keeps_iff (table branch : Table K V) :
    (∀ key, table.Accesses key ∨ branch.Accesses key → (mergeLog branch table).Accesses key) ↔
      table.Keeps branch := by
  simp only [accesses_mergeLog]
  unfold Accesses Keeps
  constructor
  · intro kept whole cleared
    by_cases all : table.accessedWhole = true
    · exact .inl all
    · refine .inr fun key => ?_
      simpa [all, cleared] using kept key (.inr (.inl whole))
  · rintro kept key (seen | whole | seen)
    · exact .inl seen
    · cases cleared : table.cleared with
      | false => exact .inr (.inr ⟨whole, rfl⟩)
      | true => exact (kept whole cleared).elim (.inl ∘ .inl) fun logged =>
          (logged key).imp .inr .inl
    · exact .inr (.inl seen)

/-- No copy sees the whole table after a clear. -/
theorem Extends.keeps {marks : Object V → Prop} {clearing : Prop} {base : Table K V}
    (ahead : table.Extends branch) (copy : CopyOf marks clearing base branch) :
    table.Keeps branch := by
  intro whole cleared
  have closed := ahead.cleared cleared
  rw [(copy.whole whole).1] at closed
  cases closed

theorem merge_logged (same : branch.source = table.source) (mode : MergeMode) :
    ∃ merged, branch.merge mode table = .ok merged ∧ merged.source = table.source ∧
      merged.unlogged = (mode.pick branch table).unlogged ∧
      ∀ key, merged.Accesses key ↔ (mergeLog branch table).Accesses key := by
  obtain ⟨merged, accepted, kept⟩ := merge_unlogged same mode
  refine ⟨merged, accepted, ?_, kept, ?_⟩
  · injection kept with source
    cases mode with
    | everything => exact source.trans same
    | readsOnly => exact source
  · unfold merge at accepted
    rw [if_pos (by simp [sameSource, same])] at accepted
    cases mode <;> cases accepted <;> exact fun _ => .rfl

variable [Std.LawfulEqOrd K]

private theorem conflicting_commit (admits : table.Admits stored latest) (fresh : Identity) :
    Conflicting (table.commit fresh latest) ↔ ∃ key, table.Accesses key ∧
      table.source.content.identity? key ≠ latest.source.content.identity? key := by
  constructor
  · rintro ⟨cause, refused⟩
    by_contra calm
    push Not at calm
    rw [commit_accepted admits.settled] at refused
    · cases refused
    · exact fun whole => .inr ((sameEntries_iff _ _).mpr fun key => calm key (.inl whole))
    · exact fun key seen => calm key (.inr seen)
  · rintro ⟨key, seen, changed⟩
    refine (commit_total admits.settled fresh table).resolve_right ?_
    rintro ⟨next, accepted⟩
    obtain ⟨_, whole, entries, _⟩ := commit_ok accepted
    rcases seen with all | seen
    · rcases whole all with named | same
      · exact changed (by rw [admits.same named])
      · exact changed ((sameEntries_iff _ _).mp same key)
    · exact changed (entries key seen)

/-- Any single entry may come or go. -/
theorem exists_changed (stores : table.Stores stored) (value : Subtype stored) (key : K) :
    ∃ latest, table.Admits stored latest ∧
      table.source.content.identity? key ≠ latest.source.content.identity? key ∧
      ∀ other, other ≠ key →
        table.source.content.identity? other = latest.source.content.identity? other := by
  have apart := table.source.identity.child_ne_self 0
  by_cases present : key ∈ table.source.content
  · refine ⟨ofObject ⟨table.source.identity.child 0, table.source.content.erase key⟩,
      ⟨rfl, fun same => absurd same.symm apart, Entries.Every.erase stores key⟩, ?_,
      fun other foreign => ?_⟩
    · simp [ofObject, Entries.identity?, present]
    · simp [ofObject, Entries.identity?, Std.ExtTreeMap.getElem?_erase, foreign.symm]
  · refine ⟨ofObject ⟨table.source.identity.child 0,
      table.source.content.insert key ⟨table.source.identity, value⟩⟩,
      ⟨rfl, fun same => absurd same.symm apart, Entries.Every.insert stores key value.property⟩,
      ?_, fun other foreign => ?_⟩
    · simp [ofObject, Entries.identity?, present]
    · simp [ofObject, Entries.identity?, Std.ExtTreeMap.getElem?_insert, foreign.symm]

/-- A state that has changed under a single key tells whether the key is remembered. -/
theorem remembers_accesses (stores : table.Stores stored) (value : Subtype stored)
    (same : branch.source = table.source) (source : merged.source = table.source)
    (fresh : Identity) :
    Remembers (table.Admits stored) (commit fresh) table branch merged ↔
      ∀ key, table.Accesses key ∨ branch.Accesses key → merged.Accesses key := by
  constructor
  · intro remembers key seen
    obtain ⟨latest, admits, changed, calm⟩ := exists_changed stores value key
    have refused := remembers latest admits (seen.imp
      (fun seen => (conflicting_commit admits fresh).mpr ⟨key, seen, changed⟩)
      (fun seen => (conflicting_commit (admits.of_source same) fresh).mpr
        ⟨key, seen, same ▸ changed⟩))
    obtain ⟨other, seen, changed⟩ := (conflicting_commit (admits.of_source source) fresh).mp refused
    rw [source] at changed
    rwa [← not_imp_comm.mp (calm other) changed]
  · intro kept latest admits
    rw [conflicting_commit admits, conflicting_commit (admits.of_source same),
      conflicting_commit (admits.of_source source), same, source]
    rintro (⟨key, seen, changed⟩ | ⟨key, seen, changed⟩)
    · exact ⟨key, kept key (.inl seen), changed⟩
    · exact ⟨key, kept key (.inr seen), changed⟩

private theorem remembers_iff (stores : table.Stores stored) (value : Subtype stored)
    (same : branch.source = table.source) (mode : MergeMode) (fresh : Identity) :
    ∃ merged, branch.merge mode table = .ok merged ∧
      (Remembers (table.Admits stored) (commit fresh) table branch merged ↔
        table.Keeps branch) := by
  obtain ⟨merged, accepted, source, _, logged⟩ := merge_logged same mode
  refine ⟨merged, accepted, ?_⟩
  rw [remembers_accesses stores value same source, ← keeps_iff]
  simp only [logged]

end Table

namespace Multimap
variable {K V : Type} [Ord K] [Ord V] [Std.TransOrd K] [Std.TransOrd V] [Std.LawfulEqOrd K]
  {multimap branch : Multimap K V}

/-- No set is stored empty. -/
def Filled (set : ValueSet V) : Prop :=
  set ≠ ∅

def Admits (multimap latest : Multimap K V) : Prop :=
  multimap.table.Admits Filled latest.table

private theorem remembers_iff [Nonempty V] (stores : multimap.table.Stores Filled)
    (same : branch.table.source = multimap.table.source) (mode : MergeMode) (fresh : Identity) :
    ∃ merged, branch.merge mode multimap = .ok merged ∧
      (Remembers multimap.Admits (commit fresh) multimap branch merged ↔
        multimap.table.Keeps branch.table) := by
  obtain ⟨value⟩ := ‹Nonempty V›
  have filled : Filled (Std.ExtTreeSet.ofList [value] : ValueSet V) := by
    intro empty
    have member : value ∈ (Std.ExtTreeSet.ofList [value] : ValueSet V) := by simp
    simp [empty] at member
  obtain ⟨merged, accepted, kept⟩ := Table.remembers_iff stores ⟨_, filled⟩ same mode fresh
  refine ⟨⟨merged⟩, by rw [merge, accepted]; rfl, ?_⟩
  rw [← kept]
  simp only [Remembers, commit, conflicting_map]
  exact ⟨fun remembers latest => remembers ⟨latest⟩, fun remembers latest => remembers latest.table⟩

end Multimap

namespace Queue
variable {α : Type} {queue branch latest : Queue α}

private theorem Clash.deeper {base : Queue α} {depth depth' : Nat} (clash : Clash base latest depth)
    (deeper : depth ≤ depth') : Clash base latest depth' :=
  clash.imp (And.imp_left fun seen => by omega) (And.imp_left fun beyond => by omega)

private theorem remembers (source : branch.source = queue.source)
    (head : branch.polledBefore = queue.polledBefore) (mode : MergeMode) (fresh : Identity) :
    ∃ merged, branch.merge mode queue = .ok merged ∧
      Remembers LogFree (commit fresh) queue branch merged := by
  obtain ⟨merged, accepted, same, kept, depth⟩ : ∃ merged, branch.merge mode queue = .ok merged ∧
      merged.source = queue.source ∧ merged.polledBefore = queue.polledBefore ∧
      merged.depth = max queue.depth branch.depth := by
    unfold Queue.merge
    rw [if_pos (by simp [sameSource, source])]
    cases mode <;> exact ⟨_, rfl, rfl, rfl, rfl⟩
  refine ⟨merged, accepted, fun latest logFree => ?_⟩
  simp only [Conflicting, conflict_iff_clash logFree, Clash, source, head, same, kept]
  rintro (clash | clash)
  · exact Clash.deeper clash (by omega)
  · exact Clash.deeper clash (by omega)

end Queue

/-- A merge into an entity with the same source is accepted. A cell forgets its own read if the
branch was not read, a table forgets that the branch has seen all of it if it was cleared itself;
apart from that no read is lost, and a queue never loses one. -/
theorem reads_kept_iff {α K V W : Type} [Ord K] [Std.TransOrd K] [Std.LawfulEqOrd K] [Ord W]
    [Std.TransOrd W] [Nonempty V] [Nonempty W] (mode : MergeMode) (fresh : Identity) :
    (∀ cell branch : Cell α, branch.source = cell.source →
      ∃ merged, branch.merge mode cell = .ok merged ∧
        (Remembers Cell.Untouched Cell.commit cell branch merged ↔ cell.Keeps branch)) ∧
    (∀ table branch : Table K V, branch.source = table.source →
      ∃ merged, branch.merge mode table = .ok merged ∧
        (Remembers (table.Admits fun _ => True) (Table.commit fresh) table branch merged ↔
          table.Keeps branch)) ∧
    (∀ multimap branch : Multimap K W, multimap.table.Stores Multimap.Filled →
      branch.table.source = multimap.table.source →
      ∃ merged, branch.merge mode multimap = .ok merged ∧
        (Remembers multimap.Admits (Multimap.commit fresh) multimap branch merged ↔
          multimap.table.Keeps branch.table)) ∧
    ∀ queue branch : Queue α, branch.source = queue.source →
      branch.polledBefore = queue.polledBefore →
      ∃ merged, branch.merge mode queue = .ok merged ∧
        Remembers Queue.LogFree (Queue.commit fresh) queue branch merged := by
  obtain ⟨value⟩ := ‹Nonempty V›
  refine ⟨fun cell branch same => ?_, fun table branch same => ?_,
    fun multimap branch stores same => ?_, fun queue branch same head => ?_⟩
  · exact Cell.remembers_iff same mode
  · exact Table.remembers_iff (fun _ _ _ => trivial) ⟨value, trivial⟩ same mode fresh
  · exact Multimap.remembers_iff stores same mode fresh
  · exact Queue.remembers same head mode fresh

/-- Each branch has moved on from what it is merged into. -/
theorem reads_kept_iff_ahead :
    let cell := (Cell.ofObject ⟨⟨0, []⟩, 1⟩).deref.2
    let table := (Table.stock.copy .clean).performAll [.get 1, .clear]
    let multimap : Multimap Nat Nat := Multimap.empty ⟨0, []⟩
    let queue := (Queue.ofItems ⟨0, []⟩ [1, 2]).poll.2
    (∃ merged, (cell.assoc ⟨⟨1, []⟩, 2⟩).2.merge .readsOnly cell = .ok merged ∧
      Remembers Cell.Untouched Cell.commit cell (cell.assoc ⟨⟨1, []⟩, 2⟩).2 merged) ∧
    (∃ merged, table.size.2.merge .readsOnly table = .ok merged ∧
      Remembers (table.Admits fun _ => True) (Table.commit ⟨2, []⟩) table table.size.2 merged) ∧
    (∃ merged, multimap.size.2.merge .readsOnly multimap = .ok merged ∧
      Remembers multimap.Admits (Multimap.commit ⟨2, []⟩) multimap multimap.size.2 merged) ∧
    ∃ merged, queue.poll.2.merge .readsOnly queue = .ok merged ∧
      Remembers Queue.LogFree (Queue.commit ⟨2, []⟩) queue queue.poll.2 merged := by
  intro cell table multimap queue
  obtain ⟨cells, tables, multimaps, queues⟩ :=
    @reads_kept_iff Nat Nat Nat Nat _ _ _ _ _ _ _ .readsOnly ⟨2, []⟩
  obtain ⟨merged, accepted, kept⟩ := cells cell (cell.assoc ⟨⟨1, []⟩, 2⟩).2 rfl
  obtain ⟨merged', accepted', kept'⟩ := tables table table.size.2 rfl
  obtain ⟨merged'', accepted'', kept''⟩ := multimaps multimap multimap.size.2
    (fun key object found => by cases found) rfl
  refine ⟨⟨merged, accepted, kept.mpr ?_⟩, ⟨merged', accepted', kept'.mpr ?_⟩,
    ⟨merged'', accepted'', kept''.mpr ?_⟩, queues queue queue.poll.2 rfl rfl⟩
  · exact fun seen => seen
  · exact fun whole => nomatch whole
  · exact fun _ cleared => nomatch cleared

/-- A branch that was taken before the cell was read, or before the table was cleared. -/
theorem reads_forgotten :
    let cell := Cell.ofObject ⟨⟨0, []⟩, 1⟩
    let assigned := Cell.ofObject ⟨⟨1, []⟩, 2⟩
    let table := Table.stock.copy .clean
    let counted := (table.copy .dirty).size.2
    (Conflicting (cell.deref.2.commit assigned) ∧
      ∃ merged next, (cell.copy .dirty).merge .readsOnly cell.deref.2 = .ok merged ∧
        merged.commit assigned = .ok next) ∧
    Conflicting (counted.commit ⟨4, []⟩ Table.restocked) ∧
      ∃ merged next, counted.merge .everything table.clear = .ok merged ∧
        merged.commit ⟨4, []⟩ Table.restocked = .ok next := by
  exact ⟨⟨⟨_, rfl⟩, _, _, rfl, rfl⟩, ⟨_, rfl⟩, _, _, rfl, rfl⟩

end TransactionalMemory
