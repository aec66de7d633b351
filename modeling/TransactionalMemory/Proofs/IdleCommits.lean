import TransactionalMemory.Proofs.CommittedState
import TransactionalMemory.Proofs.PublishedContent
import TransactionalMemory.Proofs.ScopeRun

/-! A commit without pending writes goes unseen. It leaves the values of every part as they were,
identities included, even though it replaces the slots it has reached. Whatever else is committed
then has the same outcome as if the idle commit had not been there. -/
namespace TransactionalMemory

private theorem Cell.Untouched.eq {α : Type} {cell other : Cell α} (untouched : cell.Untouched)
    (untouched' : other.Untouched) (same : cell.unlogged = other.unlogged) : cell = other := by
  injection same with source
  rw [← untouched, ← untouched', copy, copy, source]

private theorem Table.Untouched.eq {K V : Type} [Ord K] {table other : Table K V}
    (untouched : table.Untouched) (untouched' : other.Untouched)
    (same : table.unlogged = other.unlogged) : table = other := by
  injection same with source
  rw [← untouched, ← untouched', copy, copy, source]

private theorem Queue.Untouched.eq {α : Type} {queue other : Queue α} (untouched : queue.Untouched)
    (untouched' : other.Untouched) (same : queue.unlogged = other.unlogged) : queue = other := by
  injection same with source polledBefore
  rw [← untouched, ← untouched', copy, copy, source, polledBefore]

/-- Both are refused for the same reason, or what they come to is related. -/
inductive SameOutcome {α β : Type} (related : α → β → Prop) :
    Except Failure α → Except Failure β → Prop where
  | refused (failure : Failure) : SameOutcome related (.error failure) (.error failure)
  | accepted {value : α} {other : β} (same : related value other) :
      SameOutcome related (.ok value) (.ok other)

namespace SameOutcome
variable {α β γ δ : Type} {related : α → β → Prop} {later : γ → δ → Prop}

theorem refl {related : α → α → Prop} (same : ∀ value, related value value)
    (outcome : Except Failure α) : SameOutcome related outcome outcome := by
  cases outcome with
  | error failure => exact .refused failure
  | ok value => exact .accepted (same value)

private theorem map {outcome : Except Failure α} {other : Except Failure β} {wrap : α → γ}
    {wrap' : β → δ} (same : SameOutcome related outcome other)
    (wrapped : ∀ {value other}, related value other → later (wrap value) (wrap' other)) :
    SameOutcome later (outcome.map wrap) (other.map wrap') := by
  cases same with
  | refused failure => exact .refused failure
  | accepted same => exact .accepted (wrapped same)

private theorem bind {outcome : Except Failure α} {other : Except Failure β}
    {next : α → Except Failure γ} {next' : β → Except Failure δ}
    (same : SameOutcome related outcome other)
    (after : ∀ {value other}, related value other →
      SameOutcome later (next value) (next' other)) :
    SameOutcome later (outcome >>= next) (other >>= next') := by
  cases same with
  | refused failure => exact .refused failure
  | accepted same => exact after same

end SameOutcome

namespace Entity
variable {entity latest latest' : Entity} {fresh : Identity}

theorem SameValues.refl (entity : Entity) : SameValues entity entity :=
  (SameContent.refl entity).values

private theorem sameOutcome_commitSlots {latests latests' : List (Slot Entity)}
    (inside : ∀ latest ∈ latests, ∀ {entity latest' : Entity} {fresh},
      SameValues latest.content latest' → Untouched latest.content → Untouched latest' →
      SameOutcome SameValues (entity.commit fresh latest.content) (entity.commit fresh latest'))
    (same : List.Forall₂ valueLinks.SlotRelated latests latests')
    (settled : ∀ latest ∈ latests, Untouched latest.content)
    (settled' : ∀ latest ∈ latests', Untouched latest.content) (index : Nat)
    (slots : List (Slot Entity)) :
    SameOutcome (List.Forall₂ valueLinks.SlotRelated) (commitSlots fresh index slots latests)
      (commitSlots fresh index slots latests') := by
  induction same generalizing index slots with
  | nil => exact .refl (fun _ => List.forall₂_same.mpr fun slot _ => SameValues.refl slot.content) _
  | @cons latest latest' latests latests' head tail ih =>
    cases slots with
    | nil => exact .accepted (.cons head tail)
    | cons slot slots =>
      obtain ⟨identity, accessed, content⟩ := slot
      obtain ⟨first, settled⟩ := List.forall_mem_cons.mp settled
      obtain ⟨first', settled'⟩ := List.forall_mem_cons.mp settled'
      have rest := ih (fun latest member => inside latest (List.mem_cons_of_mem _ member)) settled
        settled' (index + 1) slots
      cases accessed with
      | true =>
        rw [commitSlots, commitSlots]
        have committed : SameOutcome SameValues (content.commit (fresh.child index) latest.content)
            (content.commit (fresh.child index) latest'.content) :=
          inside latest List.mem_cons_self head first first'
        refine committed.bind fun values => rest.bind fun others => ?_
        exact .accepted (.cons values others)
      | false =>
        rw [commitSlots, commitSlots]
        exact rest.bind fun others => .accepted (.cons head others)

/-- The timestamp goes on from that of the latest snapshot, whatever has led to it. -/
theorem sameOutcome_snapshot {snapshot latest latest' : Snapshot Entity}
    (data : SameOutcome SameValues (snapshot.data.commit (fresh.child 0) latest.data)
      (snapshot.data.commit (fresh.child 0) latest'.data))
    (globals : latest.globals = latest'.globals) :
    SameOutcome (fun next next' => SameValues (.snapshot next) (.snapshot next') ∧
        next.timestamp = latest.timestamp + 1 ∧ next'.timestamp = latest'.timestamp + 1)
      (snapshot.commit fresh latest) (snapshot.commit fresh latest') := by
  rw [Snapshot.commit, Snapshot.commit, globals]
  refine data.bind fun values => ?_
  refine (SameOutcome.refl (fun _ => rfl) _).bind fun same => .accepted ?_
  obtain rfl := same
  exact ⟨relates_snapshot.mpr ⟨_, rfl, trivial, values, rfl⟩, rfl, rfl⟩

theorem SameValues.commit (same : SameValues latest latest') (settled : Untouched latest)
    (settled' : Untouched latest') (entity : Entity) (fresh : Identity) :
    SameOutcome SameValues (entity.commit fresh latest) (entity.commit fresh latest') := by
  induction latest using induct generalizing latest' entity fresh with
  | cell latest =>
    obtain ⟨_, rfl, same⟩ := relates_cell.mp same
    rw [Cell.Untouched.eq settled settled' same]
    exact .refl SameValues.refl _
  | table latest =>
    obtain ⟨_, rfl, same⟩ := relates_table.mp same
    rw [Table.Untouched.eq settled settled' same]
    exact .refl SameValues.refl _
  | multimap latest =>
    obtain ⟨⟨table⟩, rfl, same⟩ := relates_multimap.mp same
    obtain ⟨table'⟩ := latest
    obtain rfl : table' = table := Table.Untouched.eq settled settled' same
    exact .refl SameValues.refl _
  | queue latest =>
    obtain ⟨_, rfl, same⟩ := relates_queue.mp same
    rw [Queue.Untouched.eq settled settled' same]
    exact .refl SameValues.refl _
  | bundle latests rule ih =>
    obtain ⟨latests', _, rfl, _, contents⟩ := relates_bundle.mp same
    have settled := every_bundle.mp settled
    have settled' := every_bundle.mp settled'
    have still : latests.any (·.accessed) = latests'.any (·.accessed) := by
      rw [unopened settled, unopened settled']
    cases entity with
    | bundle slots rule' =>
      rw [Entity.commit, Entity.commit, still, contents.length_eq]
      split
      · exact .refused _
      split
      · exact .refused _
      · refine (sameOutcome_commitSlots ?_ contents (fun latest member => (settled latest member).2)
          (fun latest member => (settled' latest member).2) 0 slots).map fun others => ?_
        · intro latest member entity latest' fresh same settled settled'
          exact ih latest member same settled settled' entity fresh
        · exact relates_bundle.mpr ⟨_, _, rfl, trivial, others⟩
    | _ => exact .refused _
  | snapshot latest ih =>
    obtain ⟨latest', rfl, _, data, globals⟩ := relates_snapshot.mp same
    obtain ⟨settled, hosted⟩ := every_snapshot.mp settled
    obtain ⟨settled', hosted'⟩ := every_snapshot.mp settled'
    cases entity with
    | snapshot inner =>
      rw [commit_snapshot, commit_snapshot]
      have inside := ih data settled settled' inner.data (fresh.child 0)
      exact (sameOutcome_snapshot inside (Table.Untouched.eq hosted hosted' globals)).map And.left
    | _ => exact .refused _

end Entity

/-- A commit that has nothing pending is unseen by the others. It changes no value; and any other
snapshot, no matter when its transaction began, is then refused for the same reason or publishes
the same values as without it, one timestamp later. -/
theorem Memory.idle_commit_unseen {memory after : Memory} {seed : Identity}
    {reader next : Snapshot Entity} (untouched : Entity.Untouched (.snapshot memory.committed))
    (idle : Entity.Idle (.snapshot reader))
    (accepted : memory.publish seed reader = .ok (next, after)) :
    Entity.SameValues (.snapshot memory.committed) (.snapshot after.committed) ∧
      after.committed.timestamp = memory.committed.timestamp + 1 ∧
      ∀ seed' working, SameOutcome
        (fun alone behind =>
          Entity.SameValues (.snapshot alone.2.committed) (.snapshot behind.2.committed) ∧
            behind.2.committed.timestamp = alone.2.committed.timestamp + 1)
        (memory.publish seed' working) (after.publish seed' working) := by
  have still := untouched_publish untouched accepted
  obtain ⟨commits, rfl⟩ := publish_ok.mp accepted
  have values := idle.commit untouched (Entity.commit_snapshot_ok.mpr commits)
  obtain ⟨_, _, _, _, rfl⟩ := Snapshot.commit_ok.mp commits
  refine ⟨values, rfl, fun seed' working => ?_⟩
  obtain ⟨_, same, _, data, globals⟩ := Entity.relates_snapshot.mp values
  cases same
  obtain ⟨settled, hosted⟩ := Entity.every_snapshot.mp untouched
  obtain ⟨settled', hosted'⟩ := Entity.every_snapshot.mp still
  have inside := Entity.SameValues.commit data settled settled' working.data (seed'.child 0)
  have globals := Table.Untouched.eq hosted hosted' globals
  refine (Entity.sameOutcome_snapshot inside globals).bind fun outcome => .accepted ?_
  obtain ⟨same, alone, behind⟩ := outcome
  exact ⟨same, by rw [alone, behind]⟩

def shelf : Memory :=
  .create ⟨1, []⟩ .standard (.bundle
    [⟨⟨0, [0]⟩, false, .cell (.ofObject ⟨⟨0, [1]⟩, .number 1⟩)⟩,
      ⟨⟨0, [2]⟩, false, .queue (.ofItems ⟨0, [3]⟩ [])⟩,
      ⟨⟨0, [4]⟩, false, .bundle [⟨⟨0, [5]⟩, false, .table (.ofEntries ⟨0, [6]⟩ [])⟩] .take⟩] .take)

def shelve : Question :=
  ⟨[.data, .slot 0 none], .request (.cell (.assoc ⟨⟨4, []⟩, .number 2⟩))⟩

/-- Reads, polls in vain, removes what is not there and what it has just put, and discards a nested
transaction that has written. -/
def browsing : Body Question Answer Unit :=
  .ask ⟨[.data, .slot 0 none], .request (.cell .deref)⟩ fun _ =>
  .ask ⟨[.data, .slot 1 none], .request (.queue .poll)⟩ fun _ =>
  .ask ⟨[.data, .slot 2 none, .slot 0 none], .request (.table (.remove "absent"))⟩ fun _ =>
  .ask ⟨[], .request (.globals (.put 7 ⟨⟨5, []⟩, .null⟩))⟩ fun _ =>
  .ask ⟨[], .request (.globals (.remove 7))⟩ fun _ =>
  .nest () (.ask shelve fun _ => .finish (.ok false)) fun _ _ => .finish (.ok true)

/-- What a body leaves that has started from the shelf. -/
def fromShelf (body : Body Question Answer Unit) (seed : Identity) : Snapshot Entity :=
  (Scope.run (fun _ => []) body (seed.child 1)
    (.start (shelf.committed.copy (seed.child 0) .clean))).2.base

private theorem untouched_shelf : Entity.Untouched (.snapshot shelf.committed) := by
  rw [shelf, Memory.untouched_create_iff]
  exact ⟨rfl, rfl, ⟨rfl, rfl, trivial⟩, trivial⟩

private theorem idle_browsing : Entity.Idle (.snapshot (fromShelf browsing ⟨2, []⟩)) := by
  refine ⟨⟨fun _ => rfl, fun _ => ⟨rfl, rfl⟩, fun _ => ⟨?_, trivial⟩, trivial⟩, rfl, rfl⟩
  exact fun _ => ⟨rfl, rfl⟩

theorem Memory.idle_commit_unseen_browsing :
    let working := fromShelf (.ask shelve fun _ => .finish (.ok true)) ⟨3, []⟩
    Entity.Untouched (.snapshot shelf.committed) ∧
      Entity.Idle (.snapshot (fromShelf browsing ⟨2, []⟩)) ∧
      ∃ next after, shelf.publish ⟨5, []⟩ (fromShelf browsing ⟨2, []⟩) = .ok (next, after) ∧
        SameOutcome
          (fun alone behind =>
            Entity.SameValues (.snapshot alone.2.committed) (.snapshot behind.2.committed) ∧
              behind.2.committed.timestamp = alone.2.committed.timestamp + 1)
          (shelf.publish ⟨6, []⟩ working) (after.publish ⟨6, []⟩ working) := by
  intro working
  refine ⟨untouched_shelf, idle_browsing, _, _, rfl, ?_⟩
  obtain ⟨_, _, unseen⟩ := idle_commit_unseen untouched_shelf idle_browsing rfl
  exact unseen ⟨6, []⟩ working

end TransactionalMemory
