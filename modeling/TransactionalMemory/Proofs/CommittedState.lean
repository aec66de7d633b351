import Mathlib.Data.List.Induction
import TransactionalMemory.Proofs.EntityCommit
import TransactionalMemory.Proofs.ScopeRun
import TransactionalMemory.Proofs.Threads

/-! The committed state as a target of commits. A commit onto an entity that nobody has touched is
never refused as a misuse, and what comes of it is untouched again. Whether the first committed
state is untouched depends on the initial data: its clean copy takes over the slots that count as
untouched as they are, whatever their contents have logged. -/
namespace TransactionalMemory

namespace Cell
variable {α : Type} {cell latest : Cell α}

theorem Untouched.accessed (untouched : cell.Untouched) : cell.accessed = false := by
  rw [← untouched]
  rfl

private theorem commit_unmisused (untouched : latest.Untouched) (cause : Misuse) :
    cell.commit latest ≠ .error (.misuse cause) := by
  unfold commit
  rw [untouched.accessed, if_neg Bool.false_ne_true]
  split
  · simp
  · split <;> simp

end Cell

namespace Table
variable {K V : Type} [Ord K] {table latest : Table K V}

theorem Untouched.hasLog (untouched : latest.Untouched) : latest.hasLog = false := by
  rw [← untouched]
  rfl

private theorem commit_unmisused [Std.TransOrd K] (untouched : latest.Untouched) (fresh : Identity)
    (cause : Misuse) :
    table.commit fresh latest ≠ .error (.misuse cause) := by
  unfold commit
  rw [untouched.hasLog, if_neg Bool.false_ne_true]
  split
  · simp
  split
  · simp
  · split <;> simp

end Table

namespace Queue
variable {α : Type} {queue latest : Queue α}

private theorem commit_unmisused (untouched : latest.Untouched) (fresh : Identity)
    (cause : Misuse) : queue.commit fresh latest ≠ .error (.misuse cause) := by
  have settled : (latest.depth ≠ 0 || !latest.tail.isEmpty) = false := by
    rw [← untouched]
    rfl
  unfold commit
  rw [settled, if_neg Bool.false_ne_true]
  split
  · simp
  split
  · simp
  · split <;> simp

end Queue

namespace Entity

private theorem map_error {α β : Type} {result : Except Failure α} {wrap : α → β}
    {failure : Failure} (refused : result.map wrap = .error failure) : result = .error failure := by
  cases result with
  | error stopped =>
    cases refused
    rfl
  | ok value => cases refused

private theorem bind_error {α β : Type} {result : Except Failure α} {next : α → Except Failure β}
    {failure : Failure} (refused : result >>= next = .error failure) :
    result = .error failure ∨ ∃ value, result = .ok value ∧ next value = .error failure := by
  cases result with
  | error stopped =>
    cases refused
    exact .inl rfl
  | ok value => exact .inr ⟨value, rfl, refused⟩

theorem unopened {slots : List (Slot Entity)}
    (untouched : ∀ slot ∈ slots, slot.accessed = false ∧ Untouched slot.content) :
    slots.any (·.accessed) = false := by
  rw [List.any_eq_false]
  intro slot member
  rw [(untouched slot member).1]
  exact Bool.false_ne_true

private theorem commitSlots_unmisused {slots latests : List (Slot Entity)} {cause : Misuse}
    (inside : ∀ latest ∈ latests, ∀ fresh (entity : Entity),
      entity.commit fresh latest.content ≠ .error (.misuse cause))
    (fresh : Identity) (index : Nat) :
    commitSlots fresh index slots latests ≠ .error (.misuse cause) := by
  intro refused
  induction slots generalizing latests index with
  | nil => cases refused
  | cons slot slots ih =>
    obtain ⟨identity, accessed, content⟩ := slot
    cases latests with
    | nil => cases accessed <;> cases refused
    | cons latest latests =>
      have rest := ih (fun latest member => inside latest (List.mem_cons_of_mem _ member))
      cases accessed with
      | true =>
        rw [commitSlots] at refused
        rcases bind_error refused with stopped | ⟨committed, _, refused⟩
        · exact inside latest List.mem_cons_self _ _ stopped
        · rcases bind_error refused with stopped | ⟨_, _, refused⟩
          · exact rest (index + 1) stopped
          · cases refused
      | false =>
        rw [commitSlots] at refused
        rcases bind_error refused with stopped | ⟨_, _, refused⟩
        · exact rest (index + 1) stopped
        · cases refused

private theorem commit_unmisused {latest : Entity} (untouched : Untouched latest) (fresh : Identity)
    (entity : Entity) (cause : Misuse) :
    entity.commit fresh latest ≠ .error (.misuse cause) := by
  intro refused
  induction latest using induct generalizing entity fresh with
  | cell latest =>
    cases entity with
    | cell inner =>
      rw [commit] at refused
      exact Cell.commit_unmisused untouched cause (map_error refused)
    | _ => cases refused
  | table latest =>
    cases entity with
    | table inner =>
      rw [commit] at refused
      exact Table.commit_unmisused untouched fresh cause (map_error refused)
    | _ => cases refused
  | multimap latest =>
    cases entity with
    | multimap inner =>
      rw [commit] at refused
      exact Table.commit_unmisused untouched fresh cause (map_error (map_error refused))
    | _ => cases refused
  | queue latest =>
    cases entity with
    | queue inner =>
      rw [commit] at refused
      exact Queue.commit_unmisused untouched fresh cause (map_error refused)
    | _ => cases refused
  | bundle latests rule ih =>
    have still := every_bundle.mp untouched
    cases entity with
    | bundle slots rule' =>
      rw [commit, unopened still] at refused
      split at refused
      · cases refused
      · rw [if_neg Bool.false_ne_true] at refused
        refine commitSlots_unmisused ?_ fresh 0 (map_error refused)
        intro latest member fresh' entity
        exact ih latest member (still latest member).2 fresh' entity
    | _ => cases refused
  | snapshot latest ih =>
    obtain ⟨inside, globals⟩ := every_snapshot.mp untouched
    cases entity with
    | snapshot inner =>
      rw [commit_snapshot, Snapshot.commit] at refused
      rcases bind_error (map_error refused) with stopped | ⟨data, _, refused⟩
      · exact ih inside _ _ stopped
      · rcases bind_error refused with stopped | ⟨_, _, refused⟩
        · exact Table.commit_unmisused globals _ cause stopped
        · cases refused
    | _ => cases refused

mutual

/-- A clean copy sheds all logs and pending writes: none are hidden in a slot that counts as
untouched. -/
def Sheds : Entity → Prop
  | .bundle slots _ => ShedsSlots slots
  | .snapshot ⟨_, data, _⟩ => Sheds data
  | _ => True

def ShedsSlots : List (Slot Entity) → Prop
  | [] => True
  | ⟨_, accessed, content⟩ :: slots =>
    (if accessed then Sheds content else Untouched content) ∧ ShedsSlots slots

end

private theorem untouched_copySlots {slots : List (Slot Entity)}
    (inside : ∀ slot ∈ slots, ∀ seed,
      Untouched (slot.content.copy seed .clean) ↔ slot.content.Sheds)
    (seed : Identity) (index : Nat) :
    (∀ slot ∈ copySlots seed .clean index slots, slot.accessed = false ∧ Untouched slot.content) ↔
      ShedsSlots slots := by
  induction slots generalizing index with
  | nil => simp [copySlots, ShedsSlots]
  | cons slot slots ih =>
    obtain ⟨identity, accessed, content⟩ := slot
    have rest := ih (fun slot member => inside slot (List.mem_cons_of_mem _ member)) (index + 1)
    have first := inside _ List.mem_cons_self (seed.child index)
    rw [copySlots, ShedsSlots, List.forall_mem_cons, rest]
    cases accessed with
    | true => simpa using fun _ => first
    | false => simp

theorem untouched_copy_iff (seed : Identity) (entity : Entity) :
    Untouched (entity.copy seed .clean) ↔ entity.Sheds := by
  induction entity using induct generalizing seed with
  | cell inner => exact ⟨fun _ => trivial, fun _ => rfl⟩
  | table inner => exact ⟨fun _ => trivial, fun _ => rfl⟩
  | multimap inner => exact ⟨fun _ => trivial, fun _ => rfl⟩
  | queue inner => exact ⟨fun _ => trivial, fun _ => rfl⟩
  | bundle slots rule ih =>
    rw [copy, Untouched, every_bundle, Sheds]
    exact untouched_copySlots ih seed 0
  | snapshot inner ih =>
    obtain ⟨timestamp, data, globals⟩ := inner
    rw [copy, Untouched, every_snapshot, Sheds, ← ih (seed.child 0)]
    exact and_iff_left rfl

end Entity

theorem Memory.untouched_publish {memory after : Memory} {seed : Identity}
    {working next : Snapshot Entity} (untouched : Entity.Untouched (.snapshot memory.committed))
    (accepted : memory.publish seed working = .ok (next, after)) :
    Entity.Untouched (.snapshot after.committed) := by
  obtain ⟨commits, rfl⟩ := Memory.publish_ok.mp accepted
  exact Entity.commit_untouched (Entity.commit_snapshot_ok.mpr commits) untouched

private theorem Memory.publish_unmisused {memory : Memory}
    (untouched : Entity.Untouched (.snapshot memory.committed)) (seed : Identity)
    (working : Snapshot Entity) (cause : Misuse) :
    memory.publish seed working ≠ .error (.misuse cause) := by
  intro refused
  rcases Entity.bind_error refused with stopped | ⟨_, _, refused⟩
  · have wrapped : (Entity.snapshot working).commit seed (.snapshot memory.committed) =
        .error (.misuse cause) := by
      rw [Entity.commit_snapshot, stopped]
      rfl
    exact Entity.commit_unmisused untouched seed _ cause wrapped
  · cases refused

variable {C : Type}

/-- Only an attempt that has asked for a commit can change the committed state. -/
theorem Stage.Change.committed_eq {seed : Identity} {memory after : Memory}
    {before stage : Stage C} (change : Stage.Change seed memory before after stage)
    (other : ∀ attempt scope, before ≠ .ended attempt scope (.ok true)) :
    after.committed = memory.committed := by
  cases change with
  | aside outside still committed reports => exact committed
  | publish ended next committed reports => exact absurd ended (other _ _)
  | release commit result =>
    unfold Memory.endReport
    split <;> rfl
  | _ => rfl

private theorem Stage.untouched_advance {memory : Memory}
    (untouched : Entity.Untouched (.snapshot memory.committed)) (thread : Nat) (own : C)
    (seed : Identity) (stage : Stage C) :
    Entity.Untouched (.snapshot (stage.advance thread own seed memory).1.committed) := by
  have change := stage.advance_change thread own seed memory
  cases stage with
  | ended attempt scope ending =>
    rcases ending with failure | (_ | _)
    · exact untouched
    · exact untouched
    · rw [advance]
      cases published : memory.publish seed scope.base with
      | error failure => exact untouched
      | ok result => exact Memory.untouched_publish untouched published
  | _ =>
    rw [change.committed_eq (by intro attempt scope same; cases same)]
    exact untouched

private theorem Call.untouched_act {memory : Memory}
    (untouched : Entity.Untouched (.snapshot memory.committed)) (seed : Identity) (call : Call C)
    (act : Act C) : Entity.Untouched (.snapshot (call.act seed memory act).1.committed) := by
  cases act with
  | advance => exact Stage.untouched_advance untouched call.thread call.own seed call.stage
  | _ => exact untouched

namespace Threads

private theorem untouched_step {threads : Threads C}
    (untouched : Entity.Untouched (.snapshot threads.memory.committed)) (move : Move C) :
    Entity.Untouched (.snapshot (threads.step move).memory.committed) := by
  cases move with
  | call thread own => exact untouched
  | act index act =>
    rw [step]
    split
    · exact untouched
    · next call found => exact Call.untouched_act untouched _ call act

theorem untouched_run {memory : Memory}
    (untouched : Entity.Untouched (.snapshot memory.committed)) (supply : Supply)
    (moves : List (Move C)) :
    Entity.Untouched (.snapshot (run memory supply moves).memory.committed) := by
  induction moves using List.reverseRecOn with
  | nil => exact untouched
  | append_singleton moves move ih =>
    rw [run, List.foldl_concat]
    exact untouched_step ih move

end Threads

theorem Memory.untouched_create_iff (seed : Identity) (policy : RetryPolicy) (initial : Entity) :
    Entity.Untouched (.snapshot (Memory.create seed policy initial).committed) ↔
      initial.Sheds := by
  rw [Entity.Untouched, Entity.every_snapshot]
  exact (and_iff_left rfl).trans (Entity.untouched_copy_iff (seed.child 1) initial)

/-- The committed state never carries a log or a pending write, and no commit is ever refused as a
misuse, exactly if a clean copy of the initial data sheds them. -/
theorem Memory.committed_untouched_iff (C : Type) (seed : Identity) (policy : RetryPolicy)
    (initial : Entity) :
    initial.Sheds ↔ ∀ (supply : Supply) (moves : List (Move C)),
      let memory := (Threads.run (.create seed policy initial) supply moves).memory
      Entity.Untouched (.snapshot memory.committed) ∧
        ∀ seed' working cause, memory.publish seed' working ≠ .error (.misuse cause) := by
  rw [← Memory.untouched_create_iff seed policy]
  constructor
  · intro untouched supply moves memory
    have still := Threads.untouched_run untouched supply moves
    exact ⟨still, Memory.publish_unmisused still⟩
  · intro always
    exact (always ⟨0⟩ []).1

/-- A bundle of a cell that was read before it was put there. -/
def readBefore : Entity :=
  .bundle [⟨⟨0, [0]⟩, false, .cell (Cell.ofObject ⟨⟨0, [1]⟩, .number 1⟩).deref.2⟩] .take

def readMemory : Memory :=
  .create ⟨1, []⟩ .standard readBefore

/-- Reading the cell again is enough to be refused. -/
theorem Memory.touched_slot_misused :
    let scope : Scope Unit := .start (readMemory.committed.copy ⟨2, []⟩ .clean)
    let cell : Question := ⟨[.data, .slot 0 none], .request (.cell .deref)⟩
    ¬Entity.Untouched (.snapshot readMemory.committed) ∧
      readMemory.publish ⟨4, []⟩ (scope.ask [] ⟨3, []⟩ cell).2.base =
        .error (.misuse .cellUncommitted) := by
  intro scope cell
  refine ⟨?_, rfl⟩
  rw [readMemory, Memory.untouched_create_iff]
  rintro ⟨touched, _⟩
  have same := congrArg Cell.accessed touched
  exact absurd same (by decide)

end TransactionalMemory
