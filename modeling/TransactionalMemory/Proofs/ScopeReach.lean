import TransactionalMemory.Proofs.EntityCommit
import TransactionalMemory.Proofs.ScopeRun
import TransactionalMemory.Proofs.Threads

/-! What a body can come across. Published snapshots hold nothing that anybody has touched, and in
every scope that was opened on one the stack is made of working copies of it, each of which has
moved on from the one below. -/
namespace TransactionalMemory

namespace Scope
variable {C : Type} {start : Snapshot Entity} {scope : Scope C}

def stack (scope : Scope C) : List (Snapshot Entity) :=
  scope.branches ++ [scope.base]

private theorem stack_eq (scope : Scope C) : scope.stack = scope.top :: scope.stack.tail := by
  rcases scope with ⟨_, _ | ⟨_, _⟩, _, _⟩ <;> rfl

private theorem stack_withTop (top : Snapshot Entity) (scope : Scope C) :
    (scope.withTop top).stack = top :: scope.stack.tail := by
  rcases scope with ⟨_, _ | ⟨_, _⟩, _, _⟩ <;> rfl

theorem stack_adjusted (top : Snapshot Entity) (nesting : Nesting (Option C)) (scope : Scope C) :
    (scope.adjusted top nesting).stack = top :: scope.stack.tail :=
  scope.stack_withTop top

/-- What can become of a scope that is opened on a published snapshot. -/
inductive Reached (start : Snapshot Entity) : Scope C → Prop where
  | start (seed : Identity) : Reached start (.start (start.copy seed .clean))
  | ask {scope : Scope C} (reached : Reached start scope) (others : List (Slot Entity))
      (seed : Identity) (question : Question) : Reached start (scope.ask others seed question).2
  | enter {scope : Scope C} (reached : Reached start scope) (seed : Identity) :
      Reached start (scope.enter seed)
  | leave {scope : Scope C} (reached : Reached start scope) (others : List (Slot Entity))
      (seed : Identity) (callback : C) (parent : Nat) (ending : Ending) :
      Reached start (scope.leave others seed callback parent ending).2

structure Stacked (start : Snapshot Entity) (scope : Scope C) : Prop where
  copies : ∀ snapshot ∈ scope.stack,
    Entity.CopyOf .free (.snapshot start) (.snapshot snapshot)
  ordered : scope.stack.Pairwise fun inner outer =>
    Entity.Extends (.snapshot outer) (.snapshot inner)

theorem Stacked.top (stacked : Stacked start scope) :
    Entity.CopyOf .free (.snapshot start) (.snapshot scope.top) := by
  apply stacked.copies scope.top
  rw [stack_eq]
  exact List.mem_cons_self

theorem Stacked.advance {scope' : Scope C} {top : Snapshot Entity} (stacked : Stacked start scope)
    (same : scope'.stack = top :: scope.stack.tail)
    (copy : Entity.CopyOf .free (.snapshot start) (.snapshot top))
    (ahead : Entity.Extends (.snapshot scope.top) (.snapshot top)) : Stacked start scope' := by
  obtain ⟨copies, ordered⟩ := stacked
  rw [stack_eq] at copies ordered
  obtain ⟨_, others⟩ := List.forall_mem_cons.mp copies
  obtain ⟨below, rest⟩ := List.pairwise_cons.mp ordered
  constructor
  · rw [same]
    exact List.forall_mem_cons.mpr ⟨copy, others⟩
  · rw [same]
    refine List.pairwise_cons.mpr ⟨fun outer member => ?_, rest⟩
    exact Entity.Extends.trans (below outer member) ahead

private theorem stacked_start (untouched : Entity.Untouched (.snapshot start)) (seed : Identity) :
    Stacked start (Scope.start (start.copy seed .clean) : Scope C) := by
  have copy := Entity.Untouched.copyOf .free untouched seed .clean
  rw [Entity.copy_snapshot] at copy
  constructor
  · intro snapshot member
    rw [List.mem_singleton.mp member]
    exact copy
  · exact List.pairwise_singleton _ _

theorem Stacked.ask (stacked : Stacked start scope)
    (untouched : Entity.Untouched (.snapshot start)) (others : List (Slot Entity))
    (seed : Identity) (question : Question) :
    Stacked start (scope.ask others seed question).2 := by
  have named : Guard.free.seed seed := trivial
  have marked : question.query.Marked .free := question.query.marked_free
  obtain ⟨answer, after, went, copy, ahead⟩ :=
    Entity.visit_copy question.query question.path marked named untouched stacked.top
  obtain ⟨top, rfl⟩ := Entity.snapshot_of_kind (copy.kind_eq.trans stacked.top.kind_eq.symm)
  rw [ask_of_visit went others]
  exact stacked.advance (stack_adjusted top _ scope) copy ahead

private theorem Stacked.enter (stacked : Stacked start scope) (seed : Identity) :
    Stacked start (scope.enter seed) := by
  have branches := Entity.CopyOf.branch stacked.top seed
  rw [Entity.copy_snapshot] at branches
  obtain ⟨copies, ordered⟩ := stacked
  have shape : (scope.enter seed).stack = scope.top.copy seed .dirty :: scope.stack := rfl
  constructor
  · rw [shape]
    exact List.forall_mem_cons.mpr ⟨branches.copy, copies⟩
  · rw [shape]
    refine List.pairwise_cons.mpr ⟨fun outer member => ?_, ordered⟩
    rw [stack_eq] at ordered member
    rcases List.mem_cons.mp member with rfl | deeper
    · exact branches.ahead
    · have below := (List.pairwise_cons.mp ordered).1 outer deeper
      exact Entity.Extends.trans below branches.ahead

private theorem Stacked.leave (stacked : Stacked start scope)
    (untouched : Entity.Untouched (.snapshot start)) (others : List (Slot Entity))
    (seed : Identity) (callback : C) (parent : Nat) (ending : Ending) :
    Stacked start (scope.leave others seed callback parent ending).2 := by
  cases shape : scope.branches with
  | nil =>
    obtain ⟨base, branches, nesting, current⟩ := scope
    obtain rfl : branches = [] := shape
    exact ⟨stacked.copies, stacked.ordered⟩
  | cons branch outer =>
    have stack : scope.stack = branch :: (scope.below parent).stack := by
      rw [Scope.stack, Scope.stack, Scope.below, shape]
      rfl
    obtain ⟨copies, ordered⟩ := stacked
    rw [stack] at copies ordered
    obtain ⟨copy, below⟩ := List.forall_mem_cons.mp copies
    obtain ⟨ahead, rest⟩ := List.pairwise_cons.mp ordered
    have under : Stacked start (scope.below parent) := ⟨below, rest⟩
    have ahead : Entity.Extends (.snapshot (scope.below parent).top) (.snapshot branch) := by
      apply ahead
      rw [stack_eq]
      exact List.mem_cons_self
    have merging : Entity.Merging .free (.snapshot start) (.snapshot branch)
      (.snapshot (scope.below parent).top) := ⟨untouched, copy, under.top, ahead⟩
    obtain ⟨merged, accepted, absorbs⟩ := merging.merge (Ending.mode ending) seed
    obtain ⟨top, rfl⟩ := Entity.snapshot_of_kind (absorbs.copy.kind_eq.trans copy.kind_eq.symm)
    obtain ⟨nesting, left⟩ := leave_merged shape parent callback (merge_accepted accepted) others
    rw [left]
    exact under.advance (stack_adjusted top nesting _) absorbs.copy absorbs.ahead

theorem Reached.stacked (reached : Reached start scope)
    (untouched : Entity.Untouched (.snapshot start)) : Stacked start scope := by
  induction reached with
  | start seed => exact stacked_start untouched seed
  | ask reached others seed question ih => exact ih.ask untouched others seed question
  | enter reached seed ih => exact ih.enter seed
  | leave reached others seed callback parent ending ih =>
    exact ih.leave untouched others seed callback parent ending

end Scope

/-- The snapshots that a memory may come to publish, when it is created with untouched data and
each transaction has worked in a scope of its own. -/
inductive Published (C : Type) : Snapshot Entity → Prop where
  | created {initial : Entity} (untouched : initial.Untouched) (seed : Identity)
      (policy : RetryPolicy) : Published C (Memory.create seed policy initial).committed
  | committed {start next : Snapshot Entity} {scope : Scope C} {memory after : Memory}
      {seed : Identity} (started : Published C start) (reached : Scope.Reached start scope)
      (onto : Published C memory.committed)
      (accepted : memory.publish seed scope.base = .ok (next, after)) : Published C next

theorem Memory.untouched_create {initial : Entity} (untouched : initial.Untouched)
    (seed : Identity) (policy : RetryPolicy) :
    Entity.Untouched (.snapshot (Memory.create seed policy initial).committed) :=
  Entity.every_snapshot.mpr ⟨Entity.Untouched.clean untouched (seed.child 1), rfl⟩

theorem Published.untouched {C : Type} {snapshot : Snapshot Entity}
    (published : Published C snapshot) : Entity.Untouched (.snapshot snapshot) := by
  induction published with
  | created untouched seed policy => exact Memory.untouched_create untouched seed policy
  | committed started reached onto accepted ih ih' =>
    obtain ⟨accepted, _⟩ := Memory.publish_ok.mp accepted
    exact Entity.commit_untouched (Entity.commit_snapshot_ok.mpr accepted) ih'

end TransactionalMemory
