import TransactionalMemory.Access
import TransactionalMemory.Nesting

/-! What the body of an outer transaction works on: the snapshot it started from, one branch for
each nested transaction that is running, and the tree of the nested ones so far. All access goes to
the innermost branch, so a nested transaction sees what its parent has not committed yet. -/
namespace TransactionalMemory

/-- How a body ends: `true` asks for a commit, `false` for a rollback. -/
abbrev Ending := Except Failure Bool

structure Scope (C : Type) where
  base : Snapshot Entity
  branches : List (Snapshot Entity)
  nesting : Nesting (Option C)
  current : Nat

namespace Scope
variable {C : Type}

def start (base : Snapshot Entity) : Scope C :=
  ⟨base, [], .single none, Nesting.root⟩

def depth (scope : Scope C) : Nat :=
  scope.branches.length

def top (scope : Scope C) : Snapshot Entity :=
  scope.branches.head?.getD scope.base

def withTop (top : Snapshot Entity) (scope : Scope C) : Scope C :=
  match scope.branches with
  | [] => {scope with base := top}
  | _ :: outer => {scope with branches := top :: outer}

def buried (scope : Scope C) : List (Slot Entity) :=
  match scope.branches with
  | [] => []
  | _ :: outer => (outer ++ [scope.base]).flatMap fun snapshot => snapshot.data.slots

@[simp] theorem top_withTop (top : Snapshot Entity) (scope : Scope C) :
    (scope.withTop top).top = top := by
  rcases scope with ⟨_, _ | ⟨_, _⟩, _, _⟩ <;> rfl

@[simp] theorem depth_withTop (top : Snapshot Entity) (scope : Scope C) :
    (scope.withTop top).depth = scope.depth := by
  rcases scope with ⟨_, _ | ⟨_, _⟩, _, _⟩ <;> rfl

/-- Begins a nested transaction on a dirty copy of the innermost snapshot. -/
def enter (seed : Identity) (scope : Scope C) : Scope C :=
  let (node, nesting) := scope.nesting.addChild scope.current none
  {scope with
    branches := scope.top.copy seed .dirty :: scope.branches, nesting := nesting, current := node}

@[simp] theorem top_enter (seed : Identity) (scope : Scope C) :
    (scope.enter seed).top = scope.top.copy seed .dirty := rfl

@[simp] theorem depth_enter (seed : Identity) (scope : Scope C) :
    (scope.enter seed).depth = scope.depth + 1 := rfl

/-- Ends a nested transaction that `parent` has begun. A committing one is merged into its parent
and then leaves its callback in the tree. Any other one is taken off the tree, and only what it
has read is merged. A merge that is refused replaces the ending. The `others` are the slots that
are alive outside of the scope. -/
def leave (others : List (Slot Entity)) (seed : Identity) (callback : C) (parent : Nat)
    (ending : Ending) (scope : Scope C) : Ending × Scope C :=
  match scope.branches with
  | [] => (.error (.misuse .noBranch), {scope with current := parent})
  | branch :: outer =>
    let back := {scope with branches := outer, current := parent}
    match ending with
    | .ok true =>
      match branch.merge (back.buried ++ others) seed .everything back.top with
      | (some failure, top) => (.error failure, back.withTop top)
      | (none, top) => (.ok true, {back.withTop top with
          nesting := back.nesting.setValue scope.current (some callback)})
    | _ =>
      let detached := {back with nesting := (back.nesting.removeLastChild parent).2}
      match branch.merge (detached.buried ++ others) seed .readsOnly detached.top with
      | (some failure, top) => (.error failure, detached.withTop top)
      | (none, top) => (ending, detached.withTop top)

/-- The callbacks to run once the outer transaction, whose own callback is `own`, is committed. -/
def callbacks (own : C) (nesting : Nesting (Option C)) : List C :=
  nesting.postorder.filterMap fun node =>
    if node = Nesting.root then some own else (nesting.value? node).join

end Scope
end TransactionalMemory
