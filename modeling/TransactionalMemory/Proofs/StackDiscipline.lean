import TransactionalMemory.Proofs.NestingTree
import TransactionalMemory.Proofs.RefusedMerge

/-! The stack of a scope and the tree of its nested transactions go together. Whatever client code
does, and however its merges end, there is one branch on the stack for each step down the tree from
the root to the current node, and a call comes back to where it was made. -/
namespace TransactionalMemory
namespace Nesting

/-- A way down from the root to a node, in as many steps as its length says. -/
inductive Path {α : Type} (nesting : Nesting α) : (length node : Nat) → Prop where
  | root : Path nesting 0 root
  | child {length node child : Nat} (path : Path nesting length node)
      (member : child ∈ nesting.children node) : Path nesting (length + 1) child

section
variable {α : Type} {nesting later : Nesting α} {detached : List Nat} {length node : Nat}

private theorem Path.inside (path : nesting.Path length node)
    (treelike : nesting.Treelike detached) : node < nesting.nodes.size := by
  cases path with
  | root => exact treelike.rooted
  | child path member => exact treelike.inside member

theorem Path.unique {length' : Nat} (path : nesting.Path length node)
    (treelike : nesting.Treelike detached) (path' : nesting.Path length' node) :
    length' = length := by
  induction path generalizing length' with
  | root =>
    cases path' with
    | root => rfl
    | child path' member => exact absurd (treelike.younger member) (Nat.not_lt_zero _)
  | child path member ih =>
    cases path' with
    | root => exact absurd (treelike.younger member) (Nat.not_lt_zero _)
    | child path' member' =>
      obtain rfl := treelike.parent_unique member member'
      rw [ih path']

theorem Path.mono (path : nesting.Path length node)
    (keeps : ∀ node child, child ∈ nesting.children node → child ∈ later.children node) :
    later.Path length node := by
  induction path with
  | root => exact .root
  | child path member ih => exact .child ih (keeps _ _ member)

theorem Path.addChild (path : nesting.Path length node) (treelike : nesting.Treelike detached)
    (value : α) : (nesting.addChild node value).2.Path (length + 1) nesting.nodes.size := by
  have inside := path.inside treelike
  have kept : (nesting.addChild node value).2.Path length node := by
    refine path.mono fun other child member => ?_
    rw [children_addChild _ _ _ inside]
    split
    · next same => exact List.mem_append_left _ (same ▸ member)
    · exact member
  refine .child kept ?_
  rw [children_addChild _ _ _ inside, if_pos rfl]
  exact List.mem_append_right _ (List.mem_singleton_self _)

end

variable {C : Type} {node : Nat} {nesting later : Nesting (Option C)} {callbacks : List C}

private theorem Grows.path {length other : Nat} (grown : Grows node nesting later callbacks)
    (path : nesting.Path length other) : later.Path length other := by
  refine path.mono fun parent child member => ?_
  by_cases same : parent = node
  · obtain ⟨nodes, order, below, _⟩ := grown.added
    rw [same] at member ⊢
    rw [below]
    exact List.mem_append_left _ member
  · rwa [grown.children parent (lt_size_of_mem_children member) same]

/-- The last child of a node in which a nested transaction is running is that transaction. -/
theorem Grows.last_child (inside : node < nesting.nodes.size)
    (grown : Grows nesting.nodes.size (nesting.addChild node none).2 later callbacks) :
    later.children node = nesting.children node ++ [nesting.nodes.size] := by
  rw [grown.children node (by rw [size_addChild]; omega) (Nat.ne_of_lt inside),
    children_addChild _ _ _ inside, if_pos rfl]

private theorem Built.close {detached : List Nat} (built : nesting.Built detached)
    (node parent : Nat) (callback : C) (ending result : Ending) :
    ∃ detached', (nesting.close node parent callback ending result).Built detached' := by
  unfold Nesting.close
  split
  · exact ⟨_, built.setValue node _⟩
  · exact ⟨_, built⟩
  · exact ⟨_, built.removeLastChild parent⟩

end Nesting

namespace Scope
variable {C : Type} {base : Snapshot Entity} {scope after caller inside : Scope C}
  {callers : List (Scope C)} {callbacks : List C}

private theorem depth_adjusted (top : Snapshot Entity) (nesting : Nesting (Option C))
    (scope : Scope C) : (scope.adjusted top nesting).depth = scope.depth :=
  scope.depth_withTop top

private theorem Worked.depth_eq (worked : Worked scope after callbacks) :
    after.depth = scope.depth := by
  rw [worked.eq_adjusted, depth_adjusted]

/-- What a scope can be whenever client code runs in it. Client code can turn the innermost snapshot
into anything, so that a merge may be refused; it can begin a nested transaction, and end the
innermost one in any way. The callers are the scopes as they were when the nested transactions that
are still running were begun, the innermost first. -/
inductive Underway (base : Snapshot Entity) :
    (scope : Scope C) → (callers : List (Scope C)) → Prop where
  | opened : Underway base (.start base) []
  | changed {scope : Scope C} {callers : List (Scope C)} (underway : Underway base scope callers)
      (top : Snapshot Entity) : Underway base (scope.withTop top) callers
  | entered {scope : Scope C} {callers : List (Scope C)} (underway : Underway base scope callers)
      (seed : Identity) : Underway base (scope.enter seed) (scope :: callers)
  | left {scope caller : Scope C} {callers : List (Scope C)}
      (underway : Underway base scope (caller :: callers)) (others : List (Slot Entity))
      (seed : Identity) (callback : C) (ending : Ending) :
      Underway base (scope.leave others seed callback caller.current ending).2 callers

private theorem Underway.worked (underway : Underway base scope callers)
    (worked : Worked scope after callbacks) : Underway base after callers := by
  induction worked generalizing callers with
  | rest scope => exact underway
  | change worked top ih => exact (ih underway).changed top
  | @nest scope before inside after callbacks more seed seed' others callback ending result worked
      inner left ih innerIh =>
    have running := innerIh ((ih underway).entered seed)
    have returned := running.left others seed' callback ending
    rwa [left] at returned

/-- The scopes that client code finds in the course of a body and of the nested transactions in it,
each with its callers. -/
def moments (alive : Identity → List (Slot Entity)) :
    Body Question Answer C → Identity → Scope C → List (Scope C) →
      List (Scope C × List (Scope C))
  | .finish _, _, scope, callers => [(scope, callers)]
  | .ask question next, seed, scope, callers =>
    let asked := scope.ask (alive (seed.child 0)) (seed.child 0) question
    (scope, callers) :: moments alive (next asked.1) (seed.child 1) asked.2 callers
  | .nest callback inner next, seed, scope, callers =>
    let entered := scope.enter (seed.child 0)
    let inside := entered.run alive inner (seed.child 1)
    let left := inside.2.leave (alive (seed.child 2)) (seed.child 2) callback scope.current
      inside.1.ending
    (scope, callers) :: moments alive inner (seed.child 1) entered (scope :: callers) ++
      moments alive (next inside.1 left.1) (seed.child 3) left.2 callers

private theorem Underway.moments (underway : Underway base scope callers)
    (alive : Identity → List (Slot Entity)) (body : Body Question Answer C) (seed : Identity) :
    ∀ moment ∈ scope.moments alive body seed callers, Underway base moment.1 moment.2 := by
  induction body generalizing seed scope callers with
  | finish ending => exact List.forall_mem_singleton.mpr underway
  | ask question next ih =>
    have asked := underway.worked (scope.ask_worked (alive (seed.child 0)) (seed.child 0) question)
    exact List.forall_mem_cons.mpr ⟨underway, ih _ asked _⟩
  | nest callback inner next innerIh ih =>
    have entered := underway.entered (seed.child 0)
    have inside := entered.worked (run_worked alive inner (seed.child 1) _)
    have left := inside.left (alive (seed.child 2)) (seed.child 2) callback
      ((scope.enter (seed.child 0)).run alive inner (seed.child 1)).1.ending
    refine List.forall_mem_append.mpr ⟨?_, ih _ _ left (seed.child 3)⟩
    exact List.forall_mem_cons.mpr ⟨underway, innerIh entered (seed.child 1)⟩

/-- Client code has worked in each scope since the transaction that runs there was begun. -/
def Working (base : Snapshot Entity) : (callers : List (Scope C)) → (scope : Scope C) → Prop
  | [], scope => ∃ callbacks, Worked (.start base) scope callbacks
  | caller :: callers, scope =>
    (∃ seed callbacks, Worked (caller.enter seed) scope callbacks) ∧ Working base callers caller

theorem Working.advance (working : Working base callers scope)
    (goes : ∀ {start callbacks}, Worked start scope callbacks →
      ∃ more, Worked start after more) : Working base callers after := by
  cases callers with
  | nil =>
    obtain ⟨callbacks, worked⟩ := working
    exact goes worked
  | cons caller callers =>
    obtain ⟨⟨seed, callbacks, worked⟩, around⟩ := working
    exact ⟨⟨seed, goes worked⟩, around⟩

private theorem Underway.working (underway : Underway base scope callers) :
    Working base callers scope := by
  induction underway with
  | opened => exact ⟨[], .rest _⟩
  | changed underway top ih => exact ih.advance fun worked => ⟨_, worked.change top⟩
  | entered underway seed ih => exact ⟨⟨seed, [], .rest _⟩, ih⟩
  | left underway others seed callback ending ih =>
    obtain ⟨⟨_, _, inner⟩, around⟩ := ih
    exact around.advance fun worked => ⟨_, worked.nest inner rfl⟩

private theorem Worked.bound (worked : Worked scope after callbacks)
    (bound : scope.current < scope.nesting.nodes.size) :
    after.current < after.nesting.nodes.size := by
  have grew := (worked.grows bound).size
  rw [worked.current_eq]
  omega

private theorem Worked.built (worked : Worked scope after callbacks)
    (bound : scope.current < scope.nesting.nodes.size) {detached : List Nat}
    (built : scope.nesting.Built detached) : ∃ detached', after.nesting.Built detached' := by
  induction worked generalizing detached with
  | rest scope => exact ⟨detached, built⟩
  | @change scope after callbacks worked top ih =>
    rw [nesting_withTop]
    exact ih bound built
  | @nest scope before inside after callbacks more seed seed' others callback ending result worked
      inner left ih innerIh =>
    obtain ⟨_, before_built⟩ := ih bound built
    have entered := before_built.addChild before.current none (worked.bound bound)
    have entered_bound : (before.enter seed).current < (before.enter seed).nesting.nodes.size := by
      simp [enter, Nesting.addChild]
    obtain ⟨_, inside_built⟩ := innerIh entered_bound entered
    rw [inner.eq_adjusted, leave_entered, Prod.mk.injEq] at left
    obtain ⟨_, rfl⟩ := left
    exact inside_built.close _ _ callback ending _

/-- Where a scope stands in its tree when calls from these callers are running. -/
structure Placed (callers : List (Scope C)) (scope : Scope C) : Prop where
  built : ∃ detached, scope.nesting.Built detached
  path : scope.nesting.Path callers.length scope.current
  depth : scope.depth = callers.length

private theorem placed_start (base : Snapshot Entity) : Placed [] (.start base : Scope C) :=
  ⟨⟨[], .single none⟩, .root, rfl⟩

private theorem Placed.bound (placed : Placed callers scope) :
    scope.current < scope.nesting.nodes.size := by
  obtain ⟨_, built⟩ := placed.built
  exact placed.path.inside built.treelike

private theorem Placed.enter (placed : Placed callers scope) (seed : Identity) :
    Placed (scope :: callers) (scope.enter seed) := by
  obtain ⟨_, built⟩ := placed.built
  constructor
  case built => exact ⟨_, built.addChild scope.current none placed.bound⟩
  case path => exact placed.path.addChild built.treelike none
  case depth => rw [depth_enter, placed.depth, List.length_cons]

private theorem Placed.worked (placed : Placed callers scope)
    (worked : Worked scope after callbacks) : Placed callers after := by
  obtain ⟨_, built⟩ := placed.built
  constructor
  case built => exact worked.built placed.bound built
  case path =>
    rw [worked.current_eq]
    exact (worked.grows placed.bound).path placed.path
  case depth => rw [worked.depth_eq, placed.depth]

private theorem Working.placed (working : Working base callers scope) : Placed callers scope := by
  induction callers generalizing scope with
  | nil =>
    obtain ⟨_, worked⟩ := working
    exact (placed_start base).worked worked
  | cons caller callers ih =>
    obtain ⟨⟨seed, _, worked⟩, around⟩ := working
    exact ((ih around).enter seed).worked worked

/-- How a call comes back that was made in the caller, when its body has come to this scope and
ends like this. -/
structure Returns (caller inside : Scope C) (ending : Ending) (left : Ending × Scope C) : Prop where
  own : inside.current = (caller.nesting.addChild caller.current none).1
  parent : inside.nesting.parent? inside.current = some caller.current
  branch : inside.branches ≠ []
  depth : left.2.depth = caller.depth
  current : left.2.current = caller.current
  /-- What is taken off the caller's node is the node of this call. -/
  detached : ending ≠ .ok true →
    (inside.nesting.removeLastChild caller.current).1 = some inside.current ∧
      left.2.nesting = (inside.nesting.removeLastChild caller.current).2
  /-- A call only fails for want of a branch if its body has ended so by itself. -/
  failure : left.1 = .error (.misuse .noBranch) → ending = .error (.misuse .noBranch)

private theorem merged_eq_misuse {branch target : Snapshot Entity} {others : List (Slot Entity)}
    {seed : Identity} {mode : MergeMode} {ending : Ending} {cause : Misuse}
    (misused : Ending.merged ending (branch.merge others seed mode target).1 =
      .error (.misuse cause)) : ending = .error (.misuse cause) := by
  cases refusal : (branch.merge others seed mode target).1 with
  | none => rwa [refusal] at misused
  | some failure =>
    have wrapped : ((Entity.snapshot branch).merge others seed mode (.snapshot target)).1 =
        some failure := by
      rw [Entity.merge_snapshot]
      exact refusal
    obtain ⟨breach, rfl⟩ := Entity.breach_of_refused wrapped
    rw [refusal] at misused
    cases misused

private theorem Placed.returns (placed : Placed callers caller) {seed : Identity}
    (worked : Worked (caller.enter seed) inside callbacks) (others : List (Slot Entity))
    (seed' : Identity) (callback : C) (ending : Ending) :
    Returns caller inside ending (inside.leave others seed' callback caller.current ending) := by
  obtain ⟨_, built⟩ := (placed.enter seed).worked worked |>.built
  have own : inside.current = caller.nesting.nodes.size := worked.current_eq
  have last := (worked.grows (placed.enter seed).bound).last_child placed.bound
  have left := leave_entered caller seed seed' inside.top inside.nesting others callback ending
  rw [← worked.eq_adjusted] at left
  dsimp only at left
  rw [left]
  constructor
  case own => exact own
  case parent =>
    rw [own, ← built.treelike.linked, last]
    exact List.mem_append_right _ (List.mem_singleton_self _)
  case branch =>
    intro empty
    have deep : inside.branches.length = caller.depth + 1 := worked.depth_eq
    rw [empty] at deep
    cases deep
  case depth => exact depth_adjusted _ _ caller
  case current => exact current_adjusted _ _ caller
  case detached =>
    intro discarded
    rw [Nesting.removeLastChild_fst, last, List.getLast?_concat, own, nesting_adjusted]
    refine ⟨rfl, ?_⟩
    unfold Nesting.close
    split
    · exact absurd rfl discarded
    · exact absurd rfl discarded
    · rfl
  case failure => exact merged_eq_misuse

/-- The stack is as deep as the current node lies in the tree, and calls come back to it. With the
last part this holds at all moments of a body that is run from the start. -/
theorem stack_follows_path (underway : Underway base scope callers) :
    (∀ length, scope.nesting.Path length scope.current ↔ length = scope.depth) ∧
      scope.depth = callers.length ∧
      (∀ caller around, callers = caller :: around → ∀ others seed callback ending,
        Returns caller scope ending
          (scope.leave others seed callback caller.current ending)) ∧
      ∀ alive (body : Body Question Answer C) seed,
        let after := (scope.run alive body seed).2
        (∀ moment ∈ scope.moments alive body seed callers, Underway base moment.1 moment.2) ∧
          Underway base after callers ∧ after.depth = scope.depth ∧
          after.current = scope.current := by
  have working := underway.working
  have placed := working.placed
  obtain ⟨_, built⟩ := placed.built
  refine ⟨?_, placed.depth, ?_, ?_⟩
  · intro length
    rw [placed.depth]
    refine ⟨placed.path.unique built.treelike, ?_⟩
    rintro rfl
    exact placed.path
  · rintro caller around rfl others seed callback ending
    obtain ⟨⟨_, _, worked⟩, outside⟩ := working
    exact outside.placed.returns worked others seed callback ending
  · intro alive body seed after
    have worked := run_worked alive body seed scope
    exact ⟨underway.moments alive body seed, underway.worked worked, worked.depth_eq,
      worked.current_eq⟩

/-- The outer transaction has swallowed the refusal of one nested transaction and runs another. -/
def retrying : Scope String :=
  (swapping.leave [] ⟨7, []⟩ "refused" trayScope.current (.ok true)).2.enter ⟨8, []⟩

theorem stack_follows_path_retrying :
    let refused := swapping.leave [] ⟨7, []⟩ "refused" trayScope.current (.ok true)
    let left := retrying.leave [] ⟨9, []⟩ "rolled back" refused.2.current (.ok false)
    refused.1 = .error (.breach .foreignCell) ∧
      Underway trayScope.base retrying [refused.2] ∧ retrying.depth = 1 ∧
      (∀ length, retrying.nesting.Path length retrying.current ↔ length = 1) ∧
      Returns refused.2 retrying (.ok false) left ∧
      left.2.nesting.children Nesting.root = [1] := by
  intro refused left
  have outset : Underway trayScope.base trayScope [] := .opened
  have working := ((outset.entered ⟨4, []⟩).entered ⟨5, []⟩).left [] ⟨6, []⟩ "within" (.ok true)
  have swapped : Underway trayScope.base swapping [trayScope] := working.changed _
  have underway : Underway trayScope.base retrying [refused.2] :=
    (swapped.left [] ⟨7, []⟩ "refused" (.ok true)).entered ⟨8, []⟩
  obtain ⟨path, depth, returns, _⟩ := stack_follows_path underway
  have deep : retrying.depth = 1 := depth
  rw [deep] at path
  exact ⟨rfl, underway, deep, path, returns refused.2 [] rfl [] ⟨9, []⟩ "rolled back" (.ok false),
    rfl⟩

end Scope
end TransactionalMemory
