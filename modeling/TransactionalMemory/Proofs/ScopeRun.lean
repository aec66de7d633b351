import TransactionalMemory.Proofs.EntityBody

/-! Bodies that run in a scope, where each nested transaction has a branch of its own on the stack.
Such a run comes to the same as one that is given the innermost snapshot alone: it leaves the
snapshots below as they are, and it does not depend on what is alive outside. -/
namespace TransactionalMemory.Scope
variable {C : Type}

/-- Puts a question to the innermost snapshot. The `others` are the slots that are alive outside of
the scope. -/
def ask (others : List (Slot Entity)) (seed : Identity) (question : Question) (scope : Scope C) :
    Answer × Scope C :=
  match (Entity.snapshot scope.top).ask (scope.buried ++ others) seed question with
  | (answer, .snapshot top) => (answer, scope.withTop top)
  | (answer, _) => (answer, scope)

/-- Runs a body. What is alive outside of the scope may change at every step; it is known by the
seed of the step. -/
def run (alive : Identity → List (Slot Entity)) :
    Body Question Answer C → Identity → Scope C → Trace Question Answer × Scope C
  | .finish ending, _, scope => (.finished ending, scope)
  | .ask question next, seed, scope =>
    let asked := scope.ask (alive (seed.child 0)) (seed.child 0) question
    let rest := run alive (next asked.1) (seed.child 1) asked.2
    (.asked question asked.1 rest.1, rest.2)
  | .nest callback inner next, seed, scope =>
    let inside := run alive inner (seed.child 1) (scope.enter (seed.child 0))
    let left := inside.2.leave (alive (seed.child 2)) (seed.child 2) callback scope.current
      inside.1.ending
    let rest := run alive (next inside.1 left.1) (seed.child 3) left.2
    (.nested inside.1 left.1 rest.1, rest.2)

/-- The same scope, but for its innermost snapshot and its tree of nested transactions. -/
def adjusted (top : Snapshot Entity) (nesting : Nesting (Option C)) (scope : Scope C) : Scope C :=
  {scope.withTop top with nesting}

@[simp] theorem top_adjusted (top : Snapshot Entity) (nesting : Nesting (Option C))
    (scope : Scope C) : (scope.adjusted top nesting).top = top :=
  scope.top_withTop top

theorem adjusted_self (scope : Scope C) : scope.adjusted scope.top scope.nesting = scope := by
  rcases scope with ⟨_, _ | ⟨_, _⟩, _, _⟩ <;> rfl

theorem adjusted_adjusted (top top' : Snapshot Entity) (nesting nesting' : Nesting (Option C))
    (scope : Scope C) :
    (scope.adjusted top nesting).adjusted top' nesting' = scope.adjusted top' nesting' := by
  rcases scope with ⟨_, _ | ⟨_, _⟩, _, _⟩ <;> rfl

theorem withTop_eq (top : Snapshot Entity) (scope : Scope C) :
    scope.withTop top = scope.adjusted top scope.nesting := by
  rcases scope with ⟨_, _ | ⟨_, _⟩, _, _⟩ <;> rfl

def below (parent : Nat) (scope : Scope C) : Scope C :=
  {scope with branches := scope.branches.tail, current := parent}

theorem withTop_detached (top : Snapshot Entity) (nesting : Nesting (Option C)) (scope : Scope C) :
    {scope with nesting}.withTop top = scope.adjusted top nesting := by
  rcases scope with ⟨_, _ | ⟨_, _⟩, _, _⟩ <;> rfl

theorem leave_merged {scope : Scope C} {seed : Identity} {ending : Ending}
    {branch merged : Snapshot Entity} {outer : List (Snapshot Entity)}
    (shape : scope.branches = branch :: outer) (parent : Nat) (callback : C)
    (accepted : ∀ others, branch.merge others seed (Ending.mode ending) (scope.below parent).top =
      (none, merged)) (others : List (Slot Entity)) :
    ∃ nesting, scope.leave others seed callback parent ending =
      (ending, (scope.below parent).adjusted merged nesting) := by
  obtain ⟨base, branches, nesting, current⟩ := scope
  obtain rfl : branches = branch :: outer := shape
  have accepted (others : List (Slot Entity)) : branch.merge others seed (Ending.mode ending)
    (outer.head?.getD base) = (none, merged) := accepted others
  rcases ending with failure | _ | _
  · refine ⟨(nesting.removeLastChild parent).2, ?_⟩
    simp only [Ending.mode] at accepted
    simp only [leave, top, accepted]
    exact congrArg (Prod.mk _) (withTop_detached merged _ ⟨base, outer, nesting, parent⟩)
  · refine ⟨(nesting.removeLastChild parent).2, ?_⟩
    simp only [Ending.mode] at accepted
    simp only [leave, top, accepted]
    exact congrArg (Prod.mk _) (withTop_detached merged _ ⟨base, outer, nesting, parent⟩)
  · refine ⟨nesting.setValue current (some callback), ?_⟩
    simp only [Ending.mode] at accepted
    simp only [leave, top, accepted]
    rfl

theorem leave_enter {scope : Scope C} {seed' : Identity} {ending : Ending}
    {branch merged : Snapshot Entity} (seed : Identity) (callback : C)
    (nesting : Nesting (Option C))
    (accepted : ∀ others, branch.merge others seed' (Ending.mode ending) scope.top =
      (none, merged)) (others : List (Slot Entity)) :
    ∃ nesting', ((scope.enter seed).adjusted branch nesting).leave others seed' callback
      scope.current ending = (ending, scope.adjusted merged nesting') := by
  have shape : ((scope.enter seed).adjusted branch nesting).branches =
    branch :: scope.branches := rfl
  obtain ⟨nesting', left⟩ := leave_merged shape scope.current callback accepted others
  refine ⟨nesting', left.trans ?_⟩
  rcases scope with ⟨_, _ | ⟨_, _⟩, _, _⟩ <;> rfl

theorem ask_of_visit {scope : Scope C} {seed : Identity} {question : Question} {answer : Answer}
    {top : Snapshot Entity} (went : ∀ others,
      (Entity.snapshot scope.top).ask others seed question = (answer, .snapshot top))
    (others : List (Slot Entity)) :
    scope.ask others seed question = (answer, scope.adjusted top scope.nesting) := by
  rw [ask, went, ← withTop_eq]

theorem merge_accepted {branch target merged : Snapshot Entity} {seed : Identity}
    {mode : MergeMode} (accepted : ∀ others,
      (Entity.snapshot branch).merge others seed mode (.snapshot target) =
        (none, .snapshot merged)) (others : List (Slot Entity)) :
    branch.merge others seed mode target = (none, merged) := by
  have same := accepted others
  rw [Entity.merge_snapshot] at same
  obtain ⟨refusal, wrapped⟩ := Prod.ext_iff.mp same
  exact Prod.ext refusal (Entity.snapshot.inj wrapped)

open Entity in
theorem run_eq {base : Entity} (untouched : Untouched base)
    (alive : Identity → List (Slot Entity)) (body : Body Question Answer C) (seed : Identity)
    (scope : Scope C) (copy : CopyOf .free base (.snapshot scope.top)) :
    ∃ trace top nesting,
      body.run Entity.protocol seed (.snapshot scope.top) = (trace, .snapshot top) ∧
        scope.run alive body seed = (trace, scope.adjusted top nesting) := by
  induction body generalizing seed scope with
  | finish ending => exact ⟨_, scope.top, scope.nesting, rfl, by rw [adjusted_self, run]⟩
  | ask question next ih =>
    have named : Guard.free.seed (seed.child 0) := trivial
    obtain ⟨answer, after, went, copied, _⟩ := visit_copy question.query question.path
      question.query.marked_free named untouched copy
    obtain ⟨top, rfl⟩ := snapshot_of_kind (copied.kind_eq.trans copy.kind_eq.symm)
    have asked := ask_of_visit went (alive (seed.child 0))
    simp only [run, asked]
    obtain ⟨trace, top', nesting, ran, same⟩ := ih answer (seed.child 1)
      (scope.adjusted top scope.nesting) (by rwa [top_adjusted])
    rw [top_adjusted] at ran
    rw [same, adjusted_adjusted]
    refine ⟨.asked question answer trace, top', nesting, ?_, rfl⟩
    have asked : Entity.protocol.ask (seed.child 0) question (.snapshot scope.top) =
      (answer, .snapshot top) := went []
    simp only [Body.run, asked, ran]
  | nest callback inner next innerIh ih =>
    -- The scope keeps its branches on a stack; the protocol hands them from step to step.
    have branches := CopyOf.branch copy (seed.child 0)
    rw [copy_snapshot] at branches
    obtain ⟨trace, branch, nesting, ran, same⟩ := innerIh (seed.child 1)
      (scope.enter (seed.child 0)) branches.copy
    rw [top_enter] at ran
    simp only [run, same]
    have named : Guard.free.seed (seed.child 1) := trivial
    have kept := (keeps_copy untouched fun question _ _ => question.query.marked_free).run inner
      named branches.copy (Trace.all_true _)
    rw [ran] at kept
    have merging : Merging .free base (.snapshot branch) (.snapshot scope.top) :=
      ⟨untouched, kept.1, copy, Extends.trans branches.ahead kept.2⟩
    obtain ⟨merged, accepted, absorbs⟩ := merging.merge (Ending.mode trace.ending) (seed.child 2)
    obtain ⟨top, rfl⟩ := snapshot_of_kind (absorbs.copy.kind_eq.trans copy.kind_eq.symm)
    obtain ⟨nesting', left⟩ := leave_enter (seed.child 0) callback nesting
      (merge_accepted accepted) (alive (seed.child 2))
    simp only [left]
    obtain ⟨trace', top', nesting'', ran', same'⟩ := ih trace trace.ending (seed.child 3)
      (scope.adjusted top nesting') (by rw [top_adjusted]; exact absorbs.copy)
    rw [same', adjusted_adjusted]
    refine ⟨.nested trace trace.ending trace', top', nesting'', ?_, rfl⟩
    rw [top_adjusted] at ran'
    have merged : Entity.protocol.merge (seed.child 2) (Ending.mode trace.ending)
      (.snapshot branch) (.snapshot scope.top) = (none, .snapshot top) := accepted []
    have ran : inner.run Entity.protocol (seed.child 1)
        (Entity.protocol.branch (seed.child 0) (.snapshot scope.top)) =
      (trace, .snapshot branch) := ran
    rw [Body.run_nest ran (congrArg Prod.fst merged), merged, ran']
    rfl

end TransactionalMemory.Scope
