import TransactionalMemory.Proofs.NestingOrder
import TransactionalMemory.Proofs.ScopeRun

/-! The callbacks that a scope leaves behind in the tree of its nested transactions. Whatever client
code does in a scope, it only ever adds nodes below the current one, and which callbacks these hold
follows from how the nested transactions ended. -/
namespace TransactionalMemory
namespace Nesting
variable {C : Type} {node : Nat} {nesting later last : Nesting (Option C)} {callbacks more : List C}

/-- Nodes were added below one node, and these are their callbacks in the order of the walk. Nothing
has changed about the nodes that were there before. -/
structure Grows (node : Nat) (nesting later : Nesting (Option C)) (callbacks : List C) : Prop where
  size : nesting.nodes.size ≤ later.nodes.size
  children : ∀ other < nesting.nodes.size, other ≠ node →
    later.children other = nesting.children other
  value : ∀ other < nesting.nodes.size, later.value? other = nesting.value? other
  added : ∃ nodes order, later.children node = nesting.children node ++ nodes ∧
    later.Lists nodes order ∧ order.Nodup ∧
    (∀ other ∈ order, nesting.nodes.size ≤ other ∧ other < later.nodes.size) ∧
    order.filterMap (fun other => (later.value? other).join) = callbacks

theorem Grows.refl (node : Nat) (nesting : Nesting (Option C)) : Grows node nesting nesting [] :=
  ⟨Nat.le_refl _, fun _ _ _ => rfl, fun _ _ => rfl,
    [], [], (List.append_nil _).symm, .nil, .nil, nofun, rfl⟩

private theorem heard_congr {order : List Nat}
    (same : ∀ other ∈ order, last.value? other = later.value? other) :
    order.filterMap (fun other => (last.value? other).join) =
      order.filterMap (fun other => (later.value? other).join) := by
  apply List.filterMap_congr
  intro other member
  rw [same other member]

theorem Grows.trans (inside : node < nesting.nodes.size)
    (first : Grows node nesting later callbacks) (second : Grows node later last more) :
    Grows node nesting last (callbacks ++ more) := by
  obtain ⟨size, children, value, nodes, order, below, lists, once, range, heard⟩ := first
  obtain ⟨size', children', value', nodes', order', below', lists', once', range', heard'⟩ := second
  have kept : ∀ other ∈ order, last.children other = later.children other := by
    intro other member
    have bounds := range other member
    apply children' other bounds.2
    omega
  have told := (heard_congr fun other member => value' other (range other member).2).trans heard
  refine ⟨by omega, ?_, ?_, nodes ++ nodes', order ++ order', ?_, (lists.frame kept).append lists',
    ?_, ?_, ?_⟩
  · intro other old apart
    rw [children' other (by omega) apart, children other old apart]
  · intro other old
    rw [value' other (by omega), value other old]
  · rw [below', below, List.append_assoc]
  · refine List.nodup_append.mpr ⟨once, once', ?_⟩
    intro other member other' member'
    have bounds := range other member
    have bounds' := range' other' member'
    omega
  · intro other member
    rcases List.mem_append.mp member with old | new
    · have bounds := range other old
      omega
    · have bounds := range' other new
      omega
  · rw [List.filterMap_append, told, heard']

/-- A nested transaction was begun below a node and has come to an end, its own node perhaps with
another value. -/
theorem Grows.enclose (inside : node < nesting.nodes.size)
    (grown : Grows nesting.nodes.size (nesting.addChild node none).2 later callbacks)
    (last : Nesting (Option C)) (size : last.nodes.size = later.nodes.size)
    (children : ∀ other, last.children other = later.children other)
    (value : ∀ other, other ≠ nesting.nodes.size → last.value? other = later.value? other) :
    Grows node nesting last (callbacks ++ ((last.value? nesting.nodes.size).join).toList) := by
  obtain ⟨grew, children', value', nodes, order, below, lists, once, range, heard⟩ := grown
  rw [size_addChild] at grew children' value' range
  have fresh : nesting.children nesting.nodes.size = [] := by simp [children_eq]
  have only : last.children nesting.nodes.size = nodes := by
    rw [children, below, children_addChild _ _ _ inside, if_neg (Nat.ne_of_lt inside), fresh,
      List.nil_append]
  have listed : last.Lists [nesting.nodes.size] (order ++ [nesting.nodes.size]) := by
    refine .cons ?_ .nil
    rw [only]
    exact lists.frame fun other _ => children other
  have apart : ∀ other ∈ order, other ≠ nesting.nodes.size := by
    intro other member
    have bounds := range other member
    omega
  have told := (heard_congr fun other member => value other (apart other member)).trans heard
  refine ⟨by omega, ?_, ?_, [nesting.nodes.size], _, ?_, listed, ?_, ?_, ?_⟩
  · intro other old distinct
    rw [children, children' other (by omega) (by omega), children_addChild _ _ _ inside,
      if_neg distinct.symm]
  · intro other old
    rw [value other (by omega), value' other (by omega), value?_addChild _ _ _ inside,
      if_neg (by omega)]
  · rw [children, children' node (by omega) (by omega), children_addChild _ _ _ inside, if_pos rfl]
  · refine List.nodup_append.mpr ⟨once, List.nodup_singleton _, ?_⟩
    intro other member other' member'
    rw [List.mem_singleton.mp member']
    exact apart other member
  · intro other member
    rcases List.mem_append.mp member with old | new
    · have bounds := range other old
      omega
    · rw [List.mem_singleton.mp new]
      omega
  · rw [List.filterMap_append, told]
    cases held : (last.value? nesting.nodes.size).join <;> simp [held]

private theorem Grows.value_entered (inside : node < nesting.nodes.size)
    (grown : Grows nesting.nodes.size (nesting.addChild node none).2 later callbacks) :
    later.value? nesting.nodes.size = some none := by
  have kept := grown.value nesting.nodes.size (by simp)
  rw [kept, value?_addChild _ _ _ inside, if_pos rfl]

theorem Grows.commit (inside : node < nesting.nodes.size)
    (grown : Grows nesting.nodes.size (nesting.addChild node none).2 later callbacks)
    (callback : C) :
    Grows node nesting (later.setValue nesting.nodes.size (some callback))
      (callbacks ++ [callback]) := by
  have held : (later.setValue nesting.nodes.size (some callback)).value? nesting.nodes.size =
      some (some callback) := by
    rw [value?_setValue, if_pos rfl, grown.value_entered inside]
    rfl
  have enclosed := grown.enclose inside (later.setValue nesting.nodes.size (some callback))
    (by simp) (by simp) fun other apart => by rw [value?_setValue, if_neg apart.symm]
  rwa [held] at enclosed

private theorem Grows.refuse (inside : node < nesting.nodes.size)
    (grown : Grows nesting.nodes.size (nesting.addChild node none).2 later callbacks) :
    Grows node nesting later callbacks := by
  have enclosed := grown.enclose inside later rfl (fun _ => rfl) fun _ _ => rfl
  rw [grown.value_entered inside] at enclosed
  simpa using enclosed

private theorem Grows.discard (inside : node < nesting.nodes.size)
    (grown : Grows nesting.nodes.size (nesting.addChild node none).2 later callbacks) :
    Grows node nesting (later.removeLastChild node).2 [] := by
  obtain ⟨size, children, value, nodes, order, below, lists, once, range, heard⟩ :=
    grown.refuse inside
  obtain ⟨grew, children', _⟩ := grown
  rw [size_addChild] at grew children'
  have back : (later.removeLastChild node).2.children node = nesting.children node := by
    rw [children_removeLastChild, if_pos rfl, children' node (by omega) (by omega),
      children_addChild _ _ _ inside, if_pos rfl, List.dropLast_concat]
  refine ⟨by simpa using size, ?_, ?_, [], [], ?_, .nil, .nil, nofun, rfl⟩
  · intro other old apart
    rw [children_removeLastChild, if_neg apart.symm, children other old apart]
  · intro other old
    rw [value?_removeLastChild, value other old]
  · rw [back, List.append_nil]

private theorem callbacks_of_grows (grown : Grows root (.single none) later callbacks) (own : C) :
    Scope.callbacks own later = callbacks ++ [own] := by
  obtain ⟨size, _, _, nodes, order, below, lists, once, range, heard⟩ := grown
  have single : (single (none : Option C)).nodes.size = 1 := rfl
  rw [single] at size range
  have only : later.children root = nodes := below
  have listed : later.Lists [root] (order ++ [root]) := by
    refine .cons ?_ .nil
    rwa [only]
  have apart : ∀ other ∈ order, other ≠ root := by
    intro other member same
    have bounds := range other member
    rw [same, root] at bounds
    omega
  have walked : later.postorder = order ++ [root] := by
    apply postorder_eq listed
    · refine List.nodup_append.mpr ⟨once, List.nodup_singleton _, ?_⟩
      intro other member other' member'
      rw [List.mem_singleton.mp member']
      exact apart other member
    · intro other member
      rcases List.mem_append.mp member with old | new
      · exact (range other old).2
      · rw [List.mem_singleton.mp new, root]
        omega
  rw [Scope.callbacks, walked, List.filterMap_append, ← heard]
  congr 1
  · apply List.filterMap_congr
    intro other member
    rw [if_neg (apart other member)]

/-- What becomes of the node of a nested transaction that has ended. -/
def close (node parent : Nat) (callback : C) (ending result : Ending)
    (nesting : Nesting (Option C)) : Nesting (Option C) :=
  match ending, result with
  | .ok true, .ok true => nesting.setValue node (some callback)
  | .ok true, _ => nesting
  | _, _ => (nesting.removeLastChild parent).2

end Nesting

/-- The callbacks that stay in the tree when a nested transaction ends that has heard of these. One
that asked for a commit and was refused keeps those of the transactions inside of it. -/
def Ending.settle {C : Type} (heard : List C) (callback : C) (ending result : Ending) : List C :=
  match ending, result with
  | .ok true, .ok true => heard ++ [callback]
  | .ok true, _ => heard
  | _, _ => []

private theorem Nesting.Grows.close {C : Type} {node : Nat} {nesting later : Nesting (Option C)}
    {callbacks : List C} (inside : node < nesting.nodes.size)
    (grown : Grows nesting.nodes.size (nesting.addChild node none).2 later callbacks)
    (callback : C) (ending result : Ending) :
    Grows node nesting (later.close nesting.nodes.size node callback ending result)
      (Ending.settle callbacks callback ending result) := by
  unfold Nesting.close Ending.settle
  split
  · exact grown.commit inside callback
  · exact grown.refuse inside
  · exact grown.discard inside

namespace Scope
variable {C : Type} {scope before after inside : Scope C} {callbacks more : List C}

theorem current_adjusted (top : Snapshot Entity) (nesting : Nesting (Option C)) (scope : Scope C) :
    (scope.adjusted top nesting).current = scope.current := by
  rcases scope with ⟨_, _ | ⟨_, _⟩, _, _⟩ <;> rfl

theorem nesting_adjusted (top : Snapshot Entity) (nesting : Nesting (Option C)) (scope : Scope C) :
    (scope.adjusted top nesting).nesting = nesting := rfl

theorem nesting_withTop (top : Snapshot Entity) (scope : Scope C) :
    (scope.withTop top).nesting = scope.nesting := by
  rw [withTop_eq, nesting_adjusted]

private theorem adjusted_detached (top : Snapshot Entity) (nesting nesting' : Nesting (Option C))
    (scope : Scope C) :
    ({scope with nesting} : Scope C).adjusted top nesting' = scope.adjusted top nesting' := by
  rcases scope with ⟨_, _ | ⟨_, _⟩, _, _⟩ <;> rfl

/-- All that ending a nested transaction does: it merges the branch into the snapshot below and
closes its node. -/
theorem leave_entered (scope : Scope C) (seed seed' : Identity) (branch : Snapshot Entity)
    (nesting : Nesting (Option C)) (others : List (Slot Entity)) (callback : C)
    (ending : Ending) :
    let merged := branch.merge (scope.buried ++ others) seed' (Ending.mode ending) scope.top
    let result := Ending.merged ending merged.1
    ((scope.enter seed).adjusted branch nesting).leave others seed' callback scope.current ending =
      (result, scope.adjusted merged.2
        (nesting.close scope.nesting.nodes.size scope.current callback ending result)) := by
  intro merged result
  have shape : (scope.enter seed).adjusted branch nesting =
    ⟨scope.base, branch :: scope.branches, nesting, scope.nesting.nodes.size⟩ := rfl
  rw [shape]
  rcases ending with failure | (_ | _)
  case ok.true =>
    unfold leave
    dsimp only
    split
    · next refusal top refused =>
      have outcome : merged = (some refusal, top) := refused
      simp only [result, outcome, Ending.merged, Nesting.close]
      exact congrArg (Prod.mk _) (withTop_detached top nesting scope)
    · next top accepted =>
      have outcome : merged = (none, top) := accepted
      simp only [result, outcome, Ending.merged, Nesting.close]
      exact congrArg (Prod.mk _) (adjusted_detached top _ _ scope)
  all_goals
    unfold leave
    dsimp only
    split
    · next refusal top refused =>
      have outcome : merged = (some refusal, top) := refused
      simp only [result, outcome, Ending.merged, Nesting.close]
      exact congrArg (Prod.mk _) (withTop_detached top _ scope)
    · next top accepted =>
      have outcome : merged = (none, top) := accepted
      simp only [result, outcome, Ending.merged, Nesting.close]
      exact congrArg (Prod.mk _) (withTop_detached top _ scope)

/-- What client code can do in a scope: turn its innermost snapshot into anything, and run nested
transactions in which it does the same. The list is of the callbacks that this leaves behind. -/
inductive Worked : (scope after : Scope C) → (callbacks : List C) → Prop where
  | rest (scope : Scope C) : Worked scope scope []
  | change {scope after : Scope C} {callbacks : List C} (worked : Worked scope after callbacks)
      (top : Snapshot Entity) : Worked scope (after.withTop top) callbacks
  | nest {scope before inside after : Scope C} {callbacks more : List C} {seed seed' : Identity}
      {others : List (Slot Entity)} {callback : C} {ending result : Ending}
      (worked : Worked scope before callbacks) (inner : Worked (before.enter seed) inside more)
      (left : inside.leave others seed' callback before.current ending = (result, after)) :
      Worked scope after (callbacks ++ Ending.settle more callback ending result)

theorem Worked.trans {last : Scope C} (first : Worked scope after callbacks)
    (second : Worked after last more) : Worked scope last (callbacks ++ more) := by
  induction second with
  | rest scope =>
    rw [List.append_nil]
    exact first
  | change worked top ih => exact (ih first).change top
  | nest worked inner left ih innerIh =>
    rw [← List.append_assoc]
    exact (ih first).nest inner left

/-- Client code comes back to the node it started from, and the snapshots below its own are as they
were. -/
theorem Worked.eq_adjusted (worked : Worked scope after callbacks) :
    after = scope.adjusted after.top after.nesting := by
  induction worked with
  | rest scope => exact (adjusted_self scope).symm
  | @change scope after callbacks worked top same =>
    rw [top_withTop, nesting_withTop, withTop_eq, same, adjusted_adjusted]
  | @nest scope before inside after callbacks more seed seed' others callback ending result worked
      inner left same inside_eq =>
    rw [inside_eq, leave_entered, Prod.mk.injEq] at left
    obtain ⟨_, rfl⟩ := left
    rw [top_adjusted, nesting_adjusted, same, adjusted_adjusted]

theorem Worked.current_eq (worked : Worked scope after callbacks) :
    after.current = scope.current := by
  rw [worked.eq_adjusted, current_adjusted]

theorem Worked.grows (worked : Worked scope after callbacks)
    (bound : scope.current < scope.nesting.nodes.size) :
    Nesting.Grows scope.current scope.nesting after.nesting callbacks := by
  induction worked with
  | rest scope => exact .refl _ _
  | @change scope after callbacks worked top ih =>
    rw [nesting_withTop]
    exact ih bound
  | @nest scope before inside after callbacks more seed seed' others callback ending result worked
      inner left ih innerIh =>
    have grown := ih bound
    have current := worked.current_eq
    have bound' : before.current < before.nesting.nodes.size := by
      have grew := grown.size
      omega
    have entered : (before.enter seed).current < (before.enter seed).nesting.nodes.size := by
      simp [enter, Nesting.addChild]
    have closed := (innerIh entered).close bound' callback ending result
    rw [inner.eq_adjusted, leave_entered, Prod.mk.injEq] at left
    obtain ⟨ended, rfl⟩ := left
    rw [ended, nesting_adjusted, current]
    rw [current] at bound' closed
    exact grown.trans bound closed

theorem callbacks_of_worked {base : Snapshot Entity}
    (worked : Worked (.start base) after callbacks) (own : C) :
    Scope.callbacks own after.nesting = callbacks ++ [own] := by
  have bound : (Scope.start base : Scope C).current <
      (Scope.start base : Scope C).nesting.nodes.size :=
    Nat.zero_lt_one
  exact Nesting.callbacks_of_grows (worked.grows bound) own

end Scope

namespace Body
variable {Q A C : Type}

/-- The callbacks that a body has left in the tree, by what it has learned. -/
def heard : Body Q A C → Trace Q A → List C
  | .ask _ next, .asked _ answer rest => (next answer).heard rest
  | .nest callback inner next, .nested inside result rest =>
    Ending.settle (inner.heard inside) callback inside.ending result ++
      (next inside result).heard rest
  | _, _ => []

/-- The callbacks of the nested transactions that have ended with a commit, as all those around them
have, inner ones before outer ones and otherwise in the order in which they were begun. -/
def survivors : Body Q A C → Trace Q A → List C
  | .ask _ next, .asked _ answer rest => (next answer).survivors rest
  | .nest callback inner next, .nested inside result rest =>
    (if result = .ok true then inner.survivors inside ++ [callback] else []) ++
      (next inside result).survivors rest
  | _, _ => []

end Body

/-- No merge was refused, so that every nested transaction has ended as its body did. -/
def Trace.Accepted {Q A : Type} : Trace Q A → Prop
  | .finished _ => True
  | .asked _ _ rest => rest.Accepted
  | .nested inner result rest => result = inner.ending ∧ inner.Accepted ∧ rest.Accepted

theorem Body.heard_eq_survivors {Q A C : Type} (body : Body Q A C) {trace : Trace Q A}
    (accepted : trace.Accepted) : body.heard trace = body.survivors trace := by
  induction body generalizing trace with
  | finish ending => rfl
  | ask question next ih =>
    cases trace with
    | asked question' answer rest => exact ih answer accepted
    | _ => rfl
  | nest callback inner next innerIh ih =>
    cases trace with
    | nested inside result rest =>
      obtain ⟨rfl, within, later⟩ := accepted
      rw [heard, survivors, innerIh within, ih _ _ later]
      rcases inside.ending with failure | (_ | _) <;> rfl
    | _ => rfl

namespace Scope
variable {C : Type}

theorem ask_worked (scope : Scope C) (others : List (Slot Entity)) (seed : Identity)
    (question : Question) : Worked scope (scope.ask others seed question).2 [] := by
  unfold ask
  split
  · exact (Worked.rest scope).change _
  · exact .rest scope

theorem run_worked (alive : Identity → List (Slot Entity)) (body : Body Question Answer C)
    (seed : Identity) (scope : Scope C) :
    Worked scope (scope.run alive body seed).2 (body.heard (scope.run alive body seed).1) := by
  induction body generalizing seed scope with
  | finish ending => exact .rest scope
  | ask question next ih =>
    have asked := scope.ask_worked (alive (seed.child 0)) (seed.child 0) question
    exact asked.trans (ih _ _ _)
  | nest callback inner next innerIh ih =>
    have inside := innerIh (seed.child 1) (scope.enter (seed.child 0))
    let ran := scope.enter (seed.child 0) |>.run alive inner (seed.child 1)
    let left :=
      ran.2.leave (alive (seed.child 2)) (seed.child 2) callback scope.current ran.1.ending
    have nested := (Worked.rest scope).nest inside (rfl : ran.2.leave _ _ _ _ _ = (left.1, left.2))
    exact nested.trans (ih _ _ _ _)

end Scope
end TransactionalMemory
