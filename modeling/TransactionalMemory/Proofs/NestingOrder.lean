import Mathlib.Algebra.GroupWithZero.Nat
import Mathlib.Algebra.Order.BigOperators.Group.Finset
import TransactionalMemory.Nesting

/-! The order in which the tree of nested transactions is walked. What each change of the tree does
to the children, the parent and the value of every node is said first; then the walk with a stack
of its own is compared, turn by turn, with the recursive listing of a forest, children before their
parent. -/
namespace TransactionalMemory.Nesting
variable {α : Type}

section
variable (nesting : Nesting α) (node other : Nat) (value : α)

theorem children_eq :
    nesting.children node = ((nesting.nodes[node]?).map Node.children).getD [] := by
  unfold children
  cases nesting.nodes[node]? <;> rfl

@[simp] theorem size_setValue : (nesting.setValue node value).nodes.size = nesting.nodes.size := by
  simp [setValue]

private theorem getElem?_setValue : (nesting.setValue node value).nodes[other]? =
    (nesting.nodes[other]?).map fun found => {found with
      value := if node = other then value else found.value} := by
  simp only [setValue, Array.getElem?_modify]
  split <;> simp

@[simp] theorem children_setValue :
    (nesting.setValue node value).children other = nesting.children other := by
  rw [children_eq, getElem?_setValue, Option.map_map, children_eq]
  rfl

@[simp] theorem parent?_setValue :
    (nesting.setValue node value).parent? other = nesting.parent? other := by
  rw [parent?, getElem?_setValue]
  exact Option.bind_map ..

theorem value?_setValue :
    (nesting.setValue node value).value? other =
      if node = other then (nesting.value? other).map fun _ => value else nesting.value? other := by
  rw [value?, getElem?_setValue, Option.map_map, value?]
  split <;> simp [Function.comp_def]

@[simp] theorem size_addChild :
    (nesting.addChild node value).2.nodes.size = nesting.nodes.size + 1 := by
  simp [addChild]

variable {node} in
private theorem getElem?_addChild (inside : node < nesting.nodes.size) :
    (nesting.addChild node value).2.nodes[other]? =
      if other = nesting.nodes.size then some ⟨value, some node, []⟩
      else (nesting.nodes[other]?).map fun found => {found with
        children := if node = other then found.children ++ [nesting.nodes.size]
          else found.children} := by
  simp only [addChild, Array.getElem?_modify, Array.getElem?_push]
  by_cases same : node = other
  · subst same
    simp [Nat.ne_of_lt inside]
  · simp only [if_neg same]
    split
    · rfl
    · simp

variable {node} in
theorem children_addChild (inside : node < nesting.nodes.size) :
    (nesting.addChild node value).2.children other =
      if node = other then nesting.children node ++ [nesting.nodes.size]
      else nesting.children other := by
  simp only [children_eq, getElem?_addChild nesting other value inside]
  split
  · next last =>
    subst last
    simp [Nat.ne_of_lt inside]
  · split
    · next same =>
      subst same
      simp [inside]
    · simp

variable {node} in
theorem parent?_addChild (inside : node < nesting.nodes.size) :
    (nesting.addChild node value).2.parent? other =
      if other = nesting.nodes.size then some node else nesting.parent? other := by
  rw [parent?, getElem?_addChild nesting other value inside]
  split
  · rfl
  · exact Option.bind_map ..

variable {node} in
theorem value?_addChild (inside : node < nesting.nodes.size) :
    (nesting.addChild node value).2.value? other =
      if other = nesting.nodes.size then some value else nesting.value? other := by
  rw [value?, getElem?_addChild nesting other value inside]
  split
  · rfl
  · exact Option.map_map ..

@[simp] theorem size_removeLastChild :
    (nesting.removeLastChild node).2.nodes.size = nesting.nodes.size := by
  unfold removeLastChild
  split <;> simp

theorem removeLastChild_fst :
    (nesting.removeLastChild node).1 = (nesting.children node).getLast? := by
  unfold removeLastChild
  split
  · next none => exact none.symm
  · next child last => exact last.symm

private theorem getElem?_removeLastChild :
    (nesting.removeLastChild node).2.nodes[other]? =
      (nesting.nodes[other]?).map fun found => {found with
        children := if node = other then found.children.dropLast else found.children
        parent := if (nesting.children node).getLast? = some other then none
          else found.parent} := by
  unfold removeLastChild
  split
  · next none =>
    rw [none]
    rw [List.getLast?_eq_none_iff] at none
    cases present : nesting.nodes[other]? with
    | none => rfl
    | some found =>
      obtain ⟨value, parent, children⟩ := found
      by_cases same : node = other
      · subst same
        obtain rfl : children = [] := by simpa [children_eq, present] using none
        simp
      · simp [same]
  · next child last =>
    rw [last]
    simp only [Array.getElem?_modify, Option.some.injEq]
    cases nesting.nodes[other]? <;> by_cases self : child = other <;>
      by_cases same : node = other <;> simp [self, same]

theorem children_removeLastChild :
    (nesting.removeLastChild node).2.children other =
      if node = other then (nesting.children node).dropLast else nesting.children other := by
  simp only [children_eq, getElem?_removeLastChild]
  by_cases same : node = other
  · subst same
    cases nesting.nodes[node]? <;> simp
  · cases nesting.nodes[other]? <;> simp [same]

theorem parent?_removeLastChild :
    (nesting.removeLastChild node).2.parent? other =
      if (nesting.children node).getLast? = some other then none else nesting.parent? other := by
  rw [parent?, getElem?_removeLastChild, parent?]
  cases nesting.nodes[other]? with
  | none => exact (ite_self none).symm
  | some found => rfl

@[simp] theorem value?_removeLastChild :
    (nesting.removeLastChild node).2.value? other = nesting.value? other := by
  rw [value?, getElem?_removeLastChild]
  exact Option.map_map ..

end

/-- The nodes of a forest with the given roots, children before their parent. -/
inductive Lists (nesting : Nesting α) : (roots order : List Nat) → Prop where
  | nil : Lists nesting [] []
  | cons {node : Nat} {roots inner rest : List Nat}
      (below : Lists nesting (nesting.children node) inner)
      (beside : Lists nesting roots rest) : Lists nesting (node :: roots) (inner ++ node :: rest)

variable {nesting later : Nesting α} {roots order : List Nat}

theorem Lists.append {roots' order' : List Nat} (lists : nesting.Lists roots order)
    (lists' : nesting.Lists roots' order') : nesting.Lists (roots ++ roots') (order ++ order') := by
  induction lists with
  | nil => exact lists'
  | @cons node roots inner rest below beside belowIh besideIh =>
    rw [List.cons_append, List.append_assoc, List.cons_append]
    exact .cons below besideIh

/-- Only the children of the nodes that are listed matter. -/
theorem Lists.frame (lists : nesting.Lists roots order)
    (same : ∀ node ∈ order, later.children node = nesting.children node) :
    later.Lists roots order := by
  induction lists with
  | nil => exact .nil
  | @cons node roots inner rest below beside belowIh besideIh =>
    have inside := belowIh fun other member => same other (List.mem_append_left _ member)
    rw [← same node (by simp)] at inside
    exact .cons inside (besideIh fun other member => same other (by simp [member]))

/-- Every node that is listed is a root or the child of one that is listed. -/
theorem Lists.two_mul_length (lists : nesting.Lists roots order) : 2 * order.length =
    roots.length + (order.map fun node => (nesting.children node).length + 1).sum := by
  induction lists with
  | nil => rfl
  | cons below beside belowIh besideIh =>
    simp only [List.length_append, List.length_cons, List.map_append, List.map_cons,
      List.sum_append, List.sum_cons]
    omega

/-- Where the walk stands: the nodes it is in, each with the number of its children already visited,
and the nodes that it has left. -/
structure Walk where
  stack : List (Nat × Nat)
  order : List Nat

def Walk.start : Walk :=
  ⟨[(root, 0)], []⟩

/-- The innermost node is left when there is no child to visit any more. Once the stack is empty the
walk is over. -/
def turn (nesting : Nesting α) : Walk → Walk
  | ⟨[], order⟩ => ⟨[], order⟩
  | ⟨(node, visited) :: stack, order⟩ =>
    match (nesting.children node)[visited]? with
    | some child => ⟨(child, 0) :: (node, visited + 1) :: stack, order⟩
    | none => ⟨stack, order ++ [node]⟩

private theorem order_turns (nesting : Nesting α) (turns : Nat) (walk : Walk) :
    (nesting.turn^[turns] walk).order = walk.order ++ nesting.walk turns walk.stack := by
  induction turns generalizing walk with
  | zero => simp [Nesting.walk]
  | succ turns ih =>
    obtain ⟨stack, order⟩ := walk
    rw [Function.iterate_succ_apply, ih]
    cases stack with
    | nil => cases turns <;> simp [turn, Nesting.walk]
    | cons entry stack =>
      obtain ⟨node, visited⟩ := entry
      simp only [turn, Nesting.walk]
      cases (nesting.children node)[visited]? with
      | some child => rfl
      | none => simp

private theorem turn_leave (nesting : Nesting α) (node : Nat) (stack : List (Nat × Nat))
    (order : List Nat) :
    nesting.turn ⟨(node, (nesting.children node).length) :: stack, order⟩ =
      ⟨stack, order ++ [node]⟩ := by
  have done : (nesting.children node)[(nesting.children node).length]? = none := by simp
  simp only [turn, done]

/-- The walk takes two turns for each node of a forest, one to come to it and one to leave it. -/
theorem Lists.turns (lists : nesting.Lists roots order) {parent visited : Nat}
    (waiting : roots <+: (nesting.children parent).drop visited) (stack : List (Nat × Nat))
    (before : List Nat) :
    nesting.turn^[2 * order.length] ⟨(parent, visited) :: stack, before⟩ =
      ⟨(parent, visited + roots.length) :: stack, before ++ order⟩ := by
  induction lists generalizing parent visited stack before with
  | nil => simp
  | @cons node roots inner rest below beside belowIh besideIh =>
    obtain ⟨after, waiting⟩ := waiting
    have next : (nesting.children parent)[visited]? = some node := by
      have head := congrArg List.head? waiting
      rw [List.head?_drop] at head
      exact head.symm
    have others : roots <+: (nesting.children parent).drop (visited + 1) := by
      have tail := congrArg List.tail waiting
      rw [List.tail_drop] at tail
      exact ⟨after, tail⟩
    have come : nesting.turn ⟨(parent, visited) :: stack, before⟩ =
        ⟨(node, 0) :: (parent, visited + 1) :: stack, before⟩ := by
      simp only [turn, next]
    have amount : 2 * (inner ++ node :: rest).length =
        2 * rest.length + (1 + (2 * inner.length + 1)) := by
      simp only [List.length_append, List.length_cons]
      omega
    have both : visited + 1 + roots.length = visited + (roots.length + 1) := by omega
    rw [amount, Function.iterate_add_apply, Function.iterate_add_apply,
      Function.iterate_add_apply, Function.iterate_one, come, belowIh (by simp), Nat.zero_add,
      turn_leave, besideIh others, List.length_cons, both, List.append_assoc, List.append_assoc,
      List.singleton_append]

/-- The walk of a whole tree is over when it has left the root. -/
theorem Lists.turns_root (lists : nesting.Lists [root] order) :
    nesting.turn^[2 * order.length - 1] .start = ⟨[], order⟩ := by
  cases lists with
  | @cons _ _ inner rest below beside =>
    cases beside
    have amount : 2 * (inner ++ [root]).length - 1 = 1 + 2 * inner.length := by
      simp only [List.length_append, List.length_singleton]
      omega
    rw [amount, Function.iterate_add_apply, Walk.start, below.turns (by simp), Nat.zero_add,
      Function.iterate_one, turn_leave, List.nil_append]

private theorem turns_eq (nesting : Nesting α) : nesting.turns =
    ∑ node ∈ Finset.range nesting.nodes.size, ((nesting.children node).length + 1) := by
  have same : nesting.nodes.toList.map (fun node => node.children.length + 1) =
      (List.range nesting.nodes.size).map fun node => (nesting.children node).length + 1 := by
    apply List.ext_getElem
    · simp
    · intro index bound _
      rw [List.length_map] at bound
      have present : nesting.nodes[index]? = some nesting.nodes[index] := by simp
      simp [children_eq, present]
  rw [turns, same]
  rfl

private theorem Lists.turns_le (lists : nesting.Lists roots order) (once : order.Nodup)
    (inside : ∀ node ∈ order, node < nesting.nodes.size) :
    2 * order.length ≤ nesting.turns + roots.length := by
  have length := lists.two_mul_length
  have part : ∑ node ∈ order.toFinset, ((nesting.children node).length + 1) ≤ nesting.turns := by
    rw [turns_eq]
    apply Finset.sum_le_sum_of_subset
    intro node member
    exact Finset.mem_range.mpr (inside node (List.mem_toFinset.mp member))
  rw [List.sum_toFinset _ once] at part
  omega

/-- The walk lists the forest below the root. -/
theorem postorder_eq (lists : nesting.Lists [root] order) (once : order.Nodup)
    (inside : ∀ node ∈ order, node < nesting.nodes.size) : nesting.postorder = order := by
  have enough := lists.turns_le once inside
  rw [List.length_singleton] at enough
  obtain ⟨spare, amount⟩ : ∃ spare, nesting.turns = spare + (2 * order.length - 1) :=
    ⟨nesting.turns - (2 * order.length - 1), by omega⟩
  have walked := nesting.order_turns nesting.turns .start
  rw [amount, Function.iterate_add_apply, lists.turns_root, Function.iterate_fixed rfl,
    ← amount] at walked
  exact walked.symm

end TransactionalMemory.Nesting
