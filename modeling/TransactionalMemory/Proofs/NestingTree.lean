import Mathlib.Logic.Relation
import TransactionalMemory.Proofs.NestingOrder

/-! Nested transactions form a tree at all times, whatever was added to it and taken off. The array
of nodes also holds those that were taken off, with all that hangs below them. The walk comes to an
end and leaves these out: it lists in postorder what can be reached from the root. -/
namespace TransactionalMemory.Nesting
open scoped List
variable {α : Type}

/-- What can become of the tree of a single node, and the nodes that were taken off their parent on
the way. Children can be given to any node there is, also to one that was taken off. -/
inductive Built : (nesting : Nesting α) → (detached : List Nat) → Prop where
  | single (value : α) : Built (.single value) []
  | addChild {nesting : Nesting α} {detached : List Nat} (built : Built nesting detached)
      (parent : Nat) (value : α) (inside : parent < nesting.nodes.size) :
      Built (nesting.addChild parent value).2 detached
  | removeLastChild {nesting : Nesting α} {detached : List Nat} (built : Built nesting detached)
      (parent : Nat) : Built (nesting.removeLastChild parent).2
        ((nesting.removeLastChild parent).1.toList ++ detached)
  | setValue {nesting : Nesting α} {detached : List Nat} (built : Built nesting detached)
      (node : Nat) (value : α) : Built (nesting.setValue node value) detached

def Edge (nesting : Nesting α) (node child : Nat) : Prop :=
  child ∈ nesting.children node

/-- The node is the ancestor itself or comes anywhere below it. -/
def Under (nesting : Nesting α) : (ancestor node : Nat) → Prop :=
  Relation.ReflTransGen nesting.Edge

def Below (nesting : Nesting α) : (ancestor node : Nat) → Prop :=
  Relation.TransGen nesting.Edge

structure Treelike (nesting : Nesting α) (detached : List Nat) : Prop where
  rooted : root < nesting.nodes.size
  inside : ∀ {node child}, child ∈ nesting.children node → child < nesting.nodes.size
  younger : ∀ {node child}, child ∈ nesting.children node → node < child
  /-- Both ends know of each other, so that no node is the child of two. -/
  linked : ∀ {node child}, child ∈ nesting.children node ↔ nesting.parent? child = some node
  /-- Children stand in the order in which they were added. -/
  ordered : ∀ node, (nesting.children node).Pairwise (· < ·)
  parentless : ∀ {node}, node < nesting.nodes.size →
    (nesting.parent? node = none ↔ node = root ∨ node ∈ detached)
  gone : ∀ {node}, node ∈ detached → root < node ∧ node < nesting.nodes.size

variable {nesting : Nesting α} {detached roots order : List Nat} {ancestor node child other : Nat}

theorem lt_size_of_mem_children (member : child ∈ nesting.children node) :
    node < nesting.nodes.size := by
  rw [children_eq] at member
  by_contra outside
  rw [Array.getElem?_eq_none (by omega)] at member
  exact absurd member (by simp)

private theorem treelike_single (value : α) : Treelike (.single value) [] := by
  have barren (node : Nat) : (single value).children node = [] := by
    cases node <;> rfl
  have free (node : Nat) : (single value).parent? node = none := by
    cases node <;> rfl
  constructor
  case rooted => exact Nat.zero_lt_one
  case parentless =>
    intro node inside
    have first : node = root := Nat.lt_one_iff.mp inside
    simp [free, first]
  case linked => simp [barren, free]
  case ordered => simp [barren]
  all_goals simp [barren]

theorem Treelike.addChild (treelike : nesting.Treelike detached) {parent : Nat}
    (inside : parent < nesting.nodes.size) (value : α) :
    (nesting.addChild parent value).2.Treelike detached := by
  have fresh (node : Nat) : nesting.nodes.size ∉ nesting.children node :=
    fun member => Nat.lt_irrefl _ (treelike.inside member)
  have members {node child : Nat} : child ∈ (nesting.addChild parent value).2.children node ↔
      child ∈ nesting.children node ∨ node = parent ∧ child = nesting.nodes.size := by
    rw [children_addChild _ _ _ inside]
    by_cases same : parent = node
    · subst same
      simp
    · simp [same, Ne.symm same]
  constructor
  case rooted =>
    rw [size_addChild]
    exact Nat.succ_pos _
  case inside =>
    intro node child member
    rw [size_addChild]
    rcases members.mp member with old | ⟨_, rfl⟩
    · exact Nat.lt_succ_of_lt (treelike.inside old)
    · exact Nat.lt_succ_self _
  case younger =>
    intro node child member
    rcases members.mp member with old | ⟨rfl, rfl⟩
    · exact treelike.younger old
    · exact inside
  case linked =>
    intro node child
    rw [members, parent?_addChild _ _ _ inside]
    split
    · next new =>
      subst new
      simp [fresh, eq_comm]
    · next old => simp [old, treelike.linked]
  case ordered =>
    intro node
    rw [children_addChild _ _ _ inside]
    split
    · refine List.pairwise_append.mpr ⟨treelike.ordered _, List.pairwise_singleton _ _, ?_⟩
      intro child member last only
      rw [List.mem_singleton.mp only]
      exact treelike.inside member
    · exact treelike.ordered node
  case parentless =>
    intro node within
    rw [size_addChild] at within
    rw [parent?_addChild _ _ _ inside]
    split
    · next new =>
      have kept : node ∉ detached := fun member => by
        have bounds := treelike.gone member
        omega
      have apart : node ≠ root := by
        have rooted := treelike.rooted
        omega
      simp [kept, apart]
    · next old => exact treelike.parentless (by omega)
  case gone =>
    intro node member
    have bounds := treelike.gone member
    rw [size_addChild]
    omega

theorem Treelike.parent_unique (treelike : nesting.Treelike detached)
    (member : child ∈ nesting.children node) (member' : child ∈ nesting.children other) :
    node = other := by
  rw [treelike.linked] at member member'
  exact Option.some.inj (member.symm.trans member')

private theorem Treelike.mem_removeLastChild (treelike : nesting.Treelike detached) (parent : Nat) :
    child ∈ (nesting.removeLastChild parent).2.children node ↔
      child ∈ nesting.children node ∧ (nesting.children parent).getLast? ≠ some child := by
  rw [children_removeLastChild]
  by_cases same : parent = node
  · subst same
    rw [if_pos rfl]
    rcases List.eq_nil_or_concat (nesting.children parent) with none | ⟨front, last, shape⟩
    · simp [none]
    · rw [List.concat_eq_append] at shape
      have ordered := treelike.ordered parent
      rw [shape] at ordered
      have below := (List.pairwise_append.mp ordered).2.2
      have apart : child ∈ front → last ≠ child := fun member same =>
        Nat.ne_of_lt (below child member last (by simp)) same.symm
      rw [shape, List.dropLast_concat, List.getLast?_concat, List.mem_append, List.mem_singleton]
      simp only [ne_eq, Option.some.injEq]
      grind
  · rw [if_neg same]
    refine ⟨fun member => ⟨member, fun last => same ?_⟩, And.left⟩
    exact treelike.parent_unique (List.mem_of_getLast? last) member

theorem Treelike.removeLastChild (treelike : nesting.Treelike detached) (parent : Nat) :
    (nesting.removeLastChild parent).2.Treelike
      ((nesting.removeLastChild parent).1.toList ++ detached) := by
  have members {node child : Nat} : child ∈ (nesting.removeLastChild parent).2.children node ↔
      child ∈ nesting.children node ∧ (nesting.children parent).getLast? ≠ some child :=
    treelike.mem_removeLastChild parent
  rw [removeLastChild_fst]
  constructor
  case rooted => simpa using treelike.rooted
  case inside =>
    intro node child member
    rw [size_removeLastChild]
    exact treelike.inside (members.mp member).1
  case younger =>
    intro node child member
    exact treelike.younger (members.mp member).1
  case linked =>
    intro node child
    rw [members, treelike.linked, parent?_removeLastChild]
    split
    · next last => simp [last]
    · next kept => simp [kept]
  case ordered =>
    intro node
    rw [children_removeLastChild]
    split
    · exact (treelike.ordered parent).sublist (List.dropLast_sublist _)
    · exact treelike.ordered node
  case parentless =>
    intro node within
    rw [size_removeLastChild] at within
    rw [parent?_removeLastChild, List.mem_append, Option.mem_toList]
    split
    · next last => simp [last]
    · next kept => simp [kept, treelike.parentless within]
  case gone =>
    intro node member
    rw [size_removeLastChild]
    rcases List.mem_append.mp member with last | before
    · have member := List.mem_of_getLast? (Option.mem_toList.mp last)
      exact ⟨Nat.zero_lt_of_lt (treelike.younger member), treelike.inside member⟩
    · exact treelike.gone before

theorem Treelike.setValue (treelike : nesting.Treelike detached) (node : Nat) (value : α) :
    (nesting.setValue node value).Treelike detached := by
  obtain ⟨rooted, inside, younger, linked, ordered, parentless, gone⟩ := treelike
  constructor <;> simpa only [size_setValue, children_setValue, parent?_setValue]

theorem Built.treelike (built : nesting.Built detached) : nesting.Treelike detached := by
  induction built with
  | single value => exact treelike_single value
  | addChild built parent value inside ih => exact ih.addChild inside value
  | removeLastChild built parent ih => exact ih.removeLastChild parent
  | setValue built node value ih => exact ih.setValue node value

private theorem Treelike.le_of_under (treelike : nesting.Treelike detached)
    (under : nesting.Under ancestor node) : ancestor ≤ node := by
  induction under with
  | refl => exact Nat.le_refl _
  | tail under edge ih => exact Nat.le_trans ih (Nat.le_of_lt (treelike.younger edge))

private theorem Treelike.lt_size_of_under (treelike : nesting.Treelike detached)
    (under : nesting.Under ancestor node) (inside : ancestor < nesting.nodes.size) :
    node < nesting.nodes.size := by
  cases under with
  | refl => exact inside
  | tail under edge => exact treelike.inside edge

/-- Going up from a node there is one way only. -/
theorem Treelike.under_or_under (treelike : nesting.Treelike detached)
    (under : nesting.Under ancestor node) (under' : nesting.Under other node) :
    nesting.Under ancestor other ∨ nesting.Under other ancestor := by
  have unique : Relator.RightUnique (Function.swap nesting.Edge) :=
    fun _ _ _ edge edge' => treelike.parent_unique edge edge'
  rcases Relation.ReflTransGen.total_of_right_unique unique
    (Relation.reflTransGen_swap.mpr under) (Relation.reflTransGen_swap.mpr under') with up | up
  · exact .inr (Relation.reflTransGen_swap.mp up)
  · exact .inl (Relation.reflTransGen_swap.mp up)

/-- Two nodes of one parent, or two without any, have nothing below them in common. -/
theorem Treelike.eq_of_under (treelike : nesting.Treelike detached)
    (siblings : nesting.parent? ancestor = nesting.parent? other)
    (under : nesting.Under ancestor node) (under' : nesting.Under other node) :
    ancestor = other := by
  have apart {first second : Nat} (siblings : nesting.parent? first = nesting.parent? second)
      (under : nesting.Under first second) : first = second := by
    cases under with
    | refl => rfl
    | @tail parent _ under edge =>
      have younger := treelike.younger (treelike.linked.mpr
        (siblings.trans (treelike.linked.mp edge)))
      have order := treelike.le_of_under under
      omega
  rcases treelike.under_or_under under under' with down | down
  · exact apart siblings down
  · exact (apart siblings.symm down).symm

/-- A node is out of reach exactly if it was taken off or hangs below one that was. -/
theorem Treelike.under_root_iff (treelike : nesting.Treelike detached) :
    nesting.Under root node ↔
      node < nesting.nodes.size ∧ ∀ gone ∈ detached, ¬nesting.Under gone node := by
  have orphan {gone : Nat} (member : gone ∈ detached) : nesting.parent? gone = none :=
    (treelike.parentless (treelike.gone member).2).mpr (.inr member)
  constructor
  · intro reached
    refine ⟨treelike.lt_size_of_under reached treelike.rooted, fun gone member under => ?_⟩
    have free := (treelike.parentless treelike.rooted).mpr (.inl rfl)
    have same := treelike.eq_of_under (free.trans (orphan member).symm) reached under
    exact Nat.ne_of_lt (treelike.gone member).1 same
  · -- By induction over the nodes: a parent comes before its children.
    induction node using Nat.strong_induction_on with
    | _ node ih =>
      rintro ⟨inside, kept⟩
      cases up : nesting.parent? node with
      | none =>
        rcases (treelike.parentless inside).mp up with rfl | member
        · exact .refl
        · exact absurd .refl (kept node member)
      | some parent =>
        have edge := treelike.linked.mpr up
        have younger := treelike.younger edge
        have reached := ih parent younger
          ⟨by omega, fun gone member under => kept gone member (under.tail edge)⟩
        exact reached.tail edge

theorem Lists.mem_iff (lists : nesting.Lists roots order) :
    node ∈ order ↔ ∃ top ∈ roots, nesting.Under top node := by
  induction lists with
  | nil => simp
  | @cons top roots inner rest below beside belowIh besideIh =>
    rw [List.mem_append, List.mem_cons, belowIh, besideIh]
    have down : nesting.Under top node ↔
        top = node ∨ ∃ child ∈ nesting.children top, nesting.Under child node :=
      Relation.ReflTransGen.cases_head_iff
    simp only [List.mem_cons, exists_eq_or_imp, down]
    grind

theorem Lists.unique {order' : List Nat} (lists : nesting.Lists roots order)
    (lists' : nesting.Lists roots order') : order' = order := by
  induction lists generalizing order' with
  | nil =>
    cases lists'
    rfl
  | cons below beside belowIh besideIh =>
    cases lists' with
    | cons below' beside' => rw [belowIh below', besideIh beside']

private theorem Treelike.exists_lists (treelike : nesting.Treelike detached) (node : Nat) :
    ∃ order, nesting.Lists (nesting.children node) order := by
  induction amount : nesting.nodes.size - node using Nat.strong_induction_on generalizing node with
  | _ amount ih =>
    have each (roots : List Nat) (part : ∀ child ∈ roots, child ∈ nesting.children node) :
        ∃ order, nesting.Lists roots order := by
      induction roots with
      | nil => exact ⟨[], .nil⟩
      | cons child roots besideIh =>
        obtain ⟨member, others⟩ := List.forall_mem_cons.mp part
        have younger := treelike.younger member
        have inside := treelike.inside member
        obtain ⟨inner, below⟩ := ih (nesting.nodes.size - child) (by omega) child rfl
        obtain ⟨rest, beside⟩ := besideIh others
        exact ⟨_, .cons below beside⟩
    exact each _ fun _ member => member

theorem Lists.nodup (treelike : nesting.Treelike detached) (lists : nesting.Lists roots order)
    {parent : Option Nat} (siblings : ∀ top ∈ roots, nesting.parent? top = parent)
    (once : roots.Nodup) : order.Nodup := by
  induction lists generalizing parent with
  | nil => exact List.nodup_nil
  | @cons top roots inner rest below beside belowIh besideIh =>
    obtain ⟨first, others⟩ := List.forall_mem_cons.mp siblings
    obtain ⟨new, once⟩ := List.nodup_cons.mp once
    have within : inner.Nodup := belowIh (fun _ member => treelike.linked.mp member)
      ((treelike.ordered top).imp Nat.ne_of_lt)
    have apart {node : Nat} (under : nesting.Under top node) : node ∉ rest := by
      intro member
      obtain ⟨second, listed, under'⟩ := beside.mem_iff.mp member
      have same := treelike.eq_of_under (first.trans (others second listed).symm) under under'
      exact new (same ▸ listed)
    have outside : top ∉ inner := by
      intro member
      obtain ⟨child, edge, under⟩ := below.mem_iff.mp member
      have younger := treelike.younger edge
      have order := treelike.le_of_under under
      omega
    refine List.nodup_append.mpr
      ⟨within, List.nodup_cons.mpr ⟨apart .refl, besideIh others once⟩, ?_⟩
    rintro node member node' member' rfl
    rcases List.mem_cons.mp member' with rfl | later
    · exact outside member
    · obtain ⟨child, edge, under⟩ := below.mem_iff.mp member
      exact apart (.head edge under) later

private theorem Lists.roots_sublist (lists : nesting.Lists roots order) : roots <+ order := by
  induction lists with
  | nil => exact .slnil
  | cons below beside belowIh besideIh =>
    exact (besideIh.cons_cons _).trans (List.sublist_append_right _ _)

/-- All that hangs below a node is listed right before it. -/
theorem Lists.infix_of_mem (lists : nesting.Lists roots order) (listed : node ∈ order) :
    ∃ inner, nesting.Lists (nesting.children node) inner ∧ inner ++ [node] <:+: order := by
  induction lists with
  | nil => cases listed
  | @cons top roots inner rest below beside belowIh besideIh =>
    rcases List.mem_append.mp listed with inside | outside
    · obtain ⟨deeper, within, part⟩ := belowIh inside
      exact ⟨deeper, within, part.trans (List.prefix_append _ _).isInfix⟩
    · rcases List.mem_cons.mp outside with rfl | later
      · exact ⟨inner, below, [], rest, by simp⟩
      · obtain ⟨deeper, within, part⟩ := besideIh later
        have after := (List.suffix_cons top rest).trans (List.suffix_append inner _)
        exact ⟨deeper, within, part.trans after.isInfix⟩

private theorem Lists.children_sublist (lists : nesting.Lists roots order) (listed : node ∈ order) :
    nesting.children node <+ order := by
  obtain ⟨inner, below, part⟩ := lists.infix_of_mem listed
  exact (below.roots_sublist.trans (List.sublist_append_left _ _)).trans part.sublist

private theorem Lists.below_sublist (lists : nesting.Lists roots order) (listed : ancestor ∈ order)
    (below : nesting.Below ancestor node) : [node, ancestor] <+ order := by
  obtain ⟨inner, within, part⟩ := lists.infix_of_mem listed
  have first : node ∈ inner := within.mem_iff.mpr (Relation.TransGen.head'_iff.mp below)
  exact ((List.singleton_sublist.mpr first).append_right [ancestor]).trans part.sublist

/-- The order is the one that is defined by recursion over the nodes that can be reached. -/
structure Postorder (nesting : Nesting α) (order : List Nat) : Prop where
  recursive : ∀ order', nesting.Lists [root] order' ↔ order' = order
  once : order.Nodup
  reached : ∀ node, node ∈ order ↔ nesting.Under root node
  upward : ∀ ancestor ∈ order, ∀ node, nesting.Below ancestor node → [node, ancestor] <+ order
  beside : ∀ node ∈ order, nesting.children node <+ order

private theorem Treelike.lists_postorder (treelike : nesting.Treelike detached) :
    nesting.Lists [root] nesting.postorder := by
  obtain ⟨inner, below⟩ := treelike.exists_lists root
  have lists : nesting.Lists [root] (inner ++ [root]) := .cons below .nil
  have once : (inner ++ [root]).Nodup :=
    lists.nodup treelike (fun _ member => congrArg _ (List.mem_singleton.mp member))
      (List.nodup_singleton _)
  rw [postorder_eq lists once]
  · exact lists
  · intro node member
    obtain ⟨top, listed, under⟩ := lists.mem_iff.mp member
    obtain rfl := List.mem_singleton.mp listed
    exact treelike.lt_size_of_under under treelike.rooted

theorem Treelike.postorder (treelike : nesting.Treelike detached) :
    nesting.Postorder nesting.postorder where
  recursive := by
    intro order
    refine ⟨fun lists => treelike.lists_postorder.unique lists, ?_⟩
    rintro rfl
    exact treelike.lists_postorder
  once := treelike.lists_postorder.nodup treelike
    (fun _ member => congrArg _ (List.mem_singleton.mp member)) (List.nodup_singleton _)
  reached := by
    intro node
    rw [treelike.lists_postorder.mem_iff]
    simp
  upward := fun _ listed _ below => treelike.lists_postorder.below_sublist listed below
  beside := fun _ listed => treelike.lists_postorder.children_sublist listed

private theorem Treelike.turn_inside (treelike : nesting.Treelike detached) {walk : Walk}
    (inside : ∀ entry ∈ walk.stack, entry.1 < nesting.nodes.size) :
    ∀ entry ∈ (nesting.turn walk).stack, entry.1 < nesting.nodes.size := by
  obtain ⟨stack, order⟩ := walk
  cases stack with
  | nil => exact inside
  | cons entry stack =>
    obtain ⟨node, visited⟩ := entry
    obtain ⟨innermost, outer⟩ := List.forall_mem_cons.mp inside
    simp only [turn]
    split
    · next child next =>
      have edge := List.mem_of_getElem? next
      exact List.forall_mem_cons.mpr
        ⟨treelike.inside edge, List.forall_mem_cons.mpr ⟨innermost, outer⟩⟩
    · exact outer

private theorem Treelike.turns_inside (treelike : nesting.Treelike detached) (turns : Nat) :
    ∀ entry ∈ (nesting.turn^[turns] .start).stack, entry.1 < nesting.nodes.size := by
  induction turns with
  | zero =>
    intro entry member
    rw [List.mem_singleton.mp member]
    exact treelike.rooted
  | succ turns ih =>
    rw [Function.iterate_succ_apply']
    exact treelike.turn_inside ih

/-- The walk comes to an end and has listed the tree in postorder then. -/
theorem walked_in_postorder (built : nesting.Built detached) :
    nesting.Treelike detached ∧
      (∀ child node, nesting.parent? child = some node → node < nesting.nodes.size) ∧
      (∀ child node other, child ∈ nesting.children node → child ∈ nesting.children other →
        node = other) ∧
      nesting.Postorder nesting.postorder ∧
      (∀ node, node ∈ nesting.postorder ↔
        node < nesting.nodes.size ∧ ∀ gone ∈ detached, ¬nesting.Under gone node) ∧
      nesting.turn^[2 * nesting.postorder.length - 1] .start = ⟨[], nesting.postorder⟩ ∧
      ∀ turns, ∀ entry ∈ (nesting.turn^[turns] .start).stack, entry.1 < nesting.nodes.size := by
  have treelike := built.treelike
  refine ⟨treelike, ?_, ?_, treelike.postorder, ?_, treelike.lists_postorder.turns_root,
    treelike.turns_inside⟩
  · intro child node up
    exact lt_size_of_mem_children (treelike.linked.mpr up)
  · intro child node other member member'
    exact treelike.parent_unique member member'
  · intro node
    rw [treelike.postorder.reached, treelike.under_root_iff]

/-- Node 4 was taken off with node 5 below it, and then the root was given another child. -/
def pruned : Nesting String :=
  let grown := ((((single "root").addChild 0 "first").2.addChild 1 "left").2.addChild 1 "right").2
  let crowded := ((grown.addChild 0 "rolled back").2.addChild 4 "inside").2
  ((crowded.removeLastChild 0).2.addChild 0 "second").2

theorem walked_in_postorder_pruned :
    pruned.Built [4] ∧ pruned.postorder = [2, 3, 1, 6, 0] ∧
      pruned.Treelike [4] ∧ pruned.Postorder [2, 3, 1, 6, 0] ∧ ¬pruned.Under root 5 ∧
      pruned.turn^[9] .start = ⟨[], [2, 3, 1, 6, 0]⟩ := by
  have grown := (((Built.single "root").addChild 0 "first" (by decide)).addChild 1 "left"
    (by decide)).addChild 1 "right" (by decide)
  have crowded := (grown.addChild 0 "rolled back" (by decide)).addChild 4 "inside" (by decide)
  have built : pruned.Built [4] := (crowded.removeLastChild 0).addChild 0 "second" (by decide)
  have listed : pruned.postorder = [2, 3, 1, 6, 0] := by decide
  obtain ⟨treelike, _, _, order, kept, ended, _⟩ := walked_in_postorder built
  rw [listed] at order kept ended
  refine ⟨built, listed, treelike, order, ?_, ended⟩
  rw [← order.reached]
  decide

end TransactionalMemory.Nesting
