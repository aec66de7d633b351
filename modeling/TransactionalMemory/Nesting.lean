/-! The tree of the transactions nested in an outer one. Nodes live in an array and know each other
by position; a node that was taken off its parent stays in the array, out of reach from the root.
The walk lists what is reachable, children before their parent, and keeps its own stack. -/
namespace TransactionalMemory

structure Nesting.Node (α : Type) where
  value : α
  parent : Option Nat
  children : List Nat

structure Nesting (α : Type) where
  nodes : Array (Nesting.Node α)

namespace Nesting
variable {α : Type}

def root : Nat := 0

def single (value : α) : Nesting α :=
  ⟨#[⟨value, none, []⟩]⟩

def children (nesting : Nesting α) (node : Nat) : List Nat :=
  match nesting.nodes[node]? with
  | some found => found.children
  | none => []

def parent? (nesting : Nesting α) (node : Nat) : Option Nat :=
  (nesting.nodes[node]?).bind Node.parent

def value? (nesting : Nesting α) (node : Nat) : Option α :=
  (nesting.nodes[node]?).map Node.value

def setValue (nesting : Nesting α) (node : Nat) (value : α) : Nesting α :=
  ⟨nesting.nodes.modify node fun found => {found with value}⟩

def addChild (nesting : Nesting α) (parent : Nat) (value : α) : Nat × Nesting α :=
  (nesting.nodes.size, ⟨(nesting.nodes.push ⟨value, some parent, []⟩).modify parent
    fun found => {found with children := found.children ++ [nesting.nodes.size]}⟩)

def removeLastChild (nesting : Nesting α) (parent : Nat) : Option Nat × Nesting α :=
  match (nesting.children parent).getLast? with
  | none => (none, nesting)
  | some child => (some child, ⟨(nesting.nodes.modify parent
      fun found => {found with children := found.children.dropLast}).modify child
      fun found => {found with parent := none}⟩)

/-- One turn of the walk for each entry that is ever put on the stack: a node is pushed once and
comes back once for each of its children. -/
def turns (nesting : Nesting α) : Nat :=
  (nesting.nodes.toList.map fun node => node.children.length + 1).foldr (· + ·) 0

/-- Each entry of the stack is a node with the number of its children already visited. -/
def walk (nesting : Nesting α) : (turns : Nat) → (stack : List (Nat × Nat)) → List Nat
  | 0, _ => []
  | _ + 1, [] => []
  | turns + 1, (node, visited) :: stack =>
    match (nesting.children node)[visited]? with
    | some child => nesting.walk turns ((child, 0) :: (node, visited + 1) :: stack)
    | none => node :: nesting.walk turns stack

/-- The nodes reachable from the root, children before their parent, siblings in the order in
which they were added. -/
def postorder (nesting : Nesting α) : List Nat :=
  nesting.walk nesting.turns [(root, 0)]

end Nesting
end TransactionalMemory
