import TransactionalMemory.Failure
import TransactionalMemory.Identity
import TransactionalMemory.Protocol

/-! A single value. The cell remembers the object it started from, the object it holds now, and
whether it was read or written; two cells conflict only if the former differs. -/
namespace TransactionalMemory

structure Cell (α : Type) where
  source : Object α
  current : Object α
  accessed : Bool
  updated : Bool

namespace Cell
variable {α : Type}

def ofObject (object : Object α) : Cell α :=
  ⟨object, object, false, false⟩

def deref (cell : Cell α) : Object α × Cell α :=
  (cell.current, {cell with accessed := true})

/-- Writing counts as reading, since the previous object is handed out. -/
def assoc (object : Object α) (cell : Cell α) : Object α × Cell α :=
  (cell.current, {cell with current := object, accessed := true, updated := true})

inductive Request (α : Type) where
  | deref
  | assoc (object : Object α)

def perform (cell : Cell α) : Request α → Object α × Cell α
  | .deref => cell.deref
  | .assoc object => cell.assoc object

def copy (cell : Cell α) : CopyMode → Cell α
  | .clean => ofObject cell.source
  | .dirty => cell

def sameSource (cell other : Cell α) : Bool :=
  cell.source.identity = other.source.identity

/-- The branch decides whether the cell counts as read, since it started from the cell's log. -/
def merge (mode : MergeMode) (branch cell : Cell α) : Except Failure (Cell α) :=
  if branch.sameSource cell then
    match mode with
    | .readsOnly => .ok {cell with accessed := branch.accessed}
    | .everything => .ok {cell with
        accessed := branch.accessed, updated := branch.updated, current := branch.current}
  else .error (.breach .foreignCell)

def commit (cell latest : Cell α) : Except Failure (Cell α) :=
  if latest.accessed then .error (.misuse .cellUncommitted)
  else if cell.accessed && !latest.sameSource cell then .error (.conflict .cellChanged)
  else if cell.updated then .ok (ofObject cell.current)
  else .ok (latest.copy .clean)

end Cell
end TransactionalMemory
