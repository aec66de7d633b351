import TransactionalMemory.Scenario.World

/-! Building the entities that a scenario designs. -/
namespace TransactionalMemory.Scenario

/-- Why a step has no answer of its own: the library refused it, or it makes no sense there. -/
inductive Trouble where
  | failure (failure : Failure)
  | nonsense (reason : String)

abbrev Attempted := ExceptT Trouble Session

namespace Attempted

def refuse {α : Type} (failure : Failure) : Attempted α :=
  throw (.failure failure)

def reject {α : Type} (reason : String) : Attempted α :=
  throw (.nonsense reason)

def ofResult {α : Type} : Except Failure α → Attempted α
  | .ok result => return result
  | .error failure => refuse failure

def demand {α : Type} (reason : String) : Option α → Attempted α
  | some found => return found
  | none => reject reason

def entity (place : Place) : Attempted Entity := do
  demand "there is no such entity" (← Session.entity? place)

def snapshot : Attempted (Snapshot Entity) := do
  demand "there is no running transaction" (← Session.snapshot?)

def keptObject (name : String) : Attempted (Object Value) := do
  demand "there is no such object" (← get).objects[name]?

def memory (name : String) : Attempted (Nat × Memory) := do
  demand "there is no such memory" (← Session.memory? name)

def handle (name : String) : Attempted GlobalHandle := do
  demand "there is no such handle" (← get).handles[name]?

def object : Given → Attempted (Object Value)
  | .fresh value => Session.newObject value
  | .kept name => keptObject name

def wrapAll {K : Type} (entries : List (K × Value)) : Attempted (List (K × Object Value)) :=
  entries.mapM fun entry => return (entry.1, ← Session.newObject entry.2)

end Attempted

open Attempted

/-- A multimap is filled through a copy of the empty one. -/
def buildMultimap (entries : List (String × List String)) : Attempted Entity := do
  let base : Multimap String String := .empty (← Session.mint)
  let filled ← entries.foldlM (fun copy entry =>
    return (copy.putAll (← Session.mint) entry.1 entry.2).2) (base.copy .clean)
  ofResult ((filled.commit (← Session.mint) base).map .multimap)

mutual

def build : Design → Attempted Entity
  | .cell initial => return .cell (.ofObject (← Session.newObject initial))
  | .cellOf kept => return .cell (.ofObject (← keptObject kept))
  | .table entries => return .table (.ofEntries (← Session.mint) (← wrapAll entries))
  | .multimap entries => buildMultimap entries
  | .queue items => return .queue (.ofItems (← Session.mint) items)
  | .bundle slots => do
    let contents ← buildAll slots
    ofResult (Entity.bundleOf (← Session.mint) contents)
  | .snapshot timestamp data globals => do
    let data ← build data
    return .snapshot ⟨timestamp, data, .ofEntries (← Session.mint) (← wrapAll globals)⟩
  | .variable name => do
    demand "there is no such entity" (← Session.takeVariable name)

def buildAll : List Design → Attempted (List Entity)
  | [] => return []
  | design :: designs => return (← build design) :: (← buildAll designs)

end

def slotKinds : Entity → Option (List Entity.Kind)
  | .bundle slots _ => some (slots.map fun slot => slot.content.kind)
  | _ => none

end TransactionalMemory.Scenario
