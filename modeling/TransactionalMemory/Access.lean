import TransactionalMemory.Entity

/-! Reaching an entity inside another one and asking it for something. A path goes through the
slots of bundles and into the data of snapshots; every slot on the way counts as accessed from
then on, whatever becomes of the request. -/
namespace TransactionalMemory

/-- A step of a path. A slot may be reached through a handle, which knows the kind of its entity. -/
inductive Hop where
  | slot (index : Nat) (handle : Option Entity.Kind)
  | data

/-- What is asked of an entity of one of the kinds that can be asked. -/
inductive Request where
  | cell (request : Cell.Request Value)
  | table (request : Table.Request String Value)
  | multimap (request : Multimap.Request String String)
  | queue (request : Queue.Request Value)
  | globals (request : Table.Request Nat Value)

inductive Reply where
  | object (previous : Object Value)
  | table (reply : Table.Reply String Value)
  | multimap (reply : Multimap.Reply String String)
  | queue (reply : Queue.Reply Value)
  | globals (reply : Table.Reply Nat Value)

def Request.kind : Request → Entity.Kind
  | .cell _ => .cell
  | .table _ => .table
  | .multimap _ => .multimap
  | .queue _ => .queue
  | .globals _ => .snapshot

namespace Entity

/-- An entity answers the requests of its own kind only. -/
def perform (fresh : Identity) (entity : Entity) (request : Request) : Option (Reply × Entity) :=
  match entity, request with
  | .cell inner, .cell request => some ((inner.perform request).map .object .cell)
  | .table inner, .table request => some ((inner.perform request).map .table .table)
  | .multimap inner, .multimap request =>
    some ((inner.perform fresh request).map .multimap .multimap)
  | .queue inner, .queue request => some ((inner.perform request).map .queue .queue)
  | .snapshot inner, .globals request =>
    some ((inner.globals.perform request).map .globals
      fun globals => .snapshot {inner with globals})
  | _, _ => none

/-- The kind that a slot has to hold for the rest of the path to make sense. -/
def expected (target : Kind) : List Hop → Kind
  | [] => target
  | .slot .. :: _ => .bundle
  | .data :: _ => .snapshot

/-- Acts on the entity of kind `target` at the end of a path. A slot that is missing or of another
kind refuses before it is reached. There is no answer if the path does not fit the entities on
the way, or if the action does not fit the last one. The `others` are the slots that are alive
besides those of the entity. -/
def visit {α : Type} (others : List (Slot Entity)) (seed : Identity) (target : Kind)
    (act : Identity → Entity → Option (α × Entity)) :
    List Hop → Entity → Option (Except Failure α) × Entity
  | [], entity =>
    match act seed entity with
    | some (answer, changed) => (some (.ok answer), changed)
    | none => (none, entity)
  | .slot index handle :: path, .bundle slots rule =>
    match slots[index]? with
    | none => (some (.error (.breach (.slotMissing index))), .bundle slots rule)
    | some slot =>
      if slot.content.kind = handle.getD (expected target path) then
        let others' := slots.eraseIdx index ++ others
        let reached := slot.reach others' (seed.child index) rule
        (visit others' (seed.child index) target act path reached.content).map id fun content =>
          .bundle (slots.set index {reached with content}) rule
      else (some (.error (.breach (.slotKind index))), .bundle slots rule)
  | .data :: path, .snapshot inner =>
    (visit others (seed.child 0) target act path inner.data).map id fun data =>
      .snapshot {inner with data}
  | _, entity => (none, entity)

end Entity
end TransactionalMemory
