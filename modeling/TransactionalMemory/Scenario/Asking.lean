import TransactionalMemory.Scenario.Build

/-! The steps that ask an entity for something. New objects are made before the entity is reached,
so that reaching and asking is one action on it. -/
namespace TransactionalMemory.Scenario
open Attempted

structure Found where
  shown : Value
  object : Option (Object Value)

structure Action where
  kind : Entity.Kind
  act : Identity → Entity → Option (Except Failure Found × Entity)

def Found.unkept (found : Found) : Found :=
  {found with object := none}

def found (shown : Value) : Except Failure Found :=
  .ok ⟨shown, none⟩

def foundEntry (entry : Option (Object Value)) : Except Failure Found :=
  .ok ⟨ofOption (entry.map Object.content), entry⟩

/-- How the keys of a listing are shown: all of them, sorted, or the course of the iteration. -/
inductive ListingStyle where
  | keys
  | progress (shown : Bool)

def ListingStyle.show (style : ListingStyle) (sorted : List Value) (visible taken : Nat)
    (ended : Bool) : Value :=
  match style with
  | .keys => .list sorted
  | .progress shown => .record ([("hint", .list [ofNat visible, ofNat visible]),
      ("taken", ofNat taken), ("ended", .boolean ended)]
    ++ if shown then [("keys", .list sorted)] else [])

section
variable {K V : Type} [Ord K] [Std.TransOrd K]

def showListing (style : ListingStyle) (write : K → Value) (listing : Table.Listing K) : Value :=
  style.show ((Std.ExtTreeSet.ofList listing.taken).toList.map write) listing.visible
    listing.taken.length listing.ended

def foundInTable (style : ListingStyle) (write : K → Value) :
    Table.Reply K Value → Except Failure Found
  | .entry entry => foundEntry entry
  | .flag truth => found (.boolean truth)
  | .count number => found (ofNat number)
  | .listing listing => found (showListing style write listing)
  | .done => found .null

end

def foundInMultimap (style : ListingStyle) : Multimap.Reply String String → Except Failure Found
  | .values set => found (ofKeys set)
  | .flag truth => found (.boolean truth)
  | .count number => found (ofNat number)
  | .listing listing => found (showListing style .text listing)
  | .done => found .null

def foundInQueue : Queue.Reply Value → Except Failure Found
  | .item item => found (ofOption item)
  | .demanded (.ok item) => found (.list [item])
  | .demanded (.error failure) => .error failure
  | .flag truth => found (.boolean truth)
  | .count number => found (ofNat number)
  | .items all => found (.list all)
  | .done => found .null

/-- Hosted values are not among the objects that a scenario can keep. -/
def foundIn (style : ListingStyle) : Reply → Except Failure Found
  | .object object => .ok ⟨object.content, some object⟩
  | .table reply => foundInTable style .text reply
  | .multimap reply => foundInMultimap style reply
  | .queue reply => foundInQueue reply
  | .globals reply => (foundInTable style ofNat reply).map .unkept

namespace Action

def ofRequest (request : Request) (style : ListingStyle) : Action where
  kind := request.kind
  act := fun fresh entity => (entity.perform fresh request).map fun answer =>
    answer.map (foundIn style) id

/-- Looks without leaving a trace in the entity itself. -/
def inspection (kind : Entity.Kind) (look : Entity → Option Value) : Action where
  kind := kind
  act := fun _ entity => (look entity).map fun shown => (found shown, entity)

/-- The value that a reply hands out; an entry that is missing counts as null. -/
def valueIn : Reply → Value
  | .object object => object.content
  | .table (.entry (some object)) => object.content
  | .globals (.entry (some object)) => object.content
  | _ => .null

/-- Reads a value and writes the sum of it and the amount. There is no object to keep. -/
def addition (identity : Identity) (amount : Int) (read : Request)
    (write : Object Value → Request) : Action where
  kind := read.kind
  act := fun fresh entity => do
    let (previous, entity) ← entity.perform fresh read
    let (reply, entity) ← entity.perform fresh (write ⟨identity, (valueIn previous).plus amount⟩)
    return ((foundIn .keys reply).map .unkept, entity)

/-- Shows the answer of a second action, which acts after the first. There is no object to keep. -/
def followedBy (first second : Action) : Action where
  kind := first.kind
  act := fun fresh entity => do
    let (_, entity) ← first.act fresh entity
    let (answer, entity) ← second.act fresh entity
    return (answer.map .unkept, entity)

end Action

def cellAction : CellAsk → Attempted Action
  | .deref => return .ofRequest (.cell .deref) .keys
  | .assoc given => return .ofRequest (.cell (.assoc (← object given))) .keys
  | .add amount => do
    let sum := Action.addition (← Session.mint) amount (.cell .deref) fun object =>
      .cell (.assoc object)
    return sum.followedBy (.ofRequest (.cell .deref) .keys)
  | .flags => return .inspection .cell fun entity =>
    match entity with
    | .cell cell => some (.record
        [("accessed", .boolean cell.accessed), ("updated", .boolean cell.updated)])
    | _ => none

structure Target (K : Type) where
  request : Table.Request K Value → Request
  kind : Entity.Kind
  seenWhole : Entity → Option Bool

def tableTarget : Target String where
  request := .table
  kind := .table
  seenWhole := fun entity =>
    match entity with
    | .table table => some table.accessedWhole
    | _ => none

def globalsTarget : Target Nat where
  request := .globals
  kind := .snapshot
  seenWhole := fun entity =>
    match entity with
    | .snapshot snapshot => some snapshot.globals.accessedWhole
    | _ => none

def tableAction {K : Type} (target : Target K) : TableAsk K → Attempted Action
  | .get key => return .ofRequest (target.request (.get key)) .keys
  | .contains key => return .ofRequest (target.request (.contains key)) .keys
  | .put key given => return .ofRequest (target.request (.put key (← object given))) .keys
  | .putAll entries => return .ofRequest (target.request (.putAll (← wrapAll entries))) .keys
  | .remove key => return .ofRequest (target.request (.remove key)) .keys
  | .clear => return .ofRequest (target.request .clear) .keys
  | .size => return .ofRequest (target.request .size) .keys
  | .isEmpty => return .ofRequest (target.request .isEmpty) .keys
  | .keys => return .ofRequest (target.request (.keys none)) .keys
  | .progress limit shown =>
    return .ofRequest (target.request (.keys (some limit))) (.progress shown)
  | .add key amount => do
    let write (object : Object Value) : Request := target.request (.put key object)
    return .addition (← Session.mint) amount (target.request (.get key)) write
  | .seenWhole => return .inspection target.kind fun entity =>
      (target.seenWhole entity).map .boolean

def multimapAction : MultimapAsk → Action
  | .request request => .ofRequest (.multimap request) .keys
  | .keys => .ofRequest (.multimap (.keys none)) .keys
  | .progress limit shown => .ofRequest (.multimap (.keys (some limit))) (.progress shown)

def showBundle (slots : List (Slot Entity)) : BundleAsk → Value
  | .size => ofNat slots.length
  | .isEmpty => .boolean slots.isEmpty
  | .isAccessed index => .boolean ((slots[index]?).any (·.accessed))

def showSnapshot (snapshot : Snapshot Entity) : SnapshotAsk → Value
  | .timestamp => ofNat snapshot.timestamp
  | .contents mode => contentsOf mode (.snapshot snapshot)

def action : Ask → Attempted Action
  | .cell ask => cellAction ask
  | .table ask => tableAction tableTarget ask
  | .multimap ask => return multimapAction ask
  | .queue request => return .ofRequest (.queue request) .keys
  | .bundle ask => return .inspection .bundle fun entity =>
      match entity with
      | .bundle slots _ => some (showBundle slots ask)
      | _ => none
  | .snapshot ask => return .inspection .snapshot fun entity =>
      match entity with
      | .snapshot snapshot => some (showSnapshot snapshot ask)
      | _ => none
  | .globals ask => tableAction globalsTarget ask
  | .state kind => return .inspection kind fun entity =>
      if entity.kind = kind then some (stateOf entity) else none
  | .globalsState => return .inspection .snapshot fun entity =>
      match entity with
      | .snapshot snapshot => some (globalsState snapshot.globals)
      | _ => none

def hop : Leg → Attempted Hop
  | .slot index => return .slot index none
  | .handle bundle index => do
    let kinds ← demand "there are no such handles" (← get).layouts[bundle]?
    let kind ← demand "there is no such handle" kinds[index]?
    return .slot index (some kind)
  | .data => return .data

/-- Asks the entity at the end of a path. Whatever was reached on the way stays reached, also when
the request is refused. -/
def ask (path : Path) (question : Ask) (save : Option String) : Attempted Value := do
  let root ← entity path.root
  let hops ← path.legs.mapM hop
  let action ← action question
  let seed ← Session.mint
  let others ← Session.slotsBesides path.root
  let (answer, changed) := root.visit others seed action.kind action.act hops
  Session.setEntity changed path.root
  let found ← ofResult (← ofResult (← demand "the entity cannot be asked for this" answer))
  match save, found.object with
  | some name, some object =>
    modify fun world => {world with objects := world.objects.insert name object}
  | _, _ => pure ()
  return found.shown

end TransactionalMemory.Scenario
