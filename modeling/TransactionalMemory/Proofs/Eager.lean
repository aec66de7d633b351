import TransactionalMemory.Proofs.Question

/-! Entities whose bundles copy eagerly. A copy of such a bundle has a copy of every slot from the
start, so that slots are never shared, need no identity of their own, and nothing has to be said
about how an untouched one is to be copied. The flags only say which slots were reached. -/
namespace TransactionalMemory

structure EagerSlot (E : Type) where
  accessed : Bool
  content : E

inductive Eager where
  | cell (cell : Cell Value)
  | table (table : Table String Value)
  | multimap (multimap : Multimap String String)
  | queue (queue : Queue Value)
  | bundle (slots : List (EagerSlot Eager))
  | snapshot (snapshot : Snapshot Eager)

namespace Eager
open Entity (Kind Merged expected)

def kind : Eager → Kind
  | .cell _ => .cell
  | .table _ => .table
  | .multimap _ => .multimap
  | .queue _ => .queue
  | .bundle _ => .bundle
  | .snapshot _ => .snapshot

def flags : Eager → List Bool
  | .cell inner => [inner.accessed, inner.updated]
  | .table inner => [inner.accessedWhole]
  | .multimap _ => []
  | .queue _ => []
  | .bundle slots => slots.map (·.accessed)
  | .snapshot inner => [inner.globals.accessedWhole]

mutual

def copy (mode : CopyMode) : Eager → Eager
  | .cell inner => .cell (inner.copy mode)
  | .table inner => .table (inner.copy mode)
  | .multimap inner => .multimap (inner.copy mode)
  | .queue inner => .queue (inner.copy mode)
  | .bundle slots => .bundle (copySlots mode slots)
  | .snapshot ⟨timestamp, data, globals⟩ => .snapshot ⟨timestamp, data.copy mode, globals.copy mode⟩

/-- Every slot is copied; in a clean copy none counts as accessed. -/
def copySlots (mode : CopyMode) : List (EagerSlot Eager) → List (EagerSlot Eager)
  | [] => []
  | ⟨accessed, content⟩ :: slots =>
    ⟨accessed && mode = .dirty, content.copy mode⟩ :: copySlots mode slots

end

def perform (fresh : Identity) (entity : Eager) (request : Request) : Option (Reply × Eager) :=
  match entity, request with
  | .cell inner, .cell request => some ((inner.perform request).map .object .cell)
  | .table inner, .table request => some ((inner.perform request).map .table .table)
  | .multimap inner, .multimap request =>
    some ((inner.perform fresh request).map .multimap .multimap)
  | .queue inner, .queue request => some ((inner.perform request).map .queue .queue)
  | .snapshot inner, .globals request =>
    some ((inner.globals.perform request).map .globals
      fun globals => .snapshot {inner with globals})
  | _, _ => none

def act : Query → Identity → Eager → Option (Finding × Eager)
  | .request asked, fresh, entity =>
    (entity.perform fresh asked).map fun answer => answer.map .reply id
  | .flags kind, _, entity =>
    if entity.kind = kind then some (.flags entity.flags, entity) else none
  | .timestamp, _, .snapshot inner => some (.timestamp inner.timestamp, .snapshot inner)
  | .timestamp, _, _ => none

/-- Every slot on the way is flagged, and that is all there is to reaching it. -/
def visit {α : Type} (seed : Identity) (target : Kind)
    (act : Identity → Eager → Option (α × Eager)) :
    List Hop → Eager → Option (Except Failure α) × Eager
  | [], entity =>
    match act seed entity with
    | some (answer, changed) => (some (.ok answer), changed)
    | none => (none, entity)
  | .slot index handle :: path, .bundle slots =>
    match slots[index]? with
    | none => (some (.error (.breach (.slotMissing index))), .bundle slots)
    | some slot =>
      if slot.content.kind = handle.getD (expected target path) then
        (visit (seed.child index) target act path slot.content).map id fun content =>
          .bundle (slots.set index ⟨true, content⟩)
      else (some (.error (.breach (.slotKind index))), .bundle slots)
  | .data :: path, .snapshot inner =>
    (visit (seed.child 0) target act path inner.data).map id fun data => .snapshot {inner with data}
  | _, entity => (none, entity)

def settle {α : Type} (wrap : α → Eager) (before : α) : Except Failure α → Merged Eager
  | .ok after => (none, wrap after)
  | .error failure => (some failure, wrap before)

mutual

def merge (mode : MergeMode) : (branch target : Eager) → Merged Eager
  | .cell branch, .cell target => settle .cell target (branch.merge mode target)
  | .table branch, .table target => settle .table target (branch.merge mode target)
  | .multimap branch, .multimap target => settle .multimap target (branch.merge mode target)
  | .queue branch, .queue target => settle .queue target (branch.merge mode target)
  | .bundle branch, .bundle slots =>
    if branch.length = slots.length then (mergeSlots mode branch slots).map id .bundle
    else (some (.breach .mergeLayout), .bundle slots)
  | .snapshot ⟨timestamp, data, globals⟩, .snapshot target =>
    if target.timestamp = timestamp then
      match data.merge mode target.data with
      | (some failure, merged) => (some failure, .snapshot {target with data := merged})
      | (none, merged) =>
        settle (fun hosted => .snapshot ⟨target.timestamp, merged, hosted⟩) target.globals
          (globals.merge mode target.globals)
    else (some (.breach .foreignSnapshot), .snapshot target)
  | _, target => (some (.breach .mergeKind), target)

def mergeSlots (mode : MergeMode) :
    (branch slots : List (EagerSlot Eager)) → Merged (List (EagerSlot Eager))
  | ⟨true, content⟩ :: branch, slot :: slots =>
    match content.merge mode slot.content with
    | (some failure, merged) => (some failure, ⟨true, merged⟩ :: slots)
    | (none, merged) => (mergeSlots mode branch slots).map id (⟨true, merged⟩ :: ·)
  | ⟨false, _⟩ :: branch, slot :: slots => (mergeSlots mode branch slots).map id (slot :: ·)
  | _, slots => (none, slots)

end

mutual

def commit (fresh : Identity) : (entity latest : Eager) → Except Failure Eager
  | .cell inner, .cell latest => (inner.commit latest).map .cell
  | .table inner, .table latest => (inner.commit fresh latest).map .table
  | .multimap inner, .multimap latest => (inner.commit fresh latest).map .multimap
  | .queue inner, .queue latest => (inner.commit fresh latest).map .queue
  | .bundle slots, .bundle latest =>
    if latest.length ≠ slots.length then .error (.breach .commitLayout)
    else if latest.any (·.accessed) then .error (.misuse .bundleUncommitted)
    else (commitSlots fresh 0 slots latest).map .bundle
  | .snapshot ⟨_, data, globals⟩, .snapshot latest => do
    let data ← data.commit (fresh.child 0) latest.data
    let globals ← globals.commit (fresh.child 1) latest.globals
    return .snapshot ⟨latest.timestamp + 1, data, globals⟩
  | _, _ => .error (.breach .commitKind)

def commitSlots (fresh : Identity) (index : Nat) :
    (slots latest : List (EagerSlot Eager)) → Except Failure (List (EagerSlot Eager))
  | ⟨true, content⟩ :: slots, slot :: latest => do
    let committed ← content.commit (fresh.child index) slot.content
    let rest ← commitSlots fresh (index + 1) slots latest
    return ⟨false, committed⟩ :: rest
  | ⟨false, _⟩ :: slots, slot :: latest => do
    let rest ← commitSlots fresh (index + 1) slots latest
    return ⟨false, slot.content⟩ :: rest
  | _, latest => .ok latest

end

end Eager

/-- How entities of one sort are reached, asked, copied, merged and committed. The `others` are the
slots that are alive elsewhere. -/
structure Regime (E : Type) where
  visit : ∀ {α : Type}, (others : List (Slot Entity)) → Identity → Entity.Kind →
    (Identity → E → Option (α × E)) → List Hop → E → Option (Except Failure α) × E
  act : Query → Identity → E → Option (Finding × E)
  copy : Identity → CopyMode → E → E
  merge : (others : List (Slot Entity)) → Identity → MergeMode → (branch target : E) →
    Entity.Merged E
  commit : Identity → (entity latest : E) → Except Failure E

def Regime.lazy : Regime Entity where
  visit := Entity.visit
  act := Query.act
  copy := Entity.copy
  merge := Entity.merge
  commit := Entity.commit

def Regime.eager : Regime Eager where
  visit := fun _ => Eager.visit
  act := Eager.act
  copy := fun _ => Eager.copy
  merge := fun _ _ => Eager.merge
  commit := Eager.commit

/-- A place in one of the entities, and the kind of entity that is expected there. -/
structure Spot where
  holder : Nat
  path : List Hop
  kind : Entity.Kind

/-- What can be done with a pool of entities. A copy and what comes of a commit join the pool; a
branch leaves it once it is merged. -/
inductive Operation where
  | ask (spot : Spot) (query : Query)
  | copy (spot : Spot) (mode : CopyMode)
  | merge (branch : Nat) (spot : Spot) (mode : MergeMode)
  | commit (spot latest : Spot)

/-- A finding, a success without one, a refusal, or nothing if the operation does not fit. -/
abbrev Upshot := Option (Except Failure (Option Finding))

/-- Goes on with what was reached. -/
def Upshot.follow {α E : Type} (next : α → List E → Upshot × List E) :
    Option (Except Failure α) × List E → Upshot × List E
  | (some (.ok value), pool) => next value pool
  | (some (.error failure), pool) => (some (.error failure), pool)
  | (none, pool) => (none, pool)

namespace Regime
variable {E : Type} (regime : Regime E)

def reach {α : Type} (others : List (Slot Entity)) (seed : Identity) (spot : Spot)
    (act : Identity → E → Option (α × E)) (pool : List E) : Option (Except Failure α) × List E :=
  match pool[spot.holder]? with
  | none => (none, pool)
  | some entity =>
    (regime.visit others seed spot.kind act spot.path entity).map id (pool.set spot.holder ·)

/-- What is alive elsewhere may be something else at every step; it is known by the seed. -/
def operate (alive : Identity → List (Slot Entity)) (seed : Identity) :
    Operation → List E → Upshot × List E
  | .ask spot query, pool =>
    Upshot.follow (fun finding pool => (some (.ok (some finding)), pool))
      (regime.reach (alive (seed.child 0)) (seed.child 0) spot (regime.act query) pool)
  | .copy spot mode, pool =>
    Upshot.follow
      (fun entity pool => (some (.ok none), pool ++ [regime.copy (seed.child 1) mode entity]))
      (regime.reach (alive (seed.child 0)) (seed.child 0) spot
        (fun _ entity => some (entity, entity)) pool)
  | .merge branch spot mode, pool =>
    match pool[branch]? with
    | none => (none, pool)
    | some entity =>
      Upshot.follow
        (fun refusal pool =>
          (some (refusal.elim (.ok none) .error), pool.eraseIdx branch))
        (regime.reach (alive (seed.child 0)) (seed.child 0) spot
          (fun fresh target => some (regime.merge (alive (seed.child 1)) fresh mode entity target))
          pool)
  | .commit spot latest, pool =>
    Upshot.follow
      (fun entity pool =>
        Upshot.follow
          (fun latest pool =>
            match regime.commit (seed.child 2) entity latest with
            | .ok next => (some (.ok none), pool ++ [next])
            | .error failure => (some (.error failure), pool))
          (regime.reach (alive (seed.child 1)) (seed.child 1) latest
            (fun _ entity => some (entity, entity)) pool))
      (regime.reach (alive (seed.child 0)) (seed.child 0) spot
        (fun _ entity => some (entity, entity)) pool)

def run (alive : Identity → List (Slot Entity)) :
    List Operation → Identity → List E → List Upshot × List E
  | [], _, pool => ([], pool)
  | operation :: operations, seed, pool =>
    let (upshot, pool) := regime.operate alive (seed.child 0) operation pool
    (run alive operations (seed.child 1) pool).map (upshot :: ·) id

end Regime
end TransactionalMemory
