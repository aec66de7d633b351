import Std.Data.TreeSet.Basic
import TransactionalMemory.Cell
import TransactionalMemory.Multimap
import TransactionalMemory.Queue
import TransactionalMemory.Value

/-! Entities: cells, tables, multimaps, queues, bundles of entities, and snapshots, with the copy
protocol that they share. A bundle copies lazily. Copying it copies only the slots that were
accessed and records how an untouched slot is to be copied once somebody reaches it. -/
namespace TransactionalMemory

/-- What becomes of an untouched slot when it is reached: it is taken as it is, if no other bundle
holds it, or it is copied. -/
inductive SlotRule where
  | take
  | clean
  | dirty
deriving DecidableEq

structure Slot (E : Type) where
  identity : Identity
  accessed : Bool
  content : E

/-- Client data at a point in time, together with the values hosted outside of it. -/
structure Snapshot (D : Type) where
  /-- A word of 64 bits, kept as a number; the two agree below 2 ^ 64 commits. -/
  timestamp : Nat
  data : D
  globals : Table Nat Value

inductive Entity where
  | cell (cell : Cell Value)
  | table (table : Table String Value)
  | multimap (multimap : Multimap String String)
  | queue (queue : Queue Value)
  | bundle (slots : List (Slot Entity)) (rule : SlotRule)
  | snapshot (snapshot : Snapshot Entity)

inductive Entity.Kind where
  | cell
  | table
  | multimap
  | queue
  | bundle
  | snapshot
deriving DecidableEq

def CopyMode.rule : CopyMode → SlotRule
  | .clean => .clean
  | .dirty => .dirty

namespace Entity

def kind : Entity → Kind
  | .cell _ => .cell
  | .table _ => .table
  | .multimap _ => .multimap
  | .queue _ => .queue
  | .bundle .. => .bundle
  | .snapshot _ => .snapshot

def bundleOf (seed : Identity) (contents : List Entity) : Except Failure Entity :=
  if contents.isEmpty then .error (.breach .noSlots)
  else .ok (.bundle (contents.mapIdx fun index content => ⟨seed.child index, false, content⟩) .take)

mutual

def copy (seed : Identity) (mode : CopyMode) : Entity → Entity
  | .cell inner => .cell (inner.copy mode)
  | .table inner => .table (inner.copy mode)
  | .multimap inner => .multimap (inner.copy mode)
  | .queue inner => .queue (inner.copy mode)
  | .bundle slots _ => .bundle (copySlots seed mode 0 slots) mode.rule
  | .snapshot ⟨timestamp, data, globals⟩ =>
    .snapshot ⟨timestamp, data.copy (seed.child 0) mode, globals.copy mode⟩

/-- An accessed slot stays with its owner, so it is copied; an untouched one is shared. -/
def copySlots (seed : Identity) (mode : CopyMode) (index : Nat) :
    List (Slot Entity) → List (Slot Entity)
  | [] => []
  | ⟨identity, accessed, content⟩ :: slots =>
    (if accessed then
      ⟨seed.child index, mode = .dirty, content.copy (seed.child index) mode⟩
    else ⟨identity, false, content⟩) :: copySlots seed mode (index + 1) slots

end

def slots : Entity → List (Slot Entity)
  | .bundle slots _ => slots
  | .snapshot ⟨_, data, _⟩ => slots data
  | _ => []

mutual

/-- Looks for the slot `target` inside an entity. Unless it is there, the slots that have been seen
are handed on, so that a slot that many bundles share is looked into only once. -/
def seek (target : Identity) (seen : Std.TreeSet Identity) : Entity → Option (Std.TreeSet Identity)
  | .bundle slots _ => seekAmong target seen slots
  | .snapshot ⟨_, data, _⟩ => seek target seen data
  | _ => some seen

def seekAmong (target : Identity) (seen : Std.TreeSet Identity) :
    List (Slot Entity) → Option (Std.TreeSet Identity)
  | [] => some seen
  | ⟨identity, _, content⟩ :: slots =>
    if identity = target then none
    else if seen.contains identity then seekAmong target seen slots
    else
      match seek target (seen.insert identity) content with
      | none => none
      | some seen => seekAmong target seen slots

end

end Entity

/-- Whether a slot is also held by one of the `others`, or inside of one. -/
def Slot.isShared (others : List (Slot Entity)) (slot : Slot Entity) : Bool :=
  (Entity.seekAmong slot.identity ∅ others).isNone

/-- Makes a slot ready to be worked on. The `others` are the slots that are alive besides it. -/
def Slot.reach (others : List (Slot Entity)) (fresh : Identity) (rule : SlotRule)
    (slot : Slot Entity) : Slot Entity :=
  if slot.accessed then slot
  else match rule with
    | .take =>
      if slot.isShared others then ⟨fresh, true, slot.content.copy fresh .dirty⟩
      else {slot with accessed := true}
    | .dirty => ⟨fresh, true, slot.content.copy fresh .dirty⟩
    | .clean => ⟨fresh, true, slot.content.copy fresh .clean⟩

namespace Entity

/-- A merge stops at the first refusal and keeps what it has merged until then. -/
abbrev Merged (α : Type) := Option Failure × α

/-- A single entity is merged as a whole or not at all. -/
def settle {α : Type} (wrap : α → Entity) (before : α) : Except Failure α → Merged Entity
  | .ok after => (none, wrap after)
  | .error failure => (some failure, wrap before)

mutual

/-- Merges a branch, which is used up, into a target. The `others` are the slots that are alive
besides those of the two. -/
def merge (others : List (Slot Entity)) (seed : Identity) (mode : MergeMode) :
    (branch target : Entity) → Merged Entity
  | .cell branch, .cell target => settle .cell target (branch.merge mode target)
  | .table branch, .table target => settle .table target (branch.merge mode target)
  | .multimap branch, .multimap target => settle .multimap target (branch.merge mode target)
  | .queue branch, .queue target => settle .queue target (branch.merge mode target)
  | .bundle branch _, .bundle slots rule =>
    if branch.length = slots.length then
      (mergeSlots others seed mode rule 0 branch slots).map id (.bundle · rule)
    else (some (.breach .mergeLayout), .bundle slots rule)
  | .snapshot ⟨timestamp, data, globals⟩, .snapshot target =>
    if target.timestamp = timestamp then
      match data.merge others (seed.child 0) mode target.data with
      | (some failure, merged) => (some failure, .snapshot {target with data := merged})
      | (none, merged) =>
        settle (fun hosted => .snapshot ⟨target.timestamp, merged, hosted⟩) target.globals
          (globals.merge mode target.globals)
    else (some (.breach .foreignSnapshot), .snapshot target)
  | _, target => (some (.breach .mergeKind), target)

/-- Only what the branch has accessed is merged; the slot it goes into is reached for that. The
branch lets go of its slots one by one, so that the earlier ones no longer count as alive. -/
def mergeSlots (others : List (Slot Entity)) (seed : Identity) (mode : MergeMode) (rule : SlotRule)
    (index : Nat) : (branch slots : List (Slot Entity)) → Merged (List (Slot Entity))
  | ⟨_, true, content⟩ :: branch, slot :: slots =>
    let others' := slots ++ branch ++ others
    let reached := slot.reach (content.slots ++ others') (seed.child index) rule
    match content.merge others' (seed.child index) mode reached.content with
    | (some failure, merged) => (some failure, {reached with content := merged} :: slots)
    | (none, merged) =>
      let slot := {reached with content := merged}
      (mergeSlots (slot :: others) seed mode rule (index + 1) branch slots).map id (slot :: ·)
  | ⟨_, false, _⟩ :: branch, slot :: slots =>
    (mergeSlots (slot :: others) seed mode rule (index + 1) branch slots).map id (slot :: ·)
  | _, slots => (none, slots)

end

mutual

def commit (fresh : Identity) : (entity latest : Entity) → Except Failure Entity
  | .cell inner, .cell latest => (inner.commit latest).map .cell
  | .table inner, .table latest => (inner.commit fresh latest).map .table
  | .multimap inner, .multimap latest => (inner.commit fresh latest).map .multimap
  | .queue inner, .queue latest => (inner.commit fresh latest).map .queue
  | .bundle slots _, .bundle latest _ =>
    if latest.length ≠ slots.length then .error (.breach .commitLayout)
    else if latest.any (·.accessed) then .error (.misuse .bundleUncommitted)
    else (commitSlots fresh 0 slots latest).map (.bundle · .take)
  | .snapshot ⟨_, data, globals⟩, .snapshot latest => do
    let data ← data.commit (fresh.child 0) latest.data
    let globals ← globals.commit (fresh.child 1) latest.globals
    return .snapshot ⟨latest.timestamp + 1, data, globals⟩
  | _, _ => .error (.breach .commitKind)

/-- An untouched slot gives way to the latest one, which is shared. -/
def commitSlots (fresh : Identity) (index : Nat) :
    (slots latest : List (Slot Entity)) → Except Failure (List (Slot Entity))
  | ⟨_, true, content⟩ :: slots, slot :: latest => do
    let committed ← content.commit (fresh.child index) slot.content
    let rest ← commitSlots fresh (index + 1) slots latest
    return ⟨fresh.child index, false, committed⟩ :: rest
  | ⟨_, false, _⟩ :: slots, slot :: latest => do
    let rest ← commitSlots fresh (index + 1) slots latest
    return {slot with accessed := false} :: rest
  | _, latest => .ok latest

end

/-- Whether two entities of one kind start from the same objects; snapshots have no such notion. -/
def sameSource? : Entity → Entity → Option Bool
  | .cell inner, .cell other => some (inner.sameSource other)
  | .table inner, .table other => some (inner.sameSource other)
  | .multimap inner, .multimap other => some (inner.sameSource other)
  | .queue inner, .queue other => some (inner.sameSource other && inner.sameHead other)
  | .bundle slots _, .bundle other _ => some (slots.map (·.identity) = other.map (·.identity))
  | _, _ => none

end Entity

namespace Snapshot

def start (identity : Identity) (timestamp : Nat) (data : Entity) : Snapshot Entity :=
  ⟨timestamp, data, .ofEntries identity []⟩

def copy (seed : Identity) (mode : CopyMode) (snapshot : Snapshot Entity) : Snapshot Entity :=
  ⟨snapshot.timestamp, snapshot.data.copy (seed.child 0) mode, snapshot.globals.copy mode⟩

def merge (others : List (Slot Entity)) (seed : Identity) (mode : MergeMode)
    (branch target : Snapshot Entity) : Entity.Merged (Snapshot Entity) :=
  if target.timestamp = branch.timestamp then
    match branch.data.merge others (seed.child 0) mode target.data with
    | (some failure, data) => (some failure, {target with data})
    | (none, data) =>
      match branch.globals.merge mode target.globals with
      | .error failure => (some failure, {target with data})
      | .ok globals => (none, {target with data, globals})
  else (some (.breach .foreignSnapshot), target)

def commit (fresh : Identity) (snapshot latest : Snapshot Entity) :
    Except Failure (Snapshot Entity) := do
  let data ← snapshot.data.commit (fresh.child 0) latest.data
  let globals ← snapshot.globals.commit (fresh.child 1) latest.globals
  return ⟨latest.timestamp + 1, data, globals⟩

theorem commit_ok {fresh : Identity} {snapshot latest next : Snapshot Entity} :
    snapshot.commit fresh latest = .ok next ↔
      ∃ data globals, snapshot.data.commit (fresh.child 0) latest.data = .ok data ∧
        snapshot.globals.commit (fresh.child 1) latest.globals = .ok globals ∧
        next = ⟨latest.timestamp + 1, data, globals⟩ := by
  unfold commit
  cases snapshot.data.commit (fresh.child 0) latest.data with
  | error failure => exact ⟨nofun, nofun⟩
  | ok data =>
    cases snapshot.globals.commit (fresh.child 1) latest.globals with
    | error failure => exact ⟨nofun, nofun⟩
    | ok globals =>
      constructor
      · intro same
        cases same
        exact ⟨data, globals, rfl, rfl, rfl⟩
      · rintro ⟨_, _, first, second, rfl⟩
        cases first
        cases second
        rfl

end Snapshot

namespace Entity

theorem copy_snapshot (seed : Identity) (mode : CopyMode) (snapshot : Snapshot Entity) :
    (Entity.snapshot snapshot).copy seed mode = .snapshot (snapshot.copy seed mode) := by
  rw [copy, Snapshot.copy]

theorem merge_snapshot (others : List (Slot Entity)) (seed : Identity) (mode : MergeMode)
    (branch target : Snapshot Entity) :
    (Entity.snapshot branch).merge others seed mode (.snapshot target) =
      (branch.merge others seed mode target).map id .snapshot := by
  rw [merge, Snapshot.merge]
  split
  · cases branch.data.merge others (seed.child 0) mode target.data with
    | mk refusal data =>
      cases refusal with
      | some failure => rfl
      | none =>
        cases branch.globals.merge mode target.globals <;> rfl
  · rfl

theorem commit_snapshot (fresh : Identity) (snapshot latest : Snapshot Entity) :
    (Entity.snapshot snapshot).commit fresh (.snapshot latest) =
      (snapshot.commit fresh latest).map .snapshot := by
  rw [commit, Snapshot.commit]
  cases snapshot.data.commit (fresh.child 0) latest.data with
  | error failure => rfl
  | ok data =>
    cases snapshot.globals.commit (fresh.child 1) latest.globals <;>
      rfl

end Entity
end TransactionalMemory
