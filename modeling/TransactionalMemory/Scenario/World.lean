import TransactionalMemory.GlobalHandle
import TransactionalMemory.Scenario.Report
import TransactionalMemory.Transaction

/-! The state of a running scenario: everything that has a name, the outer transactions that are
under way, innermost first, and those that wait on other threads for their report. -/
namespace TransactionalMemory.Scenario

abbrev Named (α : Type) := Std.ExtTreeMap String α

structure Activity where
  thread : Nat
  memory : Nat
  own : Callback
  stage : Stage Callback

/-- A transaction of another thread that has published and waits for its turn to report. -/
structure Parked where
  activity : Activity
  ticket : Nat
  attempts : List Value

structure World where
  supply : Supply
  entities : Named Entity
  objects : Named (Object Value)
  layouts : Named (List Entity.Kind)
  memories : Array Memory
  memoryNames : Named Nat
  handles : Named GlobalHandle
  activities : List Activity
  parked : List Parked
  spawned : Array Value
  lastThread : Nat
  order : List String
  size : Nat

namespace World

def initial (size : Nat) : World where
  supply := ⟨0⟩
  entities := ∅
  objects := ∅
  layouts := ∅
  memories := #[]
  memoryNames := ∅
  handles := ∅
  activities := []
  parked := []
  spawned := #[]
  lastThread := 0
  order := []
  size := size

/-- The thread of the innermost transaction, or the one that runs the scenario. -/
def thread (world : World) : Nat :=
  match world.activities with
  | [] => 0
  | activity :: _ => activity.thread

end World

def Activity.snapshots (activity : Activity) : List (Snapshot Entity) :=
  match activity.stage with
  | .working _ scope | .ended _ scope _ => scope.base :: scope.branches
  | .published commit _ | .waiting commit _ | .reporting commit _ | .releasing commit _ =>
    [commit.working, commit.published]
  | .handling commit copy _ _ => [commit.working, commit.published, copy]
  | _ => []

namespace World

def liveMemories (world : World) : List Nat :=
  world.memoryNames.values ++ world.activities.map (·.memory)
    ++ world.parked.map (·.activity.memory) ++ world.handles.values.map (·.memory)

def liveSlots (world : World) : List (Slot Entity) :=
  (world.entities.values
    ++ (world.liveMemories.filterMap fun memory =>
      (world.memories[memory]?).map (·.committed.data))
    ++ ((world.activities ++ world.parked.map (·.activity)).flatMap Activity.snapshots).map (·.data)
    ).flatMap Entity.slots

end World

abbrev Session := StateM World

namespace Session

def mint : Session Identity :=
  modifyGet fun world =>
    let (seed, supply) := world.supply.mint
    (seed, {world with supply})

def newObject (value : Value) : Session (Object Value) :=
  return ⟨← mint, value⟩

def newThread : Session Nat :=
  modifyGet fun world => (world.lastThread + 1, {world with lastThread := world.lastThread + 1})

def innermost : Session (Option Activity) :=
  return (← get).activities.head?

def setStage (stage : Stage Callback) : Session Unit :=
  modify fun world =>
    match world.activities with
    | [] => world
    | activity :: outer => {world with activities := {activity with stage} :: outer}

def snapshot? : Session (Option (Snapshot Entity)) := do
  match (← innermost).map Activity.stage with
  | some (.working _ scope) => return some scope.top
  | some (.handling _ copy _ _) => return some copy
  | _ => return none

def setSnapshot (snapshot : Snapshot Entity) : Session Unit := do
  match (← innermost).map Activity.stage with
  | some (.working attempt scope) => setStage (.working attempt (scope.withTop snapshot))
  | some (.handling commit _ callback callbacks) =>
    setStage (.handling commit snapshot callback callbacks)
  | _ => return ()

def entity? : Place → Session (Option Entity)
  | .variable name => return (← get).entities[name]?
  | .data => return (← snapshot?).map (·.data)
  | .snapshot => return (← snapshot?).map .snapshot

def setEntity (entity : Entity) : Place → Session Unit
  | .variable name => modify fun world => {world with entities := world.entities.insert name entity}
  | .data => do
    match ← snapshot? with
    | some snapshot => setSnapshot {snapshot with data := entity}
    | none => return ()
  | .snapshot =>
    match entity with
    | .snapshot snapshot => setSnapshot snapshot
    | _ => return ()

/-- The slots that are alive outside of what the innermost transaction works on. -/
def slotsOutside : Session (List (Slot Entity)) :=
  return (setStage .called).run (← get) |>.2.liveSlots

/-- The slots that are alive besides those of the entity at a place. -/
def slotsBesides (place : Place) : Session (List (Slot Entity)) := do
  let world ← get
  match place with
  | .variable name => return {world with entities := world.entities.erase name}.liveSlots
  | .data | .snapshot =>
    return (setEntity (.bundle [] .take) .data).run world |>.2.liveSlots

def takeVariable (name : String) : Session (Option Entity) :=
  modifyGet fun world =>
    (world.entities[name]?, {world with entities := world.entities.erase name})

def memory? (name : String) : Session (Option (Nat × Memory)) := do
  let world ← get
  match world.memoryNames[name]? with
  | none => return none
  | some index => return (world.memories[index]?).map (index, ·)

def setMemory (index : Nat) (memory : Memory) : Session Unit :=
  modify fun world => {world with memories := world.memories.setIfInBounds index memory}

def settle : Session Unit :=
  modify fun world =>
    match world.activities with
    | [] => world
    | activity :: outer =>
      match world.memories[activity.memory]? with
      | none => world
      | some memory =>
        let (supply, memory, stage) :=
          activity.stage.settle activity.thread activity.own world.supply memory
        {world with
          supply, memories := world.memories.setIfInBounds activity.memory memory,
          activities := {activity with stage} :: outer}

def push (activity : Activity) : Session Unit :=
  modify fun world => {world with activities := activity :: world.activities}

def pop : Session Unit :=
  modify fun world => {world with activities := world.activities.tail}

end Session
end TransactionalMemory.Scenario
