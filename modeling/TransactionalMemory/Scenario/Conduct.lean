import TransactionalMemory.Scenario.Asking

/-! Conducting outer transactions. The engine settles as far as it can; in between, the scenario
runs the body of each attempt and the callbacks of the commit. The steps inside are run by a
function that is given, since they lie one level further in. -/
namespace TransactionalMemory.Scenario
open Attempted

/-- How a run of steps stopped: at their end, at a step that returns, or at a binding failure. -/
inductive Stop where
  | ran
  | finished (ending : Bool)
  | failed (failure : Failure)

abbrev Runner := List (Step Command) → Session (List Value × Stop)

def Clause.run (clause : Clause Command) (run : Runner) : Session (List Value × Ending) := do
  let (log, stop) ← run clause.body
  match stop with
  | .ran => return (log, clause.ending)
  | .finished ending => return (log, .ok ending)
  | .failed failure => return (log, .error failure)

namespace Session

def stage? : Session (Option (Stage Callback)) :=
  return (← innermost).map Activity.stage

def proceed (move : Stage Callback → Stage Callback) : Session Unit := do
  match ← stage? with
  | some stage =>
    setStage (move stage)
    settle
  | none => return ()

/-- Runs the body for as long as the engine opens a new attempt, but at most `limit` times. -/
def attempts (body : Session (List Value × Ending)) : (limit : Nat) → Session (List Value)
  | 0 => return []
  | limit + 1 => do
    match ← stage? with
    | some (.working ..) =>
      let (log, ending) ← body
      proceed (.endBody ending)
      return .list log :: (← attempts body limit)
    | _ => return []

/-- Runs a callback; there is something to show of it unless it is silent. -/
def handle (run : Runner) : Callback → Session (Except Failure Unit × Option Value)
  | .silent => return (.ok (), none)
  | .scripted name steps failure => do
    modify fun world => {world with order := world.order ++ [name]}
    let (log, stop) ← run steps
    let shown := .record [("name", .text name), ("log", .list log)]
    match stop, failure with
    | .failed raised, _ => return (.error raised, some shown)
    | _, some last => return (.error last, some shown)
    | _, none => return (.ok (), some shown)

def callbacks (run : Runner) : (limit : Nat) → Session (List Value)
  | 0 => return []
  | limit + 1 => do
    match ← stage? with
    | some (.handling _ _ callback _) =>
      let (outcome, shown) ← handle run callback
      proceed (.endCallback outcome)
      return shown.toList ++ (← callbacks run limit)
    | _ => return []

def pendingCallbacks : Session Nat := do
  match ← stage? with
  | some (.handling _ _ _ later) => return later.length + 1
  | _ => return 0

def conclude (run : Runner) : Session (List Value × Ending) := do
  let shown ← callbacks run (← pendingCallbacks)
  let stage ← stage?
  pop
  match stage with
  | some (.left result) => return (shown, result)
  | _ => return (shown, .error (.misuse (.stated "The turn to report never comes")))

def summary (attempts callbacks : List Value) (result : Ending) : List (String × Value) :=
  [("attempts", .list attempts), ("callbacks", .list callbacks), ("result", ofEnding result)]

def deliver (ticket : Nat) (shown : Value) : Session Unit :=
  modify fun world => {world with spawned := world.spawned.setIfInBounds ticket shown}

def takeReady : Session (Option Parked) :=
  modifyGet fun world =>
    let ready (parked : Parked) : Bool :=
      match parked.activity.stage, world.memories[parked.activity.memory]? with
      | .waiting commit _, some memory => memory.hasTurn commit.published.timestamp
      | _, _ => false
    match world.parked.findIdx? ready with
    | none => (none, world)
    | some index => (world.parked[index]?, {world with parked := world.parked.eraseIdx index})

/-- Lets the parked transactions report whose turn has come, and those that come after them. -/
def resume (run : Runner) : (limit : Nat) → Session Unit
  | 0 => return ()
  | limit + 1 => do
    match ← takeReady with
    | none => return ()
    | some parked =>
      push parked.activity
      settle
      let (shown, result) ← conclude run
      deliver parked.ticket (.record (summary parked.attempts shown result))
      resume run limit

def begin (thread memory : Nat) (own : Callback) (body : Session (List Value × Ending)) :
    Session (List Value) := do
  push ⟨thread, memory, own, .called⟩
  settle
  match (← get).memories[memory]? with
  | none => return []
  | some found => attempts body (found.policy.maxRetries.toNat + 1)

def conduct (run : Runner) (thread memory : Nat) (own : Callback)
    (body : Session (List Value × Ending)) : Session (List (String × Value) × Ending) := do
  let attempts ← begin thread memory own body
  let (shown, result) ← conclude run
  resume run (← get).size
  return (summary attempts shown result, result)

/-- Starts an outer transaction on a thread of its own and parks it once it has published. -/
def spawn (run : Runner) (memory : Nat) (clause : Clause Command) : Session Unit := do
  let thread ← newThread
  let ticket := (← get).spawned.size
  modify fun world => {world with spawned := world.spawned.push .null}
  let attempts ← begin thread memory clause.callback (clause.run run)
  match ← innermost with
  | some activity =>
    match activity.stage with
    | .waiting .. =>
      pop
      modify fun world => {world with parked := world.parked ++ [⟨activity, ticket, attempts⟩]}
    | _ =>
      let (shown, result) ← conclude run
      deliver ticket (.record (summary attempts shown result))
  | none => return ()

/-- Runs a nested transaction inside the body that is running; there is no answer outside of one. -/
def nest (run : Runner) (clause : Clause Command) : Session (Option (List Value × Ending)) := do
  match ← stage? with
  | some (.working attempt scope) =>
    setStage (.working attempt (scope.enter (← mint)))
    let (log, ending) ← clause.run run
    match ← stage? with
    | some (.working attempt inner) =>
      let (ending, outer) :=
        inner.leave (← slotsOutside) (← mint) clause.callback scope.current ending
      setStage (.working attempt outer)
      return some (log, ending)
    | _ => return none
  | _ => return none

end Session

def detached (timestamp : Nat) : Session Context := do
  let data := .cell (.ofObject (← Session.newObject .null))
  return .snapshot (.start (← Session.mint) timestamp data)

/-- The context of the step that is running; outside of all transactions it is a detached one. -/
def context : Shown → Session Context
  | .detached timestamp => detached timestamp
  | .current => do
    match ← Session.innermost with
    | some ⟨_, memory, _, .working _ scope⟩ => return .scope memory scope.top
    | some ⟨_, _, _, .handling _ copy _ _⟩ => return .snapshot copy
    | _ => detached 0

/-- Works on the snapshot that a memory admits. A snapshot made for the step is dropped after it. -/
def within {α : Type} (memory : Nat) (shown : Shown)
    (act : Snapshot Entity → Except Failure α × Snapshot Entity) : Attempted α := do
  let found ← demand "there is no such memory" (← get).memories[memory]?
  let context ← context shown
  let (result, after) := found.within memory (← get).thread context act
  match shown with
  | .current => Session.setSnapshot after.top
  | .detached _ => pure ()
  ofResult result

end TransactionalMemory.Scenario
