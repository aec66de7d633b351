import TransactionalMemory.PolicyDocument
import TransactionalMemory.Scenario.Conduct

/-! Playing a scenario: what each command does, and the steps one after the other. Every descent
into the steps of a transaction goes one level down, and there are no more levels than steps. -/
namespace TransactionalMemory.Scenario
open Attempted

structure Outcome where
  shown : Value
  raised : Option Failure

def Attempted.outcome (task : Attempted Value) : Session Outcome := do
  match ← task.run with
  | .ok shown => return ⟨shown, none⟩
  | .error (.failure failure) => return ⟨ofFailure failure, some failure⟩
  | .error (.nonsense reason) => return ⟨nonsense reason, none⟩

def PolicyDesign.build (design : PolicyDesign) : Except Failure RetryPolicy := do
  let policy ← match design.source with
    | .standard => .ok .standard
    | .never => .ok .never
    | .text toml => RetryPolicy.read .standard toml
    | .file path content => RetryPolicy.readFile .standard path content
  return ⟨design.maxRetries.getD policy.maxRetries, design.baseDelay.getD policy.baseDelay,
    design.maxDelay.getD policy.maxDelay⟩

section
variable (run : Runner)

/-- An outer transaction of the running thread that has no script. -/
def ownTransaction (memory : Nat) (body : Session Ending) : Session Ending := do
  let thread := (← get).thread
  return (← Session.conduct run thread memory .silent (return ([], ← body))).2

def ownAccess (memory : Nat)
    (act : Snapshot Entity → Except Failure Unit × Snapshot Entity) : Session Ending :=
  ownTransaction run memory do
    match ← (within memory .current act).run with
    | .ok () => return .ok true
    | .error (.failure failure) => return .error failure
    | .error (.nonsense reason) => return .error (.misuse (.stated reason))

/-- Drops a handle: its value is removed if a transaction can be run for that. -/
def abandon (handle : GlobalHandle) : Session Unit := do
  let _ ← ownAccess run handle.memory (GlobalHandle.evict handle.id)

def adopt (name : String) (handle : GlobalHandle) : Session Unit := do
  let previous := (← get).handles[name]?
  modify fun world => {world with handles := world.handles.insert name handle}
  match previous with
  | some former => abandon run former
  | none => return ()

def takeHandle (name : String) : Attempted GlobalHandle := do
  let found ← handle name
  modify fun world => {world with handles := world.handles.erase name}
  return found

def hostGlobal (name memory : String) (value : Value) : Attempted Value := do
  let (index, found) ← Attempted.memory memory
  let (id, after) := found.nextId
  Session.setMemory index after
  let object ← Session.newObject value
  let _ ← ofResult (← ownAccess run index (GlobalHandle.host id object))
  adopt run name ⟨index, id, value.kind⟩
  return ofNat id

/-- The number is taken only if the memory admits the running body. -/
def hostGlobalWithin (name memory : String) (value : Value) : Attempted Value := do
  let (index, _) ← Attempted.memory memory
  within index .current fun snapshot => (Except.ok (), snapshot)
  let (_, found) ← Attempted.memory memory
  let (id, after) := found.nextId
  Session.setMemory index after
  let object ← Session.newObject value
  within index .current (GlobalHandle.host id object)
  adopt run name ⟨index, id, value.kind⟩
  return ofNat id

def releaseGlobal (name : String) : Attempted Value := do
  let handle ← takeHandle name
  let _ ← ofResult (← ownAccess run handle.memory (GlobalHandle.evict handle.id))
  return .null

/-- A handle that cannot be released here is dropped. -/
def releaseGlobalWithin (name : String) : Attempted Value := do
  let handle ← takeHandle name
  try
    within handle.memory .current (GlobalHandle.evict handle.id)
    return .null
  catch trouble =>
    abandon run handle
    throw trouble

def create (name : String) (design : Design) : Attempted Value := do
  let entity ← build design
  let layouts := (← get).layouts
  match design, slotKinds entity with
  | .bundle _, some kinds => modify fun world => {world with layouts := layouts.insert name kinds}
  | _, _ => pure ()
  Session.setEntity entity (.variable name)
  return .null

def createMemory (name : String) (design : Design) (policy : PolicyDesign) : Attempted Value := do
  let initial ← build design
  let policy ← ofResult policy.build
  let memory := Memory.create (← Session.mint) policy initial
  modify fun world => {world with
    memories := world.memories.push memory,
    memoryNames := world.memoryNames.insert name world.memories.size}
  return .null

def mergeEntities (mode : MergeMode) (branch : String) (target : Place) : Attempted Value := do
  let branch ← demand "there is no such entity" (← Session.takeVariable branch)
  let seed ← Session.mint
  let others ← Session.slotsBesides target
  let (refusal, merged) := branch.merge others seed mode (← entity target)
  Session.setEntity merged target
  match refusal with
  | some failure => refuse failure
  | none => return .null

def timestamp (place : Place) : Attempted Nat := do
  match ← entity place with
  | .snapshot snapshot => return snapshot.timestamp
  | _ => reject "only snapshots have a timestamp"

def ofOrdering : Ordering → Value
  | .lt => .number (-1)
  | .eq => .number 0
  | .gt => .number 1

def replaceData (design : Design) : Attempted Value := do
  let data ← build design
  let snapshot ← snapshot
  Session.setSnapshot {snapshot with data}
  return .null

def depth : Attempted Value := do
  match ← Session.stage? with
  | some (.working _ scope) =>
    let depth := ofNat scope.depth
    return .record [("depth", depth), ("debug", .record [("depth", depth)])]
  | _ => reject "there is no running body"

def readSnapshot (snapshot : Snapshot Entity) : Except Failure Value × Snapshot Entity :=
  (.ok (.record [("timestamp", ofNat snapshot.timestamp),
    ("data", contentsOf .dirty snapshot.data)]), snapshot)

def writeGlobal (id : Nat) (object : Object Value) (snapshot : Snapshot Entity) :
    Except Failure Value × Snapshot Entity :=
  let (previous, globals) := snapshot.globals.put id object
  (.ok (ofOption (previous.map Object.content)), {snapshot with globals})

/-- Without a name, a running body means its own memory. -/
def memoryOf : Option String → Attempted Nat
  | some name => return (← Attempted.memory name).1
  | none => do
    match ← Session.innermost with
    | some ⟨_, memory, _, .working ..⟩ => return memory
    | _ => return (← Attempted.memory "m").1

def reenter (memory : Option String) : Attempted Value := do
  let index ← memoryOf memory
  return .boolean (← ofResult (← ownTransaction run index (return .ok true)))

def simple : Command → Attempted Value
  | .unclear reason => reject reason
  | .create name design => create name design
  | .copy mode source name => do
    let copied := (← entity source).copy (← Session.mint) mode
    Session.setEntity copied (.variable name)
    return .null
  | .merge mode branch target => mergeEntities mode branch target
  | .commit source latest name => do
    let committed ← ofResult ((← entity source).commit (← Session.mint) (← entity latest))
    Session.setEntity committed (.variable name)
    return .null
  | .sameSource left right => do
    return .boolean (← demand "these cannot be compared"
      ((← entity left).sameSource? (← entity right)))
  | .compareTimes left right => do
    return ofOrdering (compare (← timestamp left) (← timestamp right))
  | .state place => return stateOf (← entity place)
  | .contents mode place => return contentsOf mode (← entity place)
  | .handle bundle index => do
    let kinds ← demand "there are no such handles" (← get).layouts[bundle]?
    if index < kinds.length then
      return .record [("index", ofNat index), ("debug", .record [("index", ofNat index)])]
    else reject "there is no such handle"
  | .keep name value => do
    let object ← Session.newObject value
    modify fun world => {world with objects := world.objects.insert name object}
    return .null
  | .sameObject left right => do
    return .boolean ((← keptObject left).identity = (← keptObject right).identity)
  | .replace design => replaceData design
  | .fail failure => refuse failure
  | .ask path question save => ask path question save
  | .createMemory name design policy => createMemory name design policy
  | .tally name => return ofTally (← Attempted.memory name).2.tally
  | .policy name => return ofPolicy (← Attempted.memory name).2.policy
  | .nextId name => do
    let (index, found) ← Attempted.memory name
    let (id, after) := found.nextId
    Session.setMemory index after
    return ofNat id
  | .memoryState name => do
    let (_, found) ← Attempted.memory name
    return .record [("config", ofPolicy found.policy), ("metrics", .record (counters found.tally))]
  | .reenter name => reenter run name
  | .depth => depth
  | .read name shown => do
    let (index, _) ← Attempted.memory name
    within index shown readSnapshot
  | .write name shown id value => do
    let (index, _) ← Attempted.memory name
    let object ← Session.newObject value
    within index shown (writeGlobal id object)
  | .hostGlobal name memory value => hostGlobal run name memory value
  | .hostGlobalWithin name memory value => hostGlobalWithin run name memory value
  | .describeGlobal name => do
    let id := ofNat (← handle name).id
    return .record [("id", id), ("debug", .record [("id", id), ("released", .boolean false)])]
  | .getGlobal name shown => do
    let handle ← handle name
    return ofOption (← within handle.memory shown handle.get)
  | .setGlobal name shown value => do
    let handle ← handle name
    let object ← Session.newObject value
    return ofOption (← within handle.memory shown (handle.set object))
  | .releaseGlobal name => releaseGlobal run name
  | .releaseGlobalWithin name => releaseGlobalWithin run name
  | .dropGlobal name => do
    let handle ← takeHandle name
    abandon run handle
    return .null
  | _ => reject "this is no single step"

def raisedBy : Ending → Option Failure
  | .ok _ => none
  | .error failure => some failure

/-- At the outermost level a transaction also joins the threads that were spawned during it. -/
def joined (fields : List (String × Value)) : Session Value := do
  let world ← get
  if world.activities.isEmpty && !world.spawned.isEmpty then
    modify fun world => {world with spawned := #[]}
    return .record (fields ++ [("spawned", .list world.spawned.toList)])
  else return .record fields

def command (step : Command) : Session Outcome := do
  match step with
  | .transact name clause =>
    match ← Session.memory? name with
    | none => return ⟨nonsense "there is no such memory", none⟩
    | some (index, _) =>
      let thread := (← get).thread
      let (fields, ending) ← Session.conduct run thread index clause.callback (clause.run run)
      return ⟨← joined fields, raisedBy ending⟩
  | .interfere name clause =>
    match ← Session.memory? name with
    | none => return ⟨nonsense "there is no such memory", none⟩
    | some (index, _) =>
      let thread ← Session.newThread
      let (fields, ending) ← Session.conduct run thread index clause.callback (clause.run run)
      return ⟨.record fields, raisedBy ending⟩
  | .spawn name clause =>
    match ← Session.memory? name with
    | none => return ⟨nonsense "there is no such memory", none⟩
    | some (index, _) =>
      Session.spawn run index clause
      return ⟨.null, none⟩
  | .nest clause =>
    match ← Session.nest run clause with
    | none => return ⟨nonsense "there is no running body", none⟩
    | some (log, ending) =>
      return ⟨.record [("log", .list log), ("result", ofEnding ending)], raisedBy ending⟩
  | single => (simple run single).outcome

/-- A step that is kept to the first attempts is skipped in the later ones. -/
def isSkipped (step : Step Command) : Session Bool := do
  let attempt := ((← Session.stage?).bind Stage.attempt?).getD 0
  return step.below.any (· ≤ attempt)

def Command.isFail : Command → Bool
  | .fail _ => true
  | _ => false

def runSteps : Runner
  | [] => return ([], .ran)
  | step :: steps => do
    if ← isSkipped step then
      let (log, stop) ← runSteps steps
      return (.text "skipped" :: log, stop)
    else if let .finish ending := step.command then
      return ([], .finished ending)
    else
      let outcome ← command run step.command
      match outcome.raised, step.binding || step.command.isFail with
      | some failure, true => return ([outcome.shown], .failed failure)
      | _, _ =>
        let (log, stop) ← runSteps steps
        return (outcome.shown :: log, stop)

end

/-- Runs steps whose transactions are nested at most `levels` deep. -/
def runLevel : (levels : Nat) → Runner
  | 0, _ => return ([], .ran)
  | levels + 1, steps => runSteps (runLevel levels) steps

/-- The answers of all steps, and the names of the transactions in the order of their callbacks. -/
def play (steps : List (Step Command)) : Value :=
  let size := stepsSize steps
  let ((log, _), world) := runLevel (size + 1) steps (World.initial size)
  .record [("results", .list log), ("order", .list (world.order.map .text))]

end TransactionalMemory.Scenario
