import TransactionalMemory.RetryPolicy
import TransactionalMemory.Scope
import TransactionalMemory.Tally

/-! A transactional memory: the committed snapshot, the commits that wait for their report in the
order in which they were published, and what each thread is doing. Every function here is one
indivisible step of the engine. -/
namespace TransactionalMemory

inductive Phase where
  | running
  | reporting (timestamp : Nat)
deriving DecidableEq

/-- Timestamps and the numbers of hosted values are words of 64 bits that are only counted up. They
are kept as natural numbers, which agree with the words below 2 ^ 64. -/
structure Memory where
  policy : RetryPolicy
  committed : Snapshot Entity
  reports : List Nat
  phases : Std.ExtTreeMap Nat Phase
  nextGlobal : Nat
  tally : Tally

/-- What a client shows to say which snapshot it means: the scope of a running body, known by the
memory that opened it, or a snapshot. -/
inductive Context where
  | scope (owner : Nat) (top : Snapshot Entity)
  | snapshot (snapshot : Snapshot Entity)

namespace Context

def top : Context → Snapshot Entity
  | .scope _ top => top
  | .snapshot shown => shown

def withTop (top : Snapshot Entity) : Context → Context
  | .scope owner _ => .scope owner top
  | .snapshot _ => .snapshot top

/-- Snapshots do not say where they come from, so they belong to every memory. -/
def belongsTo (memory : Nat) : Context → Bool
  | .scope owner _ => owner = memory
  | .snapshot _ => true

end Context

namespace Memory

/-- The committed state starts as a clean copy of the initial data. -/
def create (seed : Identity) (policy : RetryPolicy) (initial : Entity) : Memory where
  policy := policy
  committed := .start (seed.child 0) 0 (initial.copy (seed.child 1) .clean)
  reports := []
  phases := ∅
  nextGlobal := 0
  tally := .zero

/-- A thread is inside at most one outer transaction of a memory. -/
def enter (thread : Nat) (memory : Memory) : Except Failure Memory :=
  match memory.phases[thread]? with
  | some (.reporting _) => .error (.misuse .withinReport)
  | some .running => .error (.misuse .withinBody)
  | none => .ok {memory with phases := memory.phases.insert thread .running}

def leave (thread : Nat) (memory : Memory) : Memory :=
  {memory with phases := memory.phases.erase thread}

def record (count : Tally → Tally) (memory : Memory) : Memory :=
  {memory with tally := count memory.tally}

/-- Checks a working snapshot against the committed one and makes the result the committed one.
The commit queues up for its report in the same step. -/
def publish (seed : Identity) (working : Snapshot Entity) (memory : Memory) :
    Except Failure (Snapshot Entity × Memory) := do
  let next ← working.commit seed memory.committed
  return (next, {memory with committed := next, reports := memory.reports ++ [next.timestamp]})

def hasTurn (timestamp : Nat) (memory : Memory) : Bool :=
  memory.reports.head? = some timestamp

def beginReport (thread timestamp : Nat) (memory : Memory) : Memory :=
  {memory with phases := memory.phases.insert thread (.reporting timestamp)}

def endReport (timestamp : Nat) (memory : Memory) : Memory :=
  if memory.hasTurn timestamp then {memory with reports := memory.reports.tail} else memory

/-- The snapshot that a thread works on, if the context it shows fits what the thread is doing. A
thread that reports a commit has to show a snapshot of that commit. -/
def resolve (self thread : Nat) (context : Context) (memory : Memory) :
    Except Failure (Snapshot Entity) :=
  match memory.phases[thread]? with
  | none => .error (.noTransaction .outsideTransaction)
  | some phase =>
    if !context.belongsTo self then .error (.breach .foreignScope)
    else match phase with
      | .running => .ok context.top
      | .reporting timestamp =>
        if context.top.timestamp = timestamp then .ok context.top
        else .error (.breach .foreignCommit)

/-- Works on the admitted snapshot. A context that is not admitted is not touched. -/
def within {α : Type} (self thread : Nat) (context : Context)
    (act : Snapshot Entity → Except Failure α × Snapshot Entity) (memory : Memory) :
    Except Failure α × Context :=
  match memory.resolve self thread context with
  | .error failure => (.error failure, context)
  | .ok snapshot => (act snapshot).map id context.withTop

def nextId (memory : Memory) : Nat × Memory :=
  (memory.nextGlobal, {memory with nextGlobal := memory.nextGlobal + 1})

end Memory
end TransactionalMemory
