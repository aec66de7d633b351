import TransactionalMemory.Memory

/-! An outer transaction of one thread, stage by stage. The engine advances a stage by itself, one
recorded step at a time, until client code has to run: the body of an attempt, or a callback of the
commit that is being reported. Between any two steps other threads may take theirs. -/
namespace TransactionalMemory

/-- A published commit: the snapshot its body worked on and the snapshot that came of it. -/
structure Commit where
  working : Snapshot Entity
  published : Snapshot Entity

inductive Stage (C : Type) where
  | called
  | entered
  | ready (attempt : Nat)
  | working (attempt : Nat) (scope : Scope C)
  | ended (attempt : Nat) (scope : Scope C) (ending : Ending)
  | rejected (attempt : Nat) (failure : Failure)
  | exhausted (failure : Failure)
  | published (commit : Commit) (callbacks : List C)
  | waiting (commit : Commit) (callbacks : List C)
  | reporting (commit : Commit) (callbacks : List C)
  | handling (commit : Commit) (copy : Snapshot Entity) (callback : C) (callbacks : List C)
  | releasing (commit : Commit) (result : Ending)
  | closing (result : Ending)
  | leaving (result : Ending)
  | left (result : Ending)

namespace Stage
variable {C : Type}

/-- One step of the engine for the thread whose outer callback is `own`. Stages that wait for
client code, for the thread's turn or for nothing more stay as they are. -/
def advance (thread : Nat) (own : C) (seed : Identity) (memory : Memory) :
    Stage C → Memory × Stage C
  | .called =>
    match memory.enter thread with
    | .ok inside => (inside, .entered)
    | .error failure => (memory, .left (.error failure))
  | .entered => (memory.record Tally.recordStart, .ready 0)
  | .ready attempt => (memory, .working attempt (.start (memory.committed.copy seed .clean)))
  | .ended attempt scope (.ok true) =>
    match memory.publish seed scope.base with
    | .ok (next, after) =>
      (after, .published ⟨scope.base, next⟩ (Scope.callbacks own scope.nesting))
    | .error failure => (memory, .rejected attempt failure)
  | .ended _ _ (.ok false) => (memory.record Tally.recordRollback, .leaving (.ok false))
  | .ended _ _ (.error failure) => (memory.record Tally.recordFailure, .leaving (.error failure))
  | .rejected attempt failure =>
    if failure.isConflict then
      (memory.record Tally.recordConflict,
        if memory.policy.permits attempt then .ready (attempt + 1) else .exhausted failure)
    else (memory.record Tally.recordFailure, .leaving (.error failure))
  | .exhausted failure => (memory.record Tally.recordFailure, .leaving (.error failure))
  | .published commit callbacks => (memory.record Tally.recordCommit, .waiting commit callbacks)
  | .waiting commit callbacks =>
    if memory.hasTurn commit.published.timestamp then
      (memory.beginReport thread commit.published.timestamp, .reporting commit callbacks)
    else (memory, .waiting commit callbacks)
  | .reporting commit [] => (memory, .releasing commit (.ok true))
  | .reporting commit (callback :: callbacks) =>
    (memory, .handling commit (commit.published.copy seed .clean) callback callbacks)
  | .releasing commit result =>
    (memory.endReport commit.published.timestamp, .closing result)
  | .closing result => (memory.record Tally.recordReported, .leaving result)
  | .leaving result => (memory.leave thread, .left result)
  | .working attempt scope => (memory, .working attempt scope)
  | .handling commit copy callback callbacks => (memory, .handling commit copy callback callbacks)
  | .left result => (memory, .left result)

/-- How many steps the engine can take at most before client code runs; every step takes one off. -/
def steps : Stage C → Nat
  | .working .. | .handling .. | .left _ => 0
  | .ready _ | .leaving _ => 1
  | .entered | .closing _ | .exhausted _ => 2
  | .called | .releasing .. | .rejected .. => 3
  | .reporting .. => 4
  | .waiting .. => 5
  | .published .. => 6
  | .ended .. => 7

def endBody (ending : Ending) : Stage C → Stage C
  | .working attempt scope => .ended attempt scope ending
  | stage => stage

/-- A callback has come to its end; the first one that fails ends the report. -/
def endCallback (outcome : Except Failure Unit) : Stage C → Stage C
  | .handling commit _ _ callbacks =>
    match outcome with
    | .ok () => .reporting commit callbacks
    | .error failure => .releasing commit (.error failure)
  | stage => stage

/-- Takes `limit` steps of the engine in a row, each with a seed of its own. -/
def advanceBy (thread : Nat) (own : C) (limit : Nat) (supply : Supply) (memory : Memory)
    (stage : Stage C) : Supply × Memory × Stage C :=
  match limit with
  | 0 => (supply, memory, stage)
  | limit + 1 =>
    let (seed, supply) := supply.mint
    let (memory, stage) := stage.advance thread own seed memory
    stage.advanceBy thread own limit supply memory

/-- Advances until client code has to run or the thread has to wait for its turn. -/
def settle (thread : Nat) (own : C) (supply : Supply) (memory : Memory) (stage : Stage C) :
    Supply × Memory × Stage C :=
  stage.advanceBy thread own stage.steps supply memory

def attempt? : Stage C → Option Nat
  | .working attempt _ => some attempt
  | .ended attempt _ _ => some attempt
  | _ => none

end Stage
end TransactionalMemory
