import TransactionalMemory.Transaction

/-! Threads that share one memory. A call is an outer transaction of one thread; at any moment
any call may take a step of the engine, or the client code that it waits for may do something. The
log keeps what the steps have made known of the commits, and every move has a seed of its own. -/
namespace TransactionalMemory
variable {C : Type}

structure Call (C : Type) where
  thread : Nat
  own : C
  stage : Stage C

/-- What an engine does for a call, and what client code may do meanwhile: a body may turn its
scope into anything, and a callback its copy. -/
inductive Act (C : Type) where
  | advance
  | work (scope : Scope C)
  | endBody (ending : Ending)
  | handle (copy : Snapshot Entity)
  | endCallback (outcome : Except Failure Unit)

inductive Move (C : Type) where
  | call (thread : Nat) (own : C)
  | act (index : Nat) (act : Act C)

inductive Notice (C : Type) where
  | published (seed : Identity) (commit : Commit) (callbacks : List C)
  | started (timestamp : Nat) (seed : Identity) (callback : C) (copy : Snapshot Entity)
  | ended (timestamp : Nat) (outcome : Except Failure Unit)
  | released (timestamp : Nat)

namespace Stage

def rework (scope : Scope C) : Stage C → Stage C
  | .working attempt _ => .working attempt scope
  | stage => stage

def rehandle (copy : Snapshot Entity) : Stage C → Stage C
  | .handling commit _ callback callbacks => .handling commit copy callback callbacks
  | stage => stage

/-- The commit that was published and whose turn is not released yet. -/
def holding : Stage C → Option Commit
  | .published commit _ => some commit
  | .waiting commit _ => some commit
  | .reporting commit _ => some commit
  | .handling commit .. => some commit
  | .releasing commit _ => some commit
  | _ => none

def timestamp? (stage : Stage C) : Option Nat :=
  stage.holding.map (·.published.timestamp)

def notices (seed : Identity) : (before after : Stage C) → List (Notice C)
  | .ended .., .published commit callbacks => [.published seed commit callbacks]
  | .reporting .., .handling commit copy callback _ =>
    [.started commit.published.timestamp seed callback copy]
  | .handling commit .., .reporting .. => [.ended commit.published.timestamp (.ok ())]
  | .handling commit .., .releasing _ (.error failure) =>
    [.ended commit.published.timestamp (.error failure)]
  | .releasing commit _, .closing _ => [.released commit.published.timestamp]
  | _, _ => []

end Stage

def Call.act (seed : Identity) (memory : Memory) (call : Call C) : Act C → Memory × Stage C
  | .advance => call.stage.advance call.thread call.own seed memory
  | .work scope => (memory, call.stage.rework scope)
  | .endBody ending => (memory, call.stage.endBody ending)
  | .handle copy => (memory, call.stage.rehandle copy)
  | .endCallback outcome => (memory, call.stage.endCallback outcome)

structure Threads (C : Type) where
  memory : Memory
  supply : Supply
  calls : List (Call C)
  log : List (Notice C)

namespace Threads

def start (memory : Memory) (supply : Supply) : Threads C :=
  ⟨memory, supply, [], []⟩

def step (threads : Threads C) : Move C → Threads C
  | .call thread own => {threads with calls := threads.calls ++ [⟨thread, own, .called⟩]}
  | .act index act =>
    match threads.calls[index]? with
    | none => threads
    | some call =>
      let (seed, supply) := threads.supply.mint
      let (memory, stage) := call.act seed threads.memory act
      ⟨memory, supply, threads.calls.set index {call with stage},
        threads.log ++ call.stage.notices seed stage⟩

def run (memory : Memory) (supply : Supply) (moves : List (Move C)) : Threads C :=
  moves.foldl step (start memory supply)

end Threads

section
variable {α : Type} {items front back : List α} {item changed : α}

theorem split_at {index : Nat} (found : items[index]? = some item) :
    ∃ front back, items = front ++ item :: back ∧
      ∀ other, items.set index other = front ++ other :: back := by
  obtain ⟨bound, rfl⟩ := List.getElem?_eq_some_iff.mp found
  refine ⟨items.take index, items.drop (index + 1), ?_, ?_⟩
  · rw [← List.drop_eq_getElem_cons bound, List.take_append_drop]
  · intro other
    rw [List.set_eq_take_append_cons_drop, if_pos bound]

theorem forall_replaced {holds holds' : α → Prop}
    (each : ∀ other ∈ front ++ item :: back, holds other)
    (kept : ∀ other, other ∈ front ∨ other ∈ back → holds other → holds' other)
    (new : holds' changed) : ∀ other ∈ front ++ changed :: back, holds' other := by
  intro other member
  rcases List.mem_append.mp member with before | later
  · exact kept other (.inl before) (each other (List.mem_append_left _ before))
  · rcases List.mem_cons.mp later with rfl | later
    · exact new
    · have old := each other (List.mem_append_right _ (List.mem_cons_of_mem _ later))
      exact kept other (.inr later) old

end

namespace Stage

/-- Everything that one move can do to the stage of a call and to what is published. -/
inductive Change (seed : Identity) (memory : Memory) :
    (before : Stage C) → (after : Memory) → (stage : Stage C) → Prop where
  | aside {before stage : Stage C} {after : Memory} (outside : before.holding = none)
      (still : stage.holding = none) (committed : after.committed = memory.committed)
      (reports : after.reports = memory.reports) : Change seed memory before after stage
  | publish {before : Stage C} {attempt : Nat} {scope : Scope C} {commit : Commit}
      {callbacks : List C} {after : Memory} (ended : before = .ended attempt scope (.ok true))
      (next : commit.published.timestamp = memory.committed.timestamp + 1)
      (committed : after.committed = commit.published)
      (reports : after.reports = memory.reports ++ [commit.published.timestamp]) :
      Change seed memory before after (.published commit callbacks)
  | record (commit : Commit) (callbacks : List C) (count : Tally → Tally) :
      Change seed memory (.published commit callbacks) (memory.record count)
        (.waiting commit callbacks)
  | rest (stage : Stage C) : Change seed memory stage memory stage
  | turn (commit : Commit) (callbacks : List C) (thread : Nat)
      (first : memory.reports.head? = some commit.published.timestamp) :
      Change seed memory (.waiting commit callbacks)
        (memory.beginReport thread commit.published.timestamp) (.reporting commit callbacks)
  | start (commit : Commit) (callback : C) (callbacks : List C) :
      Change seed memory (.reporting commit (callback :: callbacks)) memory
        (.handling commit (commit.published.copy seed .clean) callback callbacks)
  | handle (commit : Commit) (copy other : Snapshot Entity) (callback : C) (callbacks : List C) :
      Change seed memory (.handling commit copy callback callbacks) memory
        (.handling commit other callback callbacks)
  | pass (commit : Commit) (copy : Snapshot Entity) (callback : C) (callbacks : List C) :
      Change seed memory (.handling commit copy callback callbacks) memory
        (.reporting commit callbacks)
  | fail (commit : Commit) (copy : Snapshot Entity) (callback : C) (callbacks : List C)
      (failure : Failure) :
      Change seed memory (.handling commit copy callback callbacks) memory
        (.releasing commit (.error failure))
  | complete (commit : Commit) :
      Change seed memory (.reporting commit []) memory (.releasing commit (.ok true))
  | release (commit : Commit) (result : Ending) :
      Change seed memory (.releasing commit result)
        (memory.endReport commit.published.timestamp) (.closing result)

end Stage

theorem Memory.publish_ok {seed : Identity} {working next : Snapshot Entity}
    {memory after : Memory} :
    memory.publish seed working = .ok (next, after) ↔
      working.commit seed memory.committed = .ok next ∧
        after = {memory with committed := next, reports := memory.reports ++ [next.timestamp]} := by
  unfold publish
  cases working.commit seed memory.committed with
  | error failure => exact ⟨nofun, nofun⟩
  | ok found =>
    constructor
    · intro same
      cases same
      exact ⟨rfl, rfl⟩
    · rintro ⟨same, rfl⟩
      cases same
      rfl

namespace Stage

theorem advance_change (thread : Nat) (own : C) (seed : Identity) (memory : Memory)
    (stage : Stage C) :
    stage.Change seed memory (stage.advance thread own seed memory).1
      (stage.advance thread own seed memory).2 := by
  cases stage with
  | called =>
    unfold advance
    cases entered : memory.enter thread with
    | error failure => exact .aside rfl rfl rfl rfl
    | ok inside =>
      unfold Memory.enter at entered
      split at entered <;> cases entered
      exact .aside rfl rfl rfl rfl
  | entered => exact .aside rfl rfl rfl rfl
  | ready attempt => exact .aside rfl rfl rfl rfl
  | working attempt scope => exact .rest _
  | ended attempt scope ending =>
    rcases ending with failure | (_ | _)
    · exact .aside rfl rfl rfl rfl
    · exact .aside rfl rfl rfl rfl
    · rw [advance]
      cases published : memory.publish seed scope.base with
      | error failure => exact .aside rfl rfl rfl rfl
      | ok result =>
        obtain ⟨next, after⟩ := result
        obtain ⟨accepted, rfl⟩ := Memory.publish_ok.mp published
        obtain ⟨data, globals, _, _, rfl⟩ := Snapshot.commit_ok.mp accepted
        exact .publish rfl rfl rfl rfl
  | rejected attempt failure =>
    rw [advance]
    split
    · split <;> exact .aside rfl rfl rfl rfl
    · exact .aside rfl rfl rfl rfl
  | exhausted failure => exact .aside rfl rfl rfl rfl
  | published commit callbacks => exact .record commit callbacks _
  | waiting commit callbacks =>
    rw [advance]
    split
    · next mine => exact .turn commit callbacks thread (by simpa [Memory.hasTurn] using mine)
    · exact .rest _
  | reporting commit callbacks =>
    cases callbacks with
    | nil => exact .complete commit
    | cons callback callbacks => exact .start commit callback callbacks
  | handling commit copy callback callbacks => exact .rest _
  | releasing commit result => exact .release commit result
  | closing result => exact .aside rfl rfl rfl rfl
  | leaving result => exact .aside rfl rfl rfl rfl
  | left result => exact .rest _

end Stage

theorem Call.act_change (seed : Identity) (memory : Memory) (call : Call C) (act : Act C) :
    call.stage.Change seed memory (call.act seed memory act).1 (call.act seed memory act).2 := by
  obtain ⟨thread, own, stage⟩ := call
  cases act with
  | advance => exact stage.advance_change thread own seed memory
  | work scope =>
    cases stage with
    | working attempt before => exact .aside rfl rfl rfl rfl
    | _ => exact .rest _
  | endBody ending =>
    cases stage with
    | working attempt scope => exact .aside rfl rfl rfl rfl
    | _ => exact .rest _
  | handle copy =>
    cases stage with
    | handling commit before callback callbacks => exact .handle _ _ _ _ _
    | _ => exact .rest _
  | endCallback outcome =>
    cases stage with
    | handling commit copy callback callbacks =>
      cases outcome with
      | ok done => exact .pass _ _ _ _
      | error failure => exact .fail _ _ _ _ failure
    | _ => exact .rest _

end TransactionalMemory
