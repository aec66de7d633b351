import TransactionalMemory.Access

/-! Scenarios: scripted clients of transactional memories. A scenario names entities, stored
objects, memories and handles, and says step by step what is done with them, on which thread,
inside which transaction. It fixes one interleaving, so that its answers are determined. -/
namespace TransactionalMemory.Scenario

/-- An entity by name, or the one that the innermost running transaction or report works on. -/
inductive Place where
  | variable (name : String)
  | data
  | snapshot

inductive Design where
  | cell (initial : Value)
  | cellOf (kept : String)
  | table (entries : List (String × Value))
  | multimap (entries : List (String × List String))
  | queue (items : List Value)
  | bundle (slots : List Design)
  | snapshot (timestamp : Nat) (data : Design) (globals : List (Nat × Value))
  | variable (name : String)

/-- Where a retry policy is read from; a file that does not exist has no content. -/
inductive PolicySource where
  | standard
  | never
  | text (toml : String)
  | file (path : String) (content : Option ByteArray)

structure PolicyDesign where
  source : PolicySource
  maxRetries : Option UInt64
  baseDelay : Option UInt64
  maxDelay : Option UInt64

inductive Leg where
  | slot (index : Nat)
  | handle (bundle : String) (index : Nat)
  | data

structure Path where
  root : Place
  legs : List Leg

inductive Given where
  | fresh (value : Value)
  | kept (name : String)

inductive CellAsk where
  | deref
  | assoc (given : Given)
  | add (amount : Int)
  | flags

inductive TableAsk (K : Type) where
  | get (key : K)
  | contains (key : K)
  | put (key : K) (given : Given)
  | putAll (entries : List (K × Value))
  | remove (key : K)
  | clear
  | size
  | isEmpty
  | keys
  | progress (limit : Nat) (shown : Bool)
  | add (key : K) (amount : Int)
  | seenWhole

inductive MultimapAsk where
  | request (request : Multimap.Request String String)
  | keys
  | progress (limit : Nat) (shown : Bool)

inductive BundleAsk where
  | size
  | isEmpty
  | isAccessed (index : Nat)

inductive SnapshotAsk where
  | timestamp
  | contents (mode : CopyMode)

inductive Ask where
  | cell (ask : CellAsk)
  | table (ask : TableAsk String)
  | multimap (ask : MultimapAsk)
  | queue (request : Queue.Request Value)
  | bundle (ask : BundleAsk)
  | snapshot (ask : SnapshotAsk)
  | globals (ask : TableAsk Nat)
  | state (kind : Entity.Kind)
  | globalsState

/-- A step may be kept to the first attempts of a body, and its failure may end the body. -/
structure Step (C : Type) where
  below : Option Nat
  binding : Bool
  command : C

/-- A transaction: its body, how the body ends, and what is done once it is committed. A silent
transaction has no callback. -/
structure Clause (C : Type) where
  name : String
  body : List (Step C)
  ending : Except Failure Bool
  silent : Bool
  committed : List (Step C)
  committedFailure : Option Failure

/-- The context that is shown to a memory: the current one, or a snapshot made for the purpose. -/
inductive Shown where
  | current
  | detached (timestamp : Nat)

/-- What a step does. One that could not be made out only says so, and only if it is run. -/
inductive Command where
  | unclear (reason : String)
  | create (name : String) (design : Design)
  | copy (mode : CopyMode) (of : Place) (into : String)
  | merge (mode : MergeMode) (branch : String) (target : Place)
  | commit (of into : Place) (result : String)
  | sameSource (left right : Place)
  | compareTimes (left right : Place)
  | state (of : Place)
  | contents (mode : CopyMode) (of : Place)
  | handle (bundle : String) (index : Nat)
  | keep (name : String) (value : Value)
  | sameObject (left right : String)
  | replace (design : Design)
  | fail (failure : Failure)
  | finish (ending : Bool)
  | ask (path : Path) (ask : Ask) (save : Option String)
  | createMemory (name : String) (design : Design) (policy : PolicyDesign)
  | tally (memory : String)
  | policy (memory : String)
  | nextId (memory : String)
  | memoryState (memory : String)
  | transact (memory : String) (clause : Clause Command)
  | reenter (memory : Option String)
  | nest (clause : Clause Command)
  | depth
  | interfere (memory : String) (clause : Clause Command)
  | spawn (memory : String) (clause : Clause Command)
  | read (memory : String) (shown : Shown)
  | write (memory : String) (shown : Shown) (id : Nat) (value : Value)
  | hostGlobal (handle : String) (memory : String) (value : Value)
  | hostGlobalWithin (handle : String) (memory : String) (value : Value)
  | describeGlobal (handle : String)
  | getGlobal (handle : String) (shown : Shown)
  | setGlobal (handle : String) (shown : Shown) (value : Value)
  | releaseGlobal (handle : String)
  | releaseGlobalWithin (handle : String)
  | dropGlobal (handle : String)

inductive Callback where
  | silent
  | scripted (name : String) (steps : List (Step Command)) (failure : Option Failure)

def Clause.callback (clause : Clause Command) : Callback :=
  if clause.silent then .silent
  else .scripted clause.name clause.committed clause.committedFailure

mutual

def Command.size : Command → Nat
  | .transact _ ⟨_, body, _, _, committed, _⟩ => 1 + stepsSize body + stepsSize committed
  | .nest ⟨_, body, _, _, committed, _⟩ => 1 + stepsSize body + stepsSize committed
  | .interfere _ ⟨_, body, _, _, committed, _⟩ => 1 + stepsSize body + stepsSize committed
  | .spawn _ ⟨_, body, _, _, committed, _⟩ => 1 + stepsSize body + stepsSize committed
  | _ => 1

def stepsSize : List (Step Command) → Nat
  | [] => 0
  | ⟨_, _, command⟩ :: steps => command.size + stepsSize steps

end

end TransactionalMemory.Scenario
