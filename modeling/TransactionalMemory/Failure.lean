/-! Failures: their causes, their wording, and how a failure raised by client code is wrapped.
A wrapped failure never holds another failure unless it was put there by hand. -/
namespace TransactionalMemory

inductive Conflict where
  | cellChanged
  | someEntryChanged
  | entryChanged
  | headTaken
  | tailChanged
  | stated (text : String)
deriving DecidableEq

inductive Absence where
  | outsideTransaction
  | stated (text : String)
deriving DecidableEq

inductive Misuse where
  | cellUncommitted
  | tableUncommitted
  | queueUncommitted
  | bundleUncommitted
  | withinReport
  | withinBody
  | noBranch
  | stated (text : String)
deriving DecidableEq

inductive Breach where
  | foreignCell
  | foreignCollection
  | foreignSnapshot
  | mergeLayout
  | commitLayout
  | mergeKind
  | commitKind
  | slotMissing (index : Nat)
  | slotKind (index : Nat)
  | noSlots
  | queueEmpty
  | foreignScope
  | foreignCommit
  | globalSort
  | policyUnreadable (detail : String)
  | policyMalformed (detail : String)
  | policyUnwritable (detail : String)
  | stated (text : String)
deriving DecidableEq

/-- The failures of the library. An `invocation` wraps a failure of client code that is none
of these; a `layered` one wraps one of these and only arises when it is built by hand. -/
inductive Failure where
  | conflict (cause : Conflict)
  | noTransaction (cause : Absence)
  | misuse (cause : Misuse)
  | breach (cause : Breach)
  | invocation (context : String) (foreign : String)
  | layered (context : String) (inner : Failure)
deriving DecidableEq

def Conflict.message : Conflict → String
  | .cellChanged => "Conflicting update detected"
  | .someEntryChanged => "All the items of this map have been accessed, " ++
      "this prohibits commit in the case of concurrent changes"
  | .entryChanged => "Conflicting changes for an accessed key"
  | .headTaken => "Queue's head was updated"
  | .tailChanged => "Reading past source queue with tail concurrently updated"
  | .stated text => text

def Absence.message : Absence → String
  | .outsideTransaction => "There is no running transaction, cannot access the committed snapshot"
  | .stated text => text

def Misuse.message : Misuse → String
  | .cellUncommitted => "Global state must be committed before calling this method"
  | .tableUncommitted => "Global state map must be committed before calling this method"
  | .queueUncommitted => "Global state queue must be committed before calling this method"
  | .bundleUncommitted => "Global state composite must be committed before calling this method"
  | .withinReport => "Cannot run transaction within committed block"
  | .withinBody => "A transaction is already running on this thread, " ++
      "use TransactionScope::run_transaction for nested transactions"
  | .noBranch => "Nested snapshot stack is empty"
  | .stated text => text

namespace Breach

/-- The part of the message that does not depend on why a policy's text was refused. -/
def headline : Breach → String
  | .foreignCell => "Updates are only possible for references with the same source"
  | .foreignCollection => "Updates are only possible for collections with the same source"
  | .foreignSnapshot => "Updates are only possible from dirty copies of this snapshot"
  | .mergeLayout => "Updates are only possible for composites with the same layout"
  | .commitLayout => "Commit is only possible for composites with the same layout"
  | .mergeKind => "Slot changes have a different entity type"
  | .commitKind => "Global slot has a different entity type"
  | .slotMissing index => s!"Index {index} is out of bounds"
  | .slotKind index => s!"Slot {index} holds a different entity type"
  | .noSlots => "At least one slot must be specified"
  | .queueEmpty => "Queue is empty"
  | .foreignScope => "Transaction scope belongs to a different memory"
  | .foreignCommit => "Snapshot is not a copy of the commit being reported"
  | .globalSort => "Global value holds a different type"
  | .policyUnreadable _ => "Failed to read config file"
  | .policyMalformed _ => "Failed to parse memory config"
  | .policyUnwritable _ => "Failed to serialize memory config"
  | .stated text => text

def message (breach : Breach) : String :=
  match breach with
  | .policyUnreadable detail => breach.headline ++ detail
  | .policyMalformed detail => breach.headline ++ ": " ++ detail
  | .policyUnwritable detail => breach.headline ++ ": " ++ detail
  | _ => breach.headline

end Breach

/-- What a failure of client code may be: something of the client's own, or a failure of the
library that passed through the client's hands. -/
inductive Raised where
  | foreign (text : String)
  | failure (inner : Failure)

namespace Failure

def kind : Failure → String
  | .conflict _ => "Conflict"
  | .noTransaction _ => "NoActiveTransaction"
  | .misuse _ => "EngineMisuse"
  | .breach _ => "ContractViolation"
  | .invocation .. => "InvocationFailure"
  | .layered .. => "InvocationFailure"

def message : Failure → String
  | .conflict cause => "Conflict: " ++ cause.message
  | .noTransaction cause => "No active transaction: " ++ cause.message
  | .misuse cause => "Engine misuse: " ++ cause.message
  | .breach cause => "Contract violation: " ++ cause.message
  | .invocation context foreign => context ++ ": " ++ foreign
  | .layered context inner => context ++ ": " ++ inner.message

def isConflict : Failure → Bool
  | .conflict _ => true
  | _ => false

def isRetryable (failure : Failure) : Bool :=
  failure.isConflict

/-- What an invocation failure wraps; every other failure is given back. -/
def source : Failure → Except Failure Raised
  | .invocation _ foreign => .ok (.foreign foreign)
  | .layered _ inner => .ok (.failure inner)
  | failure => .error failure

/-- Wraps what client code raised. An invocation failure is opened first, so that the new
context replaces the old one; any other failure of the library stays as it is. -/
def invoke (context : String) : Raised → Failure
  | .foreign text => .invocation context text
  | .failure (.invocation _ text) => .invocation context text
  | .failure (.layered _ inner) => .layered context inner
  | .failure other => other

def ofRaised (raised : Raised) : Failure :=
  invoke "Exception in the transactional code" raised

inductive Term where
  | foreign (text : String)
  | conflict (text : String)
  | noTransaction (text : String)
  | misuse (text : String)
  | breach (text : String)
  | invoke (context : String) (inner : Term)
  | layer (context : String) (inner : Term)
  | convert (inner : Term)

namespace Term

/-- A client's own failure stays foreign until something wraps it. -/
def raise : Term → Raised
  | .foreign text => .foreign text
  | .conflict text => .failure (.conflict (.stated text))
  | .noTransaction text => .failure (.noTransaction (.stated text))
  | .misuse text => .failure (.misuse (.stated text))
  | .breach text => .failure (.breach (.stated text))
  | .invoke context inner => .failure (Failure.invoke context inner.raise)
  | .layer context inner =>
    match inner.raise with
    | .foreign text => .failure (.invocation context text)
    | .failure failure => .failure (.layered context failure)
  | .convert inner => .failure (ofRaised inner.raise)

def failure (term : Term) : Failure :=
  match term.raise with
  | .foreign text => ofRaised (.foreign text)
  | .failure failure => failure

end Term
end Failure
end TransactionalMemory
