/-! Counts of outer transactions and their outcomes. Every counter is a 64-bit word. A transaction
stays active from its start until it has rolled back, failed or reported its commit. -/
namespace TransactionalMemory

structure Tally where
  active : UInt64
  started : UInt64
  committed : UInt64
  rolledBack : UInt64
  conflicts : UInt64
  failed : UInt64
deriving DecidableEq

namespace Tally

def zero : Tally :=
  ⟨0, 0, 0, 0, 0, 0⟩

/-- Takes one transaction out of the active ones; the counter stays at zero once it is there. -/
def retire (tally : Tally) : Tally :=
  {tally with active := if tally.active = 0 then 0 else tally.active - 1}

def recordStart (tally : Tally) : Tally :=
  {tally with active := tally.active + 1, started := tally.started + 1}

def recordCommit (tally : Tally) : Tally :=
  {tally with committed := tally.committed + 1}

def recordReported (tally : Tally) : Tally :=
  tally.retire

def recordRollback (tally : Tally) : Tally :=
  {tally.retire with rolledBack := tally.rolledBack + 1}

def recordFailure (tally : Tally) : Tally :=
  {tally.retire with failed := tally.failed + 1}

def recordConflict (tally : Tally) : Tally :=
  {tally with conflicts := tally.conflicts + 1}

def completed (tally : Tally) : UInt64 :=
  tally.committed + tally.rolledBack + tally.failed

/-- Both counts are rounded to doubles before they are divided. -/
def ratio (part whole : UInt64) : Float :=
  if whole = 0 then 0 else part.toFloat / whole.toFloat

def commitRate (tally : Tally) : Float :=
  ratio tally.committed tally.started

def conflictRate (tally : Tally) : Float :=
  ratio tally.conflicts tally.started

end Tally
end TransactionalMemory
