import TransactionalMemory.Failure

/-! How often and after which delay a conflicting transaction is tried again. -/
namespace TransactionalMemory

structure RetryPolicy where
  maxRetries : UInt64
  baseDelay : UInt64
  maxDelay : UInt64
deriving DecidableEq

namespace RetryPolicy

def standard : RetryPolicy :=
  ⟨10000, 0, 100⟩

def never : RetryPolicy :=
  {standard with maxRetries := 0}

/-- Milliseconds to wait before retry number `attempt`. The delay doubles each time, as far as a
64-bit word can tell, and is capped. -/
def delay (policy : RetryPolicy) (attempt : Nat) : UInt64 :=
  let factor := 1 <<< min attempt 63
  let product := min (policy.baseDelay.toNat * factor) (UInt64.size - 1)
  min (UInt64.ofNat product) policy.maxDelay

/-- Whether another attempt is allowed after attempt number `attempt`, counted from zero. -/
def permits (policy : RetryPolicy) (attempt : Nat) : Bool :=
  attempt < policy.maxRetries.toNat

end RetryPolicy
end TransactionalMemory
