import Mathlib.Data.UInt
import TransactionalMemory.RetryPolicy

/-! The delays of a retry policy, compared with unbounded arithmetic. The product saturates in a
64-bit word and the shift stops at the highest bit of the word. Neither shows below a cap that
leaves that bit out. -/
namespace TransactionalMemory.RetryPolicy

/-- Saturation never shows, since the cap is a word itself. Only the bound on the shift is left. -/
theorem toNat_delay (policy : RetryPolicy) (attempt : Nat) :
    (policy.delay attempt).toNat =
      min (policy.baseDelay.toNat * 2 ^ min attempt 63) policy.maxDelay.toNat := by
  have cap := policy.maxDelay.toNat_lt
  have word : UInt64.size = 2 ^ 64 := rfl
  simp only [delay, Nat.shiftLeft_eq, Nat.one_mul, UInt64.toNat_min]
  generalize policy.baseDelay.toNat * 2 ^ min attempt 63 = product
  rw [UInt64.toNat_ofNat_of_lt' (by omega)]
  omega

theorem delay_le_maxDelay (policy : RetryPolicy) (attempt : Nat) :
    policy.delay attempt ≤ policy.maxDelay := by
  rw [UInt64.le_iff_toNat_le, toNat_delay]
  exact Nat.min_le_right _ _

theorem delay_le_delay (policy : RetryPolicy) {attempt later : Nat} (order : attempt ≤ later) :
    policy.delay attempt ≤ policy.delay later := by
  have power : 2 ^ min attempt 63 ≤ 2 ^ min later 63 :=
    Nat.pow_le_pow_right (by decide) (by omega)
  have product := Nat.mul_le_mul_left policy.baseDelay.toNat power
  rw [UInt64.le_iff_toNat_le, toNat_delay, toNat_delay]
  omega

/-- The bound on the shift shows in no delay if the product has reached the cap by then. -/
theorem delay_exact {policy : RetryPolicy}
    (reached : policy.maxDelay.toNat ≤ policy.baseDelay.toNat * 2 ^ 63) (attempt : Nat) :
    (policy.delay attempt).toNat =
      min (policy.baseDelay.toNat * 2 ^ attempt) policy.maxDelay.toNat := by
  rw [toNat_delay]
  rcases Nat.le_total attempt 63 with within | past
  · rw [Nat.min_eq_left within]
  · have power : 2 ^ 63 ≤ 2 ^ attempt := Nat.pow_le_pow_right (by decide) past
    have product := Nat.mul_le_mul_left policy.baseDelay.toNat power
    rw [Nat.min_eq_right past]
    omega

/-- Otherwise the first attempt that is past the highest bit waits too short. -/
theorem delay_exact_iff (policy : RetryPolicy) :
    (∀ attempt, (policy.delay attempt).toNat =
      min (policy.baseDelay.toNat * 2 ^ attempt) policy.maxDelay.toNat) ↔
    policy.baseDelay.toNat = 0 ∨ policy.maxDelay.toNat ≤ policy.baseDelay.toNat * 2 ^ 63 := by
  constructor
  · intro exact
    have beyond := exact 64
    have stopped : min 64 63 = 63 := rfl
    rw [toNat_delay, stopped] at beyond
    omega
  · rintro (idle | reached) attempt
    · simp [toNat_delay, idle]
    · exact delay_exact reached attempt

/-- The delays never fall from one attempt to a later one and stay under the cap. Under a cap that
a signed word can hold, they double exactly until they reach it. -/
theorem delay_doubles_to_cap (policy : RetryPolicy) :
    (∀ attempt later, attempt ≤ later → policy.delay attempt ≤ policy.delay later ∧
      policy.delay later ≤ policy.maxDelay) ∧
    (policy.maxDelay.toNat ≤ 2 ^ 63 - 1 → ∀ attempt, (policy.delay attempt).toNat =
      min (policy.baseDelay.toNat * 2 ^ attempt) policy.maxDelay.toNat) := by
  refine ⟨fun attempt later order => ⟨?_, ?_⟩, fun cap attempt => ?_⟩
  · exact policy.delay_le_delay order
  · exact policy.delay_le_maxDelay later
  · exact policy.delay_exact_iff.mpr (by omega) attempt

/-- A product that just fits, and an attempt whose product is no longer a word. -/
theorem delay_doubles_to_cap_boundary :
    let policy : RetryPolicy := ⟨10, 3, 9223372036854775807⟩
    61 ≤ 64 ∧ policy.delay 61 ≤ policy.delay 64 ∧ policy.delay 64 ≤ policy.maxDelay ∧
      policy.maxDelay.toNat ≤ 2 ^ 63 - 1 ∧ (policy.delay 61).toNat = 3 * 2 ^ 61 ∧
        (policy.delay 64).toNat = 2 ^ 63 - 1 := by
  intro policy
  have cap : policy.maxDelay.toNat ≤ 2 ^ 63 - 1 := by decide
  obtain ⟨rising, exact⟩ := delay_doubles_to_cap policy
  obtain ⟨grows, capped⟩ := rising 61 64 (by decide)
  exact ⟨by decide, grows, capped, cap, (exact cap 61).trans (by decide),
    (exact cap 64).trans (by decide)⟩

end TransactionalMemory.RetryPolicy
