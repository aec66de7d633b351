import TransactionalMemory.Failure

/-! Failures that are wrapped and raised again, any number of times and in any order. Wrappers
never pile up: what comes out is the failure at the core, and around a client's own failure the
context that was given last. Failures that were layered by hand are left out. -/
namespace TransactionalMemory

/-- A failure that wraps nothing: a client's own, or one that the library has stated. -/
def Raised.Elementary : Raised → Prop
  | .failure (.invocation ..) | .failure (.layered ..) => False
  | _ => True

namespace Failure

/-- A core in the context that was given last, if any was given. -/
def dress : Option String → Raised → Raised
  | some context, .foreign text => .failure (.invocation context text)
  | _, core => core

private theorem invoke_dress {core : Raised} (elementary : core.Elementary) (context : String)
    (former : Option String) :
    .failure (invoke context (dress former core)) = dress (some context) core := by
  cases core with
  | foreign text => cases former <;> rfl
  | failure inner =>
    cases inner with
    | invocation => cases elementary
    | layered => cases elementary
    | _ => cases former <;> rfl

namespace Term

def Unlayered : Term → Prop
  | .invoke _ inner | .convert inner => inner.Unlayered
  | .layer .. => False
  | _ => True

def core : Term → Raised
  | .foreign text => .foreign text
  | .conflict text => .failure (.conflict (.stated text))
  | .noTransaction text => .failure (.noTransaction (.stated text))
  | .misuse text => .failure (.misuse (.stated text))
  | .breach text => .failure (.breach (.stated text))
  | .invoke _ inner | .layer _ inner | .convert inner => inner.core

def contextGiven : Term → Option String
  | .invoke context _ | .layer context _ => some context
  | .convert _ => some "Exception in the transactional code"
  | _ => none

/-- A client's own failure that nothing has wrapped is converted. -/
def context (term : Term) : String :=
  term.contextGiven.getD "Exception in the transactional code"

private theorem elementary_core (term : Term) : term.core.Elementary := by
  induction term with
  | invoke context inner ih => exact ih
  | layer context inner ih => exact ih
  | convert inner ih => exact ih
  | _ => trivial

/-- The induction is over the wrappers: each one opens what the ones below it have left. -/
theorem raise_eq_dress {term : Term} (unlayered : term.Unlayered) :
    term.raise = dress term.contextGiven term.core := by
  induction term with
  | invoke context inner ih =>
    simp only [raise, ih unlayered]
    exact invoke_dress inner.elementary_core context inner.contextGiven
  | convert inner ih =>
    simp only [raise, ofRaised, ih unlayered]
    exact invoke_dress inner.elementary_core _ inner.contextGiven
  | layer context inner ih => cases unlayered
  | _ => rfl

private theorem failure_of_foreign {term : Term} (unlayered : term.Unlayered) {text : String}
    (foreign : term.core = .foreign text) : term.failure = .invocation term.context text := by
  have raised := raise_eq_dress unlayered
  rw [foreign] at raised
  unfold failure context
  cases given : term.contextGiven <;> rw [raised, given] <;> rfl

private theorem failure_of_stated {term : Term} (unlayered : term.Unlayered) {inner : Failure}
    (stated : term.core = .failure inner) : term.failure = inner := by
  have raised := raise_eq_dress unlayered
  rw [stated] at raised
  unfold failure
  cases given : term.contextGiven <;> rw [raised, given] <;> rfl

private theorem source_of_stated {term : Term} (unlayered : term.Unlayered) {inner : Failure}
    (stated : term.core = .failure inner) : term.failure.source = .error inner := by
  have elementary := term.elementary_core
  rw [stated] at elementary
  rw [failure_of_stated unlayered stated]
  cases inner with
  | invocation => cases elementary
  | layered => cases elementary
  | _ => rfl

private theorem raise_of_wrapped {term : Term} (wrapped : ∀ text, term ≠ .foreign text) :
    term.raise = .failure term.failure := by
  cases raised : term.raise with
  | failure inner => simp only [failure, raised]
  | foreign text =>
    cases term with
    | foreign own => exact absurd rfl (wrapped own)
    | layer context inner =>
      simp only [raise] at raised
      split at raised <;> cases raised
    | _ => cases raised

private theorem isRetryable_iff (failure : Failure) :
    failure.isRetryable = true ↔ ∃ cause, failure = .conflict cause := by
  cases failure <;> simp [isRetryable, isConflict]

/-- However often a failure is wrapped and raised again, no failure of the library ends up inside
another one. A client's own failure comes out in the context that was given last, and a failure
that the library has stated comes out as it is. -/
theorem wrapping_keeps_core (term : Term) (unlayered : term.Unlayered) :
    ((∀ text, term ≠ .foreign text) → term.raise = .failure term.failure) ∧
    (∀ inner, term.failure.source ≠ .ok (.failure inner)) ∧
    (∀ text, term.core = .foreign text →
      term.failure = .invocation term.context text ∧
      term.failure.message = term.context ++ ": " ++ text ∧
      term.failure.isRetryable = false ∧ term.failure.source = .ok (.foreign text)) ∧
    ∀ inner, term.core = .failure inner →
      term.failure = inner ∧ term.failure.kind = inner.kind ∧
      term.failure.message = inner.message ∧
      (term.failure.isRetryable = true ↔ ∃ cause, inner = .conflict cause) ∧
      term.failure.source = .error inner := by
  refine ⟨raise_of_wrapped, fun inner layered => ?_, fun text foreign => ?_,
    fun inner stated => ?_⟩
  · cases core : term.core with
    | foreign text =>
      rw [failure_of_foreign unlayered core] at layered
      cases layered
    | failure own =>
      rw [source_of_stated unlayered core] at layered
      cases layered
  · rw [failure_of_foreign unlayered foreign]
    exact ⟨rfl, rfl, rfl, rfl⟩
  · have source := source_of_stated unlayered stated
    rw [failure_of_stated unlayered stated] at source ⊢
    exact ⟨rfl, rfl, rfl, isRetryable_iff inner, source⟩

/-- A client's failure on its way through three transactions, and a conflict on the same way. -/
theorem wrapping_keeps_core_reraised :
    let own : Term := .convert (.invoke "outer" (.convert (.invoke "inner" (.foreign "disk"))))
    let stale : Term := .invoke "outer" (.convert (.invoke "inner" (.conflict "stale")))
    own.Unlayered ∧ stale.Unlayered ∧
      own.failure = .invocation "Exception in the transactional code" "disk" ∧
      own.failure.message = "Exception in the transactional code: disk" ∧
      own.failure.source = .ok (.foreign "disk") ∧
      stale.failure = .conflict (.stated "stale") ∧ stale.failure.isRetryable = true := by
  intro own stale
  obtain ⟨_, _, foreign, _⟩ := wrapping_keeps_core own trivial
  obtain ⟨_, _, _, stated⟩ := wrapping_keeps_core stale trivial
  obtain ⟨wrapped, message, _, source⟩ := foreign "disk" rfl
  obtain ⟨kept, _, _, retryable, _⟩ := stated (.conflict (.stated "stale")) rfl
  exact ⟨trivial, trivial, wrapped, message, source, kept, retryable.mpr ⟨_, rfl⟩⟩

end Term
end Failure
end TransactionalMemory
