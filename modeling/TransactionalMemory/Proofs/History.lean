import Mathlib.Data.List.Induction
import Mathlib.Data.List.Perm.Basic
import TransactionalMemory.Identity

/-! Histories of transactions whose work overlaps. Each transaction starts from some state that
has been published so far and is published against the latest one, at any later time. What it does
in between concerns nobody else, so that beginnings and endings in any order are all interleavings
that there are. -/
namespace TransactionalMemory

/-- A transaction under way. All that it makes is named by its seed. -/
structure Attempt (S W : Type) where
  start : S
  work : W
  seed : Identity

structure History (S W R : Type) where
  latest : S
  earlier : List S
  pending : List (Attempt S W)
  committed : List (Attempt S W × R)
  supply : Supply

/-- A transaction begins on the published state with some number, the latest one being number
zero, or one of those under way ends. -/
inductive Event (W : Type) where
  | begin (index : Nat) (work : W)
  | finish (index : Nat)

namespace History
variable {S W R : Type}

def first (initial : S) (supply : Supply) : History S W R :=
  ⟨initial, [], [], [], supply⟩

def published (history : History S W R) : List S :=
  history.latest :: history.earlier

variable (publish : Attempt S W → S → Option (R × S))

def step (history : History S W R) : Event W → History S W R
  | .begin index work =>
    match history.published[index]? with
    | none => history
    | some start =>
      let (seed, supply) := history.supply.mint
      {history with pending := history.pending ++ [⟨start, work, seed⟩], supply}
  | .finish index =>
    match history.pending[index]? with
    | none => history
    | some attempt =>
      let rest := {history with pending := history.pending.eraseIdx index}
      match publish attempt history.latest with
      | none => rest
      | some (result, next) => {rest with
          latest := next, earlier := history.published,
          committed := history.committed ++ [(attempt, result)]}

def run (initial : S) (supply : Supply) (events : List (Event W)) : History S W R :=
  events.foldl (step publish) (first initial supply)

/-- An identity that nobody has used for a commit, nor before the history began. -/
def Unused (supply : Supply) (committed : List (Attempt S W × R)) (seed : Identity) : Prop :=
  supply.next ≤ seed.origin ∧ ∀ commit ∈ committed, commit.1.seed.origin ≠ seed.origin

/-- What the order of beginnings and endings cannot break: attempts start from published states
and their seeds are all different. -/
structure Ordered (supply : Supply) (history : History S W R) : Prop where
  supplied : supply.next ≤ history.supply.next
  started : ∀ attempt ∈ history.pending, attempt.start ∈ history.published
  minted : ∀ attempt ∈ history.pending, attempt.seed.origin < history.supply.next
  spent : ∀ commit ∈ history.committed, commit.1.seed.origin < history.supply.next
  unused : ∀ attempt ∈ history.pending, Unused supply history.committed attempt.seed
  apart : history.pending.Pairwise fun one other => one.seed.origin ≠ other.seed.origin

private theorem ordered_first (initial : S) (supply : Supply) :
    (first initial supply : History S W R).Ordered supply := by
  constructor <;> simp [first]

variable {publish}

private theorem Ordered.begin {supply : Supply} {history : History S W R}
    (ordered : history.Ordered supply) (index : Nat) (work : W) :
    (step publish history (.begin index work)).Ordered supply := by
  obtain ⟨supplied, started, minted, spent, unused, apart⟩ := ordered
  rw [step]
  split
  · exact ⟨supplied, started, minted, spent, unused, apart⟩
  · next start found =>
    have known : start ∈ history.published := List.mem_of_getElem? found
    constructor
    · exact Nat.le_succ_of_le supplied
    · intro attempt member
      rcases List.mem_append.mp member with old | new
      · exact started attempt old
      · rw [List.mem_singleton.mp new]
        exact known
    · intro attempt member
      rcases List.mem_append.mp member with old | new
      · exact Nat.lt_succ_of_lt (minted attempt old)
      · rw [List.mem_singleton.mp new]
        exact Nat.lt_succ_self _
    · intro commit member
      exact Nat.lt_succ_of_lt (spent commit member)
    · intro attempt member
      rcases List.mem_append.mp member with old | new
      · exact unused attempt old
      · rw [List.mem_singleton.mp new]
        exact ⟨supplied, fun commit member => Nat.ne_of_lt (spent commit member)⟩
    · refine List.pairwise_append.mpr ⟨apart, List.pairwise_singleton _ _, ?_⟩
      intro attempt old other new
      rw [List.mem_singleton.mp new]
      exact Nat.ne_of_lt (minted attempt old)

private theorem eraseIdx_apart {pending : List (Attempt S W)} {index : Nat} {attempt : Attempt S W}
    (apart : pending.Pairwise fun one other => one.seed.origin ≠ other.seed.origin)
    (found : pending[index]? = some attempt) :
    ∀ other ∈ pending.eraseIdx index, attempt.seed.origin ≠ other.seed.origin := by
  obtain ⟨bound, rfl⟩ := List.getElem?_eq_some_iff.mp found
  have moved := List.getElem_cons_eraseIdx_perm bound
  exact (List.pairwise_cons.mp (apart.perm moved.symm fun one => one.symm)).1

private theorem Ordered.finish {supply : Supply} {history : History S W R}
    (ordered : history.Ordered supply) (index : Nat) :
    (step publish history (.finish index)).Ordered supply := by
  obtain ⟨supplied, started, minted, spent, unused, apart⟩ := ordered
  rw [step]
  split
  · exact ⟨supplied, started, minted, spent, unused, apart⟩
  · next attempt found =>
    have subset : history.pending.eraseIdx index ⊆ history.pending := List.eraseIdx_subset
    have member : attempt ∈ history.pending := List.mem_of_getElem? found
    have others := eraseIdx_apart apart found
    have shrunk := apart.sublist (List.eraseIdx_sublist history.pending index)
    split
    · exact ⟨supplied, fun other old => started other (subset old),
        fun other old => minted other (subset old), spent,
        fun other old => unused other (subset old), shrunk⟩
    · next result next _ =>
      refine ⟨supplied, fun other old => List.mem_cons_of_mem _ (started other (subset old)),
        fun other old => minted other (subset old), ?_, ?_, shrunk⟩
      · intro commit committed
        rcases List.mem_append.mp committed with old | new
        · exact spent commit old
        · rw [List.mem_singleton.mp new]
          exact minted attempt member
      · intro other old
        refine ⟨(unused other (subset old)).1, ?_⟩
        intro commit committed
        rcases List.mem_append.mp committed with before | new
        · exact (unused other (subset old)).2 commit before
        · rw [List.mem_singleton.mp new]
          exact others other old

variable (publish) in
theorem ordered_run (initial : S) (supply : Supply) (events : List (Event W)) :
    (run publish initial supply events).Ordered supply := by
  induction events using List.reverseRecOn with
  | nil => exact ordered_first initial supply
  | append_singleton events event ih =>
    rw [run, List.foldl_concat]
    cases event with
    | begin index work => exact ih.begin index work
    | finish index => exact ih.finish index

variable (publish) in
theorem run_induction (initial : S) (supply : Supply)
    (Holds : S → List S → List (Attempt S W × R) → Prop)
    (first : Holds initial [] [])
    (commit : ∀ {latest earlier committed attempt result next},
      Holds latest earlier committed → attempt.start ∈ latest :: earlier →
      Unused supply committed attempt.seed → publish attempt latest = some (result, next) →
      Holds next (latest :: earlier) (committed ++ [(attempt, result)]))
    (events : List (Event W)) :
    Holds (run publish initial supply events).latest (run publish initial supply events).earlier
      (run publish initial supply events).committed := by
  induction events using List.reverseRecOn with
  | nil => exact first
  | append_singleton events event ih =>
    have ordered := ordered_run publish initial supply events
    rw [run, List.foldl_concat, ← run] at *
    generalize run publish initial supply events = history at ih ordered
    cases event with
    | begin index work =>
      rw [step]
      split <;> exact ih
    | finish index =>
      rw [step]
      split
      · exact ih
      · next attempt found =>
        have member : attempt ∈ history.pending := List.mem_of_getElem? found
        split
        · exact ih
        · next result next published =>
          exact commit ih (ordered.started attempt member) (ordered.unused attempt member) published

end History
end TransactionalMemory
