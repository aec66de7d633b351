import Mathlib.Algebra.GroupWithZero.Nat
import Mathlib.Data.List.Induction
import TransactionalMemory.Proofs.Relation
import TransactionalMemory.Proofs.Threads

/-! The books of a memory. An outer transaction goes through one of a few sequences of milestones,
and each counter is the number of milestones of its kind, over all transactions. The counters are
words, and lose nothing as long as no more starts and rejections occur than a word can count. -/
namespace TransactionalMemory
variable {C : Type}

/-- A commit takes effect, or is rejected because of a conflict, in one step, and is recorded in
another one. -/
inductive Milestone where
  | refused
  | started
  | rejected
  | conflict
  | published
  | committed
  | callbackFailed
  | rolledBack
  | failed
  | finished
deriving DecidableEq

namespace Milestone

def closes : Milestone → Bool
  | .rolledBack | .failed | .finished => true
  | _ => false

/-- A start and the attempts that were rejected since. -/
def tried : (attempts : Nat) → List Milestone
  | 0 => [.started]
  | attempts + 1 => tried attempts ++ [.rejected, .conflict]

end Milestone

/-- Where a transaction stands in the books, whatever the engine does about it at the moment. -/
inductive Standing where
  | outside
  | trying
  | turnedDown
  | published
  | reporting
  | abandoned
  | closed (result : Ending)

def Stage.standing : Stage C → Standing
  | .called | .entered => .outside
  | .ready _ | .working .. | .ended .. | .exhausted _ => .trying
  | .rejected _ failure => if failure.isConflict then .turnedDown else .trying
  | .published .. => .published
  | .waiting .. | .reporting .. | .handling .. => .reporting
  | .releasing _ (.ok _) | .closing (.ok _) => .reporting
  | .releasing _ (.error _) | .closing (.error _) => .abandoned
  | .leaving result | .left result => .closed result

namespace Standing

def milestone? : (before after : Standing) → Option Milestone
  | .outside, .closed _ => some .refused
  | .outside, .trying => some .started
  | .trying, .turnedDown => some .rejected
  | .turnedDown, .trying => some .conflict
  | .trying, .published => some .published
  | .published, .reporting => some .committed
  | .reporting, .abandoned => some .callbackFailed
  | .trying, .closed (.ok _) => some .rolledBack
  | .trying, .closed (.error _) => some .failed
  | .reporting, .closed _ => some .finished
  | .abandoned, .closed _ => some .finished
  | _, _ => none

open Milestone in
/-- What lies behind a transaction of this standing. -/
inductive Lived : Standing → List Milestone → Prop where
  | outside : Lived .outside []
  | refused (failure : Failure) : Lived (.closed (.error failure)) [.refused]
  | trying (attempts : Nat) : Lived .trying (tried attempts)
  | turnedDown (attempts : Nat) : Lived .turnedDown (tried attempts ++ [.rejected])
  | published (attempts : Nat) : Lived .published (tried attempts ++ [.published])
  | reporting (attempts : Nat) : Lived .reporting (tried attempts ++ [.published, .committed])
  | abandoned (attempts : Nat) :
    Lived .abandoned (tried attempts ++ [.published, .committed, .callbackFailed])
  | rolledBack (attempts : Nat) : Lived (.closed (.ok false)) (tried attempts ++ [.rolledBack])
  | failed (attempts : Nat) (failure : Failure) :
    Lived (.closed (.error failure)) (tried attempts ++ [.failed])
  | finished (attempts : Nat) (truth : Bool) :
    Lived (.closed (.ok truth)) (tried attempts ++ [.published, .committed, .finished])
  | broken (attempts : Nat) (failure : Failure) : Lived (.closed (.error failure))
    (tried attempts ++ [.published, .committed, .callbackFailed, .finished])

/-- Everything that a move can do to the standing of a transaction, and what becomes of the tally
and of the number of commits. -/
inductive Posting (tally : Tally) (commits : Nat) :
    (before next : Standing) → (after : Tally) → Nat → Prop where
  | still (standing : Standing) : Posting tally commits standing standing tally commits
  | refuse (failure : Failure) :
    Posting tally commits .outside (.closed (.error failure)) tally commits
  | start : Posting tally commits .outside .trying tally.recordStart commits
  | reject : Posting tally commits .trying .turnedDown tally commits
  | retry : Posting tally commits .turnedDown .trying tally.recordConflict commits
  | publish : Posting tally commits .trying .published tally (commits + 1)
  | commit : Posting tally commits .published .reporting tally.recordCommit commits
  | abandon : Posting tally commits .reporting .abandoned tally commits
  | rollBack : Posting tally commits .trying (.closed (.ok false)) tally.recordRollback commits
  | fail (failure : Failure) :
    Posting tally commits .trying (.closed (.error failure)) tally.recordFailure commits
  | finish (truth : Bool) :
    Posting tally commits .reporting (.closed (.ok truth)) tally.recordReported commits
  | breakOff (failure : Failure) :
    Posting tally commits .abandoned (.closed (.error failure)) tally.recordReported commits

end Standing

open Standing in
private theorem Stage.posting_advance (thread : Nat) (own : C) (seed : Identity) (memory : Memory)
    (stage : Stage C) :
    let advanced := stage.advance thread own seed memory
    Posting memory.tally memory.committed.timestamp stage.standing advanced.2.standing
      advanced.1.tally advanced.1.committed.timestamp := by
  cases stage with
  | called =>
    simp only [advance, Memory.enter]
    split
    · next entered =>
      split at entered <;> cases entered
      exact .still _
    · exact .refuse _
  | entered => exact .start
  | ready attempt => exact .still _
  | working attempt scope => exact .still _
  | ended attempt scope ending =>
    rcases ending with failure | (_ | _)
    · exact .fail failure
    · exact .rollBack
    · rw [advance]
      cases published : memory.publish seed scope.base with
      | error failure =>
        dsimp only [standing]
        split
        · exact .reject
        · exact .still _
      | ok result =>
        obtain ⟨next, after⟩ := result
        obtain ⟨accepted, rfl⟩ := Memory.publish_ok.mp published
        obtain ⟨data, globals, _, _, rfl⟩ := Snapshot.commit_ok.mp accepted
        exact .publish
  | rejected attempt failure =>
    rw [advance, standing]
    by_cases conflict : failure.isConflict = true
    · rw [if_pos conflict, if_pos conflict]
      cases memory.policy.permits attempt <;> exact .retry
    · rw [if_neg conflict, if_neg conflict]
      exact .fail failure
  | exhausted failure => exact .fail failure
  | published commit callbacks => exact .commit
  | waiting commit callbacks =>
    rw [advance]
    cases memory.hasTurn commit.published.timestamp <;> exact .still _
  | reporting commit callbacks => cases callbacks <;> exact .still _
  | handling commit copy callback callbacks => exact .still _
  | releasing commit result =>
    have same : (memory.endReport commit.published.timestamp).tally = memory.tally ∧
        (memory.endReport commit.published.timestamp).committed = memory.committed := by
      unfold Memory.endReport
      split <;> exact ⟨rfl, rfl⟩
    simp only [advance, same]
    cases result <;> exact .still _
  | closing result =>
    cases result with
    | ok truth => exact .finish truth
    | error failure => exact .breakOff failure
  | leaving result => exact .still _
  | left result => exact .still _

open Standing in
private theorem Call.posting_act (seed : Identity) (memory : Memory) (call : Call C) (act : Act C) :
    let acted := call.act seed memory act
    Posting memory.tally memory.committed.timestamp call.stage.standing acted.2.standing
      acted.1.tally acted.1.committed.timestamp := by
  obtain ⟨thread, own, stage⟩ := call
  cases act with
  | advance => exact stage.posting_advance thread own seed memory
  | work scope => cases stage <;> exact .still _
  | endBody ending => cases stage <;> exact .still _
  | handle copy => cases stage <;> exact .still _
  | endCallback outcome =>
    cases stage with
    | handling commit copy callback callbacks =>
      cases outcome with
      | ok done => exact .still _
      | error failure => exact .abandon
    | _ => exact .still _

namespace Standing
variable {tally after : Tally} {commits commits' : Nat} {before next : Standing}
  {life : List Milestone}

private theorem milestone?_self (standing : Standing) : standing.milestone? standing = none := by
  cases standing <;> rfl

private theorem Posting.lived (posting : Posting tally commits before next after commits')
    (lived : Lived before life) : Lived next (life ++ (before.milestone? next).toList) := by
  cases posting with
  | still =>
    rw [milestone?_self, Option.toList_none, List.append_nil]
    exact lived
  | refuse failure => cases lived with | outside => exact .refused failure
  | start => cases lived with | outside => exact .trying 0
  | reject => cases lived with | trying attempts => exact .turnedDown attempts
  | retry =>
    cases lived with
    | turnedDown attempts =>
      rw [List.append_assoc]
      exact .trying (attempts + 1)
  | publish => cases lived with | trying attempts => exact .published attempts
  | commit =>
    cases lived with
    | published attempts =>
      rw [List.append_assoc]
      exact .reporting attempts
  | abandon =>
    cases lived with
    | reporting attempts =>
      rw [List.append_assoc]
      exact .abandoned attempts
  | rollBack => cases lived with | trying attempts => exact .rolledBack attempts
  | fail failure => cases lived with | trying attempts => exact .failed attempts failure
  | finish truth =>
    cases lived with
    | reporting attempts =>
      rw [List.append_assoc]
      exact .finished attempts truth
  | breakOff failure =>
    cases lived with
    | abandoned attempts =>
      rw [List.append_assoc]
      exact .broken attempts failure

end Standing

/-- How many milestones of a kind there are. -/
def total (milestone : Milestone) (lives : List (List Milestone)) : Nat :=
  lives.flatten.count milestone

abbrev Running (life : List Milestone) : Prop :=
  .started ∈ life ∧ .rolledBack ∉ life ∧ .failed ∉ life ∧ .finished ∉ life

/-- No commit, rollback or failure is recorded yet. -/
abbrev Undecided (life : List Milestone) : Prop :=
  .started ∈ life ∧ .committed ∉ life ∧ .rolledBack ∉ life ∧ .failed ∉ life

/-- Between a rejection and its record. -/
abbrev TurnedDown (life : List Milestone) : Prop :=
  life.count .conflict < life.count .rejected

/-- Between a commit and its record. -/
abbrev Unrecorded (life : List Milestone) : Prop :=
  .published ∈ life ∧ .committed ∉ life

private theorem total_cons (milestone : Milestone) (life : List Milestone)
    (lives : List (List Milestone)) :
    total milestone (life :: lives) = life.count milestone + total milestone lives := by
  rw [total, List.flatten_cons, List.count_append, total]

@[simp] theorem Milestone.count_tried (milestone : Milestone) (attempts : Nat) :
    (tried attempts).count milestone = if milestone = .started then 1
      else if milestone = .rejected ∨ milestone = .conflict then attempts else 0 := by
  induction attempts with
  | zero => cases milestone <;> rfl
  | succ attempts ih =>
    rw [tried, List.count_append, ih]
    cases milestone <;> rfl

@[simp] theorem Milestone.mem_tried {milestone : Milestone} {attempts : Nat} :
    milestone ∈ tried attempts ↔ milestone = .started ∨
      (milestone = .rejected ∨ milestone = .conflict) ∧ attempts ≠ 0 := by
  rw [← List.count_pos_iff, count_tried]
  cases milestone <;> simp [Nat.pos_iff_ne_zero]

namespace Standing.Lived
variable {standing : Standing} {life : List Milestone}

private theorem count_decided (lived : Lived standing life) :
    life.count .started = life.count .committed + life.count .rolledBack + life.count .failed +
      if Undecided life then 1 else 0 := by
  cases lived <;> simp

private theorem count_closed (lived : Lived standing life) :
    life.count .started = life.count .rolledBack + life.count .failed + life.count .finished +
      if Running life then 1 else 0 := by
  cases lived <;> simp

private theorem count_rejected (lived : Lived standing life) :
    life.count .rejected = life.count .conflict + if TurnedDown life then 1 else 0 := by
  cases lived <;> simp

private theorem count_published (lived : Lived standing life) :
    life.count .published = life.count .committed + if Unrecorded life then 1 else 0 := by
  cases lived <;> simp

private theorem running_of_undecided (lived : Lived standing life) (undecided : Undecided life) :
    Running life := by
  cases lived <;> simp_all [Undecided, Running]

private theorem committed_of_callbackFailed (lived : Lived standing life)
    (broken : .callbackFailed ∈ life) : .committed ∈ life ∧ .failed ∉ life := by
  cases lived <;> simp_all

private theorem eq_of_refused (lived : Lived standing life) (refused : .refused ∈ life) :
    life = [.refused] := by
  cases lived <;> simp_all

end Standing.Lived

def Threads.milestone? (threads : Threads C) : Move C → Option Milestone
  | .call .. => none
  | .act index act => do
    let call ← threads.calls[index]?
    call.stage.standing.milestone?
      (call.act threads.supply.mint.1 threads.memory act).2.standing

/-- Threads together with what lies behind each of their calls. -/
structure Watched (C : Type) where
  threads : Threads C
  lives : List (List Milestone)

namespace Watched

abbrev tally (watched : Watched C) : Tally :=
  watched.threads.memory.tally

abbrev commits (watched : Watched C) : Nat :=
  watched.threads.memory.committed.timestamp

def start (memory : Memory) (supply : Supply) : Watched C :=
  ⟨.start memory supply, []⟩

def step (watched : Watched C) (move : Move C) : Watched C :=
  ⟨watched.threads.step move,
    match move with
    | .call .. => watched.lives ++ [[]]
    | .act index _ =>
      watched.lives.modify index (· ++ (watched.threads.milestone? move).toList)⟩

def run (memory : Memory) (supply : Supply) (moves : List (Move C)) : Watched C :=
  moves.foldl step (start memory supply)

private theorem run_concat (memory : Memory) (supply : Supply) (moves : List (Move C))
    (move : Move C) : run memory supply (moves ++ [move]) = (run memory supply moves).step move :=
  List.foldl_concat step _ move moves

theorem threads_run (memory : Memory) (supply : Supply) (moves : List (Move C)) :
    (run memory supply moves).threads = Threads.run memory supply moves := by
  induction moves using List.reverseRecOn with
  | nil => rfl
  | append_singleton moves move ih =>
    rw [run_concat, Threads.run, List.foldl_concat, ← Threads.run, ← ih]
    rfl

/-- Every call has lived through what leads to its standing. -/
def Recounted (watched : Watched C) : Prop :=
  List.Forall₂ (fun call life => Standing.Lived call.stage.standing life)
    watched.threads.calls watched.lives

/-- What a move makes of the books. -/
structure Posted (watched : Watched C) (move : Move C) (before next : Standing) : Prop where
  milestone : watched.threads.milestone? move = before.milestone? next
  posting : before.Posting watched.tally watched.commits next (watched.step move).tally
    (watched.step move).commits
  counts : ∀ milestone, total milestone (watched.step move).lives =
    total milestone watched.lives + (before.milestone? next).toList.count milestone

variable {watched : Watched C}

private theorem total_set {lives : List (List Milestone)} {index : Nat} {life : List Milestone}
    (found : lives[index]? = some life) (milestone : Milestone) (later : List Milestone) :
    total milestone (lives.set index (life ++ later)) =
      total milestone lives + later.count milestone := by
  obtain ⟨front, back, rfl, replaced⟩ := split_at found
  rw [replaced]
  simp only [total, List.flatten_append, List.flatten_cons, List.count_append]
  omega

private theorem step_missing {index : Nat} (recounted : watched.Recounted)
    (missing : watched.threads.calls[index]? = none) (act : Act C) :
    watched.step (.act index act) = watched := by
  have absent : watched.lives.length ≤ index := by
    rw [← List.Forall₂.length_eq recounted]
    exact List.getElem?_eq_none_iff.mp missing
  simp [Watched.step, Threads.step, missing, List.modify_eq_self absent]

private theorem step_found {index : Nat} {call : Call C} {life : List Milestone}
    (found : watched.threads.calls[index]? = some call) (there : watched.lives[index]? = some life)
    (act : Act C) :
    let acted := call.act watched.threads.supply.mint.1 watched.threads.memory act
    let milestone := call.stage.standing.milestone? acted.2.standing
    watched.threads.milestone? (.act index act) = milestone ∧
      (watched.step (.act index act)).threads.memory = acted.1 ∧
      (watched.step (.act index act)).threads.calls =
        watched.threads.calls.set index {call with stage := acted.2} ∧
      (watched.step (.act index act)).lives =
        watched.lives.set index (life ++ milestone.toList) := by
  simp [Threads.milestone?, Watched.step, Threads.step, found, List.modify_eq_set, there]

theorem Recounted.step (recounted : watched.Recounted) (move : Move C) :
    (watched.step move).Recounted ∧ ∃ before next, watched.Posted move before next := by
  cases move with
  | call thread own =>
    refine ⟨List.rel_append recounted (.cons .outside .nil), .outside, .outside, rfl, .still _, ?_⟩
    intro milestone
    simp [Watched.step, total, Standing.milestone?_self]
  | act index act =>
    rcases Entity.forall₂_getElem? recounted index with
      ⟨missing, absent⟩ | ⟨call, life, found, there, lived⟩
    · have same := step_missing recounted missing act
      refine ⟨by rwa [same], .outside, .outside, ?_, ?_, ?_⟩
      · simp [Threads.milestone?, missing, Standing.milestone?_self]
      · rw [same]
        exact .still _
      · simp [same, Standing.milestone?_self]
    · have posting := call.posting_act watched.threads.supply.mint.1 watched.threads.memory act
      obtain ⟨milestone, memory, calls, lives⟩ := step_found found there act
      refine ⟨?_, _, _, milestone, ?_, ?_⟩
      · rw [Recounted, calls, lives]
        exact Entity.forall₂_set recounted index (posting.lived lived)
      · simp only [Watched.tally, Watched.commits, memory]
        exact posting
      · intro milestone
        rw [lives]
        exact total_set there milestone _

end Watched

/-- The counters as numbers of milestones. -/
structure Booked (tally : Tally) (commits : Nat) (total : Milestone → Nat) : Prop where
  active : tally.active.toNat + total .rolledBack + total .failed + total .finished =
    total .started
  started : tally.started.toNat = total .started
  committed : tally.committed.toNat = total .committed
  rolledBack : tally.rolledBack.toNat = total .rolledBack
  conflicts : tally.conflicts.toNat = total .conflict
  failed : tally.failed.toNat = total .failed
  published : commits = total .published

/-- No counter has to count further than a word can. -/
structure Sized (total : Milestone → Nat) : Prop where
  started : total .started < 2 ^ 64
  conflict : total .conflict < 2 ^ 64
  decided : total .committed + total .rolledBack + total .failed ≤ total .started
  closed : total .rolledBack + total .failed + total .finished ≤ total .started

private theorem toNat_succ {word : UInt64} {number : Nat} (same : word.toNat = number)
    (room : number + 1 < 2 ^ 64) : (word + 1).toNat = number + 1 := by
  rw [UInt64.toNat_add, same]
  exact Nat.mod_eq_of_lt room

private theorem Tally.active_retire {tally : Tally} (positive : 0 < tally.active.toNat) :
    tally.retire.active.toNat + 1 = tally.active.toNat := by
  have nonzero : tally.active ≠ 0 := by
    intro zero
    simp [zero] at positive
  have least : 1 ≤ tally.active := by
    rw [UInt64.le_iff_toNat_le]
    exact positive
  rw [retire, if_neg nonzero, UInt64.toNat_sub_of_le _ _ least]
  exact Nat.sub_add_cancel positive

section
variable {tally after : Tally} {commits commits' : Nat} {before next : Standing}
  {count : Milestone → Nat}

private theorem Booked.retire (booked : Booked tally commits count)
    (room : count .rolledBack + count .failed + count .finished < count .started) :
    tally.retire.active.toNat + 1 + count .rolledBack + count .failed + count .finished =
      count .started := by
  have active := booked.active
  have retired := Tally.active_retire (show 0 < tally.active.toNat by omega)
  omega

private theorem Standing.Posting.booked (posting : before.Posting tally commits next after commits')
    (booked : Booked tally commits count)
    (sized : Sized fun milestone =>
      count milestone + (before.milestone? next).toList.count milestone) :
    Booked after commits' fun milestone =>
      count milestone + (before.milestone? next).toList.count milestone := by
  have retired := booked.retire
  obtain ⟨active, started, committed, rolledBack, conflicts, failed, published⟩ := booked
  obtain ⟨few, fewConflicts, decided, closed⟩ := sized
  -- What has not been reached counts as before, by computation.
  cases posting with
  | still =>
    rw [milestone?_self]
    exact ⟨active, started, committed, rolledBack, conflicts, failed, published⟩
  | refuse _ | reject | abandon =>
    exact ⟨active, started, committed, rolledBack, conflicts, failed, published⟩
  | start =>
    have few : count .started + 1 < 2 ^ 64 := few
    have opened := toNat_succ rfl (show tally.active.toNat + 1 < 2 ^ 64 by omega)
    have active : (tally.active + 1).toNat + count .rolledBack + count .failed + count .finished =
        count .started + 1 := by omega
    exact ⟨active, toNat_succ started few, committed, rolledBack, conflicts, failed, published⟩
  | retry =>
    exact ⟨active, started, committed, rolledBack, toNat_succ conflicts fewConflicts, failed,
      published⟩
  | publish =>
    exact ⟨active, started, committed, rolledBack, conflicts, failed, congrArg (· + 1) published⟩
  | commit =>
    have few : count .started < 2 ^ 64 := few
    have decided : count .committed + 1 + count .rolledBack + count .failed ≤ count .started :=
      decided
    exact ⟨active, started, toNat_succ committed (by omega), rolledBack, conflicts, failed,
      published⟩
  | rollBack =>
    have few : count .started < 2 ^ 64 := few
    have closed : count .rolledBack + 1 + count .failed + count .finished ≤ count .started := closed
    have active : tally.retire.active.toNat + (count .rolledBack + 1) + count .failed +
        count .finished = count .started := by omega
    exact ⟨active, started, committed, toNat_succ rolledBack (by omega), conflicts, failed,
      published⟩
  | fail failure =>
    have few : count .started < 2 ^ 64 := few
    have closed : count .rolledBack + (count .failed + 1) + count .finished ≤ count .started :=
      closed
    have active : tally.retire.active.toNat + count .rolledBack + (count .failed + 1) +
        count .finished = count .started := by omega
    exact ⟨active, started, committed, rolledBack, conflicts, toNat_succ failed (by omega),
      published⟩
  | finish _ | breakOff _ =>
    have closed : count .rolledBack + count .failed + (count .finished + 1) ≤ count .started :=
      closed
    have active : tally.retire.active.toNat + count .rolledBack + count .failed +
        (count .finished + 1) = count .started := by omega
    exact ⟨active, started, committed, rolledBack, conflicts, failed, published⟩

end

namespace Watched
variable {watched : Watched C}

private theorem Recounted.lived (recounted : watched.Recounted) {life : List Milestone}
    (member : life ∈ watched.lives) : ∃ standing, Standing.Lived standing life := by
  obtain ⟨index, there⟩ := List.mem_iff_getElem?.mp member
  rcases Entity.forall₂_getElem? recounted index with ⟨_, absent⟩ | ⟨call, _, _, found, lived⟩
  · rw [absent] at there
    cases there
  · rw [found] at there
    cases there
    exact ⟨_, lived⟩

/-- How the milestones of one kind are shared among those that may follow. -/
structure Shared (lives : List (List Milestone)) : Prop where
  decided : total .started lives = total .committed lives + total .rolledBack lives +
    total .failed lives + lives.countP (Undecided ·)
  closed : total .started lives = total .rolledBack lives + total .failed lives +
    total .finished lives + lives.countP (Running ·)
  rejected : total .rejected lives = total .conflict lives + lives.countP (TurnedDown ·)
  published : total .published lives = total .committed lives + lives.countP (Unrecorded ·)

private theorem shared_of_lived {lives : List (List Milestone)}
    (lived : ∀ life ∈ lives, ∃ standing, Standing.Lived standing life) : Shared lives := by
  induction lives with
  | nil => exact ⟨rfl, rfl, rfl, rfl⟩
  | cons life lives ih =>
    obtain ⟨standing, first⟩ := lived life List.mem_cons_self
    obtain ⟨decided, closed, rejected, published⟩ :=
      ih fun other member => lived other (.tail _ member)
    have firstDecided := first.count_decided
    have firstClosed := first.count_closed
    have firstRejected := first.count_rejected
    have firstPublished := first.count_published
    constructor <;> simp only [total_cons, List.countP_cons, decide_eq_true_eq] <;> omega

private theorem Recounted.shared (recounted : watched.Recounted) : Shared watched.lives :=
  shared_of_lived fun _ => recounted.lived

/-- There are not more starts and rejections than a word can count. -/
def Few (watched : Watched C) : Prop :=
  total .started watched.lives < 2 ^ 64 ∧ total .rejected watched.lives < 2 ^ 64

def InBooks (watched : Watched C) : Prop :=
  Booked watched.tally watched.commits (total · watched.lives)

private theorem Recounted.sized (recounted : watched.Recounted) (few : watched.Few) :
    Sized (total · watched.lives) := by
  obtain ⟨decided, closed, rejected, _⟩ := recounted.shared
  obtain ⟨fewStarts, fewRejections⟩ := few
  constructor <;> omega

private theorem Posted.inBooks {move : Move C} {before next : Standing}
    (posted : watched.Posted move before next) (booked : watched.InBooks)
    (sized : Sized (total · (watched.step move).lives)) : (watched.step move).InBooks := by
  have counts := funext posted.counts
  rw [InBooks, counts]
  rw [counts] at sized
  exact posted.posting.booked booked sized

private theorem Posted.few {move : Move C} {before next : Standing}
    (posted : watched.Posted move before next) (few : (watched.step move).Few) : watched.Few := by
  obtain ⟨fewStarts, fewRejections⟩ := few
  rw [posted.counts] at fewStarts fewRejections
  constructor <;> omega

theorem booked_run (seed : Identity) (policy : RetryPolicy) (data : Entity) (supply : Supply)
    (moves : List (Move C)) :
    let watched := run (Memory.create seed policy data) supply moves
    watched.Recounted ∧ (watched.Few → watched.InBooks) := by
  induction moves using List.reverseRecOn with
  | nil => exact ⟨.nil, fun _ => ⟨rfl, rfl, rfl, rfl, rfl, rfl, rfl⟩⟩
  | append_singleton moves move ih =>
    obtain ⟨recounted, booked⟩ := ih
    rw [run_concat]
    obtain ⟨recounted', before, next, posted⟩ := recounted.step move
    refine ⟨recounted', fun few => ?_⟩
    exact posted.inBooks (booked (posted.few few)) (recounted'.sized few)

private theorem Recounted.unsaturated (recounted : watched.Recounted) (few : watched.Few)
    (booked : watched.InBooks) {move : Move C} {milestone : Milestone}
    (reached : watched.threads.milestone? move = some milestone)
    (closes : milestone.closes = true) :
    (watched.step move).tally.active.toNat + 1 = watched.tally.active.toNat := by
  obtain ⟨recounted', before, next, posted⟩ := recounted.step move
  have counts (other : Milestone) : total other (watched.step move).lives =
      total other watched.lives + if milestone = other then 1 else 0 := by
    rw [posted.counts, ← posted.milestone, reached]
    simp [List.count_singleton]
  have apart : milestone ≠ .started ∧ milestone ≠ .rejected := by
    constructor <;> rintro rfl <;> cases closes
  have few' : (watched.step move).Few := by
    rw [Few, counts, counts, if_neg apart.1, if_neg apart.2]
    exact few
  have active := booked.active
  have active' := (posted.inBooks booked (recounted'.sized few')).active
  simp only [counts] at active active'
  cases milestone <;> simp [Milestone.closes] at closes active' <;> omega

/-- What the counters of a memory say. A milestone counts from the step that records it; a commit
and a rejection take effect one step earlier, which makes a difference for the calls in between. -/
structure Accounted (watched : Watched C) : Prop where
  recounted : watched.Recounted
  booked : watched.InBooks
  active : watched.tally.active.toNat = watched.lives.countP (Running ·)
  decided : watched.tally.started.toNat = watched.tally.committed.toNat +
    watched.tally.rolledBack.toNat + watched.tally.failed.toNat +
    watched.lives.countP (Undecided ·)
  rejected : total .rejected watched.lives =
    watched.tally.conflicts.toNat + watched.lives.countP (TurnedDown ·)
  published : watched.commits =
    watched.tally.committed.toNat + watched.lives.countP (Unrecorded ·)
  unsaturated : ∀ move milestone, watched.threads.milestone? move = some milestone →
    milestone.closes = true →
    (watched.step move).tally.active.toNat + 1 = watched.tally.active.toNat
  callbackFailed : ∀ life ∈ watched.lives, .callbackFailed ∈ life →
    .committed ∈ life ∧ .failed ∉ life
  refused : ∀ life ∈ watched.lives, .refused ∈ life → life = [.refused]
  idle : (∀ life ∈ watched.lives, ¬Running life) → watched.tally.active = 0 ∧
    watched.tally.completed = watched.tally.started

private theorem Recounted.accounted (recounted : watched.Recounted) (few : watched.Few)
    (booked : watched.InBooks) : watched.Accounted := by
  have shared := recounted.shared
  have active : watched.tally.active.toNat = watched.lives.countP (Running ·) := by
    have closed := shared.closed
    have active := booked.active
    omega
  have decided := shared.decided
  rw [← booked.started, ← booked.committed, ← booked.rolledBack, ← booked.failed] at decided
  have rejected := shared.rejected
  rw [← booked.conflicts] at rejected
  have published := shared.published
  rw [← booked.committed, ← booked.published] at published
  refine ⟨recounted, booked, active, decided, rejected, published,
    fun _ _ => recounted.unsaturated few booked, ?_, ?_, ?_⟩
  · intro life member broken
    obtain ⟨standing, lived⟩ := recounted.lived member
    exact lived.committed_of_callbackFailed broken
  · intro life member refused
    obtain ⟨standing, lived⟩ := recounted.lived member
    exact lived.eq_of_refused refused
  · intro idle
    have quiet : watched.lives.countP (Running ·) = 0 := by simpa using idle
    have settled : watched.lives.countP (Undecided ·) = 0 := by
      rw [List.countP_eq_zero]
      intro life member undecided
      obtain ⟨standing, lived⟩ := recounted.lived member
      exact idle life member (lived.running_of_undecided (of_decide_eq_true undecided))
    have bound : watched.tally.started.toNat < 2 ^ 64 := UInt64.toNat_lt _
    constructor
    · rw [← UInt64.toNat_inj]
      exact active.trans quiet
    · rw [← UInt64.toNat_inj, Tally.completed, UInt64.toNat_add, UInt64.toNat_add]
      omega

/-- Every outer transaction is accounted for once, whatever the threads do and in whatever order. -/
theorem accounted_for_once {seed : Identity} {policy : RetryPolicy} {data : Entity}
    {supply : Supply} {moves : List (Move C)}
    (few : (run (Memory.create seed policy data) supply moves).Few) :
    (run (Memory.create seed policy data) supply moves).threads =
        Threads.run (Memory.create seed policy data) supply moves ∧
      (run (Memory.create seed policy data) supply moves).Accounted := by
  obtain ⟨recounted, booked⟩ := booked_run seed policy data supply moves
  exact ⟨threads_run _ supply moves, recounted.accounted few (booked few)⟩

def till : Memory :=
  .create ⟨0, []⟩ .never (.cell (.ofObject ⟨⟨0, [7]⟩, .number 0⟩))

/-- One thread commits, after it was refused another transaction, and has not reported yet. Another
one rolls back. -/
def dealings : List (Move Unit) :=
  [.call 0 (), .act 0 .advance, .act 0 .advance, .act 0 .advance, .call 0 (), .act 1 .advance,
    .call 1 (), .act 2 .advance, .act 2 .advance, .act 2 .advance, .act 0 (.endBody (.ok true)),
    .act 0 .advance, .act 0 .advance, .act 2 (.endBody (.ok false)), .act 2 .advance]

theorem accounted_for_once_dealings :
    (run till ⟨0⟩ dealings).lives =
        [[.started, .published, .committed], [.refused], [.started, .rolledBack]] ∧
      (run till ⟨0⟩ dealings).threads = Threads.run till ⟨0⟩ dealings ∧
      (run till ⟨0⟩ dealings).Accounted := by
  have lives : (run till ⟨0⟩ dealings).lives =
      [[.started, .published, .committed], [.refused], [.started, .rolledBack]] := rfl
  refine ⟨lives, accounted_for_once ⟨?_, ?_⟩⟩
  · rw [← till, lives]
    decide
  · rw [← till, lives]
    decide

end Watched

end TransactionalMemory
