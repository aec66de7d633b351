import Mathlib.Data.List.Basic
import Mathlib.Data.List.Induction
import TransactionalMemory.Proofs.Threads

/-! An outer transaction, followed from its call through all of its attempts, whatever its bodies
do; between any two of its steps the others may turn the memory into any memory with the same
policy. Where the call stands tells how many attempts were begun and what has become of each. -/
namespace TransactionalMemory
variable {C : Type}

namespace Stage

private theorem advance_policy (thread : Nat) (own : C) (seed : Identity) (memory : Memory)
    (stage : Stage C) : (stage.advance thread own seed memory).1.policy = memory.policy := by
  cases stage with
  | called =>
    rw [advance]
    cases entered : memory.enter thread with
    | error failure => rfl
    | ok inside =>
      unfold Memory.enter at entered
      split at entered <;> cases entered
      rfl
  | ended attempt scope ending =>
    rcases ending with failure | (_ | _)
    · rfl
    · rfl
    · rw [advance]
      cases published : memory.publish seed scope.base with
      | error failure => rfl
      | ok result =>
        obtain ⟨next, after⟩ := result
        obtain ⟨accepted, rfl⟩ := Memory.publish_ok.mp published
        rfl
  | rejected attempt failure =>
    rw [advance]
    split <;> rfl
  | waiting commit callbacks =>
    rw [advance]
    split <;> rfl
  | reporting commit callbacks => cases callbacks <;> rfl
  | releasing commit result =>
    rw [advance, Memory.endReport]
    split <;> rfl
  | _ => rfl

end Stage

theorem Call.act_policy (seed : Identity) (memory : Memory) (call : Call C) (act : Act C) :
    (call.act seed memory act).1.policy = memory.policy := by
  cases act with
  | advance => exact call.stage.advance_policy call.thread call.own seed memory
  | _ => rfl

namespace Pursuit

/-- The beginning of an attempt: its number, what is committed at that moment, the seed of the copy
and the scope that the body gets. -/
structure Opening (C : Type) where
  attempt : Nat
  committed : Snapshot Entity
  seed : Identity
  scope : Scope C

/-- What has become of an attempt whose body has returned. -/
inductive Verdict where
  | rolledBack
  | failed (failure : Failure)
  | refused (failure : Failure)
  | published (next : Snapshot Entity)

namespace Verdict

/-- The working snapshot is shown to the memory only if the body asks for it. -/
def judge (seed : Identity) (memory : Memory) (working : Snapshot Entity) : Ending → Verdict
  | .ok false => .rolledBack
  | .error failure => .failed failure
  | .ok true =>
    match memory.publish seed working with
    | .ok (next, _) => .published next
    | .error failure => .refused failure

def ending : Verdict → Ending
  | .rolledBack => .ok false
  | .failed failure => .error failure
  | .refused _ => .ok true
  | .published _ => .ok true

/-- What the call returns if it ends with this attempt; a published one leaves it to callbacks. -/
def result? : Verdict → Option Ending
  | .rolledBack => some (.ok false)
  | .failed failure => some (.error failure)
  | .refused failure => some (.error failure)
  | .published _ => none

def Conflicts : Verdict → Prop
  | .refused failure => failure.isConflict = true
  | _ => False

theorem conflicts_iff {verdict : Verdict} :
    verdict.Conflicts ↔ ∃ failure, verdict = .refused failure ∧ failure.isConflict = true := by
  cases verdict with
  | refused failure => simp [Conflicts]
  | _ => simp [Conflicts]

private theorem refused_of_conflicts {verdicts : List Verdict}
    (all : ∀ verdict ∈ verdicts, verdict.Conflicts) {index : Nat}
    (bound : index < verdicts.length) :
    ∃ failure, failure.isConflict = true ∧ verdicts[index]? = some (.refused failure) := by
  obtain ⟨failure, same, conflict⟩ := conflicts_iff.mp (all _ (List.getElem_mem bound))
  refine ⟨failure, conflict, ?_⟩
  rw [List.getElem?_eq_getElem bound, same]

end Verdict

/-- The attempts that were begun, what their bodies have returned, and what became of them. -/
@[ext]
structure Past (C : Type) where
  openings : List (Opening C)
  endings : List Ending
  verdicts : List Verdict

/-- Either the call does something itself, or the others do. -/
inductive Event (C : Type) where
  | act (seed : Identity) (act : Act C)
  | others (memory : Memory)

end Pursuit

namespace Stage
open Pursuit

def openings (seed : Identity) (memory : Memory) : (before after : Stage C) → List (Opening C)
  | .working .., _ => []
  | _, .working attempt scope => [⟨attempt, memory.committed, seed, scope⟩]
  | _, _ => []

def endings : Stage C → Act C → List Ending
  | .working .., .endBody ending => [ending]
  | _, _ => []

def verdicts (seed : Identity) (memory : Memory) : Stage C → Act C → List Verdict
  | .ended _ scope ending, .advance => [.judge seed memory scope.base ending]
  | _, _ => []

end Stage

/-- A call on its way, with the memory as it is. -/
structure Pursuit (C : Type) where
  memory : Memory
  stage : Stage C
  past : Pursuit.Past C

namespace Pursuit

def start (memory : Memory) : Pursuit C :=
  ⟨memory, .called, [], [], []⟩

def step (thread : Nat) (own : C) (pursuit : Pursuit C) : Event C → Pursuit C
  | .others memory => {pursuit with memory := {memory with policy := pursuit.memory.policy}}
  | .act seed act =>
    let after := Call.act seed pursuit.memory ⟨thread, own, pursuit.stage⟩ act
    ⟨after.1, after.2,
      pursuit.past.openings ++ pursuit.stage.openings seed pursuit.memory after.2,
      pursuit.past.endings ++ pursuit.stage.endings act,
      pursuit.past.verdicts ++ pursuit.stage.verdicts seed pursuit.memory act⟩

def follow (thread : Nat) (own : C) (pursuit : Pursuit C) (events : List (Event C)) : Pursuit C :=
  events.foldl (step thread own) pursuit

def run (thread : Nat) (own : C) (memory : Memory) (events : List (Event C)) : Pursuit C :=
  follow thread own (start memory) events

namespace Past

/-- As many attempts as `attempt` says have met a conflict, and `opened` were begun. The body of
the last one may have returned already. -/
structure Beaten (limit attempt opened : Nat) (returned : List Ending) (past : Past C) :
    Prop where
  within : attempt ≤ limit
  openings : past.openings.length = opened
  verdicts : past.verdicts.length = attempt
  conflicts : ∀ verdict ∈ past.verdicts, verdict.Conflicts
  endings : past.endings = past.verdicts.map Verdict.ending ++ returned

/-- All attempts before this one have met a conflict, and this one got the verdict. -/
structure Judged (limit attempt : Nat) (verdict : Verdict) (past : Past C) : Prop where
  within : attempt ≤ limit
  openings : past.openings.length = attempt + 1
  verdicts : ∃ before, past.verdicts = before ++ [verdict] ∧ before.length = attempt ∧
    ∀ earlier ∈ before, earlier.Conflicts
  endings : past.endings = past.verdicts.map Verdict.ending

/-- What has happened by the time that the call has this result. -/
inductive Concluded (limit : Nat) (past : Past C) : (result : Ending) → Prop where
  | barred (failure : Failure) (nothing : past.Beaten limit 0 0 []) :
      Concluded limit past (.error failure)
  | final {attempt : Nat} {verdict : Verdict} {result : Ending}
      (judged : past.Judged limit attempt verdict)
      (last : verdict.Conflicts → attempt = limit)
      (given : ∀ decided ∈ verdict.result?, result = decided) : Concluded limit past result

/-- Where a call stands with this past. -/
def Standing (limit : Nat) (past : Past C) : Stage C → Prop
  | .called => past.Beaten limit 0 0 []
  | .entered => past.Beaten limit 0 0 []
  | .ready attempt => past.Beaten limit attempt attempt []
  | .working attempt _ => past.Beaten limit attempt (attempt + 1) []
  | .ended attempt _ ending => past.Beaten limit attempt (attempt + 1) [ending]
  | .rejected attempt failure => past.Judged limit attempt (.refused failure)
  | .exhausted failure => failure.isConflict = true ∧ past.Judged limit limit (.refused failure)
  | .published commit _ => ∃ attempt, past.Judged limit attempt (.published commit.published)
  | .waiting commit _ => ∃ attempt, past.Judged limit attempt (.published commit.published)
  | .reporting commit _ => ∃ attempt, past.Judged limit attempt (.published commit.published)
  | .handling commit .. => ∃ attempt, past.Judged limit attempt (.published commit.published)
  | .releasing commit _ => ∃ attempt, past.Judged limit attempt (.published commit.published)
  | .closing _ => ∃ attempt next, past.Judged limit attempt (.published next)
  | .leaving result => past.Concluded limit result
  | .left result => past.Concluded limit result

variable {limit attempt opened : Nat} {past : Past C}

private theorem Beaten.opens (beaten : past.Beaten limit attempt attempt []) (opening : Opening C) :
    Beaten limit attempt (attempt + 1) []
      ⟨past.openings ++ [opening], past.endings, past.verdicts⟩ where
  within := beaten.within
  openings := by simp [beaten.openings]
  verdicts := beaten.verdicts
  conflicts := beaten.conflicts
  endings := beaten.endings

private theorem Beaten.returns (beaten : past.Beaten limit attempt opened []) (ending : Ending) :
    Beaten limit attempt opened [ending]
      ⟨past.openings, past.endings ++ [ending], past.verdicts⟩ where
  within := beaten.within
  openings := beaten.openings
  verdicts := beaten.verdicts
  conflicts := beaten.conflicts
  endings := by simp [beaten.endings]

private theorem Beaten.judge {ending : Ending} {verdict : Verdict}
    (beaten : past.Beaten limit attempt (attempt + 1) [ending]) (same : verdict.ending = ending) :
    Judged limit attempt verdict
      ⟨past.openings, past.endings, past.verdicts ++ [verdict]⟩ where
  within := beaten.within
  openings := beaten.openings
  verdicts := ⟨past.verdicts, rfl, beaten.verdicts, beaten.conflicts⟩
  endings := by simp [beaten.endings, same]

theorem Judged.last {verdict : Verdict} (judged : past.Judged limit attempt verdict) :
    past.verdicts.getLast? = some verdict := by
  obtain ⟨before, verdicts, size, conflicts⟩ := judged.verdicts
  rw [verdicts, List.getLast?_concat]

theorem Judged.length {verdict : Verdict} (judged : past.Judged limit attempt verdict) :
    past.verdicts.length = attempt + 1 := by
  obtain ⟨before, verdicts, size, conflicts⟩ := judged.verdicts
  rw [verdicts, List.length_append, size, List.length_singleton]

theorem Judged.conflicts {verdict : Verdict} (judged : past.Judged limit attempt verdict)
    (conflict : verdict.Conflicts) : ∀ other ∈ past.verdicts, other.Conflicts := by
  obtain ⟨before, verdicts, size, conflicts⟩ := judged.verdicts
  intro other member
  rw [verdicts] at member
  rcases List.mem_append.mp member with earlier | last
  · exact conflicts other earlier
  · rw [List.mem_singleton.mp last]
    exact conflict

private theorem Judged.beaten {verdict : Verdict} (judged : past.Judged limit attempt verdict)
    (conflict : verdict.Conflicts) (more : attempt < limit) :
    past.Beaten limit (attempt + 1) (attempt + 1) [] where
  within := more
  openings := judged.openings
  verdicts := judged.length
  conflicts := judged.conflicts conflict
  endings := by rw [judged.endings, List.append_nil]

end Past

structure Sound (limit : Nat) (pursuit : Pursuit C) : Prop where
  policy : pursuit.memory.policy.maxRetries.toNat = limit
  numbered : pursuit.past.openings.map Opening.attempt = List.range pursuit.past.openings.length
  fresh : ∀ opening ∈ pursuit.past.openings,
    opening.scope = .start (opening.committed.copy opening.seed .clean)
  standing : pursuit.past.Standing limit pursuit.stage

variable {limit : Nat} {thread : Nat} {own : C} {pursuit : Pursuit C} {seed : Identity}
  {memory : Memory} {stage next : Stage C} {past : Past C}

theorem step_still {act : Act C}
    (moved : (Call.act seed memory ⟨thread, own, stage⟩ act).2 = next)
    (unopened : stage.openings seed memory next = []) (unreturned : stage.endings act = [])
    (unjudged : stage.verdicts seed memory act = []) :
    step thread own ⟨memory, stage, past⟩ (.act seed act) =
      ⟨(Call.act seed memory ⟨thread, own, stage⟩ act).1, next, past⟩ := by
  simp only [step, moved, unopened, unreturned, unjudged, List.append_nil]

private theorem step_judged {attempt : Nat} {scope : Scope C} {ending : Ending}
    (moved : (Stage.advance thread own seed memory (.ended attempt scope ending)).2 = next)
    (unopened : Stage.openings seed memory (.ended attempt scope ending) next = []) :
    step thread own ⟨memory, .ended attempt scope ending, past⟩ (.act seed .advance) =
      ⟨(Stage.advance thread own seed memory (.ended attempt scope ending)).1, next, past.openings,
        past.endings, past.verdicts ++ [.judge seed memory scope.base ending]⟩ := by
  simp only [step, Call.act, moved, unopened, Stage.endings, Stage.verdicts, List.append_nil]

/-- Where the call stands after the verdict on the attempt that has ended. -/
private theorem standing_judged {attempt : Nat} {scope : Scope C} {ending : Ending}
    (beaten : past.Beaten limit attempt (attempt + 1) [ending]) :
    let later := step thread own ⟨memory, .ended attempt scope ending, past⟩ (.act seed .advance)
    later.past.Standing limit later.stage := by
  rcases ending with failure | (_ | _)
  · rw [step_judged rfl rfl]
    exact .final (beaten.judge rfl) False.elim (by simp [Verdict.judge, Verdict.result?])
  · rw [step_judged rfl rfl]
    exact .final (beaten.judge rfl) False.elim (by simp [Verdict.judge, Verdict.result?])
  · cases published : memory.publish seed scope.base with
    | error failure =>
      rw [step_judged (by rw [Stage.advance, published]) rfl, Verdict.judge, published]
      exact beaten.judge rfl
    | ok result =>
      rw [step_judged (by rw [Stage.advance, published]) rfl, Verdict.judge, published]
      exact ⟨attempt, beaten.judge rfl⟩

private theorem standing_advance (policy : memory.policy.maxRetries.toNat = limit)
    (standing : past.Standing limit stage) :
    let later := step thread own ⟨memory, stage, past⟩ (.act seed .advance)
    later.past.Standing limit later.stage := by
  cases stage with
  | called =>
    cases entered : memory.enter thread with
    | error failure =>
      rw [step_still (by rw [Call.act, Stage.advance, entered]) rfl rfl rfl]
      exact .barred failure standing
    | ok inside =>
      rw [step_still (by rw [Call.act, Stage.advance, entered]) rfl rfl rfl]
      exact standing
  | ready attempt =>
    simp only [step, Stage.endings, Stage.verdicts, List.append_nil]
    exact Past.Beaten.opens standing _
  | ended attempt scope ending => exact standing_judged standing
  | rejected attempt failure =>
    by_cases conflict : failure.isConflict = true
    · by_cases more : attempt < limit
      · have permitted : memory.policy.permits attempt = true := by
          simp [RetryPolicy.permits, policy, more]
        rw [step_still (by rw [Call.act, Stage.advance, if_pos conflict, if_pos permitted])
          rfl rfl rfl]
        exact standing.beaten conflict more
      · have denied : ¬memory.policy.permits attempt = true := by
          simp [RetryPolicy.permits, policy, Nat.le_of_not_lt more]
        rw [step_still (by rw [Call.act, Stage.advance, if_pos conflict, if_neg denied])
          rfl rfl rfl]
        obtain rfl : attempt = limit := by have within := standing.within; omega
        exact ⟨conflict, standing⟩
    · rw [step_still (by rw [Call.act, Stage.advance, if_neg conflict]) rfl rfl rfl]
      exact .final standing (fun conflicts => absurd conflicts conflict)
        (by simp [Verdict.result?])
  | exhausted failure =>
    rw [step_still rfl rfl rfl rfl]
    exact .final standing.2 (fun _ => rfl) (by simp [Verdict.result?])
  | waiting commit callbacks =>
    by_cases mine : memory.hasTurn commit.published.timestamp = true
    · rw [step_still (by rw [Call.act, Stage.advance, if_pos mine]) rfl rfl rfl]
      exact standing
    · rw [step_still (by rw [Call.act, Stage.advance, if_neg mine]) rfl rfl rfl]
      exact standing
  | reporting commit callbacks =>
    cases callbacks <;> rw [step_still rfl rfl rfl rfl] <;> exact standing
  | releasing commit result =>
    rw [step_still rfl rfl rfl rfl]
    obtain ⟨attempt, judged⟩ := standing
    exact ⟨attempt, _, judged⟩
  | closing result =>
    rw [step_still rfl rfl rfl rfl]
    obtain ⟨attempt, next, judged⟩ := standing
    exact .final judged False.elim (by simp [Verdict.result?])
  | _ =>
    rw [step_still rfl rfl rfl rfl]
    exact standing

private theorem standing_act (policy : memory.policy.maxRetries.toNat = limit)
    (standing : past.Standing limit stage) (act : Act C) :
    let later := step thread own ⟨memory, stage, past⟩ (.act seed act)
    later.past.Standing limit later.stage := by
  cases act with
  | advance => exact standing_advance policy standing
  | work scope =>
    cases stage <;> rw [step_still rfl rfl rfl rfl] <;> exact standing
  | endBody ending =>
    cases stage with
    | working attempt scope =>
      simp only [step, Stage.openings, Stage.verdicts, List.append_nil]
      exact Past.Beaten.returns standing ending
    | _ =>
      rw [step_still rfl rfl rfl rfl]
      exact standing
  | handle copy =>
    cases stage <;> rw [step_still rfl rfl rfl rfl] <;> exact standing
  | endCallback outcome =>
    cases stage with
    | handling commit copy callback callbacks =>
      cases outcome <;> rw [step_still rfl rfl rfl rfl] <;> exact standing
    | _ =>
      rw [step_still rfl rfl rfl rfl]
      exact standing

/-- An attempt begins only where the call is ready for it. -/
private theorem opened_act (thread : Nat) (own : C) (seed : Identity) (memory : Memory)
    (stage : Stage C) (act : Act C) :
    stage.openings seed memory (Call.act seed memory ⟨thread, own, stage⟩ act).2 = [] ∨
      ∃ attempt, stage = .ready attempt ∧
        stage.openings seed memory (Call.act seed memory ⟨thread, own, stage⟩ act).2 =
          [⟨attempt, memory.committed, seed, .start (memory.committed.copy seed .clean)⟩] := by
  cases act with
  | advance =>
    cases stage with
    | ready attempt => exact .inr ⟨attempt, rfl, rfl⟩
    | called =>
      rw [Call.act, Stage.advance]
      cases memory.enter thread <;> exact .inl rfl
    | ended attempt scope ending =>
      rcases ending with failure | (_ | _)
      · exact .inl rfl
      · exact .inl rfl
      · rw [Call.act, Stage.advance]
        cases memory.publish seed scope.base <;> exact .inl rfl
    | rejected attempt failure =>
      rw [Call.act, Stage.advance]
      cases failure.isConflict <;> cases memory.policy.permits attempt <;> exact .inl rfl
    | waiting commit callbacks =>
      rw [Call.act, Stage.advance]
      cases memory.hasTurn commit.published.timestamp <;> exact .inl rfl
    | reporting commit callbacks => cases callbacks <;> exact .inl rfl
    | _ => exact .inl rfl
  | endCallback outcome => cases stage <;> cases outcome <;> exact .inl rfl
  | _ => cases stage <;> exact .inl rfl

theorem Sound.act (sound : pursuit.Sound limit) (thread : Nat) (own : C) (seed : Identity)
    (act : Act C) : (step thread own pursuit (.act seed act)).Sound limit := by
  obtain ⟨memory, stage, past⟩ := pursuit
  obtain ⟨policy, numbered, fresh, standing⟩ := sound
  have later : (Pursuit.step thread own ⟨memory, stage, past⟩ (.act seed act)).past.Standing limit
      (Pursuit.step thread own ⟨memory, stage, past⟩ (.act seed act)).stage :=
    standing_act policy standing act
  have kept := Call.act_policy seed memory ⟨thread, own, stage⟩ act
  rcases opened_act thread own seed memory stage act with none | ⟨attempt, rfl, one⟩
  · refine ⟨?_, ?_, ?_, later⟩
    · rw [step, kept, policy]
    · simpa [step, none] using numbered
    · simpa [step, none] using fresh
  · refine ⟨?_, ?_, ?_, later⟩
    · rw [step, kept, policy]
    · have count : past.openings.length = attempt := standing.openings
      simp only [step, one, List.map_append, numbered, count, List.length_append]
      exact List.range_succ.symm
    · intro opening member
      simp only [step, one] at member
      rcases List.mem_append.mp member with before | new
      · exact fresh opening before
      · rw [List.mem_singleton.mp new]

theorem Sound.step (sound : pursuit.Sound limit) (thread : Nat) (own : C) (event : Event C) :
    (step thread own pursuit event).Sound limit := by
  cases event with
  | act seed act => exact sound.act thread own seed act
  | others memory => exact ⟨sound.policy, sound.numbered, sound.fresh, sound.standing⟩

theorem Sound.follow (sound : pursuit.Sound limit) (thread : Nat) (own : C)
    (events : List (Event C)) : (follow thread own pursuit events).Sound limit := by
  induction events using List.reverseRecOn with
  | nil => exact sound
  | append_singleton events event ih =>
    rw [Pursuit.follow, List.foldl_concat]
    exact ih.step thread own event

theorem sound_start (memory : Memory) :
    (start memory : Pursuit C).Sound memory.policy.maxRetries.toNat where
  policy := rfl
  numbered := rfl
  fresh := nofun
  standing := ⟨Nat.zero_le _, rfl, rfl, nofun, rfl⟩

private theorem Past.Standing.cases (standing : past.Standing limit stage) :
    (∃ attempt opened returned, past.Beaten limit attempt opened returned ∧
        attempt ≤ opened ∧ opened ≤ attempt + 1 ∧ returned.length ≤ opened - attempt) ∨
      ∃ attempt verdict, past.Judged limit attempt verdict := by
  cases stage with
  | called => exact .inl ⟨_, _, _, standing, by simp⟩
  | entered => exact .inl ⟨_, _, _, standing, by simp⟩
  | ready attempt => exact .inl ⟨_, _, _, standing, by simp⟩
  | working attempt scope => exact .inl ⟨_, _, _, standing, by simp⟩
  | ended attempt scope ending => exact .inl ⟨_, _, _, standing, by simp⟩
  | rejected attempt failure => exact .inr ⟨_, _, standing⟩
  | exhausted failure => exact .inr ⟨_, _, standing.2⟩
  | published commit callbacks => exact .inr (standing.imp fun _ judged => ⟨_, judged⟩)
  | waiting commit callbacks => exact .inr (standing.imp fun _ judged => ⟨_, judged⟩)
  | reporting commit callbacks => exact .inr (standing.imp fun _ judged => ⟨_, judged⟩)
  | handling commit copy callback callbacks =>
    exact .inr (standing.imp fun _ judged => ⟨_, judged⟩)
  | releasing commit result => exact .inr (standing.imp fun _ judged => ⟨_, judged⟩)
  | closing result => exact .inr (standing.imp fun _ ⟨_, judged⟩ => ⟨_, judged⟩)
  | _ =>
    cases standing with
    | barred failure nothing => exact .inl ⟨_, _, _, nothing, by simp⟩
    | final judged last given => exact .inr ⟨_, _, judged⟩

/-- How many attempts there are, and why there is more than one. -/
structure Past.Ordered (limit : Nat) (past : Past C) : Prop where
  few : past.openings.length ≤ limit + 1
  once : past.endings.length ≤ past.openings.length
  verdicts : past.verdicts.length ≤ past.openings.length
  judged : past.verdicts.map Verdict.ending <+: past.endings
  followed : ∀ index, index + 1 < past.openings.length → index < limit ∧
    ∃ failure, failure.isConflict = true ∧ past.verdicts[index]? = some (.refused failure)

theorem Past.Standing.ordered (standing : past.Standing limit stage) : past.Ordered limit := by
  rcases standing.cases with ⟨attempt, opened, returned, beaten, least, most, heard⟩ |
    ⟨attempt, verdict, judged⟩
  · obtain ⟨within, openings, verdicts, conflicts, endings⟩ := beaten
    refine ⟨by omega, ?_, by omega, ⟨returned, endings.symm⟩, ?_⟩
    · rw [endings, List.length_append, List.length_map]
      omega
    · intro index next
      exact ⟨by omega, Verdict.refused_of_conflicts conflicts (by omega)⟩
  · have length := judged.length
    obtain ⟨within, openings, ⟨before, verdicts, size, conflicts⟩, endings⟩ := judged
    refine ⟨by omega, ?_, by omega, ?_, ?_⟩
    · rw [endings, List.length_map]
      omega
    · exact ⟨[], by rw [endings, List.append_nil]⟩
    · intro index next
      have bound : index < before.length := by omega
      rw [verdicts, List.getElem?_append_left bound]
      exact ⟨by omega, Verdict.refused_of_conflicts conflicts bound⟩

end Pursuit
end TransactionalMemory
