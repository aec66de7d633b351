import Mathlib.Data.List.Induction
import TransactionalMemory.Proofs.Sources
import TransactionalMemory.Transaction

/-! Which callbacks an outer transaction runs. It is followed from its call to its end, through any
number of attempts with a body of their own; between any two steps other transactions may do to the
memory whatever they like. Only the attempt that is published has its callbacks run. -/
namespace TransactionalMemory
variable {C : Type}

namespace Outing

/-- A body that has come to its end, with what it has learned and the snapshot that it leaves. -/
structure Attempt (C : Type) where
  body : Body Question Answer C
  trace : Trace Question Answer
  working : Snapshot Entity

/-- The callbacks that are to run if the attempt is published, the transaction's own one last. -/
def Attempt.owed (own : C) (attempt : Attempt C) : List C :=
  attempt.body.survivors attempt.trace ++ [own]

/-- What has become of a transaction: its attempts, the commits that it has published, and the
callbacks that it has run with how they ended. -/
structure Past (C : Type) where
  attempts : List (Attempt C)
  commits : List Commit
  reports : List (C × Except Failure Unit)

namespace Past

/-- Nothing was published, and no callback has run. -/
structure Quiet (past : Past C) : Prop where
  commits : past.commits = []
  reports : past.reports = []

/-- The last attempt has asked for a commit, and it is the only one that was published. -/
structure Publishes (past : Past C) (attempt : Attempt C) : Prop where
  last : past.attempts.getLast? = some attempt
  asked : attempt.trace.ending = .ok true
  only : ∃ published, past.commits = [⟨attempt.working, published⟩]

def passing (callbacks : List C) : List (C × Except Failure Unit) :=
  callbacks.map fun callback => (callback, .ok ())

/-- What has run by the time that the transaction has this result. -/
inductive Concluded (own : C) (past : Past C) : (result : Ending) → Prop where
  | silent {result : Ending} (quiet : past.Quiet) (given : result ≠ .ok true) :
      Concluded own past result
  | complete {attempt : Attempt C} (publishes : past.Publishes attempt)
      (all : past.reports = passing (attempt.owed own)) : Concluded own past (.ok true)
  | broken {attempt : Attempt C} {passed skipped : List C} {callback : C} {failure : Failure}
      (publishes : past.Publishes attempt)
      (split : attempt.owed own = passed ++ callback :: skipped)
      (all : past.reports = passing passed ++ [(callback, .error failure)]) :
      Concluded own past (.error failure)

end Past

end Outing

/-- A transaction on its way. -/
structure Outing (C : Type) where
  stage : Stage C
  past : Outing.Past C

inductive Outing.Turn (C : Type) where
  | advance (memory : Memory) (seed : Identity)
  | work (body : Body Question Answer C) (seed : Identity) (alive : Identity → List (Slot Entity))
  | report (outcome : Except Failure Unit)

/-- The way of a published transaction to its result if no callback fails: it is counted, it gets
its turn, it runs each of its callbacks, and it goes out. -/
def Outing.Turn.delivery (memory : Memory) (seed : Identity) (count : Nat) : List (Turn C) :=
  [.advance memory seed, .advance memory seed] ++
    (List.replicate count [.advance memory seed, .report (.ok ())]).flatten ++
    List.replicate 4 (.advance memory seed)

namespace Stage

/-- The attempt comes to nothing, and there will not be another one. -/
def Lost : Stage C → Prop
  | .ended _ _ ending => ending ≠ .ok true
  | .rejected _ failure => failure.isConflict = false
  | .exhausted _ => True
  | _ => False

/-- The transaction is lost, or it is on its way out. -/
def Over : Stage C → Prop
  | .leaving _ => True
  | .left _ => True
  | stage => stage.Lost

private theorem over_of_lost {stage : Stage C} (lost : stage.Lost) : stage.Over := by
  cases stage with
  | leaving result => trivial
  | left result => trivial
  | _ => exact lost

/-- What this step of the engine has published. -/
def news : (before after : Stage C) → List Commit
  | .ended .., .published commit _ => [commit]
  | _, _ => []

end Stage

namespace Outing

def start : Outing C :=
  ⟨.called, [], [], []⟩

def step (thread : Nat) (own : C) : Outing C → Turn C → Outing C
  | ⟨stage, past⟩, .advance memory seed =>
    let next := (stage.advance thread own seed memory).2
    ⟨next, {past with commits := past.commits ++ stage.news next}⟩
  | ⟨.working attempt scope, past⟩, .work body seed alive =>
    let ran := scope.run alive body seed
    ⟨.ended attempt ran.2 ran.1.ending,
      {past with attempts := past.attempts ++ [⟨body, ran.1, ran.2.base⟩]}⟩
  | ⟨.handling commit copy callback callbacks, past⟩, .report outcome =>
    ⟨(Stage.handling commit copy callback callbacks).endCallback outcome,
      {past with reports := past.reports ++ [(callback, outcome)]}⟩
  | outing, _ => outing

def run (thread : Nat) (own : C) (turns : List (Turn C)) : Outing C :=
  turns.foldl (step thread own) start

/-- At any time the callbacks that have run are the first ones that the published attempt owes. Once
the transaction has its result, it has run them all, or all up to one that failed, or it was never
published. A published one gets there when its turn comes; when one is lost, nothing runs. -/
structure Reported (thread : Nat) (own : C) (outing : Outing C) : Prop where
  ordered : outing.past.reports ≠ [] → ∃ attempt, outing.past.Publishes attempt ∧
    outing.past.reports.map Prod.fst <+: attempt.owed own
  concluded : ∀ result, outing.stage = .left result → outing.past.Concluded own result
  delivers : ∀ commit callbacks, outing.stage = .published commit callbacks →
    ∀ memory seed, memory.hasTurn commit.published.timestamp = true →
      ((Turn.delivery memory seed callbacks.length).foldl (step thread own) outing).stage =
        .left (.ok true)
  silent : outing.stage.Lost → ∀ more : List (Turn C),
    (more.foldl (step thread own) outing).past.Quiet

def Sound (own : C) : Outing C → Prop
  | ⟨.working _ scope, past⟩ => past.Quiet ∧ ∃ base, scope = .start base
  | ⟨.ended _ scope ending, past⟩ => past.Quiet ∧
      ∃ attempt, past.attempts.getLast? = some attempt ∧ attempt.trace.ending = ending ∧
        attempt.working = scope.base ∧ Scope.callbacks own scope.nesting = attempt.owed own
  | ⟨.published _ callbacks, past⟩ => past.reports = [] ∧
      ∃ attempt, past.Publishes attempt ∧ attempt.owed own = callbacks
  | ⟨.waiting _ callbacks, past⟩ => past.reports = [] ∧
      ∃ attempt, past.Publishes attempt ∧ attempt.owed own = callbacks
  | ⟨.reporting _ callbacks, past⟩ => ∃ attempt passed, past.Publishes attempt ∧
      attempt.owed own = passed ++ callbacks ∧ past.reports = Past.passing passed
  | ⟨.handling _ _ callback callbacks, past⟩ => ∃ attempt passed, past.Publishes attempt ∧
      attempt.owed own = passed ++ callback :: callbacks ∧ past.reports = Past.passing passed
  | ⟨.releasing _ result, past⟩ => past.Concluded own result
  | ⟨.closing result, past⟩ => past.Concluded own result
  | ⟨.leaving result, past⟩ => past.Concluded own result
  | ⟨.left result, past⟩ => past.Concluded own result
  | ⟨_, past⟩ => past.Quiet

variable {own : C} {outing : Outing C}

private theorem step_still {stage next : Stage C} {thread : Nat} {memory : Memory} {seed : Identity}
    (moved : (stage.advance thread own seed memory).2 = next) (nothing : stage.news next = [])
    (past : Past C) : step thread own ⟨stage, past⟩ (.advance memory seed) = ⟨next, past⟩ := by
  have same : past.commits ++ [] = past.commits := List.append_nil past.commits
  simp only [step, moved, nothing, same]

theorem Sound.advance (sound : outing.Sound own) (thread : Nat) (memory : Memory)
    (seed : Identity) : (outing.step thread own (.advance memory seed)).Sound own := by
  obtain ⟨stage, past⟩ := outing
  cases stage with
  | called =>
    cases entered : memory.enter thread with
    | error failure =>
      rw [step_still (by rw [Stage.advance, entered]) rfl]
      exact .silent sound nofun
    | ok inside =>
      rw [step_still (by rw [Stage.advance, entered]) rfl]
      exact sound
  | ready attempt =>
    rw [step_still rfl rfl]
    exact ⟨sound, _, rfl⟩
  | ended attempt scope ending =>
    obtain ⟨quiet, last, found, rfl, working, callbacks⟩ := sound
    rcases asked : last.trace.ending with failure | (_ | _)
    · rw [step_still rfl rfl]
      exact .silent quiet nofun
    · rw [step_still rfl rfl]
      exact .silent quiet nofun
    · cases published : memory.publish seed scope.base with
      | error failure =>
        rw [step_still (by rw [Stage.advance, published]) rfl]
        exact quiet
      | ok result =>
        have only : past.commits = [] := quiet.commits
        simp only [step, Stage.advance, published, Stage.news, only, List.nil_append]
        refine ⟨quiet.reports, last, ⟨found, asked, result.1, ?_⟩, callbacks.symm⟩
        rw [working]
  | rejected attempt failure =>
    by_cases again : failure.isConflict = true
    · by_cases permitted : memory.policy.permits attempt = true
      · rw [step_still (by rw [Stage.advance, if_pos again, if_pos permitted]) rfl]
        exact sound
      · rw [step_still (by rw [Stage.advance, if_pos again, if_neg permitted]) rfl]
        exact sound
    · rw [step_still (by rw [Stage.advance, if_neg again]) rfl]
      exact .silent sound nofun
  | exhausted failure =>
    rw [step_still rfl rfl]
    exact .silent sound nofun
  | waiting commit callbacks =>
    by_cases mine : memory.hasTurn commit.published.timestamp = true
    · rw [step_still (by rw [Stage.advance, if_pos mine]) rfl]
      obtain ⟨quiet, attempt, publishes, owed⟩ := sound
      exact ⟨attempt, [], publishes, owed, quiet⟩
    · rw [step_still (by rw [Stage.advance, if_neg mine]) rfl]
      exact sound
  | reporting commit callbacks =>
    obtain ⟨attempt, passed, publishes, owed, all⟩ := sound
    cases callbacks with
    | nil =>
      rw [step_still rfl rfl]
      rw [List.append_nil] at owed
      exact .complete publishes (owed ▸ all)
    | cons callback callbacks =>
      rw [step_still rfl rfl]
      exact ⟨attempt, passed, publishes, owed, all⟩
  | _ =>
    rw [step_still rfl rfl]
    exact sound

private theorem Sound.work (sound : outing.Sound own) (thread : Nat) (body : Body Question Answer C)
    (seed : Identity) (alive : Identity → List (Slot Entity)) :
    (outing.step thread own (.work body seed alive)).Sound own := by
  obtain ⟨stage, past⟩ := outing
  cases stage with
  | working attempt scope =>
    obtain ⟨quiet, base, rfl⟩ := sound
    have worked := Scope.run_worked alive body seed (.start base)
    have accepted := (Scope.run_accepted alive body seed (.start base)).1
    have callbacks := Scope.callbacks_of_worked worked own
    rw [body.heard_eq_survivors accepted] at callbacks
    exact ⟨⟨quiet.commits, quiet.reports⟩, _, List.getLast?_concat, rfl, rfl, callbacks⟩
  | _ => exact sound

private theorem Sound.report (sound : outing.Sound own) (thread : Nat)
    (outcome : Except Failure Unit) : (outing.step thread own (.report outcome)).Sound own := by
  obtain ⟨stage, past⟩ := outing
  cases stage with
  | handling commit copy callback callbacks =>
    obtain ⟨attempt, passed, ⟨last, asked, only⟩, owed, all⟩ := sound
    cases outcome with
    | ok done =>
      refine ⟨attempt, passed ++ [callback], ⟨last, asked, only⟩, ?_, ?_⟩
      · rw [owed, List.append_assoc, List.singleton_append]
      · simp [all, Past.passing]
    | error failure =>
      have ended : past.reports ++ [(callback, .error failure)] =
        Past.passing passed ++ [(callback, .error failure)] := by rw [all]
      exact .broken ⟨last, asked, only⟩ owed ended
  | _ => exact sound

theorem Sound.step (sound : outing.Sound own) (thread : Nat) (turn : Turn C) :
    (outing.step thread own turn).Sound own := by
  cases turn with
  | advance memory seed => exact sound.advance thread memory seed
  | work body seed alive => exact sound.work thread body seed alive
  | report outcome => exact sound.report thread outcome

theorem sound_run (thread : Nat) (own : C) (turns : List (Turn C)) :
    (run thread own turns).Sound own := by
  induction turns using List.reverseRecOn with
  | nil => exact ⟨rfl, rfl⟩
  | append_singleton turns turn ih =>
    rw [run, List.foldl_concat]
    exact ih.step thread turn

private theorem map_fst_passing (callbacks : List C) :
    (Past.passing callbacks).map Prod.fst = callbacks := by
  simp [Past.passing, Function.comp_def]

private theorem ordered_of_concluded {past : Past C} {result : Ending}
    (concluded : past.Concluded own result) (given : past.reports ≠ []) :
    ∃ attempt, past.Publishes attempt ∧ past.reports.map Prod.fst <+: attempt.owed own := by
  cases concluded with
  | silent quiet _ => exact absurd quiet.reports given
  | @complete attempt publishes all =>
    refine ⟨attempt, publishes, ?_⟩
    rw [all, map_fst_passing]
  | @broken attempt passed skipped callback failure publishes split all =>
    refine ⟨attempt, publishes, skipped, ?_⟩
    simp [all, split, map_fst_passing]

private theorem Sound.ordered (sound : outing.Sound own) (given : outing.past.reports ≠ []) :
    ∃ attempt, outing.past.Publishes attempt ∧
      outing.past.reports.map Prod.fst <+: attempt.owed own := by
  obtain ⟨stage, past⟩ := outing
  cases stage with
  | working attempt scope => exact absurd sound.1.reports given
  | ended attempt scope ending => exact absurd sound.1.reports given
  | published commit callbacks => exact absurd sound.1 given
  | waiting commit callbacks => exact absurd sound.1 given
  | reporting commit callbacks =>
    obtain ⟨attempt, passed, publishes, owed, all⟩ := sound
    refine ⟨attempt, publishes, callbacks, ?_⟩
    rw [owed, all, map_fst_passing]
  | handling commit copy callback callbacks =>
    obtain ⟨attempt, passed, publishes, owed, all⟩ := sound
    refine ⟨attempt, publishes, callback :: callbacks, ?_⟩
    rw [owed, all, map_fst_passing]
  | releasing commit result => exact ordered_of_concluded sound given
  | closing result => exact ordered_of_concluded sound given
  | leaving result => exact ordered_of_concluded sound given
  | left result => exact ordered_of_concluded sound given
  | _ => exact absurd sound.reports given

/-- A transaction that is lost stays so until it is out. -/
theorem over_step (thread : Nat) (quiet : outing.past.Quiet) (gone : outing.stage.Over)
    (turn : Turn C) :
    (outing.step thread own turn).past.Quiet ∧ (outing.step thread own turn).stage.Over := by
  obtain ⟨stage, past⟩ := outing
  cases turn with
  | advance memory seed =>
    cases stage with
    | ended attempt scope ending =>
      rcases ending with failure | (_ | _)
      · rw [step_still rfl rfl]
        exact ⟨quiet, trivial⟩
      · rw [step_still rfl rfl]
        exact ⟨quiet, trivial⟩
      · exact absurd rfl gone
    | rejected attempt failure =>
      have final : ¬failure.isConflict = true := Bool.eq_false_iff.mp gone
      rw [step_still (by rw [Stage.advance, if_neg final]) rfl]
      exact ⟨quiet, trivial⟩
    | exhausted failure =>
      rw [step_still rfl rfl]
      exact ⟨quiet, trivial⟩
    | leaving result =>
      rw [step_still rfl rfl]
      exact ⟨quiet, trivial⟩
    | left result =>
      rw [step_still rfl rfl]
      exact ⟨quiet, trivial⟩
    | _ => exact gone.elim
  | work body seed alive =>
    cases stage with
    | working attempt scope => exact gone.elim
    | _ => exact ⟨quiet, gone⟩
  | report outcome =>
    cases stage with
    | handling commit copy callback callbacks => exact gone.elim
    | _ => exact ⟨quiet, gone⟩

private theorem quiet_of_over (thread : Nat) (quiet : outing.past.Quiet) (gone : outing.stage.Over)
    (more : List (Turn C)) : (more.foldl (step thread own) outing).past.Quiet := by
  induction more generalizing outing with
  | nil => exact quiet
  | cons turn more ih =>
    obtain ⟨later, still⟩ := over_step thread quiet gone turn
    exact ih later still

private theorem Sound.quiet (sound : outing.Sound own) (lost : outing.stage.Lost) :
    outing.past.Quiet := by
  obtain ⟨stage, past⟩ := outing
  cases stage with
  | ended attempt scope ending => exact sound.1
  | rejected attempt failure => exact sound
  | exhausted failure => exact sound
  | _ => exact lost.elim

private theorem delivered (thread : Nat) (own : C) (memory : Memory) (seed : Identity)
    (commit : Commit) (callbacks : List C) (past : Past C) :
    ∃ past', ((List.replicate callbacks.length
      [.advance memory seed, .report (.ok ())]).flatten.foldl (step thread own)
        ⟨.reporting commit callbacks, past⟩) = ⟨.reporting commit [], past'⟩ := by
  induction callbacks generalizing past with
  | nil => exact ⟨past, rfl⟩
  | cons callback callbacks ih => exact ih _

private theorem delivers_of_published {commit : Commit} {callbacks : List C}
    (published : outing.stage = .published commit callbacks) (thread : Nat) (own : C)
    (memory : Memory) (seed : Identity)
    (mine : memory.hasTurn commit.published.timestamp = true) :
    ((Turn.delivery memory seed callbacks.length).foldl (step thread own) outing).stage =
      .left (.ok true) := by
  obtain ⟨stage, past⟩ := outing
  obtain rfl : stage = .published commit callbacks := published
  have turn : ∃ past', [Turn.advance memory seed, .advance memory seed].foldl (step thread own)
      ⟨.published commit callbacks, past⟩ = ⟨.reporting commit callbacks, past'⟩ := by
    simp only [List.foldl_cons, List.foldl_nil, step, Stage.advance, mine, if_true]
    exact ⟨_, rfl⟩
  obtain ⟨before, turn⟩ := turn
  obtain ⟨after, told⟩ := delivered thread own memory seed commit callbacks before
  rw [Turn.delivery, List.foldl_append, List.foldl_append, turn, told]
  rfl

/-- Of an outer transaction exactly the right callbacks run, inner ones before outer ones. -/
theorem callbacks_in_postorder (thread : Nat) (own : C) (turns : List (Turn C)) :
    (run thread own turns).Reported thread own := by
  have sound := sound_run thread own turns
  refine ⟨sound.ordered, ?_, ?_, ?_⟩
  · intro result left
    generalize run thread own turns = outing at sound left
    obtain ⟨stage, past⟩ := outing
    obtain rfl : stage = .left result := left
    exact sound
  · intro commit callbacks published memory seed mine
    exact delivers_of_published published thread own memory seed mine
  · intro lost
    exact quiet_of_over thread (sound.quiet lost) (Stage.over_of_lost lost)

/-- The second child is rolled back, so the one within it is not heard of. -/
example (working : Snapshot Entity) :
    let quiet : Trace Question Answer := .finished (.ok true)
    Attempt.owed "own" {
      body := .nest "first" (.nest "within" (.finish (.ok true)) fun _ _ => .finish (.ok true))
        fun _ _ => .nest "second" (.nest "lost" (.finish (.ok true)) fun _ _ => .finish (.ok false))
          fun _ _ => .finish (.ok true)
      trace := .nested (.nested quiet (.ok true) quiet) (.ok true)
        (.nested (.nested quiet (.ok true) (.finished (.ok false))) (.ok false) quiet)
      working } = ["within", "first", "own"] := by
  rfl

end Outing
end TransactionalMemory
