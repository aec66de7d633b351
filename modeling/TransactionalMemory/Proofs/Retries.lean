import TransactionalMemory.Proofs.Attempts

/-! How often an outer transaction runs its body. Only a conflict that was met on publishing is
tried again, and only as often as the policy permits. Where it is permitted the next attempt begins
within a few steps of the engine, whatever the other threads do meanwhile. -/
namespace TransactionalMemory
variable {C : Type}

namespace Stage

/-- The number of the attempt that is under way or about to begin. -/
def number? : Stage C → Option Nat
  | .ready attempt => some attempt
  | .working attempt _ => some attempt
  | .ended attempt _ _ => some attempt
  | .rejected attempt _ => some attempt
  | _ => none

/-- Client code is waited for. -/
def Foreign : Stage C → Prop
  | .working .. => True
  | .handling .. => True
  | _ => False

/-- The engine takes the call to its next attempt from here, or to its end. -/
def Busy : Stage C → Prop
  | .called => True
  | .entered => True
  | .ready _ => True
  | .rejected .. => True
  | .exhausted _ => True
  | .leaving _ => True
  | .left _ => True
  | _ => False

end Stage

namespace Pursuit

def Event.isAdvance : Event C → Bool
  | .act _ .advance => true
  | _ => false

private theorem Event.eq_advance {event : Event C} (advances : event.isAdvance = true) :
    ∃ seed, event = .act seed .advance := by
  cases event with
  | others memory => nomatch advances
  | act seed act =>
    cases act with
    | advance => exact ⟨seed, rfl⟩
    | _ => nomatch advances

def advances (events : List (Event C)) : Nat :=
  events.countP Event.isAdvance

/-- The call gives up with this verdict: it is no conflict, or no further attempt is permitted. -/
def Past.Settled (limit : Nat) (past : Past C) (verdict : Verdict) : Prop :=
  past.verdicts.getLast? = some verdict ∧ (verdict.Conflicts → limit < past.verdicts.length)

/-- What holds of a call at any time. Unless it is turned away it begins an attempt, and at most one
more than the retries that it is allowed, each with a clean copy of what was committed then and with
nothing nested in it. Every body that returns gets a verdict. One more attempt is begun if and only
if publishing the last one met a conflict and a retry is left. Otherwise the last attempt decides
about the result, and unless it was published, no step of the call has touched what is committed or
what waits for its report. -/
structure Persists (thread : Nat) (own : C) (limit : Nat) (pursuit : Pursuit C) : Prop where
  few : pursuit.past.openings.length ≤ limit + 1
  numbered : pursuit.past.openings.map Opening.attempt = List.range pursuit.past.openings.length
  fresh : ∀ opening ∈ pursuit.past.openings,
    opening.scope = .start (opening.committed.copy opening.seed .clean)
  begins : pursuit.past.openings = [] → ∀ more, 3 ≤ advances more →
    (follow thread own pursuit more).past.openings ≠ [] ∨
      ∃ failure, (follow thread own pursuit more).stage = .left (.error failure)
  once : pursuit.past.endings.length ≤ pursuit.past.openings.length
  heard : pursuit.past.endings.length < pursuit.past.openings.length → ∀ seed ending,
    (step thread own pursuit (.act seed (.endBody ending))).past.endings =
      pursuit.past.endings ++ [ending]
  judged : pursuit.past.verdicts.map Verdict.ending <+: pursuit.past.endings
  weighed : ∀ more, 1 ≤ advances more →
    pursuit.past.endings.length ≤ (follow thread own pursuit more).past.verdicts.length
  followed : ∀ index, index + 1 < pursuit.past.openings.length → index < limit ∧
    ∃ failure, failure.isConflict = true ∧
      pursuit.past.verdicts[index]? = some (.refused failure)
  follows : ∀ failure, failure.isConflict = true →
    pursuit.past.verdicts.getLast? = some (.refused failure) →
    pursuit.past.verdicts.length ≤ limit → ∀ more, 3 ≤ advances more →
      pursuit.past.verdicts.length < (follow thread own pursuit more).past.openings.length
  stops : ∀ verdict, pursuit.past.Settled limit verdict →
    ∀ more, (follow thread own pursuit more).past = pursuit.past
  returns : ∀ verdict result, pursuit.past.Settled limit verdict → verdict.result? = some result →
    ∀ more, 3 ≤ advances more → (follow thread own pursuit more).stage = .left result
  exhausted : ∀ result, pursuit.stage = .left result →
    ((∃ failure, failure.isConflict = true ∧ result = .error failure ∧
        pursuit.past.verdicts.getLast? = some (.refused failure)) ↔
      pursuit.past.verdicts.length = limit + 1 ∧
        ∀ verdict ∈ pursuit.past.verdicts, verdict.Conflicts)
  silent : ∀ seed act, let later := step thread own pursuit (.act seed act)
    (∃ next, later.past.verdicts.getLast? = some (.published next)) ∨
      later.memory.committed = pursuit.memory.committed ∧
        later.memory.reports = pursuit.memory.reports
  counted : ∀ number ∈ pursuit.stage.number?, number ≤ limit ∧ number < UInt64.size

variable {limit : Nat} {thread : Nat} {own : C} {pursuit : Pursuit C} {seed : Identity}
  {memory : Memory} {stage next : Stage C} {past : Past C}

private theorem Sound.counted (sound : pursuit.Sound limit) :
    ∀ number ∈ pursuit.stage.number?, number ≤ limit ∧ number < UInt64.size := by
  have size : limit < UInt64.size := sound.policy ▸ pursuit.memory.policy.maxRetries.toNat_lt
  have standing := sound.standing
  intro number given
  suffices within : number ≤ limit from ⟨within, by omega⟩
  cases stage : pursuit.stage <;> rw [stage] at given standing <;> cases given
  all_goals exact standing.within

private theorem Sound.exhausted (sound : pursuit.Sound limit) {result : Ending}
    (left : pursuit.stage = .left result) :
    (∃ failure, failure.isConflict = true ∧ result = .error failure ∧
        pursuit.past.verdicts.getLast? = some (.refused failure)) ↔
      pursuit.past.verdicts.length = limit + 1 ∧
        ∀ verdict ∈ pursuit.past.verdicts, verdict.Conflicts := by
  have standing := sound.standing
  rw [left] at standing
  cases standing with
  | barred failure nothing =>
    have none : pursuit.past.verdicts = [] := List.eq_nil_of_length_eq_zero nothing.verdicts
    simp [none]
  | @final attempt verdict result judged last given =>
    rw [judged.last, judged.length]
    constructor
    · rintro ⟨failure, conflict, rfl, same⟩
      obtain rfl : verdict = .refused failure := Option.some.inj same
      exact ⟨by rw [last conflict], judged.conflicts conflict⟩
    · rintro ⟨count, all⟩
      obtain ⟨failure, rfl, conflict⟩ :=
        Verdict.conflicts_iff.mp (all verdict (List.mem_of_getLast? judged.last))
      exact ⟨failure, conflict, given _ rfl, rfl⟩

/-- Nothing is lost of the past. -/
structure Past.Grows (past later : Past C) : Prop where
  openings : past.openings <+: later.openings
  endings : past.endings <+: later.endings
  verdicts : past.verdicts <+: later.verdicts

theorem Past.Grows.trans {later last : Past C} (first : past.Grows later)
    (second : later.Grows last) : past.Grows last :=
  ⟨first.openings.trans second.openings, first.endings.trans second.endings,
    first.verdicts.trans second.verdicts⟩

private theorem grows_step (thread : Nat) (own : C) (pursuit : Pursuit C) (event : Event C) :
    pursuit.past.Grows (step thread own pursuit event).past := by
  cases event with
  | act seed act => exact ⟨List.prefix_append _ _, List.prefix_append _ _, List.prefix_append _ _⟩
  | others memory => exact ⟨List.prefix_rfl, List.prefix_rfl, List.prefix_rfl⟩

private theorem grows_follow (thread : Nat) (own : C) (pursuit : Pursuit C)
    (events : List (Event C)) : pursuit.past.Grows (follow thread own pursuit events).past := by
  induction events generalizing pursuit with
  | nil => exact ⟨List.prefix_rfl, List.prefix_rfl, List.prefix_rfl⟩
  | cons event events ih =>
    exact (grows_step thread own pursuit event).trans (ih (step thread own pursuit event))

/-- Nothing is begun after a verdict that is no conflict, or after the last attempt permitted. -/
private theorem Past.Ordered.openings_le {index : Nat} {verdict : Verdict}
    (ordered : past.Ordered limit) (found : past.verdicts[index]? = some verdict)
    (enough : verdict.Conflicts → limit ≤ index) : past.openings.length ≤ index + 1 := by
  by_contra another
  obtain ⟨below, failure, conflict, same⟩ := ordered.followed index (by omega)
  obtain rfl : verdict = .refused failure := Option.some.inj (found.symm.trans same)
  have exceeded := enough conflict
  omega

private theorem Past.Settled.found {verdict : Verdict} (settled : past.Settled limit verdict) :
    ∃ index, past.verdicts.length = index + 1 ∧ past.verdicts[index]? = some verdict ∧
      (verdict.Conflicts → limit ≤ index) := by
  obtain ⟨last, enough⟩ := settled
  obtain ⟨earlier, split⟩ := List.getLast?_eq_some_iff.mp last
  have count : past.verdicts.length = earlier.length + 1 := by simp [split]
  refine ⟨earlier.length, count, by rw [split, List.getElem?_concat_length], ?_⟩
  intro conflicts
  have exceeded := enough conflicts
  omega

/-- A call that has settled has no attempt to come. -/
private theorem Past.Ordered.final {later : Past C} {verdict : Verdict}
    (before : past.Ordered limit) (after : later.Ordered limit) (grows : past.Grows later)
    (settled : past.Settled limit verdict) : later = past := by
  obtain ⟨index, count, found, enough⟩ := settled.found
  have few : later.openings.length ≤ past.verdicts.length := by
    obtain ⟨rest, same⟩ := grows.verdicts
    have kept : later.verdicts[index]? = some verdict := by
      rw [← same, List.getElem?_append_left (by omega), found]
    rw [count]
    exact after.openings_le kept enough
  have judged : past.verdicts.length ≤ past.endings.length := by
    simpa using before.judged.length_le
  have openings := grows.openings.eq_of_length_le (Nat.le_trans few before.verdicts)
  have verdicts := grows.verdicts.eq_of_length_le (Nat.le_trans after.verdicts few)
  have endings := grows.endings.eq_of_length_le
    (Nat.le_trans (Nat.le_trans after.once few) judged)
  exact Past.ext openings.symm endings.symm verdicts.symm

private theorem Sound.stops (sound : pursuit.Sound limit) {verdict : Verdict}
    (settled : pursuit.past.Settled limit verdict) (thread : Nat) (own : C)
    (more : List (Event C)) : (Pursuit.follow thread own pursuit more).past = pursuit.past :=
  sound.standing.ordered.final (sound.follow thread own more).standing.ordered
    (grows_follow thread own pursuit more) settled

private theorem not_foreign_of_busy (busy : stage.Busy) : ¬stage.Foreign := by
  cases stage with
  | working attempt scope => exact busy.elim
  | handling commit copy callback callbacks => exact busy.elim
  | _ => exact id

/-- Nothing but the engine moves a call on unless client code is waited for. -/
private theorem step_unmoved (inside : ¬pursuit.stage.Foreign) (thread : Nat) (own : C)
    {event : Event C} (other : event.isAdvance = false) :
    (step thread own pursuit event).stage = pursuit.stage ∧
      (step thread own pursuit event).past = pursuit.past := by
  obtain ⟨memory, stage, past⟩ := pursuit
  cases event with
  | others memory => exact ⟨rfl, rfl⟩
  | act seed act =>
    cases act with
    | advance => nomatch other
    | _ =>
      cases stage with
      | working | handling => exact absurd trivial inside
      | _ =>
        rw [step_still rfl rfl rfl rfl]
        exact ⟨rfl, rfl⟩

/-- A step of the engine brings a busy call closer to its next attempt or to its end. -/
private theorem step_nearer (busy : pursuit.stage.Busy) (thread : Nat) (own : C) (seed : Identity) :
    let later := step thread own pursuit (.act seed .advance)
    later.stage.Busy ∧ later.stage.steps ≤ pursuit.stage.steps - 1 ∨
      pursuit.past.openings.length < later.past.openings.length := by
  obtain ⟨memory, stage, past⟩ := pursuit
  cases stage with
  | called =>
    left
    simp only [step, Call.act, Stage.advance]
    cases memory.enter thread <;> simp [Stage.Busy, Stage.steps]
  | entered => exact .inl ⟨trivial, Nat.le_refl _⟩
  | ready attempt =>
    right
    simp [step, Call.act, Stage.advance, Stage.openings]
  | rejected attempt failure =>
    left
    simp only [step, Call.act, Stage.advance]
    cases failure.isConflict <;> cases memory.policy.permits attempt <;>
      simp [Stage.Busy, Stage.steps]
  | exhausted failure => exact .inl ⟨trivial, Nat.le_refl _⟩
  | leaving result => exact .inl ⟨trivial, Nat.le_refl _⟩
  | left result => exact .inl ⟨trivial, Nat.le_refl _⟩
  | _ => exact busy.elim

private theorem follow_busy (busy : pursuit.stage.Busy) (thread : Nat) (own : C)
    {more : List (Event C)} (enough : pursuit.stage.steps ≤ advances more) :
    (∃ result, (follow thread own pursuit more).stage = .left result) ∨
      pursuit.past.openings.length < (follow thread own pursuit more).past.openings.length := by
  induction more generalizing pursuit with
  | nil =>
    obtain ⟨memory, stage, past⟩ := pursuit
    cases stage with
    | left result => exact .inl ⟨result, rfl⟩
    | called | entered | ready | rejected | exhausted | leaving =>
      simp [Stage.steps, advances] at enough
    | _ => exact busy.elim
  | cons event more ih =>
    cases mine : event.isAdvance with
    | false =>
      obtain ⟨stage, past⟩ := step_unmoved (not_foreign_of_busy busy) thread own mine
      rw [advances, List.countP_cons_of_neg (by simp [mine]), ← stage] at enough
      rw [← past]
      exact ih (stage ▸ busy) enough
    | true =>
      obtain ⟨seed, rfl⟩ := Event.eq_advance mine
      rw [advances, List.countP_cons_of_pos rfl] at enough
      rcases step_nearer busy thread own seed with ⟨still, nearer⟩ | begun
      · have kept := (grows_step thread own pursuit (.act seed .advance)).openings.length_le
        have left := ih still (Nat.le_trans nearer (Nat.sub_le_of_le_add enough))
        exact left.imp id fun begun => Nat.lt_of_le_of_lt kept begun
      · have kept := grows_follow thread own (step thread own pursuit (.act seed .advance)) more
        exact .inr (Nat.lt_of_lt_of_le begun kept.openings.length_le)

private theorem Past.Beaten.last {attempt opened : Nat} {returned : List Ending}
    (beaten : past.Beaten limit attempt opened returned) {verdict : Verdict}
    (last : past.verdicts.getLast? = some verdict) : 0 < attempt ∧ verdict.Conflicts := by
  have member := List.mem_of_getLast? last
  refine ⟨?_, beaten.conflicts verdict member⟩
  rw [← beaten.verdicts]
  exact List.length_pos_of_mem member

/-- Unless callbacks are to run, the engine is at work until a body runs again. -/
private theorem Past.Standing.busy (standing : past.Standing limit stage)
    (unpublished : ∀ next, past.verdicts.getLast? ≠ some (.published next)) :
    (stage.Busy ∧ stage.steps ≤ 3) ∨ past.verdicts.length < past.openings.length := by
  cases stage with
  | working attempt scope =>
    right
    rw [standing.verdicts, standing.openings]
    exact Nat.lt_succ_self attempt
  | ended attempt scope ending =>
    right
    rw [standing.verdicts, standing.openings]
    exact Nat.lt_succ_self attempt
  | published | waiting | reporting | handling | releasing =>
    obtain ⟨attempt, judged⟩ := standing
    exact absurd judged.last (unpublished _)
  | closing result =>
    obtain ⟨attempt, next, judged⟩ := standing
    exact absurd judged.last (unpublished next)
  | _ => exact .inl ⟨trivial, by simp [Stage.steps]⟩

private theorem Sound.concluded (sound : pursuit.Sound limit) {result : Ending}
    (left : pursuit.stage = .left result) {verdict : Verdict}
    (last : pursuit.past.verdicts.getLast? = some verdict) :
    (verdict.Conflicts → limit < pursuit.past.verdicts.length) ∧
      ∀ decided ∈ verdict.result?, result = decided := by
  have standing := sound.standing
  rw [left] at standing
  cases standing with
  | barred failure nothing => exact absurd (nothing.last last).1 (Nat.lt_irrefl 0)
  | @final attempt other result judged exhausted given =>
    rw [judged.last] at last
    cases last
    refine ⟨?_, given⟩
    intro conflicts
    rw [judged.length, exhausted conflicts]
    exact Nat.lt_succ_self limit

private theorem Sound.begins (sound : pursuit.Sound limit) (thread : Nat) (own : C)
    (none : pursuit.past.openings = []) {events : List (Event C)} (enough : 3 ≤ advances events) :
    (Pursuit.follow thread own pursuit events).past.openings ≠ [] ∨
      ∃ failure, (Pursuit.follow thread own pursuit events).stage = .left (.error failure) := by
  have unjudged : pursuit.past.verdicts = [] := by
    have few := sound.standing.ordered.verdicts
    rw [none] at few
    exact List.eq_nil_of_length_eq_zero (Nat.le_zero.mp few)
  rcases sound.standing.busy (by simp [unjudged]) with ⟨busy, near⟩ | begun
  · rcases follow_busy busy thread own (Nat.le_trans near enough) with ⟨result, left⟩ | begun
    · have later := (sound.follow thread own events).standing
      rw [left] at later
      cases later with
      | barred failure nothing => exact .inr ⟨failure, left⟩
      | final judged last given => exact .inl (List.ne_nil_of_length_eq_add_one judged.openings)
    · exact .inl (List.ne_nil_of_length_pos (Nat.lt_of_le_of_lt (Nat.zero_le _) begun))
  · simp [none] at begun

/-- A body that has been begun is running, or it has returned and waits for its verdict, or it has
got one. -/
private theorem Past.Standing.running (standing : past.Standing limit stage) :
    (∃ attempt scope, stage = .working attempt scope) ∧
        past.endings.length = past.verdicts.length ∨
      (∃ attempt scope ending, stage = .ended attempt scope ending) ∧
        past.openings.length = past.endings.length ∧
        past.endings.length = past.verdicts.length + 1 ∨
      past.openings.length = past.endings.length ∧
        past.endings.length = past.verdicts.length := by
  have beaten {attempt : Nat} (beaten : past.Beaten limit attempt attempt []) :
      past.openings.length = past.endings.length ∧
        past.endings.length = past.verdicts.length := by
    simp [beaten.endings, beaten.openings, beaten.verdicts]
  have judged {attempt : Nat} {verdict : Verdict} (judged : past.Judged limit attempt verdict) :
      past.openings.length = past.endings.length ∧
        past.endings.length = past.verdicts.length := by
    simp [judged.endings, judged.openings, judged.length]
  cases stage with
  | working attempt scope => exact .inl ⟨⟨attempt, scope, rfl⟩, by simp [standing.endings]⟩
  | ended attempt scope ending =>
    refine .inr (.inl ⟨⟨attempt, scope, ending, rfl⟩, ?_⟩)
    simp [standing.endings, standing.openings, standing.verdicts]
  | called => exact .inr (.inr (beaten standing))
  | entered => exact .inr (.inr (beaten standing))
  | ready attempt => exact .inr (.inr (beaten standing))
  | rejected attempt failure => exact .inr (.inr (judged standing))
  | exhausted failure => exact .inr (.inr (judged standing.2))
  | published | waiting | reporting | handling | releasing =>
    obtain ⟨attempt, found⟩ := standing
    exact .inr (.inr (judged found))
  | closing result =>
    obtain ⟨attempt, next, found⟩ := standing
    exact .inr (.inr (judged found))
  | leaving | left =>
    cases standing with
    | barred failure nothing => exact .inr (.inr (beaten nothing))
    | final found last given => exact .inr (.inr (judged found))

private theorem Sound.heard (sound : pursuit.Sound limit) (thread : Nat) (own : C)
    (running : pursuit.past.endings.length < pursuit.past.openings.length) (seed : Identity)
    (ending : Ending) :
    (Pursuit.step thread own pursuit (.act seed (.endBody ending))).past.endings =
      pursuit.past.endings ++ [ending] := by
  rcases sound.standing.running with ⟨⟨attempt, scope, working⟩, _⟩ | ⟨_, same, _⟩ | ⟨same, _⟩
  · simp only [Pursuit.step, working, Stage.endings]
  · omega
  · omega

/-- A body that has returned gets its verdict with the next step of the engine. -/
private theorem follow_ended {attempt : Nat} {scope : Scope C} {ending : Ending}
    (ended : pursuit.stage = .ended attempt scope ending) (thread : Nat) (own : C)
    {events : List (Event C)} (enough : 1 ≤ advances events) :
    pursuit.past.verdicts.length < (follow thread own pursuit events).past.verdicts.length := by
  induction events generalizing pursuit with
  | nil => simp [advances] at enough
  | cons event events ih =>
    cases mine : event.isAdvance with
    | false =>
      obtain ⟨stage, past⟩ := step_unmoved (by rw [ended]; exact id) thread own mine
      rw [advances, List.countP_cons_of_neg (by simp [mine])] at enough
      rw [← past]
      exact ih (stage.trans ended) enough
    | true =>
      obtain ⟨seed, rfl⟩ := Event.eq_advance mine
      have grows := grows_follow thread own (step thread own pursuit (.act seed .advance)) events
      refine Nat.lt_of_lt_of_le ?_ grows.verdicts.length_le
      simp [step, ended, Stage.verdicts]

private theorem Sound.weighed (sound : pursuit.Sound limit) (thread : Nat) (own : C)
    {events : List (Event C)} (enough : 1 ≤ advances events) :
    pursuit.past.endings.length ≤
      (Pursuit.follow thread own pursuit events).past.verdicts.length := by
  have kept := (grows_follow thread own pursuit events).verdicts.length_le
  rcases sound.standing.running with ⟨_, same⟩ | ⟨⟨attempt, scope, ending, ended⟩, _, same⟩ |
    ⟨_, same⟩
  · omega
  · have judged := follow_ended ended thread own enough
    omega
  · omega

private theorem Sound.follows (sound : pursuit.Sound limit) (thread : Nat) (own : C)
    {failure : Failure} (conflict : failure.isConflict = true)
    (last : pursuit.past.verdicts.getLast? = some (.refused failure))
    (more : pursuit.past.verdicts.length ≤ limit) {events : List (Event C)}
    (enough : 3 ≤ advances events) : pursuit.past.verdicts.length <
      (Pursuit.follow thread own pursuit events).past.openings.length := by
  have later := sound.follow thread own events
  have grows := grows_follow thread own pursuit events
  have ordered := sound.standing.ordered
  rcases sound.standing.busy (by simp [last]) with ⟨busy, near⟩ | begun
  · rcases follow_busy busy thread own (Nat.le_trans near enough) with ⟨result, left⟩ | begun
    -- A call that is out has a verdict that settles it, so this cannot be its last one.
    · by_contra none
      have same := grows.verdicts.eq_of_length_le
        (Nat.le_trans later.standing.ordered.verdicts (Nat.le_of_not_lt none))
      rw [same] at last more
      have exceeded := (later.concluded left last).1 conflict
      omega
    · exact Nat.lt_of_le_of_lt ordered.verdicts begun
  · exact Nat.lt_of_lt_of_le begun grows.openings.length_le

private theorem Sound.returns (sound : pursuit.Sound limit) (thread : Nat) (own : C)
    {verdict : Verdict} {result : Ending} (settled : pursuit.past.Settled limit verdict)
    (given : verdict.result? = some result) {events : List (Event C)}
    (enough : 3 ≤ advances events) :
    (Pursuit.follow thread own pursuit events).stage = .left result := by
  have later := sound.follow thread own events
  have same := sound.stops settled thread own events
  have unpublished (next : Snapshot Entity) :
      pursuit.past.verdicts.getLast? ≠ some (.published next) := by
    rw [settled.1]
    rintro ⟨⟩
    nomatch given
  rcases sound.standing.busy unpublished with ⟨busy, near⟩ | begun
  · rcases follow_busy busy thread own (Nat.le_trans near enough) with ⟨other, left⟩ | begun
    · rw [← same] at settled
      rw [left, (later.concluded left settled.1).2 result given]
    · rw [same] at begun
      exact absurd begun (Nat.lt_irrefl _)
  · obtain ⟨index, count, found, least⟩ := settled.found
    have few := sound.standing.ordered.openings_le found least
    omega

/-- Only a call that has published touches what the others see of commits. -/
private theorem Sound.silent (sound : pursuit.Sound limit) (thread : Nat) (own : C)
    (seed : Identity) (act : Act C) : let later := Pursuit.step thread own pursuit (.act seed act)
    (∃ next, later.past.verdicts.getLast? = some (.published next)) ∨
      later.memory.committed = pursuit.memory.committed ∧
        later.memory.reports = pursuit.memory.reports := by
  obtain ⟨memory, stage, past⟩ := pursuit
  have change := Call.act_change seed memory ⟨thread, own, stage⟩ act
  have standing := (sound.act thread own seed act).standing
  simp only [Pursuit.step] at standing ⊢
  generalize Call.act seed memory ⟨thread, own, stage⟩ act = after at change standing ⊢
  obtain ⟨after, next⟩ := after
  cases change with
  | aside outside still committed reports => exact .inr ⟨committed, reports⟩
  | @publish before attempt scope commit callbacks after ended timestamp committed reports =>
    obtain ⟨attempt, judged⟩ := standing
    exact .inl ⟨_, judged.last⟩
  | release commit result =>
    obtain ⟨attempt, next, judged⟩ := standing
    exact .inl ⟨next, judged.last⟩
  | _ => exact .inr ⟨rfl, rfl⟩

private theorem policy_run (memory : Memory) (supply : Supply) (moves : List (Move C)) :
    (Threads.run memory supply moves).memory.policy = memory.policy := by
  induction moves using List.reverseRecOn with
  | nil => rfl
  | append_singleton moves move ih =>
    rw [Threads.run, List.foldl_concat, ← ih, ← Threads.run]
    cases move with
    | call thread own => rfl
    | act index act =>
      unfold Threads.step
      dsimp only
      split
      · rfl
      · exact Call.act_policy _ _ _ act

private theorem run_concat (thread : Nat) (own : C) (memory : Memory) (events : List (Event C))
    (event : Event C) : run thread own memory (events ++ [event]) =
      step thread own (run thread own memory events) event :=
  List.foldl_concat _ _ event events

/-- A call with this stage and this memory can be reached. -/
def Reached (thread : Nat) (own : C) (memory : Memory) (stage : Stage C) (after : Memory) : Prop :=
  ∃ events, (run thread own memory events).stage = stage ∧
    (run thread own memory events).memory = after

private theorem Reached.others {after : Memory} (reached : Reached thread own memory stage after)
    {later : Memory} (same : later.policy = after.policy) :
    Reached thread own memory stage later := by
  obtain ⟨events, rfl, rfl⟩ := reached
  refine ⟨events ++ [.others later], ?_, ?_⟩
  · rw [run_concat, step]
  · rw [run_concat, step, ← same]

private theorem Reached.act {after : Memory} (reached : Reached thread own memory stage after)
    (seed : Identity) (act : Act C) :
    Reached thread own memory (Call.act seed after ⟨thread, own, stage⟩ act).2
      (Call.act seed after ⟨thread, own, stage⟩ act).1 := by
  obtain ⟨events, rfl, rfl⟩ := reached
  refine ⟨events ++ [.act seed act], ?_, ?_⟩
  · rw [run_concat, Pursuit.step]
  · rw [run_concat, Pursuit.step]

/-- Whatever the threads do, to each of their calls the rest of them are such others. -/
theorem reached_of_threads (memory : Memory) (supply : Supply) (moves : List (Move C)) :
    ∀ call ∈ (Threads.run memory supply moves).calls,
      Reached call.thread call.own memory call.stage
        (Threads.run memory supply moves).memory := by
  induction moves using List.reverseRecOn with
  | nil => exact nofun
  | append_singleton moves move ih =>
    have policy := policy_run memory supply moves
    rw [Threads.run, List.foldl_concat, ← Threads.run]
    generalize Threads.run memory supply moves = threads at ih policy
    cases move with
    | call thread own =>
      intro call member
      rcases List.mem_append.mp member with old | new
      · exact ih call old
      · rw [List.mem_singleton.mp new]
        exact Reached.others ⟨[], rfl, rfl⟩ policy
    | act index act =>
      unfold Threads.step
      dsimp only
      split
      · exact ih
      · next actor found =>
        obtain ⟨front, back, split, replaced⟩ := split_at found
        rw [split] at ih
        have kept := Call.act_policy threads.supply.mint.1 threads.memory actor act
        dsimp only
        rw [replaced]
        refine forall_replaced ih (fun other _ reached => reached.others kept) ?_
        exact (ih actor (by simp)).act _ act

/-- Only conflicts are tried again, and no more often than the policy permits. -/
theorem retried_on_conflict (thread : Nat) (own : C) (memory : Memory) (events : List (Event C)) :
    (run thread own memory events).Persists thread own memory.policy.maxRetries.toNat := by
  have sound := (sound_start memory).follow thread own events
  have ordered := sound.standing.ordered
  exact {
    few := ordered.few
    numbered := sound.numbered
    fresh := sound.fresh
    begins := fun none _ enough => sound.begins thread own none enough
    once := ordered.once
    heard := sound.heard thread own
    judged := ordered.judged
    weighed := fun _ enough => sound.weighed thread own enough
    followed := ordered.followed
    follows := fun _ conflict last within _ enough =>
      sound.follows thread own conflict last within enough
    stops := fun _ settled more => sound.stops settled thread own more
    returns := fun _ _ settled given _ enough => sound.returns thread own settled given enough
    exhausted := fun _ left => sound.exhausted left
    silent := sound.silent thread own
    counted := sound.counted }

/-- The memory holds one cell, with an object that is nowhere else. -/
def stocked (number : Nat) : Memory :=
  .create ⟨0, []⟩ {RetryPolicy.standard with maxRetries := 1}
    (.cell (.ofObject ⟨⟨number, []⟩, .number number⟩))

/-- A body reads the cell, and before it ends another thread has replaced what the cell holds. -/
def contested (number : Nat) : List (Event Unit) :=
  let seed : Identity := ⟨7, []⟩
  let cell : Cell Value := .ofObject ⟨⟨number, []⟩, .number number⟩
  let read := {(stocked number).committed.copy seed .clean with data := .cell cell.deref.2}
  [.act seed .advance, .act seed (.work (.start read)), .others (stocked (number + 1)),
    .act seed (.endBody (.ok true)), .act seed .advance, .act seed .advance]

def outrun : List (Event Unit) :=
  [.act ⟨7, []⟩ .advance, .act ⟨7, []⟩ .advance] ++ contested 1 ++ contested 2 ++
    [.act ⟨7, []⟩ .advance, .act ⟨7, []⟩ .advance]

theorem retried_on_conflict_outrun :
    (run 0 () (stocked 1) outrun).past.openings.map Opening.attempt = [0, 1] ∧
      (run 0 () (stocked 1) outrun).past.verdicts.length = 2 ∧
      (match (run 0 () (stocked 1) outrun).stage with
        | .left result => some result
        | _ => none) = some (.error (.conflict .cellChanged)) ∧
      (run 0 () (stocked 1) outrun).Persists 0 () 1 := by
  refine ⟨?_, ?_, ?_, retried_on_conflict 0 () (stocked 1) outrun⟩
  · decide +kernel
  · decide +kernel
  · decide +kernel

end Pursuit
end TransactionalMemory
