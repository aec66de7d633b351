import Mathlib.Data.List.Induction
import Mathlib.Data.List.Nodup
import Mathlib.Data.List.Perm.Basic
import TransactionalMemory.Proofs.Threads

/-! The order in which commits report to their callbacks. A commit waits for its turn from the
moment it is published, so that the timestamps that were released and those that still wait are
all that there are, in order; whoever holds the turn stands at the head of the queue. -/
namespace TransactionalMemory
variable {C : Type}

inductive Deed (C : Type) where
  | starts (callback : C)
  | ends (outcome : Except Failure Unit)

def smooth (callbacks : List C) : List (Deed C) :=
  callbacks.flatMap fun callback => [.starts callback, .ends (.ok ())]

/-- All callbacks have ended well, or one has failed and those after it were skipped. -/
def Finished (callbacks : List C) (deeds : List (Deed C)) : Prop :=
  deeds = smooth callbacks ∨ ∃ passed callback skipped failure,
    callbacks = passed ++ callback :: skipped ∧
      deeds = smooth passed ++ [.starts callback, .ends (.error failure)]

def Underway (callbacks : List C) (deeds : List (Deed C)) : Prop :=
  Finished callbacks deeds ∨ ∃ passed rest, callbacks = passed ++ rest ∧
    (deeds = smooth passed ∨ ∃ callback later, rest = callback :: later ∧
      deeds = smooth passed ++ [.starts callback])

namespace Notice

def timestamp? : Notice C → Option Nat
  | .published _ commit _ => some commit.published.timestamp
  | _ => none

def snapshot? : Notice C → Option (Snapshot Entity)
  | .published _ commit _ => some commit.published
  | _ => none

def released? : Notice C → Option Nat
  | .released timestamp => some timestamp
  | _ => none

def seed? : Notice C → Option Identity
  | .published seed _ _ => some seed
  | .started _ seed _ _ => some seed
  | _ => none

def deed? (timestamp : Nat) : Notice C → Option (Deed C)
  | .started number _ callback _ => if number = timestamp then some (.starts callback) else none
  | .ended number outcome => if number = timestamp then some (.ends outcome) else none
  | _ => none

end Notice

def deeds (timestamp : Nat) (log : List (Notice C)) : List (Deed C) :=
  log.filterMap (Notice.deed? timestamp)

@[simp] theorem deeds_append (timestamp : Nat) (log later : List (Notice C)) :
    deeds timestamp (log ++ later) = deeds timestamp log ++ deeds timestamp later :=
  List.filterMap_append

@[simp] theorem deeds_singleton (timestamp : Nat) (notice : Notice C) :
    deeds timestamp [notice] = (notice.deed? timestamp).toList := by
  rw [deeds, List.filterMap_cons]
  split <;> simp_all

/-- The commit was published with these callbacks, and this is what has come of them. -/
def Told (log : List (Notice C)) (commit : Commit) (callbacks : List C)
    (told : List (Deed C)) : Prop :=
  (∃ seed, .published seed commit callbacks ∈ log) ∧ deeds commit.published.timestamp log = told

def Settled (timestamp : Nat) (log : List (Notice C)) : Prop :=
  ∃ seed commit callbacks, .published seed commit callbacks ∈ log ∧
    commit.published.timestamp = timestamp ∧ Finished callbacks (deeds timestamp log)

def Stage.holdsTurn : Stage C → Bool
  | .reporting .. => true
  | .handling .. => true
  | .releasing .. => true
  | _ => false

/-- How commits report, as far as the moves of the threads have come. -/
structure InOrder (initial : Snapshot Entity) (threads : Threads C) : Prop where
  numbered : threads.log.filterMap Notice.timestamp? =
    List.range' 1 threads.memory.committed.timestamp
  latest : (threads.log.filterMap Notice.snapshot?).getLastD initial = threads.memory.committed
  queued : threads.log.filterMap Notice.released? ++ threads.memory.reports =
    List.range' 1 threads.memory.committed.timestamp
  ordered : ∀ before after timestamp seed callback copy,
    threads.log = before ++ .started timestamp seed callback copy :: after →
    ∀ earlier, 1 ≤ earlier → earlier < timestamp → Settled earlier before
  copied : ∀ timestamp seed callback copy, .started timestamp seed callback copy ∈ threads.log →
    ∃ commit callbacks other, .published other commit callbacks ∈ threads.log ∧
      commit.published.timestamp = timestamp ∧ callback ∈ callbacks ∧
      copy = commit.published.copy seed .clean
  fresh : (threads.log.filterMap Notice.seed?).Nodup
  underway : ∀ seed commit callbacks, .published seed commit callbacks ∈ threads.log →
    Underway callbacks (deeds commit.published.timestamp threads.log)
  alone : threads.calls.Pairwise fun one other => ¬(one.stage.holdsTurn ∧ other.stage.holdsTurn)
  failing : ∀ index call commit copy callback callbacks failure,
    threads.calls[index]? = some call →
    call.stage = .handling commit copy callback callbacks →
    let after := threads.step (.act index (.endCallback (.error failure)))
    after.calls[index]? = some {call with stage := .releasing commit (.error failure)} ∧
      after.memory = threads.memory
  releasing : ∀ index call commit result, threads.calls[index]? = some call →
    call.stage = .releasing commit result →
    let after := threads.step (.act index .advance)
    after.calls[index]? = some {call with stage := .closing result} ∧
      threads.memory.reports = commit.published.timestamp :: after.memory.reports ∧
      after.memory.committed = threads.memory.committed
  awaited : ∀ timestamp, threads.memory.reports.head? = some timestamp →
    ∃ call ∈ threads.calls, ∃ commit, call.stage.holding = some commit ∧
      commit.published.timestamp = timestamp ∧
      (∃ seed callbacks, .published seed commit callbacks ∈ threads.log) ∧
      .released timestamp ∉ threads.log

/-- Where a call stands with its commit. -/
def Stage.Sound (reports : List Nat) (log : List (Notice C)) : Stage C → Prop
  | .published commit callbacks => Told log commit callbacks []
  | .waiting commit callbacks => Told log commit callbacks []
  | .reporting commit callbacks => reports.head? = some commit.published.timestamp ∧
      ∃ passed, Told log commit (passed ++ callbacks) (smooth passed)
  | .handling commit _ callback callbacks => reports.head? = some commit.published.timestamp ∧
      ∃ passed, Told log commit (passed ++ callback :: callbacks)
        (smooth passed ++ [.starts callback])
  | .releasing commit _ => reports.head? = some commit.published.timestamp ∧
      ∃ callbacks told, Told log commit callbacks told ∧ Finished callbacks told
  | _ => True

/-- What has to be known when a callback starts. -/
def Notice.Due (before : List (Notice C)) : Notice C → Prop
  | .started timestamp seed callback copy =>
    (∃ commit callbacks other, .published other commit callbacks ∈ before ∧
      commit.published.timestamp = timestamp ∧ callback ∈ callbacks ∧
      copy = commit.published.copy seed .clean) ∧
    ∀ earlier, 1 ≤ earlier → earlier < timestamp → Settled earlier before
  | _ => True

structure Threads.Sound (initial : Snapshot Entity) (threads : Threads C) : Prop where
  numbered : threads.log.filterMap Notice.timestamp? =
    List.range' 1 threads.memory.committed.timestamp
  latest : (threads.log.filterMap Notice.snapshot?).getLastD initial = threads.memory.committed
  queued : threads.log.filterMap Notice.released? ++ threads.memory.reports =
    List.range' 1 threads.memory.committed.timestamp
  settled : ∀ timestamp, .released timestamp ∈ threads.log → Settled timestamp threads.log
  silent : ∀ timestamp, threads.memory.committed.timestamp < timestamp →
    deeds timestamp threads.log = []
  due : ∀ before notice after, threads.log = before ++ notice :: after → notice.Due before
  fresh : (threads.log.filterMap Notice.seed?).Nodup
  spent : ∀ seed ∈ threads.log.filterMap Notice.seed?, seed.origin < threads.supply.next
  held : (threads.calls.filterMap (·.stage.timestamp?)).Perm threads.memory.reports
  standing : ∀ call ∈ threads.calls, call.stage.Sound threads.memory.reports threads.log

private theorem due_append {log : List (Notice C)} {last : Notice C}
    (due : ∀ before notice after, log = before ++ notice :: after → notice.Due before)
    (now : last.Due log) :
    ∀ before notice after, log ++ [last] = before ++ notice :: after → notice.Due before := by
  intro before notice after same
  rcases List.eq_nil_or_concat after with rfl | ⟨rest, final, rfl⟩
  · obtain ⟨rfl, only⟩ := List.append_inj' same rfl
    rw [List.cons.injEq] at only
    rwa [← only.1]
  · rw [List.concat_eq_append, ← List.cons_append, ← List.append_assoc] at same
    exact due before notice rest (List.append_inj' same rfl).1

private theorem seeds_append {log : List (Notice C)} {notice : Notice C} {supply : Supply}
    (fresh : (log.filterMap Notice.seed?).Nodup)
    (spent : ∀ seed ∈ log.filterMap Notice.seed?, seed.origin < supply.next)
    (seeded : ∀ seed, notice.seed? = some seed → seed = supply.mint.1) :
    ((log ++ [notice]).filterMap Notice.seed?).Nodup ∧
      ∀ seed ∈ (log ++ [notice]).filterMap Notice.seed?, seed.origin < supply.mint.2.next := by
  have new : ∀ seed ∈ [notice].filterMap Notice.seed?, seed = supply.mint.1 := by
    intro seed member
    obtain ⟨_, only, named⟩ := List.mem_filterMap.mp member
    rw [List.mem_singleton.mp only] at named
    exact seeded seed named
  rw [List.filterMap_append]
  constructor
  · refine List.nodup_append.mpr ⟨fresh, ?_, ?_⟩
    · rw [List.filterMap_cons]
      split <;> simp
    · intro seed old seed' added
      have order := spent seed old
      rw [new seed' added]
      rintro rfl
      exact absurd order (Nat.lt_irrefl _)
  · intro seed member
    rcases List.mem_append.mp member with old | added
    · exact Nat.lt_succ_of_lt (spent seed old)
    · rw [new seed added]
      exact Nat.lt_succ_self _

private theorem Settled.append {timestamp : Nat} {log : List (Notice C)} {notice : Notice C}
    (settled : Settled timestamp log) (other : notice.deed? timestamp = none) :
    Settled timestamp (log ++ [notice]) := by
  obtain ⟨seed, commit, callbacks, member, rfl, finished⟩ := settled
  refine ⟨seed, commit, callbacks, List.mem_append_left _ member, rfl, ?_⟩
  simpa [other] using finished

private theorem Stage.Sound.frame {reports reports' : List Nat} {log later : List (Notice C)}
    {stage : Stage C} (sound : stage.Sound reports log)
    (head : ∀ timestamp, stage.timestamp? = some timestamp → reports.head? = some timestamp →
      reports'.head? = some timestamp)
    (other : ∀ timestamp, stage.timestamp? = some timestamp → deeds timestamp later = []) :
    stage.Sound reports' (log ++ later) := by
  have told {commit : Commit} {callbacks : List C} {told : List (Deed C)}
      (mine : stage.timestamp? = some commit.published.timestamp)
      (known : Told log commit callbacks told) : Told (log ++ later) commit callbacks told := by
    obtain ⟨⟨seed, member⟩, rfl⟩ := known
    exact ⟨⟨seed, List.mem_append_left _ member⟩, by simp [other _ mine]⟩
  cases stage with
  | published commit callbacks => exact told rfl sound
  | waiting commit callbacks => exact told rfl sound
  | reporting commit callbacks =>
    obtain ⟨first, passed, known⟩ := sound
    exact ⟨head _ rfl first, passed, told rfl known⟩
  | handling commit copy callback callbacks =>
    obtain ⟨first, passed, known⟩ := sound
    exact ⟨head _ rfl first, passed, told rfl known⟩
  | releasing commit result =>
    obtain ⟨first, callbacks, deeds, known, finished⟩ := sound
    exact ⟨head _ rfl first, callbacks, deeds, told rfl known, finished⟩
  | _ => trivial

private theorem Stage.Sound.head {reports : List Nat} {log : List (Notice C)} {stage : Stage C}
    (sound : stage.Sound reports log) (turn : stage.holdsTurn) :
    ∃ timestamp, stage.timestamp? = some timestamp ∧ reports.head? = some timestamp := by
  cases stage with
  | reporting commit callbacks => exact ⟨_, rfl, sound.1⟩
  | handling commit copy callback callbacks => exact ⟨_, rfl, sound.1⟩
  | releasing commit result => exact ⟨_, rfl, sound.1⟩
  | _ => cases turn

private theorem Stage.Sound.told {reports : List Nat} {log : List (Notice C)} {stage : Stage C}
    {commit : Commit} (sound : stage.Sound reports log) (holding : stage.holding = some commit) :
    ∃ callbacks told, Told log commit callbacks told ∧ Underway callbacks told := by
  cases stage with
  | published commit callbacks =>
    cases holding
    exact ⟨_, _, sound, .inr ⟨[], _, rfl, .inl rfl⟩⟩
  | waiting commit callbacks =>
    cases holding
    exact ⟨_, _, sound, .inr ⟨[], _, rfl, .inl rfl⟩⟩
  | reporting commit callbacks =>
    cases holding
    obtain ⟨_, passed, known⟩ := sound
    exact ⟨_, _, known, .inr ⟨passed, _, rfl, .inl rfl⟩⟩
  | handling commit copy callback callbacks =>
    cases holding
    obtain ⟨_, passed, known⟩ := sound
    exact ⟨_, _, known, .inr ⟨passed, _, rfl, .inr ⟨_, _, rfl, rfl⟩⟩⟩
  | releasing commit result =>
    cases holding
    obtain ⟨_, callbacks, told, known, finished⟩ := sound
    exact ⟨_, _, known, .inl finished⟩
  | _ => cases holding

namespace Threads
variable {initial : Snapshot Entity} {memory after : Memory} {supply : Supply}
  {front back : List (Call C)} {call : Call C} {log : List (Notice C)} {stage : Stage C}

/-- The timestamps of the others differ from that of the call in their midst. -/
theorem Sound.others (sound : Sound initial ⟨memory, supply, front ++ call :: back, log⟩)
    {timestamp : Nat} (mine : call.stage.timestamp? = some timestamp) :
    ∀ other, other ∈ front ∨ other ∈ back → other.stage.timestamp? ≠ some timestamp := by
  have known := sound.queued ▸ List.nodup_range'
  have distinct := sound.held.nodup_iff.mpr (List.nodup_append.mp known).2.1
  simp only [List.filterMap_append, List.filterMap_cons, mine] at distinct
  rw [List.nodup_middle, ← List.filterMap_append, List.nodup_cons] at distinct
  intro other member same
  refine distinct.1 (List.mem_filterMap.mpr ⟨other, ?_, same⟩)
  exact List.mem_append.mpr member

/-- A step that tells nothing: only the call that takes it has to be looked at. -/
theorem Sound.quiet {notices : List (Notice C)}
    (sound : Sound initial ⟨memory, supply, front ++ call :: back, log⟩) (nothing : notices = [])
    (committed : after.committed = memory.committed) (reports : after.reports = memory.reports)
    (same : stage.timestamp? = call.stage.timestamp?)
    (stands : stage.Sound memory.reports log) :
    Sound initial ⟨after, supply.mint.2, front ++ {call with stage} :: back, log ++ notices⟩ := by
  rw [nothing, List.append_nil]
  obtain ⟨numbered, latest, queued, settled, silent, due, fresh, spent, held, standing⟩ := sound
  dsimp only at *
  rw [← committed] at numbered latest queued silent
  rw [← reports] at queued held standing stands
  refine ⟨numbered, latest, queued, settled, silent, due, fresh, ?_, ?_, ?_⟩
  · intro seed member
    exact Nat.lt_succ_of_lt (spent seed member)
  · simpa only [List.filterMap_append, List.filterMap_cons, same] using held
  · exact forall_replaced standing (fun _ _ => id) stands

/-- The call at the head of the queue tells that a callback has started or ended. -/
theorem Sound.tell (sound : Sound initial ⟨memory, supply, front ++ call :: back, log⟩)
    {timestamp : Nat} (mine : call.stage.timestamp? = some timestamp)
    (first : memory.reports.head? = some timestamp) (same : stage.timestamp? = some timestamp)
    {notice : Notice C} (unnumbered : notice.timestamp? = none)
    (unpublished : notice.snapshot? = none) (unreleased : notice.released? = none)
    (seeded : ∀ seed, notice.seed? = some seed → seed = supply.mint.1)
    (other : ∀ number, number ≠ timestamp → notice.deed? number = none)
    (due : notice.Due log) (stands : stage.Sound memory.reports (log ++ [notice])) :
    Sound initial ⟨memory, supply.mint.2, front ++ {call with stage} :: back, log ++ [notice]⟩ := by
  have apart := sound.others mine
  have known := sound.queued ▸ List.nodup_range'
  have range : ∀ number, memory.committed.timestamp < number → number ≠ timestamp := by
    have member : timestamp ∈ log.filterMap Notice.released? ++ memory.reports :=
      List.mem_append_right _ (List.mem_of_mem_head? first)
    rw [sound.queued, List.mem_range'_1] at member
    dsimp only at member
    omega
  obtain ⟨numbered, latest, queued, settled, silent, dues, fresh, spent, held, standing⟩ := sound
  dsimp only at *
  have frame : ∀ neighbour, neighbour ∈ front ∨ neighbour ∈ back →
      neighbour.stage.Sound memory.reports log →
      neighbour.stage.Sound memory.reports (log ++ [notice]) := by
    intro neighbour member sound
    refine sound.frame (fun _ _ head => head) ?_
    intro number its
    have different : number ≠ timestamp := by
      rintro rfl
      exact apart neighbour member its
    simp [other number different]
  obtain ⟨fresh, spent⟩ := seeds_append fresh spent seeded
  refine ⟨?_, ?_, ?_, ?_, ?_, due_append dues due, fresh, spent, ?_, ?_⟩
  · simpa [unnumbered] using numbered
  · simpa [unpublished] using latest
  · simpa [unreleased] using queued
  · intro number member
    have old : .released number ∈ log := by
      rcases List.mem_append.mp member with old | new
      · exact old
      · rw [← List.mem_singleton.mp new] at unreleased
        cases unreleased
    apply (settled number old).append (other number _)
    rintro rfl
    have listed : number ∈ log.filterMap Notice.released? :=
      List.mem_filterMap.mpr ⟨_, old, rfl⟩
    exact (List.nodup_append.mp known).2.2 number listed number (List.mem_of_mem_head? first) rfl
  · intro number later
    rw [deeds_append, silent number later]
    simp [other number (range number later)]
  · simpa only [List.filterMap_append, List.filterMap_cons, same, mine] using held
  · exact forall_replaced standing frame stands

/-- A commit is published under the next number and goes to the end of the queue. -/
theorem Sound.publish (sound : Sound initial ⟨memory, supply, front ++ call :: back, log⟩)
    (outside : call.stage.timestamp? = none) {commit : Commit} {callbacks : List C}
    (next : commit.published.timestamp = memory.committed.timestamp + 1)
    (committed : after.committed = commit.published)
    (reports : after.reports = memory.reports ++ [commit.published.timestamp]) :
    Sound initial ⟨after, supply.mint.2,
      front ++ {call with stage := .published commit callbacks} :: back,
      log ++ [.published supply.mint.1 commit callbacks]⟩ := by
  obtain ⟨numbered, latest, queued, settled, silent, dues, fresh, spent, held, standing⟩ := sound
  dsimp only at *
  have range : List.range' 1 after.committed.timestamp =
      List.range' 1 memory.committed.timestamp ++ [commit.published.timestamp] := by
    rw [committed, next, List.range'_1_concat, Nat.add_comm]
  have frame : ∀ neighbour : Call C, neighbour.stage.Sound memory.reports log →
      neighbour.stage.Sound after.reports (log ++ [.published supply.mint.1 commit callbacks]) := by
    intro neighbour sound
    refine sound.frame ?_ (fun _ _ => rfl)
    intro timestamp _ first
    rw [reports, List.head?_append, first]
    rfl
  have seeded : ∀ seed, (Notice.published supply.mint.1 commit callbacks).seed? = some seed →
      seed = supply.mint.1 := fun seed named => (Option.some.inj named).symm
  obtain ⟨fresh, spent⟩ := seeds_append fresh spent seeded
  refine ⟨?_, ?_, ?_, ?_, ?_, due_append dues trivial, fresh, spent, ?_, ?_⟩
  · dsimp only
    rw [range, ← numbered, List.filterMap_append]
    rfl
  · simp [Notice.snapshot?, committed]
  · dsimp only
    rw [range, ← queued, reports, List.filterMap_append]
    simp [Notice.released?]
  · intro timestamp member
    have old : .released timestamp ∈ log := by
      rcases List.mem_append.mp member with old | new
      · exact old
      · cases List.mem_singleton.mp new
    exact (settled timestamp old).append rfl
  · intro timestamp later
    dsimp only at later
    rw [committed, next] at later
    rw [deeds_append, silent timestamp (by omega)]
    rfl
  · simp only [List.filterMap_append, List.filterMap_cons, outside] at held
    simp only [List.filterMap_append, List.filterMap_cons, Stage.timestamp?, Stage.holding,
      Option.map_some, reports]
    exact List.perm_middle.trans ((held.cons _).trans (List.perm_append_singleton _ _).symm)
  · refine forall_replaced standing (fun neighbour _ => frame neighbour) ⟨⟨supply.mint.1, ?_⟩, ?_⟩
    · exact List.mem_append_right _ (List.mem_singleton_self _)
    · rw [deeds_append, silent _ (by omega)]
      rfl

private theorem Sound.release {commit : Commit} {result : Ending}
    (sound : Sound initial ⟨memory, supply, front ++ call :: back, log⟩)
    (turn : call.stage = .releasing commit result) :
    Sound initial ⟨memory.endReport commit.published.timestamp, supply.mint.2,
      front ++ {call with stage := .closing result} :: back,
      log ++ [.released commit.published.timestamp]⟩ := by
  have mine : call.stage.timestamp? = some commit.published.timestamp := by rw [turn]; rfl
  have apart := sound.others mine
  obtain ⟨numbered, latest, queued, settled, silent, dues, fresh, spent, held, standing⟩ := sound
  dsimp only at *
  have stands := standing call (List.mem_append_right _ List.mem_cons_self)
  rw [turn] at stands
  obtain ⟨first, callbacks, told, ⟨⟨seed, published⟩, known⟩, finished⟩ := stands
  obtain ⟨waiting, shape⟩ := List.head?_eq_some_iff.mp first
  have committed : (memory.endReport commit.published.timestamp).committed = memory.committed := by
    unfold Memory.endReport
    split <;> rfl
  have reports : (memory.endReport commit.published.timestamp).reports = waiting := by
    simp [Memory.endReport, Memory.hasTurn, shape]
  have frame : ∀ neighbour, neighbour ∈ front ∨ neighbour ∈ back →
      neighbour.stage.Sound memory.reports log →
      neighbour.stage.Sound waiting (log ++ [.released commit.published.timestamp]) := by
    intro neighbour member sound
    refine sound.frame ?_ (fun _ _ => rfl)
    intro timestamp its head
    obtain rfl : commit.published.timestamp = timestamp := by
      rwa [first, Option.some.injEq] at head
    exact absurd its (apart neighbour member)
  have seeded : ∀ seed, (Notice.released commit.published.timestamp : Notice C).seed? = some seed →
      seed = supply.mint.1 := by
    intro seed same
    cases same
  obtain ⟨fresh, spent⟩ := seeds_append fresh spent seeded
  refine ⟨?_, ?_, ?_, ?_, ?_, due_append dues trivial, fresh, spent, ?_, ?_⟩
  · simpa [committed, List.filterMap_cons, Notice.timestamp?] using numbered
  · simpa [committed, List.filterMap_cons, Notice.snapshot?] using latest
  · rw [shape] at queued
    simpa [committed, reports, Notice.released?] using queued
  · intro timestamp member
    apply Settled.append _ rfl
    rcases List.mem_append.mp member with old | new
    · exact settled timestamp old
    · cases List.mem_singleton.mp new
      exact ⟨seed, commit, callbacks, published, rfl, known ▸ finished⟩
  · intro timestamp later
    dsimp only at later
    rw [committed] at later
    rw [deeds_append, silent timestamp later]
    rfl
  · simp only [List.filterMap_append, List.filterMap_cons, mine, shape] at held
    have rest := (List.perm_middle.symm.trans held).cons_inv
    simpa only [List.filterMap_append, List.filterMap_cons, Stage.timestamp?, Stage.holding,
      Option.map_none, reports] using rest
  · dsimp only
    rw [reports]
    exact forall_replaced standing frame trivial

private theorem Sound.settled_before_head {threads : Threads C} (sound : Sound initial threads)
    {timestamp earlier : Nat} (first : threads.memory.reports.head? = some timestamp)
    (positive : 1 ≤ earlier) (order : earlier < timestamp) : Settled earlier threads.log := by
  obtain ⟨waiting, shape⟩ := List.head?_eq_some_iff.mp first
  have queued := sound.queued
  have increasing := List.pairwise_lt_range' (s := 1) (n := threads.memory.committed.timestamp)
  rw [← queued, shape, List.pairwise_append, List.pairwise_cons] at increasing
  have inside : timestamp ∈ List.range' 1 threads.memory.committed.timestamp := by
    rw [← queued, shape]
    exact List.mem_append_right _ List.mem_cons_self
  have known : earlier ∈ List.range' 1 threads.memory.committed.timestamp := by
    rw [List.mem_range'_1] at inside ⊢
    omega
  rw [← queued, shape, List.mem_append, List.mem_cons] at known
  rcases known with released | rfl | later
  · obtain ⟨notice, member, named⟩ := List.mem_filterMap.mp released
    cases notice <;> cases named
    exact sound.settled earlier member
  · exact absurd order (Nat.lt_irrefl _)
  · have wrong := increasing.2.1.1 earlier later
    omega

private theorem notices_self (seed : Identity) (stage : Stage C) :
    stage.notices seed stage = [] := by
  cases stage <;> rfl

private theorem notices_aside {before : Stage C} (seed : Identity) (outside : before.holding = none)
    (still : stage.holding = none) : before.notices seed stage = [] := by
  unfold Stage.notices
  split
  · cases still
  · cases outside
  · cases outside
  · cases outside
  · cases outside
  · rfl

private theorem Sound.change {supply : Supply}
    (sound : Sound initial ⟨memory, supply, front ++ call :: back, log⟩)
    (change : call.stage.Change supply.mint.1 memory after stage) :
    Sound initial ⟨after, supply.mint.2, front ++ {call with stage} :: back,
      log ++ call.stage.notices supply.mint.1 stage⟩ := by
  have stands := sound.standing call (List.mem_append_right _ List.mem_cons_self)
  dsimp only at stands
  obtain ⟨thread, own, before⟩ := call
  dsimp only at *
  cases change with
  | aside outside still committed reports =>
    have timeless : stage.timestamp? = before.timestamp? := by
      simp [Stage.timestamp?, outside, still]
    apply sound.quiet (notices_aside _ outside still) committed reports timeless
    cases stage <;> trivial
  | publish ended next committed reports =>
    subst ended
    exact sound.publish rfl next committed reports
  | record commit callbacks count =>
    exact sound.quiet rfl rfl rfl rfl stands
  | rest =>
    exact sound.quiet (notices_self _ _) rfl rfl rfl stands
  | turn commit callbacks thread first =>
    exact sound.quiet rfl rfl rfl rfl ⟨first, [], stands⟩
  | start commit callback callbacks =>
    obtain ⟨first, passed, ⟨seed, published⟩, told⟩ := stands
    refine sound.tell rfl first rfl rfl rfl rfl ?_ ?_ ?_ ?_
    · intro seed named
      exact (Option.some.inj named).symm
    · intro number different
      exact if_neg different.symm
    · refine ⟨⟨commit, _, seed, published, rfl, by simp, rfl⟩, ?_⟩
      intro earlier positive order
      exact sound.settled_before_head first positive order
    · refine ⟨first, passed, ⟨seed, List.mem_append_left _ published⟩, ?_⟩
      simp [told, Notice.deed?]
  | handle commit copy other callback callbacks =>
    exact sound.quiet rfl rfl rfl rfl stands
  | pass commit copy callback callbacks =>
    obtain ⟨first, passed, ⟨seed, published⟩, told⟩ := stands
    refine sound.tell rfl first rfl rfl rfl rfl nofun ?_ trivial ?_
    · intro number different
      exact if_neg different.symm
    · refine ⟨first, passed ++ [callback], ⟨seed, ?_⟩, ?_⟩
      · simp [published]
      · simp [told, Notice.deed?, smooth]
  | fail commit copy callback callbacks failure =>
    obtain ⟨first, passed, ⟨seed, published⟩, told⟩ := stands
    refine sound.tell rfl first rfl rfl rfl rfl nofun ?_ trivial ?_
    · intro number different
      exact if_neg different.symm
    · refine ⟨first, _, _, ⟨⟨seed, List.mem_append_left _ published⟩, rfl⟩,
        .inr ⟨passed, callback, callbacks, failure, rfl, ?_⟩⟩
      simp [told, Notice.deed?]
  | complete commit =>
    obtain ⟨first, passed, told⟩ := stands
    refine sound.quiet rfl rfl rfl rfl ⟨first, passed, smooth passed, ?_, .inl rfl⟩
    rwa [List.append_nil] at told
  | release commit result => exact sound.release rfl

theorem Sound.step {threads : Threads C} (sound : Sound initial threads) (move : Move C) :
    Sound initial (threads.step move) := by
  cases move with
  | call thread own =>
    obtain ⟨numbered, latest, queued, settled, silent, due, fresh, spent, held, standing⟩ := sound
    refine ⟨numbered, latest, queued, settled, silent, due, fresh, spent, ?_, ?_⟩
    · simpa [Threads.step, List.filterMap_append, Stage.timestamp?, Stage.holding] using held
    · intro call member
      rcases List.mem_append.mp member with old | new
      · exact standing call old
      · rw [List.mem_singleton.mp new]
        trivial
  | act index act =>
    rw [Threads.step]
    split
    · exact sound
    · next call found =>
      obtain ⟨memory, supply, calls, log⟩ := threads
      obtain ⟨front, back, shape, changed⟩ := split_at found
      dsimp only at shape changed sound ⊢
      rw [changed]
      rw [shape] at sound
      exact sound.change (call.act_change supply.mint.1 memory act)

theorem sound_run (seed : Identity) (policy : RetryPolicy) (data : Entity) (supply : Supply)
    (moves : List (Move C)) :
    Sound (Memory.create seed policy data).committed
      (run (Memory.create seed policy data) supply moves) := by
  induction moves using List.reverseRecOn with
  | nil => constructor <;> simp [run, start, Memory.create, Snapshot.start, deeds]
  | append_singleton moves move ih =>
    rw [run, List.foldl_concat]
    exact ih.step move

private theorem Sound.published_unique {threads : Threads C} (sound : Sound initial threads)
    {seed other : Identity} {commit commit' : Commit} {callbacks callbacks' : List C}
    (member : .published seed commit callbacks ∈ threads.log)
    (member' : .published other commit' callbacks' ∈ threads.log)
    (same : commit.published.timestamp = commit'.published.timestamp) :
    callbacks = callbacks' := by
  have distinct : (threads.log.filterMap Notice.timestamp?).Nodup :=
    sound.numbered ▸ List.nodup_range'
  rw [List.Nodup, List.pairwise_filterMap] at distinct
  let Agree : Notice C → Notice C → Prop := fun one other =>
    ∀ number, one.timestamp? = some number → other.timestamp? = some number → one = other
  have agree : threads.log.Pairwise Agree :=
    distinct.imp fun apart number named named' => absurd rfl (apart number named number named')
  have flipped : threads.log.Pairwise (flip Agree) :=
    distinct.imp fun apart number named named' => absurd rfl (apart number named' number named)
  have equal := agree.forall_of_forall_of_flip (fun _ _ _ _ _ => rfl) flipped member member'
    commit.published.timestamp rfl (congrArg some same.symm)
  cases equal
  rfl

private theorem Sound.underway {threads : Threads C} (sound : Sound initial threads)
    {seed : Identity} {commit : Commit} {callbacks : List C}
    (member : .published seed commit callbacks ∈ threads.log) :
    Underway callbacks (deeds commit.published.timestamp threads.log) := by
  have numbered : commit.published.timestamp ∈ threads.log.filterMap Notice.timestamp? :=
    List.mem_filterMap.mpr ⟨_, member, rfl⟩
  rw [sound.numbered, ← sound.queued, List.mem_append] at numbered
  rcases numbered with released | waiting
  · obtain ⟨notice, known, named⟩ := List.mem_filterMap.mp released
    cases notice <;> cases named
    obtain ⟨other, commit', callbacks', member', same, finished⟩ := sound.settled _ known
    rw [sound.published_unique member' member same] at finished
    exact .inl finished
  · obtain ⟨call, called, its⟩ := List.mem_filterMap.mp (sound.held.mem_iff.mpr waiting)
    obtain ⟨commit', holding, same⟩ := Option.map_eq_some_iff.mp its
    obtain ⟨callbacks', told, ⟨⟨other, member'⟩, known⟩, underway⟩ :=
      (sound.standing call called).told holding
    rw [same] at known
    rwa [known, sound.published_unique member member' same.symm]

private theorem Sound.alone {threads : Threads C} (sound : Sound initial threads) :
    threads.calls.Pairwise fun one other => ¬(one.stage.holdsTurn ∧ other.stage.holdsTurn) := by
  have known := sound.queued ▸ List.nodup_range'
  have distinct := sound.held.nodup_iff.mpr (List.nodup_append.mp known).2.1
  rw [List.Nodup, List.pairwise_filterMap] at distinct
  apply distinct.imp_of_mem
  rintro one other member member' apart ⟨turn, turn'⟩
  obtain ⟨timestamp, its, first⟩ := (sound.standing one member).head turn
  obtain ⟨timestamp', its', first'⟩ := (sound.standing other member').head turn'
  apply apart timestamp its timestamp' its'
  rwa [first, Option.some.injEq] at first'

theorem Sound.inOrder {threads : Threads C} (sound : Sound initial threads) :
    InOrder initial threads where
  numbered := sound.numbered
  latest := sound.latest
  queued := sound.queued
  ordered := by
    intro before after timestamp seed callback copy shape
    exact (sound.due before _ after shape).2
  copied := by
    intro timestamp seed callback copy member
    obtain ⟨before, after, shape⟩ := List.append_of_mem member
    obtain ⟨⟨commit, callbacks, other, published, rest⟩, _⟩ := sound.due before _ after shape
    refine ⟨commit, callbacks, other, ?_, rest⟩
    rw [shape]
    exact List.mem_append_left _ published
  fresh := sound.fresh
  underway := fun _ _ _ member => sound.underway member
  alone := sound.alone
  failing := by
    intro index call commit copy callback callbacks failure found shape after
    obtain ⟨bound, rfl⟩ := List.getElem?_eq_some_iff.mp found
    simp [after, Threads.step, bound, Call.act, Stage.endCallback, shape]
  releasing := by
    intro index call commit result found shape after
    have stands := sound.standing call (List.mem_of_getElem? found)
    obtain ⟨bound, rfl⟩ := List.getElem?_eq_some_iff.mp found
    rw [shape] at stands
    obtain ⟨waiting, queue⟩ := List.head?_eq_some_iff.mp stands.1
    simp [after, Threads.step, bound, Call.act, Stage.advance, shape, Memory.endReport,
      Memory.hasTurn, queue]
  awaited := by
    intro timestamp first
    have waiting := List.mem_of_mem_head? first
    obtain ⟨call, member, its⟩ := List.mem_filterMap.mp (sound.held.mem_iff.mpr waiting)
    obtain ⟨commit, holding, rfl⟩ := Option.map_eq_some_iff.mp its
    obtain ⟨callbacks, _, ⟨⟨seed, published⟩, _⟩, _⟩ := (sound.standing call member).told holding
    refine ⟨call, member, commit, holding, rfl, ⟨seed, callbacks, published⟩, ?_⟩
    intro released
    have known := sound.queued ▸ List.nodup_range'
    apply (List.nodup_append.mp known).2.2 _ _ _ waiting rfl
    exact List.mem_filterMap.mpr ⟨_, released, rfl⟩

end Threads

/-- However the threads that share a memory take their steps, commits report in their order. -/
theorem reports_in_order (seed : Identity) (policy : RetryPolicy) (data : Entity)
    (supply : Supply) (moves : List (Move C)) :
    InOrder (Memory.create seed policy data).committed
      (Threads.run (Memory.create seed policy data) supply moves) :=
  (Threads.sound_run seed policy data supply moves).inOrder

end TransactionalMemory
