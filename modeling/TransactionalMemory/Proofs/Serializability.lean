import Mathlib.Algebra.GroupWithZero.Nat
import TransactionalMemory.Proofs.History
import TransactionalMemory.Proofs.Naming
import TransactionalMemory.Proofs.ScopeReach

/-! Serializability of a memory. However transactions overlap, those that are committed might as
well have run one after the other, in the order of their commits, each on what the one before has
left: every one of them would have learned the same and would have published the same. -/
namespace TransactionalMemory.Memory
variable {C : Type}

/-- What comes of a transaction that is committed: all that its body has learned, and how many
items it takes from queues. -/
structure Outcome where
  trace : Trace Question Answer
  polls : Nat

/-- Publishes what a body has left, if it asks for that. -/
def conclude (seed : Identity) (trace : Trace Question Answer) (working : Snapshot Entity)
    (latest : Memory) : Option (Outcome × Memory) :=
  match trace.ending, latest.publish seed working with
  | .ok true, .ok (_, next) => some (⟨trace, (Entity.snapshot working).polls⟩, next)
  | _, _ => none

/-- Runs a body in a scope on a clean copy of the snapshot that it starts from, and publishes the
result against the latest one. The slots that are alive elsewhere are known by the seed of each
step. -/
def transact (alive : Identity → List (Slot Entity))
    (attempt : Attempt Memory (Body Question Answer C)) (latest : Memory) :
    Option (Outcome × Memory) :=
  let opened := .start (attempt.start.committed.copy (attempt.seed.child 0) .clean)
  let ran := Scope.run alive attempt.work (attempt.seed.child 1) opened
  conclude (attempt.seed.child 2) ran.1 ran.2.base latest

/-- Runs transactions one after the other, each on what the one before has left. -/
def serially (alive : Identity → List (Slot Entity)) :
    List (Attempt Memory (Body Question Answer C)) → Memory → Option (List Outcome × Memory)
  | [], memory => some ([], memory)
  | attempt :: attempts, memory => do
    let (outcome, next) ← transact alive {attempt with start := memory} memory
    let (outcomes, last) ← serially alive attempts next
    return (outcome :: outcomes, last)

private theorem serially_concat {alive : Identity → List (Slot Entity)}
    {attempts : List (Attempt Memory (Body Question Answer C))} {memory latest next : Memory}
    {outcomes : List Outcome} {attempt : Attempt Memory (Body Question Answer C)}
    {outcome : Outcome} (before : serially alive attempts memory = some (outcomes, latest))
    (last : transact alive {attempt with start := latest} latest = some (outcome, next)) :
    serially alive (attempts ++ [attempt]) memory = some (outcomes ++ [outcome], next) := by
  induction attempts generalizing memory outcomes with
  | nil =>
    cases before
    rw [List.nil_append, serially, last]
    rfl
  | cons first rest ih =>
    rw [List.cons_append, serially]
    unfold serially at before
    obtain ⟨⟨outcome', next'⟩, ran, before⟩ := Option.bind_eq_some_iff.mp before
    obtain ⟨⟨outcomes', last'⟩, later, result⟩ := Option.bind_eq_some_iff.mp before
    cases result
    have continued := ih later
    simp only [ran, Option.bind_eq_bind, Option.bind_some, continued]
    rfl

private theorem conclude_ok {seed : Identity} {trace : Trace Question Answer}
    {working : Snapshot Entity} {latest next : Memory} {outcome : Outcome} :
    conclude seed trace working latest = some (outcome, next) ↔
      trace.ending = .ok true ∧ outcome = ⟨trace, (Entity.snapshot working).polls⟩ ∧
        ∃ published, latest.publish seed working = .ok (published, next) := by
  unfold conclude
  constructor
  · intro accepted
    split at accepted
    · next ending published =>
      cases accepted
      exact ⟨ending, rfl, _, published⟩
    · cases accepted
  · rintro ⟨ending, rfl, published, accepted⟩
    rw [ending, accepted]

private theorem transact_eq (attempt : Attempt Memory (Body Question Answer C))
    (untouched : Entity.Untouched (.snapshot attempt.start.committed)) :
    ∃ trace working, attempt.work.run Entity.protocol (attempt.seed.child 1)
        ((Entity.snapshot attempt.start.committed).copy (attempt.seed.child 0) .clean) =
          (trace, .snapshot working) ∧
      ∀ alive latest, transact alive attempt latest =
        conclude (attempt.seed.child 2) trace working latest := by
  have copy := Entity.Untouched.copyOf .free untouched (attempt.seed.child 0) .clean
  rw [Entity.copy_snapshot] at copy ⊢
  let opened : Scope C := .start (attempt.start.committed.copy (attempt.seed.child 0) .clean)
  obtain ⟨trace, working, _, ran, _⟩ :=
    Scope.run_eq untouched (fun _ => []) attempt.work (attempt.seed.child 1) opened copy
  refine ⟨trace, working, ran, fun alive latest => ?_⟩
  obtain ⟨_, _, _, ran', same⟩ :=
    Scope.run_eq untouched alive attempt.work (attempt.seed.child 1) opened copy
  cases ran.symm.trans ran'
  simp only [transact, opened] at same ⊢
  rw [same]
  rfl

/-- What a lawful body leaves is a working copy that holds what the heap has. -/
theorem copy_of_run {attempt : Attempt Memory (Body Question Answer C)} {heap : Identity → Value}
    {trace : Trace Question Answer} {working : Snapshot Entity}
    (untouched : Entity.Untouched (.snapshot attempt.start.committed))
    (lawful : trace.All fun question answer =>
      question.query.Marked (.ofHeap heap attempt.seed.origin) ∧ question.Protected answer)
    (ran : attempt.work.run Entity.protocol (attempt.seed.child 1)
      ((Entity.snapshot attempt.start.committed).copy (attempt.seed.child 0) .clean) =
        (trace, .snapshot working)) :
    Entity.CopyOf (.ofHeap heap attempt.seed.origin) (.snapshot attempt.start.committed)
      (.snapshot working) := by
  have opened := Entity.Untouched.copyOf (.ofHeap heap attempt.seed.origin) untouched
    (attempt.seed.child 0) .clean
  have named : (Guard.ofHeap heap attempt.seed.origin).seed (attempt.seed.child 1) := rfl
  have kept := (Entity.keeps_copy untouched fun _ _ => And.left).run attempt.work named opened
    (by rw [ran]; exact lawful)
  rw [ran] at kept
  exact kept.1

/-- A commit has checked enough for the transaction to have had the latest memory for its start. -/
theorem transact_latest {attempt : Attempt Memory (Body Question Answer C)}
    {latest next : Memory} {outcome : Outcome} {heap : Identity → Value} {total : Nat}
    {alive : Identity → List (Slot Entity)} (alive' : Identity → List (Slot Entity))
    (untouched : Entity.Untouched (.snapshot attempt.start.committed))
    (untouched' : Entity.Untouched (.snapshot latest.committed))
    (layout : Entity.SameLayout (.snapshot attempt.start.committed) (.snapshot latest.committed))
    (later : Entity.Later total (.snapshot attempt.start.committed) (.snapshot latest.committed))
    (few : total < 2 ^ 64)
    (lawful : outcome.trace.All fun question answer =>
      question.query.Marked (.ofHeap heap attempt.seed.origin) ∧ question.Protected answer)
    (published : transact alive attempt latest = some (outcome, next)) :
    transact alive' {attempt with start := latest} latest = some (outcome, next) := by
  obtain ⟨trace, working, ran, same⟩ := transact_eq attempt untouched
  rw [same] at published
  obtain ⟨ending, rfl, snapshot, accepted⟩ := conclude_ok.mp published
  obtain ⟨commits, rfl⟩ := publish_ok.mp accepted
  let guard := Guard.ofHeap heap attempt.seed.origin
  have named : guard.seed (attempt.seed.child 1) := rfl
  have opened := Entity.Untouched.copyOf guard untouched (attempt.seed.child 0) .clean
  have opened' := Entity.Untouched.copyOf guard untouched' (attempt.seed.child 0) .clean
  have mirrors := Entity.mirrors_copy guard layout untouched untouched'
  have allowed : trace.All (Entity.Allowed guard (.snapshot attempt.start.committed)
      (.snapshot latest.committed)) :=
    lawful.imp fun _ _ permitted => ⟨permitted.1, .inr ⟨id, permitted.2⟩⟩
  have kept := copy_of_run untouched lawful ran
  have fits := Entity.Later.fits later few kept (Entity.commit_snapshot_ok.mpr commits)
  obtain ⟨learned, alike⟩ := mirrors.run attempt.work named opened opened'
    (Entity.SameLayout.alike_fresh layout untouched untouched' _ _ _ _) (by rw [ran]; exact allowed)
    (by rw [ran]; exact .inr fits)
  obtain ⟨trace', working', ran', same'⟩ :=
    transact_eq {attempt with start := latest} untouched'
  have kept' := (mirrors.keeps'.run attempt.work named opened'
    (by rw [learned, ran]; exact allowed)).1
  rw [ran'] at kept'
  rw [ran, ran'] at learned alike
  obtain rfl : trace' = trace := learned
  have commits' := Entity.commit_alike (Entity.commit_snapshot_ok.mpr commits) kept' alike
  have polls := Entity.polls_alike alike
  rw [same']
  refine conclude_ok.mpr ⟨ending, by rw [polls], snapshot, publish_ok.mpr ⟨?_, rfl⟩⟩
  exact Entity.commit_snapshot_ok.mp commits'

variable {committed : List (Attempt Memory (Body Question Answer C) × Outcome)}

def pollsIn (committed : List (Attempt Memory (Body Question Answer C) × Outcome)) : Nat :=
  (committed.map fun commit => commit.2.polls).sum

/-- A transaction that stores each object under the identity that the heap has for it, and has
learned nothing but what the collections protect. -/
def Lawful (heap : Identity → Value) (commit : Attempt Memory (Body Question Answer C) × Outcome) :
    Prop :=
  commit.2.trace.All fun question answer =>
    question.query.Marked (.ofHeap heap commit.1.seed.origin) ∧ question.Protected answer

/-- Where the identities of objects that were made so far come from. -/
def Spent (supply : Supply) (committed : List (Attempt Memory (Body Question Answer C) × Outcome))
    (origin : Nat) : Prop :=
  origin < supply.next ∨ ∃ commit ∈ committed, commit.1.seed.origin = origin

/-- The invariant of a history, as long as commits are lawful and the counters of polls have not
gone round. -/
structure Serial (alive : Identity → List (Slot Entity)) (heap : Identity → Value)
    (supply : Supply) (initial latest : Memory) (earlier : List Memory)
    (committed : List (Attempt Memory (Body Question Answer C) × Outcome)) : Prop where
  replayed : serially alive (committed.map Prod.fst) initial =
    some (committed.map Prod.snd, latest)
  untouched : ∀ state ∈ latest :: earlier, Entity.Untouched (.snapshot state.committed)
  layout : ∀ state ∈ latest :: earlier,
    Entity.SameLayout (.snapshot state.committed) (.snapshot latest.committed)
  known : ∀ state ∈ latest :: earlier,
    Entity.Known heap (Spent supply committed) (.snapshot state.committed)
  later : ∀ state ∈ latest :: earlier,
    Entity.Later (pollsIn committed) (.snapshot state.committed) (.snapshot latest.committed)

theorem Serial.commit {alive alive' : Identity → List (Slot Entity)} {heap : Identity → Value}
    {supply : Supply} {initial latest next : Memory} {earlier : List Memory}
    {attempt : Attempt Memory (Body Question Answer C)} {outcome : Outcome}
    (serial : Serial alive' heap supply initial latest earlier committed)
    (few : pollsIn committed < 2 ^ 64) (started : attempt.start ∈ latest :: earlier)
    (unused : History.Unused supply committed attempt.seed)
    (lawful : Lawful heap (attempt, outcome))
    (published : transact alive attempt latest = some (outcome, next)) :
    Serial alive' heap supply initial next (latest :: earlier)
      (committed ++ [(attempt, outcome)]) := by
  obtain ⟨replayed, untouched, layout, known, later⟩ := serial
  have quiet := untouched _ started
  have quiet' := untouched _ List.mem_cons_self
  -- Nothing that the commit has seen had changed, so the replay can take it over as it is.
  have again := transact_latest alive' quiet quiet' (layout _ started) (later _ started) few lawful
    published
  obtain ⟨trace, working, ran, same⟩ := transact_eq attempt quiet
  rw [same] at published
  obtain ⟨ending, rfl, snapshot, accepted⟩ := conclude_ok.mp published
  obtain ⟨commits, rfl⟩ := publish_ok.mp accepted
  have accepted := Entity.commit_snapshot_ok.mpr commits
  have kept := copy_of_run quiet lawful ran
  have named : (Guard.ofHeap heap attempt.seed.origin).seed (attempt.seed.child 2) := rfl
  have older (origin : Nat) (spent : Spent supply committed origin) :
      Spent supply (committed ++ [(attempt, ⟨trace, (Entity.snapshot working).polls⟩)]) origin := by
    apply spent.imp_right
    rintro ⟨commit, member, same⟩
    exact ⟨commit, List.mem_append_left _ member, same⟩
  have made : Spent supply (committed ++ [(attempt, ⟨trace, (Entity.snapshot working).polls⟩)])
      attempt.seed.origin := .inr ⟨_, List.mem_append_right _ List.mem_cons_self, rfl⟩
  -- What this transaction has made is new to all that was committed before.
  have apart : ¬Spent supply committed attempt.seed.origin := by
    rintro (early | ⟨commit, member, spent⟩)
    · exact absurd unused.1 (Nat.not_le_of_lt early)
    · exact unused.2 commit member spent
  have polls : pollsIn (committed ++ [(attempt, ⟨trace, (Entity.snapshot working).polls⟩)]) =
      pollsIn committed + (Entity.snapshot working).polls := by simp [pollsIn]
  constructor
  · rw [List.map_append, List.map_append]
    exact serially_concat replayed again
  · rintro state (_ | ⟨_, old⟩)
    · exact Entity.commit_untouched accepted quiet'
    · exact untouched state old
  · rintro state (_ | ⟨_, old⟩)
    · exact .refl _
    · exact Entity.commit_layout kept named accepted (layout state old)
  · rintro state (_ | ⟨_, old⟩)
    · exact Entity.commit_every (Entity.advances_known older made _) kept (Nat.le_refl _) named
        accepted (known _ List.mem_cons_self)
    · exact Entity.Known.imp (known state old) older
  · rw [polls]
    rintro state (_ | ⟨_, old⟩)
    · exact Entity.Later.mono (Entity.Later.refl _) (Nat.zero_le _)
    · exact Entity.commit_relates (Entity.advances_later apart _ _) kept (Nat.le_refl _) named
        accepted (Entity.later_under (known state old) (later state old))

/-- Whatever transactions overlap on a memory: run one after the other in the order of their
commits, the committed ones learn the same and leave the same memory. All that is asked for is that
an identity stands for one object, that bodies keep to what the collections protect, and that the
counters of polls do not go round. -/
theorem committed_serially (initial : Memory) (heap : Identity → Value) (supply : Supply)
    (alive alive' : Identity → List (Slot Entity)) (events : List (Event (Body Question Answer C)))
    (untouched : Entity.Untouched (.snapshot initial.committed))
    (known : Entity.Known heap (· < supply.next) (.snapshot initial.committed))
    (lawful : ∀ commit ∈ (History.run (transact alive) initial supply events).committed,
      Lawful heap commit)
    (few : pollsIn (History.run (transact alive) initial supply events).committed < 2 ^ 64) :
    let history := History.run (transact alive) initial supply events
    serially alive' (history.committed.map Prod.fst) initial =
      some (history.committed.map Prod.snd, history.latest) := by
  have serial := History.run_induction (transact alive) initial supply
    (fun latest earlier committed => (∀ commit ∈ committed, Lawful heap commit) →
      pollsIn committed < 2 ^ 64 → Serial alive' heap supply initial latest earlier committed)
    ?first ?commit events lawful few
  case first =>
    intro _ _
    refine ⟨rfl, ?_, ?_, ?_, ?_⟩ <;> refine List.forall_mem_singleton.mpr ?_
    · exact untouched
    · exact .refl _
    · exact Entity.Known.imp known fun _ => .inl
    · exact Entity.Later.refl _
  case commit =>
    intro latest earlier committed attempt outcome next before started unused published lawful few
    obtain ⟨lawful, last⟩ := List.forall_mem_append.mp lawful
    have fewer : pollsIn committed < 2 ^ 64 := by
      apply Nat.lt_of_le_of_lt _ few
      simp [pollsIn]
    exact (before lawful fewer).commit fewer started unused (last _ List.mem_cons_self) published
  exact serial.replayed

def bench : Memory :=
  .create ⟨1, []⟩ .standard (.bundle
    [⟨⟨0, [0]⟩, false, .cell (.ofObject ⟨⟨0, [1]⟩, .null⟩)⟩,
      ⟨⟨0, [2]⟩, false, .queue (.ofItems ⟨0, [3]⟩ [.number 1, .number 2])⟩] .take)

def benchHeap (identity : Identity) : Value :=
  if identity.origin = 0 then .null else .number 1

def drawn : Question :=
  ⟨[.data, .slot 1 (some .queue)], .request (.queue .poll)⟩

def stored (value : Value) : Question :=
  ⟨[.data, .slot 0 none], .request (.cell (.assoc ⟨⟨2, []⟩, value⟩))⟩

def offered : Question :=
  ⟨[.data, .slot 1 none], .request (.queue (.offer (.number 3)))⟩

/-- Moves the first item to the cell, after a nested transaction that has polled in vain. -/
def drawing : Body Question Answer Unit :=
  .nest () (.ask drawn fun _ => .finish (.ok false)) fun _ _ => .ask drawn fun answer =>
    match answer with
    | some (.ok (.reply (.queue (.item (some value))))) =>
      .ask (stored value) fun _ => .finish (.ok true)
    | _ => .finish (.ok false)

def offering : Body Question Answer Unit :=
  .ask offered fun _ => .finish (.ok true)

/-- Two drawings and an offer that all begin on the same snapshot; the second drawing is refused. -/
def crowded : List (Event (Body Question Answer Unit)) :=
  [.begin 0 drawing, .begin 0 offering, .begin 0 drawing, .finish 0, .finish 0, .finish 0]

private theorem untouched_bench : Entity.Untouched (.snapshot bench.committed) := by
  refine untouched_create ?_ ⟨1, []⟩ .standard
  apply Entity.every_bundle.mpr
  simp only [List.forall_mem_cons]
  exact ⟨⟨rfl, rfl⟩, ⟨rfl, rfl⟩, nofun⟩

private theorem known_bench : Entity.Known benchHeap (· < 3) (.snapshot bench.committed) := by
  have queue : 0 < 3 := by decide
  have globals : 1 < 3 := by decide
  exact Entity.every_snapshot.mpr ⟨⟨trivial, rfl, trivial, queue, trivial⟩, globals, nofun⟩

private theorem lawful_crowded :
    ∀ commit ∈ (History.run (transact fun _ => []) bench ⟨3⟩ crowded).committed,
      Lawful benchHeap commit := by
  have shape : (History.run (transact fun _ => []) bench ⟨3⟩ crowded).committed.map
      (fun commit => (commit.1.seed.origin, commit.2.trace)) =
    [(3, .nested (.asked drawn (some (.ok (.reply (.queue (.item (some (.number 1)))))))
        (.finished (.ok false))) (.ok false)
      (.asked drawn (some (.ok (.reply (.queue (.item (some (.number 1)))))))
        (.asked (stored (.number 1)) (some (.ok (.reply (.object ⟨⟨0, [1]⟩, .null⟩))))
          (.finished (.ok true))))),
      (4, .asked offered (some (.ok (.reply (.queue .done)))) (.finished (.ok true)))] := rfl
  have lawful : ∀ told ∈ (History.run (transact fun _ => []) bench ⟨3⟩ crowded).committed.map
      (fun commit => (commit.1.seed.origin, commit.2.trace)),
    told.2.All fun question answer =>
      question.query.Marked (.ofHeap benchHeap told.1) ∧ question.Protected answer := by
    have heap : (Value.number 1) = benchHeap ⟨2, []⟩ := rfl
    have sure {question : Question} {finding : Finding}
        (known : question.query.Protected finding) : question.Protected (some (.ok finding)) := by
      rintro _ ⟨⟩
      exact known
    rw [shape]
    simp only [List.forall_mem_cons]
    refine ⟨⟨⟨⟨trivial, sure trivial⟩, trivial⟩, ⟨trivial, sure trivial⟩, ⟨heap, sure trivial⟩,
      trivial⟩, ⟨⟨trivial, sure trivial⟩, trivial⟩, nofun⟩
  exact fun commit member => lawful _ (List.mem_map_of_mem member)

theorem committed_serially_crowded :
    let history := History.run (transact fun _ => []) bench ⟨3⟩ crowded
    history.committed.length = 2 ∧
      serially (fun _ => []) (history.committed.map Prod.fst) bench =
        some (history.committed.map Prod.snd, history.latest) := by
  refine ⟨rfl, ?_⟩
  have polls : pollsIn (History.run (transact fun _ => []) bench ⟨3⟩ crowded).committed = 1 := rfl
  have few : pollsIn (History.run (transact fun _ => []) bench ⟨3⟩ crowded).committed < 2 ^ 64 := by
    rw [polls]
    decide
  exact committed_serially bench benchHeap ⟨3⟩ (fun _ => []) (fun _ => []) crowded untouched_bench
    known_bench lawful_crowded few

end TransactionalMemory.Memory
