import TransactionalMemory.GlobalHandle
import TransactionalMemory.Proofs.Errands
import TransactionalMemory.TableView

/-! Which snapshot a memory lets client code work on. A scope is only good for the memory that has
opened it. Snapshots do not say where they come from: a body may show any of them, and a callback
any that bears the timestamp of its commit, from whatever memory. -/
namespace TransactionalMemory
namespace Memories
variable {C : Type} {memories : Memories C} {memory thread : Nat} {phase : Phase} {scope : Scope C}
  {context : Context} {failure : Failure}

/-- The client code of a thread is running: no call of it that is under way can move by itself. -/
def Attending (memories : Memories C) (thread : Nat) : Prop :=
  ∀ errand ∈ memories.errands, errand.call.thread = thread → errand.call.stage.steps = 0

def RunsBody (memories : Memories C) (memory thread : Nat) (scope : Scope C) : Prop :=
  ∃ errand ∈ memories.errands, errand.place = (memory, thread) ∧
    ∃ attempt, errand.call.stage = .working attempt scope

def Reports (memories : Memories C) (memory thread : Nat) (commit : Commit) : Prop :=
  ∃ errand ∈ memories.errands, errand.place = (memory, thread) ∧
    ∃ copy callback callbacks, errand.call.stage = .handling commit copy callback callbacks

/-- What client code of a thread is run for by a memory. -/
inductive Engaged (memories : Memories C) (memory thread : Nat) : Phase → Prop where
  | body {scope : Scope C} (runs : memories.RunsBody memory thread scope) :
      Engaged memories memory thread .running
  | report {commit : Commit} (reports : memories.Reports memory thread commit) :
      Engaged memories memory thread (.reporting commit.published.timestamp)

/-- The contexts that client code of a thread can have: a scope stays on the thread of its body,
and a snapshot may come from anywhere. -/
inductive Shown (memories : Memories C) (thread : Nat) : Context → Prop where
  | scope {owner : Nat} {scope : Scope C} (runs : memories.RunsBody owner thread scope) :
      Shown memories thread (.scope owner scope.top)
  | snapshot (shown : Snapshot Entity) : Shown memories thread (.snapshot shown)

inductive Admits (memories : Memories C) (memory thread : Nat) : Context → Prop where
  | scope {scope : Scope C} (runs : memories.RunsBody memory thread scope) :
      Admits memories memory thread (.scope memory scope.top)
  | withinBody (engaged : memories.Engaged memory thread .running) (shown : Snapshot Entity) :
      Admits memories memory thread (.snapshot shown)
  | withinReport {shown : Snapshot Entity}
      (engaged : memories.Engaged memory thread (.reporting shown.timestamp)) :
      Admits memories memory thread (.snapshot shown)

inductive Refuses (memories : Memories C) (memory thread : Nat) : Context → Failure → Prop where
  | outside (context : Context) (idle : ∀ phase, ¬memories.Engaged memory thread phase) :
      Refuses memories memory thread context (.noTransaction .outsideTransaction)
  | foreignScope {owner : Nat} {phase : Phase} (engaged : memories.Engaged memory thread phase)
      (foreign : owner ≠ memory) (top : Snapshot Entity) :
      Refuses memories memory thread (.scope owner top) (.breach .foreignScope)
  | foreignCommit {timestamp : Nat} {shown : Snapshot Entity}
      (engaged : memories.Engaged memory thread (.reporting timestamp))
      (other : shown.timestamp ≠ timestamp) :
      Refuses memories memory thread (.snapshot shown) (.breach .foreignCommit)

theorem Noted.phase_of_engaged (noted : memories.Noted)
    (engaged : memories.Engaged memory thread phase) :
    (memories.memory memory).phases[thread]? = some phase := by
  cases engaged with
  | body runs =>
    obtain ⟨errand, member, place, attempt, working⟩ := runs
    have fits := noted.fits errand member
    rwa [working, place] at fits
  | report reports =>
    obtain ⟨errand, member, place, copy, callback, callbacks, handling⟩ := reports
    have fits := noted.fits errand member
    rwa [handling, place] at fits

theorem Noted.engaged_of_phase (noted : memories.Noted) (attending : memories.Attending thread)
    (standing : (memories.memory memory).phases[thread]? = some phase) :
    memories.Engaged memory thread phase := by
  have left : memories.phase (memory, thread) ≠ none := by simp [Memories.phase, standing]
  obtain ⟨errand, member, inside, place⟩ := noted.known (memory, thread) left
  have paused := attending errand member (congrArg Prod.snd place)
  have fits := noted.fits errand member
  rw [place, Memories.phase, standing] at fits
  -- Only a body and a callback leave the engine nothing to do before the call is over.
  cases stage : errand.call.stage with
  | working attempt scope =>
    rw [stage] at fits
    obtain rfl := Option.some.inj fits
    exact .body ⟨errand, member, place, attempt, stage⟩
  | handling commit copy callback callbacks =>
    rw [stage] at fits
    obtain rfl := Option.some.inj fits
    exact .report ⟨errand, member, place, copy, callback, callbacks, stage⟩
  | left result =>
    rw [stage] at inside
    cases inside
  | _ =>
    rw [stage] at paused
    cases paused

private theorem Noted.resolve_admitted (noted : memories.Noted)
    (admits : memories.Admits memory thread context) :
    (memories.memory memory).resolve memory thread context = .ok context.top := by
  unfold Memory.resolve
  cases admits with
  | scope runs =>
    have standing := noted.phase_of_engaged (.body runs)
    simp [standing, Context.belongsTo]
  | withinBody engaged shown =>
    have standing := noted.phase_of_engaged engaged
    simp [standing, Context.belongsTo]
  | withinReport engaged =>
    have standing := noted.phase_of_engaged engaged
    simp [standing, Context.belongsTo, Context.top]

private theorem Noted.resolve_refused (noted : memories.Noted)
    (attending : memories.Attending thread)
    (refuses : memories.Refuses memory thread context failure) :
    (memories.memory memory).resolve memory thread context = .error failure := by
  unfold Memory.resolve
  cases refuses with
  | outside context idle =>
    cases standing : (memories.memory memory).phases[thread]? with
    | none => rfl
    | some phase => exact absurd (noted.engaged_of_phase attending standing) (idle phase)
  | foreignScope engaged foreign top =>
    have standing := noted.phase_of_engaged engaged
    simp [standing, Context.belongsTo, foreign]
  | foreignCommit engaged other =>
    have standing := noted.phase_of_engaged engaged
    simp [standing, Context.belongsTo, Context.top, other]

/-- There is no third case: while a callback of a memory runs on a thread, the thread has no scope
of that memory to show. -/
theorem Noted.admits_or_refuses (noted : memories.Noted) (attending : memories.Attending thread)
    (shown : memories.Shown thread context) (memory : Nat) :
    memories.Admits memory thread context ∨
      ∃ failure, memories.Refuses memory thread context failure := by
  cases standing : (memories.memory memory).phases[thread]? with
  | none =>
    refine .inr ⟨_, .outside context fun phase engaged => ?_⟩
    rw [noted.phase_of_engaged engaged] at standing
    cases standing
  | some phase =>
    have engaged := noted.engaged_of_phase attending standing
    cases shown with
    | @scope owner scope runs =>
      by_cases own : owner = memory
      · subst own
        exact .inl (.scope runs)
      · exact .inr ⟨_, .foreignScope engaged own _⟩
    | snapshot shown =>
      cases phase with
      | running => exact .inl (.withinBody engaged shown)
      | reporting timestamp =>
        by_cases same : shown.timestamp = timestamp
        · subst same
          exact .inl (.withinReport engaged)
        · exact .inr ⟨_, .foreignCommit engaged same⟩

/-- Whatever the threads have done, a memory answers client code that shows it a context as `Admits`
and `Refuses` say: with the innermost snapshot of the context, on which alone it lets the client
work, or with a failure that leaves the context alone. -/
theorem context_admitted_iff (seed : Nat → Identity) (policy : Nat → RetryPolicy)
    (initial : Nat → Entity) (supply : Supply) (moves : List (Move C)) (thread : Nat)
    (context : Context) :
    let memories :=
      run (fun index => .create (seed index) (policy index) (initial index)) supply moves
    memories.Attending thread → memories.Shown thread context → ∀ memory,
      (∀ found, (memories.memory memory).resolve memory thread context = .ok found ↔
        memories.Admits memory thread context ∧ found = context.top) ∧
      (∀ failure, (memories.memory memory).resolve memory thread context = .error failure ↔
        memories.Refuses memory thread context failure) ∧
      ∀ (α : Type) (act : Snapshot Entity → Except Failure α × Snapshot Entity),
        (memories.Admits memory thread context →
          (memories.memory memory).within memory thread context act =
            (act context.top).map id context.withTop) ∧
        ∀ failure, memories.Refuses memory thread context failure →
          (memories.memory memory).within memory thread context act =
            (.error failure, context) := by
  intro memories attending shown memory
  have noted : memories.Noted := noted_run (fun _ => rfl) supply moves
  have accepted (admits : memories.Admits memory thread context) := noted.resolve_admitted admits
  have refused failure (refuses : memories.Refuses memory thread context failure) :=
    noted.resolve_refused attending refuses
  have decided := noted.admits_or_refuses attending shown memory
  refine ⟨fun found => ⟨fun answer => ?_, ?_⟩, fun failure => ⟨fun answer => ?_, refused failure⟩,
    fun α act => ⟨fun admits => ?_, fun failure refuses => ?_⟩⟩
  · rcases decided with admits | ⟨failure, refuses⟩
    · rw [accepted admits] at answer
      exact ⟨admits, (Except.ok.inj answer).symm⟩
    · rw [refused failure refuses] at answer
      cases answer
  · rintro ⟨admits, rfl⟩
    exact accepted admits
  · rcases decided with admits | ⟨failure, refuses⟩
    · rw [accepted admits] at answer
      cases answer
    · rw [refused failure refuses] at answer
      cases answer
      exact refuses
  · rw [Memory.within, accepted admits]
  · rw [Memory.within, refused failure refuses]

/-- Memories of a cell each, which holds the number of the memory. -/
def numbered (index : Nat) : Memory :=
  .create ⟨index, []⟩ .standard (.cell (.ofObject ⟨⟨index, [7]⟩, .number index⟩))

/-- A body of the first memory that has done nothing yet. -/
def outerBody : Scope Unit :=
  .start ((numbered 0).committed.copy ⟨2, []⟩ .clean)

/-- A body of the second memory that has hosted a value there. -/
def innerBody : Scope Unit :=
  .start (GlobalHandle.host 0 ⟨⟨6, []⟩, .number 7⟩
    ((numbered 1).committed.copy ⟨5, []⟩ .clean)).2

/-- In a body of the first memory a transaction of the second one has got to its callback. -/
def visit : List (Move Unit) :=
  .call 0 0 () :: .replicate 3 (.act 0 .advance) ++
    .call 1 0 () :: .replicate 3 (.act 1 .advance) ++
      .act 1 (.work innerBody) :: .act 1 (.endBody (.ok true)) :: .replicate 4 (.act 1 .advance)

def handedOut : Snapshot Entity :=
  ⟨1, (numbered 1).committed.data, .ofObject ⟨⟨8, [1]⟩, innerBody.base.globals.entries⟩⟩

private theorem errands_visit : (run numbered ⟨0⟩ visit).errands =
    [⟨0, 0, (), .working 0 outerBody⟩,
      ⟨1, 0, (), .handling ⟨innerBody.base, handedOut⟩ handedOut () []⟩] :=
  rfl

private theorem lookup_handedOut : handedOut.globals.lookup 0 = some ⟨⟨6, []⟩, .number 7⟩ := by
  have published : handedOut.globals.lookup 0 = innerBody.base.globals.entries[0]? := by
    simp [handedOut, Table.ofObject, Table.lookup]
  rw [published, Table.getElem?_entries]
  exact Table.lookup_put_self _ _ _

theorem context_admitted_iff_visit :
    let memories := run numbered ⟨0⟩ visit
    let context : Context := .scope 0 outerBody.top
    let handle : GlobalHandle := ⟨1, 0, .number⟩
    memories.Attending 0 ∧ memories.Shown 0 context ∧
      memories.Refuses 1 0 context (.breach .foreignScope) ∧
      (memories.memory 1).within 1 0 context handle.get =
        (.error (.breach .foreignScope), context) := by
  intro memories context handle
  have attending : memories.Attending 0 := by
    simp [memories, Attending, errands_visit, Stage.steps]
  have shown : memories.Shown 0 context := by
    refine .scope ⟨⟨0, 0, (), .working 0 outerBody⟩, ?_, rfl, 0, rfl⟩
    simp [memories, errands_visit]
  have reports : memories.Reports 1 0 ⟨innerBody.base, handedOut⟩ := by
    refine ⟨⟨1, 0, (), .handling ⟨innerBody.base, handedOut⟩ handedOut () []⟩, ?_, rfl, handedOut,
      (), [], rfl⟩
    simp [memories, errands_visit]
  have refuses : memories.Refuses 1 0 context (.breach .foreignScope) :=
    .foreignScope (.report reports) Nat.zero_ne_one _
  have answers := context_admitted_iff (fun index => ⟨index, []⟩) (fun _ => .standard)
    (fun index => .cell (.ofObject ⟨⟨index, [7]⟩, .number index⟩)) ⟨0⟩ visit 0 context attending
    shown 1
  exact ⟨attending, shown, refuses, (answers.2.2 _ handle.get).2 _ refuses⟩

/-- While a body of the first memory runs, that memory takes the snapshot that the second one has
handed out, so that a handle of the first reads what only the second hosts. -/
theorem foreign_snapshot_admitted :
    let memories := run numbered ⟨0⟩ visit
    let handle : GlobalHandle := ⟨0, 0, .number⟩
    memories.errands =
        [⟨0, 0, (), .working 0 outerBody⟩,
          ⟨1, 0, (), .handling ⟨innerBody.base, handedOut⟩ handedOut () []⟩] ∧
      (memories.memory 0).resolve 0 0 (.snapshot handedOut) = .ok handedOut ∧
      ((memories.memory 0).within 0 0 (.snapshot handedOut) handle.get).1 =
        .ok (some (.number 7)) ∧
      ((memories.memory 0).within 0 0 (.scope 0 outerBody.top) handle.get).1 = .ok none := by
  intro memories handle
  refine ⟨errands_visit, rfl, ?_, rfl⟩
  have answer : ((memories.memory 0).within 0 0 (.snapshot handedOut) handle.get).1 =
      handle.cast (handedOut.globals.lookup 0) :=
    rfl
  rw [answer, lookup_handedOut]
  rfl

end Memories
end TransactionalMemory
