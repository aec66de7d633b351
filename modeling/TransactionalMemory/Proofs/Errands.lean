import Mathlib.Data.List.Induction
import Mathlib.Data.List.Nodup
import Mathlib.Logic.Function.Basic
import TransactionalMemory.Proofs.Threads

/-! Threads that deal with several memories. A memory notes what a thread does inside of it. Of all
steps of a call only three change the note of its thread, and no step changes that of another one,
so that the notes always fit the stages of the calls. -/
namespace TransactionalMemory
variable {C : Type}

/-- A call that is made to one of several memories. -/
structure Errand (C : Type) where
  memory : Nat
  call : Call C

namespace Errand

/-- The memory and the thread, which together say where a note is kept. -/
def place (errand : Errand C) : Nat × Nat :=
  (errand.memory, errand.call.thread)

def withStage (stage : Stage C) (errand : Errand C) : Errand C :=
  ⟨errand.memory, {errand.call with stage}⟩

end Errand

structure Memories (C : Type) where
  memory : Nat → Memory
  supply : Supply
  errands : List (Errand C)

namespace Memories

inductive Move (C : Type) where
  | call (memory thread : Nat) (own : C)
  | act (index : Nat) (act : Act C)

/-- Calls of one thread may lie within each other in any way. A step does not ask whether another
call of the thread is under way, so that the runs in which an outer call waits for the inner ones
are among these. -/
def step (memories : Memories C) : Move C → Memories C
  | .call memory thread own =>
    {memories with errands := memories.errands ++ [⟨memory, thread, own, .called⟩]}
  | .act index act =>
    match memories.errands[index]? with
    | none => memories
    | some errand =>
      let (seed, supply) := memories.supply.mint
      let (after, stage) := errand.call.act seed (memories.memory errand.memory) act
      ⟨Function.update memories.memory errand.memory after, supply,
        memories.errands.set index (errand.withStage stage)⟩

def run (initial : Nat → Memory) (supply : Supply) (moves : List (Move C)) : Memories C :=
  moves.foldl step ⟨initial, supply, []⟩

/-- What a memory has noted of a thread. -/
def phase (memories : Memories C) (place : Nat × Nat) : Option Phase :=
  (memories.memory place.1).phases[place.2]?

end Memories

namespace Stage
variable {before stage : Stage C} {noted renoted : Option Phase}

/-- Between being admitted to the memory and leaving it. -/
def inside : Stage C → Bool
  | .called | .left _ => false
  | _ => true

/-- A note that fits the stage. The last steps of a call come after a body as well as after a
report. -/
def Fits (noted : Option Phase) : Stage C → Prop
  | .called | .left _ => True
  | .reporting commit _ | .handling commit _ _ _ | .releasing commit _ =>
    noted = some (.reporting commit.published.timestamp)
  | .closing _ | .leaving _ => noted ≠ none
  | _ => noted = some .running

private theorem fits_outside (outside : stage.inside = false) : stage.Fits noted := by
  cases stage with
  | called => trivial
  | left result => trivial
  | _ => cases outside

private theorem Fits.noted_inside (fits : stage.Fits noted) (inside : stage.inside = true) :
    noted ≠ none := by
  cases stage <;> simp_all [Fits, Stage.inside]

/-- Everything that one move can do to the stage of a call and to the note of its thread. -/
inductive Shift : (before : Stage C) → (noted : Option Phase) → (stage : Stage C) →
    (renoted : Option Phase) → Prop where
  | enter : Shift .called none .entered (some .running)
  | refuse (phase : Phase) (cause : Misuse) :
      Shift .called (some phase) (.left (.error (.misuse cause))) (some phase)
  | turn (commit : Commit) (callbacks : List C) (noted : Option Phase) :
      Shift (.waiting commit callbacks) noted (.reporting commit callbacks)
        (some (.reporting commit.published.timestamp))
  | leave (result : Ending) (noted : Option Phase) :
      Shift (.leaving result) noted (.left result) none
  | stay {before stage : Stage C} (noted : Option Phase) (same : stage.inside = before.inside)
      (kept : before.Fits noted → stage.Fits noted) : Shift before noted stage noted

private theorem Shift.fits (shift : Shift before noted stage renoted) (fits : before.Fits noted) :
    stage.Fits renoted := by
  cases shift with
  | enter => rfl
  | refuse phase cause => trivial
  | turn commit callbacks => rfl
  | leave result => trivial
  | stay noted same kept => exact kept fits

/-- A call that is inside has been so before, or its thread was free. -/
theorem Shift.free_or_inside (shift : Shift before noted stage renoted)
    (inside : stage.inside = true) : before.inside = true ∨ noted = none := by
  cases shift with
  | enter => exact .inr rfl
  | refuse phase cause => cases inside
  | turn commit callbacks => exact .inl rfl
  | leave result => cases inside
  | stay noted same kept => exact .inl (same ▸ inside)

private theorem Shift.renoted_eq (shift : Shift before noted stage renoted)
    (outside : ¬(before.inside = true ∨ noted = none)) : renoted = noted := by
  cases shift with
  | enter => exact absurd (.inr rfl) outside
  | refuse phase cause => rfl
  | turn commit callbacks => exact absurd (.inl rfl) outside
  | leave result => exact absurd (.inl rfl) outside
  | stay noted same kept => rfl

private theorem Shift.inside_of_noted (shift : Shift before noted stage renoted)
    (left : renoted ≠ none) (own : before.inside = true ∨ noted = none) : stage.inside = true := by
  cases shift with
  | enter => rfl
  | refuse phase cause => rcases own with inside | free <;> contradiction
  | turn commit callbacks => rfl
  | leave result => exact absurd rfl left
  | stay noted same kept =>
    rw [same]
    exact own.resolve_right left

end Stage

/-- Two calls are not inside at the same place. -/
def Errand.Apart (one other : Errand C) : Prop :=
  one.call.stage.inside = true → other.call.stage.inside = true → one.place ≠ other.place

theorem Errand.Apart.symm {one other : Errand C} (apart : one.Apart other) : other.Apart one :=
  fun inside mine => (apart mine inside).symm

namespace Memory

private theorem phases_publish {memory after : Memory} {seed : Identity}
    {working next : Snapshot Entity} (published : memory.publish seed working = .ok (next, after)) :
    after.phases = memory.phases := by
  obtain ⟨_, rfl⟩ := publish_ok.mp published
  rfl

private theorem phases_endReport (timestamp : Nat) (memory : Memory) :
    (memory.endReport timestamp).phases = memory.phases := by
  unfold endReport
  split <;> rfl

theorem enter_noted {memory : Memory} {thread : Nat} {phase : Phase}
    (noted : memory.phases[thread]? = some phase) :
    ∃ cause, memory.enter thread = .error (.misuse cause) := by
  unfold enter
  rw [noted]
  cases phase <;> exact ⟨_, rfl⟩

theorem enter_free {memory : Memory} {thread : Nat} (free : memory.phases[thread]? = none) :
    memory.enter thread = .ok {memory with phases := memory.phases.insert thread .running} := by
  rw [enter, free]

end Memory

namespace Stage

/-- A move is a shift at the thread that makes it, and no other note of the memory changes. -/
structure Shifts (thread : Nat) (memory : Memory) (before : Stage C) (after : Memory)
    (stage : Stage C) : Prop where
  own : before.Shift memory.phases[thread]? stage after.phases[thread]?
  others : ∀ other ≠ thread, after.phases[other]? = memory.phases[other]?

private theorem Shifts.stay {thread : Nat} {memory after : Memory} {before stage : Stage C}
    (phases : after.phases = memory.phases) (same : stage.inside = before.inside)
    (kept : ∀ noted, before.Fits noted → stage.Fits noted) :
    Shifts thread memory before after stage := by
  refine ⟨?_, fun other _ => by rw [phases]⟩
  rw [phases]
  exact .stay _ same (kept _)

private theorem Shifts.rest (thread : Nat) (memory : Memory) (stage : Stage C) :
    Shifts thread memory stage memory stage :=
  .stay rfl rfl fun _ => id

private theorem advance_shifts (thread : Nat) (own : C) (seed : Identity) (memory : Memory)
    (stage : Stage C) :
    Shifts thread memory stage (stage.advance thread own seed memory).1
      (stage.advance thread own seed memory).2 := by
  cases stage with
  | called =>
    rw [advance]
    cases noted : memory.phases[thread]? with
    | none =>
      rw [Memory.enter_free noted]
      refine ⟨?_, fun other apart => ?_⟩
      · simpa [noted] using Shift.enter
      · simp [Std.ExtTreeMap.getElem?_insert, apart.symm]
    | some phase =>
      obtain ⟨cause, refused⟩ := Memory.enter_noted noted
      rw [refused]
      refine ⟨?_, fun _ _ => rfl⟩
      simpa [noted] using Shift.refuse phase cause
  | entered => exact .stay rfl rfl fun _ => id
  | ready attempt => exact .stay rfl rfl fun _ => id
  | working attempt scope => exact .rest _ _ _
  | ended attempt scope ending =>
    rcases ending with failure | (_ | _)
    · exact .stay rfl rfl fun _ fits => fits.noted_inside rfl
    · exact .stay rfl rfl fun _ fits => fits.noted_inside rfl
    · rw [advance]
      cases published : memory.publish seed scope.base with
      | error failure => exact .stay rfl rfl fun _ => id
      | ok result => exact .stay (Memory.phases_publish published) rfl fun _ => id
  | rejected attempt failure =>
    rw [advance]
    split
    · split <;> exact .stay rfl rfl fun _ => id
    · exact .stay rfl rfl fun _ fits => fits.noted_inside rfl
  | exhausted failure => exact .stay rfl rfl fun _ fits => fits.noted_inside rfl
  | published commit callbacks => exact .stay rfl rfl fun _ => id
  | waiting commit callbacks =>
    rw [advance]
    split
    · refine ⟨?_, fun other apart => ?_⟩
      · simpa [Memory.beginReport] using Shift.turn commit callbacks memory.phases[thread]?
      · simp [Memory.beginReport, Std.ExtTreeMap.getElem?_insert, apart.symm]
    · exact .rest _ _ _
  | reporting commit callbacks => cases callbacks <;> exact .stay rfl rfl fun _ => id
  | handling commit copy callback callbacks => exact .rest _ _ _
  | releasing commit result =>
    exact .stay (Memory.phases_endReport _ _) rfl fun _ fits => fits.noted_inside rfl
  | closing result => exact .stay rfl rfl fun _ => id
  | leaving result =>
    refine ⟨?_, fun other apart => ?_⟩
    · simpa [advance, Memory.leave] using Shift.leave result memory.phases[thread]?
    · simp [advance, Memory.leave, Std.ExtTreeMap.getElem?_erase, apart.symm]
  | left result => exact .rest _ _ _

end Stage

private theorem Call.act_shifts (seed : Identity) (memory : Memory) (call : Call C) (act : Act C) :
    Stage.Shifts call.thread memory call.stage (call.act seed memory act).1
      (call.act seed memory act).2 := by
  obtain ⟨thread, own, stage⟩ := call
  cases act with
  | advance => exact stage.advance_shifts thread own seed memory
  | work scope =>
    cases stage with
    | working attempt before => exact .stay rfl rfl fun _ => id
    | _ => exact .rest _ _ _
  | endBody ending =>
    cases stage with
    | working attempt scope => exact .stay rfl rfl fun _ => id
    | _ => exact .rest _ _ _
  | handle copy =>
    cases stage with
    | handling commit before callback callbacks => exact .stay rfl rfl fun _ => id
    | _ => exact .rest _ _ _
  | endCallback outcome =>
    cases stage with
    | handling commit copy callback callbacks =>
      cases outcome <;> exact .stay rfl rfl fun _ => id
    | _ => exact .rest _ _ _

namespace Memories
variable {front back : List (Errand C)} {errand : Errand C} {stage : Stage C}
  {memories later : Memories C}

/-- A memory notes a thread exactly while a call of it is inside, of which there is never more than
one, and the note fits the stage of that call. -/
structure Noted (memories : Memories C) : Prop where
  once : memories.errands.Pairwise Errand.Apart
  known : ∀ place, memories.phase place ≠ none →
    ∃ errand ∈ memories.errands, errand.call.stage.inside = true ∧ errand.place = place
  fits : ∀ errand ∈ memories.errands, errand.call.stage.Fits (memories.phase errand.place)

/-- A call that is inside, or may come inside, has its place for itself. -/
theorem Noted.alone (noted : memories.Noted) (shape : memories.errands = front ++ errand :: back)
    (own : errand.call.stage.inside = true ∨ memories.phase errand.place = none)
    {other : Errand C} (member : other ∈ front ++ back) (inside : other.call.stage.inside = true) :
    other.place ≠ errand.place := by
  intro same
  rcases own with mine | free
  · have once := shape ▸ noted.once
    rw [List.pairwise_middle (fun apart => apart.symm), List.pairwise_cons] at once
    exact once.1 other member mine inside same.symm
  · have standing : other ∈ memories.errands := by
      rw [shape]
      simp only [List.mem_append, List.mem_cons] at member ⊢
      exact member.imp_right .inr
    have fits := noted.fits other standing
    rw [same] at fits
    exact fits.noted_inside inside free

/-- What one move of a call leaves of the invariant follows from its shift alone. -/
theorem Noted.shift (noted : memories.Noted) (shape : memories.errands = front ++ errand :: back)
    (changed : later.errands = front ++ errand.withStage stage :: back)
    (shift : errand.call.stage.Shift (memories.phase errand.place) stage
      (later.phase errand.place))
    (frame : ∀ place ≠ errand.place, later.phase place = memories.phase place) : later.Noted := by
  have here : errand ∈ memories.errands := by simp [shape]
  -- A note that the move touches belongs to a call that is alone at its place.
  have kept place (other : ¬(place = errand.place ∧
      (errand.call.stage.inside = true ∨ memories.phase errand.place = none))) :
      later.phase place = memories.phase place := by
    by_cases same : place = errand.place
    · subst same
      exact shift.renoted_eq fun own => other ⟨rfl, own⟩
    · exact frame place same
  refine ⟨?_, ?_, ?_⟩
  · have once := shape ▸ noted.once
    rw [List.pairwise_middle (fun apart => apart.symm), List.pairwise_cons] at once
    rw [changed, List.pairwise_middle (fun apart => apart.symm), List.pairwise_cons]
    refine ⟨?_, once.2⟩
    intro other member mine inside same
    exact noted.alone shape (shift.free_or_inside mine) member inside same.symm
  · intro place left
    rw [changed]
    by_cases own : place = errand.place ∧
      (errand.call.stage.inside = true ∨ memories.phase errand.place = none)
    · obtain ⟨rfl, own⟩ := own
      exact ⟨errand.withStage stage, by simp, shift.inside_of_noted left own, rfl⟩
    · rw [kept place own] at left
      obtain ⟨other, member, inside, rfl⟩ := noted.known place left
      rw [shape, List.mem_append, List.mem_cons] at member
      rcases member with old | rfl | old
      · exact ⟨other, by simp [old], inside, rfl⟩
      · exact absurd ⟨rfl, .inl inside⟩ own
      · exact ⟨other, by simp [old], inside, rfl⟩
  · rw [changed]
    have fits := noted.fits
    rw [shape] at fits
    refine forall_replaced fits ?_ (shift.fits (noted.fits errand here))
    intro other member fits
    by_cases inside : other.call.stage.inside = true
    · rw [kept]
      · exact fits
      · rintro ⟨same, own⟩
        exact noted.alone shape own (List.mem_append.mpr member) inside same
    · exact Stage.fits_outside (Bool.not_eq_true _ ▸ inside)

/-- What a step of a call makes of the calls and of the notes. -/
structure Stepped (memories later : Memories C) (index : Nat) (errand : Errand C)
    (stage : Stage C) : Prop where
  errands : later.errands = memories.errands.set index (errand.withStage stage)
  shift : errand.call.stage.Shift (memories.phase errand.place) stage (later.phase errand.place)
  frame : ∀ place ≠ errand.place, later.phase place = memories.phase place

def acted (memories : Memories C) (errand : Errand C) (act : Act C) : Memory × Stage C :=
  errand.call.act memories.supply.mint.1 (memories.memory errand.memory) act

theorem step_found {index : Nat} (found : memories.errands[index]? = some errand) (act : Act C) :
    memories.step (.act index act) =
      ⟨Function.update memories.memory errand.memory (memories.acted errand act).1,
        memories.supply.mint.2,
        memories.errands.set index (errand.withStage (memories.acted errand act).2)⟩ := by
  rw [step, found]
  rfl

theorem stepped_act {index : Nat} (found : memories.errands[index]? = some errand) (act : Act C) :
    memories.Stepped (memories.step (.act index act)) index errand
      (memories.acted errand act).2 := by
  have shifts := errand.call.act_shifts memories.supply.mint.1 (memories.memory errand.memory) act
  rw [step_found found]
  refine ⟨rfl, ?_, ?_⟩
  · simpa [phase, Errand.place, acted] using shifts.own
  · rintro ⟨index, thread⟩ apart
    by_cases same : index = errand.memory
    · have other : thread ≠ errand.call.thread := fun equal => apart (by rw [same, equal]; rfl)
      simpa [phase, same, acted] using shifts.others thread other
    · simp [phase, Function.update_of_ne same]

theorem Noted.step (noted : memories.Noted) (move : Move C) : (memories.step move).Noted := by
  cases move with
  | call memory thread own =>
    obtain ⟨once, known, fits⟩ := noted
    refine ⟨?_, ?_, ?_⟩
    · refine List.pairwise_append.mpr ⟨once, List.pairwise_singleton _ _, ?_⟩
      intro one member other last mine inside
      rw [List.mem_singleton.mp last] at inside
      cases inside
    · intro place left
      obtain ⟨errand, member, inside, same⟩ := known place left
      exact ⟨errand, List.mem_append_left _ member, inside, same⟩
    · intro errand member
      rcases List.mem_append.mp member with old | new
      · exact fits errand old
      · rw [List.mem_singleton.mp new]
        trivial
  | act index act =>
    cases found : memories.errands[index]? with
    | none =>
      rw [Memories.step, found]
      exact noted
    | some errand =>
      obtain ⟨front, back, shape, changed⟩ := split_at found
      obtain ⟨errands, shift, frame⟩ := stepped_act found act
      exact noted.shift shape (errands.trans (changed _)) shift frame

theorem noted_run {initial : Nat → Memory} (fresh : ∀ index, (initial index).phases = ∅)
    (supply : Supply) (moves : List (Move C)) : (run initial supply moves).Noted := by
  induction moves using List.reverseRecOn with
  | nil =>
    refine ⟨.nil, ?_, nofun⟩
    intro place left
    simp [run, phase, fresh] at left
  | append_singleton moves move ih =>
    rw [run, List.foldl_concat]
    exact ih.step move

end Memories
end TransactionalMemory
