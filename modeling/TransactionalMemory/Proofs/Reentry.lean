import TransactionalMemory.Proofs.AdmittedContexts

/-! Calls that lie within each other. Client code of a thread may call any memory, and goes on once
that call is over. A memory that the thread is busy with turns the call away without a trace. Every
other call leaves the notes of its thread behind as it has found them. -/
namespace TransactionalMemory
variable {C : Type}

/-- Only client code that works on what it was given does not move its call on. -/
def Act.proceeds : Act C → Bool
  | .work _ | .handle _ => false
  | _ => true

namespace Stage
variable {before stage : Stage C} {noted renoted : Option Phase}

def returned : Stage C → Bool
  | .left _ => true
  | _ => false

/-- A shift leaves the note alone, comes or stays inside, or takes the note with it. -/
theorem Shift.cases (shift : Shift before noted stage renoted) :
    stage.inside = before.inside ∧ renoted = noted ∨
      stage.inside = true ∧ (before.inside = true ∨ noted = none) ∨
      before.inside = true ∧ renoted = none := by
  cases shift with
  | enter => exact .inr (.inl ⟨rfl, .inr rfl⟩)
  | refuse phase cause => exact .inl ⟨rfl, rfl⟩
  | turn commit callbacks => exact .inr (.inl ⟨rfl, .inl rfl⟩)
  | leave result => exact .inr (.inr ⟨rfl, rfl⟩)
  | stay noted same kept => exact .inl ⟨same, rfl⟩

private theorem left_of_returned (returned : stage.returned = true) :
    ∃ result, stage = .left result := by
  cases stage with
  | left result => exact ⟨result, rfl⟩
  | _ => cases returned

private theorem outside_of_returned (returned : stage.returned = true) : stage.inside = false := by
  obtain ⟨result, rfl⟩ := left_of_returned returned
  rfl

private theorem called_of_outside (outside : stage.inside = false)
    (going : stage.returned = false) : stage = .called := by
  cases stage with
  | called => rfl
  | left result => cases going
  | _ => cases outside

end Stage

namespace Memories

/-- A thread makes calls from client code only, and a call goes on when those that were made from
within it are over. -/
def Allows (memories : Memories C) : Move C → Prop
  | .call _ thread _ => memories.Attending thread
  | .act index act => act.proceeds = true → ∀ errand ∈ memories.errands[index]?,
    ∀ inner ∈ memories.errands.drop (index + 1),
      inner.call.thread = errand.call.thread → inner.call.stage.returned = true

def Orderly (memories : Memories C) : List (Move C) → Prop
  | [] => True
  | move :: moves => memories.Allows move ∧ (memories.step move).Orderly moves

instance (memories : Memories C) : (move : Move C) → Decidable (memories.Allows move)
  | .call _ thread _ => inferInstanceAs (Decidable (∀ errand ∈ memories.errands,
      errand.call.thread = thread → errand.call.stage.steps = 0))
  | .act index act => inferInstanceAs (Decidable (act.proceeds = true →
      ∀ errand ∈ memories.errands[index]?, ∀ inner ∈ memories.errands.drop (index + 1),
        inner.call.thread = errand.call.thread → inner.call.stage.returned = true))

instance decidableOrderly : (memories : Memories C) → (moves : List (Move C)) →
    Decidable (memories.Orderly moves)
  | _, [] => .isTrue trivial
  | memories, move :: moves =>
    have := decidableOrderly (memories.step move) moves
    inferInstanceAs (Decidable (memories.Allows move ∧ (memories.step move).Orderly moves))

/-- A call that a memory turns away: its first step ends it, and none changes any memory. -/
structure TurnedAway (memories : Memories C) (index : Nat) : Prop where
  unheard : ∃ errand ∈ memories.errands[index]?, errand.call.stage = .called ∨
    ∃ cause, errand.call.stage = .left (.error (.misuse cause))
  refused : ∃ errand ∈ (memories.step (.act index .advance)).errands[index]?, ∃ cause,
    errand.call.stage = .left (.error (.misuse cause))
  traceless : ∀ act, (memories.step (.act index act)).memory = memories.memory

/-- The act with which a call returns. -/
def Returns (memories : Memories C) (index : Nat) (act : Act C) : Prop :=
  (∃ errand ∈ memories.errands[index]?, errand.call.stage.returned = false) ∧
    ∃ errand ∈ (memories.step (.act index act)).errands[index]?, errand.call.stage.returned = true

/-- After a call has returned, its note is gone, the notes of its thread are as they were earlier,
when it was made, and the thread may call the memory again. -/
structure Cleared (earlier later : Memories C) (memory thread : Nat) : Prop where
  own : later.phase (memory, thread) = none
  restored : ∀ other, later.phase (other, thread) = earlier.phase (other, thread)
  again : ∃ entered, (later.memory memory).enter thread = .ok entered

variable {earlier memories later : Memories C} {index position thread : Nat} {errand : Errand C}
  {place : Nat × Nat} {stage : Stage C}

/-- A call made at the index or later is inside at the place. -/
def Busy (memories : Memories C) (index : Nat) (place : Nat × Nat) : Prop :=
  ∃ position errand, index ≤ position ∧ memories.errands[position]? = some errand ∧
    errand.place = place ∧ errand.call.stage.inside = true

private theorem Stepped.busy (stepped : memories.Stepped later position errand stage)
    (busy : later.Busy index place) :
    memories.Busy index place ∨
      errand.place = place ∧ index ≤ position ∧ stage.inside = true := by
  obtain ⟨other, inner, bound, there, same, inside⟩ := busy
  rw [stepped.errands, List.getElem?_set] at there
  split at there
  · next equal =>
    subst equal
    split at there <;> cases there
    exact .inr ⟨same, bound, inside⟩
  · exact .inl ⟨other, inner, bound, there, same, inside⟩

private theorem Stepped.busy_here (stepped : memories.Stepped later position errand stage)
    (found : memories.errands[position]? = some errand) (bound : index ≤ position)
    (inside : stage.inside = true) : later.Busy index errand.place := by
  refine ⟨position, errand.withStage stage, bound, ?_, rfl, inside⟩
  rw [stepped.errands, List.getElem?_set_self (List.getElem?_eq_some_iff.mp found).1]

private theorem Stepped.busy_still (stepped : memories.Stepped later position errand stage)
    (found : memories.errands[position]? = some errand)
    (kept : errand.place = place → errand.call.stage.inside = true → stage.inside = true)
    (busy : memories.Busy index place) : later.Busy index place := by
  obtain ⟨other, inner, bound, there, same, inside⟩ := busy
  by_cases equal : position = other
  · subst equal
    rw [found] at there
    cases there
    exact same ▸ stepped.busy_here found bound (kept same inside)
  · refine ⟨other, inner, bound, ?_, same, inside⟩
    rwa [stepped.errands, List.getElem?_set_ne equal]

/-- The notes of the thread are as they were, except where one of its newer calls has come inside
since. -/
structure Since (earlier : Memories C) (index thread : Nat) (memories : Memories C) : Prop where
  taken : ∀ memory, memories.Busy index (memory, thread) → earlier.phase (memory, thread) = none
  kept : ∀ memory, ¬memories.Busy index (memory, thread) →
    memories.phase (memory, thread) = earlier.phase (memory, thread)

/-- A step after which the same calls are inside, and the same is noted. -/
theorem Stepped.since_same (stepped : memories.Stepped later position errand stage)
    (found : memories.errands[position]? = some errand)
    (since : Since earlier index thread memories)
    (inside : stage.inside = errand.call.stage.inside)
    (noted : later.phase errand.place = memories.phase errand.place) :
    Since earlier index thread later := by
  have phases place : later.phase place = memories.phase place := by
    by_cases here : place = errand.place
    · rw [here, noted]
    · exact stepped.frame place here
  have busy place : later.Busy index place ↔ memories.Busy index place := by
    constructor
    · intro busy
      rcases stepped.busy busy with busy | ⟨here, bound, within⟩
      · exact busy
      · exact ⟨position, errand, bound, found, here, inside ▸ within⟩
    · exact stepped.busy_still found fun _ within => inside ▸ within
  constructor
  · intro memory
    rw [busy]
    exact since.taken memory
  · intro memory
    rw [busy, phases]
    exact since.kept memory

private theorem Since.free {memory : Nat} (since : Since earlier index thread memories)
    (own : memories.Busy index (memory, thread) ∨ memories.phase (memory, thread) = none) :
    earlier.phase (memory, thread) = none := by
  by_cases busy : memories.Busy index (memory, thread)
  · exact since.taken memory busy
  · rw [← since.kept memory busy]
    exact own.resolve_left busy

/-- A step at a place that was taken by a newer call or free, and that is so again. -/
theorem Stepped.since_free (stepped : memories.Stepped later position errand stage)
    (found : memories.errands[position]? = some errand)
    (since : Since earlier index thread memories)
    (own : errand.call.thread = thread →
      memories.Busy index errand.place ∨ memories.phase errand.place = none)
    (own' : errand.call.thread = thread →
      later.Busy index errand.place ∨ later.phase errand.place = none) :
    Since earlier index thread later := by
  constructor
  · intro memory busy
    by_cases here : errand.place = (memory, thread)
    · exact since.free (here ▸ own (congrArg Prod.snd here))
    · exact since.taken memory ((stepped.busy busy).resolve_right fun both => here both.1)
  · intro memory idle
    by_cases here : errand.place = (memory, thread)
    · have mine := congrArg Prod.snd here
      rw [since.free (here ▸ own mine), ← here]
      exact (own' mine).resolve_left (here ▸ idle)
    · rw [stepped.frame _ (Ne.symm here)]
      exact since.kept memory fun busy => idle (stepped.busy_still found (absurd · here) busy)

private theorem Stepped.since (stepped : memories.Stepped later position errand stage)
    (found : memories.errands[position]? = some errand)
    (newer : errand.call.thread = thread → index ≤ position)
    (since : Since earlier index thread memories) : Since earlier index thread later := by
  have busy (inside : errand.call.stage.inside = true) (mine : errand.call.thread = thread) :
      memories.Busy index errand.place :=
    ⟨position, errand, newer mine, found, rfl, inside⟩
  rcases stepped.shift.cases with ⟨inside, noted⟩ | ⟨inside, own⟩ | ⟨inside, left⟩
  · exact stepped.since_same found since inside noted
  · exact stepped.since_free found since (fun mine => own.imp_left fun before => busy before mine)
      fun mine => .inl (stepped.busy_here found (newer mine) inside)
  · exact stepped.since_free found since (fun mine => .inl (busy inside mine)) fun _ => .inr left

private theorem acted_of_idle (memories : Memories C) (errand : Errand C) {act : Act C}
    (idle : act.proceeds = false) :
    (memories.acted errand act).1 = memories.memory errand.memory ∧
      (memories.acted errand act).2.inside = errand.call.stage.inside ∧
      (memories.acted errand act).2.returned = errand.call.stage.returned := by
  obtain ⟨memory, thread, own, stage⟩ := errand
  cases act with
  | work scope => cases stage <;> exact ⟨rfl, rfl, rfl⟩
  | handle copy => cases stage <;> exact ⟨rfl, rfl, rfl⟩
  | _ => cases idle

private theorem memory_step (found : memories.errands[position]? = some errand) {act : Act C}
    (still : (memories.acted errand act).1 = memories.memory errand.memory) :
    (memories.step (.act position act)).memory = memories.memory := by
  rw [step_found found, still, Function.update_eq_self]

private theorem errand_step (found : memories.errands[index]? = some errand) (act : Act C) :
    (memories.step (.act index act)).errands[index]? =
      some (errand.withStage (memories.acted errand act).2) := by
  rw [step_found found, List.getElem?_set_self (List.getElem?_eq_some_iff.mp found).1]

theorem Since.act (since : Since earlier index thread memories)
    (found : memories.errands[position]? = some errand) {act : Act C}
    (newer : errand.call.thread = thread → act.proceeds = true → index ≤ position) :
    Since earlier index thread (memories.step (.act position act)) := by
  have stepped := stepped_act found act
  cases proceeds : act.proceeds with
  | true => exact stepped.since found (fun mine => newer mine proceeds) since
  | false =>
    obtain ⟨memory, inside, _⟩ := acted_of_idle memories errand proceeds
    refine stepped.since_same found since inside ?_
    rw [phase, phase, memory_step found memory]

private theorem busy_call (memory other : Nat) (own : C) :
    (memories.step (.call memory other own)).Busy index place ↔ memories.Busy index place := by
  constructor
  · rintro ⟨position, inner, bound, there, same, inside⟩
    change (memories.errands ++ [_])[position]? = some inner at there
    rw [List.getElem?_append] at there
    split at there
    · exact ⟨position, inner, bound, there, same, inside⟩
    · rw [List.mem_singleton.mp (List.mem_of_getElem? there)] at inside
      cases inside
  · rintro ⟨position, inner, bound, there, same, inside⟩
    refine ⟨position, inner, bound, ?_, same, inside⟩
    exact (List.getElem?_append_left (List.getElem?_eq_some_iff.mp there).1).trans there

private theorem Since.call (since : Since earlier index thread memories) (memory other : Nat)
    (own : C) : Since earlier index thread (memories.step (.call memory other own)) := by
  constructor
  · intro place
    rw [busy_call]
    exact since.taken place
  · intro place
    rw [busy_call]
    exact since.kept place

/-- A call has returned, refused if its place was taken, or it has not, and the notes of its thread
are accounted for. -/
def Outcome (earlier memories : Memories C) (index : Nat) (place : Nat × Nat)
    (stage : Stage C) : Prop :=
  (∃ result, stage = .left result ∧
    (earlier.phase place ≠ none → ∃ cause, result = .error (.misuse cause))) ∨
  stage.returned = false ∧ Since earlier index place.2 memories

def Tracked (earlier memories : Memories C) (index : Nat) (place : Nat × Nat) : Prop :=
  ∃ errand, memories.errands[index]? = some errand ∧ errand.place = place ∧
    Outcome earlier memories index place errand.call.stage

/-- A note that was there when the call was made stays, as nothing newer comes inside. -/
theorem Since.waits (since : Since earlier index place.2 memories)
    (found : memories.errands[index]? = some errand) (here : errand.place = place)
    (going : errand.call.stage.returned = false) (taken : earlier.phase place ≠ none) :
    errand.call.stage = .called ∧ memories.phase errand.place ≠ none := by
  have idle : ¬memories.Busy index place := fun busy => taken (since.taken place.1 busy)
  constructor
  · refine Stage.called_of_outside ?_ going
    by_contra inside
    rw [Bool.not_eq_false] at inside
    exact idle ⟨index, errand, Nat.le_refl _, found, here, inside⟩
  · have noted : memories.phase place = earlier.phase place := since.kept place.1 idle
    rwa [here, noted]

private theorem advance_called (noted : memories.phase errand.place ≠ none)
    (called : errand.call.stage = .called) : ∃ cause, memories.acted errand .advance =
      (memories.memory errand.memory, .left (.error (.misuse cause))) := by
  obtain ⟨phase, there⟩ := Option.ne_none_iff_exists'.mp noted
  obtain ⟨cause, refused⟩ := Memory.enter_noted there
  refine ⟨cause, ?_⟩
  simp only [acted, Call.act, called, Stage.advance, Errand.place] at refused ⊢
  rw [refused]

private theorem acted_called (noted : memories.phase errand.place ≠ none)
    (called : errand.call.stage = .called) (act : Act C) :
    (memories.acted errand act).1 = memories.memory errand.memory ∧
      ((memories.acted errand act).2 = .called ∨
        ∃ cause, (memories.acted errand act).2 = .left (.error (.misuse cause))) := by
  cases act with
  | advance =>
    obtain ⟨cause, refused⟩ := advance_called noted called
    rw [refused]
    exact ⟨rfl, .inr ⟨cause, rfl⟩⟩
  | _ => exact ⟨rfl, .inl (by simp [acted, Call.act, called, Stage.rework, Stage.rehandle,
      Stage.endBody, Stage.endCallback])⟩

private theorem acted_left {result : Ending} (left : errand.call.stage = .left result)
    (act : Act C) : memories.acted errand act = (memories.memory errand.memory, .left result) := by
  obtain ⟨memory, thread, own, stage⟩ := errand
  cases left
  cases act <;> rfl

private theorem mem_inner (found : memories.errands[index]? = some errand)
    (outer : position < index) : errand ∈ memories.errands.drop (position + 1) := by
  rw [List.mem_iff_getElem?]
  refine ⟨index - (position + 1), ?_⟩
  rw [List.getElem?_drop, ← found]
  congr 1
  omega

/-- An outer call of the thread has to wait. -/
theorem Allows.newer {act : Act C} (allows : memories.Allows (.act position act))
    (found : memories.errands[index]? = some errand) (going : errand.call.stage.returned = false)
    {other : Errand C} (there : memories.errands[position]? = some other)
    (mine : other.call.thread = errand.call.thread) (proceeds : act.proceeds = true) :
    index ≤ position := by
  by_contra outer
  have inner := mem_inner found (Nat.not_le.mp outer)
  have returned := allows proceeds other there errand inner mine.symm
  rw [going] at returned
  cases returned

theorem Outcome.act (found : memories.errands[index]? = some errand) (here : errand.place = place)
    (outcome : Outcome earlier memories index place errand.call.stage) (act : Act C) :
    Outcome earlier (memories.step (.act index act)) index place
      (memories.acted errand act).2 := by
  rcases outcome with ⟨result, left, refused⟩ | ⟨going, since⟩
  · rw [acted_left left]
    exact .inl ⟨result, rfl, refused⟩
  cases returned : (memories.acted errand act).2.returned with
  | false => exact .inr ⟨returned, since.act found fun _ _ => Nat.le_refl index⟩
  | true =>
    obtain ⟨result, left⟩ := Stage.left_of_returned returned
    refine .inl ⟨result, left, fun taken => ?_⟩
    obtain ⟨called, noted⟩ := since.waits found here going taken
    rcases (acted_called noted called act).2 with still | ⟨cause, refused⟩
    · rw [still] at returned
      cases returned
    · rw [left] at refused
      exact ⟨cause, Stage.left.inj refused⟩

theorem Tracked.step {move : Move C} (tracked : Tracked earlier memories index place)
    (allows : memories.Allows move) : Tracked earlier (memories.step move) index place := by
  obtain ⟨errand, found, here, outcome⟩ := tracked
  cases move with
  | call memory thread own =>
    refine ⟨errand, ?_, here, outcome.imp_right ?_⟩
    · exact (List.getElem?_append_left (List.getElem?_eq_some_iff.mp found).1).trans found
    · exact fun ⟨going, since⟩ => ⟨going, since.call memory thread own⟩
  | act position act =>
    cases there : memories.errands[position]? with
    | none =>
      rw [Memories.step, there]
      exact ⟨errand, found, here, outcome⟩
    | some other =>
      by_cases same : position = index
      · subst same
        exact ⟨_, errand_step found act, here, outcome.act found here act⟩
      · refine ⟨errand, ?_, here, outcome.imp_right ?_⟩
        · rwa [(stepped_act there act).errands, List.getElem?_set_ne same]
        · rintro ⟨going, since⟩
          refine ⟨going, since.act there fun mine => allows.newer found going there ?_⟩
          exact mine.trans (congrArg Prod.snd here).symm

theorem Tracked.run (tracked : Tracked earlier memories index place) {moves : List (Move C)}
    (orderly : memories.Orderly moves) :
    Tracked earlier (moves.foldl Memories.step memories) index place := by
  induction moves generalizing memories with
  | nil => exact tracked
  | cons move moves ih => exact ih (tracked.step orderly.1) orderly.2

private theorem tracked_call (earlier : Memories C) (memory thread : Nat) (own : C) :
    Tracked earlier (earlier.step (.call memory thread own)) earlier.errands.length
      (memory, thread) := by
  refine ⟨⟨memory, thread, own, .called⟩, List.getElem?_concat_length, rfl, .inr ⟨rfl, ?_⟩⟩
  have idle place :
      ¬(earlier.step (.call memory thread own)).Busy earlier.errands.length place := by
    rw [busy_call]
    rintro ⟨position, inner, bound, there, _⟩
    exact absurd (List.getElem?_eq_some_iff.mp there).1 (Nat.not_lt.mpr bound)
  exact ⟨fun _ busy => absurd busy (idle _), fun _ _ => rfl⟩

private theorem orderly_append {before after : List (Move C)} :
    memories.Orderly (before ++ after) ↔
      memories.Orderly before ∧ (before.foldl step memories).Orderly after := by
  induction before generalizing memories with
  | nil => simp [Orderly]
  | cons move before ih => simp [Orderly, ih, and_assoc]

private theorem Tracked.turnedAway (tracked : Tracked earlier memories index place)
    (taken : earlier.phase place ≠ none) : memories.TurnedAway index := by
  obtain ⟨errand, found, here, outcome⟩ := tracked
  rcases outcome with ⟨result, left, refused⟩ | ⟨going, since⟩
  · obtain ⟨cause, rfl⟩ := refused taken
    refine ⟨⟨errand, found, .inr ⟨cause, left⟩⟩, ⟨_, errand_step found .advance, cause, ?_⟩, ?_⟩
    · rw [acted_left left]
      rfl
    · exact fun act => memory_step found (by rw [acted_left left])
  · obtain ⟨called, noted⟩ := since.waits found here going taken
    obtain ⟨cause, refused⟩ := advance_called noted called
    refine ⟨⟨errand, found, .inl called⟩, ⟨_, errand_step found .advance, cause, ?_⟩, ?_⟩
    · rw [refused]
      rfl
    · exact fun act => memory_step found (acted_called noted called act).1

/-- When a call returns, none of those that its thread has made since is inside any more. -/
theorem idle_of_returns (found : memories.errands[index]? = some errand) {act : Act C}
    (allows : memories.Allows (.act index act)) (proceeds : act.proceeds = true)
    (returned : (memories.acted errand act).2.returned = true) (memory : Nat) :
    ¬(memories.step (.act index act)).Busy index (memory, errand.call.thread) := by
  rintro ⟨position, inner, bound, there, same, inside⟩
  rw [(stepped_act found act).errands, List.getElem?_set] at there
  split at there
  · split at there <;> cases there
    rw [Errand.withStage, Stage.outside_of_returned returned] at inside
    cases inside
  · next apart =>
    have newer := mem_inner there (Nat.lt_of_le_of_ne bound apart)
    have before := allows proceeds errand found inner newer (congrArg Prod.snd same)
    rw [Stage.outside_of_returned before] at inside
    cases inside

private theorem Tracked.cleared (tracked : Tracked earlier memories index place)
    (free : earlier.phase place = none) {act : Act C} (allows : memories.Allows (.act index act))
    (returns : memories.Returns index act) :
    Cleared earlier (memories.step (.act index act)) place.1 place.2 := by
  obtain ⟨errand, found, rfl, outcome⟩ := tracked
  obtain ⟨⟨_, there, going⟩, ⟨_, there', returned⟩⟩ := returns
  obtain rfl := Option.some.inj (found.symm.trans there)
  obtain rfl := Option.some.inj ((errand_step found act).symm.trans there')
  have returned : (memories.acted errand act).2.returned = true := returned
  have proceeds : act.proceeds = true := by
    by_contra idle
    rw [(acted_of_idle memories errand (Bool.eq_false_iff.mpr idle)).2.2, going] at returned
    cases returned
  rcases outcome with ⟨result, left, _⟩ | ⟨_, since⟩
  · rw [left] at going
    cases going
  have idle := idle_of_returns found allows proceeds returned
  have kept : Since earlier index errand.call.thread (memories.step (.act index act)) :=
    since.act found fun _ _ => Nat.le_refl index
  have own := (kept.kept _ (idle _)).trans free
  exact ⟨own, fun other => kept.kept other (idle other), _, Memory.enter_free own⟩

/-- However calls of threads to memories lie within each other, no thread is inside of a memory
twice, and no call touches a note other than its own. A call is turned away if the memory has its
thread run client code when it is made. Otherwise it returns to the notes that were there. -/
theorem reentry_leaves_no_trace {seed : Nat → Identity} {policy : Nat → RetryPolicy}
    {initial : Nat → Entity} {supply : Supply} {memory thread : Nat} {own : C}
    (before after : List (Move C))
    (orderly : Orderly
      ⟨fun index => .create (seed index) (policy index) (initial index), supply, []⟩
      (before ++ .call memory thread own :: after)) :
    let start := fun index => Memory.create (seed index) (policy index) (initial index)
    let earlier := run start supply before
    let later := run start supply (before ++ .call memory thread own :: after)
    let index := earlier.errands.length
    later.errands.Pairwise Errand.Apart ∧
      (∃ errand ∈ later.errands[index]?, errand.place = (memory, thread)) ∧
      (∀ act, ∀ place ≠ (memory, thread),
        (later.step (.act index act)).phase place = later.phase place) ∧
      ((∃ phase, earlier.Engaged memory thread phase) → later.TurnedAway index) ∧
      ((∀ phase, ¬earlier.Engaged memory thread phase) →
        ∀ act, later.Allows (.act index act) → later.Returns index act →
          Cleared earlier (later.step (.act index act)) memory thread) := by
  intro start earlier later index
  have noted : earlier.Noted := noted_run (fun _ => rfl) supply before
  obtain ⟨_, attending, rest⟩ := orderly_append.mp orderly
  have shape : later = after.foldl Memories.step (earlier.step (.call memory thread own)) :=
    List.foldl_append
  have tracked : Tracked earlier later index (memory, thread) :=
    shape ▸ (tracked_call earlier memory thread own).run rest
  obtain ⟨errand, found, here, _⟩ := id tracked
  refine ⟨(noted_run (fun _ => rfl) supply _).once, ⟨errand, found, here⟩, ?_, ?_, ?_⟩
  · intro act place apart
    exact (stepped_act found act).frame place (here ▸ apart)
  · rintro ⟨phase, engaged⟩
    apply tracked.turnedAway
    rw [Memories.phase, noted.phase_of_engaged engaged]
    exact Option.some_ne_none phase
  · intro free act allows returns
    refine tracked.cleared ?_ allows returns
    by_contra taken
    obtain ⟨phase, standing⟩ := Option.ne_none_iff_exists'.mp taken
    exact free phase (noted.engaged_of_phase attending standing)

/-- A body of the first memory is run. -/
def outerMoves : List (Move Unit) :=
  .call 0 0 () :: .replicate 3 (.act 0 .advance)

/-- From there, a body of the second memory. -/
def innerMoves : List (Move Unit) :=
  .replicate 3 (.act 1 .advance)

/-- What was called last is over before that body ends. -/
def lastMoves : List (Move Unit) :=
  [.act 2 .advance, .act 1 (.endBody (.ok false)), .act 1 .advance]

theorem reentry_leaves_no_trace_nested :
    let moves := outerMoves ++ .call 1 0 () :: (innerMoves ++ .call 0 0 () :: lastMoves)
    let later := run numbered ⟨0⟩ moves
    Orderly ⟨numbered, ⟨0⟩, []⟩ moves ∧ later.TurnedAway 2 ∧
      Cleared (run numbered ⟨0⟩ outerMoves) (later.step (.act 1 .advance)) 1 0 := by
  intro moves later
  have orderly : Orderly ⟨numbered, ⟨0⟩, []⟩ moves := by decide +kernel
  refine ⟨orderly, ?_, ?_⟩
  · obtain ⟨_, _, _, refused, _⟩ :=
      reentry_leaves_no_trace (outerMoves ++ .call 1 0 () :: innerMoves) lastMoves orderly
    apply refused
    refine ⟨.running, .body ⟨⟨0, 0, (), .working 0 outerBody⟩, ?_, rfl, 0, rfl⟩⟩
    exact List.mem_of_getElem? (i := 0) rfl
  · obtain ⟨_, _, _, _, cleared⟩ :=
      reentry_leaves_no_trace outerMoves (innerMoves ++ .call 0 0 () :: lastMoves) orderly
    refine cleared ?_ .advance (by decide +kernel) ⟨⟨_, rfl, rfl⟩, ⟨_, rfl, rfl⟩⟩
    intro phase engaged
    have noted : (run numbered ⟨0⟩ outerMoves).Noted := noted_run (fun _ => rfl) ⟨0⟩ outerMoves
    have standing := noted.phase_of_engaged engaged
    cases standing

end Memories
end TransactionalMemory
