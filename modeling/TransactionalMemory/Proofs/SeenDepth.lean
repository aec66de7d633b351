import Mathlib.Data.List.Induction
import TransactionalMemory.Proofs.Footprint
import TransactionalMemory.Proofs.QueueConservation

/-! How deep a transaction has seen into a queue. To its readers a working copy is a plain line of
items, also while branches of it are in use. A commit minds nothing but the greatest depth at which
some branch was handed an item; an answer that tells of the end leaves no trace. -/
namespace TransactionalMemory.Queue
variable {α : Type}

/-- The items that stand in a line, and the number of those that have left it. -/
structure Line (α : Type) where
  items : List α
  gone : Nat

def Request.answer (items : List α) : Request α → Reply α
  | .offer _ | .offerAll _ | .clear => .done
  | .peek | .poll => .item items.head?
  | .element | .removeHead => .demanded (items.head?.elim (.error (.breach .queueEmpty)) .ok)
  | .isEmpty => .flag items.isEmpty
  | .size => .count items.length
  | .drain => .items items

/-- How many items a request takes from the front. -/
def Request.takes (items : List α) : Request α → Nat
  | .poll | .removeHead => min 1 items.length
  | .clear | .drain => items.length
  | _ => 0

def Request.apply (line : Line α) (request : Request α) : Line α :=
  ⟨line.items.drop (request.takes line.items) ++ request.offered,
    line.gone + request.takes line.items⟩

/-- The depth of each item that a request looks at: its place in the line, counted from the first
item that has left. -/
def Request.sights (line : Line α) : Request α → List Nat
  | .offer _ | .offerAll _ => []
  | .clear | .drain => List.range' (line.gone + 1) line.items.length
  | _ => if line.items.isEmpty then [] else [line.gone + 1]

def deepest (sights : List Nat) : Nat :=
  sights.foldl max 0

inductive Step (α : Type) where
  | ask (request : Request α)
  | branch
  | merge (mode : MergeMode)

/-- The copies that are in use, the innermost branch first. Only that one is worked with, until it
is merged into the copy that it was taken from. -/
def Step.run {E : Type} (ask : Request α → E → E) (branch : E → E)
    (merge : MergeMode → (branch target : E) → E) : List E → Step α → List E
  | inner :: outer, .ask request => ask request inner :: outer
  | inner :: outer, .branch => branch inner :: inner :: outer
  | inner :: target :: outer, .merge mode => merge mode inner target :: outer
  | copies, _ => copies

def stepCopies : List (Queue α) → Step α → List (Queue α) :=
  Step.run (fun request queue => (queue.perform request).2) (fun queue => queue.copy .dirty)
    fun mode branch queue => (branch.merge mode queue).toOption.getD queue

def runCopies (base : Queue α) (steps : List (Step α)) : List (Queue α) :=
  steps.foldl stepCopies [base.copy .clean]

/-- The same with plain lines, and all that was looked at on the way, wherever it was. -/
structure Told (α : Type) where
  lines : List (Line α)
  sights : List Nat

def Step.sights (lines : List (Line α)) : Step α → List Nat
  | .ask request => lines.head?.elim [] request.sights
  | .branch | .merge _ => []

def Told.step (told : Told α) (step : Step α) : Told α :=
  ⟨step.run (fun request line => request.apply line) id MergeMode.pick told.lines,
    told.sights ++ step.sights told.lines⟩

def runLines (items : List α) (steps : List (Step α)) : Told α :=
  steps.foldl Told.step ⟨[⟨items, 0⟩], []⟩

/-- What readers can tell of a copy that stands for the line, and what it keeps to. -/
structure Shows (base : Queue α) (line : Line α) (queue : Queue α) : Prop where
  answers : ∀ request, (queue.perform request).1 = request.answer line.items
  polled : queue.polled = line.gone
  cursor : queue.cursor = min queue.source.content.length queue.polled
  deep : queue.polled ≤ queue.depth
  enough : queue.cursor ≤ queue.source.content.length
  started : queue.source = base.source ∧ queue.polledBefore = base.polledBefore

def LogFree (queue : Queue α) : Prop :=
  queue.depth = 0 ∧ queue.tail = []

/-- The head is another one than at the start, or the copy has seen past the items that there were
and others have taken their place. -/
def Clash (base latest : Queue α) (depth : Nat) : Prop :=
  0 < depth ∧ latest.polledBefore ≠ base.polledBefore ∨
    base.source.content.length < depth ∧ latest.source.identity ≠ base.source.identity

/-- What a commit makes of the latest queue. What is left of the base comes first in the line, so
that everything behind it was offered by the transaction itself. -/
structure Follows (base latest : Queue α) (line : Line α) (next : Queue α) : Prop where
  logFree : next.LogFree
  counter : next.polledBefore = latest.polledBefore + UInt64.ofNat line.gone
  items : next.items = latest.source.content.drop line.gone ++
    line.items.drop (base.source.content.length - line.gone)
  same : latest.source.content = base.source.content → next.items = line.items
  grown : ∀ added, latest.source.content = base.source.content ++ added →
    line.gone ≤ base.source.content.length →
    next.items = base.source.content.drop line.gone ++ added ++
      line.items.drop (base.source.content.length - line.gone)
  idle : line.gone = 0 → line.items = base.source.content → next = latest.copy .clean

private theorem fst_isEmpty (queue : Queue α) : queue.isEmpty.1 = queue.items.isEmpty := by
  rw [isEmpty, Prod.map_fst, peek_fst]
  cases queue.items <;> rfl

private theorem fst_size (queue : Queue α) : queue.size.1 = queue.items.length := by
  have same : queue.isEmpty.2 = queue.peek.2 := rfl
  have length : queue.peek.2.source.content.length - queue.peek.2.cursor +
      queue.peek.2.tail.length = queue.items.length := by
    rw [← items_peek queue, items, List.length_append, List.length_drop]
  rw [size]
  dsimp only
  rw [fst_isEmpty, same]
  split
  · next none => simp [List.isEmpty_iff.mp none]
  · exact length

private theorem fst_perform (queue : Queue α) (request : Request α) :
    (queue.perform request).1 = request.answer queue.items := by
  cases request with
  | isEmpty => simp only [perform, Prod.map_fst, fst_isEmpty, Request.answer]
  | size => simp only [perform, Prod.map_fst, fst_size, Request.answer]
  | _ => simp [perform, element, removeHead, Request.answer]

private theorem Request.takes_le (request : Request α) (items : List α) :
    request.takes items ≤ items.length := by
  cases request <;> simp only [takes] <;> omega

private theorem length_polledBy (queue : Queue α) (request : Request α) :
    (queue.polledBy request).length = request.takes queue.items := by
  have first : queue.items.head?.toList.length = min 1 queue.items.length := by
    cases queue.items <;> simp
  cases request <;> simp [polledBy, Request.takes, first]

private theorem items_drop (queue : Queue α) (request : Request α) :
    (queue.perform request).2.items =
      queue.items.drop (request.takes queue.items) ++ request.offered := by
  have rest := congrArg (List.drop (request.takes queue.items)) (items_perform queue request)
  rw [List.drop_append_of_le_length (request.takes_le queue.items)] at rest
  rw [← rest, ← length_polledBy, List.drop_left]

/-- An item is always seen at the depth next to those that are gone. -/
theorem depth_peek {queue : Queue α} (deep : queue.polled ≤ queue.depth) :
    queue.peek.2.depth =
      (Request.sights ⟨queue.items, queue.polled⟩ .peek).foldl max queue.depth := by
  have head := head?_items queue
  unfold peek
  split
  · next item found =>
    rw [found] at head
    have filled : queue.items.isEmpty = false := by
      cases shape : queue.items <;> simp_all
    simp [Request.sights, filled]
  · next none =>
    rw [none, List.head?_eq_none_iff] at head
    simp [Request.sights, head, deep]

private theorem depth_poll {queue : Queue α} (deep : queue.polled ≤ queue.depth) :
    queue.poll.2.depth =
      (Request.sights ⟨queue.items, queue.polled⟩ .poll).foldl max queue.depth := by
  have same : queue.poll.2.depth = queue.peek.2.depth := by
    unfold poll peek
    split <;> simp_all
  rw [same]
  exact depth_peek deep

private theorem depth_pollUpTo {queue : Queue α} {limit : Nat} (length : queue.items.length = limit)
    (deep : queue.polled ≤ queue.depth) :
    (queue.pollUpTo limit).2.depth =
      (List.range' (queue.polled + 1) limit).foldl max queue.depth := by
  induction limit generalizing queue with
  | zero =>
    have empty := List.eq_nil_of_length_eq_zero length
    simp [pollUpTo, depth_poll deep, Request.sights, empty]
  | succ limit ih =>
    obtain ⟨item, items, shape⟩ := List.exists_cons_of_length_eq_add_one length
    have head := queue.poll_fst
    have rest := queue.items_poll
    have counted := queue.polled_poll
    have deeper := depth_poll deep
    rw [shape] at head rest
    unfold pollUpTo
    split
    · next absent => simp [absent] at head
    · next other later found =>
      rw [found] at rest counted deeper
      have polled : later.polled = queue.polled + 1 := by simpa using counted
      have depth : later.depth = max queue.depth (queue.polled + 1) := by
        simpa [Request.sights, shape] using deeper
      have shorter : later.items.length = limit := by simp_all
      rw [Prod.map_snd, id, ih shorter (by omega), polled, depth, List.range'_succ,
        List.foldl_cons]

private theorem depth_perform {queue : Queue α} (deep : queue.polled ≤ queue.depth)
    (request : Request α) :
    (queue.perform request).2.depth =
      (request.sights ⟨queue.items, queue.polled⟩).foldl max queue.depth := by
  have drained := depth_pollUpTo rfl deep
  cases request with
  | offer item => rfl
  | offerAll items => rfl
  | peek => exact depth_peek deep
  | poll => exact depth_poll deep
  | element => exact depth_peek deep
  | removeHead => exact depth_poll deep
  | isEmpty => exact depth_peek deep
  | size =>
    rw [perform, Prod.map_snd, size_snd]
    exact depth_peek deep
  | clear => exact drained
  | drain => exact drained

structure Mirrors (base : Queue α) (line : Line α) (queue : Queue α) : Prop where
  copy : CopyOf base queue
  items : queue.items = line.items
  polled : queue.polled = line.gone

variable {base latest queue branch : Queue α} {line line' : Line α} {mode : MergeMode}

private theorem Mirrors.eq (mirrors : Mirrors base line queue) :
    line = ⟨queue.items, queue.polled⟩ := by
  rw [mirrors.items, mirrors.polled]

private theorem mirrors_clean (base : Queue α) :
    Mirrors base ⟨base.source.content, 0⟩ (base.copy .clean) :=
  ⟨copyOf_clean base, by simp [Queue.copy, ofObject, Queue.items], rfl⟩

theorem Mirrors.perform (mirrors : Mirrors base line queue) (request : Request α) :
    Mirrors base (request.apply line) (queue.perform request).2 := by
  obtain rfl := mirrors.eq
  refine ⟨(mirrors.copy.perform request).1, items_drop queue request, ?_⟩
  rw [polled_perform, length_polledBy, Request.apply]

private theorem Mirrors.absorbed (branches : Mirrors base line' branch)
    (target : Mirrors base line queue) (copy : CopyOf base (absorbed mode branch queue)) :
    Mirrors base (mode.pick line' line) (absorbed mode branch queue) := by
  cases mode with
  | everything => exact branches
  | readsOnly => exact ⟨copy, target.items, target.polled⟩

/-- Every copy has seen as deep as those that it was taken from, and the innermost one as deep as
any of them ever has. -/
structure Sound (base : Queue α) (told : Told α) (copies : List (Queue α)) : Prop where
  mirrors : List.Forall₂ (Mirrors base) told.lines copies
  nested : copies.Pairwise fun inner outer => outer.Extends inner
  deepest : ∀ inner ∈ copies.head?, inner.depth = deepest told.sights

private theorem deepest_append (sights more : List Nat) :
    deepest (sights ++ more) = more.foldl max (deepest sights) :=
  List.foldl_append

private theorem nested_replace {later : Queue α} {outer : List (Queue α)}
    (ahead : queue.Extends later)
    (nested : (queue :: outer).Pairwise fun inner outer => outer.Extends inner) :
    (later :: outer).Pairwise fun inner outer => outer.Extends inner := by
  obtain ⟨above, rest⟩ := List.pairwise_cons.mp nested
  exact List.pairwise_cons.mpr ⟨fun other member => (above other member).trans ahead, rest⟩

theorem Mirrors.merge (branches : Mirrors base line' branch) (target : Mirrors base line queue)
    (ahead : queue.Extends branch) (mode : MergeMode) :
    branch.merge mode queue = .ok (Queue.absorbed mode branch queue) ∧
      Mirrors base (mode.pick line' line) (Queue.absorbed mode branch queue) ∧
      queue.Extends (Queue.absorbed mode branch queue) ∧
      (Queue.absorbed mode branch queue).depth = branch.depth := by
  obtain ⟨accepted, copy, further⟩ := branches.copy.merge target.copy ahead mode
  refine ⟨accepted, branches.absorbed target copy, further, ?_⟩
  cases mode <;> rfl

theorem Sound.step {told : Told α} {copies : List (Queue α)} (sound : Sound base told copies)
    (step : Step α) : Sound base (told.step step) (stepCopies copies step) := by
  obtain ⟨lines, sights⟩ := told
  obtain ⟨mirrors, nested, deepest⟩ := sound
  cases mirrors with
  | nil => cases step <;> exact ⟨.nil, .nil, nofun⟩
  | @cons line inner lines outer first rest =>
    have depth : inner.depth = Queue.deepest sights := deepest inner rfl
    cases step with
    | ask request =>
      refine ⟨.cons (first.perform request) rest,
        nested_replace (first.copy.perform request).2 nested, ?_⟩
      rintro _ ⟨⟩
      obtain rfl := first.eq
      rw [depth_perform first.copy.deep, depth, ← deepest_append]
      rfl
    | branch =>
      have kept : stepCopies (inner :: outer) .branch = inner :: inner :: outer :=
        congrArg (· :: inner :: outer) first.copy.copy_dirty
      rw [kept]
      refine ⟨.cons first (.cons first rest), List.pairwise_cons.mpr ⟨?_, nested⟩, ?_⟩
      · rintro other (_ | ⟨_, member⟩)
        · exact .refl inner
        · exact (List.pairwise_cons.mp nested).1 other member
      · rintro _ ⟨⟩
        rw [depth, Told.step, Step.sights, List.append_nil]
    | merge mode =>
      cases rest with
      | nil =>
        refine ⟨.cons first .nil, nested, ?_⟩
        rintro _ ⟨⟩
        rw [depth, Told.step, Step.sights, List.append_nil]
      | @cons line' target lines outer second rest =>
        obtain ⟨above, nested⟩ := List.pairwise_cons.mp nested
        obtain ⟨accepted, merged, further, deep⟩ :=
          first.merge second (above target List.mem_cons_self) mode
        have taken : stepCopies (inner :: target :: outer) (.merge mode) =
            Queue.absorbed mode inner target :: outer := by
          rw [stepCopies, Step.run, accepted]
          rfl
        rw [taken]
        refine ⟨.cons merged rest, nested_replace further nested, ?_⟩
        rintro _ ⟨⟩
        rw [deep, depth, Told.step, Step.sights, List.append_nil]

theorem sound_run (base : Queue α) (steps : List (Step α)) :
    Sound base (runLines base.source.content steps) (runCopies base steps) := by
  induction steps using List.reverseRecOn with
  | nil =>
    refine ⟨.cons (mirrors_clean base) .nil, List.pairwise_singleton _ _, ?_⟩
    rintro _ ⟨⟩
    rfl
  | append_singleton steps step ih =>
    rw [runLines, runCopies, List.foldl_concat, List.foldl_concat]
    exact ih.step step

private theorem Mirrors.shows (mirrors : Mirrors base line queue) : Shows base line queue := by
  obtain ⟨source, head, cursor, deep⟩ := mirrors.copy
  rw [← source] at cursor
  refine ⟨fun request => ?_, mirrors.polled, cursor, deep, by omega, source, head⟩
  rw [fst_perform, mirrors.items]

private theorem commit_total (logFree : latest.LogFree) (fresh : Identity) (queue : Queue α) :
    (∃ cause, queue.commit fresh latest = .error (.conflict cause)) ∨
      ∃ next, queue.commit fresh latest = .ok next := by
  unfold commit
  rw [if_neg (by simp [logFree.1, logFree.2])]
  split
  · exact .inl ⟨_, rfl⟩
  split
  · exact .inl ⟨_, rfl⟩
  split
  · exact .inr ⟨_, rfl⟩
  · exact .inr ⟨_, rfl⟩

private theorem accepted_of_calm (logFree : latest.LogFree) (calm : ¬Clash queue latest queue.depth)
    (fresh : Identity) : queue.commit fresh latest = .ok (queue.advanced fresh latest) := by
  rw [Clash, not_or, not_and, not_and, not_not, not_not] at calm
  apply commit_accepted logFree
  intro seen
  exact ⟨(calm.1 (Nat.pos_of_ne_zero seen)).symm, fun beyond => (calm.2 beyond).symm⟩

theorem conflict_iff_clash (logFree : latest.LogFree) (fresh : Identity) (queue : Queue α) :
    (∃ cause, queue.commit fresh latest = .error (.conflict cause)) ↔
      Clash queue latest queue.depth := by
  constructor
  · rintro ⟨cause, refused⟩
    by_contra calm
    rw [accepted_of_calm logFree calm] at refused
    cases refused
  · intro clash
    refine (commit_total logFree fresh queue).resolve_right ?_
    rintro ⟨next, accepted⟩
    obtain ⟨_, unchanged, _⟩ := commit_ok accepted
    rcases clash with ⟨seen, moved⟩ | ⟨beyond, replaced⟩
    · exact moved (unchanged (by omega)).1.symm
    · exact replaced ((unchanged (by omega)).2 beyond).symm

private theorem CopyOf.clash_iff (copy : CopyOf base queue) {depth : Nat} :
    Clash queue latest depth ↔ Clash base latest depth := by
  rw [Clash, Clash, copy.head, copy.source]

private theorem Mirrors.follows (mirrors : Mirrors base line queue) (fresh : Identity) :
    Follows base latest line (queue.advanced fresh latest) := by
  obtain ⟨⟨source, _, cursor, _⟩, items, polled⟩ := mirrors
  have untouched := untouched_advanced fresh queue latest
  have left : (base.source.content.drop queue.cursor).length =
      base.source.content.length - line.gone := by
    rw [List.length_drop, cursor, polled]
    omega
  have tail : queue.tail = line.items.drop (base.source.content.length - line.gone) := by
    rw [← items, Queue.items, source, ← left, List.drop_left]
  have content : (queue.advanced fresh latest).items =
      latest.source.content.drop line.gone ++ queue.tail := by
    rw [untouched.items, content_advanced, polled]
  have fewer : line.items = base.source.content.drop line.gone ++ queue.tail := by
    have kept : base.source.content.drop queue.cursor = base.source.content.drop line.gone := by
      rw [cursor, polled, List.drop_eq_drop_iff]
      omega
    rw [← items, Queue.items, source, kept]
  refine ⟨?_, ?_, tail ▸ content, ?_, ?_, ?_⟩
  · rw [← untouched]
    exact ⟨rfl, rfl⟩
  · rw [← polled]
    unfold advanced
    split
    · next idle =>
      obtain ⟨none, _⟩ : queue.polled = 0 ∧ queue.tail = [] := by simpa using idle
      simp [none, Queue.copy, ofObject]
    · rfl
  · intro same
    rw [content, same, fewer]
  · intro added grown few
    rw [content, grown, List.drop_append_of_le_length few, tail]
  · intro none unchanged
    have empty : queue.tail = [] := by
      rw [none, List.drop_zero, unchanged] at fewer
      exact List.append_right_eq_self.mp fewer.symm
    rw [advanced, polled, none, empty]
    rfl

/-- Whatever a transaction does with a copy of a queue and with branches of that copy, each of them
is to its readers the line of items that the same steps lead to, and every merge is accepted. Once
all branches are merged, a commit is refused exactly if the greatest depth that was looked at is of
a queue that has changed; otherwise the next queue is what the line says. -/
theorem conflicts_by_depth (base : Queue α) (steps : List (Step α)) :
    let copies := runCopies base steps
    let told := runLines base.source.content steps
    List.Forall₂ (Shows base) told.lines copies ∧
      (∀ branch target outer, copies = branch :: target :: outer → ∀ mode,
        ∃ merged, branch.merge mode target = .ok merged) ∧
      ∀ queue, copies = [queue] → ∀ latest : Queue α, latest.LogFree → ∀ fresh,
        ((∃ cause, queue.commit fresh latest = .error (.conflict cause)) ↔
          Clash base latest (deepest told.sights)) ∧
        (¬Clash base latest (deepest told.sights) → ∃ line next, told.lines = [line] ∧
          queue.commit fresh latest = .ok next ∧ Follows base latest line next) := by
  intro copies told
  obtain ⟨mirrors, nested, deepest⟩ := sound_run base steps
  refine ⟨mirrors.imp fun _ _ => Mirrors.shows, ?_, ?_⟩
  · intro branch target outer same mode
    change runCopies base steps = _ at same
    rw [same] at mirrors nested
    obtain ⟨line, lines, first, rest, _⟩ := List.forall₂_cons_right_iff.mp mirrors
    obtain ⟨line', lines, second, _, _⟩ := List.forall₂_cons_right_iff.mp rest
    have ahead := (List.pairwise_cons.mp nested).1 target List.mem_cons_self
    exact ⟨_, (first.merge second ahead mode).1⟩
  · intro queue same latest logFree fresh
    change runCopies base steps = _ at same
    rw [same] at mirrors deepest
    obtain ⟨line, lines, only, rest, found⟩ := List.forall₂_cons_right_iff.mp mirrors
    obtain rfl := List.forall₂_nil_right_iff.mp rest
    have depth : queue.depth = Queue.deepest told.sights := deepest queue rfl
    rw [← depth, ← only.copy.clash_iff]
    refine ⟨conflict_iff_clash logFree fresh queue, fun calm => ?_⟩
    exact ⟨line, _, found, accepted_of_calm logFree calm fresh, only.follows fresh⟩

/-- Two items are polled, and then a branch that is given up looks behind them. -/
def peering : List (Step Nat) :=
  [.ask .poll, .ask (.offer 7), .branch, .ask .removeHead, .branch, .ask .drain, .ask .peek,
    .merge .readsOnly, .ask .size, .merge .readsOnly, .ask .element]

/-- Nobody has polled since, but somebody has offered: the item that stands third now is another
one than the transaction has seen there. -/
theorem conflicts_by_depth_peering :
    let base := Queue.ofItems ⟨0, []⟩ [1, 2]
    let latest := Queue.ofItems ⟨1, []⟩ [1, 2, 3]
    (runLines [1, 2] peering).sights = [1, 2, 3, 3, 2] ∧
      List.Forall₂ (Shows base) (runLines [1, 2] peering).lines (runCopies base peering) ∧
      ∃ queue, runCopies base peering = [queue] ∧
        ∃ cause, queue.commit ⟨2, []⟩ latest = .error (.conflict cause) := by
  obtain ⟨shown, _, commits⟩ := conflicts_by_depth (Queue.ofItems ⟨0, []⟩ [1, 2]) peering
  refine ⟨by decide, shown, _, rfl, ?_⟩
  refine (commits _ rfl (Queue.ofItems ⟨1, []⟩ [1, 2, 3]) ⟨rfl, rfl⟩ ⟨2, []⟩).1.mpr ?_
  exact .inr ⟨by decide, by decide⟩

end TransactionalMemory.Queue
