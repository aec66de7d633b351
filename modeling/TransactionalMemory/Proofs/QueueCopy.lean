import Mathlib.Algebra.GroupWithZero.Nat
import TransactionalMemory.Queue

/-! Working copies of a queue. A copy keeps the committed items and the head that it started from,
its cursor follows from the number of polled items, and its depth only grows. Two copies that
polled and offered the same answer the same, as long as nobody was seen to differ. -/
namespace TransactionalMemory.Queue
variable {α : Type}

structure CopyOf (base queue : Queue α) : Prop where
  source : queue.source = base.source
  head : queue.polledBefore = base.polledBefore
  cursor : queue.cursor = min base.source.content.length queue.polled
  deep : queue.polled ≤ queue.depth

structure Extends (queue later : Queue α) : Prop where
  source : later.source = queue.source
  depth : queue.depth ≤ later.depth

theorem Extends.refl (queue : Queue α) : queue.Extends queue :=
  ⟨rfl, Nat.le_refl _⟩

theorem Extends.trans {queue later last : Queue α} (first : queue.Extends later)
    (second : later.Extends last) : queue.Extends last :=
  ⟨second.source.trans first.source, Nat.le_trans first.depth second.depth⟩

def Untouched (queue : Queue α) : Prop :=
  queue.copy .clean = queue

theorem copyOf_clean (base : Queue α) : CopyOf base (base.copy .clean) :=
  ⟨rfl, rfl, (Nat.min_zero _).symm, Nat.le_refl 0⟩

theorem CopyOf.extends_clean {base queue : Queue α} (copy : CopyOf base queue) :
    (base.copy .clean).Extends queue :=
  ⟨copy.source, Nat.zero_le _⟩

theorem Untouched.copy_eq {queue : Queue α} (untouched : queue.Untouched) (mode : CopyMode) :
    queue.copy mode = queue.copy .clean := by
  cases mode with
  | clean => rfl
  | dirty =>
    rw [← untouched]
    simp [copy, ofObject]

theorem Untouched.items {queue : Queue α} (untouched : queue.Untouched) :
    queue.items = queue.source.content := by
  rw [Untouched, copy, ofObject] at untouched
  rw [← untouched]
  simp [Queue.items]

@[simp] theorem size_snd (queue : Queue α) : queue.size.2 = queue.peek.2 := by
  unfold size
  dsimp only [isEmpty]
  split <;> rfl

private theorem pollUpTo_induction {Holds : Queue α → Prop}
    (poll : ∀ queue : Queue α, Holds queue → Holds queue.poll.2) (limit : Nat) :
    ∀ queue : Queue α, Holds queue → Holds (queue.pollUpTo limit).2 := by
  induction limit with
  | zero => exact fun queue holds => poll queue holds
  | succ limit ih =>
    intro queue holds
    have polled := poll queue holds
    unfold pollUpTo
    split
    · next rest shape => rwa [shape] at polled
    · next item rest shape =>
      rw [shape] at polled
      exact ih rest polled

theorem perform_induction (Holds : Queue α → Prop)
    (offerAll : ∀ (queue : Queue α) items, Holds queue → Holds (queue.offerAll items))
    (peek : ∀ queue : Queue α, Holds queue → Holds queue.peek.2)
    (poll : ∀ queue : Queue α, Holds queue → Holds queue.poll.2)
    (queue : Queue α) (request : Request α) (holds : Holds queue) :
    Holds (queue.perform request).2 := by
  have drain := pollUpTo_induction poll queue.items.length queue holds
  cases request with
  | offer item => exact offerAll queue [item] holds
  | offerAll items => exact offerAll queue items holds
  | peek => exact peek queue holds
  | poll => exact poll queue holds
  | element => exact peek queue holds
  | removeHead => exact poll queue holds
  | isEmpty => exact peek queue holds
  | size =>
    simpa only [perform, Prod.map_snd, id, size_snd] using peek queue holds
  | clear => exact drain
  | drain => exact drain

private theorem CopyOf.peek {base queue : Queue α} (copy : CopyOf base queue) :
    CopyOf base queue.peek.2 ∧ queue.Extends queue.peek.2 := by
  obtain ⟨source, head, cursor, deep⟩ := copy
  unfold Queue.peek
  split
  · exact ⟨⟨source, head, cursor, by dsimp only; omega⟩, rfl, Nat.le_max_left _ _⟩
  · exact ⟨⟨source, head, cursor, by dsimp only; omega⟩, rfl, Nat.le_max_left _ _⟩

private theorem CopyOf.poll {base queue : Queue α} (copy : CopyOf base queue) :
    CopyOf base queue.poll.2 ∧ queue.Extends queue.poll.2 := by
  obtain ⟨source, head, cursor, deep⟩ := copy
  unfold Queue.poll
  split
  · next found =>
    have bound := (List.getElem?_eq_some_iff.mp found).1
    rw [source] at bound
    exact ⟨⟨source, head, by dsimp only; omega, Nat.le_max_right _ _⟩, rfl, Nat.le_max_left _ _⟩
  · next absent _ =>
    have bound := List.getElem?_eq_none_iff.mp absent
    rw [source] at bound
    exact ⟨⟨source, head, by dsimp only; omega, Nat.le_max_right _ _⟩, rfl, Nat.le_max_left _ _⟩
  · exact ⟨⟨source, head, cursor, Nat.le_max_right _ _⟩, rfl, Nat.le_max_left _ _⟩

theorem CopyOf.perform {base queue : Queue α} (copy : CopyOf base queue) (request : Request α) :
    CopyOf base (queue.perform request).2 ∧ queue.Extends (queue.perform request).2 := by
  refine perform_induction (fun later => CopyOf base later ∧ queue.Extends later)
    ?_ ?_ ?_ queue request ⟨copy, .refl queue⟩
  · intro later items holds
    exact ⟨⟨holds.1.source, holds.1.head, holds.1.cursor, holds.1.deep⟩, holds.2.source,
      holds.2.depth⟩
  · intro later holds
    exact ⟨holds.1.peek.1, holds.2.trans holds.1.peek.2⟩
  · intro later holds
    exact ⟨holds.1.poll.1, holds.2.trans holds.1.poll.2⟩

theorem CopyOf.copy_dirty {base queue : Queue α} (copy : CopyOf base queue) :
    queue.copy .dirty = queue := by
  have cursor := copy.cursor
  rw [← copy.source] at cursor
  rw [Queue.copy, ← cursor]

/-- What a target becomes: a branch that has moved on from it takes its place, or only leaves its
log behind. -/
def absorbed (mode : MergeMode) (branch queue : Queue α) : Queue α :=
  match mode with
  | .everything => branch
  | .readsOnly => {queue with depth := branch.depth}

theorem CopyOf.merge {base branch queue : Queue α} (copy : CopyOf base branch)
    (target : CopyOf base queue) (ahead : queue.Extends branch) (mode : MergeMode) :
    branch.merge mode queue = .ok (absorbed mode branch queue) ∧
      CopyOf base (absorbed mode branch queue) ∧ queue.Extends (absorbed mode branch queue) := by
  have same : queue.sameSource branch = true := by simp [sameSource, ahead.source]
  have deeper : max queue.depth branch.depth = branch.depth := Nat.max_eq_right ahead.depth
  cases mode with
  | everything =>
    refine ⟨?_, copy, ahead⟩
    rw [Queue.merge, if_pos same, absorbed, deeper, ← ahead.source, target.head, ← copy.head]
  | readsOnly =>
    refine ⟨?_, ?_, rfl, ahead.depth⟩
    · rw [Queue.merge, if_pos same, absorbed, deeper]
    · exact ⟨target.source, target.head, target.cursor, Nat.le_trans target.deep ahead.depth⟩

/-- Two copies, perhaps of different queues, that have done the same. -/
structure Alike (queue other : Queue α) : Prop where
  tail : other.tail = queue.tail
  polled : other.polled = queue.polled
  depth : other.depth = queue.depth

theorem Alike.refl (queue : Queue α) : queue.Alike queue :=
  ⟨rfl, rfl, rfl⟩

theorem Alike.symm {queue other : Queue α} (alike : queue.Alike other) : other.Alike queue :=
  ⟨alike.tail.symm, alike.polled.symm, alike.depth.symm⟩

theorem Alike.trans {queue other last : Queue α} (first : queue.Alike other)
    (second : other.Alike last) : queue.Alike last :=
  ⟨second.tail.trans first.tail, second.polled.trans first.polled,
    second.depth.trans first.depth⟩

theorem alike_clean (queue other : Queue α) : (queue.copy .clean).Alike (other.copy .clean) :=
  ⟨rfl, rfl, rfl⟩

theorem Alike.absorbed {branch branch' queue other : Queue α} (alike : branch.Alike branch')
    (target : queue.Alike other) (mode : MergeMode) :
    (absorbed mode branch queue).Alike (absorbed mode branch' other) := by
  cases mode with
  | everything => exact alike
  | readsOnly => exact ⟨target.tail, target.polled, alike.depth⟩

theorem CopyOf.eq_of_alike {base queue other : Queue α} (copy : CopyOf base queue)
    (copy' : CopyOf base other) (alike : queue.Alike other) : other = queue := by
  obtain ⟨source, head, cursor, _⟩ := copy
  obtain ⟨source', head', cursor', _⟩ := copy'
  obtain ⟨tail, polled, depth⟩ := alike
  cases queue
  cases other
  simp_all

/-- The committed items that a copy has seen are still there in the latest queue, and if it has
seen their end, then nothing was added either. -/
def Fits (latest queue : Queue α) : Prop :=
  queue.depth ≠ 0 → queue.source.content <+: latest.source.content ∧
    (queue.source.content.length < queue.depth →
      queue.source.content = latest.source.content)

theorem Extends.fits {latest queue later : Queue α} (ahead : queue.Extends later)
    (fits : latest.Fits later) : latest.Fits queue := by
  obtain ⟨source, depth⟩ := ahead
  intro seen
  rw [Fits, source] at fits
  obtain ⟨kept, past⟩ := fits (by omega)
  exact ⟨kept, fun beyond => past (by omega)⟩

theorem Extends.fits_absorbed {latest queue branch : Queue α} (ahead : queue.Extends branch)
    {mode : MergeMode} (fits : latest.Fits (absorbed mode branch queue)) :
    latest.Fits branch := by
  cases mode with
  | everything => exact fits
  | readsOnly =>
    intro seen
    rw [ahead.source]
    exact fits seen

/-- An answer that stays true as long as the head that it tells of is not taken. None that
tells that the queue has come to its end is of this sort. -/
def Protected : Request α → Reply α → Prop
  | .offer _, _ => True
  | .offerAll _, _ => True
  | .peek, .item (some _) => True
  | .poll, .item (some _) => True
  | .element, .demanded (.ok _) => True
  | .removeHead, .demanded (.ok _) => True
  | .isEmpty, .flag false => True
  | _, _ => False

section
variable {base latest queue other : Queue α}

/-- Both copies stand before the same committed item, or both behind the last one. -/
theorem look_alike (copy : CopyOf base queue) (copy' : CopyOf latest other)
    (alike : queue.Alike other) {later : Queue α} (source : later.source = queue.source)
    (deeper : queue.polled < later.depth) (fits : latest.Fits later) :
    other.source.content[other.cursor]? = queue.source.content[queue.cursor]? := by
  obtain ⟨kept, past⟩ := fits (by omega)
  rw [source, copy.source] at kept past
  rw [copy.source, copy'.source, copy.cursor, copy'.cursor, alike.polled]
  by_cases inside : queue.polled < base.source.content.length
  · have longer := kept.length_le
    rw [Nat.min_eq_right (by omega), Nat.min_eq_right (by omega)]
    exact (List.prefix_iff_getElem?.mp kept _ inside).trans
      (List.getElem?_eq_getElem inside).symm
  · rw [past (by omega)]

private theorem peek_alike (copy : CopyOf base queue) (copy' : CopyOf latest other)
    (alike : queue.Alike other) {item : α} (seen : queue.peek.1 = some item)
    (fits : latest.Fits queue.peek.2) :
    other.peek.1 = queue.peek.1 ∧ queue.peek.2.Alike other.peek.2 := by
  have deeper : queue.peek.2.depth = max queue.depth (queue.polled + 1) := by
    rw [peek] at seen ⊢
    split at seen
    · rfl
    · simp at seen
  have look := look_alike copy copy' alike copy.peek.2.source (by omega) fits
  rw [peek, peek, look, alike.tail, alike.polled, alike.depth]
  split <;> exact ⟨rfl, rfl, rfl, rfl⟩

private theorem poll_alike (copy : CopyOf base queue) (copy' : CopyOf latest other)
    (alike : queue.Alike other) {item : α} (seen : queue.poll.1 = some item)
    (fits : latest.Fits queue.poll.2) :
    other.poll.1 = queue.poll.1 ∧ queue.poll.2.Alike other.poll.2 := by
  have deeper : queue.poll.2.depth = max queue.depth (queue.polled + 1) := by
    rw [poll] at seen ⊢
    split at seen
    · rfl
    · rfl
    · simp at seen
  have look := look_alike copy copy' alike copy.poll.2.source (by omega) fits
  rw [poll, poll, look, alike.tail, alike.polled, alike.depth]
  split <;> exact ⟨rfl, rfl, rfl, rfl⟩

theorem perform_alike (copy : CopyOf base queue) (copy' : CopyOf latest other)
    (alike : queue.Alike other) (request : Request α)
    (safe : base = latest ∨
      Protected request (queue.perform request).1 ∧ latest.Fits (queue.perform request).2) :
    (other.perform request).1 = (queue.perform request).1 ∧
      (queue.perform request).2.Alike (other.perform request).2 := by
  rcases safe with rfl | ⟨shown, fits⟩
  · rw [copy.eq_of_alike copy' alike]
    exact ⟨rfl, .refl _⟩
  cases request with
  | offer item => exact ⟨rfl, by simp [perform, offer, alike.tail], alike.polled, alike.depth⟩
  | offerAll items =>
    exact ⟨rfl, by simp [perform, offerAll, alike.tail], alike.polled, alike.depth⟩
  | peek =>
    cases seen : queue.peek.1 with
    | none =>
      change Protected .peek (.item queue.peek.1) at shown
      rw [seen] at shown
      exact shown.elim
    | some item =>
      obtain ⟨same, related⟩ := peek_alike copy copy' alike seen fits
      exact ⟨by simp only [perform, Prod.map_fst, same], related⟩
  | poll =>
    cases seen : queue.poll.1 with
    | none =>
      change Protected .poll (.item queue.poll.1) at shown
      rw [seen] at shown
      exact shown.elim
    | some item =>
      obtain ⟨same, related⟩ := poll_alike copy copy' alike seen fits
      exact ⟨by simp only [perform, Prod.map_fst, same], related⟩
  | element =>
    cases seen : queue.peek.1 with
    | none =>
      change Protected .element (.demanded (queue.peek.1.elim _ _)) at shown
      rw [seen] at shown
      exact shown.elim
    | some item =>
      obtain ⟨same, related⟩ := peek_alike copy copy' alike seen fits
      exact ⟨by simp only [perform, element, Prod.map_fst, same], related⟩
  | removeHead =>
    cases seen : queue.poll.1 with
    | none =>
      change Protected .removeHead (.demanded (queue.poll.1.elim _ _)) at shown
      rw [seen] at shown
      exact shown.elim
    | some item =>
      obtain ⟨same, related⟩ := poll_alike copy copy' alike seen fits
      exact ⟨by simp only [perform, removeHead, Prod.map_fst, same], related⟩
  | isEmpty =>
    cases seen : queue.peek.1 with
    | none =>
      change Protected .isEmpty (.flag queue.peek.1.isNone) at shown
      rw [seen] at shown
      exact shown.elim
    | some item =>
      obtain ⟨same, related⟩ := peek_alike copy copy' alike seen fits
      exact ⟨by simp only [perform, isEmpty, Prod.map_fst, same], related⟩
  | size => exact shown.elim
  | clear => exact shown.elim
  | drain => exact shown.elim

end

/-- What the latest queue is after a copy with these polls and offers was committed. -/
def advanced (fresh : Identity) (queue latest : Queue α) : Queue α :=
  if queue.polled = 0 && queue.tail.isEmpty then latest.copy .clean
  else ofObject ⟨fresh, latest.source.content.drop queue.polled ++ queue.tail⟩
    (latest.polledBefore + UInt64.ofNat queue.polled)

theorem commit_ok {fresh : Identity} {queue latest next : Queue α}
    (accepted : queue.commit fresh latest = .ok next) :
    (latest.depth = 0 ∧ latest.tail = []) ∧
      (queue.depth ≠ 0 → queue.polledBefore = latest.polledBefore ∧
        (queue.source.content.length < queue.depth →
          queue.source.identity = latest.source.identity)) ∧
      next = queue.advanced fresh latest := by
  unfold commit at accepted
  split at accepted
  · cases accepted
  next settled =>
  split at accepted
  · cases accepted
  next head =>
  split at accepted
  · cases accepted
  next source =>
  have result : next = queue.advanced fresh latest := by
    unfold advanced
    split at accepted <;> cases accepted <;> simp_all
  refine ⟨by simpa using settled, fun seen => ⟨?_, fun beyond => ?_⟩, result⟩
  · simpa [sameHead, seen] using head
  · simpa [sameSource, seen, beyond] using source

theorem commit_accepted {fresh : Identity} {queue latest : Queue α}
    (settled : latest.depth = 0 ∧ latest.tail = [])
    (unchanged : queue.depth ≠ 0 → queue.polledBefore = latest.polledBefore ∧
      (queue.source.content.length < queue.depth →
        queue.source.identity = latest.source.identity)) :
    queue.commit fresh latest = .ok (queue.advanced fresh latest) := by
  have head : (queue.depth ≠ 0 && !queue.sameHead latest) = false := by
    by_cases unseen : queue.depth = 0
    · simp [unseen]
    · simp [sameHead, (unchanged unseen).1]
  have tail : (queue.depth ≠ 0 && queue.source.content.length < queue.depth
      && !queue.sameSource latest) = false := by
    by_cases beyond : queue.depth ≠ 0 ∧ queue.source.content.length < queue.depth
    · simp [sameSource, (unchanged beyond.1).2 beyond.2]
    · simp at beyond ⊢
      intro seen deeper
      exact absurd (beyond seen) (Nat.not_le_of_lt deeper)
  rw [commit, advanced, settled.1, settled.2, head, tail]
  simp only [ne_eq, not_true_eq_false, decide_false, List.isEmpty_nil, Bool.not_true,
    Bool.or_self, Bool.false_eq_true, if_false]
  split <;> rfl

theorem commit_of_copy {fresh : Identity} {queue latest : Queue α}
    (settled : latest.depth = 0 ∧ latest.tail = []) (copy : CopyOf latest queue) :
    queue.commit fresh latest = .ok (queue.advanced fresh latest) :=
  commit_accepted settled fun _ =>
    ⟨copy.head, fun _ => congrArg Object.identity copy.source⟩

theorem commit_alike {fresh : Identity} {queue other latest next : Queue α}
    (accepted : queue.commit fresh latest = .ok next) (copy : CopyOf latest other)
    (alike : queue.Alike other) : other.commit fresh latest = .ok next := by
  obtain ⟨settled, _, rfl⟩ := commit_ok accepted
  rw [commit_of_copy settled copy, advanced, advanced, alike.polled, alike.tail]

theorem untouched_advanced (fresh : Identity) (queue latest : Queue α) :
    (queue.advanced fresh latest).Untouched := by
  unfold advanced
  split <;> rfl

theorem content_advanced (fresh : Identity) (queue latest : Queue α) :
    (queue.advanced fresh latest).source.content =
      latest.source.content.drop queue.polled ++ queue.tail := by
  unfold advanced
  split
  · next idle =>
    obtain ⟨none, empty⟩ : queue.polled = 0 ∧ queue.tail = [] := by simpa using idle
    simp [Queue.copy, ofObject, none, empty]
  · rfl

/-- The latest queue came out of the base by at most so many polls and any number of offers, and
no other items go by the identity of the base. -/
structure Later (polls : Nat) (base latest : Queue α) : Prop where
  same : base.source.identity = latest.source.identity →
    base.source.content = latest.source.content
  moved : ∃ polled ≤ polls, latest.polledBefore = base.polledBefore + UInt64.ofNat polled ∧
    (polled = 0 → base.source.content <+: latest.source.content)

theorem Later.refl (queue : Queue α) : Later 0 queue queue :=
  ⟨fun _ => rfl, 0, Nat.le_refl 0, by simp, fun _ => List.prefix_rfl⟩

theorem Later.mono {polls more : Nat} {base latest : Queue α} (later : Later polls base latest)
    (bound : polls ≤ more) : Later more base latest := by
  obtain ⟨same, polled, few, moved⟩ := later
  exact ⟨same, polled, Nat.le_trans few bound, moved⟩

/-- The counter of polled items tells heads apart as long as it has not gone all the way round. -/
theorem Later.prefix_of_head {polls : Nat} {base latest : Queue α}
    (later : Later polls base latest) (bound : polls < 2 ^ 64)
    (head : base.polledBefore = latest.polledBefore) :
    base.source.content <+: latest.source.content := by
  obtain ⟨_, polled, few, moved, kept⟩ := later
  apply kept
  have words := congrArg UInt64.toNat (head.trans moved)
  rw [UInt64.toNat_add, UInt64.toNat_ofNat'] at words
  have range := base.polledBefore.toNat_lt
  omega

theorem Later.fits {polls : Nat} {fresh : Identity} {base queue latest next : Queue α}
    (later : Later polls base latest) (bound : polls < 2 ^ 64) (copy : CopyOf base queue)
    (accepted : queue.commit fresh latest = .ok next) : latest.Fits queue := by
  obtain ⟨_, unchanged, _⟩ := commit_ok accepted
  intro seen
  obtain ⟨head, past⟩ := unchanged seen
  rw [copy.head] at head
  rw [copy.source] at past ⊢
  exact ⟨later.prefix_of_head bound head, fun beyond => later.same (past beyond)⟩

theorem Later.commit {polls : Nat} {fresh : Identity} {base queue latest next : Queue α}
    (later : Later polls base latest) (apart : base.source.identity ≠ fresh)
    (accepted : queue.commit fresh latest = .ok next) :
    Later (polls + queue.polled) base next := by
  obtain ⟨_, _, rfl⟩ := commit_ok accepted
  unfold advanced
  split
  · exact Later.mono ⟨later.same, later.moved⟩ (Nat.le_add_right _ _)
  · obtain ⟨_, polled, few, moved, kept⟩ := later
    refine ⟨fun same => absurd same apart, polled + queue.polled, by omega, ?_, ?_⟩
    · simp [ofObject, moved, UInt64.add_assoc]
    · intro none
      obtain ⟨first, second⟩ : polled = 0 ∧ queue.polled = 0 := by omega
      simp only [ofObject, second, List.drop_zero]
      exact (kept first).trans (List.prefix_append _ _)

private theorem pollUpTo_length {queue : Queue α} {limit : Nat}
    (length : queue.items.length = limit) :
    (queue.pollUpTo limit).1 = queue.items ∧ (queue.pollUpTo limit).2.items = [] := by
  induction limit generalizing queue with
  | zero =>
    have empty := List.eq_nil_of_length_eq_zero length
    simp [pollUpTo, empty]
  | succ limit ih =>
    obtain ⟨item, items, shape⟩ := List.exists_cons_of_length_eq_add_one length
    have head := queue.poll_fst
    have rest := queue.items_poll
    rw [shape] at head rest
    unfold pollUpTo
    split
    · next absent => simp [absent] at head
    · next other later found =>
      rw [found] at head rest
      obtain rfl : other = item := by simpa using head
      have shorter : later.items.length = limit := by simp_all
      obtain ⟨drained, empty⟩ := ih shorter
      exact ⟨by simp [drained, shape, rest], empty⟩

@[simp] theorem drain_fst (queue : Queue α) : queue.drain.1 = queue.items :=
  (pollUpTo_length rfl).1

@[simp] theorem items_drain (queue : Queue α) : queue.drain.2.items = [] :=
  (pollUpTo_length rfl).2

end TransactionalMemory.Queue
