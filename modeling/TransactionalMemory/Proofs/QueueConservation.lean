import Mathlib.Algebra.GroupWithZero.Nat
import TransactionalMemory.Proofs.Body
import TransactionalMemory.Proofs.History
import TransactionalMemory.Proofs.QueueCopy

/-! Conservation of the items of a queue. Every working copy keeps an account of what it has polled
and offered. Whatever transactions overlap, the items that committed ones polled, followed by
what is left, are the first items followed by those that committed ones offered. -/
namespace TransactionalMemory.Queue
variable {α C : Type}

def Request.offered : Request α → List α
  | .offer item => [item]
  | .offerAll items => items
  | _ => []

/-- The items that a request takes out of a queue, also when its reply does not show them. -/
def polledBy (queue : Queue α) : Request α → List α
  | .poll => queue.poll.1.toList
  | .removeHead => queue.poll.1.toList
  | .clear => queue.drain.1
  | .drain => queue.drain.1
  | _ => []

theorem items_perform (queue : Queue α) (request : Request α) :
    queue.polledBy request ++ (queue.perform request).2.items =
      queue.items ++ request.offered := by
  have split : queue.items.head?.toList ++ queue.items.tail = queue.items := by
    cases queue.items <;> rfl
  cases request <;>
    simp [perform, polledBy, Request.offered, element, removeHead, isEmpty, clear, split]

theorem polled_poll (queue : Queue α) :
    queue.poll.2.polled = queue.polled + queue.poll.1.toList.length := by
  unfold poll
  split <;> rfl

private theorem polled_peek (queue : Queue α) : queue.peek.2.polled = queue.polled := by
  unfold peek
  split <;> rfl

private theorem polled_pollUpTo {queue : Queue α} {limit : Nat}
    (length : queue.items.length = limit) :
    (queue.pollUpTo limit).2.polled = queue.polled + limit := by
  induction limit generalizing queue with
  | zero =>
    have empty := List.eq_nil_of_length_eq_zero length
    simp [pollUpTo, polled_poll, empty]
  | succ limit ih =>
    obtain ⟨item, items, shape⟩ := List.exists_cons_of_length_eq_add_one length
    have head := queue.poll_fst
    have rest := queue.items_poll
    have counted := queue.polled_poll
    rw [shape] at head rest
    unfold pollUpTo
    split
    · next absent => simp [absent] at head
    · next other later found =>
      rw [found] at rest counted
      have shorter : later.items.length = limit := by simp_all
      rw [Prod.map_snd, id, ih shorter, counted]
      simp
      omega

theorem polled_perform (queue : Queue α) (request : Request α) :
    (queue.perform request).2.polled = queue.polled + (queue.polledBy request).length := by
  have drained : queue.drain.2.polled = queue.polled + queue.drain.1.length := by
    rw [drain_fst]
    exact polled_pollUpTo rfl
  cases request with
  | offer item => rfl
  | offerAll items => rfl
  | peek => exact queue.polled_peek
  | poll => exact queue.polled_poll
  | element => exact queue.polled_peek
  | removeHead => exact queue.polled_poll
  | isEmpty => exact queue.polled_peek
  | size =>
    rw [perform, Prod.map_snd, size_snd]
    exact queue.polled_peek
  | clear => exact drained
  | drain => exact drained

/-- A working copy with the items that it has polled and offered so far. What a discarded nested
transaction did is not on the account. -/
structure Account (α : Type) where
  queue : Queue α
  polled : List α
  offered : List α

namespace Account

def ofQueue (start : Queue α) : Account α :=
  ⟨start.copy .clean, [], []⟩

def perform (request : Request α) (account : Account α) : Reply α × Account α :=
  (account.queue.perform request).map id fun queue =>
    ⟨queue, account.polled ++ account.queue.polledBy request, account.offered ++ request.offered⟩

def merge (mode : MergeMode) (branch account : Account α) : Option Failure × Account α :=
  match branch.queue.merge mode account.queue with
  | .error failure => (some failure, account)
  | .ok queue =>
    match mode with
    | .everything => (none, {branch with queue})
    | .readsOnly => (none, {account with queue})

def protocol : Protocol (Account α) (Request α) (Reply α) where
  ask := fun _ => perform
  branch := fun _ account => {account with queue := account.queue.copy .dirty}
  merge := fun _ => merge

/-- What was polled and what is left are what there was and what was offered. -/
structure Balanced (base : Queue α) (account : Account α) : Prop where
  copy : CopyOf base account.queue
  counted : account.polled.length = account.queue.polled
  balance : account.polled ++ account.queue.items = base.source.content ++ account.offered

private theorem balanced_ofQueue (base : Queue α) : (ofQueue base).Balanced base :=
  ⟨copyOf_clean base, rfl, by simp [ofQueue, Queue.copy, ofObject, items]⟩

theorem Balanced.perform {base : Queue α} {account : Account α} (balanced : account.Balanced base)
    (request : Request α) :
    (account.perform request).2.Balanced base ∧
      account.queue.Extends (account.perform request).2.queue := by
  obtain ⟨copy, counted, balance⟩ := balanced
  refine ⟨⟨(copy.perform request).1, ?_, ?_⟩, (copy.perform request).2⟩
  · simp [Account.perform, counted, polled_perform]
  · simp only [Account.perform, Prod.map_snd, List.append_assoc, items_perform]
    simp only [← List.append_assoc, balance]

theorem Balanced.merge {base : Queue α} {branch account : Account α}
    (balanced : branch.Balanced base) (target : account.Balanced base)
    (ahead : account.queue.Extends branch.queue) (mode : MergeMode) :
    (branch.merge mode account).1 = none ∧ (branch.merge mode account).2.Balanced base ∧
      account.queue.Extends (branch.merge mode account).2.queue := by
  obtain ⟨accepted, copy, further⟩ := balanced.copy.merge target.copy ahead mode
  rw [Account.merge, accepted]
  cases mode with
  | everything => exact ⟨rfl, balanced, ahead⟩
  | readsOnly => exact ⟨rfl, ⟨copy, target.counted, target.balance⟩, further⟩

private theorem keeps_balanced (base : Queue α) :
    protocol.Keeps (fun _ _ => True) (fun _ => True) (Balanced base)
      fun account later => account.queue.Extends later.queue where
  child := fun _ _ => trivial
  refl := fun _ => .refl _
  trans := Extends.trans
  ask := fun _ balanced _ => balanced.perform _
  branch := by
    intro _ account _ balanced
    obtain ⟨copy, counted, balance⟩ := balanced
    simp only [protocol, copy.copy_dirty]
    exact ⟨⟨copy, counted, balance⟩, .refl _⟩
  merge := by
    intro _ mode _ _ _ balanced target ahead
    exact balanced.merge target ahead mode

/-- What was balanced against the base is balanced against the latest queue, if what was seen of
the base is still there. -/
theorem Balanced.commit {base latest : Queue α} {account : Account α}
    (balanced : account.Balanced base) (fits : latest.Fits account.queue) (fresh : Identity) :
    account.polled ++ (account.queue.advanced fresh latest).source.content =
      latest.source.content ++ account.offered := by
  obtain ⟨⟨source, _, cursor, deep⟩, counted, balance⟩ := balanced
  rw [Queue.Fits, source] at fits
  rw [items, source, cursor] at balance
  rw [content_advanced]
  by_cases idle : account.queue.polled = 0
  · have none : account.polled = [] := List.eq_nil_of_length_eq_zero (counted.trans idle)
    rw [none, idle] at balance ⊢
    simpa using balance
  obtain ⟨⟨added, kept⟩, past⟩ := fits (by omega)
  by_cases inside : account.queue.polled ≤ base.source.content.length
  · rw [Nat.min_eq_right inside] at balance
    have whole := List.take_append_drop account.queue.polled base.source.content
    have taken : account.polled = base.source.content.take account.queue.polled := by
      have front := congrArg (List.take account.queue.polled) balance
      rwa [List.take_append_of_le_length (by omega), List.take_append_of_le_length inside,
        List.take_of_length_le (by omega)] at front
    have tail : account.queue.tail = account.offered := by
      rw [taken, ← List.append_assoc, whole] at balance
      exact List.append_cancel_left balance
    rw [← kept, List.drop_append_of_le_length inside, taken, tail, ← List.append_assoc,
      ← List.append_assoc, whole]
  · have unchanged := past (by omega)
    rw [← unchanged, List.drop_eq_nil_of_le (by omega)]
    rwa [List.drop_eq_nil_of_le (by omega)] at balance

/-- Runs a body on a clean copy of a published queue. If it asks for a commit, and what it has seen
is still there, the result is published. -/
def publish (attempt : Attempt (Queue α) (Body (Request α) (Reply α) C)) (latest : Queue α) :
    Option (Account α × Queue α) :=
  let ran := attempt.work.run protocol (attempt.seed.child 0) (ofQueue attempt.start)
  match ran.1.ending, ran.2.queue.commit (attempt.seed.child 1) latest with
  | .ok true, .ok next => some (ran.2, next)
  | _, _ => none

private theorem publish_balanced {attempt : Attempt (Queue α) (Body (Request α) (Reply α) C)}
    {latest next : Queue α} {account : Account α}
    (published : publish attempt latest = some (account, next)) :
    account.Balanced attempt.start ∧
      account.queue.commit (attempt.seed.child 1) latest = .ok next := by
  simp only [publish] at published
  split at published
  · next accepted =>
    cases published
    refine ⟨?_, accepted⟩
    exact ((keeps_balanced attempt.start).run attempt.work trivial (balanced_ofQueue _)
      (Trace.all_true _)).1
  · cases published

def polledIn (committed : List (Attempt (Queue α) (Body (Request α) (Reply α) C) × Account α)) :
    List α :=
  committed.flatMap fun commit => commit.2.polled

def offeredIn (committed : List (Attempt (Queue α) (Body (Request α) (Reply α) C) × Account α)) :
    List α :=
  committed.flatMap fun commit => commit.2.offered

/-- The invariant of a history, as long as the counter of polls has not gone round. -/
structure Conserved (source : Object (List α)) (supply : Supply) (latest : Queue α)
    (earlier : List (Queue α))
    (committed : List (Attempt (Queue α) (Body (Request α) (Reply α) C) × Account α)) :
    Prop where
  balance : polledIn committed ++ latest.source.content = source.content ++ offeredIn committed
  untouched : ∀ state ∈ latest :: earlier, state.Untouched
  later : ∀ state ∈ latest :: earlier, Later (polledIn committed).length state latest
  named : ∀ state ∈ latest :: earlier, state.source.identity.origin < supply.next ∨
    ∃ commit ∈ committed, commit.1.seed.origin = state.source.identity.origin

theorem Conserved.commit {source : Object (List α)} {supply : Supply} {latest next : Queue α}
    {earlier : List (Queue α)}
    {committed : List (Attempt (Queue α) (Body (Request α) (Reply α) C) × Account α)}
    {attempt : Attempt (Queue α) (Body (Request α) (Reply α) C)} {account : Account α}
    (conserved : Conserved source supply latest earlier committed)
    (few : (polledIn committed).length < 2 ^ 64) (started : attempt.start ∈ latest :: earlier)
    (unused : History.Unused supply committed attempt.seed)
    (published : publish attempt latest = some (account, next)) :
    Conserved source supply next (latest :: earlier) (committed ++ [(attempt, account)]) := by
  obtain ⟨balance, untouched, later, named⟩ := conserved
  obtain ⟨balanced, accepted⟩ := publish_balanced published
  have fits := (later _ started).fits few balanced.copy accepted
  have result := (commit_ok accepted).2.2
  have polled : (polledIn (committed ++ [(attempt, account)])).length =
      (polledIn committed).length + account.queue.polled := by
    simp [polledIn, balanced.counted]
  refine ⟨?_, ?_, ?_, ?_⟩
  · have moved := balanced.commit fits (attempt.seed.child 1)
    rw [← result] at moved
    simp only [polledIn, offeredIn, List.flatMap_append, List.flatMap_singleton] at balance ⊢
    rw [List.append_assoc, moved, ← List.append_assoc, balance, List.append_assoc]
  · rintro state (_ | ⟨_, old⟩)
    · rw [result]
      exact untouched_advanced _ _ _
    · exact untouched state old
  · rw [polled]
    rintro state (_ | ⟨_, old⟩)
    · exact (Later.refl next).mono (Nat.zero_le _)
    · refine (later state old).commit (fun same => ?_) accepted
      have origin : state.source.identity.origin = attempt.seed.origin := by rw [same]; rfl
      rcases named state old with early | ⟨commit, member, spent⟩
      · exact absurd unused.1 (by omega)
      · exact unused.2 commit member (spent.trans origin)
  · have wider : ∀ state ∈ latest :: earlier, state.source.identity.origin < supply.next ∨
        ∃ commit ∈ committed ++ [(attempt, account)],
          commit.1.seed.origin = state.source.identity.origin := by
      intro state old
      apply (named state old).imp_right
      rintro ⟨commit, member, spent⟩
      exact ⟨commit, List.mem_append_left _ member, spent⟩
    rintro state (_ | ⟨_, old⟩)
    · rw [result, advanced]
      split
      · exact wider latest List.mem_cons_self
      · exact .inr ⟨(attempt, account), by simp, rfl⟩
    · exact wider state old

end Account

/-- Whatever transactions overlap on a queue: the items that the committed ones polled, in the
order of their commits, and then those that are left, are the first items and then those that the
committed ones offered. -/
theorem items_conserved (source : Object (List α)) (polledBefore : UInt64) (supply : Supply)
    (events : List (Event (Body (Request α) (Reply α) C)))
    (known : source.identity.origin < supply.next)
    (few : (Account.polledIn (History.run Account.publish (ofObject source polledBefore) supply
      events).committed).length < 2 ^ 64) :
    let history := History.run Account.publish (ofObject source polledBefore) supply events
    Account.polledIn history.committed ++ history.latest.items =
      source.content ++ Account.offeredIn history.committed := by
  have conserved := History.run_induction Account.publish (ofObject source polledBefore) supply
    (fun latest earlier committed => (Account.polledIn committed).length < 2 ^ 64 →
      Account.Conserved source supply latest earlier committed)
    ?first ?commit events few
  case first =>
    intro _
    constructor <;> simp [Account.polledIn, Account.offeredIn, ofObject, Untouched, Queue.copy,
      Later.refl, known]
  case commit =>
    intro latest earlier committed attempt account next before started unused published few
    have fewer : (Account.polledIn committed).length < 2 ^ 64 := by
      apply Nat.lt_of_le_of_lt _ few
      simp [Account.polledIn]
    exact (before fewer).commit fewer started unused published
  intro history
  have untouched := conserved.untouched _ List.mem_cons_self
  rw [untouched.items]
  exact conserved.balance

/-- Polls past the committed items into what was offered before, also within a nested transaction
that is given up. -/
def overtaking : Body (Request Nat) (Reply Nat) Unit :=
  .ask (.offerAll [3, 4]) fun _ => .ask .poll fun _ =>
    .nest () (.ask .poll fun _ => .ask .poll fun _ => .finish (.ok false)) fun _ _ =>
      .ask .poll fun _ => .nest () (.ask .poll fun _ => .finish (.ok true)) fun _ _ =>
        .finish (.ok true)

def offering : Body (Request Nat) (Reply Nat) Unit :=
  .ask (.offer 5) fun _ => .finish (.ok true)

def overlapping : List (Event (Body (Request Nat) (Reply Nat) Unit)) :=
  [.begin 0 overtaking, .begin 0 offering, .begin 0 overtaking, .finish 0, .finish 0, .finish 0,
    .begin 1 overtaking, .begin 0 overtaking, .finish 1]

theorem items_conserved_overlapping :
    let history := History.run Account.publish (ofObject ⟨⟨0, []⟩, [1, 2]⟩ 0) ⟨1⟩ overlapping
    (Account.polledIn history.committed = [1, 2, 3, 4, 5, 3] ∧ history.latest.items = [4]) ∧
      Account.polledIn history.committed ++ history.latest.items =
        [1, 2] ++ Account.offeredIn history.committed := by
  refine ⟨by decide +kernel, ?_⟩
  exact items_conserved ⟨⟨0, []⟩, [1, 2]⟩ 0 ⟨1⟩ overlapping (by decide) (by decide +kernel)

end TransactionalMemory.Queue
