import TransactionalMemory.Failure
import TransactionalMemory.Identity
import TransactionalMemory.Protocol

/-! A first-in first-out queue. The committed items are never touched; a cursor walks over them
and polling goes on into the items offered locally. The log is the greatest depth that was seen,
and the head is recognised by the number of items ever polled, a word that wraps around. -/
namespace TransactionalMemory

/-- The counts of one copy are words of 64 bits as well. They are kept as natural numbers, which
agree with the words as long as the copy is asked for fewer than 2 ^ 64 items. -/
structure Queue (α : Type) where
  source : Object (List α)
  polledBefore : UInt64
  cursor : Nat
  tail : List α
  polled : Nat
  depth : Nat

namespace Queue
variable {α : Type}

def ofObject (source : Object (List α)) (polledBefore : UInt64) : Queue α :=
  ⟨source, polledBefore, 0, [], 0, 0⟩

def ofItems (identity : Identity) (items : List α) : Queue α :=
  ofObject ⟨identity, items⟩ 0

/-- The items as a reader sees them, head first. -/
def items (queue : Queue α) : List α :=
  queue.source.content.drop queue.cursor ++ queue.tail

def offer (item : α) (queue : Queue α) : Queue α :=
  {queue with tail := queue.tail ++ [item]}

def offerAll (items : List α) (queue : Queue α) : Queue α :=
  {queue with tail := queue.tail ++ items}

/-- Seeing an item deepens the log by one beyond what was polled; seeing none does not, so that
an empty queue may grow meanwhile. -/
def peek (queue : Queue α) : Option α × Queue α :=
  match (queue.source.content[queue.cursor]?).or queue.tail.head? with
  | some item => (some item, {queue with depth := max queue.depth (queue.polled + 1)})
  | none => (none, {queue with depth := max queue.depth queue.polled})

def poll (queue : Queue α) : Option α × Queue α :=
  match queue.source.content[queue.cursor]?, queue.tail with
  | some item, _ => (some item, {queue with
      cursor := queue.cursor + 1, polled := queue.polled + 1,
      depth := max queue.depth (queue.polled + 1)})
  | none, item :: tail => (some item, {queue with
      tail := tail, polled := queue.polled + 1, depth := max queue.depth (queue.polled + 1)})
  | none, [] => (none, {queue with depth := max queue.depth queue.polled})

@[simp] theorem items_offer (item : α) (queue : Queue α) :
    (queue.offer item).items = queue.items ++ [item] := by
  simp [offer, items]

@[simp] theorem items_offerAll (items : List α) (queue : Queue α) :
    (queue.offerAll items).items = queue.items ++ items := by
  simp [offerAll, Queue.items]

theorem head?_items (queue : Queue α) :
    queue.items.head? = (queue.source.content[queue.cursor]?).or queue.tail.head? := by
  simp [items, List.head?_append, List.head?_drop]

@[simp] theorem peek_fst (queue : Queue α) : queue.peek.1 = queue.items.head? := by
  rw [head?_items, peek]
  split
  · next item found => exact found.symm
  · next absent => exact absent.symm

@[simp] theorem items_peek (queue : Queue α) : queue.peek.2.items = queue.items := by
  unfold peek
  split <;> rfl

@[simp] theorem poll_fst (queue : Queue α) : queue.poll.1 = queue.items.head? := by
  rw [head?_items, poll]
  split <;> simp_all

@[simp] theorem items_poll (queue : Queue α) : queue.poll.2.items = queue.items.tail := by
  have past (absent : queue.source.content[queue.cursor]? = none) :
      queue.source.content.drop queue.cursor = [] := by
    simpa using absent
  unfold poll
  split
  · next item _ present =>
    obtain ⟨bound, _⟩ := List.getElem?_eq_some_iff.mp present
    simp only [items]
    rw [List.drop_eq_getElem_cons bound]
    rfl
  · next absent shape => simp [items, past absent, shape]
  · next absent shape => simp [items, past absent, shape]

def element (queue : Queue α) : Except Failure α × Queue α :=
  queue.peek.map (·.elim (.error (.breach .queueEmpty)) .ok) id

def removeHead (queue : Queue α) : Except Failure α × Queue α :=
  queue.poll.map (·.elim (.error (.breach .queueEmpty)) .ok) id

def isEmpty (queue : Queue α) : Bool × Queue α :=
  queue.peek.map Option.isNone id

def size (queue : Queue α) : Nat × Queue α :=
  let (empty, peeked) := queue.isEmpty
  if empty then (0, peeked)
  else (peeked.source.content.length - peeked.cursor + peeked.tail.length, peeked)

/-- Polls up to `limit` items and once more, unless the queue ran empty before. -/
def pollUpTo (queue : Queue α) : (limit : Nat) → List α × Queue α
  | 0 => ([], queue.poll.2)
  | limit + 1 =>
    match queue.poll with
    | (none, rest) => ([], rest)
    | (some item, rest) => (rest.pollUpTo limit).map (item :: ·) id

def drain (queue : Queue α) : List α × Queue α :=
  queue.pollUpTo queue.items.length

def clear (queue : Queue α) : Queue α :=
  queue.drain.2

inductive Request (α : Type) where
  | offer (item : α)
  | offerAll (items : List α)
  | peek
  | poll
  | element
  | removeHead
  | isEmpty
  | size
  | clear
  | drain

inductive Reply (α : Type) where
  | item (found : Option α)
  | demanded (found : Except Failure α)
  | flag (truth : Bool)
  | count (number : Nat)
  | items (all : List α)
  | done

def perform (queue : Queue α) : Request α → Reply α × Queue α
  | .offer item => (.done, queue.offer item)
  | .offerAll items => (.done, queue.offerAll items)
  | .peek => queue.peek.map .item id
  | .poll => queue.poll.map .item id
  | .element => queue.element.map .demanded id
  | .removeHead => queue.removeHead.map .demanded id
  | .isEmpty => queue.isEmpty.map .flag id
  | .size => queue.size.map .count id
  | .clear => (.done, queue.clear)
  | .drain => queue.drain.map .items id

/-- A dirty copy finds its cursor again from the number of polled items. -/
def copy (queue : Queue α) : CopyMode → Queue α
  | .clean => ofObject queue.source queue.polledBefore
  | .dirty => {queue with cursor := min queue.source.content.length queue.polled}

def sameHead (queue other : Queue α) : Bool :=
  queue.polledBefore = other.polledBefore

def sameSource (queue other : Queue α) : Bool :=
  queue.source.identity = other.source.identity

def merge (mode : MergeMode) (branch queue : Queue α) : Except Failure (Queue α) :=
  if queue.sameSource branch then
    let seen := {queue with depth := max queue.depth branch.depth}
    match mode with
    | .readsOnly => .ok seen
    | .everything => .ok {seen with
        cursor := branch.cursor, tail := branch.tail, polled := branch.polled}
  else .error (.breach .foreignCollection)

/-- Two queues with the same number of polled items have the same head; the committed items that
follow were only read past their end if the depth exceeds them. -/
def commit (fresh : Identity) (queue latest : Queue α) : Except Failure (Queue α) :=
  if latest.depth ≠ 0 || !latest.tail.isEmpty then .error (.misuse .queueUncommitted)
  else if queue.depth ≠ 0 && !queue.sameHead latest then .error (.conflict .headTaken)
  else if queue.depth ≠ 0 && queue.source.content.length < queue.depth
      && !queue.sameSource latest then
    .error (.conflict .tailChanged)
  else if queue.polled = 0 && queue.tail.isEmpty then .ok (latest.copy .clean)
  else .ok (ofObject ⟨fresh, latest.source.content.drop queue.polled ++ queue.tail⟩
    (latest.polledBefore + UInt64.ofNat queue.polled))

end Queue
end TransactionalMemory
