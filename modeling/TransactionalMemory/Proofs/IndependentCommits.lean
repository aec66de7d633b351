import TransactionalMemory.Proofs.CommittedState
import TransactionalMemory.Proofs.LoggedWrites

/-! Commits that commute. Two transactions that began on the same state are independent if neither
accesses what the other writes; of a queue that both have touched, one may add items while the other
looks at committed ones and takes them. Neither then makes the other be refused, and what is
published does not tell in which order they were committed. -/
namespace TransactionalMemory

namespace Cell
variable {α : Type} {marks : Object α → Prop} {base one other : Cell α}

/-- Neither accesses a cell that the other writes. -/
def Independent (one other : Cell α) : Prop :=
  (one.updated = true → other.accessed = false) ∧ (other.updated = true → one.accessed = false)

theorem Independent.symm (independent : one.Independent other) : other.Independent one :=
  And.symm independent

private theorem Independent.idle (independent : one.Independent other)
    (seen : other.accessed = true) : one.Idle := by
  cases updated : one.updated with
  | false => exact updated
  | true =>
    have unseen := independent.1 updated
    rw [seen] at unseen
    cases unseen

theorem Independent.commit (independent : one.Independent other) (settled : base.Untouched)
    (copy : CopyOf marks base other) :
    other.commit (one.advanced base) = .ok (other.advanced (one.advanced base)) := by
  apply commit_accepted (untouched_advanced one base).accessed
  intro seen
  rw [(independent.idle seen).advanced settled, copy.source]

theorem Independent.advanced (independent : one.Independent other) (logged : other.Logged)
    (settled : base.Untouched) :
    other.advanced (one.advanced base) = one.advanced (other.advanced base) := by
  cases updated : other.updated with
  | false =>
    have idle : other.Idle := updated
    rw [idle.advanced (untouched_advanced one base), idle.advanced settled]
  | true =>
    have idle := independent.idle (logged updated)
    rw [idle.advanced (untouched_advanced other base), idle.advanced settled]

theorem Independent.interchange (independent : one.Independent other) (settled : base.Untouched)
    (copy : CopyOf marks base one) (copy' : CopyOf marks base other) (logged : other.Logged) :
    ∃ next last next', one.commit base = .ok next ∧ other.commit next = .ok last ∧
      other.commit base = .ok next' ∧ one.commit next' = .ok last := by
  have backwards := independent.symm.commit settled copy
  rw [← independent.advanced logged settled] at backwards
  exact ⟨_, _, _, commit_of_copy settled.accessed copy, independent.commit settled copy',
    commit_of_copy settled.accessed copy', backwards⟩

end Cell

namespace Table
variable {K V : Type} [Ord K] [Std.TransOrd K] {marks : Object V → Prop} {clearing : Prop}
  {base latest table one other : Table K V} {key : K}

/-- Neither accesses a key that the other writes. After a clear, every committed key is both
written and accessed. -/
def Independent (one other : Table K V) : Prop :=
  ∀ key, ¬(one.Writes key ∧ other.Accesses key) ∧ ¬(other.Writes key ∧ one.Accesses key)

theorem Independent.symm (independent : one.Independent other) : other.Independent one :=
  fun key => And.symm (independent key)

private theorem idle_of_unwritten (unwritten : ∀ key, ¬table.Writes key) : table.Idle := by
  constructor
  · exact Std.ExtTreeMap.eq_empty_iff_forall_not_mem.mpr fun key => mt .inl (unwritten key)
  · exact Std.ExtTreeSet.eq_empty_iff_forall_not_mem.mpr fun key => mt .inr (unwritten key)

variable [Std.LawfulEqOrd K]

theorem Untouched.entries (untouched : table.Untouched) : table.entries = table.source.content := by
  rw [← untouched]
  exact entries_ofObject table.source

theorem advanced_unwritten (unwritten : ¬table.Writes key) (fresh : Identity) :
    (table.advanced fresh latest).source.content[key]? = latest.source.content[key]? := by
  obtain ⟨absent, kept⟩ := not_or.mp unwritten
  rw [content_advanced, lookup, if_neg kept, Std.ExtTreeMap.getElem?_eq_none absent, Option.none_or]

/-- Under a key that is written, the latest entry makes no difference. -/
theorem advanced_written {latest' : Table K V} (written : table.Writes key)
    (fresh fresh' : Identity) :
    (table.advanced fresh latest).source.content[key]? =
      (table.advanced fresh' latest').source.content[key]? := by
  rw [content_advanced, content_advanced, lookup, lookup]
  split
  · rfl
  · next kept =>
    have present : key ∈ table.modified := written.resolve_right kept
    rw [Std.ExtTreeMap.getElem?_eq_some_getElem present]
    rfl

theorem Independent.commit (independent : one.Independent other) (settled : base.Untouched)
    (copy : CopyOf marks clearing base other) (fresh fresh' : Identity) :
    other.commit fresh' (one.advanced fresh base) =
      .ok (other.advanced fresh' (one.advanced fresh base)) := by
  apply commit_accepted (untouched_advanced fresh one base).hasLog
  · intro whole
    have idle := idle_of_unwritten fun key written => (independent key).1 ⟨written, .inl whole⟩
    rw [idle.advanced settled, copy.source]
    exact .inl rfl
  · intro key seen
    have unwritten : ¬one.Writes key := fun written => (independent key).1 ⟨written, .inr seen⟩
    rw [Entries.identity?, Entries.identity?, advanced_unwritten unwritten, copy.source]

theorem Independent.advanced (independent : one.Independent other) (logged : other.Logged)
    (first second first' second' : Identity) :
    (other.advanced second (one.advanced first base)).entries =
      (one.advanced first' (other.advanced second' base)).entries := by
  rw [(untouched_advanced _ _ _).entries, (untouched_advanced _ _ _).entries]
  apply Std.ExtTreeMap.ext_getElem?
  intro key
  by_cases written : other.Writes key
  · have unwritten : ¬one.Writes key := fun both => (independent key).1 ⟨both, logged key written⟩
    rw [advanced_unwritten unwritten, advanced_written written second second']
  · rw [advanced_unwritten written]
    by_cases written' : one.Writes key
    · exact advanced_written written' first first'
    · rw [advanced_unwritten written', advanced_unwritten written', advanced_unwritten written]

theorem Independent.interchange (independent : one.Independent other) (settled : base.Untouched)
    (copy : CopyOf marks clearing base one) (copy' : CopyOf marks clearing base other)
    (logged : other.Logged) (first second first' second' : Identity) :
    ∃ next last next' last',
      one.commit first base = .ok next ∧ other.commit second next = .ok last ∧
      other.commit second' base = .ok next' ∧ one.commit first' next' = .ok last' ∧
      last.entries = last'.entries :=
  ⟨_, _, _, _, commit_of_copy settled.hasLog copy, independent.commit settled copy' first second,
    commit_of_copy settled.hasLog copy', independent.symm.commit settled copy second' first',
    independent.advanced logged first second first' second'⟩

private theorem advanced_entries (fresh fresh' : Identity) (table latest : Table K V) :
    (table.advanced fresh latest).entries = (table.advanced fresh' latest).entries := by
  rw [(untouched_advanced _ _ _).entries, (untouched_advanced _ _ _).entries]
  apply Std.ExtTreeMap.ext_getElem?
  intro key
  rw [content_advanced, content_advanced]

end Table

namespace Queue
variable {α : Type} {base one other queue latest : Queue α}

/-- Nothing was looked at and nothing was taken. -/
def OnlyOffers (queue : Queue α) : Prop :=
  queue.depth = 0 ∧ queue.polled = 0

/-- Nothing was added, and nothing but committed items was looked at or taken. -/
def StaysWithin (queue : Queue α) : Prop :=
  queue.depth ≤ queue.source.content.length ∧ queue.tail = []

/-- Only one has touched the queue, or both have only looked at it, or one has only added items and
the other has kept to the committed ones. -/
def Independent (one other : Queue α) : Prop :=
  (one.Untouched ∨ other.Untouched) ∨ (one.Idle ∧ other.Idle) ∨
    (one.OnlyOffers ∧ other.StaysWithin) ∨ (one.StaysWithin ∧ other.OnlyOffers)

theorem Independent.symm (independent : one.Independent other) : other.Independent one := by
  rcases independent with alone | ⟨idle, idle'⟩ | ⟨offers, within⟩ | ⟨within, offers⟩
  · exact .inl alone.symm
  · exact .inr (.inl ⟨idle', idle⟩)
  · exact .inr (.inr (.inr ⟨within, offers⟩))
  · exact .inr (.inr (.inl ⟨offers, within⟩))

private theorem Untouched.unseen (untouched : queue.Untouched) : queue.depth = 0 := by
  rw [← untouched]
  rfl

private theorem Untouched.settled (untouched : queue.Untouched) :
    queue.depth = 0 ∧ queue.tail = [] := by
  rw [← untouched]
  exact ⟨rfl, rfl⟩

private theorem polledBefore_advanced (fresh : Identity) (queue latest : Queue α) :
    (queue.advanced fresh latest).polledBefore =
      latest.polledBefore + UInt64.ofNat queue.polled := by
  unfold advanced
  split
  · next idle =>
    rw [Bool.and_eq_true, decide_eq_true_eq] at idle
    simp [copy, ofObject, idle.1]
  · rfl

theorem Independent.commit (independent : one.Independent other) (settled : base.Untouched)
    (copy : CopyOf base other) (fresh fresh' : Identity) :
    other.commit fresh' (one.advanced fresh base) =
      .ok (other.advanced fresh' (one.advanced fresh base)) := by
  apply commit_accepted (untouched_advanced fresh one base).settled
  intro seen
  have unmoved (idle : one.Idle) : other.polledBefore = (one.advanced fresh base).polledBefore ∧
      (other.source.content.length < other.depth →
        other.source.identity = (one.advanced fresh base).source.identity) := by
    rw [idle.advanced settled, copy.head, copy.source]
    exact ⟨rfl, fun _ => rfl⟩
  rcases independent with (alone | alone) | ⟨idle, _⟩ | ⟨offers, within⟩ | ⟨_, offers⟩
  · exact unmoved (alone.idle rfl)
  · exact absurd alone.unseen seen
  · exact unmoved idle
  · constructor
    · rw [polledBefore_advanced, offers.2, copy.head]
      simp
    · exact fun beyond => absurd within.1 (Nat.not_le_of_lt beyond)
  · exact absurd offers.1 seen

/-- Adding at the end and taking committed items at the head go together. -/
theorem content_apart (offers : one.OnlyOffers) (within : other.StaysWithin)
    (copy : CopyOf base other) (first second first' second' : Identity) :
    (other.advanced second (one.advanced first base)).source.content =
      (one.advanced first' (other.advanced second' base)).source.content := by
  have inside : other.polled ≤ base.source.content.length := by
    rw [← copy.source]
    exact Nat.le_trans copy.deep within.1
  simp only [content_advanced, offers.2, within.2, List.drop_zero, List.append_nil]
  rw [List.drop_append_of_le_length inside]

theorem Independent.advanced (independent : one.Independent other) (copy : CopyOf base one)
    (copy' : CopyOf base other) (first second first' second' : Identity) :
    (other.advanced second (one.advanced first base)).items =
        (one.advanced first' (other.advanced second' base)).items ∧
      (other.advanced second (one.advanced first base)).polledBefore =
        (one.advanced first' (other.advanced second' base)).polledBefore := by
  rw [(untouched_advanced _ _ _).items, (untouched_advanced _ _ _).items]
  constructor
  · have still (idle : one.Idle ∨ other.Idle) :
        (other.advanced second (one.advanced first base)).source.content =
          (one.advanced first' (other.advanced second' base)).source.content := by
      rcases idle with idle | idle <;>
        simp only [content_advanced, idle.1, idle.2, List.drop_zero, List.append_nil]
    rcases independent with (alone | alone) | ⟨idle, _⟩ | ⟨offers, within⟩ | ⟨within, offers⟩
    · exact still (.inl (alone.idle rfl))
    · exact still (.inr (alone.idle rfl))
    · exact still (.inl idle)
    · exact content_apart offers within copy' first second first' second'
    · exact (content_apart offers within copy second' first' second first).symm
  · simp only [polledBefore_advanced, UInt64.add_assoc]
    rw [UInt64.add_comm (UInt64.ofNat one.polled)]

theorem Independent.interchange (independent : one.Independent other) (settled : base.Untouched)
    (copy : CopyOf base one) (copy' : CopyOf base other)
    (first second first' second' : Identity) :
    ∃ next last next' last',
      one.commit first base = .ok next ∧ other.commit second next = .ok last ∧
      other.commit second' base = .ok next' ∧ one.commit first' next' = .ok last' ∧
      last.items = last'.items ∧ last.polledBefore = last'.polledBefore :=
  ⟨_, _, _, _, commit_of_copy settled.settled copy, independent.commit settled copy' first second,
    commit_of_copy settled.settled copy', independent.symm.commit settled copy second' first',
    independent.advanced copy copy' first second first' second'⟩

private theorem advanced_items (fresh fresh' : Identity) (queue latest : Queue α) :
    (queue.advanced fresh latest).items = (queue.advanced fresh' latest).items ∧
      (queue.advanced fresh latest).polledBefore =
        (queue.advanced fresh' latest).polledBefore := by
  rw [(untouched_advanced _ _ _).items, (untouched_advanced _ _ _).items, content_advanced,
    content_advanced, polledBefore_advanced, polledBefore_advanced]
  exact ⟨rfl, rfl⟩

end Queue
namespace Entity
variable {guard guard' : Guard} {base entity one other : Entity}

def independentLinks : Links where
  cell := Cell.Independent
  table := Table.Independent
  multimap := fun one other => one.table.Independent other.table
  queue := Queue.Independent
  rule := fun _ _ => True
  slot := fun one other related => one.accessed = true → other.accessed = true → related
  timestamp := fun _ _ => True
  globals := Table.Independent

/-- Of no part that both have reached, one accesses what the other writes. -/
abbrev Independent : (one other : Entity) → Prop :=
  Relates independentLinks

def shownLinks : Links where
  cell := Eq
  table := fun inner other => inner.entries = other.entries
  multimap := fun inner other => inner.table.entries = other.table.entries
  queue := fun inner other => inner.items = other.items ∧ inner.polledBefore = other.polledBefore
  rule := fun _ _ => True
  slot := fun _ _ related => related
  timestamp := Eq
  globals := fun inner other => inner.entries = other.entries

/-- The two show the same: the same objects in cells and under keys, the same items and as many
polled before. -/
abbrev SameShown : (entity other : Entity) → Prop :=
  Relates shownLinks

private theorem reflexive_shown : shownLinks.Reflexive where
  cell := fun _ => rfl
  table := fun _ => rfl
  multimap := fun _ => rfl
  queue := fun _ => ⟨rfl, rfl⟩
  rule := fun _ => trivial
  slot := fun _ _ => id
  timestamp := fun _ => rfl
  globals := fun _ => rfl

theorem SameShown.refl (entity : Entity) : SameShown entity entity :=
  reflexive_shown.relates entity

/-- The copy can be committed, and what that shows does not depend on the names of new objects. -/
def Commits (base entity : Entity) : Prop :=
  ∀ fresh fresh' : Identity, ∃ next next', entity.commit fresh base = .ok next ∧
    entity.commit fresh' base = .ok next' ∧ SameShown next next'

private theorem commitsSlots_of_copy {bases slots : List (Slot Entity)}
    (inside : ∀ base ∈ bases, ∀ entity, CopyOf guard base.content entity →
      Commits base.content entity)
    (copies : List.Forall₂ (copyLinks guard).SlotRelated bases slots) (index : Nat)
    (fresh fresh' : Identity) :
    ∃ nexts nexts', CommitsSlots fresh index slots bases nexts ∧
      CommitsSlots fresh' index slots bases nexts' ∧
      List.Forall₂ shownLinks.SlotRelated nexts nexts' := by
  induction copies generalizing index with
  | nil => exact ⟨[], [], .nil index, .nil index, .nil⟩
  | @cons base slot bases slots head tail ih =>
    obtain ⟨nexts, nexts', rest, rest', same⟩ :=
      ih (fun base member => inside base (List.mem_cons_of_mem _ member)) (index + 1)
    cases seen : slot.accessed with
    | true =>
      obtain ⟨next, next', accepted, accepted', shown⟩ := inside base List.mem_cons_self _
        (head.1 seen) (fresh.child index) (fresh'.child index)
      exact ⟨_, _, .reached seen accepted rest, .reached seen accepted' rest', .cons shown same⟩
    | false =>
      exact ⟨_, _, .kept seen rest, .kept seen rest', .cons (SameShown.refl base.content) same⟩

private theorem commits_of_copy (untouched : Untouched base) (copy : CopyOf guard base entity) :
    Commits base entity := by
  intro fresh fresh'
  induction base using induct generalizing entity fresh fresh' with
  | cell inner =>
    obtain ⟨cell, rfl, copied⟩ := relates_cell.mp copy
    have accepted := Cell.commit_of_copy (Cell.Untouched.accessed untouched) copied
    have committed (fresh : Identity) :
        (Entity.cell cell).commit fresh (.cell inner) = .ok (.cell (cell.advanced inner)) := by
      rw [commit, accepted]
      rfl
    exact ⟨_, _, committed fresh, committed fresh', SameShown.refl _⟩
  | table inner =>
    obtain ⟨table, rfl, copied⟩ := relates_table.mp copy
    have committed (fresh : Identity) : (Entity.table table).commit fresh (.table inner) =
        .ok (.table (table.advanced fresh inner)) := by
      rw [commit, Table.commit_of_copy (Table.Untouched.hasLog untouched) copied]
      rfl
    exact ⟨_, _, committed fresh, committed fresh', Table.advanced_entries fresh fresh' table inner⟩
  | multimap inner =>
    obtain ⟨multimap, rfl, copied⟩ := relates_multimap.mp copy
    have committed (fresh : Identity) : (Entity.multimap multimap).commit fresh (.multimap inner) =
        .ok (.multimap ⟨multimap.table.advanced fresh inner.table⟩) := by
      rw [commit, Multimap.commit, Table.commit_of_copy (Table.Untouched.hasLog untouched) copied]
      rfl
    exact ⟨_, _, committed fresh, committed fresh', Table.advanced_entries fresh fresh' _ _⟩
  | queue inner =>
    obtain ⟨queue, rfl, copied⟩ := relates_queue.mp copy
    have committed (fresh : Identity) : (Entity.queue queue).commit fresh (.queue inner) =
        .ok (.queue (queue.advanced fresh inner)) := by
      rw [commit, Queue.commit_of_copy (Queue.Untouched.settled untouched) copied]
      rfl
    exact ⟨_, _, committed fresh, committed fresh', Queue.advanced_items fresh fresh' queue inner⟩
  | bundle bases rule ih =>
    obtain ⟨slots, _, rfl, _, copies⟩ := relates_bundle.mp copy
    have quiet := every_bundle.mp untouched
    obtain ⟨nexts, nexts', accepted, accepted', same⟩ := commitsSlots_of_copy
      (fun base member entity copy => ih base member (quiet base member).2 copy) copies 0 fresh
      fresh'
    have settled := fun base member => (quiet base member).1
    exact ⟨_, _, accepted.bundle settled, accepted'.bundle settled,
      relates_bundle.mpr ⟨_, _, rfl, trivial, same⟩⟩
  | snapshot inner ih =>
    obtain ⟨snapshot, rfl, _, copied, hosted⟩ := relates_snapshot.mp copy
    obtain ⟨quiet, globals⟩ := every_snapshot.mp untouched
    obtain ⟨next, next', accepted, accepted', same⟩ :=
      ih quiet copied (fresh.child 0) (fresh'.child 0)
    have settled := Table.Untouched.hasLog globals
    refine ⟨_, _, commit_snapshot_ok.mpr (Snapshot.commit_ok.mpr ⟨_, _, accepted,
      Table.commit_of_copy settled hosted, rfl⟩), commit_snapshot_ok.mpr (Snapshot.commit_ok.mpr
      ⟨_, _, accepted', Table.commit_of_copy settled hosted, rfl⟩), ?_⟩
    exact relates_snapshot.mpr ⟨_, rfl, rfl, same, Table.advanced_entries _ _ _ _⟩

/-- In either order, both copies can be committed, and what the outcomes show is the same. -/
def Interchange (base one other : Entity) : Prop :=
  ∀ first second first' second' : Identity, ∃ next last next' last',
    one.commit first base = .ok next ∧ other.commit second next = .ok last ∧
      other.commit second' base = .ok next' ∧ one.commit first' next' = .ok last' ∧
      SameShown last last'

structure InterchangeSlots (first second first' second' : Identity) (index : Nat)
    (bases ones others nexts lasts nexts' lasts' : List (Slot Entity)) : Prop where
  first : CommitsSlots first index ones bases nexts
  second : CommitsSlots second index others nexts lasts
  second' : CommitsSlots second' index others bases nexts'
  first' : CommitsSlots first' index ones nexts' lasts'
  same : List.Forall₂ shownLinks.SlotRelated lasts lasts'

private theorem interchangeSlots {bases ones others : List (Slot Entity)}
    (inside : ∀ base ∈ bases, ∀ one other, CopyOf guard base.content one →
      CopyOf guard base.content other → Logged base.content one → Logged base.content other →
      Independent one other → Interchange base.content one other)
    (untouched : ∀ base ∈ bases, Untouched base.content)
    (copies : List.Forall₂ (copyLinks guard).SlotRelated bases ones)
    (copies' : List.Forall₂ (copyLinks guard).SlotRelated bases others)
    (logs : List.Forall₂ loggedLinks.SlotRelated bases ones)
    (logs' : List.Forall₂ loggedLinks.SlotRelated bases others)
    (independents : List.Forall₂ independentLinks.SlotRelated ones others) (index : Nat)
    (first second first' second' : Identity) :
    ∃ nexts lasts nexts' lasts', InterchangeSlots first second first' second' index bases ones
      others nexts lasts nexts' lasts' := by
  induction copies generalizing others index with
  | nil =>
    cases copies'
    exact ⟨[], [], [], [], .nil index, .nil index, .nil index, .nil index, .nil⟩
  | @cons base one bases ones copy copies ih =>
    cases copies' with | @cons _ other _ others copy' copies' =>
    cases logs with | cons logged logs =>
    cases logs' with | cons logged' logs' =>
    cases independents with | cons independent independents =>
    obtain ⟨still, untouched⟩ := List.forall_mem_cons.mp untouched
    obtain ⟨nexts, lasts, nexts', lasts', one_first, other_second, other_first, one_second, same⟩ :=
      ih (fun base member => inside base (List.mem_cons_of_mem _ member)) untouched copies' logs
        logs' independents (index + 1)
    cases seen : one.accessed with
    | true =>
      cases seen' : other.accessed with
      | true =>
        obtain ⟨_, _, _, _, head, after, head', after', shown⟩ := inside base List.mem_cons_self
          _ _ (copy.1 seen) (copy'.1 seen') (logged seen) (logged' seen') (independent seen seen')
          (first.child index) (second.child index) (first'.child index) (second'.child index)
        exact ⟨_, _, _, _, .reached seen head one_first, .reached seen' after other_second,
          .reached seen' head' other_first, .reached seen after' one_second, .cons shown same⟩
      | false =>
        obtain ⟨_, _, head, after, shown⟩ := commits_of_copy still (copy.1 seen)
          (first.child index) (first'.child index)
        exact ⟨_, _, _, _, .reached seen head one_first, .kept seen' other_second,
          .kept seen' other_first, .reached seen after one_second, .cons shown same⟩
    | false =>
      cases seen' : other.accessed with
      | true =>
        obtain ⟨_, _, head, after, shown⟩ := commits_of_copy still (copy'.1 seen')
          (second.child index) (second'.child index)
        exact ⟨_, _, _, _, .kept seen one_first, .reached seen' head other_second,
          .reached seen' after other_first, .kept seen one_second, .cons shown same⟩
      | false =>
        exact ⟨_, _, _, _, .kept seen one_first, .kept seen' other_second, .kept seen' other_first,
          .kept seen one_second, .cons (SameShown.refl base.content) same⟩

theorem Independent.interchange (independent : Independent one other) (untouched : Untouched base)
    (copy : CopyOf guard base one) (copy' : CopyOf guard base other) (logged : Logged base one)
    (logged' : Logged base other) : Interchange base one other := by
  intro first second first' second'
  induction base using Entity.induct generalizing one other first second first' second' with
  | cell inner =>
    obtain ⟨one, rfl, copied⟩ := relates_cell.mp copy
    obtain ⟨other, rfl, copied'⟩ := relates_cell.mp copy'
    obtain ⟨next, last, next', one_first, other_second, other_first, one_second⟩ :=
      Cell.Independent.interchange independent untouched copied copied' logged'
    refine ⟨.cell next, .cell last, .cell next', .cell last, ?_⟩
    simp only [commit, one_first, other_second, other_first, one_second]
    exact ⟨rfl, rfl, rfl, rfl, SameShown.refl _⟩
  | table inner =>
    obtain ⟨one, rfl, copied⟩ := relates_table.mp copy
    obtain ⟨other, rfl, copied'⟩ := relates_table.mp copy'
    obtain ⟨next, last, next', last', one_first, other_second, other_first, one_second, same⟩ :=
      Table.Independent.interchange independent untouched copied copied' logged' first second
        first' second'
    refine ⟨.table next, .table last, .table next', .table last', ?_⟩
    simp only [commit, one_first, other_second, other_first, one_second]
    exact ⟨rfl, rfl, rfl, rfl, same⟩
  | multimap inner =>
    obtain ⟨one, rfl, copied⟩ := relates_multimap.mp copy
    obtain ⟨other, rfl, copied'⟩ := relates_multimap.mp copy'
    obtain ⟨next, last, next', last', one_first, other_second, other_first, one_second, same⟩ :=
      Table.Independent.interchange independent untouched copied copied' logged' first second
        first' second'
    refine ⟨.multimap ⟨next⟩, .multimap ⟨last⟩, .multimap ⟨next'⟩, .multimap ⟨last'⟩, ?_⟩
    simp only [commit, Multimap.commit, one_first, other_second, other_first, one_second]
    exact ⟨rfl, rfl, rfl, rfl, same⟩
  | queue inner =>
    obtain ⟨one, rfl, copied⟩ := relates_queue.mp copy
    obtain ⟨other, rfl, copied'⟩ := relates_queue.mp copy'
    obtain ⟨next, last, next', last', one_first, other_second, other_first, one_second, same⟩ :=
      Queue.Independent.interchange independent untouched copied copied' first second first' second'
    refine ⟨.queue next, .queue last, .queue next', .queue last', ?_⟩
    simp only [commit, one_first, other_second, other_first, one_second]
    exact ⟨rfl, rfl, rfl, rfl, same⟩
  | bundle bases rule ih =>
    obtain ⟨ones, _, rfl, _, copies⟩ := relates_bundle.mp copy
    obtain ⟨others, _, rfl, _, copies'⟩ := relates_bundle.mp copy'
    obtain ⟨_, _, shape, _, logs⟩ := relates_bundle.mp logged
    cases shape
    obtain ⟨_, _, shape, _, logs'⟩ := relates_bundle.mp logged'
    cases shape
    obtain ⟨_, _, shape, _, independents⟩ := relates_bundle.mp independent
    cases shape
    have quiet := every_bundle.mp untouched
    obtain ⟨nexts, lasts, nexts', lasts', one_first, other_second, other_first, one_second, same⟩ :=
      interchangeSlots (fun base member one other copy copy' logged logged' independent =>
          ih base member independent (quiet base member).2 copy copy' logged logged')
        (fun base member => (quiet base member).2) copies copies' logs logs' independents 0 first
        second first' second'
    have settled := fun base member => (quiet base member).1
    exact ⟨_, _, _, _, one_first.bundle settled, other_second.bundle one_first.settled,
      other_first.bundle settled, one_second.bundle other_first.settled,
      relates_bundle.mpr ⟨_, _, rfl, trivial, same⟩⟩
  | snapshot inner ih =>
    obtain ⟨one, rfl, _, copied, hosted⟩ := relates_snapshot.mp copy
    obtain ⟨other, rfl, _, copied', hosted'⟩ := relates_snapshot.mp copy'
    obtain ⟨_, shape, _, inside, _⟩ := relates_snapshot.mp logged
    cases shape
    obtain ⟨_, shape, _, inside', globals⟩ := relates_snapshot.mp logged'
    cases shape
    obtain ⟨_, shape, _, data, apart⟩ := relates_snapshot.mp independent
    cases shape
    obtain ⟨quiet, still⟩ := every_snapshot.mp untouched
    obtain ⟨_, _, _, _, one_first, other_second, other_first, one_second, same⟩ :=
      ih data quiet copied copied' inside inside' (first.child 0) (second.child 0)
        (first'.child 0) (second'.child 0)
    obtain ⟨_, _, _, _, one_first', other_second', other_first', one_second', same'⟩ :=
      Table.Independent.interchange apart still hosted hosted' globals (first.child 1)
        (second.child 1) (first'.child 1) (second'.child 1)
    refine ⟨.snapshot ⟨_, _, _⟩, .snapshot ⟨_, _, _⟩, .snapshot ⟨_, _, _⟩, .snapshot ⟨_, _, _⟩,
      commit_snapshot_ok.mpr (Snapshot.commit_ok.mpr ⟨_, _, one_first, one_first', rfl⟩),
      commit_snapshot_ok.mpr (Snapshot.commit_ok.mpr ⟨_, _, other_second, other_second', rfl⟩),
      commit_snapshot_ok.mpr (Snapshot.commit_ok.mpr ⟨_, _, other_first, other_first', rfl⟩),
      commit_snapshot_ok.mpr (Snapshot.commit_ok.mpr ⟨_, _, one_second, one_second', rfl⟩), ?_⟩
    exact relates_snapshot.mpr ⟨_, rfl, rfl, same, same'⟩

end Entity

/-- What the body of a transaction leaves that has begun on a memory. -/
def Memory.workedOn {C : Type} (memory : Memory) (alive : Identity → List (Slot Entity))
    (seed : Identity) (body : Body Question Answer C) : Snapshot Entity :=
  (Scope.run alive body (seed.child 1)
    (.start (memory.committed.copy (seed.child 0) .clean))).2.base

/-- Independent transactions commute. Whatever their bodies do, nested transactions included, if in
the end neither accesses what the other writes, then both are committed in either order, and both
orders publish the same. -/
theorem Memory.independent_commute {C : Type} {memory : Memory}
    {alive alive' : Identity → List (Slot Entity)} {one other : Body Question Answer C}
    {seed seed' : Identity} (untouched : Entity.Untouched (.snapshot memory.committed))
    (independent : Entity.Independent (.snapshot (memory.workedOn alive seed one))
      (.snapshot (memory.workedOn alive' seed' other)))
    (first second first' second' : Identity) :
    ∃ after both after' both',
      memory.publish first (memory.workedOn alive seed one) = .ok after ∧
      after.2.publish second (memory.workedOn alive' seed' other) = .ok both ∧
      memory.publish second' (memory.workedOn alive' seed' other) = .ok after' ∧
      after'.2.publish first' (memory.workedOn alive seed one) = .ok both' ∧
      Entity.SameShown (.snapshot both.2.committed) (.snapshot both'.2.committed) := by
  obtain ⟨copy, logged⟩ := Scope.logged_run untouched alive one (seed.child 1) (seed.child 0)
  obtain ⟨copy', logged'⟩ := Scope.logged_run untouched alive' other (seed'.child 1) (seed'.child 0)
  obtain ⟨_, _, _, _, one_first, other_second, other_first, one_second, same⟩ :=
    Entity.Independent.interchange independent untouched copy copy' logged logged' first second
      first' second'
  obtain ⟨next, rfl, published⟩ := Entity.snapshot_of_commit one_first
  obtain ⟨next', rfl, published'⟩ := Entity.snapshot_of_commit other_first
  obtain ⟨last, rfl, onto⟩ := Entity.snapshot_of_commit other_second
  obtain ⟨last', rfl, onto'⟩ := Entity.snapshot_of_commit one_second
  exact ⟨_, _, _, _, publish_ok.mpr ⟨published, rfl⟩, publish_ok.mpr ⟨onto, rfl⟩,
    publish_ok.mpr ⟨published', rfl⟩, publish_ok.mpr ⟨onto', rfl⟩, same⟩

def market : Memory :=
  .create ⟨1, []⟩ .standard (.bundle
    [⟨⟨0, [0]⟩, false, .cell (.ofObject ⟨⟨0, [1]⟩, .number 1⟩)⟩,
      ⟨⟨0, [2]⟩, false, .table (.ofEntries ⟨0, [3]⟩ [("fig", ⟨⟨0, [4]⟩, .number 2⟩)])⟩,
      ⟨⟨0, [5]⟩, false, .queue (.ofItems ⟨0, [6]⟩ [.number 3])⟩] .take)

/-- Adds an item, and an entry after it has put and removed another one. -/
def supplying : Body Question Answer Unit :=
  let shop (request : Table.Request String Value) : Question :=
    ⟨[.data, .slot 1 none], .request (.table request)⟩
  .ask (shop (.put "plum" ⟨⟨2, []⟩, .number 4⟩)) fun _ =>
  .ask (shop (.remove "plum")) fun _ =>
  .ask (shop (.put "pear" ⟨⟨3, []⟩, .number 5⟩)) fun _ =>
  .ask ⟨[.data, .slot 2 none], .request (.queue (.offer (.number 6)))⟩ fun _ => .finish (.ok true)

/-- Takes the item that there is, and clears the table in a nested transaction. -/
def buying : Body Question Answer Unit :=
  .ask ⟨[.data, .slot 2 none], .request (.queue .poll)⟩ fun _ =>
  .nest () (.ask ⟨[.data, .slot 1 none], .request (.table .clear)⟩ fun _ => .finish (.ok true))
    fun _ _ => .ask ⟨[.data, .slot 0 none], .request (.cell .deref)⟩ fun _ => .finish (.ok true)

private theorem untouched_market : Entity.Untouched (.snapshot market.committed) := by
  rw [market, Memory.untouched_create_iff]
  exact ⟨rfl, rfl, rfl, trivial⟩

private theorem independent_market :
    Entity.Independent (.snapshot (market.workedOn (fun _ => []) ⟨4, []⟩ supplying))
      (.snapshot (market.workedOn (fun _ => []) ⟨5, []⟩ buying)) := by
  let plum : Object Value := ⟨⟨2, []⟩, .number 4⟩
  let pear : Object Value := ⟨⟨3, []⟩, .number 5⟩
  let fig : Object Value := ⟨⟨0, [4]⟩, .number 2⟩
  let stock : Entries String Value := .ofList [("fig", fig)]
  have hosted (key : Nat) : ¬(key ∈ (∅ : Entries Nat Value) ∨ key ∈ (∅ : KeySet Nat)) := by simp
  refine ⟨trivial, ⟨trivial, nofun, fun _ _ key => ⟨?_, ?_⟩, fun _ _ => ?_, trivial⟩,
    fun key => ⟨fun both => hosted key both.1, fun both => hosted key both.1⟩⟩
  · rintro ⟨written, seen⟩
    have written : key ∈ (((∅ : Entries String Value).insert "plum" plum).erase "plum").insert
      "pear" pear ∨ key ∈ (∅ : KeySet String) := written
    have seen : false = true ∨ key ∈ (∅ : KeySet String) ∪ stock.keySet := seen
    simp [stock] at written seen
    rw [← written] at seen
    exact absurd seen (by decide)
  · rintro ⟨written, seen⟩
    have written : key ∈ (∅ : Entries String Value) ∨ key ∈ (∅ : KeySet String) ∪ stock.keySet :=
      written
    have seen : false = true ∨
      key ∈ (((∅ : KeySet String).insert "plum").insert "plum").insert "pear" := seen
    simp [stock] at written seen
    rw [← written] at seen
    exact absurd seen (by decide)
  · refine .inr (.inr (.inl ⟨⟨rfl, rfl⟩, ?_, rfl⟩))
    decide

theorem Memory.independent_commute_market :
    let supply := market.workedOn (fun _ => []) ⟨4, []⟩ supplying
    let purchase := market.workedOn (fun _ => []) ⟨5, []⟩ buying
    Entity.Untouched (.snapshot market.committed) ∧
      Entity.Independent (.snapshot supply) (.snapshot purchase) ∧
      ∃ after both after' both', market.publish ⟨6, []⟩ supply = .ok after ∧
        after.2.publish ⟨7, []⟩ purchase = .ok both ∧
        market.publish ⟨7, []⟩ purchase = .ok after' ∧
        after'.2.publish ⟨6, []⟩ supply = .ok both' ∧
        Entity.SameShown (.snapshot both.2.committed) (.snapshot both'.2.committed) :=
  ⟨untouched_market, independent_market,
    independent_commute untouched_market independent_market ⟨6, []⟩ ⟨7, []⟩ ⟨6, []⟩ ⟨7, []⟩⟩

end TransactionalMemory
