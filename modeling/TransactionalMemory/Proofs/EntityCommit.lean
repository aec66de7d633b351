import Mathlib.Algebra.GroupWithZero.Nat
import TransactionalMemory.Proofs.EntityCopy
import TransactionalMemory.Proofs.TableCommit

/-! Committing a working copy of an entity. A commit that is accepted has found unchanged whatever
the copy has seen, and it takes any relation to the latest entity on to the next one, as far as
the commits of the parts do. -/
namespace TransactionalMemory.Entity

theorem map_ok {α β : Type} {result : Except Failure α} {wrap : α → β} {value : β}
    (accepted : result.map wrap = .ok value) :
    ∃ inner, result = .ok inner ∧ value = wrap inner := by
  cases result with
  | error failure => cases accepted
  | ok inner =>
    cases accepted
    exact ⟨inner, rfl, rfl⟩

private theorem bind_ok {α β : Type} {result : Except Failure α} {next : α → Except Failure β}
    {value : β} (accepted : result >>= next = .ok value) :
    ∃ inner, result = .ok inner ∧ next inner = .ok value := by
  cases result with
  | error failure => cases accepted
  | ok inner => exact ⟨inner, rfl, accepted⟩

variable {fresh : Identity} {entity next : Entity}

theorem commit_cell {latest : Cell Value}
    (accepted : entity.commit fresh (.cell latest) = .ok next) :
    ∃ inner after, entity = .cell inner ∧ inner.commit latest = .ok after ∧
      next = .cell after := by
  cases entity with
  | cell inner =>
    unfold commit at accepted
    obtain ⟨after, result, wrapped⟩ := map_ok accepted
    exact ⟨inner, after, rfl, result, wrapped⟩
  | _ => cases accepted

theorem commit_table {latest : Table String Value}
    (accepted : entity.commit fresh (.table latest) = .ok next) :
    ∃ inner after, entity = .table inner ∧ inner.commit fresh latest = .ok after ∧
      next = .table after := by
  cases entity with
  | table inner =>
    unfold commit at accepted
    obtain ⟨after, result, wrapped⟩ := map_ok accepted
    exact ⟨inner, after, rfl, result, wrapped⟩
  | _ => cases accepted

theorem commit_multimap {latest : Multimap String String}
    (accepted : entity.commit fresh (.multimap latest) = .ok next) :
    ∃ inner after, entity = .multimap inner ∧ inner.table.commit fresh latest.table = .ok after ∧
      next = .multimap ⟨after⟩ := by
  cases entity with
  | multimap inner =>
    unfold commit at accepted
    obtain ⟨_, result, rfl⟩ := map_ok accepted
    obtain ⟨after, commits, rfl⟩ := map_ok result
    exact ⟨inner, after, rfl, commits, rfl⟩
  | _ => cases accepted

theorem commit_queue {latest : Queue Value}
    (accepted : entity.commit fresh (.queue latest) = .ok next) :
    ∃ inner after, entity = .queue inner ∧ inner.commit fresh latest = .ok after ∧
      next = .queue after := by
  cases entity with
  | queue inner =>
    unfold commit at accepted
    obtain ⟨after, result, wrapped⟩ := map_ok accepted
    exact ⟨inner, after, rfl, result, wrapped⟩
  | _ => cases accepted

inductive CommitsSlots (fresh : Identity) :
    (index : Nat) → (slots latests nexts : List (Slot Entity)) → Prop where
  | nil (index : Nat) : CommitsSlots fresh index [] [] []
  | reached {index : Nat} {slot latest : Slot Entity} {slots latests nexts : List (Slot Entity)}
      {committed : Entity} (seen : slot.accessed = true)
      (head : slot.content.commit (fresh.child index) latest.content = .ok committed)
      (tail : CommitsSlots fresh (index + 1) slots latests nexts) :
      CommitsSlots fresh index (slot :: slots) (latest :: latests)
        (⟨fresh.child index, false, committed⟩ :: nexts)
  | kept {index : Nat} {slot latest : Slot Entity} {slots latests nexts : List (Slot Entity)}
      (unseen : slot.accessed = false)
      (tail : CommitsSlots fresh (index + 1) slots latests nexts) :
      CommitsSlots fresh index (slot :: slots) (latest :: latests)
        ({latest with accessed := false} :: nexts)

private theorem commitSlots_ok {index : Nat} {slots latests nexts : List (Slot Entity)}
    (lengths : latests.length = slots.length)
    (accepted : commitSlots fresh index slots latests = .ok nexts) :
    CommitsSlots fresh index slots latests nexts := by
  induction slots generalizing index latests nexts with
  | nil =>
    obtain rfl := List.eq_nil_of_length_eq_zero lengths
    cases accepted
    exact .nil index
  | cons slot slots ih =>
    obtain ⟨latest, latests, rfl⟩ := List.exists_cons_of_length_eq_add_one lengths
    obtain ⟨identity, accessed, content⟩ := slot
    cases accessed with
    | true =>
      unfold commitSlots at accepted
      obtain ⟨committed, head, accepted⟩ := bind_ok accepted
      obtain ⟨rest, tail, result⟩ := bind_ok accepted
      cases result
      exact .reached rfl head (ih (Nat.succ.inj lengths) tail)
    | false =>
      unfold commitSlots at accepted
      obtain ⟨rest, tail, result⟩ := bind_ok accepted
      cases result
      exact .kept rfl (ih (Nat.succ.inj lengths) tail)

private theorem CommitsSlots.accepted {index : Nat} {slots latests nexts : List (Slot Entity)}
    (commits : CommitsSlots fresh index slots latests nexts) :
    commitSlots fresh index slots latests = .ok nexts := by
  induction commits with
  | nil index => rfl
  | @reached index slot latest slots latests nexts committed seen head tail ih =>
    obtain ⟨identity, _, content⟩ := slot
    obtain rfl := seen
    rw [commitSlots, head, ih]
    rfl
  | @kept index slot latest slots latests nexts unseen tail ih =>
    obtain ⟨identity, _, content⟩ := slot
    obtain rfl := unseen
    rw [commitSlots, ih]
    rfl

private theorem CommitsSlots.length_eq {index : Nat} {slots latests nexts : List (Slot Entity)}
    (commits : CommitsSlots fresh index slots latests nexts) : latests.length = slots.length := by
  induction commits with
  | nil index => rfl
  | reached seen head tail ih => simp [ih]
  | kept unseen tail ih => simp [ih]

theorem CommitsSlots.settled {index : Nat} {slots latests nexts : List (Slot Entity)}
    (commits : CommitsSlots fresh index slots latests nexts) :
    ∀ next ∈ nexts, next.accessed = false := by
  induction commits with
  | nil index => exact nofun
  | reached seen head tail ih => exact List.forall_mem_cons.mpr ⟨rfl, ih⟩
  | kept unseen tail ih => exact List.forall_mem_cons.mpr ⟨rfl, ih⟩

/-- The first slot by itself: the outcome of its own commit if it was reached, and otherwise what
was there. -/
theorem CommitsSlots.uncons {index : Nat} {slot : Slot Entity}
    {slots latests nexts : List (Slot Entity)}
    (commits : CommitsSlots fresh index (slot :: slots) latests nexts) :
    ∃ latest latests' next nexts', latests = latest :: latests' ∧ nexts = next :: nexts' ∧
      CommitsSlots fresh (index + 1) slots latests' nexts' ∧
      (slot.accessed = true ∧
          slot.content.commit (fresh.child index) latest.content = .ok next.content ∨
        slot.accessed = false ∧ next.content = latest.content) := by
  cases commits with
  | reached seen head tail => exact ⟨_, _, _, _, rfl, rfl, tail, .inl ⟨seen, head⟩⟩
  | kept unseen tail => exact ⟨_, _, _, _, rfl, rfl, tail, .inr ⟨unseen, rfl⟩⟩

theorem CommitsSlots.bundle {slots latests nexts : List (Slot Entity)} {rule rule' : SlotRule}
    (commits : CommitsSlots fresh 0 slots latests nexts)
    (settled : ∀ latest ∈ latests, latest.accessed = false) :
    (Entity.bundle slots rule).commit fresh (.bundle latests rule') =
      .ok (.bundle nexts .take) := by
  have unopened : latests.any (·.accessed) = false := by simpa using settled
  rw [commit, if_neg (not_not.mpr commits.length_eq), unopened, commits.accepted]
  rfl

theorem commit_bundle {latests : List (Slot Entity)} {rule : SlotRule}
    (accepted : entity.commit fresh (.bundle latests rule) = .ok next) :
    ∃ slots rule' nexts, entity = .bundle slots rule' ∧ next = .bundle nexts .take ∧
      (latests.length = slots.length ∧ ∀ latest ∈ latests, latest.accessed = false) ∧
      CommitsSlots fresh 0 slots latests nexts := by
  cases entity with
  | bundle slots rule' =>
    unfold commit at accepted
    split at accepted
    · cases accepted
    next lengths =>
    rw [ne_eq, Classical.not_not] at lengths
    split at accepted
    · cases accepted
    next settled =>
    obtain ⟨nexts, result, rfl⟩ := map_ok accepted
    refine ⟨slots, rule', nexts, rfl, rfl, ⟨lengths, ?_⟩, commitSlots_ok lengths result⟩
    simpa using settled
  | _ => cases accepted

theorem commit_inner {latest : Snapshot Entity}
    (accepted : entity.commit fresh (.snapshot latest) = .ok next) :
    ∃ inner data globals, entity = .snapshot inner ∧
      inner.data.commit (fresh.child 0) latest.data = .ok data ∧
      inner.globals.commit (fresh.child 1) latest.globals = .ok globals ∧
      next = .snapshot ⟨latest.timestamp + 1, data, globals⟩ := by
  cases entity with
  | snapshot inner =>
    rw [commit_snapshot] at accepted
    obtain ⟨_, result, rfl⟩ := map_ok accepted
    obtain ⟨data, globals, first, second, rfl⟩ := Snapshot.commit_ok.mp result
    exact ⟨inner, data, globals, rfl, first, second, rfl⟩
  | _ => cases accepted

theorem snapshot_of_commit {snapshot latest : Snapshot Entity}
    (accepted : (Entity.snapshot snapshot).commit fresh (.snapshot latest) = .ok next) :
    ∃ inner, next = .snapshot inner ∧ snapshot.commit fresh latest = .ok inner := by
  rw [commit_snapshot] at accepted
  obtain ⟨inner, result, wrapped⟩ := map_ok accepted
  exact ⟨inner, wrapped, result⟩

theorem commit_snapshot_ok {snapshot latest next : Snapshot Entity} :
    (Entity.snapshot snapshot).commit fresh (.snapshot latest) = .ok (.snapshot next) ↔
      snapshot.commit fresh latest = .ok next := by
  constructor
  · intro accepted
    obtain ⟨_, wrapped, result⟩ := snapshot_of_commit accepted
    cases wrapped
    exact result
  · intro accepted
    rw [commit_snapshot, accepted]
    rfl

mutual

/-- How many items a working copy has polled from the queues in it. -/
def polls : Entity → Nat
  | .queue inner => inner.polled
  | .bundle slots _ => pollsAmong slots
  | .snapshot ⟨_, data, _⟩ => polls data
  | _ => 0

def pollsAmong : List (Slot Entity) → Nat
  | [] => 0
  | ⟨_, accessed, content⟩ :: slots => (if accessed then polls content else 0) + pollsAmong slots

end

theorem polls_alike {other : Entity} (alike : Alike entity other) : other.polls = entity.polls := by
  induction entity using induct generalizing other with
  | cell inner =>
    obtain ⟨_, rfl, _⟩ := relates_cell.mp alike
    rfl
  | table inner =>
    obtain ⟨_, rfl, _⟩ := relates_table.mp alike
    rfl
  | multimap inner =>
    obtain ⟨_, rfl, _⟩ := relates_multimap.mp alike
    rfl
  | queue inner =>
    obtain ⟨_, rfl, alike⟩ := relates_queue.mp alike
    exact Queue.Alike.polled alike
  | bundle slots rule ih =>
    obtain ⟨others, _, rfl, _, alikes⟩ := relates_bundle.mp alike
    rw [polls, polls]
    clear alike
    induction alikes with
    | nil => rfl
    | @cons slot other slots others head tail ih' =>
      obtain ⟨identity, accessed, content⟩ := slot
      obtain ⟨identity', accessed', content'⟩ := other
      obtain ⟨same, inside⟩ := head
      dsimp only at same
      subst same
      rw [pollsAmong, pollsAmong, ih' fun slot member => ih slot (List.mem_cons_of_mem _ member)]
      cases accessed' with
      | true => rw [ih _ List.mem_cons_self (inside rfl)]
      | false => rfl
  | snapshot inner ih =>
    obtain ⟨_, rfl, _, alike, _⟩ := relates_snapshot.mp alike
    have same := ih alike
    exact same

/-- A relation to the latest entity is followed by one to the next entity, whatever a guarded copy
with at most so many polls has done. -/
structure Links.Advances (guard : Guard) (total : Nat) (links later : Links) : Prop where
  widen : links.Implies later
  cell : ∀ {base base' inner latest next}, Cell.CopyOf guard.value base' inner →
    inner.commit latest = .ok next → links.cell base latest → later.cell base next
  table : ∀ {fresh base base' inner latest next}, guard.seed fresh →
    Table.CopyOf guard.value guard.clearing base' inner →
    inner.commit fresh latest = .ok next → links.table base latest → later.table base next
  multimap : ∀ {fresh base latest} {base' inner next : Table String (ValueSet String)},
    guard.seed fresh → Table.CopyOf guard.set guard.clearing base' inner →
    inner.commit fresh latest.table = .ok next → links.multimap base latest →
    later.multimap base ⟨next⟩
  queue : ∀ {fresh base latest next} {inner : Queue Value}, guard.seed fresh →
    inner.polled ≤ total → inner.commit fresh latest = .ok next → links.queue base latest →
    later.queue base next
  rule : ∀ {rule rule'}, links.rule rule rule' → later.rule rule .take
  reached : ∀ {fresh base latest committed} {related related' : Prop}, guard.seed fresh →
    (related → related') → links.slot base latest related →
    later.slot base ⟨fresh, false, committed⟩ related'
  kept : ∀ {base latest} {related related' : Prop}, (related → related') →
    links.slot base latest related → later.slot base {latest with accessed := false} related'
  timestamp : ∀ {timestamp latest}, links.timestamp timestamp latest →
    later.timestamp timestamp (latest + 1)
  globals : ∀ {fresh base base' inner latest next}, guard.seed fresh →
    Table.CopyOf guard.value guard.clearing base' inner →
    inner.commit fresh latest = .ok next → links.globals base latest → later.globals base next

variable {guard : Guard} {total : Nat} {links later : Links} {base base' latest : Entity}

private theorem CommitsSlots.relates {index : Nat}
    {bases bases' slots latests nexts : List (Slot Entity)}
    (advances : links.Advances guard total later) (named : guard.seed fresh)
    (inside : ∀ base ∈ bases, ∀ {base' entity latest next fresh},
      CopyOf guard base' entity → entity.polls ≤ total → guard.seed fresh →
      entity.commit fresh latest = .ok next → Relates links base.content latest →
      Relates later base.content next)
    (commits : CommitsSlots fresh index slots latests nexts)
    (copies : List.Forall₂ (copyLinks guard).SlotRelated bases' slots)
    (few : pollsAmong slots ≤ total) (related : List.Forall₂ links.SlotRelated bases latests) :
    List.Forall₂ later.SlotRelated bases nexts := by
  induction commits generalizing bases bases' with
  | nil index =>
    cases related
    exact .nil
  | @reached index slot latest slots latests nexts committed seen head tail ih =>
    cases related with | @cons base _ bases _ link links =>
    cases copies with | cons copy copies =>
    obtain ⟨identity, _, content⟩ := slot
    obtain rfl := seen
    rw [pollsAmong, if_pos rfl] at few
    refine .cons ?_ (ih (fun base member => inside base (List.mem_cons_of_mem _ member)) copies
      (by omega) links)
    exact advances.reached (guard.child named index) (inside base List.mem_cons_self (copy.1 rfl)
      (Nat.le_trans (Nat.le_add_right _ _) few) (guard.child named index) head) link
  | @kept index slot latest slots latests nexts unseen tail ih =>
    cases related with | @cons base _ bases _ link links =>
    cases copies with | cons copy copies =>
    obtain ⟨identity, _, content⟩ := slot
    unfold pollsAmong at few
    refine .cons ?_ (ih (fun base member => inside base (List.mem_cons_of_mem _ member)) copies
      (by omega) links)
    exact advances.kept advances.widen.relates link

theorem commit_relates (advances : links.Advances guard total later)
    (copy : CopyOf guard base' entity) (few : entity.polls ≤ total) (named : guard.seed fresh)
    (accepted : entity.commit fresh latest = .ok next) (related : Relates links base latest) :
    Relates later base next := by
  induction base using induct generalizing base' entity latest next fresh with
  | cell inner =>
    obtain ⟨latest, rfl, link⟩ := relates_cell.mp related
    obtain ⟨inner', after, rfl, commits, rfl⟩ := commit_cell accepted
    cases base' with
    | cell base' => exact advances.cell copy commits link
    | _ => exact copy.elim
  | table inner =>
    obtain ⟨latest, rfl, link⟩ := relates_table.mp related
    obtain ⟨inner', after, rfl, commits, rfl⟩ := commit_table accepted
    cases base' with
    | table base' => exact advances.table named copy commits link
    | _ => exact copy.elim
  | multimap inner =>
    obtain ⟨latest, rfl, link⟩ := relates_multimap.mp related
    obtain ⟨inner', after, rfl, commits, rfl⟩ := commit_multimap accepted
    cases base' with
    | multimap base' => exact advances.multimap named copy commits link
    | _ => exact copy.elim
  | queue inner =>
    obtain ⟨latest, rfl, link⟩ := relates_queue.mp related
    obtain ⟨inner', after, rfl, commits, rfl⟩ := commit_queue accepted
    exact advances.queue named few commits link
  | bundle slots rule ih =>
    obtain ⟨latests, _, rfl, rules, related⟩ := relates_bundle.mp related
    obtain ⟨slots', _, nexts, rfl, rfl, _, commits⟩ := commit_bundle accepted
    cases base' with
    | bundle bases' rule' =>
      obtain ⟨_, _, same, _, copies⟩ := relates_bundle.mp copy
      cases same
      refine relates_bundle.mpr ⟨nexts, .take, rfl, advances.rule rules, ?_⟩
      exact commits.relates advances named (fun slot member _ _ _ _ _ => ih slot member) copies few
        related
    | _ => exact copy.elim
  | snapshot inner ih =>
    obtain ⟨latest, rfl, time, related, link⟩ := relates_snapshot.mp related
    obtain ⟨inner', data, globals, rfl, commits, commits', rfl⟩ := commit_inner accepted
    cases base' with
    | snapshot base' =>
      obtain ⟨_, same, _, copy, copy'⟩ := relates_snapshot.mp copy
      cases same
      refine relates_snapshot.mpr ⟨_, rfl, advances.timestamp time, ?_, ?_⟩
      · exact ih copy few (guard.child named 0) commits related
      · exact advances.globals (guard.child named 1) copy' commits' link
    | _ => exact copy.elim

private theorem advances_layout (guard : Guard) (total : Nat) :
    layoutLinks.Advances guard total layoutLinks where
  widen := ⟨id, id, id, id, id, id, id, id⟩
  cell := fun _ _ _ => trivial
  table := fun _ _ _ _ => trivial
  multimap := fun _ _ _ _ => trivial
  queue := fun _ _ _ _ => trivial
  rule := fun _ => trivial
  reached := fun _ inside => inside
  kept := fun inside => inside
  timestamp := fun _ => trivial
  globals := fun _ _ _ _ => trivial

theorem commit_layout (copy : CopyOf guard base' entity) (named : guard.seed fresh)
    (accepted : entity.commit fresh latest = .ok next) (layout : SameLayout base latest) :
    SameLayout base next :=
  commit_relates (advances_layout guard entity.polls) copy (Nat.le_refl _) named accepted layout

theorem commit_every {checks checks' : Checks}
    (advances : checks.second.Advances guard total checks'.second)
    (copy : CopyOf guard base' entity) (few : entity.polls ≤ total) (named : guard.seed fresh)
    (accepted : entity.commit fresh latest = .ok next) (every : Every checks latest) :
    Every checks' next := by
  have layout := SameLayout.refl latest
  have passed := (every_iff_second layout).mp every
  have related := commit_relates advances copy few named accepted passed
  exact (every_iff_second (commit_layout copy named accepted layout)).mpr related

private theorem CommitsSlots.untouched {index : Nat} {slots latests nexts : List (Slot Entity)}
    (inside : ∀ slot ∈ latests, ∀ {entity next : Entity} {fresh}, entity.commit fresh slot.content =
      .ok next → Untouched slot.content → Untouched next)
    (commits : CommitsSlots fresh index slots latests nexts)
    (untouched : ∀ slot ∈ latests, slot.accessed = false ∧ Untouched slot.content) :
    ∀ slot ∈ nexts, slot.accessed = false ∧ Untouched slot.content := by
  induction commits with
  | nil index => exact untouched
  | @reached index slot latest slots latests nexts committed seen head tail ih =>
    obtain ⟨first, rest⟩ := List.forall_mem_cons.mp untouched
    have later := ih (fun slot member => inside slot (List.mem_cons_of_mem _ member)) rest
    have quiet := inside latest List.mem_cons_self head first.2
    exact List.forall_mem_cons.mpr ⟨⟨rfl, quiet⟩, later⟩
  | @kept index slot latest slots latests nexts unseen tail ih =>
    obtain ⟨first, rest⟩ := List.forall_mem_cons.mp untouched
    have later := ih (fun slot member => inside slot (List.mem_cons_of_mem _ member)) rest
    exact List.forall_mem_cons.mpr ⟨⟨rfl, first.2⟩, later⟩

theorem commit_untouched (accepted : entity.commit fresh latest = .ok next)
    (untouched : Untouched latest) : Untouched next := by
  induction latest using induct generalizing entity next fresh with
  | cell latest =>
    obtain ⟨inner, after, rfl, commits, rfl⟩ := commit_cell accepted
    rw [(Cell.commit_ok commits).2.2]
    exact Cell.untouched_advanced inner latest
  | table latest =>
    obtain ⟨inner, after, rfl, commits, rfl⟩ := commit_table accepted
    rw [(Table.commit_ok commits).2.2.2]
    exact Table.untouched_advanced fresh inner latest
  | multimap latest =>
    obtain ⟨inner, after, rfl, commits, rfl⟩ := commit_multimap accepted
    rw [(Table.commit_ok commits).2.2.2]
    exact Table.untouched_advanced fresh inner.table latest.table
  | queue latest =>
    obtain ⟨inner, after, rfl, commits, rfl⟩ := commit_queue accepted
    rw [(Queue.commit_ok commits).2.2]
    exact Queue.untouched_advanced fresh inner latest
  | bundle latests rule ih =>
    obtain ⟨slots, rule', nexts, rfl, rfl, _, commits⟩ := commit_bundle accepted
    refine every_bundle.mpr (commits.untouched ?_ (every_bundle.mp untouched))
    intro slot member entity next fresh
    exact ih slot member
  | snapshot latest ih =>
    obtain ⟨inner, data, globals, rfl, first, second, rfl⟩ := commit_inner accepted
    have quiet := ih first (every_snapshot.mp untouched).1
    refine every_snapshot.mpr ⟨quiet, ?_⟩
    rw [(Table.commit_ok second).2.2.2]
    exact Table.untouched_advanced _ inner.globals latest.globals

/-- What an accepted commit has checked. -/
def laterLinks (polls : Nat) : Links where
  cell := Cell.Later
  table := Table.Later
  multimap := fun base latest => base.table.Later latest.table
  queue := Queue.Later polls
  rule := fun _ _ => True
  slot := fun _ _ related => related
  timestamp := fun _ _ => True
  globals := Table.Later

/-- The latest entity came out of the base by commits with at most so many polls, and what has the
same identity in both is the same. -/
abbrev Later (polls : Nat) : (base latest : Entity) → Prop :=
  Relates (laterLinks polls)

private theorem reflexive_later : (laterLinks 0).Reflexive where
  cell := .refl
  table := .refl
  multimap := fun _ => .refl _
  queue := .refl
  rule := fun _ => trivial
  slot := fun _ _ => id
  timestamp := fun _ => trivial
  globals := .refl

theorem Later.refl (entity : Entity) : Later 0 entity entity :=
  reflexive_later.relates entity

theorem Later.mono {more : Nat} (later : Later total base latest) (bound : total ≤ more) :
    Later more base latest := by
  have wider : (laterLinks total).Implies (laterLinks more) :=
    ⟨id, id, id, fun later => later.mono bound, id, id, id, id⟩
  exact wider.relates later

private theorem CommitsSlots.fits {index : Nat} {bases slots latests nexts : List (Slot Entity)}
    (inside : ∀ base ∈ bases, ∀ {entity latest next fresh}, CopyOf guard base.content entity →
      entity.commit fresh latest = .ok next → Later total base.content latest →
      Fits latest entity)
    (commits : CommitsSlots fresh index slots latests nexts)
    (copies : List.Forall₂ (copyLinks guard).SlotRelated bases slots)
    (related : List.Forall₂ (laterLinks total).SlotRelated bases latests) :
    List.Forall₂ fitLinks.SlotRelated latests slots := by
  induction commits generalizing bases with
  | nil index => exact .nil
  | reached seen head tail ih =>
    cases related with | @cons base _ bases _ link links =>
    cases copies with | cons copy copies =>
    have rest := ih (fun base member => inside base (List.mem_cons_of_mem _ member)) copies links
    refine .cons (fun seen => ?_) rest
    exact inside base List.mem_cons_self (copy.1 seen) head link
  | kept unseen tail ih =>
    cases related with | @cons base _ bases _ link links =>
    cases copies with | cons copy copies =>
    have rest := ih (fun base member => inside base (List.mem_cons_of_mem _ member)) copies links
    refine .cons (fun seen => ?_) rest
    rw [unseen] at seen
    cases seen

theorem Later.fits (later : Later total base latest) (bound : total < 2 ^ 64)
    (copy : CopyOf guard base entity) (accepted : entity.commit fresh latest = .ok next) :
    Fits latest entity := by
  induction base using Entity.induct generalizing entity latest next fresh with
  | cell inner =>
    obtain ⟨_, rfl, later⟩ := relates_cell.mp later
    obtain ⟨_, rfl, copy⟩ := relates_cell.mp copy
    obtain ⟨_, _, same, commits, _⟩ := commit_cell accepted
    cases same
    exact Cell.Later.fits later copy commits
  | table inner =>
    obtain ⟨_, rfl, later⟩ := relates_table.mp later
    obtain ⟨_, rfl, copy⟩ := relates_table.mp copy
    obtain ⟨_, _, same, commits, _⟩ := commit_table accepted
    cases same
    exact Table.Later.fits later copy commits
  | multimap inner =>
    obtain ⟨_, rfl, later⟩ := relates_multimap.mp later
    obtain ⟨_, rfl, copy⟩ := relates_multimap.mp copy
    obtain ⟨_, _, same, commits, _⟩ := commit_multimap accepted
    cases same
    exact Table.Later.fits later copy commits
  | queue inner =>
    obtain ⟨_, rfl, later⟩ := relates_queue.mp later
    obtain ⟨_, rfl, copy⟩ := relates_queue.mp copy
    obtain ⟨_, _, same, commits, _⟩ := commit_queue accepted
    cases same
    exact Queue.Later.fits later bound copy commits
  | bundle slots rule ih =>
    obtain ⟨_, _, rfl, _, later⟩ := relates_bundle.mp later
    obtain ⟨_, _, rfl, _, copies⟩ := relates_bundle.mp copy
    obtain ⟨_, _, _, same, _, _, commits⟩ := commit_bundle accepted
    cases same
    refine relates_bundle.mpr ⟨_, _, rfl, trivial, commits.fits ?_ copies later⟩
    intro slot member _ _ _ _ copy accepted later
    exact ih slot member later copy accepted
  | snapshot inner ih =>
    obtain ⟨_, rfl, _, later, later'⟩ := relates_snapshot.mp later
    obtain ⟨_, rfl, _, copy, copy'⟩ := relates_snapshot.mp copy
    obtain ⟨_, _, _, same, commits, commits', _⟩ := commit_inner accepted
    cases same
    exact relates_snapshot.mpr ⟨_, rfl, trivial, ih later copy commits,
      Table.Later.fits later' copy' commits'⟩

private theorem CommitsSlots.alike {index : Nat} {slots slots' latests nexts : List (Slot Entity)}
    (inside : ∀ slot ∈ slots, ∀ {other latest next fresh}, slot.content.commit fresh latest =
      .ok next → CopyOf guard latest other → Alike slot.content other →
      other.commit fresh latest = .ok next)
    (commits : CommitsSlots fresh index slots latests nexts)
    (copies : List.Forall₂ (copyLinks guard).SlotRelated latests slots')
    (alike : List.Forall₂ alikeLinks.SlotRelated slots slots') :
    CommitsSlots fresh index slots' latests nexts := by
  induction commits generalizing slots' with
  | nil index =>
    cases alike
    exact .nil index
  | @reached index slot _ _ _ _ _ seen head tail ih =>
    cases alike with | cons alike alikes =>
    cases copies with | cons copy copies =>
    have seen' := alike.1.trans seen
    refine .reached seen' ?_ (ih (fun slot member => inside slot (List.mem_cons_of_mem _ member))
      copies alikes)
    exact inside slot List.mem_cons_self head (copy.1 seen') (alike.2 seen)
  | kept unseen tail ih =>
    cases alike with | cons alike alikes =>
    cases copies with | cons copy copies =>
    exact .kept (alike.1.trans unseen) (ih (fun slot member =>
      inside slot (List.mem_cons_of_mem _ member)) copies alikes)

theorem commit_alike {other : Entity} (accepted : entity.commit fresh latest = .ok next)
    (copy : CopyOf guard latest other) (alike : Alike entity other) :
    other.commit fresh latest = .ok next := by
  induction entity using induct generalizing other latest next fresh with
  | cell inner =>
    obtain ⟨other, rfl, alike⟩ := relates_cell.mp alike
    cases latest with
    | cell latest =>
      obtain ⟨_, after, same, commits, rfl⟩ := commit_cell accepted
      cases same
      rw [commit, Cell.commit_alike commits copy alike]
      rfl
    | _ => exact copy.elim
  | table inner =>
    obtain ⟨other, rfl, alike⟩ := relates_table.mp alike
    cases latest with
    | table latest =>
      obtain ⟨_, after, same, commits, rfl⟩ := commit_table accepted
      cases same
      rw [commit, Table.commit_alike commits copy alike]
      rfl
    | _ => exact copy.elim
  | multimap inner =>
    obtain ⟨other, rfl, alike⟩ := relates_multimap.mp alike
    cases latest with
    | multimap latest =>
      obtain ⟨_, after, same, commits, rfl⟩ := commit_multimap accepted
      cases same
      rw [commit, Multimap.commit, Table.commit_alike commits copy alike]
      rfl
    | _ => exact copy.elim
  | queue inner =>
    obtain ⟨other, rfl, alike⟩ := relates_queue.mp alike
    cases latest with
    | queue latest =>
      obtain ⟨_, after, same, commits, rfl⟩ := commit_queue accepted
      cases same
      rw [commit, Queue.commit_alike commits copy alike]
      rfl
    | _ => exact copy.elim
  | bundle slots rule ih =>
    obtain ⟨others, _, rfl, _, alike⟩ := relates_bundle.mp alike
    cases latest with
    | bundle latests rule' =>
      obtain ⟨_, _, same, _, copies⟩ := relates_bundle.mp copy
      cases same
      obtain ⟨_, _, nexts, same, rfl, ⟨_, settled⟩, commits⟩ := commit_bundle accepted
      cases same
      have commits' := commits.alike (fun slot member _ _ _ _ accepted copy alike =>
        ih slot member accepted copy alike) copies alike
      exact commits'.bundle settled
    | _ => exact copy.elim
  | snapshot inner ih =>
    obtain ⟨other, rfl, _, alike, alike'⟩ := relates_snapshot.mp alike
    cases latest with
    | snapshot latest =>
      obtain ⟨_, same, _, copy, copy'⟩ := relates_snapshot.mp copy
      cases same
      obtain ⟨_, _, _, same, commits, commits', rfl⟩ := commit_inner accepted
      cases same
      rw [commit_snapshot, Snapshot.commit, ih commits copy alike,
        Table.commit_alike commits' copy' alike']
      rfl
    | _ => exact copy.elim

end TransactionalMemory.Entity
