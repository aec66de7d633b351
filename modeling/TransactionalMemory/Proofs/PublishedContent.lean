import TransactionalMemory.Proofs.EntityCommit
import TransactionalMemory.Proofs.Footprint

/-! What a commit publishes depends on the content of the working copy alone: a part that was read
but not written comes out with the values of the latest state, just as one that nobody has reached.
Only the timestamp of a snapshot inside the data tells the two apart. -/
namespace TransactionalMemory

namespace Cell
variable {α : Type} {cell other : Cell α}

private theorem advanced_unlogged (same : cell.unlogged = other.unlogged) (latest : Cell α) :
    cell.advanced latest = other.advanced latest := by
  injection same with source current accessed updated
  rw [advanced, advanced, current, updated]

/-- Nothing was written. -/
def Idle (cell : Cell α) : Prop :=
  cell.updated = false

theorem Idle.advanced {latest : Cell α} (idle : cell.Idle) (settled : latest.Untouched) :
    cell.advanced latest = latest := by
  have quiet : cell.updated = false := idle
  rw [Cell.advanced, quiet, if_neg Bool.false_ne_true, settled]

private theorem Untouched.idle (untouched : cell.Untouched)
    (same : cell.unlogged = other.unlogged) : other.Idle := by
  injection same with _ _ _ updated
  rw [Idle, ← updated, ← untouched]
  rfl

end Cell

namespace Table
variable {K V : Type} [Ord K] {table other latest : Table K V}

/-- No entry is about to be written, and none about to be deleted. -/
def Idle (table : Table K V) : Prop :=
  table.modified = ∅ ∧ table.deleted = ∅

private theorem Untouched.idle (untouched : table.Untouched)
    (same : table.unlogged = other.unlogged) : other.Idle := by
  injection same with _ modified deleted
  rw [Idle, ← modified, ← deleted, ← untouched]
  exact ⟨rfl, rfl⟩

variable [Std.TransOrd K]

private theorem advanced_unlogged (same : table.unlogged = other.unlogged) (fresh : Identity)
    (latest : Table K V) : table.advanced fresh latest = other.advanced fresh latest := by
  injection same with source modified deleted
  rw [advanced, advanced, modified, deleted]

theorem Idle.advanced (idle : table.Idle) (settled : latest.Untouched) (fresh : Identity) :
    table.advanced fresh latest = latest := by
  obtain ⟨modified, deleted⟩ := idle
  rw [Table.advanced, modified, deleted, settled]
  rfl

end Table

namespace Queue
variable {α : Type} {queue other latest : Queue α}

private theorem advanced_unlogged (same : queue.unlogged = other.unlogged) (fresh : Identity)
    (latest : Queue α) : queue.advanced fresh latest = other.advanced fresh latest := by
  injection same with source polledBefore cursor tail polled
  rw [advanced, advanced, polled, tail]

/-- No item was taken and none was added. -/
def Idle (queue : Queue α) : Prop :=
  queue.polled = 0 ∧ queue.tail = []

theorem Idle.advanced (idle : queue.Idle) (settled : latest.Untouched) (fresh : Identity) :
    queue.advanced fresh latest = latest := by
  obtain ⟨polled, tail⟩ := idle
  rw [Queue.advanced, polled, tail, settled]
  rfl

theorem Untouched.idle (untouched : queue.Untouched) (same : queue.unlogged = other.unlogged) :
    other.Idle := by
  injection same with _ _ _ tail polled
  rw [Idle, ← tail, ← polled, ← untouched]
  exact ⟨rfl, rfl⟩

end Queue

namespace Entity
variable {guard guard' : Guard} {base entity other latest next next' : Entity} {fresh : Identity}

def valueLinks : Links :=
  {contentLinks with timestamp := fun _ _ => True}

/-- The two show the same values in every part. -/
abbrev SameValues : (entity other : Entity) → Prop :=
  Relates valueLinks

private theorem implies_values : contentLinks.Implies valueLinks where
  cell := id
  table := id
  multimap := id
  queue := id
  rule := id
  slot := id
  timestamp := fun _ => trivial
  globals := id

theorem SameContent.values (same : SameContent entity other) : SameValues entity other :=
  implies_values.relates same

private theorem flipped_values : valueLinks.flip.Implies valueLinks where
  cell := .symm
  table := .symm
  multimap := .symm
  queue := .symm
  rule := id
  slot := id
  timestamp := fun _ => trivial
  globals := .symm

theorem SameValues.symm (same : SameValues entity other) : SameValues other entity :=
  flipped_values.relates (Relates.flip same id)

mutual

/-- Nothing is pending in any part that was reached. -/
def Idle : Entity → Prop
  | .cell inner => inner.Idle
  | .table inner => inner.Idle
  | .multimap inner => inner.table.Idle
  | .queue inner => inner.Idle
  | .bundle slots _ => IdleSlots slots
  | .snapshot ⟨_, data, globals⟩ => Idle data ∧ globals.Idle

def IdleSlots : List (Slot Entity) → Prop
  | [] => True
  | ⟨_, accessed, content⟩ :: slots => (accessed = true → Idle content) ∧ IdleSlots slots

end

theorem idleSlots_iff {slots : List (Slot Entity)} :
    IdleSlots slots ↔ ∀ slot ∈ slots, slot.accessed = true → Idle slot.content := by
  induction slots with
  | nil => simp [IdleSlots]
  | cons slot slots ih => rw [IdleSlots, ih, List.forall_mem_cons]

theorem Untouched.idle (untouched : Untouched base) (same : SameContent base entity) :
    Idle entity := by
  induction base using induct generalizing entity with
  | cell inner =>
    obtain ⟨_, rfl, same⟩ := relates_cell.mp same
    exact Cell.Untouched.idle untouched same
  | table inner =>
    obtain ⟨_, rfl, same⟩ := relates_table.mp same
    exact Table.Untouched.idle untouched same
  | multimap inner =>
    obtain ⟨_, rfl, same⟩ := relates_multimap.mp same
    exact Table.Untouched.idle untouched same
  | queue inner =>
    obtain ⟨_, rfl, same⟩ := relates_queue.mp same
    exact Queue.Untouched.idle untouched same
  | bundle bases rule ih =>
    obtain ⟨_, _, rfl, _, contents⟩ := relates_bundle.mp same
    have quiet := every_bundle.mp untouched
    refine idleSlots_iff.mpr fun slot member _ => ?_
    obtain ⟨index, found⟩ := List.mem_iff_getElem?.mp member
    obtain ⟨base, found', content⟩ := forall₂_find contents found
    have listed := List.mem_of_getElem? found'
    exact ih base listed (quiet base listed).2 content
  | snapshot inner ih =>
    obtain ⟨_, rfl, _, data, globals⟩ := relates_snapshot.mp same
    obtain ⟨quiet, quiet'⟩ := every_snapshot.mp untouched
    exact ⟨ih quiet data, Table.Untouched.idle quiet' globals⟩

private theorem CommitsSlots.idle {index : Nat} {slots latests nexts : List (Slot Entity)}
    (inside : ∀ latest ∈ latests, ∀ {entity next fresh}, Idle entity → Untouched latest.content →
      entity.commit fresh latest.content = .ok next → SameValues latest.content next)
    (commits : CommitsSlots fresh index slots latests nexts)
    (idle : ∀ slot ∈ slots, slot.accessed = true → Idle slot.content)
    (settled : ∀ latest ∈ latests, Untouched latest.content) :
    List.Forall₂ valueLinks.SlotRelated latests nexts := by
  induction commits with
  | nil index => exact .nil
  | @reached index slot latest slots latests nexts committed seen head tail ih =>
    obtain ⟨quiet, still⟩ := List.forall_mem_cons.mp idle
    obtain ⟨first, rest⟩ := List.forall_mem_cons.mp settled
    have later := ih (fun latest member => inside latest (List.mem_cons_of_mem _ member)) still rest
    have values : SameValues latest.content committed :=
      inside latest List.mem_cons_self (quiet seen) first head
    exact .cons values later
  | @kept index slot latest slots latests nexts unseen tail ih =>
    obtain ⟨_, still⟩ := List.forall_mem_cons.mp idle
    obtain ⟨_, rest⟩ := List.forall_mem_cons.mp settled
    have later := ih (fun latest member => inside latest (List.mem_cons_of_mem _ member)) still rest
    have values : SameValues latest.content latest.content := (SameContent.refl _).values
    exact .cons values later

theorem Idle.commit (idle : Idle entity) (settled : Untouched latest)
    (accepted : entity.commit fresh latest = .ok next) : SameValues latest next := by
  induction latest using Entity.induct generalizing entity next fresh with
  | cell latest =>
    obtain ⟨inner, after, rfl, commits, rfl⟩ := commit_cell accepted
    rw [(Cell.commit_ok commits).2.2, Cell.Idle.advanced idle settled]
    exact (SameContent.refl _).values
  | table latest =>
    obtain ⟨inner, after, rfl, commits, rfl⟩ := commit_table accepted
    rw [(Table.commit_ok commits).2.2.2, Table.Idle.advanced idle settled]
    exact (SameContent.refl _).values
  | multimap latest =>
    obtain ⟨inner, after, rfl, commits, rfl⟩ := commit_multimap accepted
    rw [(Table.commit_ok commits).2.2.2, Table.Idle.advanced idle settled]
    exact (SameContent.refl _).values
  | queue latest =>
    obtain ⟨inner, after, rfl, commits, rfl⟩ := commit_queue accepted
    rw [(Queue.commit_ok commits).2.2, Queue.Idle.advanced idle settled]
    exact (SameContent.refl _).values
  | bundle latests rule ih =>
    obtain ⟨slots, _, nexts, rfl, rfl, _, commits⟩ := commit_bundle accepted
    have settled := every_bundle.mp settled
    refine relates_bundle.mpr ⟨nexts, .take, rfl, trivial,
      commits.idle ?_ (idleSlots_iff.mp idle) fun latest member => (settled latest member).2⟩
    intro latest member entity next fresh
    exact ih latest member
  | snapshot latest ih =>
    obtain ⟨inner, data, globals, rfl, commits, commits', rfl⟩ := commit_inner accepted
    obtain ⟨settled, settled'⟩ := every_snapshot.mp settled
    refine relates_snapshot.mpr ⟨_, rfl, trivial, ih idle.1 settled commits, ?_⟩
    rw [(Table.commit_ok commits').2.2.2, Table.Idle.advanced idle.2 settled']
    exact rfl

private theorem CommitsSlots.values {index : Nat}
    {bases slots slots' latests nexts nexts' : List (Slot Entity)}
    (inside : ∀ base ∈ bases, ∀ {entity other latest next next' fresh},
      CopyOf guard base.content entity → CopyOf guard' base.content other →
      SameContent entity other → Untouched latest → entity.commit fresh latest = .ok next →
      other.commit fresh latest = .ok next' → SameValues next next')
    (untouched : ∀ base ∈ bases, Untouched base.content)
    (commits : CommitsSlots fresh index slots latests nexts)
    (commits' : CommitsSlots fresh index slots' latests nexts')
    (copies : List.Forall₂ (copyLinks guard).SlotRelated bases slots)
    (copies' : List.Forall₂ (copyLinks guard').SlotRelated bases slots')
    (contents : List.Forall₂ contentLinks.SlotRelated slots slots')
    (settled : ∀ latest ∈ latests, Untouched latest.content) :
    List.Forall₂ valueLinks.SlotRelated nexts nexts' := by
  induction copies generalizing index slots' latests nexts nexts' with
  | nil =>
    cases copies'
    cases commits
    cases commits'
    exact .nil
  | @cons base slot bases slots copy copies ih =>
    cases copies' with | @cons _ slot' _ slots' copy' copies' =>
    cases contents with | cons content contents =>
    obtain ⟨latest, latests, next, nexts, rfl, rfl, tail, head⟩ := commits.uncons
    obtain ⟨_, _, next', nexts', shape, rfl, tail', head'⟩ := commits'.uncons
    cases shape
    obtain ⟨quiet, untouched⟩ := List.forall_mem_cons.mp untouched
    obtain ⟨first, rest⟩ := List.forall_mem_cons.mp settled
    have others := fun base member => @inside base (List.mem_cons_of_mem _ member)
    have same : SameContent slot.content slot'.content := content
    suffices values : SameValues next.content next'.content from
      .cons values (ih others untouched tail tail' copies' contents rest)
    rcases head with ⟨seen, head⟩ | ⟨unseen, head⟩
    · rcases head' with ⟨seen', head'⟩ | ⟨unseen', head'⟩
      · exact inside base List.mem_cons_self (copy.1 seen) (copy'.1 seen') same first head head'
      · rw [copy'.2 unseen'] at same
        rw [head']
        exact ((quiet.idle same.symm).commit first head).symm
    · rw [head]
      rcases head' with ⟨seen', head'⟩ | ⟨unseen', head'⟩
      · rw [copy.2 unseen] at same
        exact (quiet.idle same).commit first head'
      · rw [head']
        exact (SameContent.refl _).values

theorem commit_values (untouched : Untouched base) (copy : CopyOf guard base entity)
    (copy' : CopyOf guard' base other) (same : SameContent entity other)
    (settled : Untouched latest) (accepted : entity.commit fresh latest = .ok next)
    (accepted' : other.commit fresh latest = .ok next') : SameValues next next' := by
  induction base using induct generalizing entity other latest next next' fresh with
  | cell inner =>
    obtain ⟨entity, rfl, _⟩ := relates_cell.mp copy
    obtain ⟨other, rfl, same⟩ := relates_cell.mp same
    cases latest with
    | cell latest =>
      obtain ⟨_, after, shape, commits, rfl⟩ := commit_cell accepted
      obtain ⟨_, after', shape', commits', rfl⟩ := commit_cell accepted'
      cases shape
      cases shape'
      have advanced := Cell.advanced_unlogged same latest
      rw [(Cell.commit_ok commits).2.2, (Cell.commit_ok commits').2.2, advanced]
      exact (SameContent.refl _).values
    | _ => cases accepted
  | table inner =>
    obtain ⟨entity, rfl, _⟩ := relates_table.mp copy
    obtain ⟨other, rfl, same⟩ := relates_table.mp same
    cases latest with
    | table latest =>
      obtain ⟨_, after, shape, commits, rfl⟩ := commit_table accepted
      obtain ⟨_, after', shape', commits', rfl⟩ := commit_table accepted'
      cases shape
      cases shape'
      have advanced := Table.advanced_unlogged same fresh latest
      rw [(Table.commit_ok commits).2.2.2, (Table.commit_ok commits').2.2.2, advanced]
      exact (SameContent.refl _).values
    | _ => cases accepted
  | multimap inner =>
    obtain ⟨entity, rfl, _⟩ := relates_multimap.mp copy
    obtain ⟨other, rfl, same⟩ := relates_multimap.mp same
    cases latest with
    | multimap latest =>
      obtain ⟨_, after, shape, commits, rfl⟩ := commit_multimap accepted
      obtain ⟨_, after', shape', commits', rfl⟩ := commit_multimap accepted'
      cases shape
      cases shape'
      have advanced := Table.advanced_unlogged same fresh latest.table
      rw [(Table.commit_ok commits).2.2.2, (Table.commit_ok commits').2.2.2, advanced]
      exact (SameContent.refl _).values
    | _ => cases accepted
  | queue inner =>
    obtain ⟨entity, rfl, _⟩ := relates_queue.mp copy
    obtain ⟨other, rfl, same⟩ := relates_queue.mp same
    cases latest with
    | queue latest =>
      obtain ⟨_, after, shape, commits, rfl⟩ := commit_queue accepted
      obtain ⟨_, after', shape', commits', rfl⟩ := commit_queue accepted'
      cases shape
      cases shape'
      have advanced := Queue.advanced_unlogged same fresh latest
      rw [(Queue.commit_ok commits).2.2, (Queue.commit_ok commits').2.2, advanced]
      exact (SameContent.refl _).values
    | _ => cases accepted
  | bundle bases rule ih =>
    obtain ⟨slots, _, rfl, _, copies⟩ := relates_bundle.mp copy
    obtain ⟨slots', _, rfl, _, copies'⟩ := relates_bundle.mp copy'
    obtain ⟨_, _, shape, _, contents⟩ := relates_bundle.mp same
    cases shape
    cases latest with
    | bundle latests rule' =>
      obtain ⟨_, _, nexts, shape, rfl, _, commits⟩ := commit_bundle accepted
      obtain ⟨_, _, nexts', shape', rfl, _, commits'⟩ := commit_bundle accepted'
      cases shape
      cases shape'
      have quiet := every_bundle.mp untouched
      have settled := every_bundle.mp settled
      refine relates_bundle.mpr ⟨nexts', .take, rfl, trivial,
        commits.values ?_ (fun base member => (quiet base member).2) commits' copies copies'
          contents fun latest member => (settled latest member).2⟩
      intro base member entity other latest next next' fresh
      exact ih base member (quiet base member).2
    | _ => cases accepted
  | snapshot inner ih =>
    obtain ⟨entity, rfl, _, copied, _⟩ := relates_snapshot.mp copy
    obtain ⟨other, rfl, _, copied', _⟩ := relates_snapshot.mp copy'
    obtain ⟨_, shape, _, data, globals⟩ := relates_snapshot.mp same
    cases shape
    cases latest with
    | snapshot latest =>
      obtain ⟨settled, _⟩ := every_snapshot.mp settled
      obtain ⟨_, after, hosted, shape, commits, hosts, rfl⟩ := commit_inner accepted
      obtain ⟨_, after', hosted', shape', commits', hosts', rfl⟩ := commit_inner accepted'
      cases shape
      cases shape'
      have values := ih (every_snapshot.mp untouched).1 copied copied' data settled commits commits'
      have advanced := Table.advanced_unlogged globals (fresh.child 1) latest.globals
      have kept : hosted.unlogged = hosted'.unlogged := by
        rw [(Table.commit_ok hosts).2.2.2, (Table.commit_ok hosts').2.2.2, advanced]
      exact relates_snapshot.mpr ⟨_, rfl, trivial, values, kept⟩
    | _ => cases accepted

end Entity
end TransactionalMemory
