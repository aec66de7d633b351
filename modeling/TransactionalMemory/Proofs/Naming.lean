import TransactionalMemory.Proofs.EntityCommit

/-! Identities that stand for one object each. A heap says what value an identity stands for; the
objects that commits make themselves are known by where their identities come from. As long as all
parts keep to that, an identity that is found again in a later entity means that nothing has
changed there. -/
namespace TransactionalMemory

/-- What a transaction may leave behind whose own objects come from the origin: values as the heap
has them, and no cleared tables. -/
def Guard.ofHeap (heap : Identity → Value) (origin : Nat) : Guard where
  value := fun object => object.content = heap object.identity
  seed := fun identity => identity.origin = origin
  child := fun same _ => same
  clearing := False

namespace Table
variable {K V : Type} [Ord K] [Std.TransOrd K] {marks marks' : Object V → Prop}
  {old old' : Nat → Prop}

structure Known (marks : Object V → Prop) (old : Nat → Prop) (table : Table K V) : Prop where
  source : old table.source.identity.origin
  marked : table.source.content.Every marks

theorem Known.imp {table : Table K V} (known : table.Known marks old)
    (marked : ∀ object, marks object → marks' object) (older : ∀ origin, old origin → old' origin) :
    table.Known marks' old' :=
  ⟨older _ known.source, known.marked.imp marked⟩

theorem Known.advanced [Std.LawfulEqOrd K] {table latest : Table K V} {fresh : Identity}
    (known : latest.Known marks old) (marked : table.modified.Every marks)
    (named : old fresh.origin) : (table.advanced fresh latest).Known marks old := by
  constructor
  · unfold Table.advanced
    split
    · exact known.source
    · exact named
  · intro key object found
    rcases entry_advanced found with kept | new
    · exact known.marked key object kept
    · exact marked key object new

end Table

namespace Entity

/-- The origins are those of objects that were made so far. -/
def knownParts (heap : Identity → Value) (old : Nat → Prop) : Checks where
  cell := fun inner => inner.source.content = heap inner.source.identity
  table := Table.Known (fun object => object.content = heap object.identity) old
  multimap := fun inner => inner.table.Known (fun object => old object.identity.origin) old
  queue := fun inner => old inner.source.identity.origin
  slot := fun _ => True
  globals := Table.Known (fun object => object.content = heap object.identity) old

abbrev Known (heap : Identity → Value) (old : Nat → Prop) : Entity → Prop :=
  Every (knownParts heap old)

variable {heap : Identity → Value} {old old' : Nat → Prop} {origin : Nat}
  {base latest entity next : Entity} {fresh : Identity}

private theorem implies_known (older : ∀ other, old other → old' other) :
    (knownParts heap old).second.Implies (knownParts heap old').second where
  cell := id
  table := fun known => known.imp (fun _ => id) older
  multimap := fun known => known.imp (fun _ => older _) older
  queue := older _
  rule := id
  slot := fun inside known => ⟨trivial, inside known.2⟩
  timestamp := id
  globals := fun known => known.imp (fun _ => id) older

theorem Known.imp (known : Known heap old entity) (older : ∀ other, old other → old' other) :
    Known heap old' entity := by
  have layout := SameLayout.refl entity
  have related := (implies_known older).relates ((every_iff_second layout).mp known)
  exact (every_iff_second layout).mpr related

theorem advances_known (older : ∀ other, old other → old' other) (made : old' origin)
    (total : Nat) : (knownParts heap old).second.Advances (.ofHeap heap origin) total
      (knownParts heap old').second where
  widen := implies_known older
  cell := by
    intro _ _ inner latest _ copy commits known
    rw [(Cell.commit_ok commits).2.2]
    show (inner.advanced latest).source.content = heap (inner.advanced latest).source.identity
    unfold Cell.advanced
    split
    · next updated => exact copy.marked updated
    · exact known
  table := by
    intro _ _ _ _ _ _ named copy commits known
    rw [(Table.commit_ok commits).2.2.2]
    exact (Table.Known.imp known (fun _ => id) older).advanced copy.marked (named ▸ made)
  multimap := by
    intro _ _ _ _ _ _ named copy commits known
    rw [(Table.commit_ok commits).2.2.2]
    refine (Table.Known.imp known (fun _ => older _) older).advanced ?_ (named ▸ made)
    exact copy.marked.imp fun object same => same ▸ made
  queue := by
    intro fresh _ latest _ inner named _ commits known
    rw [(Queue.commit_ok commits).2.2]
    show old' (inner.advanced fresh latest).source.identity.origin
    unfold Queue.advanced
    split
    · exact older _ known
    · exact named ▸ made
  rule := fun _ => trivial
  reached := fun _ inside known => ⟨trivial, inside known.2⟩
  kept := fun inside known => ⟨trivial, inside known.2⟩
  timestamp := fun _ => trivial
  globals := by
    intro _ _ _ _ _ _ named copy commits known
    rw [(Table.commit_ok commits).2.2.2]
    exact (Table.Known.imp known (fun _ => id) older).advanced copy.marked (named ▸ made)

def Links.under (links : Links) (checks : Checks) : Links where
  cell := fun base latest => checks.cell base ∧ links.cell base latest
  table := fun base latest => checks.table base ∧ links.table base latest
  multimap := fun base latest => checks.multimap base ∧ links.multimap base latest
  queue := fun base latest => checks.queue base ∧ links.queue base latest
  rule := links.rule
  slot := links.slot
  timestamp := links.timestamp
  globals := fun base latest => checks.globals base ∧ links.globals base latest

theorem later_under {checks : Checks} {polls : Nat} (every : Every checks base)
    (later : Later polls base latest) : Relates ((laterLinks polls).under checks) base latest := by
  induction base using induct generalizing latest with
  | cell inner =>
    obtain ⟨_, rfl, later⟩ := relates_cell.mp later
    exact ⟨every, later⟩
  | table inner =>
    obtain ⟨_, rfl, later⟩ := relates_table.mp later
    exact ⟨every, later⟩
  | multimap inner =>
    obtain ⟨_, rfl, later⟩ := relates_multimap.mp later
    exact ⟨every, later⟩
  | queue inner =>
    obtain ⟨_, rfl, later⟩ := relates_queue.mp later
    exact ⟨every, later⟩
  | bundle slots rule ih =>
    obtain ⟨_, _, rfl, _, later⟩ := relates_bundle.mp later
    refine relates_bundle.mpr ⟨_, _, rfl, trivial, forall₂_of_mem ?_ later⟩
    intro slot member other later
    exact ih slot member (every_bundle.mp every slot member).2 later
  | snapshot inner ih =>
    obtain ⟨_, rfl, _, later, globals⟩ := relates_snapshot.mp later
    obtain ⟨every, every'⟩ := every_snapshot.mp every
    exact relates_snapshot.mpr ⟨_, rfl, trivial, ih every later, every', globals⟩

private theorem same_object {one another : Object Value} (known : one.content = heap one.identity)
    (marked : another.content = heap another.identity) (same : one.identity = another.identity) :
    one = another := by
  cases one
  cases another
  simp_all

theorem advances_later (unused : ¬old origin) (polls total : Nat) :
    ((laterLinks polls).under (knownParts heap old)).Advances (.ofHeap heap origin) total
      (laterLinks (polls + total)) where
  widen := ⟨And.right, And.right, And.right, fun later => later.2.mono (Nat.le_add_right _ _), id,
    id, id, And.right⟩
  cell := by
    rintro base _ _ _ _ copy commits ⟨known, later⟩
    exact Cell.Later.commit later copy (fun object => same_object known) commits
  table := by
    rintro base _ _ _ _ _ named copy commits ⟨known, later⟩
    refine Table.Later.commit later copy ?_ (fun key one another found => ?_) commits
    · rintro rfl
      exact unused (named ▸ known.source)
    · exact same_object (known.marked key one found)
  multimap := by
    rintro _ base _ _ _ _ named copy commits ⟨known, later⟩
    refine Table.Later.commit later copy ?_ (fun key one another found made same => ?_) commits
    · rintro rfl
      exact unused (named ▸ known.source)
    · have old := known.marked key one found
      rw [same] at old
      exact absurd (made ▸ old) unused
  queue := by
    rintro _ base _ _ inner named few commits ⟨known, later⟩
    apply (Queue.Later.commit later _ commits).mono (Nat.add_le_add_left few _)
    rintro rfl
    exact unused (named ▸ known)
  rule := fun _ => trivial
  reached := fun _ inside => inside
  kept := fun inside => inside
  timestamp := fun _ => trivial
  globals := by
    rintro base _ _ _ _ _ named copy commits ⟨known, later⟩
    refine Table.Later.commit later copy ?_ (fun key one another found => ?_) commits
    · rintro rfl
      exact unused (named ▸ known.source)
    · exact same_object (known.marked key one found)

end Entity
end TransactionalMemory
