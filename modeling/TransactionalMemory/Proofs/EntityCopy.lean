import TransactionalMemory.Proofs.CellCopy
import TransactionalMemory.Proofs.MultimapCopy
import TransactionalMemory.Proofs.QueueCopy
import TransactionalMemory.Proofs.Relation

/-! Working copies of entities. A copy of a bundle shares the slots that nobody has reached with the
bundle that it started from; the others hold working copies in turn. Since such a copy never takes
a slot as it is, nothing that it does depends on what else is alive. -/
namespace TransactionalMemory

/-- What a transaction may leave in its copies: the objects that it may store, the identities that
its own objects have, and whether it may clear tables. -/
structure Guard where
  value : Object Value → Prop
  seed : Identity → Prop
  child : ∀ {identity}, seed identity → ∀ index, seed (identity.child index)
  clearing : Prop

def Guard.set (guard : Guard) (object : Object (ValueSet String)) : Prop :=
  guard.seed object.identity

namespace Entity

def untouchedParts : Checks where
  cell := Cell.Untouched
  table := Table.Untouched
  multimap := fun inner => inner.table.Untouched
  queue := Queue.Untouched
  slot := fun slot => slot.accessed = false
  globals := Table.Untouched

/-- Nobody has touched the entity since it was committed. -/
abbrev Untouched : Entity → Prop :=
  Every untouchedParts

def copyLinks (guard : Guard) : Links where
  cell := Cell.CopyOf guard.value
  table := Table.CopyOf guard.value guard.clearing
  multimap := fun base inner => Table.CopyOf guard.set guard.clearing base.table inner.table
  queue := Queue.CopyOf
  rule := fun _ rule => rule ≠ .take
  slot := fun base slot related => (slot.accessed = true → related) ∧
    (slot.accessed = false → slot = {base with accessed := false})
  timestamp := fun timestamp other => other = timestamp
  globals := Table.CopyOf guard.value guard.clearing

abbrev CopyOf (guard : Guard) : (base entity : Entity) → Prop :=
  Relates (copyLinks guard)

def aheadLinks : Links where
  cell := Cell.Extends
  table := Table.Extends
  multimap := fun inner later => inner.table.Extends later.table
  queue := Queue.Extends
  rule := fun _ _ => True
  slot := fun slot later related => slot.accessed = true → later.accessed = true ∧ related
  timestamp := fun _ _ => True
  globals := Table.Extends

abbrev Extends : (entity later : Entity) → Prop :=
  Relates aheadLinks

def alikeLinks : Links where
  cell := Cell.Alike
  table := Table.Alike
  multimap := fun inner other => inner.table.Alike other.table
  queue := Queue.Alike
  rule := fun _ _ => True
  slot := fun slot other related =>
    other.accessed = slot.accessed ∧ (slot.accessed = true → related)
  timestamp := fun _ _ => True
  globals := Table.Alike

/-- Two copies, perhaps of different entities, that have done the same. -/
abbrev Alike : (entity other : Entity) → Prop :=
  Relates alikeLinks

def fitLinks : Links where
  cell := Cell.Fits
  table := Table.Fits
  multimap := fun latest inner => latest.table.Fits inner.table
  queue := Queue.Fits
  rule := fun _ _ => True
  slot := fun _ slot related => slot.accessed = true → related
  timestamp := fun _ _ => True
  globals := Table.Fits

/-- What the copy has seen of its base is still so in the latest entity. -/
abbrev Fits : (latest entity : Entity) → Prop :=
  Relates fitLinks

variable {guard : Guard} {base latest entity other : Entity}

private theorem reflexive_ahead : aheadLinks.Reflexive where
  cell := .refl
  table := .refl
  multimap := fun _ => .refl _
  queue := .refl
  rule := fun _ => trivial
  slot := fun _ _ related seen => ⟨seen, related⟩
  timestamp := fun _ => trivial
  globals := .refl

theorem Extends.refl (entity : Entity) : Extends entity entity :=
  reflexive_ahead.relates entity

private theorem composes_ahead : aheadLinks.Composes aheadLinks aheadLinks where
  cell := .trans
  table := .trans
  multimap := Table.Extends.trans
  queue := .trans
  rule := fun _ _ => trivial
  slot := by
    intro _ _ _ _ _ _ inside ahead ahead' seen
    obtain ⟨seen, related⟩ := ahead seen
    obtain ⟨seen, related'⟩ := ahead' seen
    exact ⟨seen, inside related related'⟩
  timestamp := fun _ _ => trivial
  globals := .trans

theorem Extends.trans {later last : Entity} (first : Extends entity later)
    (second : Extends later last) : Extends entity last :=
  composes_ahead.relates first second

private theorem composes_fit : fitLinks.Composes aheadLinks.flip fitLinks where
  cell := fun fits ahead => ahead.fits fits
  table := fun fits ahead => ahead.fits fits
  multimap := fun fits ahead => Table.Extends.fits ahead fits
  queue := fun fits ahead => ahead.fits fits
  rule := fun _ _ => trivial
  slot := by
    intro _ _ _ _ _ _ inside fits ahead seen
    obtain ⟨seen, related⟩ := ahead seen
    exact inside (fits seen) related
  timestamp := fun _ _ => trivial
  globals := fun fits ahead => ahead.fits fits

theorem Extends.fits {later : Entity} (ahead : Extends entity later)
    (fits : Fits latest later) : Fits latest entity := by
  have behind : Relates aheadLinks.flip later entity :=
    Relates.flip ahead fun inside ahead seen => (ahead seen).imp id inside
  exact composes_fit.relates fits behind

private theorem reflexive_alike : alikeLinks.Reflexive where
  cell := .refl
  table := .refl
  multimap := fun _ => .refl _
  queue := .refl
  rule := fun _ => trivial
  slot := fun _ _ related => ⟨rfl, fun _ => related⟩
  timestamp := fun _ => trivial
  globals := .refl

theorem Alike.refl (entity : Entity) : Alike entity entity :=
  reflexive_alike.relates entity

private theorem composes_alike : alikeLinks.Composes alikeLinks.flip alikeLinks where
  cell := fun first second => first.trans second.symm
  table := fun first second => first.trans second.symm
  multimap := fun first second => first.trans (Table.Alike.symm second)
  queue := fun first second => first.trans second.symm
  rule := fun _ _ => trivial
  slot := by
    rintro _ _ _ _ _ _ inside ⟨same, related⟩ ⟨same', related'⟩
    refine ⟨same'.symm.trans same, fun seen => ?_⟩
    have seen' := same'.symm.trans (same.trans seen)
    exact inside (related seen) (related' seen')
  timestamp := fun _ _ => trivial
  globals := fun first second => first.trans second.symm

theorem Alike.trans_symm {last : Entity} (first : Alike entity other) (second : Alike last other) :
    Alike entity last := by
  have back : Relates alikeLinks.flip other last :=
    Relates.flip second fun inside alike => ⟨alike.1, fun seen => inside (alike.2 seen)⟩
  exact composes_alike.relates first back

theorem Alike.symm (alike : Alike entity other) : Alike other entity :=
  Alike.trans_symm (.refl other) alike

theorem Alike.trans {last : Entity} (first : Alike entity other) (second : Alike other last) :
    Alike entity last :=
  Alike.trans_symm first (Alike.symm second)

theorem copySlots_untouched {slots : List (Slot Entity)} (seed : Identity) (mode : CopyMode)
    (index : Nat) (untouched : ∀ slot ∈ slots, slot.accessed = false) :
    copySlots seed mode index slots = slots := by
  induction slots generalizing index with
  | nil => rfl
  | cons slot slots ih =>
    obtain ⟨identity, accessed, content⟩ := slot
    obtain ⟨rfl, rest⟩ := List.forall_mem_cons.mp untouched
    rw [copySlots, ih _ rest]
    rfl

theorem Untouched.clean (untouched : Untouched entity) (seed : Identity) :
    Untouched (entity.copy seed .clean) := by
  induction entity using Entity.induct generalizing seed with
  | cell inner => rfl
  | table inner => rfl
  | multimap inner => rfl
  | queue inner => rfl
  | bundle slots rule ih =>
    have untouched := every_bundle.mp untouched
    rw [copy, copySlots_untouched seed .clean 0 fun slot member => (untouched slot member).1]
    exact every_bundle.mpr untouched
  | snapshot inner ih =>
    rw [copy_snapshot]
    exact every_snapshot.mpr ⟨ih (every_snapshot.mp untouched).1 (seed.child 0), rfl⟩

theorem Untouched.copyOf (guard : Guard) (untouched : Untouched entity) (seed : Identity)
    (mode : CopyMode) : CopyOf guard entity (entity.copy seed mode) := by
  induction entity using induct generalizing seed with
  | cell inner =>
    rw [copy, untouched.copy_eq mode]
    exact Cell.copyOf_clean _ inner
  | table inner =>
    rw [copy, untouched.copy_eq mode]
    exact Table.copyOf_clean _ _ inner
  | multimap inner =>
    rw [copy, Multimap.copy, untouched.copy_eq mode]
    exact Table.copyOf_clean _ _ inner.table
  | queue inner =>
    rw [copy, untouched.copy_eq mode]
    exact Queue.copyOf_clean inner
  | bundle slots rule ih =>
    have untouched := every_bundle.mp untouched
    rw [copy, copySlots_untouched seed mode 0 fun slot member => (untouched slot member).1]
    refine relates_bundle.mpr ⟨slots, mode.rule, rfl, ?_, List.forall₂_same.mpr ?_⟩
    · have copied : mode.rule ≠ .take := by cases mode <;> decide
      exact copied
    · intro slot member
      have still := (untouched slot member).1
      refine ⟨fun seen => ?_, fun _ => ?_⟩
      · rw [still] at seen
        cases seen
      · rw [← still]
  | snapshot inner ih =>
    obtain ⟨data, globals⟩ := every_snapshot.mp untouched
    rw [copy_snapshot]
    refine relates_snapshot.mpr ⟨_, rfl, rfl, ih data _, ?_⟩
    rw [Snapshot.copy, Table.Untouched.copy_eq globals mode]
    exact Table.copyOf_clean _ _ inner.globals

private theorem CopyOf.extends_fresh (copy : CopyOf guard base entity) (untouched : Untouched base)
    (seed : Identity) (mode : CopyMode) : Extends (base.copy seed mode) entity := by
  induction base using induct generalizing entity seed with
  | cell inner =>
    obtain ⟨_, rfl, copy⟩ := relates_cell.mp copy
    rw [Entity.copy, untouched.copy_eq mode]
    exact Cell.CopyOf.extends_clean copy
  | table inner =>
    obtain ⟨_, rfl, copy⟩ := relates_table.mp copy
    rw [Entity.copy, untouched.copy_eq mode]
    exact Table.CopyOf.extends_clean copy
  | multimap inner =>
    obtain ⟨_, rfl, copy⟩ := relates_multimap.mp copy
    rw [Entity.copy, Multimap.copy, untouched.copy_eq mode]
    exact Table.CopyOf.extends_clean copy
  | queue inner =>
    obtain ⟨_, rfl, copy⟩ := relates_queue.mp copy
    rw [Entity.copy, untouched.copy_eq mode]
    exact Queue.CopyOf.extends_clean copy
  | bundle slots rule ih =>
    obtain ⟨_, _, rfl, _, copies⟩ := relates_bundle.mp copy
    have untouched := every_bundle.mp untouched
    rw [Entity.copy, copySlots_untouched seed mode 0 fun slot member => (untouched slot member).1]
    refine relates_bundle.mpr ⟨_, _, rfl, trivial, forall₂_of_mem ?_ copies⟩
    intro slot member other _ seen
    rw [(untouched slot member).1] at seen
    cases seen
  | snapshot inner ih =>
    obtain ⟨_, rfl, _, copy, copied⟩ := relates_snapshot.mp copy
    obtain ⟨data, globals⟩ := every_snapshot.mp untouched
    rw [copy_snapshot]
    refine relates_snapshot.mpr ⟨_, rfl, trivial, ih copy data _, ?_⟩
    rw [Snapshot.copy, Table.Untouched.copy_eq globals mode]
    exact Table.CopyOf.extends_clean copied

theorem SameLayout.alike_fresh (layout : SameLayout base latest) (untouched : Untouched base)
    (untouched' : Untouched latest) (seed seed' : Identity) (mode mode' : CopyMode) :
    Alike (base.copy seed mode) (latest.copy seed' mode') := by
  induction base using induct generalizing latest seed seed' with
  | cell inner =>
    obtain ⟨other, rfl, _⟩ := relates_cell.mp layout
    rw [copy, copy, untouched.copy_eq mode, untouched'.copy_eq mode']
    exact Cell.alike_clean inner other
  | table inner =>
    obtain ⟨other, rfl, _⟩ := relates_table.mp layout
    rw [copy, copy, untouched.copy_eq mode, untouched'.copy_eq mode']
    exact Table.alike_clean inner other
  | multimap inner =>
    obtain ⟨other, rfl, _⟩ := relates_multimap.mp layout
    rw [copy, copy, Multimap.copy, Multimap.copy, untouched.copy_eq mode,
      untouched'.copy_eq mode']
    exact Table.alike_clean inner.table other.table
  | queue inner =>
    obtain ⟨other, rfl, _⟩ := relates_queue.mp layout
    rw [copy, copy, untouched.copy_eq mode, untouched'.copy_eq mode']
    exact Queue.alike_clean inner other
  | bundle slots rule ih =>
    obtain ⟨others, _, rfl, _, layouts⟩ := relates_bundle.mp layout
    have untouched := every_bundle.mp untouched
    have untouched' := every_bundle.mp untouched'
    rw [copy, copy, copySlots_untouched seed mode 0 fun slot member => (untouched slot member).1,
      copySlots_untouched seed' mode' 0 fun slot member => (untouched' slot member).1]
    refine relates_bundle.mpr ⟨_, _, rfl, trivial, ?_⟩
    have still : List.Forall₂ (fun _ other : Slot Entity => other.accessed = false) slots others :=
      List.forall₂_iff_zip.mpr ⟨layouts.length_eq, fun pair =>
        (untouched' _ (List.of_mem_zip pair).2).1⟩
    apply forall₂_of_mem _ still
    intro slot member other quiet
    have quiet' := (untouched slot member).1
    refine ⟨quiet.trans quiet'.symm, fun seen => ?_⟩
    rw [quiet'] at seen
    cases seen
  | snapshot inner ih =>
    obtain ⟨other, rfl, _, layout, _⟩ := relates_snapshot.mp layout
    obtain ⟨data, globals⟩ := every_snapshot.mp untouched
    obtain ⟨data', globals'⟩ := every_snapshot.mp untouched'
    rw [copy_snapshot, copy_snapshot]
    refine relates_snapshot.mpr ⟨_, rfl, trivial, ih layout data data' _ _, ?_⟩
    rw [Snapshot.copy, Snapshot.copy, Table.Untouched.copy_eq globals mode,
      Table.Untouched.copy_eq globals' mode']
    exact Table.alike_clean inner.globals other.globals

/-- A dirty copy is a working copy as well, and nothing was done on the way. -/
structure Branches (guard : Guard) (base entity branch : Entity) : Prop where
  copy : CopyOf guard base branch
  ahead : Extends entity branch
  alike : Alike entity branch

structure BranchesSlots (guard : Guard) (bases slots branch : List (Slot Entity)) : Prop where
  copy : List.Forall₂ (copyLinks guard).SlotRelated bases branch
  ahead : List.Forall₂ aheadLinks.SlotRelated slots branch
  alike : List.Forall₂ alikeLinks.SlotRelated slots branch

private theorem branchesSlots {bases slots : List (Slot Entity)} (seed : Identity)
    (inside : ∀ base ∈ bases, ∀ entity, CopyOf guard base.content entity → ∀ seed,
      Branches guard base.content entity (entity.copy seed .dirty))
    (copies : List.Forall₂ (copyLinks guard).SlotRelated bases slots) (index : Nat) :
    BranchesSlots guard bases slots (copySlots seed .dirty index slots) := by
  induction copies generalizing index with
  | nil => exact ⟨.nil, .nil, .nil⟩
  | @cons base slot bases slots head tail ih =>
    obtain ⟨identity, accessed, content⟩ := slot
    obtain ⟨copy, ahead, alike⟩ :=
      ih (fun base member => inside base (List.mem_cons_of_mem _ member)) (index + 1)
    unfold copySlots
    cases accessed with
    | true =>
      obtain ⟨copy', ahead', alike'⟩ :=
        inside base List.mem_cons_self content (head.1 rfl) (seed.child index)
      exact ⟨.cons ⟨fun _ => copy', nofun⟩ copy, .cons (fun _ => ⟨rfl, ahead'⟩) ahead,
        .cons ⟨rfl, fun _ => alike'⟩ alike⟩
    | false => exact ⟨.cons head copy, .cons nofun ahead, .cons ⟨rfl, nofun⟩ alike⟩

theorem CopyOf.branch (copy : CopyOf guard base entity) (seed : Identity) :
    Branches guard base entity (entity.copy seed .dirty) := by
  induction base using induct generalizing entity seed with
  | cell inner =>
    obtain ⟨other, rfl, _⟩ := relates_cell.mp copy
    exact ⟨copy, .refl _, Cell.Alike.refl other⟩
  | table inner =>
    obtain ⟨other, rfl, _⟩ := relates_table.mp copy
    exact ⟨copy, .refl _, Table.Alike.refl other⟩
  | multimap inner =>
    obtain ⟨other, rfl, _⟩ := relates_multimap.mp copy
    exact ⟨copy, .refl _, Table.Alike.refl other.table⟩
  | queue inner =>
    obtain ⟨other, rfl, copied⟩ := relates_queue.mp copy
    rw [Entity.copy, copied.copy_dirty]
    exact ⟨copy, .refl _, Queue.Alike.refl other⟩
  | bundle slots rule ih =>
    obtain ⟨others, _, rfl, _, copies⟩ := relates_bundle.mp copy
    obtain ⟨copy', ahead, alike⟩ :=
      branchesSlots seed (fun slot member entity copy seed => ih slot member copy seed) copies 0
    unfold Entity.copy
    have copied : CopyMode.dirty.rule ≠ .take := by decide
    exact ⟨relates_bundle.mpr ⟨_, _, rfl, copied, copy'⟩,
      relates_bundle.mpr ⟨_, _, rfl, trivial, ahead⟩,
      relates_bundle.mpr ⟨_, _, rfl, trivial, alike⟩⟩
  | snapshot inner ih =>
    obtain ⟨other, rfl, time, copy, globals⟩ := relates_snapshot.mp copy
    obtain ⟨copy', ahead, alike⟩ := ih copy (seed.child 0)
    rw [copy_snapshot]
    exact ⟨relates_snapshot.mpr ⟨_, rfl, time, copy', globals⟩,
      relates_snapshot.mpr ⟨_, rfl, trivial, ahead, .refl _⟩,
      relates_snapshot.mpr ⟨_, rfl, trivial, alike, .refl _⟩⟩

/-- A slot that was reached: it was before, or it now holds a copy of the slot of the base. -/
inductive Reached (base slot : Slot Entity) (reached : Slot Entity) : Prop where
  | before (seen : slot.accessed = true) (same : reached = slot)
  | now (unseen : slot.accessed = false) (seed : Identity) (mode : CopyMode)
      (copied : reached = ⟨seed, true, base.content.copy seed mode⟩)

theorem reach_of_copy {base slot : Slot Entity} {rule : SlotRule} (safe : rule ≠ .take)
    (copy : (copyLinks guard).SlotRelated base slot) (fresh : Identity) :
    ∃ reached, Reached base slot reached ∧
      ∀ others, slot.reach others fresh rule = reached := by
  cases seen : slot.accessed with
  | true => exact ⟨slot, .before seen rfl, fun others => by simp [Slot.reach, seen]⟩
  | false =>
    have content : slot.content = base.content := by rw [copy.2 seen]
    cases rule with
    | take => exact absurd rfl safe
    | clean =>
      refine ⟨_, .now seen fresh .clean rfl, fun others => ?_⟩
      simp [Slot.reach, seen, content]
    | dirty =>
      refine ⟨_, .now seen fresh .dirty rfl, fun others => ?_⟩
      simp [Slot.reach, seen, content]

theorem Reached.accessed {base slot reached : Slot Entity} (reach : Reached base slot reached) :
    reached.accessed = true := by
  cases reach with
  | before seen same => rw [same, seen]
  | now unseen seed mode copied => rw [copied]

theorem Reached.copyOf {base slot reached : Slot Entity} (reach : Reached base slot reached)
    (copy : (copyLinks guard).SlotRelated base slot) (untouched : Untouched base.content) :
    CopyOf guard base.content reached.content := by
  cases reach with
  | before seen same =>
    rw [same]
    exact copy.1 seen
  | now unseen seed mode copied =>
    rw [copied]
    exact untouched.copyOf guard seed mode

theorem Reached.extends {base slot reached : Slot Entity} (reach : Reached base slot reached)
    {later : Slot Entity} (ahead : aheadLinks.SlotRelated slot later)
    (untouched : Untouched base.content) (seen' : later.accessed = true)
    (copy : (copyLinks guard).SlotRelated base later) :
    Extends reached.content later.content := by
  cases reach with
  | before seen same =>
    rw [same]
    exact (ahead seen).2
  | now unseen seed mode copied =>
    rw [copied]
    exact CopyOf.extends_fresh (copy.1 seen') untouched seed mode

theorem Reached.copied {base slot reached : Slot Entity} (reach : Reached base slot reached)
    {content : Entity} (copy : CopyOf guard base.content content) :
    (copyLinks guard).SlotRelated base {reached with content := content} := by
  refine ⟨fun _ => copy, fun unseen => ?_⟩
  have seen : reached.accessed = true := reach.accessed
  dsimp only at unseen
  rw [seen] at unseen
  cases unseen

theorem Reached.ahead {base slot reached : Slot Entity} (reach : Reached base slot reached)
    {content : Entity} (further : Extends reached.content content) :
    aheadLinks.SlotRelated slot {reached with content := content} := by
  intro before
  refine ⟨reach.accessed, ?_⟩
  cases reach with
  | before seen same =>
    rw [same] at further
    exact further
  | now unseen seed mode copied =>
    rw [unseen] at before
    cases before

theorem Reached.alike {base slot reached base' slot' reached' : Slot Entity}
    (reach : Reached base slot reached) (reach' : Reached base' slot' reached')
    (layout : SameLayout base.content base'.content) (untouched : Untouched base.content)
    (untouched' : Untouched base'.content) (alike : alikeLinks.SlotRelated slot slot') :
    Alike reached.content reached'.content := by
  obtain ⟨same, inside⟩ := alike
  cases reach with
  | before seen kept =>
    cases reach' with
    | before seen' kept' =>
      rw [kept, kept']
      exact inside seen
    | now unseen' seed' mode' copied' =>
      rw [unseen', seen] at same
      cases same
  | now unseen seed mode copied =>
    cases reach' with
    | before seen' kept' =>
      rw [seen', unseen] at same
      cases same
    | now unseen' seed' mode' copied' =>
      rw [copied, copied']
      exact layout.alike_fresh untouched untouched' seed seed' mode mode'

end Entity
end TransactionalMemory
