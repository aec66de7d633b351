import Mathlib.Data.List.Forall2
import TransactionalMemory.Entity

/-! Relations between two entities of the same layout. Such a relation says how the parts of either
kind have to be linked; a slot may be linked whatever its content is, or only if the contents are
related in turn. -/
namespace TransactionalMemory.Entity

section
variable {α β γ : Type} {R : α → β → Prop} {S : β → γ → Prop} {T : α → γ → Prop}

theorem forall₂_comp {firsts : List α} {seconds : List β} {thirds : List γ}
    (compose : ∀ first ∈ firsts, ∀ second third, R first second → S second third → T first third)
    (left : List.Forall₂ R firsts seconds) (right : List.Forall₂ S seconds thirds) :
    List.Forall₂ T firsts thirds := by
  induction left generalizing thirds with
  | nil =>
    cases right
    exact .nil
  | cons head tail ih =>
    cases right with
    | cons head' tail' =>
      refine .cons (compose _ List.mem_cons_self _ _ head head') (ih ?_ tail')
      exact fun first member => compose first (List.mem_cons_of_mem _ member)

theorem forall₂_of_mem {firsts : List α} {seconds : List β} {Q : α → β → Prop}
    (implies : ∀ first ∈ firsts, ∀ second, R first second → Q first second)
    (related : List.Forall₂ R firsts seconds) : List.Forall₂ Q firsts seconds := by
  induction related with
  | nil => exact .nil
  | cons head tail ih =>
    refine .cons (implies _ List.mem_cons_self _ head) (ih ?_)
    exact fun first member => implies first (List.mem_cons_of_mem _ member)

theorem forall₂_join {firsts : List α} {seconds : List β} {thirds : List γ} {Q : α → γ → Prop}
    {U : β → γ → Prop}
    (implies : ∀ first ∈ firsts, ∀ second third, R first second → Q first third →
      S second third → U second third)
    (left : List.Forall₂ R firsts seconds) (right : List.Forall₂ Q firsts thirds)
    (across : List.Forall₂ S seconds thirds) : List.Forall₂ U seconds thirds := by
  induction left generalizing thirds with
  | nil =>
    cases right
    exact .nil
  | cons head tail ih =>
    cases right with | cons head' tail' =>
    cases across with | cons head'' tail'' =>
    refine .cons (implies _ List.mem_cons_self _ _ head head' head'') (ih ?_ tail' tail'')
    exact fun first member => implies first (List.mem_cons_of_mem _ member)

theorem forall₂_getElem? {firsts : List α} {seconds : List β}
    (related : List.Forall₂ R firsts seconds) (index : Nat) :
    (firsts[index]? = none ∧ seconds[index]? = none) ∨
      ∃ first second, firsts[index]? = some first ∧ seconds[index]? = some second ∧
        R first second := by
  induction related generalizing index with
  | nil => exact .inl ⟨rfl, rfl⟩
  | cons head tail ih =>
    cases index with
    | zero => exact .inr ⟨_, _, rfl, rfl, head⟩
    | succ index => exact ih index

theorem forall₂_get {firsts : List α} {seconds : List β} {first : α} {second : β} {index : Nat}
    (related : List.Forall₂ R firsts seconds) (found : firsts[index]? = some first)
    (found' : seconds[index]? = some second) : R first second := by
  rcases forall₂_getElem? related index with ⟨missing, _⟩ | ⟨_, _, there, there', each⟩
  · rw [missing] at found
    cases found
  · rw [there] at found
    rw [there'] at found'
    cases found
    cases found'
    exact each

theorem forall₂_find {firsts : List α} {seconds : List β} {second : β} {index : Nat}
    (related : List.Forall₂ R firsts seconds) (found : seconds[index]? = some second) :
    ∃ first, firsts[index]? = some first ∧ R first second := by
  rcases forall₂_getElem? related index with ⟨_, missing⟩ | ⟨first, _, there, there', each⟩
  · rw [missing] at found
    cases found
  · rw [there'] at found
    cases found
    exact ⟨first, there, each⟩

theorem forall₂_set {firsts : List α} {seconds : List β} {first : α} {second : β}
    (related : List.Forall₂ R firsts seconds) (index : Nat) (new : R first second) :
    List.Forall₂ R (firsts.set index first) (seconds.set index second) := by
  induction related generalizing index with
  | nil => exact .nil
  | cons head tail ih =>
    cases index with
    | zero => exact .cons new tail
    | succ index => exact .cons head (ih index)

theorem forall₂_set_right {firsts : List α} {seconds : List β} {first : α} {second : β}
    (related : List.Forall₂ R firsts seconds) {index : Nat}
    (found : firsts[index]? = some first) (new : R first second) :
    List.Forall₂ R firsts (seconds.set index second) := by
  obtain ⟨bound, rfl⟩ := List.getElem?_eq_some_iff.mp found
  have both := forall₂_set related index new
  rwa [List.set_getElem_self] at both

end

/-- The links between the parts of two entities. What a slot is linked by may depend on whether
the contents are related. -/
structure Links where
  cell : Cell Value → Cell Value → Prop
  table : Table String Value → Table String Value → Prop
  multimap : Multimap String String → Multimap String String → Prop
  queue : Queue Value → Queue Value → Prop
  rule : SlotRule → SlotRule → Prop
  slot : Slot Entity → Slot Entity → Prop → Prop
  timestamp : Nat → Nat → Prop
  globals : Table Nat Value → Table Nat Value → Prop

variable (links : Links)

mutual

def Relates : Entity → Entity → Prop
  | .cell inner, .cell other => links.cell inner other
  | .table inner, .table other => links.table inner other
  | .multimap inner, .multimap other => links.multimap inner other
  | .queue inner, .queue other => links.queue inner other
  | .bundle slots rule, .bundle others rule' => links.rule rule rule' ∧ RelatesSlots slots others
  | .snapshot ⟨timestamp, data, globals⟩, .snapshot other =>
    links.timestamp timestamp other.timestamp ∧ Relates data other.data ∧
      links.globals globals other.globals
  | _, _ => False

def RelatesSlots : List (Slot Entity) → List (Slot Entity) → Prop
  | [], [] => True
  | ⟨identity, accessed, content⟩ :: slots, other :: others =>
    links.slot ⟨identity, accessed, content⟩ other (Relates content other.content) ∧
      RelatesSlots slots others
  | _, _ => False

end

def Links.SlotRelated (slot other : Slot Entity) : Prop :=
  links.slot slot other (Relates links slot.content other.content)

variable {links}

private theorem relatesSlots_iff {slots others : List (Slot Entity)} :
    RelatesSlots links slots others ↔ List.Forall₂ links.SlotRelated slots others := by
  induction slots generalizing others with
  | nil => cases others <;> simp [RelatesSlots]
  | cons slot slots ih =>
    obtain ⟨identity, accessed, content⟩ := slot
    cases others with
    | nil => simp [RelatesSlots]
    | cons other others => rw [RelatesSlots, List.forall₂_cons, ih, Links.SlotRelated]

theorem relates_cell {inner : Cell Value} {entity : Entity} :
    Relates links (.cell inner) entity ↔
      ∃ other, entity = .cell other ∧ links.cell inner other := by
  cases entity <;> simp [Relates]

theorem relates_table {inner : Table String Value} {entity : Entity} :
    Relates links (.table inner) entity ↔
      ∃ other, entity = .table other ∧ links.table inner other := by
  cases entity <;> simp [Relates]

theorem relates_multimap {inner : Multimap String String} {entity : Entity} :
    Relates links (.multimap inner) entity ↔
      ∃ other, entity = .multimap other ∧ links.multimap inner other := by
  cases entity <;> simp [Relates]

theorem relates_queue {inner : Queue Value} {entity : Entity} :
    Relates links (.queue inner) entity ↔
      ∃ other, entity = .queue other ∧ links.queue inner other := by
  cases entity <;> simp [Relates]

theorem relates_bundle {slots : List (Slot Entity)} {rule : SlotRule} {entity : Entity} :
    Relates links (.bundle slots rule) entity ↔
      ∃ others rule', entity = .bundle others rule' ∧ links.rule rule rule' ∧
        List.Forall₂ links.SlotRelated slots others := by
  cases entity <;> simp [Relates, relatesSlots_iff]

theorem relates_snapshot {snapshot : Snapshot Entity} {entity : Entity} :
    Relates links (.snapshot snapshot) entity ↔
      ∃ other, entity = .snapshot other ∧ links.timestamp snapshot.timestamp other.timestamp ∧
        Relates links snapshot.data other.data ∧ links.globals snapshot.globals other.globals := by
  obtain ⟨timestamp, data, globals⟩ := snapshot
  cases entity <;> simp [Relates]

theorem Relates.kind_eq {entity other : Entity} (related : Relates links entity other) :
    other.kind = entity.kind := by
  cases entity <;> cases other <;> first | rfl | simp [Relates] at related

theorem snapshot_of_kind {entity : Entity} (same : entity.kind = .snapshot) :
    ∃ inner, entity = .snapshot inner := by
  cases entity with
  | snapshot inner => exact ⟨inner, rfl⟩
  | _ => cases same

@[elab_as_elim]
theorem induct {motive : Entity → Prop} (cell : ∀ inner, motive (.cell inner))
    (table : ∀ inner, motive (.table inner)) (multimap : ∀ inner, motive (.multimap inner))
    (queue : ∀ inner, motive (.queue inner))
    (bundle : ∀ slots rule, (∀ slot ∈ slots, motive (Slot.content slot)) →
      motive (.bundle slots rule))
    (snapshot : ∀ inner : Snapshot Entity, motive inner.data → motive (.snapshot inner))
    (entity : Entity) : motive entity :=
  @Entity.rec motive (fun slots => ∀ slot ∈ slots, motive (Slot.content slot))
    (fun snapshot => motive (Snapshot.data snapshot)) (fun slot => motive slot.content)
    cell table multimap queue bundle snapshot nofun
    (fun _ _ head tail => List.forall_mem_cons.mpr ⟨head, tail⟩)
    (fun _ _ _ ih => ih) (fun _ _ _ ih => ih) entity

structure Links.Reflexive (links : Links) : Prop where
  cell : ∀ inner, links.cell inner inner
  table : ∀ inner, links.table inner inner
  multimap : ∀ inner, links.multimap inner inner
  queue : ∀ inner, links.queue inner inner
  rule : ∀ rule, links.rule rule rule
  slot : ∀ slot related, related → links.slot slot slot related
  timestamp : ∀ timestamp, links.timestamp timestamp timestamp
  globals : ∀ inner, links.globals inner inner

theorem Links.Reflexive.relates (reflexive : links.Reflexive) (entity : Entity) :
    Relates links entity entity := by
  induction entity using induct with
  | cell inner => exact reflexive.cell inner
  | table inner => exact reflexive.table inner
  | multimap inner => exact reflexive.multimap inner
  | queue inner => exact reflexive.queue inner
  | bundle slots rule ih =>
    refine relates_bundle.mpr ⟨slots, rule, rfl, reflexive.rule rule, List.forall₂_same.mpr ?_⟩
    intro slot member
    exact reflexive.slot slot _ (ih slot member)
  | snapshot inner ih =>
    exact relates_snapshot.mpr
      ⟨inner, rfl, reflexive.timestamp _, ih, reflexive.globals inner.globals⟩

structure Links.Implies (links later : Links) : Prop where
  cell : ∀ {inner other}, links.cell inner other → later.cell inner other
  table : ∀ {inner other}, links.table inner other → later.table inner other
  multimap : ∀ {inner other}, links.multimap inner other → later.multimap inner other
  queue : ∀ {inner other}, links.queue inner other → later.queue inner other
  rule : ∀ {rule other}, links.rule rule other → later.rule rule other
  slot : ∀ {slot other} {related related' : Prop}, (related → related') →
    links.slot slot other related → later.slot slot other related'
  timestamp : ∀ {timestamp other}, links.timestamp timestamp other →
    later.timestamp timestamp other
  globals : ∀ {inner other}, links.globals inner other → later.globals inner other

theorem Links.Implies.relates {links later : Links} (implies : links.Implies later)
    {entity other : Entity} (related : Relates links entity other) :
    Relates later entity other := by
  induction entity using induct generalizing other with
  | cell inner =>
    obtain ⟨_, rfl, related⟩ := relates_cell.mp related
    exact implies.cell related
  | table inner =>
    obtain ⟨_, rfl, related⟩ := relates_table.mp related
    exact implies.table related
  | multimap inner =>
    obtain ⟨_, rfl, related⟩ := relates_multimap.mp related
    exact implies.multimap related
  | queue inner =>
    obtain ⟨_, rfl, related⟩ := relates_queue.mp related
    exact implies.queue related
  | bundle slots rule ih =>
    obtain ⟨_, _, rfl, rules, related⟩ := relates_bundle.mp related
    refine relates_bundle.mpr ⟨_, _, rfl, implies.rule rules, forall₂_of_mem ?_ related⟩
    intro slot member other related
    exact implies.slot (ih slot member) related
  | snapshot inner ih =>
    obtain ⟨_, rfl, time, related, globals⟩ := relates_snapshot.mp related
    exact relates_snapshot.mpr ⟨_, rfl, implies.timestamp time, ih related,
      implies.globals globals⟩

/-- Two relations that make up a third one, part by part. -/
structure Links.Composes (first second composed : Links) : Prop where
  cell : ∀ {inner other last}, first.cell inner other → second.cell other last →
    composed.cell inner last
  table : ∀ {inner other last}, first.table inner other → second.table other last →
    composed.table inner last
  multimap : ∀ {inner other last}, first.multimap inner other → second.multimap other last →
    composed.multimap inner last
  queue : ∀ {inner other last}, first.queue inner other → second.queue other last →
    composed.queue inner last
  rule : ∀ {rule other last}, first.rule rule other → second.rule other last →
    composed.rule rule last
  slot : ∀ {slot other last} {related related' composed' : Prop}, (related → related' → composed') →
    first.slot slot other related → second.slot other last related' →
    composed.slot slot last composed'
  timestamp : ∀ {timestamp other last}, first.timestamp timestamp other →
    second.timestamp other last → composed.timestamp timestamp last
  globals : ∀ {inner other last}, first.globals inner other → second.globals other last →
    composed.globals inner last

theorem Links.Composes.relates {first second composed : Links}
    (composes : first.Composes second composed) {entity other last : Entity}
    (left : Relates first entity other) (right : Relates second other last) :
    Relates composed entity last := by
  induction entity using induct generalizing other last with
  | cell inner =>
    obtain ⟨_, rfl, left⟩ := relates_cell.mp left
    obtain ⟨_, rfl, right⟩ := relates_cell.mp right
    exact composes.cell left right
  | table inner =>
    obtain ⟨_, rfl, left⟩ := relates_table.mp left
    obtain ⟨_, rfl, right⟩ := relates_table.mp right
    exact composes.table left right
  | multimap inner =>
    obtain ⟨_, rfl, left⟩ := relates_multimap.mp left
    obtain ⟨_, rfl, right⟩ := relates_multimap.mp right
    exact composes.multimap left right
  | queue inner =>
    obtain ⟨_, rfl, left⟩ := relates_queue.mp left
    obtain ⟨_, rfl, right⟩ := relates_queue.mp right
    exact composes.queue left right
  | bundle slots rule ih =>
    obtain ⟨_, _, rfl, rules, left⟩ := relates_bundle.mp left
    obtain ⟨_, _, rfl, rules', right⟩ := relates_bundle.mp right
    refine relates_bundle.mpr ⟨_, _, rfl, composes.rule rules rules', forall₂_comp ?_ left right⟩
    intro slot member other last related related'
    exact composes.slot (ih slot member) related related'
  | snapshot inner ih =>
    obtain ⟨_, rfl, time, left, globals⟩ := relates_snapshot.mp left
    obtain ⟨_, rfl, time', right, globals'⟩ := relates_snapshot.mp right
    exact relates_snapshot.mpr ⟨_, rfl, composes.timestamp time time', ih left right,
      composes.globals globals globals'⟩

def Links.flip (links : Links) : Links where
  cell := fun inner other => links.cell other inner
  table := fun inner other => links.table other inner
  multimap := fun inner other => links.multimap other inner
  queue := fun inner other => links.queue other inner
  rule := fun rule other => links.rule other rule
  slot := fun slot other related => links.slot other slot related
  timestamp := fun timestamp other => links.timestamp other timestamp
  globals := fun inner other => links.globals other inner

theorem Relates.flip {entity other : Entity} (related : Relates links entity other)
    (mono : ∀ {slot other} {related related' : Prop}, (related → related') →
      links.slot slot other related → links.slot slot other related') :
    Relates links.flip other entity := by
  induction entity using Entity.induct generalizing other with
  | cell inner =>
    obtain ⟨_, rfl, related⟩ := relates_cell.mp related
    exact related
  | table inner =>
    obtain ⟨_, rfl, related⟩ := relates_table.mp related
    exact related
  | multimap inner =>
    obtain ⟨_, rfl, related⟩ := relates_multimap.mp related
    exact related
  | queue inner =>
    obtain ⟨_, rfl, related⟩ := relates_queue.mp related
    exact related
  | bundle slots rule ih =>
    obtain ⟨_, _, rfl, rules, related⟩ := relates_bundle.mp related
    refine relates_bundle.mpr ⟨_, _, rfl, rules, (forall₂_of_mem ?_ related).flip⟩
    intro slot member other related
    exact mono (ih slot member) related
  | snapshot inner ih =>
    obtain ⟨_, rfl, time, related, globals⟩ := relates_snapshot.mp related
    exact relates_snapshot.mpr ⟨_, rfl, time, ih related, globals⟩

def layoutLinks : Links where
  cell := fun _ _ => True
  table := fun _ _ => True
  multimap := fun _ _ => True
  queue := fun _ _ => True
  rule := fun _ _ => True
  slot := fun _ _ related => related
  timestamp := fun _ _ => True
  globals := fun _ _ => True

/-- The two have parts of the same kinds in the same places. -/
abbrev SameLayout : Entity → Entity → Prop :=
  Relates layoutLinks

private theorem reflexive_layout : layoutLinks.Reflexive where
  cell := fun _ => trivial
  table := fun _ => trivial
  multimap := fun _ => trivial
  queue := fun _ => trivial
  rule := fun _ => trivial
  slot := fun _ _ => id
  timestamp := fun _ => trivial
  globals := fun _ => trivial

theorem SameLayout.refl (entity : Entity) : SameLayout entity entity :=
  reflexive_layout.relates entity

/-- What is to hold in the parts of an entity. -/
structure Checks where
  cell : Cell Value → Prop
  table : Table String Value → Prop
  multimap : Multimap String String → Prop
  queue : Queue Value → Prop
  slot : Slot Entity → Prop
  globals : Table Nat Value → Prop

variable (checks : Checks)

mutual

def Every : Entity → Prop
  | .cell inner => checks.cell inner
  | .table inner => checks.table inner
  | .multimap inner => checks.multimap inner
  | .queue inner => checks.queue inner
  | .bundle slots _ => EverySlot slots
  | .snapshot ⟨_, data, globals⟩ => Every data ∧ checks.globals globals

def EverySlot : List (Slot Entity) → Prop
  | [] => True
  | ⟨identity, accessed, content⟩ :: slots =>
    checks.slot ⟨identity, accessed, content⟩ ∧ Every content ∧ EverySlot slots

end

variable {checks}

private theorem everySlot_iff {slots : List (Slot Entity)} :
    EverySlot checks slots ↔ ∀ slot ∈ slots, checks.slot slot ∧ Every checks slot.content := by
  induction slots with
  | nil => simp [EverySlot]
  | cons slot slots ih =>
    rw [EverySlot, ih, List.forall_mem_cons, and_assoc]

theorem every_bundle {slots : List (Slot Entity)} {rule : SlotRule} :
    Every checks (.bundle slots rule) ↔
      ∀ slot ∈ slots, checks.slot slot ∧ Every checks slot.content := by
  rw [Every, everySlot_iff]

theorem every_snapshot {snapshot : Snapshot Entity} :
    Every checks (.snapshot snapshot) ↔
      Every checks snapshot.data ∧ checks.globals snapshot.globals := by
  rw [Every]

def Checks.second (checks : Checks) : Links where
  cell := fun _ => checks.cell
  table := fun _ => checks.table
  multimap := fun _ => checks.multimap
  queue := fun _ => checks.queue
  rule := fun _ _ => True
  slot := fun _ slot related => checks.slot slot ∧ related
  timestamp := fun _ _ => True
  globals := fun _ => checks.globals

theorem every_iff_second {base entity : Entity} (layout : SameLayout base entity) :
    Every checks entity ↔ Relates checks.second base entity := by
  induction base using induct generalizing entity with
  | cell inner =>
    obtain ⟨_, rfl, _⟩ := relates_cell.mp layout
    rfl
  | table inner =>
    obtain ⟨_, rfl, _⟩ := relates_table.mp layout
    rfl
  | multimap inner =>
    obtain ⟨_, rfl, _⟩ := relates_multimap.mp layout
    rfl
  | queue inner =>
    obtain ⟨_, rfl, _⟩ := relates_queue.mp layout
    rfl
  | bundle slots rule ih =>
    obtain ⟨others, rule', rfl, _, layouts⟩ := relates_bundle.mp layout
    have inside : (∀ slot ∈ others, checks.slot slot ∧ Every checks slot.content) ↔
        List.Forall₂ checks.second.SlotRelated slots others := by
      clear layout
      induction layouts with
      | nil => simp
      | @cons slot other slots others head tail ih' =>
        rw [List.forall_mem_cons, List.forall₂_cons,
          ih' fun slot member => ih slot (List.mem_cons_of_mem _ member)]
        exact and_congr_left' (and_congr_right' (ih slot List.mem_cons_self head))
    rw [every_bundle, inside]
    constructor
    · exact fun related => relates_bundle.mpr ⟨_, _, rfl, trivial, related⟩
    · intro related
      obtain ⟨_, _, same, _, related⟩ := relates_bundle.mp related
      cases same
      exact related
  | snapshot inner ih =>
    obtain ⟨other, rfl, _, layout, _⟩ := relates_snapshot.mp layout
    rw [every_snapshot, ih layout]
    constructor
    · exact fun related => relates_snapshot.mpr ⟨_, rfl, trivial, related⟩
    · intro related
      obtain ⟨_, same, _, related⟩ := relates_snapshot.mp related
      cases same
      exact related

end TransactionalMemory.Entity
