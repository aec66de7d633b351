import TransactionalMemory.Proofs.CommittedState
import TransactionalMemory.Proofs.Eager
import TransactionalMemory.Proofs.Visit

/-! Lazy bundles against eager ones. Every step takes a lazy entity and the eager one of the same
content to entities of the same content again, whatever the lazy one shares with others; all that
it takes is that a slot that counts as untouched holds an untouched entity. -/
namespace TransactionalMemory

namespace Entity

mutual

/-- The eager entity of the same content. What is shared, and how it is to be copied, is lost. -/
def eager : Entity → Eager
  | .cell inner => .cell inner
  | .table inner => .table inner
  | .multimap inner => .multimap inner
  | .queue inner => .queue inner
  | .bundle slots _ => .bundle (eagerSlots slots)
  | .snapshot ⟨timestamp, data, globals⟩ => .snapshot ⟨timestamp, data.eager, globals⟩

def eagerSlots : List (Slot Entity) → List (EagerSlot Eager)
  | [] => []
  | ⟨_, accessed, content⟩ :: slots => ⟨accessed, content.eager⟩ :: eagerSlots slots

end

private theorem eagerSlots_eq (slots : List (Slot Entity)) :
    eagerSlots slots = slots.map fun slot => ⟨slot.accessed, slot.content.eager⟩ := by
  induction slots with
  | nil => rfl
  | cons slot slots ih => rw [eagerSlots, ih, List.map_cons]

@[simp] theorem length_eagerSlots (slots : List (Slot Entity)) :
    (eagerSlots slots).length = slots.length := by
  simp [eagerSlots_eq]

@[simp] theorem any_eagerSlots (slots : List (Slot Entity)) :
    (eagerSlots slots).any (·.accessed) = slots.any (·.accessed) := by
  simp [eagerSlots_eq, Function.comp_def]

@[simp] theorem kind_eager (entity : Entity) : entity.eager.kind = entity.kind := by
  cases entity <;> rfl

@[simp] theorem flags_eager (entity : Entity) : entity.eager.flags = entity.flags := by
  cases entity with
  | bundle slots rule => simp [eager, Eager.flags, flags, eagerSlots_eq]
  | _ => rfl

private theorem shedsSlots_iff {slots : List (Slot Entity)} :
    ShedsSlots slots ↔
      ∀ slot ∈ slots, if slot.accessed then Sheds slot.content else Untouched slot.content := by
  induction slots with
  | nil => simp [ShedsSlots]
  | cons slot slots ih => rw [ShedsSlots, ih, List.forall_mem_cons]

private theorem Untouched.sheds {entity : Entity} (untouched : Untouched entity) :
    Sheds entity := by
  induction entity using induct with
  | bundle slots rule ih =>
    refine shedsSlots_iff.mpr fun slot member => ?_
    obtain ⟨unseen, still⟩ := every_bundle.mp untouched slot member
    rw [show slot.accessed = false from unseen, if_neg Bool.false_ne_true]
    exact still
  | snapshot inner ih => exact ih (every_snapshot.mp untouched).1
  | _ => trivial

private theorem Untouched.eager_copy {entity : Entity} (untouched : Untouched entity)
    (mode : CopyMode) : entity.eager.copy mode = entity.eager := by
  induction entity using induct with
  | cell inner => rw [eager, Eager.copy, untouched.copy_eq mode, untouched]
  | table inner => rw [eager, Eager.copy, untouched.copy_eq mode, untouched]
  | multimap inner => rw [eager, Eager.copy, Multimap.copy, untouched.copy_eq mode, untouched]
  | queue inner => rw [eager, Eager.copy, untouched.copy_eq mode, untouched]
  | bundle slots rule ih =>
    replace untouched := every_bundle.mp untouched
    rw [eager, Eager.copy]
    congr 1
    induction slots with
    | nil => rfl
    | cons slot slots ih' =>
      obtain ⟨⟨unseen, still⟩, rest⟩ := List.forall_mem_cons.mp untouched
      obtain ⟨first, later⟩ := List.forall_mem_cons.mp ih
      obtain ⟨identity, accessed, content⟩ := slot
      obtain rfl : accessed = false := unseen
      rw [eagerSlots, Eager.copySlots, ih' later rest, first still]
      rfl
  | snapshot inner ih =>
    obtain ⟨data, globals⟩ := every_snapshot.mp untouched
    have hosted : inner.globals.copy mode = inner.globals := by
      rw [Table.Untouched.copy_eq globals mode, globals]
    rw [eager, Eager.copy, ih data, hosted]

private theorem eager_copySlots {slots : List (Slot Entity)} {mode : CopyMode}
    (inside : ∀ slot ∈ slots, ∀ seed, Sheds slot.content →
      (slot.content.copy seed mode).eager = slot.content.eager.copy mode ∧
        Sheds (slot.content.copy seed mode))
    (sheds : ShedsSlots slots) (seed : Identity) (index : Nat) :
    eagerSlots (copySlots seed mode index slots) = Eager.copySlots mode (eagerSlots slots) ∧
      ShedsSlots (copySlots seed mode index slots) := by
  induction slots generalizing index with
  | nil => exact ⟨rfl, trivial⟩
  | cons slot slots ih =>
    obtain ⟨identity, accessed, content⟩ := slot
    obtain ⟨first, rest⟩ := sheds
    obtain ⟨same, later⟩ :=
      ih (fun slot member => inside slot (List.mem_cons_of_mem _ member)) rest (index + 1)
    cases accessed with
    | true =>
      obtain ⟨same', first'⟩ := inside _ List.mem_cons_self (seed.child index) first
      rw [copySlots, if_pos rfl, eagerSlots, eagerSlots, Eager.copySlots, same, same']
      refine ⟨by cases mode <;> rfl, ?_, later⟩
      cases mode with
      | clean => exact (untouched_copy_iff (seed.child index) content).mpr first
      | dirty => exact first'
    | false =>
      rw [copySlots, if_neg Bool.false_ne_true, eagerSlots, eagerSlots, Eager.copySlots, same,
        Untouched.eager_copy first]
      exact ⟨rfl, first, later⟩

private theorem eager_copy {entity : Entity} (sheds : Sheds entity) (seed : Identity)
    (mode : CopyMode) :
    (entity.copy seed mode).eager = entity.eager.copy mode ∧ Sheds (entity.copy seed mode) := by
  induction entity using induct generalizing seed with
  | bundle slots rule ih =>
    obtain ⟨same, later⟩ :=
      eager_copySlots (fun slot member seed sheds => ih slot member sheds seed) sheds seed 0
    rw [copy, eager, eager, Eager.copy, same]
    exact ⟨rfl, later⟩
  | snapshot inner ih =>
    obtain ⟨same, later⟩ := ih sheds (seed.child 0)
    rw [copy_snapshot, Snapshot.copy, eager, eager, Eager.copy, same]
    exact ⟨rfl, later⟩
  | _ => exact ⟨rfl, trivial⟩

/-- However a slot is reached, it comes to the same content. -/
theorem eager_reach {slot : Slot Entity}
    (sheds : if slot.accessed then Sheds slot.content else Untouched slot.content)
    (others : List (Slot Entity)) (fresh : Identity) (rule : SlotRule) :
    (slot.reach others fresh rule).accessed = true ∧
      (slot.reach others fresh rule).content.eager = slot.content.eager ∧
      Sheds (slot.reach others fresh rule).content := by
  unfold Slot.reach
  cases seen : slot.accessed with
  | true =>
    rw [seen, if_pos rfl] at sheds
    exact ⟨seen, rfl, sheds⟩
  | false =>
    rw [seen, if_neg Bool.false_ne_true] at sheds
    have copied (mode : CopyMode) :
        (slot.content.copy fresh mode).eager = slot.content.eager ∧
          Sheds (slot.content.copy fresh mode) := by
      rw [← Untouched.eager_copy sheds mode]
      exact eager_copy sheds.sheds fresh mode
    rw [if_neg Bool.false_ne_true]
    split
    · split
      · exact ⟨rfl, copied .dirty⟩
      · exact ⟨rfl, rfl, sheds.sheds⟩
    · exact ⟨rfl, copied .dirty⟩
    · exact ⟨rfl, copied .clean⟩

/-- The two actions do the same, up to `view` on what they yield. -/
structure Agrees {α β : Type} (view : α → β) (Good : α → Prop)
    (act : Identity → Entity → Option (α × Entity))
    (act' : Identity → Eager → Option (β × Eager)) : Prop where
  same : ∀ {entity}, Sheds entity → ∀ seed,
    act' seed entity.eager = (act seed entity).map (Prod.map view eager)
  keeps : ∀ {entity}, Sheds entity → ∀ {seed value after}, act seed entity = some (value, after) →
    Good value ∧ Sheds after

/-- What a visit of a lazy entity and of the eager one have in common. -/
structure Visited {α β : Type} (view : α → β) (Good : α → Prop)
    (lazy : Option (Except Failure α) × Entity) (eager : Option (Except Failure β) × Eager) :
    Prop where
  same : eager = lazy.map (Option.map (Except.map view)) Entity.eager
  sheds : Sheds lazy.2
  good : ∀ value, lazy.1 = some (.ok value) → Good value

section
variable {α β : Type} {view : α → β} {Good : α → Prop}
  {act : Identity → Entity → Option (α × Entity)} {act' : Identity → Eager → Option (β × Eager)}
  {entity : Entity}

private theorem Visited.still (sheds : Sheds entity) :
    Visited view Good (none, entity) (none, entity.eager) :=
  ⟨rfl, sheds, nofun⟩

private theorem Visited.refused (sheds : Sheds entity) (failure : Failure) :
    Visited view Good (some (.error failure), entity) (some (.error failure), entity.eager) :=
  ⟨rfl, sheds, nofun⟩

private theorem Agrees.nil (agrees : Agrees view Good act act') (sheds : Sheds entity)
    (others : List (Slot Entity)) (seed : Identity) (target : Kind) :
    Visited view Good (entity.visit others seed target act [])
      (entity.eager.visit seed target act' []) := by
  have same := agrees.same sheds seed
  rw [visit, Eager.visit, same]
  cases acted : act seed entity with
  | none => exact .still sheds
  | some result =>
    obtain ⟨value, after⟩ := result
    obtain ⟨good, kept⟩ := agrees.keeps sheds acted
    refine ⟨rfl, kept, ?_⟩
    rintro _ ⟨⟩
    exact good

private theorem sheds_set {slots : List (Slot Entity)} (sheds : ShedsSlots slots) (index : Nat)
    {slot : Slot Entity} (seen : slot.accessed = true) (after : Sheds slot.content) :
    ShedsSlots (slots.set index slot) := by
  refine shedsSlots_iff.mpr fun other member => ?_
  rcases List.mem_or_eq_of_mem_set member with old | rfl
  · exact shedsSlots_iff.mp sheds other old
  · rw [seen, if_pos rfl]
    exact after

private theorem eagerSlots_set (slots : List (Slot Entity)) (index : Nat) (slot : Slot Entity) :
    eagerSlots (slots.set index slot) =
      (eagerSlots slots).set index ⟨slot.accessed, slot.content.eager⟩ := by
  rw [eagerSlots_eq, eagerSlots_eq, List.map_set]

private theorem visit_eager (agrees : Agrees view Good act act') (path : List Hop)
    (sheds : Sheds entity) (others : List (Slot Entity)) (seed : Identity) (target : Kind) :
    Visited view Good (entity.visit others seed target act path)
      (entity.eager.visit seed target act' path) := by
  induction path generalizing entity others seed with
  | nil => exact agrees.nil sheds others seed target
  | cons hop path ih =>
    cases hop with
    | slot index handle =>
      cases entity with
      | bundle slots rule =>
        have found : (eagerSlots slots)[index]? =
            slots[index]?.map fun slot => ⟨slot.accessed, slot.content.eager⟩ := by
          rw [eagerSlots_eq, List.getElem?_map]
        rw [eager, Eager.visit, found]
        cases there : slots[index]? with
        | none =>
          rw [visit_missing there]
          exact .refused sheds _
        | some slot =>
          simp only [Option.map_some, kind_eager]
          by_cases fitting : slot.content.kind = handle.getD (expected target path)
          · have inside := shedsSlots_iff.mp sheds slot (List.mem_of_getElem? there)
            obtain ⟨seen, content, reached⟩ := eager_reach inside (slots.eraseIdx index ++ others)
              (seed.child index) rule
            obtain ⟨same, after, good⟩ := ih reached (slots.eraseIdx index ++ others)
              (seed.child index)
            rw [content] at same
            rw [if_pos fitting, visit_slot there fitting rfl rfl, same]
            refine ⟨?_, sheds_set sheds index seen after, good⟩
            simp only [Prod.map, eager, eagerSlots_set, seen, id]
          · rw [if_neg fitting, visit_unfit there fitting]
            exact .refused sheds _
      | _ => exact .still sheds
    | data =>
      cases entity with
      | snapshot inner =>
        have inside : Sheds inner.data := sheds
        obtain ⟨same, after, good⟩ := ih inside others (seed.child 0)
        rw [visit_data rfl, eager, Eager.visit, same]
        exact ⟨rfl, after, good⟩
      | _ => exact .still sheds

end

private theorem agrees_act (query : Query) :
    Agrees id (fun _ => True) query.act (Eager.act query) where
  same {entity} sheds seed := by
    cases query with
    | request asked =>
      cases entity <;> cases asked <;> rfl
    | flags kind =>
      rw [Eager.act, Query.act, kind_eager, flags_eager]
      split <;> rfl
    | timestamp => cases entity <;> rfl
  keeps {entity} sheds {seed value after} acted := by
    refine ⟨trivial, ?_⟩
    cases query with
    | request asked => cases entity <;> cases asked <;> cases acted <;> trivial
    | flags kind =>
      rw [Query.act] at acted
      split at acted
      · cases acted
        exact sheds
      · cases acted
    | timestamp =>
      cases entity with
      | snapshot inner =>
        cases acted
        exact sheds
      | _ => cases acted

private theorem agrees_hand :
    Agrees eager Sheds (fun _ entity => some (entity, entity))
      (fun _ entity => some (entity, entity)) where
  same _ _ := rfl
  keeps sheds _ _ _ acted := by
    cases acted
    exact ⟨sheds, sheds⟩

private theorem settle_eager {α : Type} (wrap : α → Entity) (wrap' : α → Eager)
    (wrapped : ∀ value, (wrap value).eager = wrap' value) (sheds : ∀ value, Sheds (wrap value))
    (before : α) (outcome : Except Failure α) :
    Eager.settle wrap' before outcome = (settle wrap before outcome).map id eager ∧
      Sheds (settle wrap before outcome).2 := by
  cases outcome with
  | error failure => exact ⟨by rw [Eager.settle, settle, Prod.map, wrapped]; rfl, sheds before⟩
  | ok after => exact ⟨by rw [Eager.settle, settle, Prod.map, wrapped]; rfl, sheds after⟩

private theorem mergeSlots_eager {branch : List (Slot Entity)} (seed : Identity) (mode : MergeMode)
    (rule : SlotRule)
    (inside : ∀ slot ∈ branch, ∀ {target}, Sheds target → ∀ others seed,
      slot.content.eager.merge mode target.eager =
          (slot.content.merge others seed mode target).map id eager ∧
        Sheds (slot.content.merge others seed mode target).2)
    {slots : List (Slot Entity)} (sheds : ShedsSlots slots) (others : List (Slot Entity))
    (index : Nat) :
    Eager.mergeSlots mode (eagerSlots branch) (eagerSlots slots) =
        (mergeSlots others seed mode rule index branch slots).map id eagerSlots ∧
      ShedsSlots (mergeSlots others seed mode rule index branch slots).2 := by
  induction branch generalizing slots others index with
  | nil => cases slots <;> exact ⟨rfl, sheds⟩
  | cons branchSlot branch ih =>
    obtain ⟨identity, accessed, content⟩ := branchSlot
    cases slots with
    | nil => cases accessed <;> exact ⟨rfl, trivial⟩
    | cons slot slots =>
      obtain ⟨first, rest⟩ := sheds
      have later := ih (fun slot member => inside slot (List.mem_cons_of_mem _ member)) rest
      cases accessed with
      | true =>
        have reach := eager_reach first (content.slots ++ (slots ++ branch ++ others))
          (seed.child index) rule
        simp only [mergeSlots, eagerSlots, Eager.mergeSlots]
        generalize slot.reach _ _ _ = found at reach ⊢
        obtain ⟨name, _, target⟩ := found
        obtain ⟨rfl, same, reached⟩ := reach
        obtain ⟨same', after⟩ := inside _ List.mem_cons_self reached (slots ++ branch ++ others)
          (seed.child index)
        rw [← same, same']
        rcases went : content.merge (slots ++ branch ++ others) (seed.child index) mode target
          with ⟨refusal, merged⟩
        rw [went] at after
        cases refusal with
        | some failure => exact ⟨rfl, after, rest⟩
        | none =>
          obtain ⟨same, kept⟩ := later (⟨name, true, merged⟩ :: others) (index + 1)
          rw [Prod.map, same]
          exact ⟨rfl, after, kept⟩
      | false =>
        obtain ⟨same, kept⟩ := later (slot :: others) (index + 1)
        rw [mergeSlots, eagerSlots, eagerSlots, Eager.mergeSlots, same]
        exact ⟨rfl, first, kept⟩

private theorem merge_eager (branch : Entity) {target : Entity} (sheds : Sheds target)
    (others : List (Slot Entity)) (seed : Identity) (mode : MergeMode) :
    branch.eager.merge mode target.eager = (branch.merge others seed mode target).map id eager ∧
      Sheds (branch.merge others seed mode target).2 := by
  induction branch using induct generalizing target others seed with
  | cell inner =>
    cases target with
    | cell target =>
      exact settle_eager .cell .cell (fun _ => rfl) (fun _ => trivial) target _
    | _ => exact ⟨rfl, sheds⟩
  | table inner =>
    cases target with
    | table target =>
      exact settle_eager .table .table (fun _ => rfl) (fun _ => trivial) target _
    | _ => exact ⟨rfl, sheds⟩
  | multimap inner =>
    cases target with
    | multimap target =>
      exact settle_eager .multimap .multimap (fun _ => rfl) (fun _ => trivial) target _
    | _ => exact ⟨rfl, sheds⟩
  | queue inner =>
    cases target with
    | queue target =>
      exact settle_eager .queue .queue (fun _ => rfl) (fun _ => trivial) target _
    | _ => exact ⟨rfl, sheds⟩
  | bundle branch rule ih =>
    cases target with
    | bundle slots rule' =>
      rw [eager, eager, Eager.merge, merge, length_eagerSlots, length_eagerSlots]
      split
      · obtain ⟨same, kept⟩ := mergeSlots_eager seed mode rule'
          (fun slot member target sheds others seed => ih slot member sheds others seed) sheds
          others 0
        rw [same]
        exact ⟨rfl, kept⟩
      · exact ⟨rfl, sheds⟩
    | _ => exact ⟨rfl, sheds⟩
  | snapshot inner ih =>
    cases target with
    | snapshot target =>
      have inside : Sheds target.data := sheds
      obtain ⟨same, kept⟩ := ih inside others (seed.child 0)
      rw [eager, eager, Eager.merge, merge_snapshot, Snapshot.merge]
      dsimp only
      split
      · rw [same]
        rcases went : inner.data.merge others (seed.child 0) mode target.data with ⟨refusal, data⟩
        rw [went] at kept
        cases refusal with
        | some failure => exact ⟨rfl, kept⟩
        | none => cases inner.globals.merge mode target.globals <;> exact ⟨rfl, kept⟩
      · exact ⟨rfl, sheds⟩
    | _ => exact ⟨rfl, sheds⟩

private theorem agrees_merge (branch : Entity) (others : List (Slot Entity)) (mode : MergeMode) :
    Agrees id (fun _ => True) (fun fresh target => some (branch.merge others fresh mode target))
      (fun _ target => some (branch.eager.merge mode target)) where
  same sheds seed := congrArg some (merge_eager branch sheds others seed mode).1
  keeps sheds seed _ _ merged := by
    have after := (merge_eager branch sheds others seed mode).2
    rw [Option.some.inj merged] at after
    exact ⟨trivial, after⟩

private theorem commitSlots_eager {slots : List (Slot Entity)} (fresh : Identity)
    (inside : ∀ slot ∈ slots, ∀ fresh latest,
      slot.content.eager.commit fresh latest.eager =
        (slot.content.commit fresh latest).map eager)
    (index : Nat) (latests : List (Slot Entity)) :
    Eager.commitSlots fresh index (eagerSlots slots) (eagerSlots latests) =
      (commitSlots fresh index slots latests).map eagerSlots := by
  induction slots generalizing index latests with
  | nil => cases latests <;> rfl
  | cons slot slots ih =>
    obtain ⟨identity, accessed, content⟩ := slot
    cases latests with
    | nil => cases accessed <;> rfl
    | cons latest latests =>
      have rest := ih (fun slot member => inside slot (List.mem_cons_of_mem _ member)) (index + 1)
        latests
      cases accessed with
      | true =>
        have first : content.eager.commit (fresh.child index) latest.content.eager =
            (content.commit (fresh.child index) latest.content).map eager :=
          inside _ List.mem_cons_self _ _
        rw [commitSlots, eagerSlots, eagerSlots, Eager.commitSlots, rest, first]
        cases content.commit (fresh.child index) latest.content with
        | error failure => rfl
        | ok committed => cases commitSlots fresh (index + 1) slots latests <;> rfl
      | false =>
        rw [commitSlots, eagerSlots, eagerSlots, Eager.commitSlots, rest]
        cases commitSlots fresh (index + 1) slots latests <;> rfl

private theorem commit_eager (entity latest : Entity) (fresh : Identity) :
    entity.eager.commit fresh latest.eager = (entity.commit fresh latest).map eager := by
  induction entity using induct generalizing latest fresh with
  | cell inner =>
    cases latest with
    | cell latest =>
      rw [eager, eager, Eager.commit, commit]
      cases inner.commit latest <;> rfl
    | _ => rfl
  | table inner =>
    cases latest with
    | table latest =>
      rw [eager, eager, Eager.commit, commit]
      cases inner.commit fresh latest <;> rfl
    | _ => rfl
  | multimap inner =>
    cases latest with
    | multimap latest =>
      rw [eager, eager, Eager.commit, commit]
      cases inner.commit fresh latest <;> rfl
    | _ => rfl
  | queue inner =>
    cases latest with
    | queue latest =>
      rw [eager, eager, Eager.commit, commit]
      cases inner.commit fresh latest <;> rfl
    | _ => rfl
  | bundle slots rule ih =>
    cases latest with
    | bundle latests rule' =>
      rw [eager, eager, Eager.commit, commit, length_eagerSlots, length_eagerSlots, any_eagerSlots,
        commitSlots_eager fresh (fun slot member fresh latest => ih slot member latest fresh)]
      split
      · rfl
      split
      · rfl
      · cases commitSlots fresh 0 slots latests <;> rfl
    | _ => rfl
  | snapshot inner ih =>
    cases latest with
    | snapshot latest =>
      rw [eager, eager, Eager.commit, commit_snapshot, Snapshot.commit]
      dsimp only
      rw [ih]
      cases inner.data.commit (fresh.child 0) latest.data with
      | error failure => rfl
      | ok data => cases inner.globals.commit (fresh.child 1) latest.globals <;> rfl
    | _ => rfl

private theorem commit_sheds {entity latest next : Entity} {fresh : Identity} (sheds : Sheds latest)
    (accepted : entity.commit fresh latest = .ok next) : Sheds next := by
  induction latest using induct generalizing entity next fresh with
  | cell latest =>
    obtain ⟨_, _, _, _, rfl⟩ := commit_cell accepted
    trivial
  | table latest =>
    obtain ⟨_, _, _, _, rfl⟩ := commit_table accepted
    trivial
  | multimap latest =>
    obtain ⟨_, _, _, _, rfl⟩ := commit_multimap accepted
    trivial
  | queue latest =>
    obtain ⟨_, _, _, _, rfl⟩ := commit_queue accepted
    trivial
  | bundle latests rule ih =>
    -- A commit does not go onto slots that were accessed, so all of them are untouched.
    obtain ⟨_, _, _, _, _, ⟨_, settled⟩, _⟩ := commit_bundle accepted
    apply Untouched.sheds
    apply commit_untouched accepted
    refine every_bundle.mpr fun slot member => ?_
    have still := shedsSlots_iff.mp sheds slot member
    rw [settled slot member, if_neg Bool.false_ne_true] at still
    exact ⟨settled slot member, still⟩
  | snapshot latest ih =>
    obtain ⟨_, data, _, _, first, _, rfl⟩ := commit_inner accepted
    have after : Sheds data := ih sheds first
    exact after

end Entity

namespace Regime
open Entity

/-- Both pools hold the same entities, and the lazy ones hide nothing. -/
structure Paired (pool : List Entity) (pool' : List Eager) : Prop where
  same : pool' = pool.map Entity.eager
  sheds : ∀ entity ∈ pool, Sheds entity

/-- Two steps that yield the same and leave the same entities. -/
def InStep {U : Type} (outcome : U × List Entity) (outcome' : U × List Eager) : Prop :=
  outcome.1 = outcome'.1 ∧ Paired outcome.2 outcome'.2

section
variable {pool : List Entity} {pool' : List Eager}

theorem Paired.add (paired : Paired pool pool') {entity : Entity} (sheds : Sheds entity) :
    Paired (pool ++ [entity]) (pool' ++ [entity.eager]) := by
  constructor
  · simp [paired.same]
  · refine List.forall_mem_append.mpr ⟨paired.sheds, ?_⟩
    simpa using sheds

theorem Paired.drop (paired : Paired pool pool') (index : Nat) :
    Paired (pool.eraseIdx index) (pool'.eraseIdx index) := by
  constructor
  · rw [paired.same, List.eraseIdx_map]
  · exact fun entity member => paired.sheds entity (List.mem_of_mem_eraseIdx member)

theorem Paired.replace (paired : Paired pool pool') (index : Nat) {entity : Entity}
    (sheds : Sheds entity) : Paired (pool.set index entity) (pool'.set index entity.eager) := by
  constructor
  · rw [paired.same, List.map_set]
  · intro other member
    rcases List.mem_or_eq_of_mem_set member with old | rfl
    · exact paired.sheds other old
    · exact sheds

private theorem Paired.get (paired : Paired pool pool') (index : Nat) :
    pool'[index]? = pool[index]?.map Entity.eager := by
  rw [paired.same, List.getElem?_map]

variable {α β : Type} {view : α → β} {Good : α → Prop}
  {act : Identity → Entity → Option (α × Entity)} {act' : Identity → Eager → Option (β × Eager)}

/-- Reaching a spot comes to the same in both pools, and what follows from there goes on so. -/
theorem Paired.follow (paired : Paired pool pool') (agrees : Agrees view Good act act')
    (others others' : List (Slot Entity)) (seed : Identity) (spot : Spot)
    {next : α → List Entity → Upshot × List Entity} {next' : β → List Eager → Upshot × List Eager}
    (after : ∀ {value pool pool'}, Good value → Paired pool pool' →
      InStep (next value pool) (next' (view value) pool')) :
    InStep (Upshot.follow next (lazy.reach others seed spot act pool))
      (Upshot.follow next' (eager.reach others' seed spot act' pool')) := by
  rw [reach, reach, paired.get]
  cases there : pool[spot.holder]? with
  | none => exact ⟨rfl, paired⟩
  | some entity =>
    have sheds := paired.sheds entity (List.mem_of_getElem? there)
    obtain ⟨same, kept, good⟩ := visit_eager agrees spot.path sheds others seed spot.kind
    simp only [Option.map_some, lazy, eager] at same kept good ⊢
    rw [same]
    rcases went : entity.visit others seed spot.kind act spot.path with ⟨answer, changed⟩
    rw [went] at kept good
    have paired := paired.replace spot.holder kept
    rcases answer with _ | failure | value
    · exact ⟨rfl, paired⟩
    · exact ⟨rfl, paired⟩
    · exact after (good value rfl) paired

end

private theorem Paired.operate {pool : List Entity} {pool' : List Eager}
    (paired : Paired pool pool') (alive alive' : Identity → List (Slot Entity)) (seed : Identity)
    (operation : Operation) :
    InStep (lazy.operate alive seed operation pool)
      (eager.operate alive' seed operation pool') := by
  cases operation with
  | ask spot query =>
    exact paired.follow (agrees_act query) _ _ _ spot fun _ paired => ⟨rfl, paired⟩
  | copy spot mode =>
    refine paired.follow agrees_hand _ _ _ spot fun sheds paired => ⟨rfl, ?_⟩
    obtain ⟨same, copied⟩ := eager_copy sheds (seed.child 1) mode
    have added := paired.add copied
    rwa [same] at added
  | merge branch spot mode =>
    simp only [Regime.operate, paired.get]
    cases pool[branch]? with
    | none => exact ⟨rfl, paired⟩
    | some entity =>
      exact paired.follow (agrees_merge entity _ mode) _ _ _ spot fun _ paired =>
        ⟨rfl, paired.drop branch⟩
  | commit spot latest =>
    refine paired.follow agrees_hand _ _ _ spot fun {entity} _ _ _ paired => ?_
    refine paired.follow agrees_hand _ _ _ latest fun {latest} _ _ sheds paired => ?_
    have same := commit_eager entity latest (seed.child 2)
    simp only [lazy, eager, same]
    cases accepted : entity.commit (seed.child 2) latest with
    | error failure => exact ⟨rfl, paired⟩
    | ok next => exact ⟨rfl, paired.add (commit_sheds sheds accepted)⟩

theorem Paired.run {pool : List Entity} {pool' : List Eager} (paired : Paired pool pool')
    (alive alive' : Identity → List (Slot Entity)) (operations : List Operation)
    (seed : Identity) :
    InStep (lazy.run alive operations seed pool) (eager.run alive' operations seed pool') := by
  induction operations generalizing seed pool pool' with
  | nil => exact ⟨rfl, paired⟩
  | cons operation operations ih =>
    obtain ⟨same, paired⟩ := paired.operate alive alive' (seed.child 0) operation
    obtain ⟨rest, paired⟩ := ih paired (seed.child 1)
    refine ⟨?_, paired⟩
    simp only [Regime.run, Prod.map_fst, same, rest]

/-- Copied lazily or eagerly, untouched entities and all that becomes of them give the same answers
and flags, refuse the same with the same failures, and have the same contents after every
operation. What else holds their slots does not matter. -/
theorem lazy_agrees (alive : Identity → List (Slot Entity)) (operations : List Operation)
    (seed : Identity) (pool : List Entity) (untouched : ∀ entity ∈ pool, Untouched entity) :
    eager.run (fun _ => []) operations seed (pool.map Entity.eager) =
      (lazy.run alive operations seed pool).map id (List.map Entity.eager) := by
  have paired : Paired pool (pool.map Entity.eager) :=
    ⟨rfl, fun entity member => (untouched entity member).sheds⟩
  obtain ⟨same, after⟩ := paired.run alive (fun _ => []) operations seed
  exact Prod.ext same.symm after.same

/-- A cell beside a bundle that holds a queue. -/
def nestedBundle : Entity :=
  .bundle
    [⟨⟨0, [0]⟩, false, .cell (.ofObject ⟨⟨0, [1]⟩, .null⟩)⟩,
      ⟨⟨0, [2]⟩, false, .bundle [⟨⟨0, [3]⟩, false, .queue (.ofItems ⟨0, [4]⟩ [.null])⟩] .take⟩]
    .take

/-- Polls in a copy of a copy, merges it back and commits. The copy cannot be committed once more,
onto what came of it. -/
def pollTwice : List Operation :=
  let queue := [.slot 1 none, .slot 0 none]
  let once : List Operation :=
    [.copy ⟨0, [], .bundle⟩ .clean, .copy ⟨1, [], .bundle⟩ .dirty,
      .ask ⟨2, queue, .queue⟩ (.request (.queue .poll)), .merge 2 ⟨1, [], .bundle⟩ .everything,
      .ask ⟨1, [], .bundle⟩ (.flags .bundle), .commit ⟨1, [], .bundle⟩ ⟨0, [], .bundle⟩]
  once ++ [.commit ⟨1, queue, .queue⟩ ⟨2, queue, .queue⟩]

theorem lazy_agrees_nested :
    let alive := fun _ => nestedBundle.slots
    (∀ entity ∈ [nestedBundle], Untouched entity) ∧
      (lazy.run alive pollTwice ⟨1, []⟩ [nestedBundle]).1 =
        [some (.ok none), some (.ok none), some (.ok (some (.reply (.queue (.item (some .null)))))),
          some (.ok none), some (.ok (some (.flags [false, true]))), some (.ok none),
          some (.error (.conflict .headTaken))] ∧
      eager.run (fun _ => []) pollTwice ⟨1, []⟩ [nestedBundle.eager] =
        (lazy.run alive pollTwice ⟨1, []⟩ [nestedBundle]).map id (List.map Entity.eager) := by
  intro alive
  have untouched : ∀ entity ∈ [nestedBundle], Untouched entity := by
    refine List.forall_mem_singleton.mpr ?_
    exact ⟨rfl, rfl, rfl, ⟨rfl, rfl, trivial⟩, trivial⟩
  exact ⟨untouched, rfl, lazy_agrees alive pollTwice ⟨1, []⟩ [nestedBundle] untouched⟩

end Regime
end TransactionalMemory
