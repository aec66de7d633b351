import TransactionalMemory.Proofs.NestedCallbacks

/-! What the parts of an entity started from. Copies keep it, and no question changes it. Since a
merge looks at nothing else before it gives in, a nested transaction is never refused as long as
its body goes through questions only, whatever the data may have been through before. -/
namespace TransactionalMemory

private theorem Cell.source_perform {α : Type} (cell : Cell α) (request : Request α) :
    (cell.perform request).2.source = cell.source := by
  cases request <;> rfl

private theorem Cell.merge_ok {α : Type} {branch cell : Cell α} (same : branch.source = cell.source)
    (mode : MergeMode) :
    ∃ merged, branch.merge mode cell = .ok merged ∧ cell.source = merged.source := by
  have named : branch.sameSource cell = true := by simp [sameSource, same]
  unfold merge
  rw [if_pos named]
  cases mode <;> exact ⟨_, rfl, rfl⟩

private theorem Table.merge_ok {K V : Type} [Ord K] [Std.TransOrd K] {branch table : Table K V}
    (same : branch.source = table.source) (mode : MergeMode) :
    ∃ merged, branch.merge mode table = .ok merged ∧ table.source = merged.source := by
  obtain ⟨merged, accepted, kept⟩ := merge_unlogged same mode
  injection kept with source
  refine ⟨merged, accepted, ?_⟩
  cases mode with
  | everything => exact (source.trans same).symm
  | readsOnly => exact source.symm

theorem Multimap.source_perform {K V : Type} [Ord K] [Ord V] [Std.TransOrd K] [Std.LawfulEqOrd K]
    [Std.TransOrd V] (fresh : Identity) (multimap : Multimap K V) (request : Request K V) :
    (multimap.perform fresh request).2.table.source = multimap.table.source :=
  perform_induction (fun table => table.source = multimap.table.source)
    (fun table request same => (table.source_perform request).trans same) fresh multimap request rfl

private theorem Queue.source_perform {α : Type} (queue : Queue α) (request : Request α) :
    (queue.perform request).2.source = queue.source := by
  refine perform_induction (fun later => later.source = queue.source) ?_ ?_ ?_ queue request rfl
  · exact fun later items same => same
  · intro later same
    unfold peek
    split <;> exact same
  · intro later same
    unfold poll
    split <;> exact same

private theorem Queue.merge_ok {α : Type} {branch queue : Queue α}
    (same : branch.source = queue.source) (mode : MergeMode) :
    ∃ merged, branch.merge mode queue = .ok merged ∧ queue.source = merged.source := by
  have named : queue.sameSource branch = true := by simp [sameSource, same]
  unfold merge
  rw [if_pos named]
  cases mode <;> exact ⟨_, rfl, rfl⟩

namespace Entity

def sourceLinks : Links where
  cell := fun inner other => inner.source = other.source
  table := fun inner other => inner.source = other.source
  multimap := fun inner other => inner.table.source = other.table.source
  queue := fun inner other => inner.source = other.source
  rule := fun _ _ => True
  slot := fun _ _ related => related
  timestamp := Eq
  globals := fun inner other => inner.source = other.source

/-- The two have started from the same objects in every part. -/
abbrev SameSources : (entity other : Entity) → Prop :=
  Relates sourceLinks

variable {entity other last branch target : Entity}

private theorem reflexive_sources : sourceLinks.Reflexive where
  cell := fun _ => rfl
  table := fun _ => rfl
  multimap := fun _ => rfl
  queue := fun _ => rfl
  rule := fun _ => trivial
  slot := fun _ _ => id
  timestamp := fun _ => rfl
  globals := fun _ => rfl

theorem SameSources.refl (entity : Entity) : SameSources entity entity :=
  reflexive_sources.relates entity

private theorem composes_sources : sourceLinks.Composes sourceLinks sourceLinks where
  cell := .trans
  table := .trans
  multimap := .trans
  queue := .trans
  rule := fun _ _ => trivial
  slot := fun inside => inside
  timestamp := .trans
  globals := .trans

theorem SameSources.trans (first : SameSources entity other) (second : SameSources other last) :
    SameSources entity last :=
  composes_sources.relates first second

private theorem flipped_sources : sourceLinks.flip.Implies sourceLinks where
  cell := .symm
  table := .symm
  multimap := .symm
  queue := .symm
  rule := id
  slot := id
  timestamp := .symm
  globals := .symm

theorem SameSources.symm (same : SameSources entity other) : SameSources other entity :=
  flipped_sources.relates (Relates.flip same id)

private theorem sources_copySlots {slots : List (Slot Entity)} (seed : Identity) (mode : CopyMode)
    (inside : ∀ slot ∈ slots, ∀ seed, SameSources slot.content (slot.content.copy seed mode))
    (index : Nat) :
    List.Forall₂ sourceLinks.SlotRelated slots (copySlots seed mode index slots) := by
  induction slots generalizing index with
  | nil => exact .nil
  | cons slot slots ih =>
    obtain ⟨identity, accessed, content⟩ := slot
    have rest := ih (fun slot member => inside slot (List.mem_cons_of_mem _ member)) (index + 1)
    unfold copySlots
    refine .cons ?_ rest
    cases accessed with
    | true => exact inside _ List.mem_cons_self _
    | false => exact SameSources.refl content

private theorem sources_copy (entity : Entity) (seed : Identity) (mode : CopyMode) :
    SameSources entity (entity.copy seed mode) := by
  induction entity using induct generalizing seed with
  | cell inner => cases mode <;> exact rfl
  | table inner => cases mode <;> exact rfl
  | multimap inner => cases mode <;> exact rfl
  | queue inner => cases mode <;> exact rfl
  | bundle slots rule ih =>
    rw [copy]
    exact relates_bundle.mpr ⟨_, _, rfl, trivial,
      sources_copySlots seed mode (fun slot member seed => ih slot member seed) 0⟩
  | snapshot inner ih =>
    rw [copy_snapshot]
    refine relates_snapshot.mpr ⟨_, rfl, rfl, ih _, ?_⟩
    cases mode <;> exact rfl

private theorem sources_reach (slot : Slot Entity) (others : List (Slot Entity)) (fresh : Identity)
    (rule : SlotRule) : SameSources slot.content (slot.reach others fresh rule).content := by
  have still := SameSources.refl slot.content
  have copied (mode : CopyMode) := sources_copy slot.content fresh mode
  unfold Slot.reach
  split
  · exact still
  · split
    · split
      · exact copied .dirty
      · exact still
    · exact copied .dirty
    · exact copied .clean

private theorem sources_settle (query : Query) (fresh : Identity) (entity : Entity) :
    SameSources entity (query.settle fresh entity).2 := by
  have still := SameSources.refl entity
  cases query with
  | flags kind => by_cases fits : entity.kind = kind <;> simp [Query.settle, Query.act, fits, still]
  | timestamp => cases entity <;> exact still
  | request asked =>
    cases entity <;> cases asked <;> try exact still
    · exact (Cell.source_perform _ _).symm
    · exact (Table.source_perform _ _).symm
    · exact (Multimap.source_perform _ _ _).symm
    · exact (Queue.source_perform _ _).symm
    · refine relates_snapshot.mpr ⟨_, rfl, rfl, SameSources.refl _, ?_⟩
      exact (Table.source_perform _ _).symm

private theorem sources_visit (query : Query) (path : List Hop) (others : List (Slot Entity))
    (seed : Identity) (entity : Entity) :
    SameSources entity (entity.visit others seed query.kind query.act path).2 := by
  refine visit_relates query SameSources.refl (sources_settle query) ?slot ?data path others seed
    entity
  case slot =>
    intro slots slot rule index after others fresh there inside
    have same : List.Forall₂ sourceLinks.SlotRelated slots slots :=
      List.forall₂_same.mpr fun slot _ => SameSources.refl slot.content
    have reached := sources_reach slot others fresh rule
    exact relates_bundle.mpr ⟨_, _, rfl, trivial,
      forall₂_set_right same there (reached.trans inside)⟩
  case data =>
    intro inner after inside
    exact relates_snapshot.mpr ⟨_, rfl, rfl, inside, rfl⟩

private theorem sources_mergeSlots {branch slots : List (Slot Entity)} (seed : Identity)
    (mode : MergeMode) (rule : SlotRule)
    (inside : ∀ slot ∈ branch, ∀ target, SameSources slot.content target → ∀ others seed,
      (slot.content.merge others seed mode target).1 = none ∧
        SameSources target (slot.content.merge others seed mode target).2)
    (same : List.Forall₂ sourceLinks.SlotRelated branch slots) (others : List (Slot Entity))
    (index : Nat) :
    (mergeSlots others seed mode rule index branch slots).1 = none ∧
      List.Forall₂ sourceLinks.SlotRelated slots
        (mergeSlots others seed mode rule index branch slots).2 := by
  induction same generalizing others index with
  | nil => exact ⟨rfl, .nil⟩
  | @cons branchSlot slot branch slots head tail ih =>
    obtain ⟨identity, accessed, content⟩ := branchSlot
    have rest := ih (fun slot member => inside slot (List.mem_cons_of_mem _ member))
    cases accessed with
    | true =>
      have reached := sources_reach slot (content.slots ++ (slots ++ branch ++ others))
        (seed.child index) rule
      have merges := inside _ List.mem_cons_self _ (SameSources.trans head reached)
        (slots ++ branch ++ others) (seed.child index)
      simp only [mergeSlots]
      rcases went : content.merge (slots ++ branch ++ others) (seed.child index) mode
        (slot.reach (content.slots ++ (slots ++ branch ++ others)) (seed.child index) rule).content
        with ⟨refusal, merged⟩
      rw [went] at merges
      obtain ⟨rfl, kept⟩ := merges
      obtain ⟨accepted, later⟩ := rest (_ :: others) (index + 1)
      exact ⟨accepted, .cons (reached.trans kept) later⟩
    | false =>
      simp only [mergeSlots]
      obtain ⟨accepted, later⟩ := rest (slot :: others) (index + 1)
      exact ⟨accepted, .cons (SameSources.refl slot.content) later⟩

private theorem sources_merge (mode : MergeMode) (same : SameSources branch target)
    (others : List (Slot Entity)) (seed : Identity) :
    (branch.merge others seed mode target).1 = none ∧
      SameSources target (branch.merge others seed mode target).2 := by
  induction branch using induct generalizing target others seed with
  | cell inner =>
    obtain ⟨cell, rfl, same⟩ := relates_cell.mp same
    obtain ⟨merged, accepted, kept⟩ := Cell.merge_ok same mode
    rw [merge, accepted]
    exact ⟨rfl, kept⟩
  | table inner =>
    obtain ⟨table, rfl, same⟩ := relates_table.mp same
    obtain ⟨merged, accepted, kept⟩ := Table.merge_ok same mode
    rw [merge, accepted]
    exact ⟨rfl, kept⟩
  | multimap inner =>
    obtain ⟨multimap, rfl, same⟩ := relates_multimap.mp same
    obtain ⟨merged, accepted, kept⟩ := Table.merge_ok same mode
    rw [merge, Multimap.merge, accepted]
    exact ⟨rfl, kept⟩
  | queue inner =>
    obtain ⟨queue, rfl, same⟩ := relates_queue.mp same
    obtain ⟨merged, accepted, kept⟩ := Queue.merge_ok same mode
    rw [merge, accepted]
    exact ⟨rfl, kept⟩
  | bundle slots rule ih =>
    obtain ⟨others', rule', rfl, _, same⟩ := relates_bundle.mp same
    rw [merge, if_pos same.length_eq]
    obtain ⟨accepted, kept⟩ := sources_mergeSlots seed mode rule'
      (fun slot member target same others seed => ih slot member same others seed) same others 0
    exact ⟨accepted, relates_bundle.mpr ⟨_, _, rfl, trivial, kept⟩⟩
  | snapshot inner ih =>
    obtain ⟨target, rfl, time, same, hosted⟩ := relates_snapshot.mp same
    obtain ⟨accepted, kept⟩ := ih same others (seed.child 0)
    obtain ⟨globals, accepted', kept'⟩ := Table.merge_ok hosted mode
    have times : target.timestamp = inner.timestamp := Eq.symm time
    rw [merge_snapshot, Snapshot.merge, if_pos times]
    rcases went : inner.data.merge others (seed.child 0) mode target.data with ⟨refusal, data⟩
    rw [went] at accepted kept
    obtain rfl : refusal = none := accepted
    dsimp only
    rw [accepted']
    exact ⟨rfl, relates_snapshot.mpr ⟨_, rfl, rfl, kept, kept'⟩⟩

end Entity

namespace Scope
variable {C : Type}

private theorem sources_ask (scope : Scope C) (others : List (Slot Entity)) (seed : Identity)
    (question : Question) :
    Entity.SameSources (.snapshot scope.top)
      (.snapshot (scope.ask others seed question).2.top) := by
  have same := Entity.sources_visit question.query question.path (scope.buried ++ others) seed
    (.snapshot scope.top)
  unfold ask
  split
  · next answer top went =>
    rw [Entity.ask] at went
    rw [went] at same
    rwa [top_withTop]
  · exact .refl _

private theorem merge_sources {branch target : Snapshot Entity}
    (same : Entity.SameSources (.snapshot branch) (.snapshot target))
    (others : List (Slot Entity)) (seed : Identity) (mode : MergeMode) :
    (branch.merge others seed mode target).1 = none ∧ Entity.SameSources (.snapshot target)
      (.snapshot (branch.merge others seed mode target).2) := by
  have merges := Entity.sources_merge mode same others seed
  rwa [Entity.merge_snapshot] at merges

/-- A nested transaction ends as its body does, if that has only asked questions. -/
theorem run_accepted (alive : Identity → List (Slot Entity)) (body : Body Question Answer C)
    (seed : Identity) (scope : Scope C) :
    (scope.run alive body seed).1.Accepted ∧
      Entity.SameSources (.snapshot scope.top) (.snapshot (scope.run alive body seed).2.top) := by
  induction body generalizing seed scope with
  | finish ending => exact ⟨trivial, .refl _⟩
  | ask question next ih =>
    have asked := scope.sources_ask (alive (seed.child 0)) (seed.child 0) question
    obtain ⟨accepted, kept⟩ := ih (scope.ask (alive (seed.child 0)) (seed.child 0) question).1
      (seed.child 1) (scope.ask (alive (seed.child 0)) (seed.child 0) question).2
    exact ⟨accepted, asked.trans kept⟩
  | nest callback inner next innerIh ih =>
    obtain ⟨within, went⟩ := innerIh (seed.child 1) (scope.enter (seed.child 0))
    have shape := (run_worked alive inner (seed.child 1) (scope.enter (seed.child 0))).eq_adjusted
    have branched := Entity.sources_copy (.snapshot scope.top) (seed.child 0) .dirty
    rw [Entity.copy_snapshot] at branched
    rcases ran : (scope.enter (seed.child 0)).run alive inner (seed.child 1) with ⟨trace, inside⟩
    rw [ran] at within went shape
    have same := Entity.SameSources.symm (branched.trans went)
    obtain ⟨accepted, merged⟩ := merge_sources same (scope.buried ++ alive (seed.child 2))
      (seed.child 2) (Ending.mode trace.ending)
    have left := leave_entered scope (seed.child 0) (seed.child 2) inside.top inside.nesting
      (alive (seed.child 2)) callback trace.ending
    dsimp only at left shape
    rw [← shape, accepted, Ending.merged] at left
    simp only [run, ran, left]
    obtain ⟨accepted', kept⟩ := ih trace trace.ending (seed.child 3) (scope.adjusted _ _)
    rw [top_adjusted] at kept
    exact ⟨⟨rfl, within, accepted'⟩, merged.trans kept⟩

end Scope
end TransactionalMemory
