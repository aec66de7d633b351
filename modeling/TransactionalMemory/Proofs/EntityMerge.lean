import TransactionalMemory.Proofs.Footprint

/-! Merging a working copy into the one that it branched from. The branch has moved on from its
target, so that no part is refused. A full merge leaves the target like the branch; a merge of
what was read leaves the branch's log on the target's content. -/
namespace TransactionalMemory.Entity
variable {guard guard' : Guard} {base branch target base' branch' target' : Entity}

structure Merging (guard : Guard) (base branch target : Entity) : Prop where
  untouched : Untouched base
  copy : CopyOf guard base branch
  source : CopyOf guard base target
  ahead : Extends target branch

structure Absorbs (guard : Guard) (mode : MergeMode) (base branch target merged : Entity) :
    Prop where
  copy : CopyOf guard base merged
  ahead : Extends target merged
  covers : ∀ latest, Fits latest merged → Fits latest branch
  full : mode = .everything → Alike branch merged
  content : SameContent (mode.pick branch target) merged
  log : SameLog branch merged

structure MergingSlots (guard : Guard) (bases branch slots : List (Slot Entity)) : Prop where
  untouched : ∀ base ∈ bases, Untouched base.content
  copy : List.Forall₂ (copyLinks guard).SlotRelated bases branch
  source : List.Forall₂ (copyLinks guard).SlotRelated bases slots
  ahead : List.Forall₂ aheadLinks.SlotRelated slots branch

structure AbsorbsSlots (guard : Guard) (mode : MergeMode)
    (bases branch slots merged : List (Slot Entity)) : Prop where
  copy : List.Forall₂ (copyLinks guard).SlotRelated bases merged
  ahead : List.Forall₂ aheadLinks.SlotRelated slots merged
  covers : ∀ latests, List.Forall₂ fitLinks.SlotRelated latests merged →
    List.Forall₂ fitLinks.SlotRelated latests branch
  full : mode = .everything → List.Forall₂ alikeLinks.SlotRelated branch merged
  content : List.Forall₂ contentLinks.SlotRelated (mode.pick branch slots) merged
  log : List.Forall₂ logLinks.SlotRelated branch merged

private theorem Merging.cell {inner : Cell Value}
    (merging : Merging guard (.cell inner) branch target) (mode : MergeMode) :
    ∃ cell cell' : Cell Value, branch = .cell cell ∧ target = .cell cell' ∧
      (∀ others seed, branch.merge others seed mode target =
        (none, .cell (Cell.absorbed mode cell cell'))) ∧
      Absorbs guard mode (.cell inner) branch target (.cell (Cell.absorbed mode cell cell')) := by
  obtain ⟨_, copy, source, ahead⟩ := merging
  obtain ⟨branch, rfl, copy⟩ := relates_cell.mp copy
  obtain ⟨target, rfl, source⟩ := relates_cell.mp source
  obtain ⟨accepted, copy', ahead'⟩ := Cell.CopyOf.merge copy source ahead mode
  refine ⟨branch, target, rfl, rfl, fun others seed => ?_, copy', ahead', ?_, ?_, ?_,
    Cell.Extends.log_absorbed ahead mode⟩
  · rw [Entity.merge, accepted]
    rfl
  · intro latest fits
    cases latest <;> first | exact Cell.Extends.fits_absorbed ahead fits | exact fits.elim
  · rintro rfl
    exact Cell.Alike.refl branch
  · have same := Cell.unlogged_absorbed mode branch target
    cases mode <;> exact same

private theorem Merging.table {inner : Table String Value}
    (merging : Merging guard (.table inner) branch target) (mode : MergeMode) :
    ∃ table table' : Table String Value, branch = .table table ∧ target = .table table' ∧
      (∀ others seed, branch.merge others seed mode target =
        (none, .table (Table.absorbed mode table table'))) ∧
      Absorbs guard mode (.table inner) branch target
        (.table (Table.absorbed mode table table')) := by
  obtain ⟨_, copy, source, ahead⟩ := merging
  obtain ⟨branch, rfl, copy⟩ := relates_table.mp copy
  obtain ⟨target, rfl, source⟩ := relates_table.mp source
  obtain ⟨accepted, copy', ahead'⟩ := Table.CopyOf.merge copy source ahead mode
  refine ⟨branch, target, rfl, rfl, fun others seed => ?_, copy', ahead', ?_, ?_, ?_,
    Table.Extends.log_absorbed ahead mode⟩
  · rw [Entity.merge, accepted]
    rfl
  · intro latest fits
    cases latest <;> first | exact Table.Extends.fits_absorbed ahead fits | exact fits.elim
  · rintro rfl
    exact Table.Alike.refl branch
  · have same := Table.unlogged_absorbed mode branch target
    cases mode <;> exact same

private theorem Merging.multimap {inner : Multimap String String}
    (merging : Merging guard (.multimap inner) branch target) (mode : MergeMode) :
    ∃ multimap multimap' : Multimap String String, branch = .multimap multimap ∧
      target = .multimap multimap' ∧
      (∀ others seed, branch.merge others seed mode target =
        (none, .multimap ⟨Table.absorbed mode multimap.table multimap'.table⟩)) ∧
      Absorbs guard mode (.multimap inner) branch target
        (.multimap ⟨Table.absorbed mode multimap.table multimap'.table⟩) := by
  obtain ⟨_, copy, source, ahead⟩ := merging
  obtain ⟨branch, rfl, copy⟩ := relates_multimap.mp copy
  obtain ⟨target, rfl, source⟩ := relates_multimap.mp source
  obtain ⟨accepted, copy', ahead'⟩ := Table.CopyOf.merge copy source ahead mode
  refine ⟨branch, target, rfl, rfl, fun others seed => ?_, copy', ahead', ?_, ?_, ?_,
    Table.Extends.log_absorbed ahead mode⟩
  · rw [Entity.merge, Multimap.merge, accepted]
    rfl
  · intro latest fits
    cases latest <;> first | exact Table.Extends.fits_absorbed ahead fits | exact fits.elim
  · rintro rfl
    exact Table.Alike.refl branch.table
  · have same := Table.unlogged_absorbed mode branch.table target.table
    cases mode <;> exact same

private theorem Merging.queue {inner : Queue Value}
    (merging : Merging guard (.queue inner) branch target) (mode : MergeMode) :
    ∃ queue queue' : Queue Value, branch = .queue queue ∧ target = .queue queue' ∧
      (∀ others seed, branch.merge others seed mode target =
        (none, .queue (Queue.absorbed mode queue queue'))) ∧
      Absorbs guard mode (.queue inner) branch target
        (.queue (Queue.absorbed mode queue queue')) := by
  obtain ⟨_, copy, source, ahead⟩ := merging
  obtain ⟨branch, rfl, copy⟩ := relates_queue.mp copy
  obtain ⟨target, rfl, source⟩ := relates_queue.mp source
  obtain ⟨accepted, copy', ahead'⟩ := Queue.CopyOf.merge copy source ahead mode
  refine ⟨branch, target, rfl, rfl, fun others seed => ?_, copy', ahead', ?_, ?_, ?_,
    Queue.CopyOf.log_absorbed copy source mode⟩
  · rw [Entity.merge, accepted]
    rfl
  · intro latest fits
    cases latest <;> first | exact Queue.Extends.fits_absorbed ahead fits | exact fits.elim
  · rintro rfl
    exact Queue.Alike.refl branch
  · have same := Queue.unlogged_absorbed mode branch target
    cases mode <;> exact same

private theorem Reached.merging {base slot reached : Slot Entity}
    (reach : Reached base slot reached) {identity : Identity} {content : Entity}
    (untouched : Untouched base.content)
    (copy : (copyLinks guard).SlotRelated base ⟨identity, true, content⟩)
    (source : (copyLinks guard).SlotRelated base slot)
    (ahead : aheadLinks.SlotRelated slot ⟨identity, true, content⟩) :
    Merging guard base.content content reached.content where
  untouched := untouched
  copy := copy.1 rfl
  source := reach.copyOf source untouched
  ahead := reach.extends ahead untouched rfl copy

theorem MergingSlots.merge {bases branch slots : List (Slot Entity)} {rule : SlotRule}
    (merging : MergingSlots guard bases branch slots) (safe : rule ≠ .take) (mode : MergeMode)
    (seed : Identity)
    (inside : ∀ base ∈ bases, ∀ branch target, Merging guard base.content branch target →
      ∀ seed, ∃ merged, (∀ others, branch.merge others seed mode target = (none, merged)) ∧
        Absorbs guard mode base.content branch target merged) (index : Nat) :
    ∃ merged, (∀ others, mergeSlots others seed mode rule index branch slots = (none, merged)) ∧
      AbsorbsSlots guard mode bases branch slots merged := by
  obtain ⟨untouched, copy, source, ahead⟩ := merging
  induction copy generalizing slots index with
  | nil =>
    cases source
    refine ⟨[], fun _ => rfl, .nil, .nil, fun _ => id, fun _ => .nil, ?_, .nil⟩
    cases mode <;> exact .nil
  | @cons base branchSlot bases branch head tail ih =>
    cases source with | @cons _ slot _ slots source sources =>
    cases ahead with | cons ahead aheads =>
    obtain ⟨rest, accepted, copies, further, covers, full, contents, logs⟩ := ih
      (fun base member => inside base (List.mem_cons_of_mem _ member)) (index + 1)
      (fun base member => untouched base (List.mem_cons_of_mem _ member)) sources aheads
    have still := untouched base List.mem_cons_self
    obtain ⟨identity, accessed, content⟩ := branchSlot
    cases accessed with
    | true =>
      obtain ⟨reached, reach, found⟩ := reach_of_copy safe source (seed.child index)
      have within := reach.merging still head source ahead
      obtain ⟨merged, ok, copy, beyond, cover, all, same, log⟩ :=
        inside base List.mem_cons_self content reached.content within (seed.child index)
      refine ⟨{reached with content := merged} :: rest, fun others => ?_,
        .cons (reach.copied copy) copies, .cons (reach.ahead beyond) further, ?_,
        fun whole => .cons ⟨reach.accessed, fun _ => all whole⟩ (full whole), ?_,
        .cons ⟨reach.accessed, fun _ => log⟩ logs⟩
      · simp only [mergeSlots, found, ok, accepted]
        rfl
      · intro latests fits
        cases fits with
        | cons fit fits => exact .cons (fun _ => cover _ (fit reach.accessed)) (covers _ fits)
      · cases mode with
        | everything => exact .cons same contents
        | readsOnly => exact .cons ((reach.content source still).trans same) contents
    | false =>
      have unseen : slot.accessed = false := by
        by_contra before
        rw [Bool.not_eq_false] at before
        cases (ahead before).1
      refine ⟨slot :: rest, fun others => ?_, .cons source copies, .cons ?_ further, ?_,
        fun whole => .cons ⟨unseen, nofun⟩ (full whole), ?_, .cons ⟨unseen, nofun⟩ logs⟩
      · simp only [mergeSlots, accepted]
        rfl
      · intro before
        rw [unseen] at before
        cases before
      · intro latests fits
        cases fits with
        | cons fit fits => exact .cons nofun (covers _ fits)
      · cases mode with
        | everything =>
          have same : content = slot.content := by rw [source.2 unseen, (head.2 rfl : _ = _).symm]
          exact .cons (same ▸ SameContent.refl content) contents
        | readsOnly => exact .cons (SameContent.refl slot.content) contents

private theorem Merging.bundle {bases : List (Slot Entity)} {rule : SlotRule}
    (merging : Merging guard (.bundle bases rule) branch target) :
    ∃ branchSlots slots rule' rule'', branch = .bundle branchSlots rule' ∧
      target = .bundle slots rule'' ∧ rule'' ≠ .take ∧
      MergingSlots guard bases branchSlots slots := by
  obtain ⟨untouched, copy, source, ahead⟩ := merging
  obtain ⟨branch, rule', rfl, _, copies⟩ := relates_bundle.mp copy
  obtain ⟨target, rule'', rfl, safe, sources⟩ := relates_bundle.mp source
  obtain ⟨_, _, same, _, aheads⟩ := relates_bundle.mp ahead
  cases same
  have still := every_bundle.mp untouched
  exact ⟨branch, target, rule', rule'', rfl, rfl, safe, fun slot member => (still slot member).2,
    copies, sources, aheads⟩

private theorem MergingSlots.merge_bundle {bases branch slots : List (Slot Entity)}
    (merging : MergingSlots guard bases branch slots) (rule rule' : SlotRule)
    (others : List (Slot Entity)) (seed : Identity) (mode : MergeMode) :
    (Entity.bundle branch rule).merge others seed mode (.bundle slots rule') =
      (mergeSlots others seed mode rule' 0 branch slots).map id (.bundle · rule') := by
  have lengths := merging.copy.length_eq.symm.trans merging.source.length_eq
  rw [Entity.merge, if_pos lengths]

private theorem AbsorbsSlots.bundle {mode : MergeMode}
    {bases branch slots merged : List (Slot Entity)} {rule rule' rule'' : SlotRule}
    (absorbs : AbsorbsSlots guard mode bases branch slots merged) (safe : rule'' ≠ .take) :
    Absorbs guard mode (.bundle bases rule) (.bundle branch rule') (.bundle slots rule'')
      (.bundle merged rule'') := by
  constructor
  · exact relates_bundle.mpr ⟨_, _, rfl, safe, absorbs.copy⟩
  · exact relates_bundle.mpr ⟨_, _, rfl, trivial, absorbs.ahead⟩
  · intro latest fits
    cases latest with
    | bundle latests rule =>
      obtain ⟨_, _, same, _, fits⟩ := relates_bundle.mp fits
      cases same
      exact relates_bundle.mpr ⟨_, _, rfl, trivial, absorbs.covers latests fits⟩
    | _ => exact fits.elim
  · intro whole
    exact relates_bundle.mpr ⟨_, _, rfl, trivial, absorbs.full whole⟩
  · cases mode <;> exact relates_bundle.mpr ⟨_, _, rfl, trivial, absorbs.content⟩
  · exact relates_bundle.mpr ⟨_, _, rfl, trivial, absorbs.log⟩

private theorem Merging.snapshot {inner : Snapshot Entity}
    (merging : Merging guard (.snapshot inner) branch target) (mode : MergeMode) :
    ∃ inside outside : Snapshot Entity, branch = .snapshot inside ∧ target = .snapshot outside ∧
      Merging guard inner.data inside.data outside.data ∧
      ∀ seed merged, (∀ others,
          inside.data.merge others (seed.child 0) mode outside.data = (none, merged)) →
        Absorbs guard mode inner.data inside.data outside.data merged →
        let after : Entity := .snapshot ⟨outside.timestamp, merged,
          Table.absorbed mode inside.globals outside.globals⟩
        (∀ others, branch.merge others seed mode target = (none, after)) ∧
          Absorbs guard mode (.snapshot inner) branch target after := by
  obtain ⟨untouched, copy, source, ahead⟩ := merging
  obtain ⟨branch, rfl, time, copy, globals⟩ := relates_snapshot.mp copy
  obtain ⟨target, rfl, time', source, globals'⟩ := relates_snapshot.mp source
  obtain ⟨_, same, _, ahead, aheadGlobals⟩ := relates_snapshot.mp ahead
  cases same
  obtain ⟨accepted, copied, beyond⟩ := Table.CopyOf.merge globals globals' aheadGlobals mode
  refine ⟨branch, target, rfl, rfl, ⟨(every_snapshot.mp untouched).1, copy, source, ahead⟩, ?_⟩
  intro seed merged ok absorbs
  have times : target.timestamp = branch.timestamp := time'.trans time.symm
  refine ⟨fun others => ?_, ?_, ?_, ?_, ?_, ?_, ?_⟩
  · rw [merge_snapshot, Snapshot.merge, if_pos times, ok, accepted]
    rfl
  · exact relates_snapshot.mpr ⟨_, rfl, time', absorbs.copy, copied⟩
  · exact relates_snapshot.mpr ⟨_, rfl, trivial, absorbs.ahead, beyond⟩
  · intro latest fits
    cases latest with
    | snapshot latest =>
      obtain ⟨_, same, _, fits, fitGlobals⟩ := relates_snapshot.mp fits
      cases same
      exact relates_snapshot.mpr ⟨_, rfl, trivial, absorbs.covers _ fits,
        aheadGlobals.fits_absorbed fitGlobals⟩
    | _ => exact fits.elim
  · intro whole
    refine relates_snapshot.mpr ⟨_, rfl, trivial, absorbs.full whole, ?_⟩
    rw [whole]
    exact Table.Alike.refl branch.globals
  · have hosted := Table.unlogged_absorbed mode branch.globals target.globals
    have content := absorbs.content
    cases mode with
    | everything => exact relates_snapshot.mpr ⟨_, rfl, times.symm, content, hosted⟩
    | readsOnly => exact relates_snapshot.mpr ⟨_, rfl, rfl, content, hosted⟩
  · exact relates_snapshot.mpr ⟨_, rfl, trivial, absorbs.log, aheadGlobals.log_absorbed mode⟩

theorem Merging.merge (merging : Merging guard base branch target) (mode : MergeMode)
    (seed : Identity) :
    ∃ merged, (∀ others, branch.merge others seed mode target = (none, merged)) ∧
      Absorbs guard mode base branch target merged := by
  induction base using induct generalizing branch target seed with
  | cell inner =>
    obtain ⟨_, _, _, _, accepted, absorbs⟩ := merging.cell mode
    exact ⟨_, fun others => accepted others seed, absorbs⟩
  | table inner =>
    obtain ⟨_, _, _, _, accepted, absorbs⟩ := merging.table mode
    exact ⟨_, fun others => accepted others seed, absorbs⟩
  | multimap inner =>
    obtain ⟨_, _, _, _, accepted, absorbs⟩ := merging.multimap mode
    exact ⟨_, fun others => accepted others seed, absorbs⟩
  | queue inner =>
    obtain ⟨_, _, _, _, accepted, absorbs⟩ := merging.queue mode
    exact ⟨_, fun others => accepted others seed, absorbs⟩
  | bundle slots rule ih =>
    obtain ⟨branch, target, rule', rule'', rfl, rfl, safe, within⟩ := merging.bundle
    obtain ⟨merged, accepted, absorbs⟩ :=
      within.merge safe mode seed (fun slot member _ _ => ih slot member) 0
    refine ⟨.bundle merged rule'', fun others => ?_, absorbs.bundle safe⟩
    rw [within.merge_bundle, accepted]
    rfl
  | snapshot inner ih =>
    obtain ⟨inside, outside, rfl, rfl, within, whole⟩ := merging.snapshot mode
    obtain ⟨merged, accepted, absorbs⟩ := ih within (seed.child 0)
    exact ⟨_, whole seed merged accepted absorbs⟩

private theorem MergingSlots.alike {bases bases' branch branch' slots slots' : List (Slot Entity)}
    {rule rule' : SlotRule} (merging : MergingSlots guard bases branch slots)
    (merging' : MergingSlots guard' bases' branch' slots') (safe : rule ≠ .take)
    (safe' : rule' ≠ .take) (mode : MergeMode) (seed seed' : Identity)
    (inside : ∀ base ∈ bases, ∀ base' branch branch' target target',
      Merging guard base.content branch target → Merging guard' base' branch' target' →
      SameLayout base.content base' → Alike branch branch' → Alike target target' →
      ∀ seed seed' others others', Alike (branch.merge others seed mode target).2
        (branch'.merge others' seed' mode target').2)
    (layouts : List.Forall₂ layoutLinks.SlotRelated bases bases')
    (alike : List.Forall₂ alikeLinks.SlotRelated branch branch')
    (targets : List.Forall₂ alikeLinks.SlotRelated slots slots') (index : Nat)
    (others others' : List (Slot Entity)) :
    List.Forall₂ alikeLinks.SlotRelated (mergeSlots others seed mode rule index branch slots).2
      (mergeSlots others' seed' mode rule' index branch' slots').2 := by
  obtain ⟨untouched, copy, source, ahead⟩ := merging
  obtain ⟨untouched', copy', source', ahead'⟩ := merging'
  induction copy generalizing slots bases' branch' slots' index others others' with
  | nil =>
    cases alike
    cases source
    cases targets
    exact .nil
  | @cons base branchSlot bases branch head tail ih =>
    cases alike with | @cons _ branchSlot' _ branch' alike alikes =>
    cases source with | @cons _ slot _ slots source sources =>
    cases targets with | @cons _ slot' _ slots' target targets =>
    cases layouts with | @cons _ base' _ bases' layout layouts =>
    cases ahead with | cons ahead aheads =>
    cases copy' with | cons head' tail' =>
    cases source' with | cons source' sources' =>
    cases ahead' with | cons ahead' aheads' =>
    -- The slots that are alive elsewhere differ between the two merges, but no copy asks for them.
    have rest (one other : List (Slot Entity)) := ih
      (fun base member => inside base (List.mem_cons_of_mem _ member))
      layouts alikes targets (index + 1) one other
      (fun base member => untouched base (List.mem_cons_of_mem _ member)) sources aheads
      (fun base member => untouched' base (List.mem_cons_of_mem _ member)) tail' sources' aheads'
    have still := untouched base List.mem_cons_self
    have still' := untouched' base' List.mem_cons_self
    obtain ⟨identity, accessed, content⟩ := branchSlot
    obtain ⟨identity', accessed', content'⟩ := branchSlot'
    obtain ⟨same, contents⟩ := alike
    dsimp only at same
    subst same
    cases accessed' with
    | true =>
      obtain ⟨reached, reach, found⟩ := reach_of_copy safe source (seed.child index)
      obtain ⟨reached', reach', found'⟩ := reach_of_copy safe' source' (seed'.child index)
      have within := reach.merging still head source ahead
      have within' := reach'.merging still' head' source' ahead'
      obtain ⟨merged, ok, _⟩ := within.merge mode (seed.child index)
      obtain ⟨merged', ok', _⟩ := within'.merge mode (seed'.child index)
      have related := inside base List.mem_cons_self base'.content content content'
        reached.content reached'.content within within' layout (contents rfl)
        (reach.alike reach' layout still still' target) (seed.child index) (seed'.child index)
        [] []
      rw [ok, ok'] at related
      simp only [mergeSlots, found, found', ok, ok']
      refine .cons ⟨?_, fun _ => related⟩ (rest _ _)
      exact reach'.accessed.trans reach.accessed.symm
    | false =>
      simp only [mergeSlots]
      exact .cons target (rest _ _)

theorem Merging.alike (merging : Merging guard base branch target)
    (merging' : Merging guard' base' branch' target') (layout : SameLayout base base')
    (alike : Alike branch branch') (targets : Alike target target') (mode : MergeMode)
    (seed seed' : Identity) (others others' : List (Slot Entity)) :
    Alike (branch.merge others seed mode target).2
      (branch'.merge others' seed' mode target').2 := by
  induction base using induct generalizing base' branch branch' target target' seed seed' others
    others' with
  | cell inner =>
    obtain ⟨inner', rfl, _⟩ := relates_cell.mp layout
    obtain ⟨_, _, rfl, rfl, accepted, _⟩ := merging.cell mode
    obtain ⟨_, _, rfl, rfl, accepted', _⟩ := merging'.cell mode
    rw [accepted, accepted']
    exact Cell.Alike.absorbed alike targets mode
  | table inner =>
    obtain ⟨inner', rfl, _⟩ := relates_table.mp layout
    obtain ⟨_, _, rfl, rfl, accepted, _⟩ := merging.table mode
    obtain ⟨_, _, rfl, rfl, accepted', _⟩ := merging'.table mode
    rw [accepted, accepted']
    exact Table.Alike.absorbed alike targets mode
  | multimap inner =>
    obtain ⟨inner', rfl, _⟩ := relates_multimap.mp layout
    obtain ⟨_, _, rfl, rfl, accepted, _⟩ := merging.multimap mode
    obtain ⟨_, _, rfl, rfl, accepted', _⟩ := merging'.multimap mode
    rw [accepted, accepted']
    exact Table.Alike.absorbed alike targets mode
  | queue inner =>
    obtain ⟨inner', rfl, _⟩ := relates_queue.mp layout
    obtain ⟨_, _, rfl, rfl, accepted, _⟩ := merging.queue mode
    obtain ⟨_, _, rfl, rfl, accepted', _⟩ := merging'.queue mode
    rw [accepted, accepted']
    exact Queue.Alike.absorbed alike targets mode
  | bundle slots rule ih =>
    obtain ⟨slots', _, rfl, _, layouts⟩ := relates_bundle.mp layout
    obtain ⟨_, _, _, _, rfl, rfl, safe, within⟩ := merging.bundle
    obtain ⟨_, _, _, _, rfl, rfl, safe', within'⟩ := merging'.bundle
    obtain ⟨_, _, same, _, alikes⟩ := relates_bundle.mp alike
    cases same
    obtain ⟨_, _, same, _, targets⟩ := relates_bundle.mp targets
    cases same
    rw [within.merge_bundle, within'.merge_bundle]
    refine relates_bundle.mpr ⟨_, _, rfl, trivial, ?_⟩
    apply within.alike within' safe safe' mode seed seed' _ layouts alikes targets
    intro slot member _ _ _ _ _ merging merging' layout alike targets
    exact ih slot member merging merging' layout alike targets
  | snapshot inner ih =>
    obtain ⟨inner', rfl, _, layout, _⟩ := relates_snapshot.mp layout
    obtain ⟨_, _, rfl, rfl, within, whole⟩ := merging.snapshot mode
    obtain ⟨_, _, rfl, rfl, within', whole'⟩ := merging'.snapshot mode
    obtain ⟨_, same, _, alike, alikeGlobals⟩ := relates_snapshot.mp alike
    cases same
    obtain ⟨_, same, _, targets, targetGlobals⟩ := relates_snapshot.mp targets
    cases same
    obtain ⟨merged, ok, absorbs⟩ := within.merge mode (seed.child 0)
    obtain ⟨merged', ok', absorbs'⟩ := within'.merge mode (seed'.child 0)
    have related := ih within within' layout alike targets (seed.child 0) (seed'.child 0) [] []
    rw [ok, ok'] at related
    rw [(whole seed merged ok absorbs).1, (whole' seed' merged' ok' absorbs').1]
    exact relates_snapshot.mpr ⟨_, rfl, trivial, related,
      Table.Alike.absorbed alikeGlobals targetGlobals mode⟩

end TransactionalMemory.Entity
