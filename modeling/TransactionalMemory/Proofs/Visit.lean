import TransactionalMemory.Proofs.Question

/-! Asking a working copy along a path. Whatever is asked, the copy stays one of its base and its
log only grows; like copies give the same answer as long as nothing that they saw has changed. -/
namespace TransactionalMemory.Entity

section
variable {α : Type} {others slots : List (Slot Entity)} {seed : Identity} {target : Kind}
  {act : Identity → Entity → Option (α × Entity)} {rule : SlotRule} {index : Nat}
  {handle : Option Kind} {path : List Hop}

theorem visit_missing (missing : slots[index]? = none) :
    (bundle slots rule).visit others seed target act (.slot index handle :: path) =
      (some (.error (.breach (.slotMissing index))), .bundle slots rule) := by
  simp only [visit, missing]

variable {slot reached : Slot Entity} {answer : Option (Except Failure α)} {after : Entity}

theorem visit_unfit (there : slots[index]? = some slot)
    (unfit : ¬slot.content.kind = handle.getD (expected target path)) :
    (bundle slots rule).visit others seed target act (.slot index handle :: path) =
      (some (.error (.breach (.slotKind index))), .bundle slots rule) := by
  simp only [visit, there, if_neg unfit]

theorem visit_slot (there : slots[index]? = some slot)
    (fitting : slot.content.kind = handle.getD (expected target path))
    (reach : slot.reach (slots.eraseIdx index ++ others) (seed.child index) rule = reached)
    (went : reached.content.visit (slots.eraseIdx index ++ others) (seed.child index) target act
      path = (answer, after)) :
    (bundle slots rule).visit others seed target act (.slot index handle :: path) =
      (answer, .bundle (slots.set index {reached with content := after}) rule) := by
  simp only [visit, there, if_pos fitting, reach, went]
  rfl

theorem visit_data {inner : Snapshot Entity}
    (went : inner.data.visit others (seed.child 0) target act path = (answer, after)) :
    (snapshot inner).visit others seed target act (.data :: path) =
      (answer, .snapshot {inner with data := after}) := by
  simp only [visit, went]
  rfl

end

theorem visit_nil (others : List (Slot Entity)) (seed : Identity) (query : Query)
    (entity : Entity) : entity.visit others seed query.kind query.act [] =
      (query.settle seed entity).map (Option.map .ok) id := by
  rw [visit, Query.settle]
  cases query.act seed entity <;> rfl

/-- Relates an entity to what a visit leaves of it, from the hops that the visit is made of. -/
theorem visit_relates (query : Query) {R : Entity → Entity → Prop}
    (still : ∀ entity, R entity entity)
    (act : ∀ seed entity, R entity (query.settle seed entity).2)
    (slot : ∀ {slots slot rule index after} others fresh, slots[index]? = some slot →
      R (slot.reach others fresh rule).content after → R (.bundle slots rule)
        (.bundle (slots.set index {slot.reach others fresh rule with content := after}) rule))
    (data : ∀ {inner after}, R inner.data after →
      R (.snapshot inner) (.snapshot {inner with data := after}))
    (path : List Hop) (others : List (Slot Entity)) (seed : Identity) (entity : Entity) :
    R entity (entity.visit others seed query.kind query.act path).2 := by
  induction path generalizing entity others seed with
  | nil =>
    rw [visit_nil]
    exact act seed entity
  | cons hop path ih =>
    cases hop with
    | slot index handle =>
      cases entity with
      | bundle slots rule =>
        cases there : slots[index]? with
        | none =>
          rw [visit_missing there]
          exact still _
        | some reaching =>
          by_cases fitting : reaching.content.kind = handle.getD (expected query.kind path)
          · rw [visit_slot there fitting rfl rfl]
            exact slot _ _ there (ih _ _ _)
          · rw [visit_unfit there fitting]
            exact still _
      | _ => exact still _
    | data =>
      cases entity with
      | snapshot inner =>
        rw [visit_data rfl]
        exact data (ih _ _ _)
      | _ => exact still _

variable {guard guard' : Guard} {base latest entity other : Entity}

private theorem kind_of_copy {base slot : Slot Entity}
    (copy : (copyLinks guard).SlotRelated base slot) : slot.content.kind = base.content.kind := by
  cases seen : slot.accessed with
  | true => exact (copy.1 seen).kind_eq
  | false => rw [copy.2 seen]

theorem visit_copy (query : Query) (path : List Hop) {seed : Identity}
    (marked : query.Marked guard) (named : guard.seed seed) (untouched : Untouched base)
    (copy : CopyOf guard base entity) :
    ∃ answer after, (∀ others, entity.visit others seed query.kind query.act path =
      (answer, after)) ∧ CopyOf guard base after ∧ Extends entity after := by
  induction path generalizing base entity seed with
  | nil => exact ⟨_, _, fun others => visit_nil others seed query entity,
      query.settle_copy marked named copy⟩
  | cons hop path ih =>
    have idle : CopyOf guard base entity ∧ Extends entity entity := ⟨copy, .refl entity⟩
    cases hop with
    | slot index handle =>
      cases base with
      | bundle bases rule =>
        obtain ⟨slots, rule, rfl, safe, copies⟩ := relates_bundle.mp copy
        rcases forall₂_getElem? copies index with ⟨_, missing⟩ | ⟨base, slot, found, there, copied⟩
        · exact ⟨_, _, fun others => visit_missing missing, idle⟩
        by_cases fitting : slot.content.kind = handle.getD (expected query.kind path)
        · have still := (every_bundle.mp untouched base (List.mem_of_getElem? found)).2
          obtain ⟨reached, reach, same⟩ := reach_of_copy safe copied (seed.child index)
          obtain ⟨answer, after, went, copy', ahead⟩ := ih (guard.child named index) still
            (reach.copyOf copied still)
          refine ⟨answer, .bundle (slots.set index {reached with content := after}) rule,
            fun others => visit_slot there fitting (same _) (went _),
            relates_bundle.mpr ⟨_, _, rfl, safe, ?_⟩,
            relates_bundle.mpr ⟨_, _, rfl, trivial, ?_⟩⟩
          · exact forall₂_set_right copies found (reach.copied copy')
          · have reflexive : List.Forall₂ aheadLinks.SlotRelated slots slots :=
              List.forall₂_same.mpr fun slot _ seen => ⟨seen, Extends.refl slot.content⟩
            exact forall₂_set_right reflexive there (reach.ahead ahead)
        · exact ⟨_, _, fun others => visit_unfit there fitting, idle⟩
      | _ => cases entity <;> first | exact ⟨_, _, fun _ => rfl, idle⟩ | exact copy.elim
    | data =>
      cases base with
      | snapshot inner =>
        obtain ⟨inner', rfl, time, copied, globals⟩ := relates_snapshot.mp copy
        obtain ⟨answer, after, went, copy', ahead⟩ :=
          ih (guard.child named 0) (every_snapshot.mp untouched).1 copied
        exact ⟨answer, .snapshot {inner' with data := after}, fun others => visit_data (went _),
          relates_snapshot.mpr ⟨_, rfl, time, copy', globals⟩,
          relates_snapshot.mpr ⟨_, rfl, trivial, ahead, .refl _⟩⟩
      | _ => cases entity <;> first | exact ⟨_, _, fun _ => rfl, idle⟩ | exact copy.elim

theorem visit_alike (query : Query) (path : List Hop) {seed : Identity} (named : guard.seed seed)
    (layout : SameLayout base latest) (untouched : Untouched base) (untouched' : Untouched latest)
    (copy : CopyOf guard base entity) (copy' : CopyOf guard' latest other)
    (alike : Alike entity other) (others others' : List (Slot Entity))
    (safe : base = latest ∨
      query.Stable guard latest (entity.visit others seed query.kind query.act path)) :
    (other.visit others' seed query.kind query.act path).1 =
        (entity.visit others seed query.kind query.act path).1 ∧
      Alike (entity.visit others seed query.kind query.act path).2
        (other.visit others' seed query.kind query.act path).2 := by
  induction path generalizing base latest entity other seed others others' with
  | nil =>
    rw [visit_nil] at safe ⊢
    rw [visit_nil]
    obtain ⟨answer, alike⟩ := query.settle_alike named copy copy' alike safe
    exact ⟨congrArg (Option.map Except.ok) answer, alike⟩
  | cons hop path ih =>
    cases hop with
    | slot index handle =>
      cases base with
      | bundle bases rule =>
        obtain ⟨slots, rule, rfl, still, copies⟩ := relates_bundle.mp copy
        obtain ⟨bases', _, rfl, _, layouts⟩ := relates_bundle.mp layout
        obtain ⟨slots', rule', rfl, still', copies'⟩ := relates_bundle.mp copy'
        obtain ⟨_, _, same, _, alikes⟩ := relates_bundle.mp alike
        cases same
        rcases forall₂_getElem? alikes index with
          ⟨missing, missing'⟩ | ⟨slot, slot', there, there', related⟩
        · rw [visit_missing missing, visit_missing missing']
          exact ⟨rfl, alike⟩
        obtain ⟨base, found, copied⟩ := forall₂_find copies there
        obtain ⟨base', found', copied'⟩ := forall₂_find copies' there'
        have layout : layoutLinks.SlotRelated base base' := forall₂_get layouts found found'
        have kinds : slot'.content.kind = slot.content.kind :=
          (kind_of_copy copied').trans ((Relates.kind_eq layout).trans (kind_of_copy copied).symm)
        by_cases fitting : slot.content.kind = handle.getD (expected query.kind path)
        · have quiet := (every_bundle.mp untouched base (List.mem_of_getElem? found)).2
          have quiet' := (every_bundle.mp untouched' base' (List.mem_of_getElem? found')).2
          obtain ⟨reached, reach, same⟩ := reach_of_copy still copied (seed.child index)
          obtain ⟨reached', reach', same'⟩ := reach_of_copy still' copied' (seed.child index)
          rcases went : reached.content.visit (slots.eraseIdx index ++ others) (seed.child index)
            query.kind query.act path with ⟨answer, after⟩
          rcases went' : reached'.content.visit (slots'.eraseIdx index ++ others')
            (seed.child index) query.kind query.act path with ⟨answer', after'⟩
          rw [visit_slot there fitting (same _) went] at safe ⊢
          rw [visit_slot there' (kinds.trans fitting) (same' _) went']
          -- Whatever fits the whole fits the slot, since the slot now counts as accessed.
          have inside := ih (guard.child named index) layout quiet quiet'
            (reach.copyOf copied quiet) (reach'.copyOf copied' quiet')
            (reach.alike reach' layout quiet quiet' related) (slots.eraseIdx index ++ others)
            (slots'.eraseIdx index ++ others') ?_
          · rw [went, went'] at inside
            refine ⟨inside.1, relates_bundle.mpr ⟨_, _, rfl, trivial, ?_⟩⟩
            refine forall₂_set alikes index ⟨?_, fun _ => inside.2⟩
            exact reach'.accessed.trans reach.accessed.symm
          · rw [went]
            refine safe.imp (fun same => ?_) fun stable =>
              stable.slot found' (List.getElem?_eq_some_iff.mp there).1 reach.accessed
            cases same
            rw [found] at found'
            cases found'
            rfl
        · rw [visit_unfit there fitting, visit_unfit there' (kinds ▸ fitting)]
          exact ⟨rfl, alike⟩
      | _ => cases entity <;> cases other <;>
          first | exact ⟨rfl, alike⟩ | exact copy.elim | exact alike.elim
    | data =>
      cases base with
      | snapshot inner =>
        obtain ⟨entity, rfl, _, copied, globals⟩ := relates_snapshot.mp copy
        obtain ⟨latest, rfl, _, layout, _⟩ := relates_snapshot.mp layout
        obtain ⟨other, rfl, _, copied', globals'⟩ := relates_snapshot.mp copy'
        obtain ⟨_, same, time, related, alikeGlobals⟩ := relates_snapshot.mp alike
        cases same
        rcases went : entity.data.visit others (seed.child 0) query.kind query.act path
          with ⟨answer, after⟩
        rcases went' : other.data.visit others' (seed.child 0) query.kind query.act path
          with ⟨answer', after'⟩
        rw [visit_data went] at safe ⊢
        rw [visit_data went']
        have inside := ih (guard.child named 0) layout (every_snapshot.mp untouched).1
          (every_snapshot.mp untouched').1 copied copied' related others others' ?_
        · rw [went, went'] at inside
          exact ⟨inside.1, relates_snapshot.mpr ⟨_, rfl, time, inside.2, alikeGlobals⟩⟩
        · rw [went]
          refine safe.imp (fun same => ?_) Query.Stable.data
          cases same
          rfl
      | _ => cases entity <;> cases other <;>
          first | exact ⟨rfl, alike⟩ | exact copy.elim | exact alike.elim

end TransactionalMemory.Entity
