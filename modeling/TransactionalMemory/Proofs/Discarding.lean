import TransactionalMemory.Proofs.Inlining
import TransactionalMemory.Proofs.PublishedContent

/-! A nested transaction that is given up. Its parent shows the same values and holds the same
pending writes as before, so that nothing that the parent does from then on can tell the
difference; but all that the nested body has read now counts as read by the parent. -/
namespace TransactionalMemory

/-- What is asked is part of the content, not whether it was read before. -/
def Query.OfContent : Query → Prop
  | .flags _ => False
  | _ => True

private theorem Ending.mode_of_ne {ending : Ending} (given : ending ≠ .ok true) :
    Ending.mode ending = .readsOnly := by
  rcases ending with failure | (_ | _)
  · rfl
  · rfl
  · exact absurd rfl given

namespace Entity
variable {guard guard' : Guard} {base entity other : Entity} {fresh : Identity}

private theorem Matches.content (matching : Matches entity other) : SameContent entity other := by
  induction entity using induct generalizing other with
  | cell inner =>
    obtain ⟨_, rfl, same⟩ := relates_cell.mp matching
    exact congrArg Cell.unlogged same
  | table inner =>
    obtain ⟨_, rfl, same⟩ := relates_table.mp matching
    exact congrArg Table.unlogged same
  | multimap inner =>
    obtain ⟨_, rfl, same⟩ := relates_multimap.mp matching
    exact congrArg (Table.unlogged ∘ Multimap.table) same
  | queue inner =>
    obtain ⟨_, rfl, same⟩ := relates_queue.mp matching
    exact congrArg Queue.unlogged same
  | bundle slots rule ih =>
    obtain ⟨_, _, rfl, _, matchings⟩ := relates_bundle.mp matching
    refine relates_bundle.mpr ⟨_, _, rfl, trivial, forall₂_of_mem ?_ matchings⟩
    rintro slot member other (⟨_, _, inside⟩ | ⟨_, rfl⟩)
    · exact ih slot member inside
    · exact SameContent.refl slot.content
  | snapshot inner ih =>
    obtain ⟨_, rfl, time, inside, same⟩ := relates_snapshot.mp matching
    exact relates_snapshot.mpr ⟨_, rfl, time, ih inside, congrArg Table.unlogged same⟩

private theorem settle_content (query : Query) (content : query.OfContent)
    (same : SameContent entity other) :
    (query.settle fresh other).1 = (query.settle fresh entity).1 ∧
      SameContent (query.settle fresh entity).2 (query.settle fresh other).2 := by
  have idle : (none : Option Finding) = none ∧ SameContent entity other := ⟨rfl, same⟩
  cases query with
  | flags kind => exact content.elim
  | timestamp =>
    cases entity with
    | snapshot inner =>
      obtain ⟨inner', rfl, time, _⟩ := relates_snapshot.mp same
      have times : inner.timestamp = inner'.timestamp := time
      refine ⟨?_, same⟩
      simp only [Query.settle, Query.act, times]
    | _ => cases other <;> first | exact idle | exact same.elim
  | request asked =>
    cases entity with
    | cell inner =>
      obtain ⟨inner', rfl, same⟩ := relates_cell.mp same
      cases asked with
      | cell request =>
        obtain ⟨answer, after⟩ := Cell.perform_unlogged same request
        exact ⟨congrArg (some ∘ Finding.reply ∘ Reply.object) answer, after⟩
      | _ => exact idle
    | table inner =>
      obtain ⟨inner', rfl, same⟩ := relates_table.mp same
      cases asked with
      | table request =>
        obtain ⟨answer, after⟩ := Table.perform_unlogged same request
        exact ⟨congrArg (some ∘ Finding.reply ∘ Reply.table) answer, after⟩
      | _ => exact idle
    | multimap inner =>
      obtain ⟨inner', rfl, same⟩ := relates_multimap.mp same
      cases asked with
      | multimap request =>
        obtain ⟨answer, after⟩ := Multimap.perform_unlogged same fresh request
        exact ⟨congrArg (some ∘ Finding.reply ∘ Reply.multimap) answer, after⟩
      | _ => exact idle
    | queue inner =>
      obtain ⟨inner', rfl, same⟩ := relates_queue.mp same
      cases asked with
      | queue request =>
        obtain ⟨answer, after⟩ := Queue.perform_unlogged same request
        exact ⟨congrArg (some ∘ Finding.reply ∘ Reply.queue) answer, after⟩
      | _ => exact idle
    | bundle slots rule =>
      obtain ⟨_, _, rfl, _⟩ := relates_bundle.mp same
      cases asked <;> exact idle
    | snapshot inner =>
      obtain ⟨inner', rfl, time, data, same⟩ := relates_snapshot.mp same
      cases asked with
      | globals request =>
        obtain ⟨answer, after⟩ := Table.perform_unlogged same request
        exact ⟨congrArg (some ∘ Finding.reply ∘ Reply.globals) answer,
          relates_snapshot.mpr ⟨_, rfl, time, data, after⟩⟩
      | _ => exact idle

private theorem visit_content (query : Query) (path : List Hop) {seed : Identity}
    (content : query.OfContent) (untouched : Untouched base) (copy : CopyOf guard base entity)
    (copy' : CopyOf guard' base other) (same : SameContent entity other)
    (others others' : List (Slot Entity)) :
    (other.visit others' seed query.kind query.act path).1 =
        (entity.visit others seed query.kind query.act path).1 ∧
      SameContent (entity.visit others seed query.kind query.act path).2
        (other.visit others' seed query.kind query.act path).2 := by
  induction path generalizing base entity other seed others others' with
  | nil =>
    rw [visit_nil, visit_nil]
    obtain ⟨answer, after⟩ := settle_content query content same
    exact ⟨congrArg (Option.map Except.ok) answer, after⟩
  | cons hop path ih =>
    cases hop with
    | slot index handle =>
      cases base with
      | bundle bases rule =>
        obtain ⟨slots, rule, rfl, still, copies⟩ := relates_bundle.mp copy
        obtain ⟨slots', rule', rfl, still', copies'⟩ := relates_bundle.mp copy'
        obtain ⟨_, _, shape, _, contents⟩ := relates_bundle.mp same
        cases shape
        rcases forall₂_getElem? contents index with
          ⟨missing, missing'⟩ | ⟨slot, slot', there, there', related⟩
        · rw [visit_missing missing, visit_missing missing']
          exact ⟨rfl, same⟩
        obtain ⟨base, found, copied⟩ := forall₂_find copies there
        have copied' : (copyLinks guard').SlotRelated base slot' := forall₂_get copies' found there'
        have kinds : slot'.content.kind = slot.content.kind := Relates.kind_eq related
        by_cases fitting : slot.content.kind = handle.getD (expected query.kind path)
        · have quiet := (every_bundle.mp untouched base (List.mem_of_getElem? found)).2
          obtain ⟨reached, reach, same⟩ := reach_of_copy still copied (seed.child index)
          obtain ⟨reached', reach', same'⟩ := reach_of_copy still' copied' (seed.child index)
          rcases went : reached.content.visit (slots.eraseIdx index ++ others) (seed.child index)
            query.kind query.act path with ⟨answer, after⟩
          rcases went' : reached'.content.visit (slots'.eraseIdx index ++ others')
            (seed.child index) query.kind query.act path with ⟨answer', after'⟩
          rw [visit_slot there fitting (same _) went,
            visit_slot there' (kinds.trans fitting) (same' _) went']
          have before := SameContent.symm (reach.content copied quiet)
          have between : SameContent reached.content reached'.content :=
            (before.trans related).trans (reach'.content copied' quiet)
          have inside := @ih _ _ _ (seed.child index) quiet (reach.copyOf copied quiet)
            (reach'.copyOf copied' quiet) between (slots.eraseIdx index ++ others)
            (slots'.eraseIdx index ++ others')
          rw [went, went'] at inside
          obtain ⟨answers, afters⟩ := inside
          exact ⟨answers, relates_bundle.mpr ⟨_, _, rfl, trivial,
            forall₂_set contents index afters⟩⟩
        · rw [visit_unfit there fitting, visit_unfit there' (kinds ▸ fitting)]
          exact ⟨rfl, same⟩
      | _ => cases entity <;> cases other <;>
          first | exact ⟨rfl, same⟩ | exact copy.elim | exact same.elim
    | data =>
      cases base with
      | snapshot inner =>
        obtain ⟨entity, rfl, _, copied, _⟩ := relates_snapshot.mp copy
        obtain ⟨other, rfl, _, copied', _⟩ := relates_snapshot.mp copy'
        obtain ⟨_, shape, time, related, globals⟩ := relates_snapshot.mp same
        cases shape
        rcases went : entity.data.visit others (seed.child 0) query.kind query.act path
          with ⟨answer, after⟩
        rcases went' : other.data.visit others' (seed.child 0) query.kind query.act path
          with ⟨answer', after'⟩
        rw [visit_data went, visit_data went']
        have inside := @ih _ _ _ (seed.child 0) (every_snapshot.mp untouched).1 copied copied'
          related others others'
        rw [went, went'] at inside
        obtain ⟨answers, afters⟩ := inside
        exact ⟨answers, relates_snapshot.mpr ⟨_, rfl, time, afters, globals⟩⟩
      | _ => cases entity <;> cases other <;>
          first | exact ⟨rfl, same⟩ | exact copy.elim | exact same.elim

private theorem CopyOf.content_branch (copy : CopyOf guard base entity) (seed : Identity) :
    SameContent entity (entity.copy seed .dirty) := by
  obtain ⟨copy', _, alike⟩ := CopyOf.branch copy seed
  have matching := CopyOf.matches_of_alike copy copy' alike
  exact matching.content

/-- Copies of one base with the same content go on alike. -/
theorem mirrors_content (untouched : Untouched base) :
    protocol.Mirrors (fun question _ => question.query.OfContent) Guard.free.seed
      (CopyOf .free base) Extends (CopyOf .free base) Extends (fun _ => True) SameContent where
  keeps := keeps_copy untouched fun question _ _ => question.query.marked_free
  keeps' := keeps_copy untouched fun question _ _ => question.query.marked_free
  fits := fun _ _ => trivial
  covers := fun _ _ _ _ _ => trivial
  ask := by
    intro seed question entity other _ copy copy' same content _
    exact visit_content question.query question.path content untouched copy copy' same [] []
  branch := by
    intro seed entity other _ copy copy' same
    have before := SameContent.symm (CopyOf.content_branch copy seed)
    have after := CopyOf.content_branch copy' seed
    exact before.trans (same.trans after)
  merge := by
    intro seed mode branch target branch' target' _ copy source ahead copy' source' ahead' same
      targets
    have merging : Merging .free base branch target := ⟨untouched, copy, source, ahead⟩
    have merging' : Merging .free base branch' target' := ⟨untouched, copy', source', ahead'⟩
    obtain ⟨merged, accepted, absorbs⟩ := merging.merge mode seed
    obtain ⟨merged', accepted', absorbs'⟩ := merging'.merge mode seed
    have picked : SameContent (mode.pick branch target) (mode.pick branch' target') := by
      cases mode with
      | everything => exact same
      | readsOnly => exact targets
    have before := SameContent.symm absorbs.content
    simp only [protocol, accepted, accepted']
    exact before.trans (picked.trans absorbs'.content)

end Entity

namespace Scope
variable {C : Type}

private theorem run_content {base : Entity} {scope scope' : Scope C} (untouched : base.Untouched)
    (copy : Entity.CopyOf .free base (.snapshot scope.top))
    (copy' : Entity.CopyOf .free base (.snapshot scope'.top))
    (same : Entity.SameContent (.snapshot scope.top) (.snapshot scope'.top))
    (body : Body Question Answer C) (alive alive' : Identity → List (Slot Entity))
    (seed : Identity)
    (content : (scope.run alive body seed).1.All fun question _ => question.query.OfContent) :
    (scope'.run alive' body seed).1 = (scope.run alive body seed).1 := by
  obtain ⟨trace, top, nesting, ran, run⟩ := run_eq untouched alive body seed scope copy
  obtain ⟨trace', top', nesting', ran', run'⟩ := run_eq untouched alive' body seed scope' copy'
  have named : Guard.free.seed seed := trivial
  have mirrors := Entity.mirrors_content untouched
  have learned := mirrors.run body named copy copy' same
  rw [ran, ran'] at learned
  rw [run] at content
  rw [run, run']
  exact (learned content trivial).1

/-- A nested body that does not ask for a commit leaves the parent's content as it was, on which
everything depends that the parent may still learn or publish; and whatever refuses the branch
refuses the parent. -/
theorem discarded_keeps_reads {start : Snapshot Entity} {scope : Scope C}
    (published : Published C start) (reached : Reached start scope)
    (inner : Body Question Answer C) (callback : C) (enter seed leave : Identity)
    (alive : Identity → List (Slot Entity)) (others : List (Slot Entity)) :
    let inside := (scope.enter enter).run alive inner seed
    let left := inside.2.leave others leave callback scope.current inside.1.ending
    inside.1.ending ≠ .ok true →
      left.1 = inside.1.ending ∧ left.2.stack.tail = scope.stack.tail ∧
      Entity.SameContent (.snapshot scope.top) (.snapshot left.2.top) ∧
      (∀ (later : Body Question Answer C) seed' alive' alive'',
        ((scope.run alive' later seed').1.All fun question _ => question.query.OfContent) →
          (left.2.run alive'' later seed').1 = (scope.run alive' later seed').1) ∧
      (∀ latest fresh next next', Entity.Untouched (.snapshot latest) →
        scope.top.commit fresh latest = .ok next → left.2.top.commit fresh latest = .ok next' →
          Entity.SameValues (.snapshot next) (.snapshot next')) ∧
      ∀ latest fresh fresh' failure, inside.2.top.commit fresh latest = .error failure ↔
        left.2.top.commit fresh' latest = .error failure := by
  intro inside left given
  have untouched := published.untouched
  have copy := (reached.stacked untouched).top
  have branches := Entity.CopyOf.branch copy enter
  rw [Entity.copy_snapshot] at branches
  have named : Guard.free.seed seed := trivial
  obtain ⟨trace, branch, nesting, ran, run⟩ :=
    run_eq untouched alive inner seed (scope.enter enter) branches.copy
  have keeps := Entity.keeps_copy untouched
    fun question _ (_ : True) => question.query.marked_free
  obtain ⟨grown, went⟩ := keeps.run inner named branches.copy (Trace.all_true _)
  rw [top_enter] at ran
  rw [ran] at grown went
  have merging : Entity.Merging .free (.snapshot start) (.snapshot branch) (.snapshot scope.top) :=
    ⟨untouched, grown, copy, Entity.Extends.trans branches.ahead went⟩
  obtain ⟨merged, accepted, absorbs⟩ := merging.merge (Ending.mode trace.ending) leave
  obtain ⟨top, rfl⟩ := Entity.snapshot_of_kind (absorbs.copy.kind_eq.trans copy.kind_eq.symm)
  obtain ⟨nesting', gone⟩ :=
    leave_enter enter callback nesting (merge_accepted accepted) others
  have ended : inside.1.ending = trace.ending := by simp only [inside, run]
  have mode : Ending.mode trace.ending = .readsOnly := Ending.mode_of_ne (ended ▸ given)
  have after : left = (trace.ending, scope.adjusted top nesting') := by
    simp only [left, inside, run]
    exact gone
  have content : Entity.SameContent (.snapshot scope.top) (.snapshot left.2.top) := by
    have same := absorbs.content
    rw [mode] at same
    rw [after, top_adjusted]
    exact same
  have copy' : Entity.CopyOf .free (.snapshot start) (.snapshot left.2.top) := by
    rw [after, top_adjusted]
    exact absorbs.copy
  refine ⟨?_, ?_, content, ?_, ?_, ?_⟩
  · rw [after, ended]
  · rw [after, stack_adjusted, List.tail_cons]
  · intro later seed' alive' alive''
    exact run_content untouched copy copy' content later alive' alive'' seed'
  · intro latest fresh next next' settled accepted accepted'
    exact Entity.commit_values untouched copy copy' content settled
      (Entity.commit_snapshot_ok.mpr accepted) (Entity.commit_snapshot_ok.mpr accepted')
  · intro latest fresh fresh' failure
    have tops : inside.2.top = branch := by
      simp only [inside, run]
      exact top_adjusted branch nesting _
    have same := Entity.SameLog.refusal_commit absorbs.log fresh fresh' (.snapshot latest)
    rw [Entity.commit_snapshot, Entity.commit_snapshot, refusal_map, refusal_map] at same
    rw [after, tops, top_adjusted, ← refusal_eq_some, ← refusal_eq_some, same]

/-- Takes an item from the queue and writes it to the cell, and then thinks better of it. -/
def wavering : Body Question Answer Unit :=
  .ask polling fun _ => .ask (writing .null) fun _ => .finish (.ok false)

/-- The desk after somebody else has taken the first item. -/
def takenDesk : Snapshot Entity :=
  .start ⟨9, []⟩ 1 (.bundle
    [⟨⟨0, [0]⟩, false, .cell (.ofObject ⟨⟨0, [1]⟩, .number 5⟩)⟩,
      ⟨⟨9, [0]⟩, false, .queue (.ofObject ⟨⟨9, [1]⟩, [.number 2]⟩ 1)⟩] .take)

theorem discarded_keeps_reads_wavering :
    let inside := (deskScope.enter ⟨6, []⟩).run (fun _ => []) wavering ⟨7, []⟩
    let left := inside.2.leave [] ⟨8, []⟩ () deskScope.current inside.1.ending
    inside.1.ending ≠ .ok true ∧ left.1 = .ok false ∧
      Entity.SameContent (.snapshot deskScope.top) (.snapshot left.2.top) ∧
      left.2.top.commit ⟨9, []⟩ takenDesk = .error (.conflict .headTaken) := by
  have untouched : desk.Untouched := by
    apply Entity.every_bundle.mpr
    simp only [List.forall_mem_cons]
    exact ⟨⟨rfl, rfl⟩, ⟨rfl, rfl⟩, nofun⟩
  have opened : Published Unit deskMemory.committed := .created untouched ⟨2, []⟩ .standard
  have reached : Reached deskMemory.committed deskScope :=
    ((Reached.start ⟨3, []⟩).ask [] ⟨4, []⟩ hosting).enter ⟨5, []⟩
  have given : ((deskScope.enter ⟨6, []⟩).run (fun _ => []) wavering ⟨7, []⟩).1.ending ≠
      .ok true := nofun
  obtain ⟨ended, _, content, _, _, kept⟩ := discarded_keeps_reads opened reached wavering () ⟨6, []⟩
    ⟨7, []⟩ ⟨8, []⟩ (fun _ => []) [] given
  exact ⟨given, ended, content, (kept takenDesk ⟨9, []⟩ ⟨9, []⟩ _).mp rfl⟩

end Scope
end TransactionalMemory
