import TransactionalMemory.Proofs.PublishedContent
import TransactionalMemory.Proofs.ScopeRun

/-! Nothing is written unseen. Every request that writes under a key reads that key first, and a
merge hands the log on together with the writes, or alone. So whatever a body does, the keys and
cells that it is about to write are among those that its commit checks. -/
namespace TransactionalMemory

namespace Cell
variable {α : Type} {cell other : Cell α}

def Logged (cell : Cell α) : Prop :=
  cell.updated = true → cell.accessed = true

private theorem Idle.logged (idle : cell.Idle) : cell.Logged := by
  intro updated
  have still : cell.updated = false := idle
  rw [still] at updated
  cases updated

private theorem logged_perform (cell : Cell α) (request : Request α) :
    (cell.perform request).2.Logged := by
  cases request <;> exact fun _ => rfl

private theorem Logged.alike (logged : cell.Logged) (alike : cell.Alike other) : other.Logged := by
  intro updated
  rw [alike.accessed]
  exact logged (alike.updated.symm.trans updated)

private theorem Logged.reads (logged : cell.Logged) (same : cell.unlogged = other.unlogged)
    (ahead : cell.Extends other) : other.Logged := by
  injection same with _ _ _ updates
  intro updated
  exact ahead.accessed (logged (updates.trans updated))

end Cell

namespace Table

variable {K V : Type} [Ord K] [Std.TransOrd K] {table other : Table K V} {key : K}

/-- A commit stores an object under the key, or takes the key out. -/
def Writes (table : Table K V) (key : K) : Prop :=
  key ∈ table.modified ∨ key ∈ table.deleted

/-- A commit checks the key. -/
def Accesses (table : Table K V) (key : K) : Prop :=
  table.accessedWhole = true ∨ key ∈ table.accessed

def Logged (table : Table K V) : Prop :=
  ∀ key, table.Writes key → table.Accesses key

theorem writes_unlogged (same : table.unlogged = other.unlogged) :
    other.Writes key ↔ table.Writes key := by
  injection same with _ modified deleted
  rw [Writes, Writes, modified, deleted]

private theorem Extends.accesses (ahead : table.Extends other) (seen : table.Accesses key) :
    other.Accesses key := by
  rcases seen with whole | seen
  · exact .inl (ahead.whole whole)
  · exact (ahead.accessed key seen).symm

private theorem Logged.reads (logged : table.Logged) (same : table.unlogged = other.unlogged)
    (ahead : table.Extends other) : other.Logged := by
  intro key written
  exact ahead.accesses (logged key ((writes_unlogged same).mp written))

private theorem Logged.alike (logged : table.Logged) (alike : table.Alike other) :
    other.Logged := by
  intro key written
  rw [Writes, alike.modified, alike.deleted] at written
  rw [Accesses, alike.accessed, alike.accessedWhole]
  exact logged key written

private theorem Logged.touchWhole (logged : table.Logged) : table.touchWhole.Logged := by
  unfold Table.touchWhole
  split
  · exact logged
  · exact fun _ _ => .inl rfl

/-- Whatever is written under a key that was read is logged. -/
theorem Logged.write (logged : table.Logged) {modified : Entries K V} {deleted : KeySet K}
    (seen : ∀ key, key ∈ modified ∨ key ∈ deleted → table.Writes key ∨ table.Accesses key) :
    Logged {table with modified, deleted} := by
  intro key written
  exact (seen key written).elim (logged key) id

private theorem Idle.logged (idle : table.Idle) : table.Logged := by
  intro key written
  obtain ⟨modified, deleted⟩ := idle
  simp [Writes, modified, deleted] at written

/-- A clear deletes committed entries only, all of which it has logged before. -/
theorem Logged.clear (logged : table.Logged) : table.clear.Logged := by
  unfold Table.clear touchCommitted
  split
  · next whole => exact fun _ _ => .inl whole
  · rintro key (absent | gone)
    · simp at absent
    · rcases Std.ExtTreeSet.mem_union_iff.mp gone with gone | committed
      · rcases logged key (.inr gone) with whole | seen
        · exact .inl whole
        · exact .inr (Std.ExtTreeSet.mem_union_of_left seen)
      · exact .inr (Std.ExtTreeSet.mem_union_of_right committed)

variable [Std.LawfulEqOrd K]

theorem accesses_touch (key : K) (table : Table K V) : (table.touch key).Accesses key := by
  unfold touch
  split
  · next whole => exact .inl whole
  · exact .inr (by simp)

theorem Accesses.touch {key : K} (seen : table.Accesses key) (other : K) :
    (table.touch other).Accesses key := by
  unfold Table.touch
  split
  · exact seen
  · exact seen.imp_right (by simp +contextual)

private theorem Logged.touch (logged : table.Logged) (key : K) : (table.touch key).Logged := by
  intro other written
  exact (logged other ((writes_unlogged (table.unlogged_touch key).symm).mp written)).touch key

theorem writes_put {key other : K} (apart : key ≠ other) {object : Object V}
    (written : (table.put key object).2.Writes other) : (table.touch key).Writes other := by
  simpa [Writes, Table.put, Std.ExtTreeMap.mem_insert, Std.ExtTreeSet.mem_erase, apart]
    using written

theorem writes_remove {key other : K} (apart : key ≠ other)
    (written : (table.remove key).2.Writes other) : (table.touch key).Writes other := by
  refine written.imp (fun kept => ?_) fun gone => ?_
  · simpa [Table.remove, Std.ExtTreeMap.mem_erase, apart] using kept
  · simp only [Table.remove] at gone
    split at gone
    · simpa [Std.ExtTreeSet.mem_insert, apart] using gone
    · exact gone

private theorem Logged.put (logged : table.Logged) (key : K) (object : Object V) :
    (table.put key object).2.Logged := by
  apply (logged.touch key).write
  intro other written
  rcases eq_or_ne key other with rfl | apart
  · exact .inr (accesses_touch key table)
  · exact .inl (writes_put apart written)

private theorem Logged.remove (logged : table.Logged) (key : K) : (table.remove key).2.Logged := by
  apply (logged.touch key).write
  intro other written
  rcases eq_or_ne key other with rfl | apart
  · exact .inr (accesses_touch key table)
  · exact .inl (writes_remove apart written)

theorem Logged.perform (logged : table.Logged) (request : Request K V) :
    (table.perform request).2.Logged :=
  perform_induction Table.Logged (fun _ => .touchWhole) (fun key _ logged => logged.touch key)
    (fun key object _ logged => logged.put key object) (fun key _ logged => logged.remove key)
    (fun _ => .clear) table request logged

end Table

namespace Entity
variable {guard : Guard} {base entity other target : Entity}

def loggedLinks : Links where
  cell := fun _ inner => inner.Logged
  table := fun _ inner => inner.Logged
  multimap := fun _ inner => inner.table.Logged
  queue := fun _ _ => True
  rule := fun _ _ => True
  slot := fun _ slot related => slot.accessed = true → related
  timestamp := fun _ _ => True
  globals := fun _ inner => inner.Logged

/-- Whatever the copy is about to write, in any part that was reached, stands in its log. -/
abbrev Logged : (base entity : Entity) → Prop :=
  Relates loggedLinks

private theorem Idle.logged (idle : Idle entity) (same : SameContent base entity) :
    Logged base entity := by
  induction base using Entity.induct generalizing entity with
  | cell inner =>
    obtain ⟨_, rfl, _⟩ := relates_cell.mp same
    exact Cell.Idle.logged idle
  | table inner =>
    obtain ⟨_, rfl, _⟩ := relates_table.mp same
    exact Table.Idle.logged idle
  | multimap inner =>
    obtain ⟨_, rfl, _⟩ := relates_multimap.mp same
    exact Table.Idle.logged idle
  | queue inner =>
    obtain ⟨_, rfl, _⟩ := relates_queue.mp same
    trivial
  | bundle bases rule ih =>
    obtain ⟨slots, _, rfl, _, contents⟩ := relates_bundle.mp same
    have quiet := idleSlots_iff.mp idle
    refine relates_bundle.mpr ⟨_, _, rfl, trivial, ?_⟩
    have each : List.Forall₂ (fun _ slot => slot ∈ slots) bases slots :=
      List.forall₂_iff_zip.mpr ⟨contents.length_eq, fun pair => (List.of_mem_zip pair).2⟩
    refine forall₂_of_mem ?_ (contents.mp (fun _ _ => And.intro) each)
    rintro base found slot ⟨content, member⟩ seen
    exact ih base found (quiet slot member seen) content
  | snapshot inner ih =>
    obtain ⟨_, rfl, _, data, _⟩ := relates_snapshot.mp same
    exact relates_snapshot.mpr ⟨_, rfl, trivial, ih idle.1 data, Table.Idle.logged idle.2⟩

private theorem Untouched.logged (untouched : Untouched base) (same : SameContent base entity) :
    Logged base entity :=
  (Untouched.idle untouched same).logged same

private theorem composes_logged : loggedLinks.Composes alikeLinks loggedLinks where
  cell := Cell.Logged.alike
  table := Table.Logged.alike
  multimap := Table.Logged.alike
  queue := fun _ _ => trivial
  rule := fun _ _ => trivial
  slot := by
    rintro _ _ _ _ _ _ inside logged ⟨same, alike⟩ seen
    have before := same.symm.trans seen
    exact inside (logged before) (alike before)
  timestamp := fun _ _ => trivial
  globals := Table.Logged.alike

private theorem Logged.alike (logged : Logged base entity) (alike : Alike entity other) :
    Logged base other :=
  composes_logged.relates logged alike

/-- Reading more does no harm. A part that was not reached before has nothing to be logged. -/
theorem Logged.reads (logged : Logged base entity) (untouched : Untouched base)
    (copy : CopyOf guard base entity) (same : SameContent entity other)
    (ahead : Extends entity other) : Logged base other := by
  induction base using induct generalizing entity other with
  | cell inner =>
    obtain ⟨_, rfl, logged⟩ := relates_cell.mp logged
    obtain ⟨_, rfl, same⟩ := relates_cell.mp same
    exact Cell.Logged.reads logged same ahead
  | table inner =>
    obtain ⟨_, rfl, logged⟩ := relates_table.mp logged
    obtain ⟨_, rfl, same⟩ := relates_table.mp same
    exact Table.Logged.reads logged same ahead
  | multimap inner =>
    obtain ⟨_, rfl, logged⟩ := relates_multimap.mp logged
    obtain ⟨_, rfl, same⟩ := relates_multimap.mp same
    exact Table.Logged.reads logged same ahead
  | queue inner =>
    obtain ⟨_, rfl, _⟩ := relates_queue.mp logged
    obtain ⟨_, rfl, _⟩ := relates_queue.mp same
    trivial
  | bundle bases rule ih =>
    obtain ⟨slots, _, rfl, _, logs⟩ := relates_bundle.mp logged
    obtain ⟨_, _, shape, _, copies⟩ := relates_bundle.mp copy
    cases shape
    obtain ⟨others, _, rfl, _, contents⟩ := relates_bundle.mp same
    obtain ⟨_, _, shape, _, aheads⟩ := relates_bundle.mp ahead
    cases shape
    have quiet := every_bundle.mp untouched
    refine relates_bundle.mpr ⟨_, _, rfl, trivial, forall₂_comp ?_
      (logs.mp (fun _ _ => And.intro) copies) (contents.mp (fun _ _ => And.intro) aheads)⟩
    rintro base member slot other ⟨logged, copy⟩ ⟨content, ahead⟩ _
    have still := (quiet base member).2
    cases seen : slot.accessed with
    | true => exact ih base member (logged seen) still (copy.1 seen) content (ahead seen).2
    | false =>
      have unreached : slot.content = base.content := by rw [copy.2 seen]
      have same : SameContent slot.content other.content := content
      rw [unreached] at same
      exact Untouched.logged still same
  | snapshot inner ih =>
    obtain ⟨_, rfl, _, data, globals⟩ := relates_snapshot.mp logged
    obtain ⟨_, shape, _, copied, _⟩ := relates_snapshot.mp copy
    cases shape
    obtain ⟨_, rfl, _, same, hosted⟩ := relates_snapshot.mp same
    obtain ⟨_, shape, _, ahead, further⟩ := relates_snapshot.mp ahead
    cases shape
    exact relates_snapshot.mpr ⟨_, rfl, trivial,
      ih data (every_snapshot.mp untouched).1 copied same ahead,
      Table.Logged.reads globals hosted further⟩

private theorem Reached.logged {base slot reached : Slot Entity} (reach : Reached base slot reached)
    (logged : loggedLinks.SlotRelated base slot) (untouched : Untouched base.content) :
    Logged base.content reached.content := by
  cases reach with
  | before seen same =>
    rw [same]
    exact logged seen
  | now unseen seed mode copied =>
    rw [copied]
    exact untouched.logged (untouched.content_copy seed mode)

private theorem logged_settle (query : Query) (seed : Identity) (logged : Logged base entity) :
    Logged base (query.settle seed entity).2 := by
  cases query with
  | flags kind =>
    by_cases fits : entity.kind = kind <;> simp [Query.settle, Query.act, fits, logged]
  | timestamp => cases entity <;> exact logged
  | request asked =>
    cases base with
    | cell inner =>
      obtain ⟨cell, rfl, _⟩ := relates_cell.mp logged
      cases asked with
      | cell request => exact cell.logged_perform request
      | _ => exact logged
    | table inner =>
      obtain ⟨table, rfl, inside⟩ := relates_table.mp logged
      cases asked with
      | table request => exact Table.Logged.perform inside request
      | _ => exact logged
    | multimap inner =>
      obtain ⟨multimap, rfl, inside⟩ := relates_multimap.mp logged
      cases asked with
      | multimap request =>
        exact Multimap.perform_induction Table.Logged
          (fun table request logged => Table.Logged.perform logged request) seed multimap request
          inside
      | _ => exact logged
    | queue inner =>
      obtain ⟨queue, rfl, _⟩ := relates_queue.mp logged
      cases asked <;> exact trivial
    | bundle bases rule =>
      obtain ⟨_, _, rfl, _⟩ := relates_bundle.mp logged
      cases asked <;> exact logged
    | snapshot inner =>
      obtain ⟨snapshot, rfl, _, data, inside⟩ := relates_snapshot.mp logged
      cases asked with
      | globals request =>
        exact relates_snapshot.mpr ⟨_, rfl, trivial, data, Table.Logged.perform inside request⟩
      | _ => exact logged

private theorem logged_visit (query : Query) (path : List Hop) (others : List (Slot Entity))
    (seed : Identity) (untouched : Untouched base) (copy : CopyOf guard base entity)
    (logged : Logged base entity) :
    Logged base (entity.visit others seed query.kind query.act path).2 := by
  refine visit_relates query (R := fun entity after => ∀ base, Untouched base →
    CopyOf guard base entity → Logged base entity → Logged base after) ?still ?act ?slot ?data path
    others seed entity base untouched copy logged
  case still => exact fun entity base untouched copy logged => logged
  case act => exact fun seed entity base untouched copy logged => logged_settle query seed logged
  case slot =>
    intro slots slot rule index after others fresh there inside base untouched copy logged
    cases base with
    | bundle bases rule' =>
      obtain ⟨_, _, shape, safe, copies⟩ := relates_bundle.mp copy
      cases shape
      obtain ⟨_, _, shape, _, logs⟩ := relates_bundle.mp logged
      cases shape
      obtain ⟨base, found, copied⟩ := forall₂_find copies there
      have still := (every_bundle.mp untouched base (List.mem_of_getElem? found)).2
      obtain ⟨reached, reach, same⟩ := reach_of_copy safe copied fresh
      rw [same] at inside ⊢
      have after := inside base.content still (reach.copyOf copied still)
        (reach.logged (forall₂_get logs found there) still)
      exact relates_bundle.mpr ⟨_, _, rfl, trivial, forall₂_set_right logs found fun _ => after⟩
    | _ => exact copy.elim
  case data =>
    intro inner after inside base untouched copy logged
    cases base with
    | snapshot base =>
      obtain ⟨_, shape, _, copied, _⟩ := relates_snapshot.mp copy
      cases shape
      obtain ⟨_, shape, _, data, globals⟩ := relates_snapshot.mp logged
      cases shape
      exact relates_snapshot.mpr ⟨_, rfl, trivial,
        inside base.data (every_snapshot.mp untouched).1 copied data, globals⟩
    | _ => exact copy.elim

private theorem Absorbs.logged {mode : MergeMode} {branch merged : Entity}
    (untouched : Untouched base) (absorbs : Absorbs guard mode base branch target merged)
    (source : CopyOf guard base target) (logged : Logged base branch)
    (logged' : Logged base target) : Logged base merged := by
  cases mode with
  | everything => exact logged.alike (absorbs.full rfl)
  | readsOnly => exact logged'.reads untouched source absorbs.content absorbs.ahead

private theorem keeps_logged (untouched : Untouched base) :
    protocol.Keeps (fun _ _ => True) (fun _ => True)
      (fun entity => CopyOf .free base entity ∧ Logged base entity) Extends where
  child := fun _ _ => trivial
  refl := fun _ => .refl _
  trans := .trans
  ask := by
    rintro seed question entity named ⟨copy, logged⟩ shown
    have kept : protocol.Keeps (fun _ _ => True) Guard.free.seed (CopyOf .free base) Extends :=
      keeps_copy untouched fun question _ _ => question.query.marked_free
    obtain ⟨copied, ahead⟩ := kept.ask named copy shown
    exact ⟨⟨copied, logged_visit question.query question.path [] seed untouched copy logged⟩,
      ahead⟩
  branch := by
    rintro seed entity named ⟨copy, logged⟩
    have branches := CopyOf.branch copy seed
    exact ⟨⟨branches.copy, logged.alike branches.alike⟩, branches.ahead⟩
  merge := by
    rintro seed mode branch target named ⟨copy, logged⟩ ⟨source, logged'⟩ ahead
    have merging : Merging .free base branch target := ⟨untouched, copy, source, ahead⟩
    obtain ⟨merged, accepted, absorbs⟩ := merging.merge mode seed
    simp only [protocol, accepted]
    exact ⟨trivial, ⟨absorbs.copy, absorbs.logged untouched source logged logged'⟩, absorbs.ahead⟩

end Entity

/-- What a body leaves that has started on a clean copy: a working copy all of whose writes are
logged. -/
theorem Scope.logged_run {C : Type} {start : Snapshot Entity}
    (untouched : Entity.Untouched (.snapshot start)) (alive : Identity → List (Slot Entity))
    (body : Body Question Answer C) (seed opening : Identity) :
    let working := (Scope.run alive body seed (.start (start.copy opening .clean))).2.base
    Entity.CopyOf .free (.snapshot start) (.snapshot working) ∧
      Entity.Logged (.snapshot start) (.snapshot working) := by
  intro working
  have copy := Entity.Untouched.copyOf .free untouched opening .clean
  have content := Entity.Untouched.content_copy untouched opening .clean
  rw [Entity.copy_snapshot] at copy content
  let opened : Scope C := .start (start.copy opening .clean)
  have started : Entity.CopyOf .free (.snapshot start) (.snapshot opened.top) ∧
      Entity.Logged (.snapshot start) (.snapshot opened.top) :=
    ⟨copy, Entity.Untouched.logged untouched content⟩
  obtain ⟨trace, top, nesting, ran, same⟩ := Scope.run_eq untouched alive body seed opened copy
  have kept := (Entity.keeps_logged untouched).run body trivial started
    (Trace.all_true (body.run Entity.protocol seed (.snapshot opened.top)).1)
  have left : working = top := by
    unfold working
    rw [same]
    rfl
  rw [ran] at kept
  rw [left]
  exact kept.1

end TransactionalMemory
