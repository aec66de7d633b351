import TransactionalMemory.Cell

/-! Working copies of a cell. A copy keeps the object that it started from; what it holds is that
object until it is written, and whatever is written is marked. Two copies that were written alike
hold the same, as long as the object they started from was not seen to differ. -/
namespace TransactionalMemory.Cell
variable {α : Type} {marks known : Object α → Prop} {base latest cell other : Cell α}

structure CopyOf (marks : Object α → Prop) (base cell : Cell α) : Prop where
  source : cell.source = base.source
  kept : cell.updated = false → cell.current = base.source
  marked : cell.updated = true → marks cell.current

structure Extends (cell later : Cell α) : Prop where
  source : later.source = cell.source
  accessed : cell.accessed = true → later.accessed = true

theorem Extends.refl (cell : Cell α) : cell.Extends cell :=
  ⟨rfl, id⟩

theorem Extends.trans {later last : Cell α} (first : cell.Extends later)
    (second : later.Extends last) : cell.Extends last :=
  ⟨second.source.trans first.source, second.accessed ∘ first.accessed⟩

def Untouched (cell : Cell α) : Prop :=
  cell.copy .clean = cell

theorem Untouched.copy_eq (untouched : cell.Untouched) (mode : CopyMode) :
    cell.copy mode = cell.copy .clean := by
  cases mode with
  | clean => rfl
  | dirty => exact untouched.symm

theorem copyOf_clean (marks : Object α → Prop) (base : Cell α) :
    CopyOf marks base (base.copy .clean) :=
  ⟨rfl, fun _ => rfl, nofun⟩

theorem CopyOf.extends_clean (copy : CopyOf marks base cell) :
    (base.copy .clean).Extends cell :=
  ⟨copy.source, nofun⟩

def Request.Marked (marks : Object α → Prop) : Request α → Prop
  | .deref => True
  | .assoc object => marks object

theorem CopyOf.perform (copy : CopyOf marks base cell) (request : Request α)
    (marked : request.Marked marks) :
    CopyOf marks base (cell.perform request).2 ∧ cell.Extends (cell.perform request).2 := by
  cases request with
  | deref => exact ⟨⟨copy.source, copy.kept, copy.marked⟩, rfl, fun _ => rfl⟩
  | assoc object => exact ⟨⟨copy.source, nofun, fun _ => marked⟩, rfl, fun _ => rfl⟩

/-- What a target becomes: a branch that has moved on from it takes its place, or only leaves its
log behind. -/
def absorbed (mode : MergeMode) (branch cell : Cell α) : Cell α :=
  match mode with
  | .everything => branch
  | .readsOnly => {cell with accessed := branch.accessed}

theorem CopyOf.merge {branch : Cell α} (copy : CopyOf marks base branch)
    (target : CopyOf marks base cell) (ahead : cell.Extends branch) (mode : MergeMode) :
    branch.merge mode cell = .ok (absorbed mode branch cell) ∧
      CopyOf marks base (absorbed mode branch cell) ∧
      cell.Extends (absorbed mode branch cell) := by
  have same : branch.sameSource cell = true := by simp [sameSource, ahead.source]
  cases mode with
  | everything =>
    refine ⟨?_, copy, ahead⟩
    rw [Cell.merge, if_pos same, absorbed, ← ahead.source]
  | readsOnly =>
    refine ⟨?_, ?_, rfl, ahead.accessed⟩
    · rw [Cell.merge, if_pos same, absorbed]
    · exact ⟨target.source, target.kept, target.marked⟩

structure Alike (cell other : Cell α) : Prop where
  accessed : other.accessed = cell.accessed
  updated : other.updated = cell.updated
  current : cell.updated = true → other.current = cell.current

theorem Alike.refl (cell : Cell α) : cell.Alike cell :=
  ⟨rfl, rfl, fun _ => rfl⟩

theorem Alike.symm (alike : cell.Alike other) : other.Alike cell :=
  ⟨alike.accessed.symm, alike.updated.symm,
    fun updated => (alike.current (alike.updated.symm.trans updated)).symm⟩

theorem Alike.trans {last : Cell α} (first : cell.Alike other) (second : other.Alike last) :
    cell.Alike last :=
  ⟨second.accessed.trans first.accessed, second.updated.trans first.updated,
    fun updated => (second.current (first.updated.trans updated)).trans (first.current updated)⟩

theorem alike_clean (cell other : Cell α) : (cell.copy .clean).Alike (other.copy .clean) :=
  ⟨rfl, rfl, nofun⟩

theorem Alike.absorbed {branch branch' : Cell α} (alike : branch.Alike branch')
    (target : cell.Alike other) (mode : MergeMode) :
    (absorbed mode branch cell).Alike (absorbed mode branch' other) := by
  cases mode with
  | everything => exact alike
  | readsOnly => exact ⟨alike.accessed, target.updated, target.current⟩

private theorem Alike.current_eq (alike : cell.Alike other) (copy : CopyOf marks base cell)
    (copy' : CopyOf known latest other) (sources : base.source = latest.source) :
    other.current = cell.current := by
  cases updated : cell.updated with
  | false => rw [copy.kept updated, copy'.kept (alike.updated.trans updated), sources]
  | true => exact alike.current updated

theorem CopyOf.eq_of_alike (copy : CopyOf marks base cell) (copy' : CopyOf known base other)
    (alike : cell.Alike other) : other = cell := by
  have current := alike.current_eq copy copy' rfl
  have source := copy'.source.trans copy.source.symm
  obtain ⟨accessed, updated, _⟩ := alike
  cases cell
  cases other
  simp_all

/-- The object that was seen is still there. -/
def Fits (latest cell : Cell α) : Prop :=
  cell.accessed = true → cell.source = latest.source

theorem Extends.fits {later : Cell α} (ahead : cell.Extends later) (fits : latest.Fits later) :
    latest.Fits cell := by
  intro seen
  rw [← ahead.source]
  exact fits (ahead.accessed seen)

theorem Extends.fits_absorbed {branch : Cell α} (ahead : cell.Extends branch) {mode : MergeMode}
    (fits : latest.Fits (absorbed mode branch cell)) : latest.Fits branch := by
  cases mode with
  | everything => exact fits
  | readsOnly =>
    intro seen
    rw [ahead.source]
    exact fits seen

theorem perform_alike (copy : CopyOf marks base cell) (copy' : CopyOf known latest other)
    (alike : cell.Alike other) (request : Request α)
    (safe : base = latest ∨ latest.Fits (cell.perform request).2) :
    (other.perform request).1 = (cell.perform request).1 ∧
      (cell.perform request).2.Alike (other.perform request).2 := by
  have sources : base.source = latest.source := by
    rcases safe with rfl | fits
    · rfl
    · rw [← copy.source]
      cases request <;> exact fits rfl
  have current := alike.current_eq copy copy' sources
  cases request with
  | deref => exact ⟨current, rfl, alike.updated, fun _ => current⟩
  | assoc object => exact ⟨current, rfl, rfl, fun _ => rfl⟩

def advanced (cell latest : Cell α) : Cell α :=
  if cell.updated then ofObject cell.current else latest.copy .clean

theorem commit_ok {next : Cell α} (accepted : cell.commit latest = .ok next) :
    latest.accessed = false ∧
      (cell.accessed = true → cell.source.identity = latest.source.identity) ∧
      next = cell.advanced latest := by
  unfold commit at accepted
  split at accepted
  · cases accepted
  next settled =>
  split at accepted
  · cases accepted
  next unchanged =>
  refine ⟨by simpa using settled, fun seen => Eq.symm ?_, ?_⟩
  · simpa [seen, sameSource] using unchanged
  · unfold advanced
    split at accepted <;> cases accepted <;> simp_all

theorem commit_accepted (settled : latest.accessed = false)
    (unchanged : cell.accessed = true → cell.source.identity = latest.source.identity) :
    cell.commit latest = .ok (cell.advanced latest) := by
  have fits : (cell.accessed && !latest.sameSource cell) = false := by
    cases seen : cell.accessed with
    | false => rfl
    | true => simp [sameSource, unchanged seen]
  rw [commit, advanced, settled, fits]
  simp only [Bool.false_eq_true, if_false]
  split <;> rfl

theorem commit_of_copy (settled : latest.accessed = false) (copy : CopyOf marks latest cell) :
    cell.commit latest = .ok (cell.advanced latest) :=
  commit_accepted settled fun _ => congrArg Object.identity copy.source

theorem commit_alike {next : Cell α} (accepted : cell.commit latest = .ok next)
    (copy : CopyOf marks latest other) (alike : cell.Alike other) :
    other.commit latest = .ok next := by
  obtain ⟨settled, _, rfl⟩ := commit_ok accepted
  rw [commit_of_copy settled copy, advanced, advanced, alike.updated]
  split
  · next updated => rw [alike.current updated]
  · rfl

theorem untouched_advanced (cell latest : Cell α) : (cell.advanced latest).Untouched := by
  unfold advanced
  split <;> rfl

/-- No other object goes by the identity of the one that the base holds. -/
def Later (base latest : Cell α) : Prop :=
  base.source.identity = latest.source.identity → base.source = latest.source

theorem Later.refl (cell : Cell α) : Later cell cell :=
  fun _ => rfl

theorem Later.fits {next : Cell α} (later : Later base latest) (copy : CopyOf marks base cell)
    (accepted : cell.commit latest = .ok next) : latest.Fits cell := by
  intro seen
  have same := (commit_ok accepted).2.1 seen
  rw [copy.source] at same ⊢
  exact later same

theorem Later.commit {base' next : Cell α} (later : Later base latest)
    (copy : CopyOf marks base' cell)
    (agree : ∀ object, marks object → base.source.identity = object.identity →
      base.source = object)
    (accepted : cell.commit latest = .ok next) : Later base next := by
  obtain ⟨_, _, rfl⟩ := commit_ok accepted
  unfold advanced
  split
  · next updated => exact agree _ (copy.marked updated)
  · exact later

end TransactionalMemory.Cell
