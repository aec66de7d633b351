import TransactionalMemory.Proofs.EntityCopy

/-! The two halves of what a working copy has done. What it has read stands in its log, which alone
decides which latest entities it is refused by; its content is all the rest, which alone decides
what it answers. -/
namespace TransactionalMemory

/-- Whose content a merge leaves in the target. -/
def MergeMode.pick {α : Type} (mode : MergeMode) (branch target : α) : α :=
  match mode with
  | .everything => branch
  | .readsOnly => target

namespace Cell
variable {α : Type} {cell other : Cell α}

def unlogged (cell : Cell α) : Cell α :=
  {cell with accessed := false}

structure SameLog (cell other : Cell α) : Prop where
  source : other.source = cell.source
  accessed : other.accessed = cell.accessed

theorem unlogged_absorbed (mode : MergeMode) (branch cell : Cell α) :
    (mode.pick branch cell).unlogged = (absorbed mode branch cell).unlogged := by
  cases mode <;> rfl

theorem Extends.log_absorbed {branch : Cell α} (ahead : cell.Extends branch) (mode : MergeMode) :
    branch.SameLog (absorbed mode branch cell) := by
  cases mode with
  | everything => exact ⟨rfl, rfl⟩
  | readsOnly => exact ⟨ahead.source.symm, rfl⟩

theorem perform_unlogged (same : cell.unlogged = other.unlogged) (request : Request α) :
    (other.perform request).1 = (cell.perform request).1 ∧
      (cell.perform request).2.unlogged = (other.perform request).2.unlogged := by
  have kept := same
  injection same with source current _ updated
  cases request with
  | deref => exact ⟨current.symm, kept⟩
  | assoc object => exact ⟨current.symm, by simp only [perform, assoc, unlogged, source]⟩

end Cell

namespace Table
variable {K V : Type} [Ord K] {table other : Table K V}

def unlogged (table : Table K V) : Table K V :=
  {table with accessed := ∅, accessedWhole := false, cleared := false}

structure SameLog (table other : Table K V) : Prop where
  source : other.source = table.source
  accessed : other.accessed = table.accessed
  accessedWhole : other.accessedWhole = table.accessedWhole

theorem unlogged_absorbed (mode : MergeMode) (branch table : Table K V) :
    (mode.pick branch table).unlogged = (absorbed mode branch table).unlogged := by
  cases mode <;> rfl

theorem unlogged_touchWhole (table : Table K V) : table.touchWhole.unlogged = table.unlogged := by
  unfold touchWhole
  split <;> rfl

variable [Std.TransOrd K]

private theorem unlogged_mergeLog (branch table : Table K V) :
    (mergeLog branch table).unlogged = table.unlogged := by
  have kept (table : Table K V) :
      (if table.accessedWhole then table
        else {table with accessed := table.accessed ∪ branch.accessed}).unlogged =
      table.unlogged := by
    split <;> rfl
  unfold mergeLog
  rw [kept]
  split
  · exact unlogged_touchWhole table
  · rfl

theorem merge_unlogged {branch : Table K V} (same : branch.source = table.source)
    (mode : MergeMode) :
    ∃ merged, branch.merge mode table = .ok merged ∧
      merged.unlogged = (mode.pick branch table).unlogged := by
  have named : table.sameSource branch = true := by simp [sameSource, same]
  have logged := unlogged_mergeLog branch table
  unfold merge
  rw [if_pos named]
  cases mode with
  | everything =>
    refine ⟨_, rfl, ?_⟩
    injection logged with source
    simp only [unlogged, MergeMode.pick, same, source]
  | readsOnly => exact ⟨_, rfl, logged⟩

theorem Extends.log_absorbed {branch : Table K V} (ahead : table.Extends branch)
    (mode : MergeMode) : branch.SameLog (absorbed mode branch table) := by
  cases mode with
  | everything => exact ⟨rfl, rfl, rfl⟩
  | readsOnly => exact ⟨ahead.source.symm, rfl, rfl⟩

theorem unlogged_touch (key : K) (table : Table K V) :
    (table.touch key).unlogged = table.unlogged := by
  unfold touch
  split <;> rfl

private theorem unlogged_put (same : table.unlogged = other.unlogged) (key : K)
    (object : Object V) :
    (table.put key object).2.unlogged = (other.put key object).2.unlogged := by
  have touched : (table.touch key).unlogged = (other.touch key).unlogged := by
    rw [unlogged_touch, unlogged_touch, same]
  injection touched with source modified deleted
  simp only [put, unlogged, source, modified, deleted]

private theorem unlogged_putAll (same : table.unlogged = other.unlogged)
    (entries : List (K × Object V)) :
    (table.putAll entries).unlogged = (other.putAll entries).unlogged := by
  induction entries generalizing table other with
  | nil => exact same
  | cons entry entries ih => exact ih (unlogged_put same entry.1 entry.2)

private theorem unlogged_remove (same : table.unlogged = other.unlogged) (key : K) :
    (table.remove key).2.unlogged = (other.remove key).2.unlogged := by
  have touched : (table.touch key).unlogged = (other.touch key).unlogged := by
    rw [unlogged_touch, unlogged_touch, same]
  injection touched with source modified deleted
  simp only [remove, unlogged, source, modified, deleted]

theorem unlogged_touchCommitted (table : Table K V) :
    table.touchCommitted.unlogged = table.unlogged := by
  unfold touchCommitted
  split <;> rfl

private theorem unlogged_clear (same : table.unlogged = other.unlogged) :
    table.clear.unlogged = other.clear.unlogged := by
  have touched : table.touchCommitted.unlogged = other.touchCommitted.unlogged := by
    rw [unlogged_touchCommitted, unlogged_touchCommitted, same]
  injection touched with source _ deleted
  simp only [clear, unlogged, source, deleted]

theorem perform_unlogged (same : table.unlogged = other.unlogged) (request : Request K V) :
    (other.perform request).1 = (table.perform request).1 ∧
      (table.perform request).2.unlogged = (other.perform request).2.unlogged := by
  have whole : table.touchWhole.unlogged = other.touchWhole.unlogged := by
    rw [unlogged_touchWhole, unlogged_touchWhole, same]
  have touched (key : K) : (table.touch key).unlogged = (other.touch key).unlogged := by
    rw [unlogged_touch, unlogged_touch, same]
  have kept := same
  injection same with source modified deleted
  have seen (key : K) : other.lookup key = table.lookup key := by
    rw [lookup, lookup, source, modified, deleted]
  cases request with
  | get key =>
    refine ⟨?_, touched key⟩
    simp only [perform, get, Prod.map_fst, seen]
  | contains key =>
    refine ⟨?_, touched key⟩
    simp only [perform, contains, Prod.map_fst, source, modified, deleted]
  | put key object =>
    refine ⟨?_, unlogged_put kept key object⟩
    simp only [perform, put, Prod.map_fst, seen]
  | putAll entries => exact ⟨rfl, unlogged_putAll kept entries⟩
  | remove key =>
    refine ⟨?_, unlogged_remove kept key⟩
    simp only [perform, remove, Prod.map_fst, seen]
  | clear => exact ⟨rfl, unlogged_clear kept⟩
  | size =>
    refine ⟨?_, whole⟩
    simp only [perform, size, count, Prod.map_fst, source, modified, deleted]
  | isEmpty =>
    have vacant : other.vacant = table.vacant := by
      rw [Table.vacant, Table.vacant, source, modified, deleted]
    simp only [perform, isEmpty, vacant]
    split
    · exact ⟨rfl, whole⟩
    · exact ⟨rfl, kept⟩
  | keys limit =>
    have visible : other.visibleKeys = table.visibleKeys := by
      rw [visibleKeys, visibleKeys, source, modified, deleted]
    cases limit with
    | none =>
      refine ⟨?_, whole⟩
      simp only [perform, keys, Prod.map_fst, visible]
    | some limit =>
      simp only [perform, keys, visible]
      split
      · exact ⟨rfl, whole⟩
      · exact ⟨rfl, kept⟩

end Table

namespace Multimap
variable {K V : Type} [Ord K] [Ord V] [Std.TransOrd K] {multimap other : Multimap K V}

private theorem get_unlogged (same : multimap.table.unlogged = other.table.unlogged) (key : K) :
    (other.get key).1 = (multimap.get key).1 ∧
      (multimap.get key).2.table.unlogged = (other.get key).2.table.unlogged := by
  obtain ⟨answer, after⟩ := Table.perform_unlogged same (.get key)
  have entry : (other.table.get key).1 = (multimap.table.get key).1 := by injection answer
  exact ⟨by rw [get, get, Prod.map_fst, Prod.map_fst, entry], after⟩

private theorem remove_unlogged (same : multimap.table.unlogged = other.table.unlogged) (key : K) :
    (other.remove key).1 = (multimap.remove key).1 ∧
      (multimap.remove key).2.table.unlogged = (other.remove key).2.table.unlogged := by
  obtain ⟨answer, after⟩ := Table.perform_unlogged same (.remove key)
  have entry : (other.table.remove key).1 = (multimap.table.remove key).1 := by injection answer
  exact ⟨by rw [remove, remove, Prod.map_fst, Prod.map_fst, entry], after⟩

private theorem replace_unlogged (same : multimap.table.unlogged = other.table.unlogged)
    (fresh : Identity) (key : K) (set : ValueSet V) :
    (other.replace fresh key set).1 = (multimap.replace fresh key set).1 ∧
      (multimap.replace fresh key set).2.table.unlogged =
        (other.replace fresh key set).2.table.unlogged := by
  unfold replace
  split
  · exact remove_unlogged same key
  · obtain ⟨answer, after⟩ := Table.perform_unlogged same (.put key ⟨fresh, set⟩)
    have entry : (other.table.put key ⟨fresh, set⟩).1 =
        (multimap.table.put key ⟨fresh, set⟩).1 := by
      injection answer
    exact ⟨by rw [Prod.map_fst, Prod.map_fst, entry], after⟩

variable [Std.TransOrd V]

private theorem putAll_unlogged (same : multimap.table.unlogged = other.table.unlogged)
    (fresh : Identity) (key : K) (added : List V) :
    (other.putAll fresh key added).1 = (multimap.putAll fresh key added).1 ∧
      (multimap.putAll fresh key added).2.table.unlogged =
        (other.putAll fresh key added).2.table.unlogged := by
  obtain ⟨answer, after⟩ := get_unlogged same key
  simp only [putAll, answer]
  exact replace_unlogged after fresh key _

theorem perform_unlogged (same : multimap.table.unlogged = other.table.unlogged)
    (fresh : Identity) (request : Request K V) :
    (other.perform fresh request).1 = (multimap.perform fresh request).1 ∧
      (multimap.perform fresh request).2.table.unlogged =
        (other.perform fresh request).2.table.unlogged := by
  have whole (request : Table.Request K (ValueSet V)) := Table.perform_unlogged same request
  cases request with
  | get key => exact (get_unlogged same key).imp (congrArg Reply.values) id
  | contains key =>
    obtain ⟨answer, after⟩ := whole (.contains key)
    injection answer with flag
    exact ⟨congrArg Reply.flag flag, after⟩
  | put key value => exact (putAll_unlogged same fresh key [value]).imp (congrArg Reply.values) id
  | putAll key values =>
    exact (putAll_unlogged same fresh key values).imp (congrArg Reply.values) id
  | removeValue key value =>
    obtain ⟨answer, after⟩ := get_unlogged same key
    simp only [perform, removeValue, answer]
    split
    · exact ⟨rfl, (replace_unlogged after fresh key _).2⟩
    · exact ⟨rfl, after⟩
  | remove key => exact (remove_unlogged same key).imp (congrArg Reply.values) id
  | clear => exact ⟨rfl, Table.unlogged_clear same⟩
  | size =>
    obtain ⟨answer, after⟩ := whole .size
    injection answer with count
    exact ⟨congrArg Reply.count count, after⟩
  | isEmpty =>
    obtain ⟨answer, after⟩ := whole .isEmpty
    injection answer with flag
    exact ⟨congrArg Reply.flag flag, after⟩
  | keys limit =>
    obtain ⟨answer, after⟩ := whole (.keys limit)
    injection answer with listing
    exact ⟨congrArg Reply.listing listing, after⟩

end Multimap

namespace Queue
variable {α : Type} {queue other : Queue α}

def unlogged (queue : Queue α) : Queue α :=
  {queue with depth := 0}

structure SameLog (queue other : Queue α) : Prop where
  source : other.source = queue.source
  head : other.polledBefore = queue.polledBefore
  depth : other.depth = queue.depth

theorem unlogged_absorbed (mode : MergeMode) (branch queue : Queue α) :
    (mode.pick branch queue).unlogged = (absorbed mode branch queue).unlogged := by
  cases mode <;> rfl

theorem CopyOf.log_absorbed {base branch : Queue α} (copy : CopyOf base branch)
    (target : CopyOf base queue) (mode : MergeMode) :
    branch.SameLog (absorbed mode branch queue) := by
  cases mode with
  | everything => exact ⟨rfl, rfl, rfl⟩
  | readsOnly => exact ⟨target.source.trans copy.source.symm, target.head.trans copy.head.symm, rfl⟩

private theorem eq_of_unlogged (same : queue.unlogged = other.unlogged) :
    ∃ depth, other = {queue with depth} := by
  cases queue
  cases other
  injection same with source head cursor tail polled
  exact ⟨_, by rw [source, head, cursor, tail, polled]⟩

private theorem peek_unlogged (same : queue.unlogged = other.unlogged) :
    other.peek.1 = queue.peek.1 ∧ queue.peek.2.unlogged = other.peek.2.unlogged := by
  obtain ⟨depth, rfl⟩ := eq_of_unlogged same
  unfold peek
  dsimp only
  split <;> exact ⟨rfl, rfl⟩

private theorem poll_unlogged (same : queue.unlogged = other.unlogged) :
    other.poll.1 = queue.poll.1 ∧ queue.poll.2.unlogged = other.poll.2.unlogged := by
  obtain ⟨depth, rfl⟩ := eq_of_unlogged same
  unfold poll
  dsimp only
  split <;> exact ⟨rfl, rfl⟩

private theorem pollUpTo_unlogged (same : queue.unlogged = other.unlogged) (limit : Nat) :
    (other.pollUpTo limit).1 = (queue.pollUpTo limit).1 ∧
      (queue.pollUpTo limit).2.unlogged = (other.pollUpTo limit).2.unlogged := by
  induction limit generalizing queue other with
  | zero => exact ⟨rfl, (poll_unlogged same).2⟩
  | succ limit ih =>
    obtain ⟨answer, after⟩ := poll_unlogged same
    rcases went : queue.poll with ⟨found, rest⟩
    rcases went' : other.poll with ⟨found', rest'⟩
    rw [went, went'] at answer after
    obtain rfl : found' = found := answer
    unfold pollUpTo
    rw [went, went']
    cases found' with
    | none => exact ⟨rfl, after⟩
    | some item => exact (ih after).imp (congrArg (item :: ·)) id

theorem perform_unlogged (same : queue.unlogged = other.unlogged) (request : Request α) :
    (other.perform request).1 = (queue.perform request).1 ∧
      (queue.perform request).2.unlogged = (other.perform request).2.unlogged := by
  have peeked := peek_unlogged same
  have polled := poll_unlogged same
  have kept := same
  injection same with source head cursor tail amount
  have items : other.items = queue.items := by rw [Queue.items, Queue.items, source, cursor, tail]
  have drained := pollUpTo_unlogged kept queue.items.length
  cases request with
  | offer item =>
    exact ⟨rfl, by simp only [perform, offer, unlogged, source, head, cursor, tail, amount]⟩
  | offerAll items =>
    exact ⟨rfl, by simp only [perform, offerAll, unlogged, source, head, cursor, tail, amount]⟩
  | peek => exact peeked.imp (congrArg Reply.item) id
  | poll => exact polled.imp (congrArg Reply.item) id
  | element =>
    refine ⟨?_, peeked.2⟩
    simp only [perform, element, Prod.map_fst, peeked.1]
  | removeHead =>
    refine ⟨?_, polled.2⟩
    simp only [perform, removeHead, Prod.map_fst, polled.1]
  | isEmpty =>
    refine ⟨?_, peeked.2⟩
    simp only [perform, isEmpty, Prod.map_fst, peeked.1]
  | size =>
    have after := peeked.2
    injection after with source' _ cursor' tail'
    refine ⟨?_, by simpa only [perform, Prod.map_snd, id, size_snd] using peeked.2⟩
    simp only [perform, size, isEmpty, Prod.map_fst, Prod.map_snd, peeked.1, id, source', cursor',
      tail']
    split <;> rfl
  | clear =>
    refine ⟨rfl, ?_⟩
    simp only [perform, clear, drain, items]
    exact drained.2
  | drain =>
    simp only [perform, drain, items]
    exact drained.imp (congrArg Reply.items) id

end Queue

namespace Entity

def contentLinks : Links where
  cell := fun inner other => inner.unlogged = other.unlogged
  table := fun inner other => inner.unlogged = other.unlogged
  multimap := fun inner other => inner.table.unlogged = other.table.unlogged
  queue := fun inner other => inner.unlogged = other.unlogged
  rule := fun _ _ => True
  slot := fun _ _ related => related
  timestamp := Eq
  globals := fun inner other => inner.unlogged = other.unlogged

/-- The two show the same values and hold the same pending writes in every part, whichever of them
were read. -/
abbrev SameContent : (entity other : Entity) → Prop :=
  Relates contentLinks

def logLinks : Links where
  cell := Cell.SameLog
  table := Table.SameLog
  multimap := fun inner other => inner.table.SameLog other.table
  queue := Queue.SameLog
  rule := fun _ _ => True
  slot := fun slot other related =>
    other.accessed = slot.accessed ∧ (slot.accessed = true → related)
  timestamp := fun _ _ => True
  globals := Table.SameLog

/-- The two have read the same parts of the same entity. -/
abbrev SameLog : (entity other : Entity) → Prop :=
  Relates logLinks

variable {entity other last : Entity}

private theorem reflexive_content : contentLinks.Reflexive where
  cell := fun _ => rfl
  table := fun _ => rfl
  multimap := fun _ => rfl
  queue := fun _ => rfl
  rule := fun _ => trivial
  slot := fun _ _ => id
  timestamp := fun _ => rfl
  globals := fun _ => rfl

theorem SameContent.refl (entity : Entity) : SameContent entity entity :=
  reflexive_content.relates entity

private theorem composes_content : contentLinks.Composes contentLinks contentLinks where
  cell := .trans
  table := .trans
  multimap := .trans
  queue := .trans
  rule := fun _ _ => trivial
  slot := fun inside => inside
  timestamp := .trans
  globals := .trans

theorem SameContent.trans (first : SameContent entity other) (second : SameContent other last) :
    SameContent entity last :=
  composes_content.relates first second

private theorem flipped_content : contentLinks.flip.Implies contentLinks where
  cell := .symm
  table := .symm
  multimap := .symm
  queue := .symm
  rule := id
  slot := id
  timestamp := .symm
  globals := .symm

theorem SameContent.symm (same : SameContent entity other) : SameContent other entity :=
  flipped_content.relates (Relates.flip same id)

theorem Untouched.content_copy (untouched : Untouched entity) (seed : Identity)
    (mode : CopyMode) : SameContent entity (entity.copy seed mode) := by
  induction entity using induct generalizing seed with
  | cell inner =>
    rw [copy, untouched.copy_eq mode, untouched]
    exact .refl _
  | table inner =>
    rw [copy, untouched.copy_eq mode, untouched]
    exact .refl _
  | multimap inner =>
    rw [copy, Multimap.copy, untouched.copy_eq mode, untouched]
    exact .refl _
  | queue inner =>
    rw [copy, untouched.copy_eq mode, untouched]
    exact .refl _
  | bundle slots rule ih =>
    have untouched := every_bundle.mp untouched
    rw [copy, copySlots_untouched seed mode 0 fun slot member => (untouched slot member).1]
    refine relates_bundle.mpr ⟨slots, mode.rule, rfl, trivial, List.forall₂_same.mpr ?_⟩
    exact fun slot _ => SameContent.refl slot.content
  | snapshot inner ih =>
    obtain ⟨data, globals⟩ := every_snapshot.mp untouched
    rw [copy_snapshot]
    refine relates_snapshot.mpr ⟨_, rfl, rfl, ih data _, ?_⟩
    rw [Snapshot.copy, Table.Untouched.copy_eq globals mode, globals]
    exact rfl

theorem Reached.content {guard : Guard} {base slot reached : Slot Entity}
    (reach : Reached base slot reached) (copy : (copyLinks guard).SlotRelated base slot)
    (untouched : Untouched base.content) : SameContent slot.content reached.content := by
  cases reach with
  | before seen same =>
    rw [same]
    exact .refl _
  | now unseen seed mode copied =>
    rw [copied, copy.2 unseen]
    exact untouched.content_copy seed mode

end Entity

/-- What a commit is refused for. -/
def refusal {α : Type} : Except Failure α → Option Failure
  | .ok _ => none
  | .error failure => some failure

section
variable {α β γ δ : Type}

theorem refusal_eq_some {result : Except Failure α} {failure : Failure} :
    refusal result = some failure ↔ result = .error failure := by
  cases result <;> simp [refusal]

@[simp] theorem refusal_map (wrap : α → β) (result : Except Failure α) :
    refusal (result.map wrap) = refusal result := by
  cases result <;> rfl

private theorem refusal_bind {result : Except Failure α} {result' : Except Failure β}
    {next : α → Except Failure γ} {next' : β → Except Failure δ}
    (same : refusal result = refusal result')
    (after : ∀ value value', refusal (next value) = refusal (next' value')) :
    refusal (result >>= next) = refusal (result' >>= next') := by
  cases result <;> cases result' <;> first | exact same | exact after _ _ | cases same

end

private theorem Cell.SameLog.refusal_commit {α : Type} {cell other : Cell α}
    (same : cell.SameLog other) (latest : Cell α) :
    refusal (other.commit latest) = refusal (cell.commit latest) := by
  obtain ⟨source, accessed⟩ := same
  have sources : latest.sameSource other = latest.sameSource cell := by
    rw [sameSource, sameSource, source]
  rw [commit, commit, accessed, sources]
  split
  · rfl
  · split
    · rfl
    · split <;> split <;> rfl

private theorem Table.SameLog.refusal_commit {K V : Type} [Ord K] [Std.TransOrd K]
    {table other : Table K V} (same : table.SameLog other) (fresh fresh' : Identity)
    (latest : Table K V) :
    refusal (other.commit fresh' latest) = refusal (table.commit fresh latest) := by
  obtain ⟨source, accessed, accessedWhole⟩ := same
  have sources : other.sameSource latest = table.sameSource latest := by
    rw [sameSource, sameSource, source]
  rw [commit, commit, accessed, accessedWhole, sources, source]
  split
  · rfl
  · split
    · rfl
    · split
      · rfl
      · split <;> split <;> rfl

private theorem Queue.SameLog.refusal_commit {α : Type} {queue other : Queue α}
    (same : queue.SameLog other) (fresh fresh' : Identity) (latest : Queue α) :
    refusal (other.commit fresh' latest) = refusal (queue.commit fresh latest) := by
  obtain ⟨source, head, depth⟩ := same
  have heads : other.sameHead latest = queue.sameHead latest := by rw [sameHead, sameHead, head]
  have sources : other.sameSource latest = queue.sameSource latest := by
    rw [sameSource, sameSource, source]
  rw [commit, commit, depth, heads, sources, source]
  split
  · rfl
  · split
    · rfl
    · split
      · rfl
      · split <;> split <;> rfl

namespace Entity

private theorem SameLog.refusal_commitSlots {slots others : List (Slot Entity)}
    (inside : ∀ slot ∈ slots, ∀ {other fresh fresh' latest},
      SameLog slot.content other → refusal (other.commit fresh' latest) =
        refusal (slot.content.commit fresh latest))
    (same : List.Forall₂ logLinks.SlotRelated slots others) (fresh fresh' : Identity)
    (index : Nat) (latests : List (Slot Entity)) :
    refusal (commitSlots fresh' index others latests) =
      refusal (commitSlots fresh index slots latests) := by
  induction same generalizing index latests with
  | nil => rfl
  | @cons slot other slots others head tail ih =>
    have rest := ih (fun slot member => inside slot (List.mem_cons_of_mem _ member)) (index + 1)
    obtain ⟨identity, accessed, content⟩ := slot
    obtain ⟨identity', accessed', content'⟩ := other
    obtain ⟨accesses, contents⟩ := head
    dsimp only at accesses
    subst accesses
    cases latests with
    | nil => cases accessed' <;> rfl
    | cons latest latests =>
      cases accessed' with
      | true =>
        unfold commitSlots
        refine refusal_bind (inside _ List.mem_cons_self (contents rfl)) fun _ _ => ?_
        exact refusal_bind (rest latests) fun _ _ => rfl
      | false =>
        unfold commitSlots
        exact refusal_bind (rest latests) fun _ _ => rfl

theorem SameLog.refusal_commit {entity other : Entity} (same : SameLog entity other)
    (fresh fresh' : Identity) (latest : Entity) :
    refusal (other.commit fresh' latest) = refusal (entity.commit fresh latest) := by
  induction entity using induct generalizing other fresh fresh' latest with
  | cell inner =>
    obtain ⟨_, rfl, same⟩ := relates_cell.mp same
    cases latest <;> first | rfl | simp only [commit, refusal_map, Cell.SameLog.refusal_commit same]
  | table inner =>
    obtain ⟨_, rfl, same⟩ := relates_table.mp same
    cases latest <;> first | rfl | simp only [commit, refusal_map,
      Table.SameLog.refusal_commit same fresh fresh']
  | multimap inner =>
    obtain ⟨_, rfl, same⟩ := relates_multimap.mp same
    cases latest <;> first | rfl | simp only [commit, Multimap.commit, refusal_map,
      Table.SameLog.refusal_commit same fresh fresh']
  | queue inner =>
    obtain ⟨_, rfl, same⟩ := relates_queue.mp same
    cases latest <;> first | rfl | simp only [commit, refusal_map,
      Queue.SameLog.refusal_commit same fresh fresh']
  | bundle slots rule ih =>
    obtain ⟨others, _, rfl, _, same⟩ := relates_bundle.mp same
    cases latest with
    | bundle latests rule' =>
      rw [commit, commit, same.length_eq]
      split
      · rfl
      · split
        · rfl
        · rw [refusal_map, refusal_map]
          exact refusal_commitSlots (fun slot member _ _ _ _ same => ih slot member same _ _ _) same
            fresh fresh' 0 latests
    | _ => rfl
  | snapshot inner ih =>
    obtain ⟨inner', rfl, _, same, same'⟩ := relates_snapshot.mp same
    cases latest with
    | snapshot latest =>
      rw [commit_snapshot, commit_snapshot, refusal_map, refusal_map, Snapshot.commit,
        Snapshot.commit]
      refine refusal_bind (ih same _ _ _) fun _ _ => ?_
      exact refusal_bind (Table.SameLog.refusal_commit same' _ _ _) fun _ _ => rfl
    | _ => rfl

end Entity
end TransactionalMemory
