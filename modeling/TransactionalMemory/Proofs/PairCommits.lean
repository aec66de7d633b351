import Mathlib.Data.List.Induction
import TransactionalMemory.Proofs.PairRelation

/-! Multimaps with a history. From empty ones on they are asked, copied, merged and committed into
one another in any order. Each is a set of pairs all the time, and a commit takes over what it shows
under the keys that were mentioned on the way, and leaves the others alone. -/
namespace TransactionalMemory.Multimap
variable {K V : Type}

section
variable [Ord K] [Ord V] [Std.TransOrd K] {multimap other : Multimap K V}

/-- What the identities stand for. -/
structure Heap (K V : Type) [Ord K] [Ord V] where
  set : Identity → ValueSet V
  entries : Identity → Entries K (ValueSet V)

namespace Heap
variable {heap : Heap K V} {next : Nat} {fresh : Identity}

/-- Gives a meaning to an identity that had none. -/
def extend (heap : Heap K V) (fresh : Identity) (set : ValueSet V)
    (entries : Entries K (ValueSet V)) : Heap K V :=
  ⟨fun identity => if identity = fresh then set else heap.set identity,
    fun identity => if identity = fresh then entries else heap.entries identity⟩

/-- A stored set that was made so far. -/
structure Stored (heap : Heap K V) (next : Nat) (object : Object (ValueSet V)) : Prop where
  filled : Filled object.content
  content : object.content = heap.set object.identity
  older : object.identity.origin < next

structure Covers (heap : Heap K V) (next : Nat) (multimap : Multimap K V) : Prop where
  content : multimap.table.source.content = heap.entries multimap.table.source.identity
  older : multimap.table.source.identity.origin < next
  stores : multimap.table.source.content.Every (heap.Stored next)
  writes : multimap.table.modified.Every (heap.Stored next)

omit [Std.TransOrd K] in
private theorem Stored.extend {object : Object (ValueSet V)} (stored : heap.Stored next object)
    (new : fresh.origin = next) (set : ValueSet V) (entries : Entries K (ValueSet V)) :
    (heap.extend fresh set entries).Stored (next + 1) object := by
  obtain ⟨filled, content, older⟩ := stored
  refine ⟨filled, content.trans (if_neg ?_).symm, by omega⟩
  rintro rfl
  omega

private theorem Covers.extend (covers : heap.Covers next multimap) (new : fresh.origin = next)
    (set : ValueSet V) (entries : Entries K (ValueSet V)) :
    (heap.extend fresh set entries).Covers (next + 1) multimap := by
  obtain ⟨content, older, stores, writes⟩ := covers
  refine ⟨content.trans (if_neg ?_).symm, by omega,
    stores.imp fun _ stored => stored.extend new set entries,
    writes.imp fun _ stored => stored.extend new set entries⟩
  intro same
  rw [same] at older
  omega

/-- The same identity, the same object. -/
private theorem Covers.later (covers : heap.Covers next multimap)
    (covers' : heap.Covers next other) : multimap.table.Later other.table := by
  refine ⟨fun same => by rw [covers.content, covers'.content, same], ?_⟩
  intro key one another found found' same
  have content := (covers.stores key one found).content
  have content' := (covers'.stores key another found').content
  cases one
  cases another
  simp_all

/-- Another copy of the same source. -/
private theorem Covers.of_source (covers : heap.Covers next multimap)
    (source : other.table.source = multimap.table.source)
    (writes : other.table.modified.Every (heap.Stored next)) : heap.Covers next other := by
  refine ⟨?_, ?_, ?_, writes⟩
  · rw [source]
    exact covers.content
  · rw [source]
    exact covers.older
  · rw [source]
    exact covers.stores

private theorem covers_create (heap : Heap K V) (new : fresh.origin = next) :
    (heap.extend fresh ∅ ∅).Covers (next + 1) (.empty fresh) := by
  refine ⟨?_, ?_, Entries.every_empty _, Entries.every_empty _⟩
  · exact (if_pos rfl).symm
  · show fresh.origin < next + 1
    omega

end Heap

end

/-- A clear mentions every committed key. -/
def Request.mentions (committed : List K) : Request K V → List K
  | .get key | .contains key | .put key _ | .putAll key _ | .removeValue key _
  | .remove key => [key]
  | .clear => committed
  | .size | .isEmpty | .keys _ => []

/-- A multimap, the pairs that it started from and that it should have by now, and the keys that
were mentioned to it or to a branch of it. Its log is kept as long as no merge has lost a read. -/
structure Member (K V : Type) [Ord K] [Ord V] where
  multimap : Multimap K V
  start : Set (K × V)
  pairs : Set (K × V)
  mentioned : List K
  kept : Prop

inductive Move (K V : Type) where
  | create
  | ask (index : Nat) (request : Request K V)
  | copy (index : Nat) (mode : CopyMode)
  | merge (branch target : Nat) (mode : MergeMode)
  | commit (index latest : Nat)

variable [Ord K] [Ord V] [Std.TransOrd K] [Std.TransOrd V]

namespace Member

def create (fresh : Identity) : Member K V :=
  ⟨.empty fresh, ∅, ∅, [], True⟩

def ask (fresh : Identity) (request : Request K V) (member : Member K V) : Member K V :=
  {member with
    multimap := (member.multimap.perform fresh request).2
    pairs := request.apply member.pairs
    mentioned := member.mentioned ++ request.mentions member.multimap.table.source.content.keys}

def copy (mode : CopyMode) (member : Member K V) : Member K V :=
  match mode with
  | .clean => ⟨member.multimap.copy .clean, member.start, member.start, [], True⟩
  | .dirty => {member with multimap := member.multimap.copy .dirty}

def merge (mode : MergeMode) (branch member : Member K V) : Member K V :=
  match branch.multimap.merge mode member.multimap with
  | .error _ => member
  | .ok merged =>
    ⟨merged, member.start, mode.pick branch.pairs member.pairs,
      member.mentioned ++ branch.mentioned,
      member.kept ∧ branch.kept ∧ member.multimap.table.Keeps branch.multimap.table⟩

def committed (next : Multimap K V) : Member K V :=
  ⟨next, next.table.entries.pairs, next.table.entries.pairs, [], True⟩

end Member

/-- Copies and what is committed join the others. A branch stays there after its merge, and may be
merged once more. -/
def Move.run (fresh : Identity) (members : List (Member K V)) : Move K V → List (Member K V)
  | .create => members ++ [.create fresh]
  | .ask index request =>
    match members[index]? with
    | some member => members.set index (member.ask fresh request)
    | none => members
  | .copy index mode =>
    match members[index]? with
    | some member => members ++ [member.copy mode]
    | none => members
  | .merge branch target mode =>
    match members[branch]?, members[target]? with
    | some branch, some member => members.set target (branch.merge mode member)
    | _, _ => members
  | .commit index latest =>
    match members[index]?, members[latest]? with
    | some member, some latest =>
      match member.multimap.commit fresh latest.multimap with
      | .ok next => members ++ [.committed next]
      | .error _ => members
    | _, _ => members

structure Pool (K V : Type) [Ord K] [Ord V] where
  members : List (Member K V)
  supply : Supply

def Pool.step (pool : Pool K V) (move : Move K V) : Pool K V :=
  let (fresh, supply) := pool.supply.mint
  ⟨move.run fresh pool.members, supply⟩

def Pool.run (moves : List (Move K V)) : Pool K V :=
  moves.foldl step ⟨[], ⟨0⟩⟩

/-- What readers can tell of a multimap. -/
structure Shows (member : Member K V) : Prop where
  stores : member.multimap.table.Stores Filled
  writes : member.multimap.table.modified.Every fun object => Filled object.content
  answers : ∀ fresh request,
    Answers member.pairs request (member.multimap.perform fresh request).1
  present : ∀ key, (member.multimap.contains key).1 = true ↔ (member.multimap.get key).1 ≠ ∅
  counted : ∃ keys : List K, keys.Nodup ∧
    (∀ key, key ∈ keys ↔ (member.multimap.get key).1 ≠ ∅) ∧
      member.multimap.size.1 = keys.length

/-- What a commit makes of the latest multimap. -/
structure Follows (member latest : Member K V) (next : Multimap K V) : Prop where
  named : member.kept → ∀ key ∈ member.mentioned, Holds member.pairs key (next.get key).1
  others : ∀ key ∉ member.mentioned, Holds latest.pairs key (next.get key).1

variable [Std.LawfulEqOrd K] {multimap other : Multimap K V}

section
omit [Std.TransOrd V]

private theorem logs_replace (fresh : Identity) (key : K) (set : ValueSet V)
    (multimap : Multimap K V) :
    Table.Logs False (key = ·) False multimap.table (multimap.replace fresh key set).2.table := by
  unfold replace
  split
  · exact Table.logs_remove key multimap.table
  · exact Table.logs_put key ⟨fresh, set⟩ multimap.table

private theorem logs_touched_replace (fresh : Identity) (key : K) (set : ValueSet V)
    (multimap : Multimap K V) :
    Table.Logs False (· ∈ [key]) False multimap.table
      ((multimap.get key).2.replace fresh key set).2.table :=
  ((Table.logs_touch key multimap.table).trans
    (logs_replace fresh key set (multimap.get key).2)).names_congr (by simp [eq_comm])

end

private theorem logs_perform (fresh : Identity) (multimap : Multimap K V) (request : Request K V) :
    ∃ tells clears, Table.Logs tells (· ∈ request.mentions multimap.table.source.content.keys)
      clears multimap.table (multimap.perform fresh request).2.table := by
  have touched (key : K) :
      Table.Logs False (· ∈ [key]) False multimap.table (multimap.get key).2.table :=
    (Table.logs_touch key multimap.table).names_congr (by simp [eq_comm])
  have whole (request : Table.Request K (ValueSet V))
      (none : ∀ key, ¬request.Names multimap.table.source.content key) :
      Table.Logs (request.TellsWhole (multimap.table.perform request).1) (· ∈ []) (request = .clear)
        multimap.table (multimap.table.perform request).2 :=
    (Table.logs_perform request multimap.table).names_congr (by simpa using none)
  cases request with
  | get key => exact ⟨_, _, touched key⟩
  | contains key => exact ⟨_, _, touched key⟩
  | put key value => exact ⟨_, _, logs_touched_replace fresh key _ multimap⟩
  | putAll key values => exact ⟨_, _, logs_touched_replace fresh key _ multimap⟩
  | removeValue key value =>
    simp only [perform, removeValue, Prod.map_snd, id]
    split
    · exact ⟨_, _, logs_touched_replace fresh key _ multimap⟩
    · exact ⟨_, _, touched key⟩
  | remove key =>
    refine ⟨_, _, (Table.logs_remove key multimap.table).names_congr fun other => ?_⟩
    rw [Request.mentions, List.mem_singleton, eq_comm]
  | clear =>
    refine ⟨_, _, (Table.logs_clear multimap.table).names_congr fun key => ?_⟩
    exact Std.ExtTreeMap.mem_keys.symm
  | size => exact ⟨_, _, whole .size fun _ => id⟩
  | isEmpty => exact ⟨_, _, whole .isEmpty fun _ => id⟩
  | keys limit => exact ⟨_, _, whole (.keys limit) fun _ => id⟩

section
variable {heap : Heap K V} {next : Nat} {fresh : Identity}

namespace Heap

private theorem Covers.perform (covers : heap.Covers next multimap) (new : fresh.origin = next)
    (request : Request K V) :
    ∃ set, (heap.extend fresh set ∅).Covers (next + 1) (multimap.perform fresh request).2 := by
  obtain ⟨set, every⟩ := every_perform fresh multimap request
  have later := covers.extend new set ∅
  refine ⟨set, later.of_source (source_perform fresh multimap request) ?_⟩
  refine every _ later.writes fun filled => ⟨filled, ?_, ?_⟩
  · exact (if_pos rfl).symm
  · show fresh.origin < next + 1
    omega

omit [Std.TransOrd V] in
private theorem Covers.advanced (covers : heap.Covers next multimap)
    (covers' : heap.Covers next other) (new : fresh.origin = next) :
    ∃ entries, (heap.extend fresh ∅ entries).Covers (next + 1)
      ⟨multimap.table.advanced fresh other.table⟩ := by
  have kept := fun entries => covers.extend new ∅ entries
  have kept' := fun entries => covers'.extend new ∅ entries
  refine ⟨(multimap.table.advanced fresh other.table).source.content, ?_⟩
  refine ⟨?_, ?_, fun key object found => ?_, ?_⟩
  · unfold Table.advanced
    split
    · exact (kept' _).content
    · exact (if_pos rfl).symm
  · unfold Table.advanced
    split
    · exact (kept' ∅).older
    · show fresh.origin < next + 1
      omega
  · rcases Table.entry_advanced found with committed | written
    · exact (kept' _).stores key object committed
    · exact (kept _).writes key object written
  · rw [← Table.untouched_advanced]
    exact Entries.every_empty _

end Heap

variable {member branch latest : Member K V} {members : List (Member K V)}

/-- What holds of a member, whatever happens to the others. -/
structure Sound (heap : Heap K V) (next : Nat) (member : Member K V) : Prop where
  covers : heap.Covers next member.multimap
  tidy : member.multimap.table.Tidy
  start : member.start = member.multimap.table.source.content.pairs
  pairs : member.pairs = member.multimap.table.entries.pairs
  accesses : member.kept → ∀ key ∈ member.mentioned, member.multimap.table.Accesses key
  written : ∀ key, member.multimap.table.Writes key → key ∈ member.mentioned

omit [Std.LawfulEqOrd K] in
private theorem Sound.proper (sound : Sound heap next member) : member.multimap.Proper where
  tidy := sound.tidy
  stores := sound.covers.stores.imp fun _ => Heap.Stored.filled
  writes := sound.covers.writes.imp fun _ => Heap.Stored.filled

omit [Std.LawfulEqOrd K] in
private theorem Sound.extend (sound : Sound heap next member) (new : fresh.origin = next)
    (set : ValueSet V) (entries : Entries K (ValueSet V)) :
    Sound (heap.extend fresh set entries) (next + 1) member :=
  {sound with covers := sound.covers.extend new set entries}

/-- A multimap without a log has no history of its own yet. -/
private theorem sound_untouched (covers : heap.Covers next multimap)
    (untouched : multimap.table.Untouched) {start : Set (K × V)}
    (same : start = multimap.table.source.content.pairs) :
    Sound heap next ⟨multimap, start, start, [], True⟩ := by
  obtain ⟨table⟩ := multimap
  obtain ⟨source, rfl⟩ : ∃ source, table = .ofObject source := ⟨_, untouched.symm⟩
  refine ⟨covers, Table.tidy_ofObject source, same, ?_, fun _ _ => nofun, ?_⟩
  · rw [Table.entries_ofObject, same]
    rfl
  · simp [Table.Writes, Table.ofObject]

private theorem sound_create (heap : Heap K V) (new : fresh.origin = next) :
    Sound (heap.extend fresh ∅ ∅) (next + 1) (.create fresh) :=
  sound_untouched (Heap.covers_create heap new) rfl Entries.pairs_empty.symm

private theorem Sound.copy (sound : Sound heap next member) (mode : CopyMode) :
    Sound heap next (member.copy mode) := by
  cases mode with
  | clean =>
    have covers : heap.Covers next (member.multimap.copy .clean) :=
      sound.covers.of_source rfl (Entries.every_empty _)
    exact sound_untouched covers rfl sound.start
  | dirty => exact sound

omit [Std.LawfulEqOrd K] in
private theorem Sound.same_source (branches : Sound heap next branch)
    (sound : Sound heap next member) (named : member.multimap.sameSource branch.multimap = true) :
    branch.multimap.table.source = member.multimap.table.source := by
  have same : member.multimap.table.source.identity = branch.multimap.table.source.identity := by
    simpa [sameSource, Table.sameSource] using named
  have content := sound.covers.content
  rw [same, ← branches.covers.content] at content
  exact (congrArg₂ Object.mk same content).symm

omit [Std.TransOrd V] [Std.LawfulEqOrd K] in
private theorem merge_foreign (foreign : ¬member.multimap.sameSource branch.multimap = true)
    (mode : MergeMode) : branch.merge mode member = member := by
  rw [sameSource] at foreign
  rw [Member.merge, Multimap.merge, Table.merge, if_neg foreign]
  rfl

omit [Std.LawfulEqOrd K] in
/-- A merge is accepted if the source is the same. -/
private theorem Sound.merge (branches : Sound heap next branch) (sound : Sound heap next member)
    (named : member.multimap.sameSource branch.multimap = true) (mode : MergeMode) :
    (∃ merged, branch.multimap.merge mode member.multimap = .ok merged) ∧
      Sound heap next (branch.merge mode member) := by
  obtain ⟨table, accepted, source, unlogged, logged⟩ :=
    Table.merge_logged (branches.same_source sound named) mode
  have merges : branch.multimap.merge mode member.multimap = .ok ⟨table⟩ := by
    rw [Multimap.merge, accepted]
    rfl
  refine ⟨⟨_, merges⟩, ?_⟩
  rw [Member.merge, merges]
  have picked : Sound heap next (mode.pick branch member) := by
    cases mode with
    | everything => exact branches
    | readsOnly => exact sound
  have tables : mode.pick branch.multimap.table member.multimap.table =
      (mode.pick branch member).multimap.table := by cases mode <;> rfl
  rw [tables] at unlogged
  have modified : table.modified = (mode.pick branch member).multimap.table.modified := by
    injection unlogged
  refine ⟨sound.covers.of_source source ?_, picked.tidy.unlogged unlogged.symm, ?_, ?_, ?_, ?_⟩
  · rw [modified]
    exact picked.covers.writes
  · rw [source]
    exact sound.start
  · rw [Table.entries_unlogged unlogged, ← picked.pairs]
    cases mode <;> rfl
  · rintro ⟨kept, kept', keeps⟩ key mentioned
    rw [logged]
    refine (Table.keeps_iff _ _).mpr keeps key ?_
    exact (List.mem_append.mp mentioned).imp (sound.accesses kept key) (branches.accesses kept' key)
  · intro key writes
    rw [Table.writes_unlogged unlogged.symm] at writes
    have mentioned := picked.written key writes
    cases mode with
    | everything => exact List.mem_append_right _ mentioned
    | readsOnly => exact List.mem_append_left _ mentioned

omit [Std.TransOrd V] in
private theorem commit_ok {result : Multimap K V}
    (accepted : multimap.commit fresh other = .ok result) :
    other.table.hasLog = false ∧
      (∀ key, multimap.table.Accesses key → multimap.table.source.content.identity? key =
        other.table.source.content.identity? key ∨
          multimap.table.source.identity = other.table.source.identity) ∧
      result = ⟨multimap.table.advanced fresh other.table⟩ := by
  obtain ⟨table, commits, rfl⟩ := Entity.map_ok accepted
  obtain ⟨settled, whole, entries, rfl⟩ := Table.commit_ok commits
  refine ⟨settled, fun key seen => ?_, rfl⟩
  rcases seen with all | seen
  · rcases whole all with named | same
    · exact .inr named
    · exact .inl ((Table.sameEntries_iff _ _).mp same key)
  · exact .inl (entries key seen)

private theorem Sound.commit (sound : Sound heap next member) (sound' : Sound heap next latest)
    (new : fresh.origin = next) {result : Multimap K V}
    (accepted : member.multimap.commit fresh latest.multimap = .ok result) :
    ∃ entries, Sound (heap.extend fresh ∅ entries) (next + 1) (.committed result) := by
  obtain ⟨_, _, rfl⟩ := commit_ok accepted
  obtain ⟨entries, covers⟩ := sound.covers.advanced sound'.covers new
  have untouched := Table.untouched_advanced fresh member.multimap.table latest.multimap.table
  refine ⟨entries, sound_untouched covers untouched ?_⟩
  rw [← untouched]
  exact congrArg Entries.pairs (Table.entries_ofObject _)

/-- What a key shows depends on what is found there. -/
private theorem holds_congr {table after : Table K (ValueSet V)} {key : K} {set : ValueSet V}
    (same : table.lookup key = after.lookup key) (holds : Holds table.entries.pairs key set) :
    Holds after.entries.pairs key set := by
  intro value
  rw [holds value]
  show (∃ object, table.entries[key]? = some object ∧ _) ↔
    ∃ object, after.entries[key]? = some object ∧ _
  rw [Table.getElem?_entries, Table.getElem?_entries, same]

private theorem Sound.follows (sound : Sound heap next member) (sound' : Sound heap next latest)
    {result : Multimap K V}
    (accepted : member.multimap.commit fresh latest.multimap = .ok result) :
    Follows member latest result := by
  obtain ⟨settled, calm, rfl⟩ := commit_ok accepted
  have later := sound.covers.later sound'.covers
  constructor
  · intro kept key mentioned
    have same : latest.multimap.table.source.content[key]? =
        member.multimap.table.source.content[key]? := by
      rcases calm key (sound.accesses kept key mentioned) with entry | named
      · exact (later.entry_eq entry).symm
      · rw [later.same named]
    rw [sound.pairs]
    refine holds_congr ?_ (holds_get _ key)
    rw [Table.lookup_advanced, Table.lookup, Table.lookup, same]
  · intro key unmentioned
    rw [sound'.pairs]
    refine holds_congr ?_ (holds_get _ key)
    have unwritten := mt (sound.written key) unmentioned
    rw [← Table.getElem?_entries, ← Table.getElem?_entries,
      (Table.untouched_advanced _ _ _).entries, Table.advanced_unwritten unwritten,
      Table.entries_of_settled settled]

variable [Std.LawfulEqOrd V]

private theorem Sound.ask (sound : Sound heap next member) (new : fresh.origin = next)
    (request : Request K V) :
    ∃ set, Sound (heap.extend fresh set ∅) (next + 1) (member.ask fresh request) := by
  obtain ⟨set, covers⟩ := sound.covers.perform new request
  obtain ⟨_, _, logs⟩ := logs_perform fresh member.multimap request
  have source := source_perform fresh member.multimap request
  refine ⟨set, covers, (sound.proper.perform fresh request).tidy, ?_, ?_, ?_, ?_⟩
  · rw [Member.ask, source]
    exact sound.start
  · rw [Member.ask, pairs_perform, sound.pairs]
  · intro kept key mentioned
    exact logs.accesses key ((List.mem_append.mp mentioned).imp_left (sound.accesses kept key))
  · intro key written
    exact List.mem_append.mpr ((logs.written key written).imp_left (sound.written key))

omit [Std.LawfulEqOrd V] in
private theorem Sound.shows (sound : Sound heap next member) : Shows member := by
  have proper := sound.proper
  have valued (key : K) :
      (member.multimap.get key).1 ≠ ∅ ↔ key ∈ member.multimap.table.entries := by
    rw [Entries.mem_iff_pairs proper.filled, ne_eq, Std.ExtTreeSet.eq_empty_iff_forall_not_mem,
      not_forall_not]
    exact exists_congr (member.multimap.holds_get key)
  refine ⟨proper.stores, proper.writes, fun fresh request => ?_, fun key => ?_, ?_⟩
  · rw [sound.pairs]
    exact proper.answers fresh request
  · rw [valued]
    exact Table.contains_iff member.multimap.table key
  · refine ⟨member.multimap.table.entries.keys, Std.ExtTreeMap.nodup_keys, fun key => ?_, ?_⟩
    · rw [valued, Std.ExtTreeMap.mem_keys]
    · rw [Std.ExtTreeMap.length_keys]
      exact proper.tidy.count_eq

omit [Std.LawfulEqOrd K] [Std.LawfulEqOrd V] in
/-- Whatever a move does, it joins at most one member to those that there were. -/
private theorem exists_sound (sound : ∀ member ∈ members, Sound heap next member)
    (new : fresh.origin = next) {set : ValueSet V} {entries : Entries K (ValueSet V)}
    (joined : Sound (heap.extend fresh set entries) (next + 1) member) {after : List (Member K V)}
    (within : ∀ other ∈ after, other ∈ members ∨ other = member) :
    ∃ heap, ∀ member ∈ after, Sound heap (next + 1) member := by
  refine ⟨heap.extend fresh set entries, fun other present => ?_⟩
  rcases within other present with old | rfl
  · exact (sound other old).extend new set entries
  · exact joined

private theorem sound_move (sound : ∀ member ∈ members, Sound heap next member)
    (new : fresh.origin = next) (move : Move K V) :
    ∃ heap, ∀ member ∈ move.run fresh members, Sound heap (next + 1) member := by
  have still : ∃ heap, ∀ member ∈ members, Sound heap (next + 1) member :=
    ⟨heap.extend fresh ∅ ∅, fun member present => (sound member present).extend new ∅ ∅⟩
  have appended {member : Member K V} :
      ∀ other ∈ members ++ [member], other ∈ members ∨ other = member :=
    fun other present => by simpa using present
  have replaced {member : Member K V} {index : Nat} :
      ∀ other ∈ members.set index member, other ∈ members ∨ other = member :=
    fun other => List.mem_or_eq_of_mem_set
  cases move with
  | create => exact exists_sound sound new (sound_create heap new) appended
  | ask index request =>
    simp only [Move.run]
    split
    · next member found =>
      obtain ⟨set, joined⟩ := (sound member (List.mem_of_getElem? found)).ask new request
      exact exists_sound sound new joined replaced
    · exact still
  | copy index mode =>
    simp only [Move.run]
    split
    · next member found =>
      have joined := (sound member (List.mem_of_getElem? found)).copy mode
      exact exists_sound sound new (joined.extend new ∅ ∅) appended
    · exact still
  | merge branch target mode =>
    simp only [Move.run]
    split
    · next branch member found found' =>
      have branches := sound branch (List.mem_of_getElem? found)
      have target := sound member (List.mem_of_getElem? found')
      by_cases named : member.multimap.sameSource branch.multimap = true
      · have joined := (branches.merge target named mode).2
        exact exists_sound sound new (joined.extend new ∅ ∅) replaced
      · rw [merge_foreign named]
        exact exists_sound sound new (target.extend new ∅ ∅) replaced
    · exact still
  | commit index latest =>
    simp only [Move.run]
    split
    · next member latest found found' =>
      split
      · next result accepted =>
        obtain ⟨entries, joined⟩ := (sound member (List.mem_of_getElem? found)).commit
          (sound latest (List.mem_of_getElem? found')) new accepted
        exact exists_sound sound new joined appended
      · exact still
    · exact still

theorem sound_run (moves : List (Move K V)) :
    ∃ heap, ∀ member ∈ (Pool.run moves).members,
      Sound heap (Pool.run moves).supply.next member := by
  induction moves using List.reverseRecOn with
  | nil => exact ⟨⟨fun _ => ∅, fun _ => ∅⟩, nofun⟩
  | append_singleton moves move ih =>
    obtain ⟨heap, sound⟩ := ih
    rw [Pool.run, List.foldl_concat, ← Pool.run]
    exact sound_move sound rfl move

end

/-- Multimaps that have come from empty ones, whatever was asked of them, copied, merged and
committed, never store an empty set and answer like sets of pairs. What a commit leaves under the
keys that were not mentioned is what the latest one has there, and under the others what the copy
shows, as long as no merge has lost a read. -/
theorem sets_of_pairs [Std.LawfulEqOrd V] (moves : List (Move K V)) :
    (∀ member ∈ (Pool.run moves).members, Shows member) ∧
      ∀ member ∈ (Pool.run moves).members, ∀ other ∈ (Pool.run moves).members,
        (other.multimap.sameSource member.multimap = true →
          ∀ mode, ∃ merged, member.multimap.merge mode other.multimap = .ok merged) ∧
        ∀ fresh next, member.multimap.commit fresh other.multimap = .ok next →
          Follows member other next := by
  obtain ⟨heap, sound⟩ := sound_run moves
  refine ⟨fun member present => (sound member present).shows, ?_⟩
  intro member present other present'
  refine ⟨fun named mode => ?_, fun fresh next accepted => ?_⟩
  · exact ((sound member present).merge (sound other present') named mode).1
  · exact (sound member present).follows (sound other present') accepted

/-- A branch removes the last value of a key, while another transaction adds a key. -/
def crossing : List (Move Nat Nat) :=
  [.create, .copy 0 .clean, .ask 1 (.putAll 1 [10, 11]), .ask 1 (.put 2 20), .commit 1 0,
    .copy 2 .clean, .copy 3 .dirty, .ask 4 (.removeValue 2 20), .ask 4 (.removeValue 1 10),
    .merge 4 3 .everything, .copy 2 .clean, .ask 5 (.put 7 70), .commit 5 2, .commit 3 6]

theorem sets_of_pairs_crossing :
    (Pool.run crossing).members.map (fun member => (member.multimap.keys none).1.taken) =
        [[], [1, 2], [1, 2], [1], [1], [1, 2, 7], [1, 2, 7], [1, 7]] ∧
      (∀ member ∈ (Pool.run crossing).members, Shows member) ∧
      ∀ member ∈ (Pool.run crossing).members, ∀ other ∈ (Pool.run crossing).members,
        (other.multimap.sameSource member.multimap = true →
          ∀ mode, ∃ merged, member.multimap.merge mode other.multimap = .ok merged) ∧
        ∀ fresh next, member.multimap.commit fresh other.multimap = .ok next →
          Follows member other next :=
  ⟨by decide +kernel, sets_of_pairs crossing⟩

/-- A branch counts the keys and then looks for one that is not there. The copy is cleared before
the branch is merged, and another transaction adds that key. -/
def overlooking : List (Move Nat Nat) :=
  [.create, .copy 0 .clean, .ask 1 (.put 1 10), .commit 1 0, .copy 2 .clean, .copy 3 .dirty,
    .ask 4 .size, .ask 4 (.get 5), .ask 3 .clear, .merge 4 3 .everything, .copy 2 .clean,
    .ask 5 (.put 5 50), .commit 5 2]

theorem mentioned_key_overlooked :
    (do
      let member ← (Pool.run overlooking).members[3]?
      let latest ← (Pool.run overlooking).members[6]?
      let next ← (member.multimap.commit ⟨13, []⟩ latest.multimap).toOption
      return (member.mentioned, (member.multimap.get 5).1.toList, (next.get 5).1.toList)) =
    some ([1, 5], [], [50]) := by
  decide +kernel

end TransactionalMemory.Multimap
