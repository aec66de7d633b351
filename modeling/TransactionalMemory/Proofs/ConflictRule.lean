import TransactionalMemory.Proofs.IndependentCommits

/-! The conflict rule of a table, told by what was asked of it. The log is lossy: it drops single
keys once the whole table was seen, and no longer minds the whole table after a clear. A commit
still checks neither more nor less than the requests have named and their answers have told. -/
namespace TransactionalMemory.Table
variable {K V : Type} [Ord K] [Std.TransOrd K] {base latest table after last : Table K V}
  {requests : List (Request K V)}

def performAll (table : Table K V) (requests : List (Request K V)) : Table K V :=
  requests.foldl (fun table request => (table.perform request).2) table

/-- A clear names every committed key. -/
def Request.Names (committed : Entries K V) (key : K) : Request K V → Prop
  | .get other | .contains other | .put other _ | .remove other => other = key
  | .putAll entries => ∃ entry ∈ entries, entry.1 = key
  | .clear => key ∈ committed
  | _ => False

/-- An answer that tells something about every key. -/
def Request.TellsWhole : Request K V → Reply K V → Prop
  | .size, _ => True
  | .isEmpty, .flag truth => truth = true
  | .keys _, .listing listing => listing.ended = true
  | _, _ => False

def Named (base : Table K V) (requests : List (Request K V)) (key : K) : Prop :=
  ∃ request ∈ requests, request.Names base.entries key

/-- Before any clear, some answer has told of the whole table. -/
def SeenWhole (base : Table K V) (requests : List (Request K V)) : Prop :=
  ∃ before request after, requests = before ++ request :: after ∧ .clear ∉ before ∧
    request.TellsWhole (((base.copy .clean).performAll before).perform request).1

/-- The entry under the key has come, gone or been replaced by another object. -/
def Changed (base latest : Table K V) (key : K) : Prop :=
  base.entries.identity? key ≠ latest.entries.identity? key

def Clash (base latest : Table K V) (requests : List (Request K V)) : Prop :=
  (∃ key, Named base requests key ∧ Changed base latest key) ∨
    SeenWhole base requests ∧ ∃ key, Changed base latest key

private theorem performAll_concat (requests : List (Request K V)) (request : Request K V)
    (table : Table K V) :
    table.performAll (requests ++ [request]) = ((table.performAll requests).perform request).2 := by
  rw [performAll, List.foldl_concat, performAll]

private theorem named_concat {request : Request K V} {key : K} :
    Named base (requests ++ [request]) key ↔
      Named base requests key ∨ request.Names base.entries key := by
  simp [Named, or_and_right, exists_or]

private theorem seenWhole_concat {request : Request K V} :
    SeenWhole base (requests ++ [request]) ↔
      SeenWhole base requests ∨ .clear ∉ requests ∧ request.TellsWhole
        (((base.copy .clean).performAll requests).perform request).1 := by
  constructor
  · rintro ⟨before, teller, after, split, unclear, told⟩
    rcases List.eq_nil_or_concat after with rfl | ⟨after, latest, rfl⟩
    · obtain ⟨rfl, same⟩ := List.append_inj' split rfl
      cases same
      exact .inr ⟨unclear, told⟩
    · have split : requests ++ [request] = (before ++ teller :: after) ++ [latest] := by
        simpa using split
      exact .inl ⟨before, teller, after, List.append_inj_left' split rfl, unclear, told⟩
  · rintro (⟨before, teller, after, rfl, unclear, told⟩ | ⟨unclear, told⟩)
    · exact ⟨before, teller, after ++ [request], by simp, unclear, told⟩
    · exact ⟨requests, request, [], rfl, unclear, told⟩

/-- What a request leaves in the log, by what its answer tells, what it names, and whether it is a
clear. -/
structure Logs (tells : Prop) (names : K → Prop) (clears : Prop) (table after : Table K V) :
    Prop where
  whole : after.accessedWhole = true ↔ table.accessedWhole = true ∨ table.cleared = false ∧ tells
  cleared : after.cleared = true ↔ table.cleared = true ∨ table.accessedWhole = false ∧ clears
  accessed : ∀ key ∈ after.accessed, key ∈ table.accessed ∨ names key
  accesses : ∀ key, table.Accesses key ∨ names key → after.Accesses key
  written : ∀ key, after.Writes key → table.Writes key ∨ names key

variable {tells clears : Prop} {names names' : K → Prop}

private theorem logs_self (table : Table K V) : Logs False (fun _ => False) False table table := by
  constructor <;> simp

private theorem logs_touchWhole (table : Table K V) :
    Logs True (fun _ => False) False table table.touchWhole := by
  unfold touchWhole
  split
  · next cleared => constructor <;> simp [cleared]
  · next open_ => constructor <;> simp_all [Accesses, Writes]

theorem Logs.trans (first : Logs False names False table after)
    (second : Logs False names' False after last) :
    Logs False (fun key => names key ∨ names' key) False table last where
  whole := by simpa [first.whole] using second.whole
  cleared := by simpa [first.cleared] using second.cleared
  accessed key seen := by
    rcases second.accessed key seen with old | named
    · exact (first.accessed key old).imp_right .inl
    · exact .inr (.inr named)
  accesses key := by
    rintro (old | named | named)
    · exact second.accesses key (.inl (first.accesses key (.inl old)))
    · exact second.accesses key (.inl (first.accesses key (.inr named)))
    · exact second.accesses key (.inr named)
  written key written := by
    rcases second.written key written with old | named
    · exact (first.written key old).imp_right .inl
    · exact .inr (.inr named)

private theorem Logs.write (logs : Logs tells names clears table after) {modified : Entries K V}
    {deleted : KeySet K}
    (written : ∀ key, key ∈ modified ∨ key ∈ deleted → after.Writes key ∨ names key) :
    Logs tells names clears table {after with modified, deleted} := by
  refine ⟨logs.whole, logs.cleared, logs.accessed, logs.accesses, ?_⟩
  intro key present
  exact (written key present).elim (logs.written key) .inr

theorem Logs.congr {tells' clears' : Prop} (logs : Logs tells names clears table after)
    (told : tells ↔ tells') (cleared : clears ↔ clears') :
    Logs tells' names clears' table after :=
  propext told ▸ propext cleared ▸ logs

theorem Logs.names_congr (logs : Logs tells names clears table after)
    (same : ∀ key, names key ↔ names' key) : Logs tells names' clears table after :=
  funext (fun key => propext (same key)) ▸ logs

variable [Std.LawfulEqOrd K]

theorem logs_touch (key : K) (table : Table K V) :
    Logs False (key = ·) False table (table.touch key) where
  whole := by unfold touch; split <;> simp
  cleared := by unfold touch; split <;> simp
  accessed other seen := by
    unfold touch at seen
    split at seen
    · exact .inl seen
    · simpa [or_comm] using seen
  accesses other := by
    rintro (old | rfl)
    · exact old.touch key
    · exact accesses_touch key table
  written other written := .inl ((writes_unlogged (unlogged_touch key table).symm).mp written)

theorem logs_put (key : K) (object : Object V) (table : Table K V) :
    Logs False (key = ·) False table (table.put key object).2 := by
  apply (logs_touch key table).write
  intro other written
  rcases eq_or_ne key other with same | apart
  · exact .inr same
  · exact .inl (writes_put apart written)

private theorem logs_putAll (entries : List (K × Object V)) (table : Table K V) :
    Logs False (fun key => ∃ entry ∈ entries, entry.1 = key) False table
      (table.putAll entries) := by
  induction entries generalizing table with
  | nil =>
    simp only [List.not_mem_nil, false_and, exists_false]
    exact logs_self table
  | cons entry entries ih =>
    have both := (logs_put entry.1 entry.2 table).trans (ih (table.put entry.1 entry.2).2)
    simp only [List.mem_cons, exists_eq_or_imp]
    exact both

theorem logs_remove (key : K) (table : Table K V) :
    Logs False (key = ·) False table (table.remove key).2 := by
  apply (logs_touch key table).write
  intro other written
  rcases eq_or_ne key other with same | apart
  · exact .inr same
  · exact .inl (writes_remove apart written)

private theorem logs_touchCommitted (table : Table K V) :
    Logs False (· ∈ table.source.content) True table table.touchCommitted := by
  unfold touchCommitted
  split
  · next whole =>
    refine ⟨?_, ?_, fun key => .inl, fun key _ => .inl whole, fun key => .inl⟩
    · simp
    · simp [whole]
  · next partly =>
    rw [Bool.not_eq_true] at partly
    refine ⟨?_, ?_, ?_, ?_, fun key => .inl⟩
    · simp
    · simp [partly]
    · intro key seen
      exact (Std.ExtTreeSet.mem_union_iff.mp seen).imp_right (Entries.mem_keySet _ key).mp
    · rintro key ((whole | seen) | committed)
      · exact .inl whole
      · exact .inr (Std.ExtTreeSet.mem_union_of_left seen)
      · exact .inr (Std.ExtTreeSet.mem_union_of_right ((Entries.mem_keySet _ key).mpr committed))

theorem logs_clear (table : Table K V) :
    Logs False (· ∈ table.source.content) True table table.clear := by
  apply (logs_touchCommitted table).write
  injection unlogged_touchCommitted table with source
  rintro key (absent | gone)
  · exact absurd absent Std.ExtTreeMap.not_mem_empty
  rcases Std.ExtTreeSet.mem_union_iff.mp gone with old | committed
  · exact .inl (.inr old)
  · rw [Entries.mem_keySet, source] at committed
    exact .inr committed

theorem logs_perform (request : Request K V) (table : Table K V) :
    Logs (request.TellsWhole (table.perform request).1)
      (request.Names table.source.content ·) (request = .clear) table
      (table.perform request).2 := by
  cases request with
  | get key => exact (logs_touch key table).congr .rfl (by simp)
  | contains key => exact (logs_touch key table).congr .rfl (by simp)
  | put key object => exact (logs_put key object table).congr .rfl (by simp)
  | putAll entries => exact (logs_putAll entries table).congr .rfl (by simp)
  | remove key => exact (logs_remove key table).congr .rfl (by simp)
  | clear => exact (logs_clear table).congr .rfl (iff_of_true trivial rfl)
  | size => exact (logs_touchWhole table).congr .rfl (by simp)
  | isEmpty =>
    show Logs (table.isEmpty.1 = true) (fun _ => False) _ table table.isEmpty.2
    unfold isEmpty
    split
    · exact (logs_touchWhole table).congr (iff_of_true trivial rfl) (by simp)
    · exact (logs_self table).congr (by simp) (by simp)
  | keys limit =>
    show Logs ((table.keys limit).1.ended = true) (fun _ => False) _ table (table.keys limit).2
    unfold keys
    cases limit with
    | none => exact (logs_touchWhole table).congr (iff_of_true trivial rfl) (by simp)
    | some limit =>
      dsimp only
      split
      · exact (logs_touchWhole table).congr (iff_of_true trivial rfl) (by simp)
      · exact (logs_self table).congr (by simp) (by simp)

/-- The log of a copy that has answered the requests. -/
structure Traced (base : Table K V) (requests : List (Request K V)) (table : Table K V) : Prop where
  source : table.source = base.source
  whole : table.accessedWhole = true ↔ SeenWhole base requests
  cleared : table.cleared = true → .clear ∈ requests
  clear : .clear ∈ requests → table.cleared = true ∨ table.accessedWhole = true
  accessed : ∀ key ∈ table.accessed, Named base requests key
  accesses : ∀ key, Named base requests key → table.Accesses key
  written : ∀ key, table.Writes key → Named base requests key

theorem entries_of_settled (settled : table.hasLog = false) :
    table.entries = table.source.content := by
  simp only [hasLog, Bool.or_eq_false_iff, Bool.not_eq_false', Std.ExtTreeSet.isEmpty_iff,
    Std.ExtTreeMap.isEmpty_iff] at settled
  rw [entries, settled.1.1.1, settled.1.1.2]
  exact entries_ofObject table.source

omit [Std.LawfulEqOrd K] in
private theorem traced_clean (base : Table K V) : Traced base [] (base.copy .clean) := by
  constructor <;> simp [copy, ofObject, SeenWhole, Named, Writes]

theorem Traced.perform (settled : base.hasLog = false)
    (traced : Traced base requests ((base.copy .clean).performAll requests))
    (request : Request K V) :
    Traced base (requests ++ [request])
      (((base.copy .clean).performAll requests).perform request).2 := by
  have step := logs_perform request ((base.copy .clean).performAll requests)
  rw [traced.source, ← entries_of_settled settled] at step
  refine ⟨(source_perform _ request).trans traced.source, ?_, ?_, ?_, ?_, ?_, ?_⟩
  · rw [step.whole, seenWhole_concat, traced.whole]
    -- A clear that left the copy open came too late: everything had been seen before.
    constructor
    · rintro (seen | ⟨open_, told⟩)
      · exact .inl seen
      by_cases cleared : .clear ∈ requests
      · rcases traced.clear cleared with closed | whole
        · simp [closed] at open_
        · exact .inl (traced.whole.mp whole)
      · exact .inr ⟨cleared, told⟩
    · rintro (seen | ⟨unclear, told⟩)
      · exact .inl seen
      · exact .inr ⟨Bool.eq_false_iff.mpr (mt traced.cleared unclear), told⟩
  · rw [step.cleared, List.mem_append, List.mem_singleton]
    exact Or.imp traced.cleared fun both => both.2.symm
  · rw [step.cleared, step.whole, List.mem_append, List.mem_singleton]
    rintro (cleared | rfl)
    · exact (traced.clear cleared).imp .inl .inl
    · by_cases whole : ((base.copy .clean).performAll requests).accessedWhole = true
      · exact .inr (.inl whole)
      · exact .inl (.inr ⟨Bool.eq_false_iff.mpr whole, rfl⟩)
  · intro key seen
    rw [named_concat]
    exact (step.accessed key seen).imp_left (traced.accessed key)
  · intro key named
    rw [named_concat] at named
    exact step.accesses key (named.imp_left (traced.accesses key))
  · intro key written
    rw [named_concat]
    exact (step.written key written).imp_left (traced.written key)

theorem traced_run (settled : base.hasLog = false) (requests : List (Request K V)) :
    Traced base requests ((base.copy .clean).performAll requests) := by
  induction requests using List.reverseRecOn with
  | nil => exact traced_clean base
  | append_singleton requests request ih =>
    rw [performAll_concat]
    exact ih.perform settled request

omit [Std.LawfulEqOrd K] in
theorem commit_total (settled : latest.hasLog = false) (fresh : Identity) (table : Table K V) :
    (∃ cause, table.commit fresh latest = .error (.conflict cause)) ∨
      ∃ next, table.commit fresh latest = .ok next := by
  unfold commit
  rw [settled, if_neg Bool.false_ne_true]
  split
  · exact .inl ⟨_, rfl⟩
  split
  · exact .inl ⟨_, rfl⟩
  split
  · exact .inr ⟨_, rfl⟩
  · exact .inr ⟨_, rfl⟩

private theorem changed_iff (committed : base.hasLog = false) (settled : latest.hasLog = false)
    {key : K} :
    Changed base latest key ↔
      base.source.content.identity? key ≠ latest.source.content.identity? key := by
  rw [Changed, entries_of_settled committed, entries_of_settled settled]

private theorem Traced.accepted (traced : Traced base requests table)
    (committed : base.hasLog = false) (settled : latest.hasLog = false) (fresh : Identity)
    (calm : ¬Clash base latest requests) :
    table.commit fresh latest = .ok (table.advanced fresh latest) := by
  apply commit_accepted settled
  · intro whole
    right
    rw [sameEntries_iff, traced.source]
    intro key
    by_contra changed
    exact calm (.inr ⟨traced.whole.mp whole, key, (changed_iff committed settled).mpr changed⟩)
  · intro key seen
    rw [traced.source]
    by_contra changed
    exact calm
      (.inl ⟨key, traced.accessed key seen, (changed_iff committed settled).mpr changed⟩)

private theorem Traced.calm (traced : Traced base requests table) (committed : base.hasLog = false)
    (later : base.Later latest) {fresh : Identity} {next : Table K V}
    (accepted : table.commit fresh latest = .ok next) : ¬Clash base latest requests := by
  obtain ⟨settled, whole, entries, _⟩ := commit_ok accepted
  rw [traced.source] at whole entries
  have same (seen : table.accessedWhole = true) (key : K) : ¬Changed base latest key := by
    rw [changed_iff committed settled, not_not]
    rcases whole seen with named | same
    · rw [later.same named]
    · exact (sameEntries_iff _ _).mp same key
  rintro (⟨key, named, changed⟩ | ⟨seen, key, changed⟩)
  · rcases traced.accesses key named with whole | seen
    · exact same whole key changed
    · exact (changed_iff committed settled).mp changed (entries key seen)
  · exact same (traced.whole.mpr seen) key changed

theorem lookup_advanced (fresh : Identity) (table latest : Table K V) (key : K) :
    (table.advanced fresh latest).lookup key = {table with source := latest.source}.lookup key := by
  rw [← getElem?_entries, (untouched_advanced fresh table latest).entries, content_advanced]

/-- A commit is refused exactly if something that the requests have named or told of has changed.
Otherwise the next table has what the copy shows under every key that they have named, and what the
latest one has under the others. An identity stands for one object throughout. -/
theorem commits_unless_clash (committed : base.hasLog = false) (settled : latest.hasLog = false)
    (later : base.Later latest) (requests : List (Request K V)) (fresh : Identity) :
    let table := (base.copy .clean).performAll requests
    ((∃ cause, table.commit fresh latest = .error (.conflict cause)) ↔
        Clash base latest requests) ∧
      (¬Clash base latest requests → ∃ next, table.commit fresh latest = .ok next ∧
        ∀ key, (Named base requests key → next.lookup key = table.lookup key) ∧
          (¬Named base requests key → next.lookup key = latest.lookup key)) := by
  intro table
  have traced : Traced base requests table := traced_run committed requests
  refine ⟨⟨?_, ?_⟩, ?_⟩
  · rintro ⟨cause, refused⟩
    by_contra calm
    rw [traced.accepted committed settled fresh calm] at refused
    cases refused
  · intro clash
    refine (commit_total settled fresh table).resolve_right ?_
    rintro ⟨next, accepted⟩
    exact traced.calm committed later accepted clash
  · intro calm
    refine ⟨_, traced.accepted committed settled fresh calm, fun key => ⟨?_, ?_⟩⟩
    · intro named
      have same : latest.source.content[key]? = table.source.content[key]? := by
        rw [traced.source]
        symm
        apply later.entry_eq
        by_contra changed
        exact calm (.inl ⟨key, named, (changed_iff committed settled).mpr changed⟩)
      rw [lookup_advanced, lookup, lookup, same]
    · intro unnamed
      have unwritten := mt (traced.written key) unnamed
      rw [← getElem?_entries, ← getElem?_entries, (untouched_advanced fresh table latest).entries,
        advanced_unwritten unwritten, entries_of_settled settled]

def stock : Table Nat Nat :=
  ofObject ⟨⟨0, []⟩, (∅ : Entries Nat Nat).insert 1 ⟨⟨1, []⟩, 10⟩⟩

def restocked : Table Nat Nat :=
  ofObject ⟨⟨2, []⟩, stock.source.content.insert 3 ⟨⟨3, []⟩, 30⟩⟩

private theorem later_restocked : stock.Later restocked := by
  refine ⟨fun same => absurd same (by decide), ?_⟩
  intro key one another found found' _
  simp only [restocked, stock, ofObject, Std.ExtTreeMap.getElem?_insert] at found found'
  grind

/-- Whoever counts after the clear has not noticed that something was added meanwhile. -/
theorem commits_unless_clash_restocked :
    let requests := [.get 1, .clear, .size, .put 4 ⟨⟨4, []⟩, 40⟩]
    let table := (stock.copy .clean).performAll requests
    ((table.commit ⟨5, []⟩ restocked).toOption.map fun next => next.visibleKeys) = some [3, 4] ∧
      ((∃ cause, table.commit ⟨5, []⟩ restocked = .error (.conflict cause)) ↔
        Clash stock restocked requests) ∧
      (¬Clash stock restocked requests → ∃ next, table.commit ⟨5, []⟩ restocked = .ok next ∧
        ∀ key, (Named stock requests key → next.lookup key = table.lookup key) ∧
          (¬Named stock requests key → next.lookup key = restocked.lookup key)) :=
  ⟨by decide +kernel, commits_unless_clash rfl rfl later_restocked _ ⟨5, []⟩⟩

end TransactionalMemory.Table
