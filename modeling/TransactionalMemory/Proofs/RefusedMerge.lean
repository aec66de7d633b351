import TransactionalMemory.Memory
import TransactionalMemory.Proofs.NestedCallbacks
import TransactionalMemory.Proofs.ScopeReach

/-! Merges that are refused. A merge goes from slot to slot and stops at the first refusal, without
taking back what it has merged until then. A nested transaction that asks for a commit and is
refused is not taken off the tree either, so the callbacks of those inside of it stay there. -/
namespace TransactionalMemory
namespace Entity

mutual

/-- What a merge that is refused with this failure leaves of its target. -/
inductive Partly (mode : MergeMode) (failure : Failure) :
    (branch target after : Entity) → Prop where
  | outright {branch target : Entity} {others : List (Slot Entity)} {seed : Identity}
      (refused : branch.merge others seed mode target = (some failure, target)) :
      Partly mode failure branch target target
  | bundle (own rule : SlotRule) {branch slots after : List (Slot Entity)}
      (partly : PartlySlots mode failure rule branch slots after) :
      Partly mode failure (.bundle branch own) (.bundle slots rule) (.bundle after rule)
  | data {branch target : Snapshot Entity} {data : Entity}
      (partly : Partly mode failure branch.data target.data data) :
      Partly mode failure (.snapshot branch) (.snapshot target) (.snapshot {target with data})
  | globals {branch target : Snapshot Entity} {data : Entity} {others : List (Slot Entity)}
      {seed : Identity} (merged : branch.data.merge others seed mode target.data = (none, data))
      (refused : branch.globals.merge mode target.globals = .error failure) :
      Partly mode failure (.snapshot branch) (.snapshot target) (.snapshot {target with data})

/-- The slots before the refused one are merged, and the ones behind it are as they were. -/
inductive PartlySlots (mode : MergeMode) (failure : Failure) :
    (rule : SlotRule) → (branch slots after : List (Slot Entity)) → Prop where
  | refused {rule : SlotRule} {identity seed : Identity} {content merged : Entity}
      {slot : Slot Entity} {others : List (Slot Entity)} (branch slots : List (Slot Entity))
      (partly : Partly mode failure content (slot.reach others seed rule).content merged) :
      PartlySlots mode failure rule (⟨identity, true, content⟩ :: branch) (slot :: slots)
        ({slot.reach others seed rule with content := merged} :: slots)
  | merged {rule : SlotRule} {identity seed : Identity} {content merged : Entity}
      {slot : Slot Entity} {others others' branch slots after : List (Slot Entity)}
      (accepted : content.merge others' seed mode (slot.reach others seed rule).content =
        (none, merged))
      (partly : PartlySlots mode failure rule branch slots after) :
      PartlySlots mode failure rule (⟨identity, true, content⟩ :: branch) (slot :: slots)
        ({slot.reach others seed rule with content := merged} :: after)
  | passed {rule : SlotRule} {identity : Identity} {content : Entity} (slot : Slot Entity)
      {branch slots after : List (Slot Entity)}
      (partly : PartlySlots mode failure rule branch slots after) :
      PartlySlots mode failure rule (⟨identity, false, content⟩ :: branch) (slot :: slots)
        (slot :: after)

end

private theorem settle_refused {α : Type} {wrap : α → Entity} {before : α}
    {result : Except Failure α} {failure : Failure} {after : Entity}
    (refused : settle wrap before result = (some failure, after)) : after = wrap before := by
  cases result with
  | ok merged => cases refused
  | error failure => exact (Prod.mk.inj refused).2.symm

private theorem partlySlots_of_refused {mode : MergeMode} {failure : Failure} {rule : SlotRule}
    {branch slots after others : List (Slot Entity)} {seed : Identity} {index : Nat}
    (inside : ∀ slot ∈ branch, ∀ others seed target merged,
      slot.content.merge others seed mode target = (some failure, merged) →
        Partly mode failure slot.content target merged)
    (refused : mergeSlots others seed mode rule index branch slots = (some failure, after)) :
    PartlySlots mode failure rule branch slots after := by
  induction branch generalizing others index slots after with
  | nil => exact absurd refused (by simp [mergeSlots])
  | cons branchSlot branch ih =>
    obtain ⟨identity, accessed, content⟩ := branchSlot
    have rest := fun slots others index after =>
      @ih slots after others index fun slot member => inside slot (List.mem_cons_of_mem _ member)
    cases slots with
    | nil => exact absurd refused (by cases accessed <;> simp [mergeSlots])
    | cons slot slots =>
      cases accessed with
      | true =>
        simp only [mergeSlots] at refused
        split at refused
        · next stopped merged went =>
          obtain ⟨same, rfl⟩ := Prod.mk.inj refused
          obtain rfl : stopped = failure := Option.some.inj same
          exact .refused branch slots (inside _ List.mem_cons_self _ _ _ _ went)
        · next merged went =>
          obtain ⟨later, rfl⟩ := Prod.mk.inj refused
          exact .merged went (rest _ _ _ _ (Prod.ext later rfl))
      | false =>
        simp only [mergeSlots] at refused
        obtain ⟨later, rfl⟩ := Prod.mk.inj refused
        exact .passed slot (rest _ _ _ _ (Prod.ext later rfl))

/-- A branch without parts is merged as a whole or not at all. -/
theorem unchanged_of_refused {mode : MergeMode} {failure : Failure} {branch target after : Entity}
    {others : List (Slot Entity)} {seed : Identity} (single : branch.kind ≠ .bundle)
    (single' : branch.kind ≠ .snapshot)
    (refused : branch.merge others seed mode target = (some failure, after)) : after = target := by
  cases branch with
  | bundle slots rule => exact absurd rfl single
  | snapshot inner => exact absurd rfl single'
  | cell inner =>
    cases target with
    | cell target => exact settle_refused refused
    | _ => exact (Prod.mk.inj refused).2.symm
  | table inner =>
    cases target with
    | table target => exact settle_refused refused
    | _ => exact (Prod.mk.inj refused).2.symm
  | multimap inner =>
    cases target with
    | multimap target => exact settle_refused refused
    | _ => exact (Prod.mk.inj refused).2.symm
  | queue inner =>
    cases target with
    | queue target => exact settle_refused refused
    | _ => exact (Prod.mk.inj refused).2.symm

private theorem partly_of_refused {mode : MergeMode} {failure : Failure}
    {branch target after : Entity} {others : List (Slot Entity)} {seed : Identity}
    (refused : branch.merge others seed mode target = (some failure, after)) :
    Partly mode failure branch target after := by
  induction branch using induct generalizing target after others seed with
  | bundle branch own ih =>
    cases target with
    | bundle slots rule =>
      have went := refused
      rw [merge] at went
      split at went
      · obtain ⟨stopped, rfl⟩ := Prod.mk.inj went
        refine .bundle own rule (partlySlots_of_refused ?_ (Prod.ext stopped rfl))
        intro slot member others seed target merged inside
        exact ih slot member inside
      · obtain rfl := (Prod.mk.inj went).2
        exact .outright refused
    | _ =>
      obtain rfl := (Prod.mk.inj refused).2
      exact .outright refused
  | snapshot inner ih =>
    cases target with
    | snapshot target =>
      have went := refused
      rw [merge_snapshot, Snapshot.merge] at went
      split at went
      · split at went
        · next stopped data inside =>
          obtain ⟨same, rfl⟩ := Prod.mk.inj went
          obtain rfl : stopped = failure := Option.some.inj same
          exact .data (ih inside)
        · next data inside =>
          split at went
          · next stopped told =>
            obtain ⟨same, rfl⟩ := Prod.mk.inj went
            obtain rfl : stopped = failure := Option.some.inj same
            exact .globals inside told
          · cases went
      · obtain rfl := (Prod.mk.inj went).2
        exact .outright refused
    | _ =>
      obtain rfl := (Prod.mk.inj refused).2
      exact .outright refused
  | _ =>
    obtain rfl := unchanged_of_refused (by simp [kind]) (by simp [kind]) refused
    exact .outright refused

/-- The refused slot has its place: all slots behind it are as they were. -/
theorem PartlySlots.split {mode : MergeMode} {failure : Failure} {rule : SlotRule}
    {branch slots after : List (Slot Entity)}
    (partly : PartlySlots mode failure rule branch slots after) :
    ∃ before before' slot slot' later, slots = before ++ slot :: later ∧
      after = before' ++ slot' :: later ∧ before.length = before'.length := by
  induction branch generalizing slots after with
  | nil => cases partly
  | cons branchSlot branch ih =>
    cases partly with
    | refused branch slots partly => exact ⟨[], [], _, _, slots, rfl, rfl, rfl⟩
    | merged accepted partly =>
      obtain ⟨before, before', slot, slot', later, rfl, rfl, same⟩ := ih partly
      exact ⟨_ :: before, _ :: before', slot, slot', later, rfl, rfl, congrArg (· + 1) same⟩
    | passed first partly =>
      obtain ⟨before, before', slot, slot', later, rfl, rfl, same⟩ := ih partly
      exact ⟨_ :: before, _ :: before', slot, slot', later, rfl, rfl, congrArg (· + 1) same⟩

private theorem breach_of_cell {α : Type} {mode : MergeMode} {failure : Failure}
    {branch cell : Cell α} (refused : branch.merge mode cell = .error failure) :
    ∃ cause, failure = .breach cause := by
  unfold Cell.merge at refused
  split at refused
  · cases mode <;> cases refused
  · cases refused
    exact ⟨_, rfl⟩

private theorem breach_of_table {K V : Type} [Ord K] [Std.TransOrd K] {mode : MergeMode}
    {failure : Failure} {branch table : Table K V}
    (refused : branch.merge mode table = .error failure) : ∃ cause, failure = .breach cause := by
  unfold Table.merge at refused
  split at refused
  · cases mode <;> cases refused
  · cases refused
    exact ⟨_, rfl⟩

private theorem breach_of_multimap {K V : Type} [Ord K] [Ord V] [Std.TransOrd K] [Std.TransOrd V]
    {mode : MergeMode} {failure : Failure} {branch multimap : Multimap K V}
    (refused : branch.merge mode multimap = .error failure) : ∃ cause, failure = .breach cause := by
  unfold Multimap.merge at refused
  cases merged : branch.table.merge mode multimap.table with
  | ok table =>
    rw [merged] at refused
    cases refused
  | error stopped =>
    rw [merged] at refused
    cases refused
    exact breach_of_table merged

private theorem breach_of_queue {α : Type} {mode : MergeMode} {failure : Failure}
    {branch queue : Queue α} (refused : branch.merge mode queue = .error failure) :
    ∃ cause, failure = .breach cause := by
  unfold Queue.merge at refused
  split at refused
  · cases mode <;> cases refused
  · cases refused
    exact ⟨_, rfl⟩

private theorem error_of_settle {α : Type} {wrap : α → Entity} {before : α}
    {result : Except Failure α} {failure : Failure}
    (refused : (settle wrap before result).1 = some failure) : result = .error failure := by
  cases result with
  | ok merged => cases refused
  | error stopped => exact congrArg Except.error (Option.some.inj refused)

private theorem breach_of_slots {mode : MergeMode} {failure : Failure} {rule : SlotRule}
    {branch slots others : List (Slot Entity)} {seed : Identity} {index : Nat}
    (inside : ∀ slot ∈ branch, ∀ others seed target,
      (slot.content.merge others seed mode target).1 = some failure →
        ∃ cause, failure = .breach cause)
    (refused : (mergeSlots others seed mode rule index branch slots).1 = some failure) :
    ∃ cause, failure = .breach cause := by
  induction branch generalizing others index slots with
  | nil => exact absurd refused (by simp [mergeSlots])
  | cons branchSlot branch ih =>
    obtain ⟨identity, accessed, content⟩ := branchSlot
    obtain ⟨first, later⟩ := List.forall_mem_cons.mp inside
    cases slots with
    | nil => exact absurd refused (by cases accessed <;> simp [mergeSlots])
    | cons slot slots =>
      cases accessed with
      | true =>
        simp only [mergeSlots] at refused
        split at refused
        · next stopped merged went => exact first _ _ _ ((congrArg Prod.fst went).trans refused)
        · exact ih later refused
      | false =>
        simp only [mergeSlots] at refused
        exact ih later refused

theorem breach_of_refused {mode : MergeMode} {failure : Failure} {branch target : Entity}
    {others : List (Slot Entity)} {seed : Identity}
    (refused : (branch.merge others seed mode target).1 = some failure) :
    ∃ cause, failure = .breach cause := by
  have unlike (cause : Breach) (same : some (Failure.breach cause) = some failure) :
      ∃ cause, failure = .breach cause := ⟨cause, (Option.some.inj same).symm⟩
  induction branch using induct generalizing target others seed with
  | cell inner =>
    cases target with
    | cell target => exact breach_of_cell (error_of_settle refused)
    | _ => exact unlike _ refused
  | table inner =>
    cases target with
    | table target => exact breach_of_table (error_of_settle refused)
    | _ => exact unlike _ refused
  | multimap inner =>
    cases target with
    | multimap target => exact breach_of_multimap (error_of_settle refused)
    | _ => exact unlike _ refused
  | queue inner =>
    cases target with
    | queue target => exact breach_of_queue (error_of_settle refused)
    | _ => exact unlike _ refused
  | bundle branch own ih =>
    cases target with
    | bundle slots rule =>
      rw [merge] at refused
      split at refused
      · exact breach_of_slots (fun slot member _ _ _ => ih slot member) refused
      · exact unlike _ refused
    | _ => exact unlike _ refused
  | snapshot inner ih =>
    cases target with
    | snapshot target =>
      rw [merge_snapshot, Snapshot.merge] at refused
      split at refused
      · split at refused
        · next stopped data inside => exact ih ((congrArg Prod.fst inside).trans refused)
        · split at refused
          · next stopped told =>
            obtain rfl : stopped = failure := Option.some.inj refused
            exact breach_of_table told
          · cases refused
      · exact unlike _ refused
    | _ => exact unlike _ refused

end Entity

/-- The snapshot is the same but for its data. -/
theorem Entity.Partly.snapshot {mode : MergeMode} {failure : Failure}
    {branch target after : Snapshot Entity}
    (partly : Partly mode failure (.snapshot branch) (.snapshot target) (.snapshot after)) :
    after.timestamp = target.timestamp ∧ after.globals = target.globals := by
  cases partly <;> exact ⟨rfl, rfl⟩

namespace Scope
variable {C : Type}

/-- What a nested transaction leaves that has worked on this branch, has heard of these callbacks,
asked for a commit and was refused. Its own callback is not among those to run. -/
structure Refused (failure : Failure) (branch : Snapshot Entity) (heard : List C)
    (scope after : Scope C) : Prop where
  depth : after.depth = scope.depth
  stack : after.stack.tail = scope.stack.tail
  timestamp : after.top.timestamp = scope.top.timestamp
  globals : after.top.globals = scope.top.globals
  data : Entity.Partly .everything failure (.snapshot branch) (.snapshot scope.top)
    (.snapshot after.top)
  grows : Nesting.Grows scope.current scope.nesting after.nesting heard
  callbacks : ∀ {base before last more} own, Worked (.start base) scope before →
    Worked after last more → callbacks own last.nesting = before ++ heard ++ more ++ [own]

private theorem merge_refused {branch target after : Snapshot Entity} {others : List (Slot Entity)}
    {seed : Identity} {mode : MergeMode} {failure : Failure}
    (refused : branch.merge others seed mode target = (some failure, after)) :
    Entity.Partly mode failure (.snapshot branch) (.snapshot target) (.snapshot after) := by
  have wrapped : (Entity.snapshot branch).merge others seed mode (.snapshot target) =
      (some failure, .snapshot after) := by
    rw [Entity.merge_snapshot, refused]
    rfl
  exact Entity.partly_of_refused wrapped

/-- A nested transaction whose merge is refused ends with the refusal. -/
theorem refused_in_part {scope inside : Scope C} {heard : List C} {enter leave : Identity}
    (bound : scope.current < scope.nesting.nodes.size)
    (worked : Worked (scope.enter enter) inside heard) (others : List (Slot Entity)) (callback : C)
    {failure : Failure}
    (refused : (inside.top.merge (scope.buried ++ others) leave .everything scope.top).1 =
      some failure) :
    let left := inside.leave others leave callback scope.current (.ok true)
    left.1 = .error failure ∧ Refused failure inside.top heard scope left.2 := by
  intro left
  rcases went : inside.top.merge (scope.buried ++ others) leave .everything scope.top with
    ⟨refusal, top⟩
  rw [went] at refused
  obtain rfl : refusal = some failure := refused
  have gone : left = (.error failure, scope.adjusted top inside.nesting) := by
    have shape := leave_entered scope enter leave inside.top inside.nesting others callback
      (.ok true)
    rw [← worked.eq_adjusted, Ending.mode] at shape
    simp only [went, Ending.merged, Nesting.close] at shape
    exact shape
  have partly := merge_refused went
  obtain ⟨timestamp, globals⟩ := partly.snapshot
  have nested : Worked scope (scope.adjusted top inside.nesting) heard :=
    (Worked.rest scope).nest worked gone
  rw [gone]
  refine ⟨rfl, ?_⟩
  constructor
  case depth => exact depth_withTop top scope
  case stack => rw [stack_adjusted, List.tail_cons]
  case timestamp => rw [top_adjusted, timestamp]
  case globals => rw [top_adjusted, globals]
  case data => rwa [top_adjusted]
  case grows => exact nested.grows bound
  case callbacks =>
    intro base before last more own first later
    exact callbacks_of_worked ((first.trans nested).trans later) own

/-- Two cells, with an object of its own in each. -/
def tray : Entity := .bundle
  [⟨⟨0, [0]⟩, false, .cell (.ofObject ⟨⟨0, [1]⟩, .number 0⟩)⟩,
    ⟨⟨0, [2]⟩, false, .cell (.ofObject ⟨⟨0, [3]⟩, .number 0⟩)⟩] .take

/-- What a body has made of another tray, whose first cell starts from the same object. -/
def otherTray : Entity := .bundle
  [⟨⟨1, [0]⟩, true, .cell ⟨⟨⟨0, [1]⟩, .number 0⟩, ⟨⟨1, [1]⟩, .number 1⟩, true, true⟩⟩,
    ⟨⟨1, [2]⟩, true, .cell ⟨⟨⟨1, [3]⟩, .number 0⟩, ⟨⟨1, [3]⟩, .number 0⟩, true, false⟩⟩] .take

def trayScope : Scope String :=
  .start ((Memory.create ⟨2, []⟩ .standard tray).committed.copy ⟨3, []⟩ .clean)

/-- A nested transaction that has run another one and then put the other tray in its place. -/
def swapping : Scope String :=
  let opened := trayScope.enter ⟨4, []⟩
  let within := ((opened.enter ⟨5, []⟩).leave [] ⟨6, []⟩ "within" opened.current (.ok true)).2
  within.withTop {within.top with data := otherTray}

theorem refused_in_part_swapping :
    let left := swapping.leave [] ⟨7, []⟩ "refused" trayScope.current (.ok true)
    left.1 = .error (.breach .foreignCell) ∧
      Refused (.breach .foreignCell) swapping.top ["within"] trayScope left.2 := by
  have bound : trayScope.current < trayScope.nesting.nodes.size := by decide
  have within : Worked (trayScope.enter ⟨4, []⟩) _ ["within"] :=
    (Worked.rest _).nest (Worked.rest _)
      (rfl : ((trayScope.enter ⟨4, []⟩).enter ⟨5, []⟩).leave [] ⟨6, []⟩ "within"
        (trayScope.enter ⟨4, []⟩).current (.ok true) = (.ok true, _))
  have worked : Worked (trayScope.enter ⟨4, []⟩) swapping ["within"] := within.change _
  exact refused_in_part bound worked [] "refused" rfl

def firstCell : Question :=
  ⟨[.data, .slot 0 none], .request (.cell .deref)⟩

theorem refusal_not_atomic :
    let left := swapping.leave [] ⟨7, []⟩ "refused" trayScope.current (.ok true)
    left.1 = .error (.breach .foreignCell) ∧
      (trayScope.ask [] ⟨8, []⟩ firstCell).1 =
        some (.ok (.reply (.object ⟨⟨0, [1]⟩, .number 0⟩))) ∧
      (left.2.ask [] ⟨8, []⟩ firstCell).1 =
        some (.ok (.reply (.object ⟨⟨1, [1]⟩, .number 1⟩))) ∧
      callbacks "outer" left.2.nesting = ["within", "outer"] := by
  intro left
  refine ⟨rfl, rfl, rfl, ?_⟩
  rfl

end Scope
end TransactionalMemory
