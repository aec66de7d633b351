import Mathlib.Data.List.Induction
import TransactionalMemory.GlobalHandle
import TransactionalMemory.Proofs.Errands
import TransactionalMemory.TableView

/-! Values that are hosted in the table of globals, as their handles show them. A handle reads what
was stored last under its number and keeps to that number. One that is used outside of its memory
changes nothing. A value of another kind is only noticed after the new one is stored. -/
namespace TransactionalMemory

namespace Context

/-- What stands under a number, without a trace in the log. -/
def hosted (context : Context) (id : Nat) : Option (Object Value) :=
  context.top.globals.lookup id

def owner : Context → Option Nat
  | .scope owner _ => some owner
  | .snapshot _ => none

@[simp] theorem top_withTop (top : Snapshot Entity) (context : Context) :
    (context.withTop top).top = top := by
  cases context <;> rfl

/-- All that a memory looks at before it lets client code work on a context. -/
def stamp (context : Context) : Option Nat × Nat :=
  (context.owner, context.top.timestamp)

@[simp] theorem stamp_withGlobals (globals : Table Nat Value) (context : Context) :
    (context.withTop {context.top with globals}).stamp = context.stamp := by
  cases context <;> rfl

end Context

/-- When a handle is used: how the memories stand, and the thread that uses it. -/
structure Moment where
  memories : Nat → Memory
  thread : Nat

namespace Moment
variable {moment : Moment} {memory : Nat} {context other : Context} {failure : Failure}

def phase (moment : Moment) (memory : Nat) : Option Phase :=
  (moment.memories memory).phases[moment.thread]?

/-- Why a memory does not let client code work on the context that it shows. -/
inductive Bars (moment : Moment) (memory : Nat) (context : Context) : Failure → Prop where
  | idle (outside : moment.phase memory = none) :
      Bars moment memory context (.noTransaction .outsideTransaction)
  | scope {owner : Nat} (busy : moment.phase memory ≠ none)
      (owned : context.owner = some owner) (foreign : owner ≠ memory) :
      Bars moment memory context (.breach .foreignScope)
  | commit {timestamp : Nat} (busy : moment.phase memory = some (.reporting timestamp))
      (own : ∀ owner, context.owner = some owner → owner = memory)
      (late : context.top.timestamp ≠ timestamp) :
      Bars moment memory context (.breach .foreignCommit)

def Admits (moment : Moment) (memory : Nat) (context : Context) : Prop :=
  ∀ failure, ¬moment.Bars memory context failure

theorem Bars.congr (bars : moment.Bars memory context failure)
    (same : other.stamp = context.stamp) : moment.Bars memory other failure := by
  obtain ⟨owners, timestamps⟩ := Prod.mk.inj same
  cases bars with
  | idle outside => exact .idle outside
  | scope busy owned foreign => exact .scope busy (owners.trans owned) foreign
  | commit busy own late =>
    exact .commit busy (fun owner owned => own owner (owners.symm.trans owned))
      (timestamps ▸ late)

theorem Admits.congr (admits : moment.Admits memory context)
    (same : other.stamp = context.stamp) : moment.Admits memory other :=
  fun failure bars => admits failure (bars.congr same.symm)

private theorem belongsTo_iff : context.belongsTo memory = true ↔
    ∀ owner, context.owner = some owner → owner = memory := by
  cases context <;> simp [Context.belongsTo, Context.owner]

private theorem resolve_of_bars (bars : moment.Bars memory context failure) :
    (moment.memories memory).resolve memory moment.thread context = .error failure := by
  unfold Memory.resolve
  cases bars with
  | idle outside => rw [show (moment.memories memory).phases[moment.thread]? = none from outside]
  | scope busy owned foreign =>
    have apart : context.belongsTo memory = false := by
      rw [Bool.eq_false_iff, Ne, belongsTo_iff]
      exact fun own => foreign (own _ owned)
    cases standing : (moment.memories memory).phases[moment.thread]? with
    | none => exact absurd standing busy
    | some phase => simp [apart]
  | commit busy own late =>
    rw [show (moment.memories memory).phases[moment.thread]? = _ from busy]
    simp [belongsTo_iff.mpr own, late]

private theorem resolve_of_admits (admits : moment.Admits memory context) :
    (moment.memories memory).resolve memory moment.thread context = .ok context.top := by
  unfold Memory.resolve
  cases standing : (moment.memories memory).phases[moment.thread]? with
  | none => exact absurd (.idle standing) (admits _)
  | some phase =>
    have busy : moment.phase memory ≠ none := by simp [Moment.phase, standing]
    have own owner (owned : context.owner = some owner) : owner = memory := by
      by_contra foreign
      exact admits _ (.scope busy owned foreign)
    simp only [belongsTo_iff.mpr own, Bool.not_true, Bool.false_eq_true, if_false]
    cases phase with
    | running => rfl
    | reporting timestamp =>
      have same : context.top.timestamp = timestamp := by
        by_contra late
        exact admits _ (.commit standing own late)
      simp [same]

private theorem admits_iff : moment.Admits memory context ↔
    ((moment.memories memory).resolve memory moment.thread context).isOk = true := by
  constructor
  · intro admits
    rw [resolve_of_admits admits]
    rfl
  · intro resolved failure bars
    rw [resolve_of_bars bars] at resolved
    cases resolved

instance (moment : Moment) (memory : Nat) (context : Context) :
    Decidable (moment.Admits memory context) :=
  decidable_of_iff _ admits_iff.symm

def get (moment : Moment) (handle : GlobalHandle) (context : Context) :
    Except Failure (Option Value) × Context :=
  (moment.memories handle.memory).within handle.memory moment.thread context handle.get

def set (moment : Moment) (handle : GlobalHandle) (object : Object Value) (context : Context) :
    Except Failure (Option Value) × Context :=
  (moment.memories handle.memory).within handle.memory moment.thread context (handle.set object)

end Moment

/-- What a handle of some kind answers where an entry stands. -/
inductive GlobalHandle.Reads (kind : Value.Kind) :
    Option (Object Value) → Except Failure (Option Value) → Prop where
  | vacant : Reads kind none (.ok none)
  | found {object : Object Value} (same : object.content.kind = kind) :
      Reads kind (some object) (.ok (some object.content))
  | mismatch {object : Object Value} (other : object.content.kind ≠ kind) :
      Reads kind (some object) (.error (.breach .globalSort))

private theorem GlobalHandle.cast_eq_iff (handle : GlobalHandle) (entry : Option (Object Value))
    (answer : Except Failure (Option Value)) :
    handle.cast entry = answer ↔ Reads handle.kind entry answer := by
  constructor
  · rintro rfl
    cases entry with
    | none => exact .vacant
    | some object =>
      by_cases same : object.content.kind = handle.kind
      · rw [show handle.cast (some object) = _ from if_pos same]
        exact .found same
      · rw [show handle.cast (some object) = _ from if_neg same]
        exact .mismatch same
  · intro reads
    cases reads with
    | vacant => rfl
    | found same => exact if_pos same
    | mismatch other => exact if_neg other

namespace Moment
variable {moment : Moment} {handle : GlobalHandle} {object : Object Value} {context : Context}
  {failure : Failure}

private theorem get_of_bars (bars : moment.Bars handle.memory context failure) :
    moment.get handle context = (.error failure, context) := by
  rw [get, Memory.within, resolve_of_bars bars]

private theorem set_of_bars (bars : moment.Bars handle.memory context failure) :
    moment.set handle object context = (.error failure, context) := by
  rw [set, Memory.within, resolve_of_bars bars]

private theorem get_of_admits (admits : moment.Admits handle.memory context) :
    moment.get handle context = (handle.cast (context.hosted handle.id), context.withTop
      {context.top with globals := context.top.globals.touch handle.id}) := by
  rw [get, Memory.within, resolve_of_admits admits]
  rfl

private theorem set_of_admits (admits : moment.Admits handle.memory context) :
    moment.set handle object context = (handle.cast (context.hosted handle.id), context.withTop
      {context.top with globals := (context.top.globals.put handle.id object).2}) := by
  rw [set, Memory.within, resolve_of_admits admits]
  rfl

private theorem admits_or_bars (moment : Moment) (memory : Nat) (context : Context) :
    moment.Admits memory context ∨ ∃ failure, moment.Bars memory context failure := by
  by_cases admits : moment.Admits memory context
  · exact .inl admits
  · exact .inr (by simpa [Admits] using admits)

end Moment

/-- A use of the table of globals: through a handle, or of an entry directly. -/
inductive Use where
  | get (moment : Moment) (handle : GlobalHandle)
  | set (moment : Moment) (handle : GlobalHandle) (object : Object Value)
  | overwrite (id : Nat) (object : Object Value)

namespace Use

def apply (context : Context) : Use → Context
  | .get moment handle => (moment.get handle context).2
  | .set moment handle object => (moment.set handle object context).2
  | .overwrite id object =>
    context.withTop {context.top with globals := (context.top.globals.put id object).2}

/-- What a use stores under a number. -/
def stored (start : Context) (id : Nat) : Use → Option (Object Value)
  | .get .. => none
  | .set moment handle object =>
    if handle.id = id ∧ moment.Admits handle.memory start then some object else none
  | .overwrite target object => if target = id then some object else none

end Use

namespace Context

def after (start : Context) (uses : List Use) : Context :=
  uses.foldl Use.apply start

/-- What was stored last under a number, or what has been there from the start. -/
def lastStored (start : Context) (uses : List Use) (id : Nat) : Option (Object Value) :=
  (uses.reverse.findSome? (Use.stored start id)).or (start.hosted id)

end Context

section
variable {context other start : Context} {moment : Moment} {handle : GlobalHandle}
  {object : Object Value} {failure : Failure}

private theorem Context.hosted_put (id target : Nat) (object : Object Value) (context : Context) :
    (context.withTop {context.top with globals := (context.top.globals.put target object).2}).hosted
        id = if target = id then some object else context.hosted id := by
  by_cases same : target = id
  · subst same
    simp [Context.hosted]
  · simp [Context.hosted, same, Table.lookup_put_of_ne same]

private theorem Moment.hosted_get (moment : Moment) (handle : GlobalHandle) (context : Context)
    (id : Nat) : (moment.get handle context).2.hosted id = context.hosted id := by
  rcases moment.admits_or_bars handle.memory context with admits | ⟨failure, bars⟩
  · rw [get_of_admits admits]
    simp [Context.hosted]
  · rw [get_of_bars bars]

private theorem Moment.stamp_get (moment : Moment) (handle : GlobalHandle) (context : Context) :
    (moment.get handle context).2.stamp = context.stamp := by
  rcases moment.admits_or_bars handle.memory context with admits | ⟨failure, bars⟩
  · rw [get_of_admits admits, Context.stamp_withGlobals]
  · rw [get_of_bars bars]

private theorem Moment.stamp_set (moment : Moment) (handle : GlobalHandle) (object : Object Value)
    (context : Context) : (moment.set handle object context).2.stamp = context.stamp := by
  rcases moment.admits_or_bars handle.memory context with admits | ⟨failure, bars⟩
  · rw [set_of_admits admits, Context.stamp_withGlobals]
  · rw [set_of_bars bars]

namespace Use

private theorem stamp_apply (use : Use) (context : Context) :
    (use.apply context).stamp = context.stamp := by
  cases use with
  | get moment handle => exact moment.stamp_get handle context
  | set moment handle object => exact moment.stamp_set handle object context
  | overwrite id object => exact Context.stamp_withGlobals _ context

private theorem stored_congr (same : other.stamp = context.stamp) (use : Use) (id : Nat) :
    use.stored other id = use.stored context id := by
  cases use with
  | get moment handle => rfl
  | set moment handle object =>
    have admits : moment.Admits handle.memory other ↔ moment.Admits handle.memory context :=
      ⟨fun admits => admits.congr same.symm, fun admits => admits.congr same⟩
    simp only [stored, admits]
  | overwrite target object => rfl

private theorem hosted_apply (use : Use) (context : Context) (id : Nat) :
    (use.apply context).hosted id = (use.stored context id).or (context.hosted id) := by
  cases use with
  | get moment handle => exact moment.hosted_get handle context id
  | set moment handle object =>
    rcases moment.admits_or_bars handle.memory context with admits | ⟨failure, bars⟩
    · simp only [apply, Moment.set_of_admits admits, Context.hosted_put, stored, admits, and_true]
      split <;> rfl
    · have refused : ¬moment.Admits handle.memory context := fun admits => admits failure bars
      simp [apply, Moment.set_of_bars bars, stored, refused]
  | overwrite target object =>
    simp only [apply, Context.hosted_put, stored]
    split <;> rfl

end Use

namespace Context

private theorem after_concat (start : Context) (uses : List Use) (use : Use) :
    start.after (uses ++ [use]) = use.apply (start.after uses) := by
  simp [after]

private theorem stamp_after (start : Context) (uses : List Use) :
    (start.after uses).stamp = start.stamp := by
  induction uses using List.reverseRecOn with
  | nil => rfl
  | append_singleton uses use ih => rw [after_concat, use.stamp_apply, ih]

private theorem hosted_after (start : Context) (uses : List Use) (id : Nat) :
    (start.after uses).hosted id = start.lastStored uses id := by
  induction uses using List.reverseRecOn with
  | nil => rfl
  | append_singleton uses use ih =>
    rw [after_concat, use.hosted_apply, ih, use.stored_congr (start.stamp_after uses)]
    simp only [lastStored, List.reverse_concat, List.findSome?_cons]
    cases use.stored start id <;> rfl

end Context

/-- A handle is a cell of its own in whatever context it is used. As long as the context is barred
it answers with the reason and changes nothing. Otherwise it answers with what was stored last
under its number, and refuses that if it is of another kind. Reading changes no entry, and storing
only the own one. It stores even where it then refuses the previous value. -/
theorem handle_holds_last_stored (start : Context) (uses : List Use) (moment : Moment)
    (handle : GlobalHandle) (object : Object Value) :
    let context := start.after uses
    let current := start.lastStored uses handle.id
    (∀ failure, moment.Bars handle.memory start failure →
      moment.get handle context = (.error failure, context) ∧
      moment.set handle object context = (.error failure, context)) ∧
    (moment.Admits handle.memory start →
      (∀ answer, (moment.get handle context).1 = answer ↔
        GlobalHandle.Reads handle.kind current answer) ∧
      (∀ id, (moment.get handle context).2.hosted id = context.hosted id) ∧
      (∀ answer, (moment.set handle object context).1 = answer ↔
        GlobalHandle.Reads handle.kind current answer) ∧
      (moment.set handle object context).2.hosted handle.id = some object ∧
      ∀ id, id ≠ handle.id →
        (moment.set handle object context).2.hosted id = context.hosted id) := by
  intro context current
  have stamp : context.stamp = start.stamp := start.stamp_after uses
  have standing : context.hosted handle.id = current := start.hosted_after uses handle.id
  refine ⟨fun failure bars => ?_, fun admits => ?_⟩
  · have barred := bars.congr stamp
    exact ⟨Moment.get_of_bars barred, Moment.set_of_bars barred⟩
  · have admitted := admits.congr stamp
    refine ⟨fun answer => ?_, moment.hosted_get handle context, fun answer => ?_, ?_,
      fun id apart => ?_⟩
    · rw [Moment.get_of_admits admitted, standing, GlobalHandle.cast_eq_iff]
    · rw [Moment.set_of_admits admitted, standing, GlobalHandle.cast_eq_iff]
    · rw [Moment.set_of_admits admitted, Context.hosted_put, if_pos rfl]
    · rw [Moment.set_of_admits admitted, Context.hosted_put, if_neg (Ne.symm apart)]

end

def shelter : Memory :=
  .create ⟨0, []⟩ .standard (.cell (.ofObject ⟨⟨0, [7]⟩, .null⟩))

/-- A thread has got to the body of its first attempt. -/
def sheltered : Memories Unit :=
  .run (fun _ => shelter) ⟨1⟩ (.call 0 0 () :: .replicate 3 (.act 0 .advance))

def shelteredBody : Scope Unit :=
  .start (shelter.committed.copy ⟨3, []⟩ .clean)

private theorem errands_sheltered : sheltered.errands = [⟨0, 0, (), .working 0 shelteredBody⟩] :=
  rfl

def numbers : GlobalHandle := ⟨0, 0, .number⟩
def texts : GlobalHandle := ⟨0, 1, .text⟩

def duringBody : Moment := ⟨sheltered.memory, 0⟩

/-- The own value of a handle gives way to a text. -/
def spoiling : List Use :=
  [.set duringBody texts ⟨⟨4, []⟩, .text "kept"⟩, .set duringBody numbers ⟨⟨5, []⟩, .number 1⟩,
    .overwrite 0 ⟨⟨6, []⟩, .text "spoilt"⟩]

private theorem admits_duringBody : duringBody.Admits 0 (.scope 0 shelteredBody.top) :=
  Moment.admits_iff.mpr rfl

private theorem hosted_spoilt : ((Context.scope 0 shelteredBody.top).after spoiling).hosted 0 =
    some ⟨⟨6, []⟩, .text "spoilt"⟩ :=
  Context.hosted_after _ spoiling 0

/-- The handle refuses the text that it finds, but the text is gone. -/
theorem refused_set_stores :
    let context := (Context.scope 0 shelteredBody.top).after spoiling
    let object : Object Value := ⟨⟨7, []⟩, .number 5⟩
    sheltered.errands = [⟨0, 0, (), .working 0 shelteredBody⟩] ∧
      (duringBody.set numbers object context).1 = .error (.breach .globalSort) ∧
      context.hosted 0 = some ⟨⟨6, []⟩, .text "spoilt"⟩ ∧
      (duringBody.set numbers object context).2.hosted 0 = some object := by
  intro context object
  have admits : duringBody.Admits numbers.memory context :=
    admits_duringBody.congr (Context.stamp_after _ spoiling)
  have found : context.hosted numbers.id = _ := hosted_spoilt
  refine ⟨errands_sheltered, ?_, hosted_spoilt, ?_⟩
  · rw [Moment.set_of_admits admits, found]
    rfl
  · rw [Moment.set_of_admits admits, Context.hosted_put]
    rfl

theorem handle_holds_last_stored_spoilt :
    let start := Context.scope 0 shelteredBody.top
    let context := start.after spoiling
    let outside : Moment := ⟨sheltered.memory, 1⟩
    let object : Object Value := ⟨⟨7, []⟩, .text "new"⟩
    duringBody.Admits 0 start ∧ outside.Bars 0 start (.noTransaction .outsideTransaction) ∧
      outside.set texts object context =
        (.error (.noTransaction .outsideTransaction), context) ∧
      (duringBody.get numbers context).1 = .error (.breach .globalSort) ∧
      (duringBody.set texts object context).1 = .ok (some (.text "kept")) ∧
      (duringBody.set texts object context).2.hosted 1 = some object ∧
      (duringBody.set texts object context).2.hosted 0 = some ⟨⟨6, []⟩, .text "spoilt"⟩ := by
  intro start context outside object
  have bars : outside.Bars 0 start (.noTransaction .outsideTransaction) := .idle rfl
  obtain ⟨barred, _⟩ := handle_holds_last_stored start spoiling outside texts object
  obtain ⟨_, own⟩ := handle_holds_last_stored start spoiling duringBody texts object
  obtain ⟨_, other⟩ := handle_holds_last_stored start spoiling duringBody numbers object
  obtain ⟨_, _, replies, stored, apart⟩ := own admits_duringBody
  obtain ⟨answers, _⟩ := other admits_duringBody
  refine ⟨admits_duringBody, bars, (barred _ bars).2, (answers _).mpr (.mismatch (by decide)),
    (replies _).mpr ?_, stored, (apart 0 (by decide)).trans hosted_spoilt⟩
  have kept : start.lastStored spoiling texts.id = some ⟨⟨4, []⟩, .text "kept"⟩ := rfl
  rw [kept]
  exact .found rfl

end TransactionalMemory
