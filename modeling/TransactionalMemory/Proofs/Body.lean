import TransactionalMemory.Scope

/-! Bodies of transactions and what running one does to the state that it works on. A body is a
tree: what it does next may depend on everything that it has learned so far. The state and the way
to copy and to merge it are left open. Two inductions over bodies are made here once: that a run
keeps an invariant, and that two runs from like states learn the same. -/
namespace TransactionalMemory

/-- What a body has learned, step by step, down to its ending. -/
inductive Trace (Q A : Type) where
  | finished (ending : Ending)
  | asked (question : Q) (answer : A) (rest : Trace Q A)
  | nested (inner : Trace Q A) (result : Ending) (rest : Trace Q A)

namespace Trace
variable {Q A : Type}

def ending : Trace Q A → Ending
  | .finished ending => ending
  | .asked _ _ rest => rest.ending
  | .nested _ _ rest => rest.ending

/-- Every question with its answer, also those of nested transactions, whatever became of them. -/
def All (holds : Q → A → Prop) : Trace Q A → Prop
  | .finished _ => True
  | .asked question answer rest => holds question answer ∧ rest.All holds
  | .nested inner _ rest => inner.All holds ∧ rest.All holds

theorem All.imp {holds other : Q → A → Prop}
    (implies : ∀ question answer, holds question answer → other question answer)
    {trace : Trace Q A} (all : trace.All holds) : trace.All other := by
  induction trace with
  | finished ending => trivial
  | asked question answer rest ih => exact ⟨implies _ _ all.1, ih all.2⟩
  | nested inner result rest innerIh ih => exact ⟨innerIh all.1, ih all.2⟩

theorem all_true (trace : Trace Q A) : trace.All fun _ _ => True := by
  induction trace with
  | finished ending => trivial
  | asked question answer rest ih => exact ⟨trivial, ih⟩
  | nested inner result rest innerIh ih => exact ⟨innerIh, ih⟩

end Trace

/-- The body of a transaction, which goes on by what it has learned. A nested transaction brings
its callback along. -/
inductive Body (Q A C : Type) where
  | finish (ending : Ending)
  | ask (question : Q) (next : A → Body Q A C)
  | nest (callback : C) (inner : Body Q A C) (next : Trace Q A → Ending → Body Q A C)

/-- What running a body takes: to ask the state, to branch it, and to merge a branch into it. All
that is made on the way is named by the seed. -/
structure Protocol (S Q A : Type) where
  ask : Identity → Q → S → A × S
  branch : Identity → S → S
  merge : Identity → MergeMode → (branch target : S) → Option Failure × S

/-- Only a body that asks for a commit has its writes merged. -/
def Ending.mode : Ending → MergeMode
  | .ok true => .everything
  | _ => .readsOnly

def Ending.merged (ending : Ending) : Option Failure → Ending
  | some failure => .error failure
  | none => ending

/-- Runs a body. A nested one works on a branch, which is merged by how it ends. -/
def Body.run {S Q A C : Type} (protocol : Protocol S Q A) :
    Body Q A C → Identity → S → Trace Q A × S
  | .finish ending, _, state => (.finished ending, state)
  | .ask question next, seed, state =>
    let asked := protocol.ask (seed.child 0) question state
    let rest := (next asked.1).run protocol (seed.child 1) asked.2
    (.asked question asked.1 rest.1, rest.2)
  | .nest _ inner next, seed, state =>
    let inside := inner.run protocol (seed.child 1) (protocol.branch (seed.child 0) state)
    let ending := inside.1.ending
    let merged := protocol.merge (seed.child 2) (Ending.mode ending) inside.2 state
    let result := Ending.merged ending merged.1
    let rest := (next inside.1 result).run protocol (seed.child 3) merged.2
    (.nested inside.1 result rest.1, rest.2)

theorem Body.run_nest {S Q A C : Type} {protocol : Protocol S Q A} {callback : C}
    {inner : Body Q A C} {next : Trace Q A → Ending → Body Q A C} {seed : Identity}
    {state branch : S} {inside : Trace Q A}
    (ran : inner.run protocol (seed.child 1) (protocol.branch (seed.child 0) state) =
      (inside, branch))
    (accepted : (protocol.merge (seed.child 2) (Ending.mode inside.ending) branch state).1 = none) :
    (Body.nest callback inner next).run protocol seed state =
      ((next inside inside.ending).run protocol (seed.child 3)
        (protocol.merge (seed.child 2) (Ending.mode inside.ending) branch state).2).map
        (.nested inside inside.ending) id := by
  simp only [Body.run, ran, accepted, Ending.merged]
  rfl

namespace Protocol
variable {S Q A C : Type}

/-- A property of states that every step keeps, and an order in which every step moves on. Merging
a branch that has moved on from its target is never refused. -/
structure Keeps (protocol : Protocol S Q A) (allowed : Q → A → Prop) (seeds : Identity → Prop)
    (Holds : S → Prop) (Leads : S → S → Prop) : Prop where
  child : ∀ {seed}, seeds seed → ∀ index, seeds (seed.child index)
  refl : ∀ {state}, Holds state → Leads state state
  trans : ∀ {first second third}, Leads first second → Leads second third → Leads first third
  ask : ∀ {seed question state}, seeds seed → Holds state →
    allowed question (protocol.ask seed question state).1 →
    Holds (protocol.ask seed question state).2 ∧ Leads state (protocol.ask seed question state).2
  branch : ∀ {seed state}, seeds seed → Holds state →
    Holds (protocol.branch seed state) ∧ Leads state (protocol.branch seed state)
  merge : ∀ {seed} mode {branch target}, seeds seed → Holds branch → Holds target →
    Leads target branch →
    (protocol.merge seed mode branch target).1 = none ∧
      Holds (protocol.merge seed mode branch target).2 ∧
      Leads target (protocol.merge seed mode branch target).2

variable {protocol : Protocol S Q A} {allowed : Q → A → Prop} {seeds : Identity → Prop}
  {Holds : S → Prop} {Leads : S → S → Prop}

theorem Keeps.run (keeps : protocol.Keeps allowed seeds Holds Leads) (body : Body Q A C)
    {seed : Identity} {state : S} (seeded : seeds seed) (holds : Holds state)
    (all : (body.run protocol seed state).1.All allowed) :
    Holds (body.run protocol seed state).2 ∧ Leads state (body.run protocol seed state).2 := by
  induction body generalizing seed state with
  | finish ending => exact ⟨holds, keeps.refl holds⟩
  | ask question next ih =>
    obtain ⟨first, later⟩ := all
    obtain ⟨asked, moved⟩ := keeps.ask (keeps.child seeded 0) holds first
    obtain ⟨after, went⟩ := ih _ (keeps.child seeded 1) asked later
    exact ⟨after, keeps.trans moved went⟩
  | nest callback inner next innerIh ih =>
    obtain ⟨inside, later⟩ := all
    obtain ⟨branched, split⟩ := keeps.branch (keeps.child seeded 0) holds
    obtain ⟨grown, went⟩ := innerIh (keeps.child seeded 1) branched inside
    obtain ⟨_, merged, moved⟩ := keeps.merge _ (keeps.child seeded 2) grown holds
      (keeps.trans split went)
    obtain ⟨after, rest⟩ := ih _ _ (keeps.child seeded 3) merged later
    exact ⟨after, keeps.trans moved rest⟩

/-- Two states are alike if they answer the same as long as `Fits` holds of the first one; later
states fit less than earlier ones, and a target fits less than the branch that was merged. -/
structure Mirrors (protocol : Protocol S Q A) (allowed : Q → A → Prop) (seeds : Identity → Prop)
    (Holds : S → Prop) (Leads : S → S → Prop) (Holds' : S → Prop) (Leads' : S → S → Prop)
    (Fits : S → Prop) (Alike : S → S → Prop) : Prop where
  keeps : protocol.Keeps allowed seeds Holds Leads
  keeps' : protocol.Keeps allowed seeds Holds' Leads'
  fits : ∀ {state later}, Leads state later → Fits later → Fits state
  covers : ∀ {seed mode branch target}, seeds seed → Holds branch → Holds target →
    Leads target branch → Fits (protocol.merge seed mode branch target).2 → Fits branch
  ask : ∀ {seed question state other}, seeds seed → Holds state → Holds' other →
    Alike state other → allowed question (protocol.ask seed question state).1 →
    Fits (protocol.ask seed question state).2 →
    (protocol.ask seed question other).1 = (protocol.ask seed question state).1 ∧
      Alike (protocol.ask seed question state).2 (protocol.ask seed question other).2
  branch : ∀ {seed state other}, seeds seed → Holds state → Holds' other → Alike state other →
    Alike (protocol.branch seed state) (protocol.branch seed other)
  merge : ∀ {seed} mode {branch target branch' target'}, seeds seed → Holds branch → Holds target →
    Leads target branch → Holds' branch' → Holds' target' → Leads' target' branch' →
    Alike branch branch' → Alike target target' →
    Alike (protocol.merge seed mode branch target).2 (protocol.merge seed mode branch' target').2

variable {Holds' : S → Prop} {Leads' : S → S → Prop} {Fits : S → Prop} {Alike : S → S → Prop}

theorem Mirrors.run
    (mirrors : protocol.Mirrors allowed seeds Holds Leads Holds' Leads' Fits Alike)
    (body : Body Q A C) {seed : Identity} {state other : S} (seeded : seeds seed)
    (holds : Holds state) (holds' : Holds' other) (alike : Alike state other)
    (all : (body.run protocol seed state).1.All allowed)
    (fits : Fits (body.run protocol seed state).2) :
    (body.run protocol seed other).1 = (body.run protocol seed state).1 ∧
      Alike (body.run protocol seed state).2 (body.run protocol seed other).2 := by
  have keeps := mirrors.keeps
  have keeps' := mirrors.keeps'
  induction body generalizing seed state other with
  | finish ending => exact ⟨rfl, alike⟩
  | ask question next ih =>
    obtain ⟨first, later⟩ := all
    have seeded' := keeps.child seeded 0
    obtain ⟨asked, moved⟩ := keeps.ask seeded' holds first
    have went := (keeps.run _ (keeps.child seeded 1) asked later).2
    obtain ⟨same, related⟩ :=
      mirrors.ask seeded' holds holds' alike first (mirrors.fits went fits)
    have asked' := (keeps'.ask seeded' holds' (same ▸ first)).1
    simp only [Body.run, same]
    obtain ⟨rest, final⟩ := ih _ (keeps.child seeded 1) asked asked' related later fits
    exact ⟨by rw [rest], final⟩
  | nest callback inner next innerIh ih =>
    have first := keeps.child seeded 0
    have second := keeps.child seeded 1
    have third := keeps.child seeded 2
    have fourth := keeps.child seeded 3
    obtain ⟨branched, split⟩ := keeps.branch first holds
    obtain ⟨branched', split'⟩ := keeps'.branch first holds'
    have inside := all.1
    obtain ⟨grown, went⟩ := keeps.run inner second branched inside
    rcases ran : inner.run protocol (seed.child 1) (protocol.branch (seed.child 0) state)
      with ⟨trace, branch⟩
    rw [ran] at grown went
    have ahead := keeps.trans split went
    obtain ⟨accepted, merged, _⟩ :=
      keeps.merge (Ending.mode trace.ending) third grown holds ahead
    rw [Body.run_nest ran accepted] at all fits ⊢
    -- Whether the branch fits is only known from what it was merged into.
    have fitsMerged := mirrors.fits (keeps.run _ fourth merged all.2).2 fits
    have fitsBranch := mirrors.covers third grown holds ahead fitsMerged
    obtain ⟨same, related⟩ := innerIh second branched branched'
      (mirrors.branch first holds holds' alike) inside (by rwa [ran])
    have inside' := same ▸ inside
    obtain ⟨grown', went'⟩ := keeps'.run inner second branched' inside'
    rcases ran' : inner.run protocol (seed.child 1) (protocol.branch (seed.child 0) other)
      with ⟨trace', branch'⟩
    rw [ran, ran'] at same related
    obtain rfl : trace' = trace := same
    rw [ran'] at grown' went'
    have ahead' := keeps'.trans split' went'
    obtain ⟨accepted', merged', _⟩ :=
      keeps'.merge (Ending.mode trace'.ending) third grown' holds' ahead'
    rw [Body.run_nest ran' accepted']
    have relatedMerged := mirrors.merge (Ending.mode trace'.ending) third grown holds ahead
      grown' holds' ahead' related alike
    obtain ⟨rest, final⟩ := ih _ _ fourth merged merged' relatedMerged all.2 fits
    exact ⟨by simp only [Prod.map_fst, rest], final⟩

end Protocol
end TransactionalMemory
