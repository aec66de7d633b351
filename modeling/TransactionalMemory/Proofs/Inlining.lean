import TransactionalMemory.Proofs.ScopeReach

/-! A nested transaction that commits might as well have been a part of its parent. Its body learns
the same when it works on the parent directly, and what is left of the parent is the same: the
values, the pending writes and the log of every part. -/
namespace TransactionalMemory
namespace Entity

def matchLinks : Links where
  cell := Eq
  table := Eq
  multimap := Eq
  queue := Eq
  rule := fun _ _ => True
  slot := fun slot other related =>
    (slot.accessed = true ∧ other.accessed = true ∧ related) ∨
      (slot.accessed = false ∧ slot = other)
  timestamp := Eq
  globals := Eq

/-- Two entities that nobody can tell apart: every part is the same, sources and logs included, and
so is every slot that was not reached. Left open are the identities of slots that were reached and
the mode in which the others will be copied. -/
abbrev Matches : (entity other : Entity) → Prop :=
  Relates matchLinks

theorem CopyOf.matches_of_alike {guard guard' : Guard} {base entity other : Entity}
    (copy : CopyOf guard base entity) (copy' : CopyOf guard' base other)
    (alike : Alike entity other) : Matches entity other := by
  induction base using Entity.induct generalizing entity other with
  | cell inner =>
    obtain ⟨_, rfl, copy⟩ := relates_cell.mp copy
    obtain ⟨_, rfl, copy'⟩ := relates_cell.mp copy'
    exact (Cell.CopyOf.eq_of_alike copy copy' alike).symm
  | table inner =>
    obtain ⟨_, rfl, copy⟩ := relates_table.mp copy
    obtain ⟨_, rfl, copy'⟩ := relates_table.mp copy'
    exact (Table.CopyOf.eq_of_alike copy copy' alike).symm
  | multimap inner =>
    obtain ⟨_, rfl, copy⟩ := relates_multimap.mp copy
    obtain ⟨_, rfl, copy'⟩ := relates_multimap.mp copy'
    exact congrArg Multimap.mk (Table.CopyOf.eq_of_alike copy copy' alike).symm
  | queue inner =>
    obtain ⟨_, rfl, copy⟩ := relates_queue.mp copy
    obtain ⟨_, rfl, copy'⟩ := relates_queue.mp copy'
    exact (Queue.CopyOf.eq_of_alike copy copy' alike).symm
  | bundle slots rule ih =>
    obtain ⟨slots', _, rfl, _, copies⟩ := relates_bundle.mp copy
    obtain ⟨others, _, rfl, _, copies'⟩ := relates_bundle.mp copy'
    obtain ⟨_, _, same, _, alikes⟩ := relates_bundle.mp alike
    cases same
    refine relates_bundle.mpr ⟨_, _, rfl, trivial, forall₂_join ?_ copies copies' alikes⟩
    intro base member slot other copy copy' alike
    cases seen : slot.accessed with
    | true =>
      have seen' := alike.1.trans seen
      exact .inl ⟨seen, seen', ih base member (copy.1 seen) (copy'.1 seen') (alike.2 seen)⟩
    | false => exact .inr ⟨seen, (copy.2 seen).trans (copy'.2 (alike.1.trans seen)).symm⟩
  | snapshot inner ih =>
    obtain ⟨_, rfl, time, copy, globals⟩ := relates_snapshot.mp copy
    obtain ⟨_, rfl, time', copy', globals'⟩ := relates_snapshot.mp copy'
    obtain ⟨_, same, _, alike, alikeGlobals⟩ := relates_snapshot.mp alike
    cases same
    exact relates_snapshot.mpr ⟨_, rfl, time.trans time'.symm, ih copy copy' alike,
      (Table.CopyOf.eq_of_alike globals globals' alikeGlobals).symm⟩

end Entity

namespace Scope
variable {C : Type}

def desk : Entity := .bundle
  [⟨⟨0, [0]⟩, false, .cell (.ofObject ⟨⟨0, [1]⟩, .number 5⟩)⟩,
    ⟨⟨0, [2]⟩, false, .queue (.ofItems ⟨0, [3]⟩ [.number 1, .number 2])⟩] .take

def hosting : Question :=
  ⟨[], .request (.globals (.put 3 ⟨⟨1, [0]⟩, .null⟩))⟩

def polling : Question :=
  ⟨[.data, .slot 1 (some .queue)], .request (.queue .poll)⟩

def writing (value : Value) : Question :=
  ⟨[.data, .slot 0 none], .request (.cell (.assoc ⟨⟨1, [1]⟩, value⟩))⟩

def deskMemory : Memory :=
  .create ⟨2, []⟩ .standard desk

def deskScope : Scope Unit :=
  (((Scope.start (deskMemory.committed.copy ⟨3, []⟩ .clean)).ask [] ⟨4, []⟩ hosting).2).enter
    ⟨5, []⟩

end Scope
end TransactionalMemory
