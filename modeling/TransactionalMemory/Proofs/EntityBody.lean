import TransactionalMemory.Proofs.Body
import TransactionalMemory.Proofs.EntityMerge
import TransactionalMemory.Proofs.Visit

/-! Bodies that work on a copy of an entity. Whatever a body does, its state stays a working copy
of the base. On like copies of two bases it learns the same, as long as what it has seen of the
one is still so in the other. -/
namespace TransactionalMemory.Entity
variable {guard : Guard} {base latest : Entity} {allowed : Question → Answer → Prop}

/-- A working copy never takes a slot as it is, so nothing has to be known of other slots. -/
def protocol : Protocol Entity Question Answer where
  ask := fun seed question entity => entity.ask [] seed question
  branch := fun seed entity => entity.copy seed .dirty
  merge := fun seed mode branch target => branch.merge [] seed mode target

theorem keeps_copy (untouched : Untouched base)
    (marked : ∀ question answer, allowed question answer → question.query.Marked guard) :
    protocol.Keeps allowed guard.seed (CopyOf guard base) Extends where
  child := guard.child
  refl := fun _ => .refl _
  trans := .trans
  ask := by
    intro seed question entity named copy shown
    obtain ⟨answer, after, went, kept⟩ :=
      visit_copy question.query question.path (marked _ _ shown) named untouched copy
    simp only [protocol, Entity.ask, went]
    exact kept
  branch := by
    intro seed entity _ copy
    have branches := CopyOf.branch copy seed
    exact ⟨branches.copy, branches.ahead⟩
  merge := by
    intro seed mode branch target _ copy source ahead
    have merging : Merging guard base branch target := ⟨untouched, copy, source, ahead⟩
    obtain ⟨merged, accepted, absorbs⟩ := merging.merge mode seed
    simp only [protocol, accepted]
    exact ⟨trivial, absorbs.copy, absorbs.ahead⟩

/-- What may be asked so that the same answer can be had of the latest entity: anything, if that is
the base itself. -/
def Allowed (guard : Guard) (base latest : Entity) (question : Question) (answer : Answer) : Prop :=
  question.query.Marked guard ∧ (base = latest ∨ ¬guard.clearing ∧ question.Protected answer)

theorem mirrors_copy (guard : Guard) (layout : SameLayout base latest) (untouched : Untouched base)
    (untouched' : Untouched latest) :
    protocol.Mirrors (Allowed guard base latest) guard.seed (CopyOf guard base) Extends
      (CopyOf guard latest) Extends (fun entity => base = latest ∨ Fits latest entity) Alike where
  keeps := keeps_copy untouched fun _ _ => And.left
  keeps' := keeps_copy untouched' fun _ _ => And.left
  fits := fun ahead fits => fits.imp_right (Extends.fits ahead)
  covers := by
    intro seed mode branch target _ copy source ahead fits
    have merging : Merging guard base branch target := ⟨untouched, copy, source, ahead⟩
    obtain ⟨merged, accepted, absorbs⟩ := merging.merge mode seed
    simp only [protocol, accepted] at fits
    exact fits.imp_right (absorbs.covers latest)
  ask := by
    intro seed question entity other named copy copy' alike shown fits
    refine visit_alike question.query question.path named layout untouched untouched' copy copy'
      alike [] [] ?_
    rcases shown.2 with same | ⟨still, shown⟩
    · exact .inl same
    · exact fits.imp_right fun fits => ⟨still, shown, fits⟩
  branch := by
    intro seed entity other _ copy copy' alike
    have branched := (CopyOf.branch copy seed).alike
    have branched' := (CopyOf.branch copy' seed).alike
    exact Alike.trans (Alike.symm branched) (Alike.trans alike branched')
  merge := by
    intro seed mode branch target branch' target' _ copy source ahead copy' source' ahead' alike
      targets
    have merging : Merging guard base branch target := ⟨untouched, copy, source, ahead⟩
    have merging' : Merging guard latest branch' target' := ⟨untouched', copy', source', ahead'⟩
    exact merging.alike merging' layout alike targets mode seed seed [] []

end TransactionalMemory.Entity
