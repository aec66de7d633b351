/-! Objects with an identity. Two objects may hold the same content and still be two objects;
all conflict detection compares identities and never contents. One seed serves a whole
operation: the objects that the operation makes in its parts are named by the seed's children. -/
namespace TransactionalMemory

structure Identity where
  origin : Nat
  path : List Nat
deriving DecidableEq, Ord

namespace Identity

/-- The identity for part number `index` of the operation that was given `seed`. -/
def child (seed : Identity) (index : Nat) : Identity :=
  ⟨seed.origin, index :: seed.path⟩

theorem child_ne_self (seed : Identity) (index : Nat) : seed.child index ≠ seed := by
  intro same
  have lengths := congrArg (fun identity => identity.path.length) same
  simp [child] at lengths

end Identity

structure Object (α : Type) where
  identity : Identity
  content : α

/-- Hands out seeds, each of them once. -/
structure Supply where
  next : Nat

namespace Supply

def mint (supply : Supply) : Identity × Supply :=
  (⟨supply.next, []⟩, ⟨supply.next + 1⟩)

end Supply
end TransactionalMemory
