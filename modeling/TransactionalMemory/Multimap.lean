import TransactionalMemory.Table

/-! A table of value sets. No key is ever stored with an empty set, so a key is present exactly
when it has a value. -/
namespace TransactionalMemory

abbrev ValueSet (V : Type) [Ord V] := Std.ExtTreeSet V

structure Multimap (K V : Type) [Ord K] [Ord V] where
  table : Table K (ValueSet V)

namespace Multimap
variable {K V : Type} [Ord K] [Ord V] [Std.TransOrd K] [Std.TransOrd V]

def empty (identity : Identity) : Multimap K V :=
  ⟨.ofEntries identity []⟩

private def values (entry : Option (Object (ValueSet V))) : ValueSet V :=
  match entry with
  | some object => object.content
  | none => ∅

def get (key : K) (multimap : Multimap K V) : ValueSet V × Multimap K V :=
  (multimap.table.get key).map values mk

def contains (key : K) (multimap : Multimap K V) : Bool × Multimap K V :=
  (multimap.table.contains key).map id mk

def remove (key : K) (multimap : Multimap K V) : ValueSet V × Multimap K V :=
  (multimap.table.remove key).map values mk

/-- The only way in which a set is stored. -/
def replace (fresh : Identity) (key : K) (set : ValueSet V) (multimap : Multimap K V) :
    ValueSet V × Multimap K V :=
  if set.isEmpty then multimap.remove key
  else (multimap.table.put key ⟨fresh, set⟩).map values mk

def putAll (fresh : Identity) (key : K) (added : List V) (multimap : Multimap K V) :
    ValueSet V × Multimap K V :=
  let (previous, touched) := multimap.get key
  touched.replace fresh key (previous.insertMany added)

def put (fresh : Identity) (key : K) (added : V) (multimap : Multimap K V) :
    ValueSet V × Multimap K V :=
  multimap.putAll fresh key [added]

def removeValue (fresh : Identity) (key : K) (removed : V) (multimap : Multimap K V) :
    ValueSet V × Multimap K V :=
  let (previous, touched) := multimap.get key
  if removed ∈ previous then
    (previous, (touched.replace fresh key (previous.erase removed)).2)
  else (previous, touched)

def clear (multimap : Multimap K V) : Multimap K V :=
  ⟨multimap.table.clear⟩

def size (multimap : Multimap K V) : Nat × Multimap K V :=
  multimap.table.size.map id mk

def isEmpty (multimap : Multimap K V) : Bool × Multimap K V :=
  multimap.table.isEmpty.map id mk

def keys (limit : Option Nat) (multimap : Multimap K V) : Table.Listing K × Multimap K V :=
  (multimap.table.keys limit).map id mk

inductive Request (K V : Type) where
  | get (key : K)
  | contains (key : K)
  | put (key : K) (value : V)
  | putAll (key : K) (values : List V)
  | removeValue (key : K) (value : V)
  | remove (key : K)
  | clear
  | size
  | isEmpty
  | keys (limit : Option Nat)

inductive Reply (K V : Type) [Ord V] where
  | values (set : ValueSet V)
  | flag (truth : Bool)
  | count (number : Nat)
  | listing (keys : Table.Listing K)
  | done

def perform (fresh : Identity) (multimap : Multimap K V) :
    Request K V → Reply K V × Multimap K V
  | .get key => (multimap.get key).map .values id
  | .contains key => (multimap.contains key).map .flag id
  | .put key value => (multimap.put fresh key value).map .values id
  | .putAll key values => (multimap.putAll fresh key values).map .values id
  | .removeValue key value => (multimap.removeValue fresh key value).map .values id
  | .remove key => (multimap.remove key).map .values id
  | .clear => (.done, multimap.clear)
  | .size => multimap.size.map .count id
  | .isEmpty => multimap.isEmpty.map .flag id
  | .keys limit => (multimap.keys limit).map .listing id

def copy (multimap : Multimap K V) (mode : CopyMode) : Multimap K V :=
  ⟨multimap.table.copy mode⟩

def sameSource (multimap other : Multimap K V) : Bool :=
  multimap.table.sameSource other.table

def merge (mode : MergeMode) (branch multimap : Multimap K V) : Except Failure (Multimap K V) :=
  (branch.table.merge mode multimap.table).map mk

def commit (fresh : Identity) (multimap latest : Multimap K V) : Except Failure (Multimap K V) :=
  (multimap.table.commit fresh latest.table).map mk

end Multimap
end TransactionalMemory
