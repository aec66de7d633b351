import Std.Data.ExtTreeMap
import Std.Data.ExtTreeSet
import TransactionalMemory.Failure
import TransactionalMemory.Identity
import TransactionalMemory.Protocol

/-! A keyed table. What a reader sees is the committed entries, overlaid with the modified ones and
less the deleted ones. The log is a set of keys, or one flag once every key was seen; after a
clear every committed key is in the log, so that seeing the whole table adds nothing. -/
namespace TransactionalMemory

abbrev Entries (K V : Type) [Ord K] := Std.ExtTreeMap K (Object V)
abbrev KeySet (K : Type) [Ord K] := Std.ExtTreeSet K

structure Table (K V : Type) [Ord K] where
  source : Object (Entries K V)
  modified : Entries K V
  deleted : KeySet K
  accessed : KeySet K
  accessedWhole : Bool
  cleared : Bool

namespace Entries
variable {K V : Type} [Ord K] [Std.TransOrd K]

def keySet (entries : Entries K V) : KeySet K :=
  Std.ExtTreeSet.ofList entries.keys

/-- The identity stored under a key decides whether an entry has changed. -/
def identity? (entries : Entries K V) (key : K) : Option Identity :=
  (entries[key]?).map Object.identity

def sameEntry (entries other : Entries K V) (key : K) : Bool :=
  entries.identity? key = other.identity? key

def sameEntries (entries other : Entries K V) : Bool :=
  entries.size = other.size && entries.keys.all (entries.sameEntry other)

/-- Writes the modified entries over these and then takes the deleted keys out. -/
def overlay (entries modified : Entries K V) (deleted : KeySet K) : Entries K V :=
  (entries ∪ modified).filter fun key _ => key ∉ deleted

end Entries

namespace Table
variable {K V : Type} [Ord K] [Std.TransOrd K]

def ofObject (source : Object (Entries K V)) : Table K V :=
  ⟨source, ∅, ∅, ∅, false, false⟩

def ofEntries (identity : Identity) (entries : List (K × Object V)) : Table K V :=
  ofObject ⟨identity, Std.ExtTreeMap.ofList entries⟩

/-- What a reader sees under a key, without a trace in the log. -/
def lookup (table : Table K V) (key : K) : Option (Object V) :=
  if key ∈ table.deleted then none
  else (table.modified[key]?).or table.source.content[key]?

def entries (table : Table K V) : Entries K V :=
  table.source.content.overlay table.modified table.deleted

def touch (key : K) (table : Table K V) : Table K V :=
  if table.accessedWhole then table else {table with accessed := table.accessed.insert key}

def touchWhole (table : Table K V) : Table K V :=
  if table.cleared then table else {table with accessedWhole := true, accessed := ∅}

def touchCommitted (table : Table K V) : Table K V :=
  if table.accessedWhole then table
  else {table with cleared := true, accessed := table.accessed ∪ table.source.content.keySet}

def count (table : Table K V) : Nat :=
  table.source.content.size
    + (table.modified.filter fun key _ => key ∉ table.source.content).size
    - table.deleted.size

def size (table : Table K V) : Nat × Table K V :=
  (table.count, table.touchWhole)

def vacant (table : Table K V) : Bool :=
  table.source.content.size = table.deleted.size && table.modified.isEmpty

/-- Only the answer "empty" tells something about every key. -/
def isEmpty (table : Table K V) : Bool × Table K V :=
  if table.vacant then (true, table.touchWhole) else (false, table)

def contains (key : K) (table : Table K V) : Bool × Table K V :=
  ((key ∈ table.source.content || key ∈ table.modified) && key ∉ table.deleted, table.touch key)

def get (key : K) (table : Table K V) : Option (Object V) × Table K V :=
  (table.lookup key, table.touch key)

def put (key : K) (object : Object V) (table : Table K V) : Option (Object V) × Table K V :=
  let touched := table.touch key
  (table.lookup key, {touched with
    deleted := touched.deleted.erase key, modified := touched.modified.insert key object})

def putAll (entries : List (K × Object V)) (table : Table K V) : Table K V :=
  entries.foldl (fun table entry => (table.put entry.1 entry.2).2) table

/-- Only a committed entry has to be remembered as deleted. -/
def remove (key : K) (table : Table K V) : Option (Object V) × Table K V :=
  let touched := table.touch key
  let deleted :=
    if key ∈ touched.source.content then touched.deleted.insert key else touched.deleted
  (table.lookup key, {touched with deleted, modified := touched.modified.erase key})

def clear (table : Table K V) : Table K V :=
  let touched := table.touchCommitted
  {touched with deleted := touched.deleted ∪ touched.source.content.keySet, modified := ∅}

/-- The visible keys in the order in which an iteration yields them: committed keys with no
pending modification first, then the modified ones. -/
def visibleKeys (table : Table K V) : List K :=
  (table.source.content.keys.filter (· ∉ table.modified) ++ table.modified.keys).filter
    (· ∉ table.deleted)

/-- The answer of an iteration that was asked for a key up to some number of times. -/
structure Listing (K : Type) where
  visible : Nat
  taken : List K
  ended : Bool

/-- Asks for a key until none is left, or at most `limit` times. Only an iteration that has
reported its end has seen the whole table. -/
def keys (limit : Option Nat) (table : Table K V) : Listing K × Table K V :=
  let visible := table.visibleKeys
  match limit with
  | none => (⟨visible.length, visible, true⟩, table.touchWhole)
  | some limit =>
    if visible.length < limit then (⟨visible.length, visible, true⟩, table.touchWhole)
    else (⟨visible.length, visible.take limit, false⟩, table)

inductive Request (K V : Type) where
  | get (key : K)
  | contains (key : K)
  | put (key : K) (object : Object V)
  | putAll (entries : List (K × Object V))
  | remove (key : K)
  | clear
  | size
  | isEmpty
  | keys (limit : Option Nat)

inductive Reply (K V : Type) where
  | entry (object : Option (Object V))
  | flag (truth : Bool)
  | count (number : Nat)
  | listing (keys : Listing K)
  | done

def perform (table : Table K V) : Request K V → Reply K V × Table K V
  | .get key => (table.get key).map .entry id
  | .contains key => (table.contains key).map .flag id
  | .put key object => (table.put key object).map .entry id
  | .putAll entries => (.done, table.putAll entries)
  | .remove key => (table.remove key).map .entry id
  | .clear => (.done, table.clear)
  | .size => table.size.map .count id
  | .isEmpty => table.isEmpty.map .flag id
  | .keys limit => (table.keys limit).map .listing id

def copy (table : Table K V) : CopyMode → Table K V
  | .clean => ofObject table.source
  | .dirty => table

def sameSource (table other : Table K V) : Bool :=
  table.source.identity = other.source.identity

/-- Adds what the branch has read to the table's log. A table that was seen as a whole needs no
single keys; a cleared one keeps them. -/
def mergeLog (branch table : Table K V) : Table K V :=
  let table := if branch.accessedWhole then table.touchWhole else table
  if table.accessedWhole then table
  else {table with accessed := table.accessed ∪ branch.accessed}

def merge (mode : MergeMode) (branch table : Table K V) : Except Failure (Table K V) :=
  if table.sameSource branch then
    let logged := mergeLog branch table
    match mode with
    | .readsOnly => .ok logged
    | .everything => .ok {logged with
        cleared := logged.cleared || branch.cleared,
        modified := branch.modified, deleted := branch.deleted}
  else .error (.breach .foreignCollection)

def hasLog (table : Table K V) : Bool :=
  !table.deleted.isEmpty || !table.modified.isEmpty || !table.accessed.isEmpty
    || table.accessedWhole

/-- Without a pending change the latest source is kept, identity included; otherwise the merged
entries become the content of a new source. -/
def commit (fresh : Identity) (table latest : Table K V) : Except Failure (Table K V) :=
  if latest.hasLog then .error (.misuse .tableUncommitted)
  else if table.accessedWhole && !(table.sameSource latest
      || table.source.content.sameEntries latest.source.content) then
    .error (.conflict .someEntryChanged)
  else if !table.accessed.toList.all (table.source.content.sameEntry latest.source.content) then
    .error (.conflict .entryChanged)
  else if table.deleted.isEmpty && table.modified.isEmpty then .ok (latest.copy .clean)
  else .ok (ofObject ⟨fresh, latest.source.content.overlay table.modified table.deleted⟩)

end Table
end TransactionalMemory
