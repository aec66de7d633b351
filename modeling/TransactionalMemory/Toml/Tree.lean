import TransactionalMemory.Toml.Number

/-! The tables of a document. A table is written out once: by its header, by dotted keys, or in
braces. A table that only lies on the way to another one may still get its own header. -/
namespace TransactionalMemory.Toml

/-- How a table came about: on the way to another one, by dotted keys, or by a header. -/
inductive Origin where
  | implied
  | dotted
  | headed
deriving DecidableEq

/-- Where a value stands, as the numbers of characters left before and after it. -/
structure Extent where
  before : Nat
  after : Nat

inductive Node where
  | value (extent : Extent) (literal : Literal)
  | table (origin : Origin) (entries : List (String × Node))
  | tables (latestFirst : List (List (String × Node)))

abbrev Table := List (String × Node)

namespace Table

def set (key : String) (node : Node) (table : Table) : Table :=
  if table.any (·.1 = key) then table.map fun entry => if entry.1 = key then (key, node) else entry
  else table ++ [(key, node)]

/-- Walks to the table at the end of a path, makes what is missing on the way, and changes that
table. Dotted keys must not enter a table that has a header of its own. The latest of several
tables of one name is the one that is entered. An error names the key at fault. -/
def change (dotted : Bool) (act : Origin → Table → Except String Table) :
    List String → Origin → Table → Except String Table
  | [], origin, table => act origin table
  | key :: path, _, table =>
    match table.lookup key with
    | none =>
      let origin := if dotted then Origin.dotted else .implied
      (change dotted act path origin []).map fun inner => table.set key (.table origin inner)
    | some (.table origin inner) =>
      if dotted && origin = .headed then .error key
      else (change dotted act path origin inner).map fun inner =>
        table.set key (.table origin inner)
    | some (.tables (latest :: earlier)) =>
      (change dotted act path .headed latest).map fun latest =>
        table.set key (.tables (latest :: earlier))
    | some _ => .error key

/-- Adds an entry under a key that is free. After dotted keys the table must be theirs. -/
def add (ownedByDots : Bool) (key : String) (node : Node) (origin : Origin) (table : Table) :
    Except String Table :=
  if ownedByDots && origin ≠ .dotted then .error key
  else if table.any (·.1 = key) then .error key
  else .ok (table.set key node)

def assign (path : List String) (node : Node) (table : Table) : Except String Table :=
  match path.getLast? with
  | none => .ok table
  | some key =>
    change true (add (1 < path.length) key node) path.dropLast .headed table

/-- A table header: the table must not have been written out before. -/
def begin (path : List String) (table : Table) : Except String Table :=
  match path.getLast? with
  | none => .ok table
  | some key =>
    let act (_ : Origin) (parent : Table) : Except String Table :=
      match parent.lookup key with
      | none => .ok (parent.set key (.table .headed []))
      | some (.table .implied inner) => .ok (parent.set key (.table .headed inner))
      | some _ => .error key
    change false act path.dropLast .headed table

def append (path : List String) (table : Table) : Except String Table :=
  match path.getLast? with
  | none => .ok table
  | some key =>
    let act (_ : Origin) (parent : Table) : Except String Table :=
      match parent.lookup key with
      | none => .ok (parent.set key (.tables [[]]))
      | some (.tables latestFirst) => .ok (parent.set key (.tables ([] :: latestFirst)))
      | some _ => .error key
    change false act path.dropLast .headed table

def assignUnder (header path : List String) (node : Node) (table : Table) : Except String Table :=
  change false (fun _ inner => assign path node inner) header .headed table

end Table
end TransactionalMemory.Toml
