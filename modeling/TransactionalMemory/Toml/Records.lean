import TransactionalMemory.Toml.Document
import TransactionalMemory.Toml.Library

/-! Records as the tables of documents. Each field of a record is an entry under its name; a field
that a table does not have keeps its default, and other entries do not matter. -/
namespace TransactionalMemory.Toml

def shownCharacter (c : Char) : String :=
  if c = '"' then "\\\"" else if c = '\\' then "\\\\" else if c = '\n' then "\\n"
  else if c = '\t' then "\\t" else if c = '\r' then "\\r" else String.singleton c

def shownText (text : String) : String :=
  "\"" ++ String.join (text.toList.map shownCharacter) ++ "\""

/-- What was found in the place of an integer that is not negative. -/
def unexpected : Literal → String
  | .integer value => s!"invalid value: integer `{value}`"
  | .float written => s!"invalid type: floating point `{written}`"
  | .boolean truth => s!"invalid type: boolean `{truth}`"
  | .text characters => "invalid type: string " ++ shownText characters
  | .moment => "invalid type: map"
  | .array => "invalid type: sequence"
  | .inlineTable => "invalid type: map"

def Literal.unsigned? : Literal → Option UInt64
  | .integer value => if 0 ≤ value.toInt then some (.ofNat value.toInt.toNat) else none
  | _ => none

def Node.unsigned (type : String) : Node → Except Refusal UInt64
  | .value extent literal =>
    match literal.unsigned? with
    | some word => .ok word
    | none => .error ⟨extent.before, extent.before - extent.after,
        unexpected literal ++ ", expected " ++ type⟩
  | .table .. => .error ⟨0, 1, "invalid type: map, expected " ++ type⟩
  | .tables _ => .error ⟨0, 1, "invalid type: sequence, expected " ++ type⟩

def Node.integer? : Node → Option Int64
  | .value _ (.integer number) => some number
  | _ => none

namespace Table

def assignedField {size : Nat} (defaults : Fin size → Field) (words : Fin size → UInt64)
    (entry : String × Node) : Except Refusal (Fin size → UInt64) :=
  match (List.finRange size).find? fun index => (defaults index).name = entry.1 with
  | none => .ok words
  | some index => (entry.2.unsigned (defaults index).type).map fun word other =>
      if other = index then word else words other

/-- The entries are read in the order in which the document has them. -/
def toWords {size : Nat} (defaults : Fin size → Field) (table : Table) :
    Except Refusal (Fin size → UInt64) :=
  table.foldlM (assignedField defaults) fun index => (defaults index).value

end Table

def Field.entry (field : Field) : Except String (String × Node) :=
  if field.value.toNat ≤ Int64.maxValue.toInt then
    .ok (field.name, .value ⟨0, 0⟩ (.integer (.ofInt field.value.toNat)))
  else .error "out-of-range value for u64 type"

/-- Only integers are ever printed, under names that need no quotes. -/
def printLine (entry : String × Node) : String :=
  match entry.2.integer? with
  | some value => entry.1 ++ " = " ++ toString value ++ "\n"
  | none => ""

def Table.print (table : Table) : String :=
  String.join (table.map printLine)

def Library.standard : Library where
  Value := Node
  Fault := Refusal
  integer? := Node.integer?
  serialize fields := (List.ofFn fields).mapM Field.entry
  print := Table.print
  parse text := Toml.parse text.toList
  deserialize := Table.toWords
  explain text refusal := refusal.render text.toList

end TransactionalMemory.Toml
