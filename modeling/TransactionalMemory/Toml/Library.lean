/-! What a library for TOML offers to records of unsigned words: it writes them as documents and
reads them from documents. The text and the record meet in a table of values. How a library does
this is left open here. -/
namespace TransactionalMemory.Toml

/-- A word of a record, with the names of the field and of its type. -/
structure Field where
  name : String
  type : String
  value : UInt64

structure Library where
  Value : Type
  Fault : Type
  /-- The signed word that a value is, if it is an integer. -/
  integer? : Value → Option Int64
  serialize : {size : Nat} → (fields : Fin size → Field) → Except String (List (String × Value))
  print : (table : List (String × Value)) → String
  parse : (text : String) → Except Fault (List (String × Value))
  /-- The words of a record that has fields like the given ones. A field that is missing takes the
  word that is given. -/
  deserialize : {size : Nat} → (defaults : Fin size → Field) → (table : List (String × Value)) →
    Except Fault (Fin size → UInt64)
  explain : (text : String) → Fault → String

namespace Library
variable (library : Library) {size : Nat}

def write (fields : Fin size → Field) : Except String String :=
  (library.serialize fields).map library.print

def read (defaults : Fin size → Field) (text : String) : Except String (Fin size → UInt64) :=
  (library.parse text >>= library.deserialize defaults).mapError (library.explain text)

end Library
end TransactionalMemory.Toml
