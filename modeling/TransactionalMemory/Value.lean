/-! The values that clients keep in entities: nested lists and records over integers, texts,
booleans and null. The store never looks into them, except to sort global values by kind. -/
namespace TransactionalMemory

inductive Value where
  | null
  | boolean (truth : Bool)
  | number (integer : Int)
  | text (characters : String)
  | list (items : List Value)
  | record (fields : List (String × Value))
deriving Inhabited

namespace Value

inductive Kind where
  | null
  | boolean
  | number
  | text
  | list
  | record
deriving DecidableEq

def kind : Value → Kind
  | .null => .null
  | .boolean _ => .boolean
  | .number _ => .number
  | .text _ => .text
  | .list _ => .list
  | .record _ => .record

def wordMin : Int := Int64.minValue.toInt
def wordMax : Int := Int64.maxValue.toInt

/-- The value as a signed word; whatever is no such word counts as zero. -/
def word : Value → Int
  | .number integer => if wordMin ≤ integer ∧ integer ≤ wordMax then integer else 0
  | _ => 0

def plus (value : Value) (amount : Int) : Value :=
  .number ((value.word + amount).bmod UInt64.size)

end Value
end TransactionalMemory
