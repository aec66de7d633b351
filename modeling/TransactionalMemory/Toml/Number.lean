import TransactionalMemory.Toml.Text

/-! Numbers and points in time. Integers are signed 64-bit words. Of floats and of dates only the
form matters here; a float has to stay below the largest double. -/
namespace TransactionalMemory.Toml

/-- What a value is. Only integers are kept with their value, since nothing else is ever used. -/
inductive Literal where
  | integer (value : Int64)
  | float (written : String)
  | boolean (truth : Bool)
  | text (characters : String)
  | moment
  | array
  | inlineTable

/-- More digits of a number. A single underscore may stand between two digits. -/
def moreDigits (isDigit : Char → Bool) : List Char → Except Refusal (After (List Char))
  | '_' :: c :: rest =>
    if isDigit c then (moreDigits isDigit rest).map (push c)
    else Refusal.stop (c :: rest) "expected digit"
  | '_' :: [] => Refusal.stop [] "expected digit"
  | c :: rest =>
    if isDigit c then (moreDigits isDigit rest).map (push c) else .ok ([], c :: rest)
  | [] => .ok ([], [])

def digits (isDigit : Char → Bool) : List Char → Except Refusal (After (List Char))
  | c :: rest =>
    if isDigit c then (moreDigits isDigit rest).map (push c)
    else Refusal.stop (c :: rest) "expected digit"
  | [] => Refusal.stop [] "expected digit"

/-- A decimal integer without its sign; zero stands alone. -/
def decimal : List Char → Except Refusal (After (List Char))
  | '0' :: rest => .ok (['0'], rest)
  | rest => digits Char.isDigit rest

def numeral (base : Nat) (written : List Char) : Nat :=
  written.foldl (fun value c => value * base + (hexDigit? c).getD 0) 0

def wordLiteral (rest : List Char) (value : Int) : Except Refusal Literal :=
  if Int64.minValue.toInt ≤ value ∧ value ≤ Int64.maxValue.toInt then .ok (.integer (.ofInt value))
  else Refusal.stop rest "invalid integer"

def radix (base : Nat) (rest inner : List Char) : Except Refusal (After Literal) := do
  let (written, after) ← digits (fun c => (hexDigit? c).any (· < base)) inner
  return (← wordLiteral rest (numeral base written), after)

/-- The least number that rounds to no finite double. -/
def doubleLimit : Nat := 1 <<< 1024 - 1 <<< 970

/-- Whether `mantissa * 10 ^ exponent` is too large for a double. -/
def overflows (mantissa : Nat) (exponent : Int) : Bool :=
  let magnitude := (Nat.toDigits 10 mantissa).length + exponent
  if mantissa = 0 || magnitude < 308 then false
  else if 310 < magnitude then true
  else doubleLimit * Nat.pow 10 (-exponent).toNat ≤ mantissa * Nat.pow 10 exponent.toNat

def sign : List Char → Bool × List Char
  | '+' :: rest => (false, rest)
  | '-' :: rest => (true, rest)
  | rest => (false, rest)

def float (start : List Char) (negative : Bool) (whole rest : List Char) :
    Except Refusal (After Literal) := do
  let (fraction, rest) ← match rest with
    | '.' :: rest => digits Char.isDigit rest
    | _ => .ok ([], rest)
  let (exponent, rest) ← match rest with
    | c :: rest =>
      if c = 'e' || c = 'E' then do
        let (down, rest) := sign rest
        let (written, rest) ← digits Char.isDigit rest
        let size : Int := numeral 10 written
        .ok (if down then -size else size, rest)
      else .ok (0, c :: rest)
    | [] => .ok (0, [])
  if !negative && overflows (numeral 10 (whole ++ fraction)) (exponent - fraction.length) then
    Refusal.stop start "invalid floating-point number"
  else return (.float (String.ofList (start.take (start.length - rest.length))), rest)

def decimalNumber (start : List Char) : Except Refusal (After Literal) := do
  let (negative, unsigned) := sign start
  match unsigned with
  | 'i' :: 'n' :: 'f' :: rest => return (.float "inf", rest)
  | 'n' :: 'a' :: 'n' :: rest => return (.float "nan", rest)
  | _ =>
    let (whole, rest) ← decimal unsigned
    match rest with
    | '.' :: _ | 'e' :: _ | 'E' :: _ => float start negative whole rest
    | _ =>
      let size : Int := numeral 10 whole
      return (← wordLiteral start (if negative then -size else size), rest)

def field (count low high : Nat) (rest : List Char) : Except Refusal (After Nat) :=
  let written := (rest.take count).takeWhile Char.isDigit
  let value := numeral 10 written
  if written.length = count && low ≤ value && value ≤ high then .ok (value, rest.drop count)
  else Refusal.stop rest "invalid date-time"

def mark (c : Char) : List Char → Except Refusal (After Unit)
  | found :: rest =>
    if found = c then .ok ((), rest) else Refusal.stop (found :: rest) "invalid date-time"
  | [] => Refusal.stop [] "invalid date-time"

def monthLength (year month : Nat) : Nat :=
  if month = 2 then
    if year % 4 = 0 && (year % 100 ≠ 0 || year % 400 = 0) then 29 else 28
  else if month ∈ [4, 6, 9, 11] then 30
  else 31

def date (rest : List Char) : Except Refusal (After Unit) := do
  let (year, rest) ← field 4 0 9999 rest
  let (_, rest) ← mark '-' rest
  let (month, rest) ← field 2 1 12 rest
  let (_, rest) ← mark '-' rest
  let (_, rest) ← field 2 1 (monthLength year month) rest
  return ((), rest)

/-- Hours, minutes and seconds, the last of which may be a leap second. -/
def time (rest : List Char) : Except Refusal (After Unit) := do
  let (_, rest) ← field 2 0 23 rest
  let (_, rest) ← mark ':' rest
  let (_, rest) ← field 2 0 59 rest
  let (_, rest) ← mark ':' rest
  let (_, rest) ← field 2 0 60 rest
  match rest with
  | '.' :: c :: more =>
    if c.isDigit then return ((), more.dropWhile Char.isDigit) else return ((), rest)
  | _ => return ((), rest)

def offset (rest : List Char) : Except Refusal (After Unit) :=
  match rest with
  | 'Z' :: after => .ok ((), after)
  | 'z' :: after => .ok ((), after)
  | '+' :: after => zone after
  | '-' :: after => zone after
  | _ => .ok ((), rest)
where
  zone (after : List Char) : Except Refusal (After Unit) := do
    let (_, rest) ← field 2 0 23 after
    let (_, rest) ← mark ':' rest
    let (_, rest) ← field 2 0 59 rest
    return ((), rest)

def startsTime : List Char → Bool
  | a :: b :: ':' :: _ => a.isDigit && b.isDigit
  | _ => false

def startsDate : List Char → Bool
  | a :: b :: c :: d :: '-' :: _ => a.isDigit && b.isDigit && c.isDigit && d.isDigit
  | _ => false

/-- A date, which a time may follow after a `T` or a blank. -/
def dateTime (rest : List Char) : Except Refusal (After Unit) := do
  let (_, rest) ← date rest
  match rest with
  | c :: more =>
    if (c = 'T' || c = 't' || c = ' ') && startsTime more then do
      let (_, rest) ← time more
      offset rest
    else return ((), rest)
  | [] => return ((), [])

def number (rest : List Char) : Except Refusal (After Literal) :=
  if startsDate rest then (dateTime rest).map fun found => (.moment, found.2)
  else if startsTime rest then (time rest).map fun found => (.moment, found.2)
  else match rest with
    | '0' :: 'x' :: inner => radix 16 rest inner
    | '0' :: 'o' :: inner => radix 8 rest inner
    | '0' :: 'b' :: inner => radix 2 rest inner
    | _ => decimalNumber rest

end TransactionalMemory.Toml
