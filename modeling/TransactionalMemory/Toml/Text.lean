import TransactionalMemory.Toml.Refusal

/-! The lexical ground of TOML: blanks, line ends, comments, the four kinds of strings, and keys. -/
namespace TransactionalMemory.Toml

def isBlank (c : Char) : Bool :=
  c = ' ' || c = '\t'

def isPrintable (c : Char) : Bool :=
  c = '\t' || (' ' ≤ c && c ≠ '\x7f')

def isBareKey (c : Char) : Bool :=
  c.isAlphanum || c = '_' || c = '-'

def skipBlanks (rest : List Char) : List Char :=
  rest.dropWhile isBlank

/-- What follows a line end; a carriage return counts only in front of a line feed. -/
def afterNewline? : List Char → Option (List Char)
  | '\n' :: rest => some rest
  | '\r' :: '\n' :: rest => some rest
  | _ => none

def skipComment : List Char → List Char
  | '#' :: rest => rest.dropWhile isPrintable
  | rest => rest

/-- The end of a line that already holds something: blanks, a comment, and then nothing more. -/
def lineEnd (rest : List Char) : Except Refusal (After Unit) :=
  match skipComment (skipBlanks rest) with
  | [] => .ok ((), [])
  | found =>
    match afterNewline? found with
    | some next => .ok ((), next)
    | none => Refusal.stop found "expected newline, `#`"

/-- Skips blanks, line ends and comments, as they may stand between the items of an array. -/
def skipVoid : (comment : Bool) → List Char → List Char
  | _, '\n' :: rest => skipVoid false rest
  | _, '\r' :: '\n' :: rest => skipVoid false rest
  | true, c :: rest => if isPrintable c then skipVoid true rest else c :: rest
  | false, c :: rest =>
    if isBlank c then skipVoid false rest
    else if c = '#' then skipVoid true rest
    else c :: rest
  | _, [] => []

def hexDigit? (c : Char) : Option Nat :=
  if c.isDigit then some (c.toNat - '0'.toNat)
  else if 'a' ≤ c && c ≤ 'f' then some (c.toNat - 'a'.toNat + 10)
  else if 'A' ≤ c && c ≤ 'F' then some (c.toNat - 'A'.toNat + 10)
  else none

def scalar? (digits : List Char) : Option Char := do
  let number ← digits.foldlM (fun value c => return value * 16 + (← hexDigit? c)) 0
  if number.isValidChar then some (Char.ofNat number) else none

def escape (rest : List Char) : Except Refusal (After Char) :=
  let coded (count : Nat) (after : List Char) : Except Refusal (After Char) :=
    match scalar? (after.take count) with
    | some c =>
      if count ≤ after.length then .ok (c, after.drop count)
      else Refusal.stop after "invalid unicode sequence"
    | none => Refusal.stop after "invalid unicode sequence"
  match rest with
  | 'b' :: after => .ok ('\x08', after)
  | 't' :: after => .ok ('\t', after)
  | 'n' :: after => .ok ('\n', after)
  | 'f' :: after => .ok ('\x0c', after)
  | 'r' :: after => .ok ('\r', after)
  | '"' :: after => .ok ('"', after)
  | '\\' :: after => .ok ('\\', after)
  | 'u' :: after => coded 4 after
  | 'U' :: after => coded 8 after
  | _ => Refusal.stop rest
    "invalid escape sequence\nexpected `b`, `f`, `n`, `r`, `t`, `u`, `U`, `\\`, `\"`"

def push (c : Char) (found : List Char × List Char) : List Char × List Char :=
  (c :: found.1, found.2)

def basic : (fuel : Nat) → List Char → Except Refusal (After (List Char))
  | _, '"' :: rest => .ok ([], rest)
  | fuel + 1, '\\' :: rest => do
    let (c, rest) ← escape rest
    return push c (← basic fuel rest)
  | fuel + 1, c :: rest =>
    if isPrintable c then (basic fuel rest).map (push c)
    else Refusal.stop (c :: rest) "invalid basic string"
  | _, rest => Refusal.stop rest "invalid basic string"

/-- The rest of a string in single quotes, which knows no escapes. -/
def literal : List Char → Except Refusal (After (List Char))
  | [] => Refusal.stop [] "invalid literal string"
  | c :: rest =>
    if c = '\'' then .ok ([], rest)
    else if isPrintable c then (literal rest).map (push c)
    else Refusal.stop (c :: rest) "invalid literal string"

/-- The end of a string in triple quotes, which may have up to two quotes of its own in front. -/
def closing (quote : Char) (rest : List Char) : List Char × List Char :=
  let extra := min 2 (rest.takeWhile (· = quote)).length
  (List.replicate extra quote, rest.drop extra)

/-- The rest of a string in three double quotes. A backslash at the end of a line takes away all
space up to the next visible character; `trimming` tells that this is going on. -/
def multilineBasic : (fuel : Nat) → (trimming : Bool) → List Char →
    Except Refusal (After (List Char))
  | _, _, '"' :: '"' :: '"' :: rest => .ok (closing '"' rest)
  | fuel + 1, _, '\\' :: rest =>
    if (afterNewline? (skipBlanks rest)).isSome then multilineBasic fuel true (skipBlanks rest)
    else do
      let (c, rest) ← escape rest
      return push c (← multilineBasic fuel false rest)
  | fuel + 1, trimming, c :: rest =>
    match afterNewline? (c :: rest) with
    | some next =>
      if trimming then multilineBasic fuel true next
      else (multilineBasic fuel false next).map (push '\n')
    | none =>
      if trimming && isBlank c then multilineBasic fuel true rest
      else if isPrintable c then (multilineBasic fuel false rest).map (push c)
      else Refusal.stop (c :: rest) "invalid multiline basic string"
  | _, _, rest => Refusal.stop rest "invalid multiline basic string"

def multilineLiteral : (fuel : Nat) → List Char → Except Refusal (After (List Char))
  | _, '\'' :: '\'' :: '\'' :: rest => .ok (closing '\'' rest)
  | fuel + 1, c :: rest =>
    match afterNewline? (c :: rest) with
    | some next => (multilineLiteral fuel next).map (push '\n')
    | none =>
      if isPrintable c then (multilineLiteral fuel rest).map (push c)
      else Refusal.stop (c :: rest) "invalid multiline literal string"
  | _, rest => Refusal.stop rest "invalid multiline literal string"

/-- A line end right after the opening quotes does not belong to the string. -/
def afterOpening (rest : List Char) : List Char :=
  (afterNewline? rest).getD rest

def quoted (rest : List Char) : Except Refusal (After (List Char)) :=
  match rest with
  | '"' :: '"' :: '"' :: inner => multilineBasic inner.length false (afterOpening inner)
  | '\'' :: '\'' :: '\'' :: inner => multilineLiteral inner.length (afterOpening inner)
  | '"' :: inner => basic inner.length inner
  | '\'' :: inner => literal inner
  | _ => Refusal.stop rest "invalid string\nexpected `\"`, `'`"

def simpleKey (rest : List Char) : Except Refusal (After String) :=
  match rest with
  | '"' :: inner => (basic inner.length inner).map fun found => (String.ofList found.1, found.2)
  | '\'' :: inner => (literal inner).map fun found => (String.ofList found.1, found.2)
  | _ =>
    match rest.takeWhile isBareKey with
    | [] => Refusal.stop rest "invalid key"
    | name => .ok (String.ofList name, rest.dropWhile isBareKey)

/-- The parts of a key, which points separate; blanks may stand around each of them. -/
def keyParts : (fuel : Nat) → List Char → Except Refusal (After (List String))
  | 0, rest => Refusal.stop rest "invalid key"
  | fuel + 1, rest => do
    let (name, rest) ← simpleKey (skipBlanks rest)
    match skipBlanks rest with
    | '.' :: more =>
      let (names, rest) ← keyParts fuel more
      return (name :: names, rest)
    | after => return ([name], after)

/-- No key may have as many parts as this, and no value may be nested as deep. -/
def depthLimit : Nat := 80

def key (rest : List Char) : Except Refusal (After (List String)) := do
  let (names, after) ← keyParts (rest.length + 1) rest
  if names.length < depthLimit then return (names, after)
  else Refusal.stop rest "recursion limit exceeded"

end TransactionalMemory.Toml
