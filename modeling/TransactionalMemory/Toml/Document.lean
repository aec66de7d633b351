import TransactionalMemory.Toml.Tree

/-! Whole TOML documents: values, lines and headers, read into the table of the document. -/
namespace TransactionalMemory.Toml

def startsNumber (c : Char) : Bool :=
  c = '+' || c = '-' || c.isDigit

def invalidString : String :=
  "invalid string\nexpected `\"`, `'`"

def word (rest : List Char) : Except Refusal (After Literal) :=
  match rest with
  | 't' :: 'r' :: 'u' :: 'e' :: after => .ok (.boolean true, after)
  | 'f' :: 'a' :: 'l' :: 's' :: 'e' :: after => .ok (.boolean false, after)
  | 'i' :: 'n' :: 'f' :: after => .ok (.float "inf", after)
  | 'n' :: 'a' :: 'n' :: after => .ok (.float "nan", after)
  | '_' :: _ | '.' :: _ => Refusal.stop rest "expected leading digit"
  | _ => Refusal.stop rest invalidString

def equalsSign (rest : List Char) : Except Refusal (After Unit) :=
  match rest with
  | '=' :: after => .ok ((), after)
  | _ => Refusal.stop rest "expected `.`, `=`"

mutual

def value : (fuel depth : Nat) → List Char → Except Refusal (After Literal)
  | 0, _, rest => Refusal.stop rest invalidString
  | fuel + 1, depth, rest =>
    match rest with
    | '[' :: inner =>
      if depth + 1 < depthLimit then
        (arrayItems fuel (depth + 1) inner).map fun found => (.array, found.2)
      else Refusal.stop rest "recursion limit exceeded"
    | '\x7b' :: inner =>
      if depth + 1 < depthLimit then
        match skipBlanks inner with
        | '\x7d' :: after => .ok (.inlineTable, after)
        | after => (inlinePairs fuel (depth + 1) [] after).map fun found => (.inlineTable, found.2)
      else Refusal.stop rest "recursion limit exceeded"
    | '"' :: _ | '\'' :: _ =>
      (quoted rest).map fun found => (.text (String.ofList found.1), found.2)
    | c :: _ => if startsNumber c then number rest else word rest
    | [] => word rest

/-- The items of an array up to its bracket; a comma may stand after the last one. -/
def arrayItems : (fuel depth : Nat) → List Char → Except Refusal (After Unit)
  | 0, _, rest => Refusal.stop rest "invalid array\nexpected `]`"
  | fuel + 1, depth, rest =>
    match skipVoid false rest with
    | ']' :: after => .ok ((), after)
    | start => do
      let (_, rest) ← value fuel depth start
      match skipVoid false rest with
      | ']' :: after => return ((), after)
      | ',' :: more => arrayItems fuel depth more
      | other => Refusal.stop other "invalid array\nexpected `]`"

/-- The entries of a table in braces, on one line and without a comma after the last one. -/
def inlinePairs : (fuel depth : Nat) → Table → List Char → Except Refusal (After Unit)
  | 0, _, _, rest => Refusal.stop rest "invalid inline table\nexpected `\x7d`"
  | fuel + 1, depth, table, rest => do
    let (path, afterKey) ← key rest
    let (_, afterSign) ← equalsSign afterKey
    let start := skipBlanks afterSign
    let (literal, after) ← value fuel depth start
    match table.assign path (.value ⟨start.length, after.length⟩ literal) with
    | .error name => Refusal.stop rest s!"duplicate key `{name}`"
    | .ok table =>
      match skipBlanks after with
      | '\x7d' :: after => return ((), after)
      | ',' :: more => inlinePairs fuel depth table more
      | other => Refusal.stop other "invalid inline table\nexpected `\x7d`"

end

/-- What has been read of a document: its table, and the header that is in force. -/
structure Progress where
  table : Table
  header : List String

def tableName (header : List String) : String :=
  if header.isEmpty then "document root" else "table `" ++ ".".intercalate header ++ "`"

def duplicate {α : Type} (rest : List Char) (name place : String) : Except Refusal α :=
  Refusal.stop rest s!"duplicate key `{name}` in {place}"

def assignment (progress : Progress) (rest : List Char) : Except Refusal (After Progress) := do
  let (path, afterKey) ← key rest
  let (_, afterSign) ← equalsSign afterKey
  let start := skipBlanks afterSign
  let (literal, after) ← value (start.length + 1) 0 start
  let (_, next) ← lineEnd after
  match progress.table.assignUnder progress.header path
      (.value ⟨start.length, after.length⟩ literal) with
  | .ok table => return ({progress with table}, next)
  | .error name => duplicate rest name (tableName progress.header)

def headerLine (progress : Progress) (rest : List Char) : Except Refusal (After Progress) := do
  match rest with
  | '[' :: '[' :: inner =>
    let (path, after) ← key inner
    match after with
    | ']' :: ']' :: after =>
      let (_, next) ← lineEnd after
      match progress.table.append path with
      | .ok table => return (⟨table, path⟩, next)
      | .error name => duplicate rest name (tableName path.dropLast)
    | other => Refusal.stop other "invalid table header\nexpected `.`, `]]`"
  | _ =>
    let (path, after) ← key (rest.drop 1)
    match after with
    | ']' :: after =>
      let (_, next) ← lineEnd after
      match progress.table.begin path with
      | .ok table => return (⟨table, path⟩, next)
      | .error name => duplicate rest name (tableName path.dropLast)
    | other => Refusal.stop other "invalid table header\nexpected `.`, `]`"

def lines : (fuel : Nat) → Progress → List Char → Except Refusal Table
  | 0, progress, _ => .ok progress.table
  | fuel + 1, progress, rest =>
    match skipBlanks rest with
    | [] => .ok progress.table
    | '[' :: inner => do
      let (progress, next) ← headerLine progress ('[' :: inner)
      lines fuel progress next
    | '#' :: inner => do
      let (_, next) ← lineEnd ('#' :: inner)
      lines fuel progress next
    | start =>
      match afterNewline? start with
      | some next => lines fuel progress next
      | none => do
        let (progress, next) ← assignment progress start
        lines fuel progress next

/-- Reads a whole document. A byte order mark may stand in front of it. -/
def parse (text : List Char) : Except Refusal Table :=
  let start := match text with
    | '\uFEFF' :: rest => rest
    | _ => text
  lines (start.length + 1) ⟨[], []⟩ start

end TransactionalMemory.Toml
