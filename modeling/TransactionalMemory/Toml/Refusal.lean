/-! Why a TOML document is refused, and where: the place is kept as the number of characters that
were left to read. The rendered form shows the line and marks the characters at fault. -/
namespace TransactionalMemory.Toml

structure Refusal where
  left : Nat
  width : Nat
  message : String

abbrev After (α : Type) := α × List Char

namespace Refusal

def stop {α : Type} (rest : List Char) (message : String) : Except Refusal α :=
  .error ⟨rest.length, 1, message⟩

/-- The number of the line and the column, both from zero, and the text of the line. A place after
the last character lies one column further than it. -/
def locate (text : List Char) (offset : Nat) : Nat × Nat × List Char :=
  let inner := min offset (text.length - 1)
  let before := text.take inner
  let column := (before.reverse.takeWhile (· ≠ '\n')).length
  let line := (text.drop (inner - column)).takeWhile (· ≠ '\n')
  (before.count '\n', column + (offset - inner), line)

def render (text : List Char) (refusal : Refusal) : String :=
  let (line, column, content) := locate text (text.length - refusal.left)
  let number := toString (line + 1)
  let margin := "".pushn ' ' (number.length + 1) ++ "|"
  let width := max 1 (min refusal.width (content.length - column))
  s!"TOML parse error at line {number}, column {column + 1}\n"
    ++ margin ++ "\n"
    ++ number ++ " | " ++ String.ofList content ++ "\n"
    ++ margin ++ "".pushn ' ' (column + 1) ++ "".pushn '^' width ++ "\n"
    ++ refusal.message ++ "\n"

end Refusal
end TransactionalMemory.Toml
