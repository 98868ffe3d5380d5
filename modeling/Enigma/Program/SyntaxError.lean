import Enigma.Text.Blank
import Enigma.Token.Basic

/-!
# Program/SyntaxError — tokens that do not make a program

A `Mismatch` says why a token list is no program: a token stands where another kind was expected,
the tokens end too early, or a loop is left or resumed outside of any. A `SyntaxError` adds the line
of the source that it quotes, and `SyntaxError.report` shows that line with a caret under the place.
-/

namespace Enigma

/-- Why a list of tokens is no program. -/
inductive Mismatch
  | unexpected (found : Token) (expected : List TokenKind)
  | ended (expected : List TokenKind)
  | misplaced (found : Token)
deriving Repr, DecidableEq

/-- A mismatch with the line of source text where it is. -/
inductive SyntaxError
  | unexpectedToken (found : Token) (expected : List TokenKind) (codeLine : String)
  | unexpectedEnd (expected : List TokenKind) (line : Nat) (codeLine : String)
  | misplacedLoopControl (found : Token) (codeLine : String)
deriving Repr, DecidableEq

/-- The line of a source text with the given number, counted from one, without carriage returns at
its end; a line that does not exist is empty. -/
def codeLine (source : String) : Nat → String
  | 0 => ""
  | n + 1 =>
    match (source.toList.splitOn '\n')[n]? with
    | some line => String.ofList (Text.dropWhileEnd (· == '\r') line)
    | none => ""

namespace Mismatch

/-- The error that a mismatch is for a source text; input that ends too early ends on the line of
its last token. -/
def toSyntaxError (m : Mismatch) (source : String) (lastLine : Nat) : SyntaxError :=
  match m with
  | unexpected found expected => .unexpectedToken found expected (codeLine source found.line)
  | ended expected => .unexpectedEnd expected lastLine (codeLine source lastLine)
  | misplaced found => .misplacedLoopControl found (codeLine source found.line)

end Mismatch

namespace SyntaxError

/-- The token that does not fit, unless the input ended. -/
def found : SyntaxError → Option Token
  | unexpectedToken found _ _ => some found
  | unexpectedEnd _ _ _ => none
  | misplacedLoopControl found _ => some found

/-- The kinds that would have fitted. -/
def expected : SyntaxError → List TokenKind
  | unexpectedToken _ expected _ => expected
  | unexpectedEnd expected _ _ => expected
  | misplacedLoopControl _ _ => []

/-- The number of the line that is quoted. -/
def line : SyntaxError → Nat
  | unexpectedToken found _ _ => found.line
  | unexpectedEnd _ line _ => line
  | misplacedLoopControl found _ => found.line

/-- The column of the token that does not fit. -/
def column (e : SyntaxError) : Option Nat := e.found.map Token.column

/-- The line that is quoted. -/
def quoted : SyntaxError → String
  | unexpectedToken _ _ codeLine => codeLine
  | unexpectedEnd _ _ codeLine => codeLine
  | misplacedLoopControl _ codeLine => codeLine

/-- A token as it is named in messages. -/
def describe (t : Token) : String :=
  s!"{t.kind.label} '{t.text}' at line {t.line} col {t.column}"

/-- Kinds as they are named in messages. -/
def alternatives (kinds : List TokenKind) : String :=
  " or ".intercalate (kinds.map TokenKind.label)

/-- What is wrong, in one line. -/
def message : SyntaxError → String
  | unexpectedToken found expected _ =>
    "Expected token " ++ alternatives expected ++ ", but found " ++ describe found
  | unexpectedEnd expected _ _ =>
    "Unexpected end of input while expecting " ++ alternatives expected
  | misplacedLoopControl found _ => describe found ++ " is only allowed inside a loop"

/-- How far the caret is from the left edge: under the token, or behind the line if input ended. -/
def indent (e : SyntaxError) : Nat :=
  match e.column with
  | some column => column - 1
  | none => e.quoted.length

/-- The message with its line number, the quoted line, and a caret below it. -/
def report (e : SyntaxError) : String :=
  let caret := String.ofList (List.replicate e.indent ' ') ++ "^"
  s!"line {e.line}: " ++ e.message ++ "\n" ++ e.quoted ++ "\n" ++ caret

end SyntaxError

end Enigma
