import Enigma.Number.Real
import Enigma.Program.Expr
import Enigma.Text.Blank

/-!
# Symbol/Value — data types, and the values known before a program runs

Variables are integers, reals, strings or booleans. A literal has a value unless it is a numeral
that neither a 64-bit integer nor a real can be read from. Numbers can be added; an integer sum that
does not fit is not known.
-/

namespace Enigma

/-- The data types. -/
inductive DataType
  | integer
  | real
  | string
  | boolean
deriving Repr, DecidableEq

namespace DataType

/-- A data type as it is written. -/
def name : DataType → String
  | integer => "enum"
  | real => "efl"
  | string => "estr"
  | boolean => "ebool"

/-- The data type with the given name. -/
def ofName? (s : String) : Option DataType :=
  [integer, real, string, boolean].find? (·.name == s)

theorem ofName?_name (t : DataType) : ofName? t.name = some t := by cases t <;> decide

end DataType

/-- A value known before the program runs. -/
inductive Value
  | int (n : Int64)
  | real (x : Float)
  | str (s : String)
  | bool (b : Bool)
deriving DecidableEq

namespace Value

/-- The value of a literal: integers are tried before reals, and a string loses its quotes. -/
def ofLiteral? : LiteralKind → String → Option Value
  | .number, text =>
    match Number.int64? text with
    | some n => some (int n)
    | none => (Number.real? text).map real
  | .string, text => some (str (Text.unquoted text))
  | .boolean, text => some (bool (text == "yup"))

/-- The sum of two numbers; it is real if one of them is. -/
def add? : Value → Value → Option Value
  | int a, int b => (Number.addChecked? a b).map int
  | int a, real b => some (real (Float.ofInt a.toInt + b))
  | real a, int b => some (real (a + Float.ofInt b.toInt))
  | real a, real b => some (real (a + b))
  | _, _ => none

/-- A value as it is shown; strings are shown in quotes. -/
def text : Value → String
  | int n => Number.int64Text n
  | real x => Number.realText x
  | str s => "\"" ++ s ++ "\""
  | bool true => "yup"
  | bool false => "nah"

end Value

end Enigma
