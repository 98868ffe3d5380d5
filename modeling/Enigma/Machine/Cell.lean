import Enigma.Number.Real

/-!
# Machine/Cell — what a register or a cell of memory holds

An integer of 64 bits, a real or a string. Integers add with wrap-around, a real makes the sum real,
strings are put one behind the other, and nothing else can be added. What was never written is zero.
-/

namespace Enigma

inductive Cell
  | int (n : Int64)
  | real (x : Float)
  | str (s : String)
deriving DecidableEq

namespace Cell

/-- What was never written. -/
def zero : Cell := int 0

instance : Inhabited Cell := ⟨zero⟩

/-- The sum, if there is one. -/
def add? : Cell → Cell → Option Cell
  | int a, int b => some (int (a + b))
  | int a, real b => some (real (Float.ofInt a.toInt + b))
  | real a, int b => some (real (a + Float.ofInt b.toInt))
  | real a, real b => some (real (a + b))
  | str a, str b => some (str (a ++ b))
  | _, _ => none

/-- A cell as it is shown. -/
def text : Cell → String
  | int n => Number.int64Text n
  | real x => Number.realText x
  | str s => s

end Cell

end Enigma
