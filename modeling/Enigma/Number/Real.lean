import Enigma.Number.Integer
import Enigma.Number.Shortest

/-!
# Number/Real — reading and writing binary64 numbers

Reading takes a sign, digits with an optional point and an optional exponent, or one of the words
for infinity and not-a-number in any case; the nearest number is taken. Writing is always
positional: the fewest digits that read back, no point on whole numbers, a sign on negative zero.
-/

namespace Enigma.Number

/-- Positive infinity. -/
def infinity : Float := Float.ofBits 0x7FF0000000000000

/-- The number that is not one. -/
def notANumber : Float := Float.ofBits 0x7FF8000000000000

/-- Reads the exponent that may follow the digits: a mark, an optional sign and digits. -/
def exponent? : List Char → Option Int
  | [] => some 0
  | c :: s =>
    if c == 'e' || c == 'E' then
      let (negative, digits) := splitSign s
      (natural? digits).map fun n => if negative then -(n : Int) else n
    else none

/-- Reads digits with an optional point, on either side of which digits may be missing, and an
optional exponent. -/
def decimal? (s : List Char) : Option Decimal :=
  let whole := s.takeWhile Char.isDigit
  let rest := s.dropWhile Char.isDigit
  let (fraction, rest) := match rest with
    | '.' :: t => (t.takeWhile Char.isDigit, t.dropWhile Char.isDigit)
    | t => ([], t)
  if whole.isEmpty && fraction.isEmpty then none
  else (exponent? rest).map fun e => ⟨digitsValue (whole ++ fraction), e - fraction.length⟩

/-- The binary64 number nearest to a decimal. Decimals far beyond the format's range are settled by
their size, so that no huge power of ten is ever formed. -/
def Decimal.toFloat (d : Decimal) : Float :=
  let size : Int := (Nat.toDigits 10 d.coefficient).length + d.exponent
  if d.coefficient == 0 || size < -400 then 0
  else if 400 < size then infinity
  else Float.ofScientific d.coefficient (d.exponent < 0) d.exponent.natAbs

/-- Reads a number without its sign. -/
def magnitude? (s : List Char) : Option Float :=
  match decimal? s with
  | some d => some d.toFloat
  | none =>
    let word := String.ofList (s.map Char.toLower)
    if word == "inf" || word == "infinity" then some infinity
    else if word == "nan" then some notANumber
    else none

/-- Reads a binary64 number. -/
def real? (s : String) : Option Float :=
  let (negative, digits) := splitSign s.toList
  (magnitude? digits).map fun x => if negative then -x else x

/-- The bit above the fraction that every number has but the smallest ones. -/
def hiddenBit : Nat := 0x10000000000000

/-- The digits of a positive finite number, from its exponent field and fraction. The number is
below 2^(q + 53), so no grid above the one of `top` has a point near it; seventeen digits always do.
-/
def digitsText (field fraction : Nat) : String :=
  let m := if field == 0 then fraction else hiddenBit + fraction
  let q : Int := max field 1 - 1075
  let narrow := fraction == 0 && decide (1 < field)
  let top := (q + 54) * 30103 / 100000 + 2
  match (Interval.around m q narrow).shortest? top 25 with
  | some d => d.positional
  | none => "0"

/-- Positional text of a binary64 number, with the fewest digits that read back. -/
def realText (x : Float) : String :=
  let bits := x.toBits.toNat
  let sign := if bits / (2048 * hiddenBit) == 1 then "-" else ""
  let field := bits / hiddenBit % 2048
  let fraction := bits % hiddenBit
  if field == 2047 then
    if fraction == 0 then sign ++ "inf" else "NaN"
  else if field == 0 && fraction == 0 then sign ++ "0"
  else sign ++ digitsText field fraction

end Enigma.Number
