/-!
# Number/Integer — whole numbers in text and in 64 bits

Integers of the language are 64-bit and signed. A numeral is a run of ASCII digits, with an optional
sign where signs are allowed; one that does not fit is no numeral at all. Sums come in two kinds:
the checked one of constants and the wrapping one of the machine.

* `int64?` — reads a signed numeral; `address?` — reads an address, unsigned and below 2^32;
* `addChecked?` — the sum, if it fits.
-/

namespace Enigma.Number

/-- The value of a run of ASCII digits. -/
def digitsValue (ds : List Char) : Nat :=
  ds.foldl (fun n c => 10 * n + (c.toNat - '0'.toNat)) 0

/-- A nonempty run of ASCII digits, read as a natural number. -/
def natural? (s : List Char) : Option Nat :=
  if !s.isEmpty && s.all Char.isDigit then some (digitsValue s) else none

/-- Takes an optional sign off the front; the flag says that it was a minus. -/
def splitSign : List Char → Bool × List Char
  | '-' :: s => (true, s)
  | '+' :: s => (false, s)
  | s => (false, s)

/-- The integer as a 64-bit one, if it fits. -/
def toInt64? (n : Int) : Option Int64 :=
  if Int64.minValue.toInt ≤ n ∧ n ≤ Int64.maxValue.toInt then some (Int64.ofInt n) else none

/-- Reads a numeral with an optional sign as a 64-bit integer. -/
def int64? (s : String) : Option Int64 :=
  let (negative, digits) := splitSign s.toList
  (natural? digits).bind fun n => toInt64? (if negative then -(n : Int) else n)

/-- One more than the largest address. -/
def addressLimit : Nat := 0x100000000

/-- Reads a numeral with an optional plus as an address. -/
def address? (s : List Char) : Option Nat :=
  let digits := match s with
    | '+' :: s => s
    | s => s
  (natural? digits).filter (· < addressLimit)

/-- The sum of two 64-bit integers, if it fits. -/
def addChecked? (a b : Int64) : Option Int64 := toInt64? (a.toInt + b.toInt)

/-- Decimal text of a 64-bit integer. -/
def int64Text (n : Int64) : String := toString n.toInt

end Enigma.Number
