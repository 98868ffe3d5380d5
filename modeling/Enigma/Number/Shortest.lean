/-!
# Number/Shortest — the fewest decimal digits that name a binary number

A positive number m · 2^q of a binary format stands for an interval of reals: those nearer to it
than to its two neighbours, the ends included when m is even. Its shortest decimal is the point c ·
10^p of the coarsest decimal grid that has a point in that interval; of two such points the nearer
one is taken, and the upper one if they are equally near. All arithmetic is exact, on natural
numbers.
-/

namespace Enigma.Number

/-- A decimal c · 10^p. -/
structure Decimal where
  coefficient : Nat
  exponent : Int
deriving Repr, DecidableEq

/-- An interval around a number, all three in units of 2^`exponent`. -/
structure Interval where
  low : Nat
  middle : Nat
  high : Nat
  exponent : Int
  /-- Whether the two ends belong to it. -/
  closed : Bool
deriving Repr

namespace Interval

/-- The reals that round to m · 2^q. Below the least m of a binade the gap is half as wide
(`narrow`). Quarters of the unit make every end a natural number. -/
def around (m : Nat) (q : Int) (narrow : Bool) : Interval where
  low := if narrow then 4 * m - 1 else 4 * m - 2
  middle := 4 * m
  high := 4 * m + 2
  exponent := q - 2
  closed := m % 2 == 0

/-- The factor that takes the interval's numbers to whole numbers on the grid of 10^p. -/
def scale (i : Interval) (p : Int) : Nat :=
  Nat.pow 2 i.exponent.toNat * Nat.pow 10 (-p).toNat

/-- What one step of the grid of 10^p is after scaling. -/
def unit (i : Interval) (p : Int) : Nat :=
  Nat.pow 2 (-i.exponent).toNat * Nat.pow 10 p.toNat

/-- Whether the point c of the grid of 10^p lies in the interval. -/
def holds (i : Interval) (p : Int) (c : Nat) : Bool :=
  let x := c * i.unit p
  if i.closed then i.low * i.scale p ≤ x && x ≤ i.high * i.scale p
  else i.low * i.scale p < x && x < i.high * i.scale p

/-- The point of the grid of 10^p in the interval that is nearest to its middle, if there is one; a
tie goes up. -/
def gridPoint? (i : Interval) (p : Int) : Option Nat :=
  let c := i.middle * i.scale p / i.unit p
  match i.holds p c, i.holds p (c + 1) with
  | true, true =>
    if 2 * (i.middle * i.scale p) < (2 * c + 1) * i.unit p then some c else some (c + 1)
  | true, false => some c
  | false, true => some (c + 1)
  | false, false => none

/-- The point of the coarsest grid that meets the interval, looking at `count` grids down from
10^`top`. -/
def shortest? (i : Interval) (top : Int) (count : Nat) : Option Decimal :=
  (List.range count).findSome? fun (k : Nat) =>
    (i.gridPoint? (top - k)).map fun c => ⟨c, top - k⟩

end Interval

namespace Decimal

/-- The decimal in positional form: zeros fill it on the right, or stand behind the point. -/
def positional (d : Decimal) : String :=
  let digits := Nat.toDigits 10 d.coefficient
  if 0 ≤ d.exponent then String.ofList (digits ++ List.replicate d.exponent.toNat '0')
  else
    let places := (-d.exponent).toNat
    let padded := List.replicate (places + 1 - digits.length) '0' ++ digits
    let whole := padded.length - places
    String.ofList (padded.take whole ++ '.' :: padded.drop whole)

end Decimal

end Enigma.Number
