import ImpLang.Decimal.Binary64

/-!
The fewest decimal digits that read back as a given binary64 number.

The reals that round to a number form an interval around it, ends included when its integer is
even. For one digit, two digits, and so on, the two neighbours of the number on the grid with that
many digits are tested: the first grid with a neighbour in the interval wins, of two neighbours the
nearer, and the upper one if both are equally near.
-/

namespace ImpLang.Decimal

/-- A decimal number `0.ddd * 10 ^ point`; the digits have no zero at either end, and none stand
for zero. -/
structure Digits where
  digits : List Char
  point : Int
deriving DecidableEq, Repr, Inhabited

/-- The reals that round to one number: all have the denominator `den`. -/
structure Interval where
  low : Nat
  value : Nat
  high : Nat
  den : Nat
  closed : Bool
deriving DecidableEq, Repr

namespace Interval

/-- Half the gap to either neighbour; below a power of two the gap is half as wide. -/
def of (x : Binary64) : Interval :=
  let (m, e) := x.decode
  let below := if m = pow2 52 ∧ -1074 < e then 1 else 2
  let up := pow2 (e - 2).toNat
  { low := (4 * m - below) * up
    value := 4 * m * up
    high := (4 * m + 2) * up
    den := pow2 (2 - e).toNat
    closed := m % 2 = 0 }

/-- Where the decimal point stands, counted from the front of the first digit:
`10 ^ (point - 1) ≤ value < 10 ^ point`. -/
def point (i : Interval) : Int :=
  let guess : Int := ((Nat.toDigits 10 i.value).length : Int) - (Nat.toDigits 10 i.den).length
  if i.den * pow10 guess.toNat ≤ i.value * pow10 (-guess).toNat then guess + 1 else guess

/-- Whether `n * 10 ^ g` lies in the interval. -/
def holds (i : Interval) (g : Int) (n : Nat) : Bool :=
  let x := n * pow10 g.toNat * i.den
  let low := i.low * pow10 (-g).toNat
  let high := i.high * pow10 (-g).toNat
  if i.closed then low ≤ x && x ≤ high else low < x && x < high

/-- The neighbour on the grid of multiples of `10 ^ g` that lies in the interval, the nearer one of
two. -/
def neighbour? (i : Interval) (g : Int) : Option Nat :=
  let num := i.value * pow10 (-g).toNat
  let den := i.den * pow10 g.toNat
  let n := num / den
  match i.holds g n, i.holds g (n + 1) with
  | true, true => some (if 2 * (num % den) < den then n else n + 1)
  | true, false => some n
  | false, true => some (n + 1)
  | false, false => none

/-- Try grids with more and more digits, beginning with `count`. -/
def shortestFrom (i : Interval) (point : Int) : Nat → Nat → Nat × Int
  | 0, count => (i.value / i.den, point - count)
  | tries + 1, count =>
    match i.neighbour? (point - count) with
    | some n => (n, point - count)
    | none => shortestFrom i point tries (count + 1)

end Interval

/-- The digits of `n * 10 ^ g` without the zeros at their end. -/
def Digits.ofScaled (n : Nat) (g : Int) : Digits :=
  let digits := Nat.toDigits 10 n
  { digits := (digits.reverse.dropWhile (· == '0')).reverse
    point := (digits.length : Int) + g }

/-- The shortest digits of a finite number. Seventeen are enough for any. -/
def Digits.shortest (x : Binary64) : Digits :=
  if x = Binary64.zero then ⟨[], 0⟩
  else
    let i := Interval.of x
    let (n, g) := i.shortestFrom i.point 17 1
    Digits.ofScaled n g

end ImpLang.Decimal
