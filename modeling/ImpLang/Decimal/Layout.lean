import ImpLang.Decimal.Shortest

/-!
Written forms of decimal digits: positional within a band of magnitudes, scientific outside it.
-/

namespace ImpLang.Decimal

/-- The band of points that are written positionally, both ends included. -/
structure Layout where
  leastPoint : Int
  mostPoint : Int
deriving DecidableEq, Repr

namespace Layout

/-- Digits around a decimal point, with at least one digit on either side of it. -/
def positional (d : Digits) : List Char :=
  if d.point ≤ 0 then
    '0' :: '.' :: (List.replicate (-d.point).toNat '0' ++ d.digits)
  else
    let whole := d.point.toNat
    if d.digits.length ≤ whole then
      d.digits ++ List.replicate (whole - d.digits.length) '0' ++ ['.', '0']
    else
      d.digits.take whole ++ '.' :: d.digits.drop whole

/-- One digit before the point, the rest behind it, and the exponent. -/
def scientific (d : Digits) : List Char :=
  let mantissa := match d.digits with
    | [] => ['0']
    | [x] => [x]
    | x :: rest => x :: '.' :: rest
  mantissa ++ 'e' :: (toString (d.point - 1)).toList

/-- The written form of a number. Zero has a decimal point like any other small number. -/
def write (layout : Layout) (x : Binary64) : List Char :=
  if x.isInfinite then ['i', 'n', 'f']
  else
    let d := Digits.shortest x
    if d.digits = [] then ['0', '.', '0']
    else if layout.leastPoint ≤ d.point ∧ d.point ≤ layout.mostPoint then positional d
    else scientific d

end Layout

end ImpLang.Decimal
