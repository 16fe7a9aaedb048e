/-!
Non-negative numbers of the IEEE 754 format binary64, rounded from exact fractions.

A finite number is `m * 2 ^ e` with `m < 2 ^ 53` and `-1074 ≤ e ≤ 971`; its bits, read as a natural
number, are `(e + 1074) * 2 ^ 52 + m`, where a carry out of `m` moves into the exponent by itself.
-/

namespace ImpLang

/-- A power of two. -/
def pow2 (n : Nat) : Nat := Nat.pow 2 n

/-- A power of ten. -/
def pow10 (n : Nat) : Nat := Nat.pow 10 n

/-- A number of the format binary64, given by its bits. -/
structure Binary64 where
  bits : UInt64
deriving DecidableEq, Repr, Inhabited

namespace Binary64

/-- The bits of infinity as a natural number: every finite number has smaller ones. -/
def infinityBits : Nat := 2047 * pow2 52

def infinity : Binary64 := ⟨UInt64.ofNat infinityBits⟩

def zero : Binary64 := ⟨0⟩

def isInfinite (x : Binary64) : Bool := x.bits.toNat == infinityBits

/-- The quotient rounded to the nearest integer, a half to the even one. -/
def divHalfEven (num den : Nat) : Nat :=
  let q := num / den
  let r := num % den
  if 2 * r < den then q
  else if den < 2 * r then q + 1
  else if q % 2 = 0 then q else q + 1

/-- A fraction divided by a power of two, as a fraction. -/
def scaleDown (num den : Nat) (e : Int) : Nat × Nat :=
  if 0 ≤ e then (num, den * pow2 e.toNat) else (num * pow2 (-e).toNat, den)

/-- The binary exponent at which a positive fraction has 53 digits, or the least exponent of the
format if it has fewer even there. -/
def exponentOf (num den : Nat) : Int :=
  let e : Int := (num.log2 : Int) - (den.log2 : Int) - 53
  let (n, d) := scaleDown num den e
  let exact := if n / d < pow2 53 then e else e + 1
  if exact < -1074 then -1074 else exact

/-- The number nearest to a fraction, a half to the even neighbour; infinity from half a unit
beyond the largest finite number on. -/
def ofRatio (num den : Nat) : Binary64 :=
  if num = 0 then zero
  else
    let e := exponentOf num den
    let (n, d) := scaleDown num den e
    let bits := (e + 1074).toNat * pow2 52 + divHalfEven n d
    if bits < infinityBits then ⟨UInt64.ofNat bits⟩ else infinity

/-- The number nearest to a natural number. -/
def ofNat (n : Nat) : Binary64 := ofRatio n 1

/-- The number nearest to `m * 10 ^ e`. Beyond the decimal exponents ±330 the answer is infinity or
zero, whatever the digits are. -/
def ofDecimal (m : Nat) (e : Int) : Binary64 :=
  if m = 0 then zero
  else
    let point := ((Nat.toDigits 10 m).length : Int) + e
    if 330 < point then infinity
    else if point < -330 then zero
    else if 0 ≤ e then ofRatio (m * pow10 e.toNat) 1
    else ofRatio m (pow10 (-e).toNat)

/-- The integer and the binary exponent of a finite number: its value is their `m * 2 ^ e`. -/
def decode (x : Binary64) : Nat × Int :=
  let bits : Nat := x.bits.toNat
  let exponent : Nat := bits / pow2 52 % 2048
  let fraction : Nat := bits % pow2 52
  if exponent = 0 then (fraction, -1074)
  else (fraction + pow2 52, (exponent : Int) - 1075)

end Binary64

end ImpLang
