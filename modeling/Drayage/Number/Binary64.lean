import Drayage.Number.Power

/-!
# Double-precision numbers

A double is its 64 bits. Every operation the library needs is exact arithmetic on
natural numbers followed by one rounding: `ofRatio` takes the nearest double of a
quotient, ties going to the even neighbour.
-/

namespace Drayage

/-- A double-precision number, given by its bits: sign, 11 bits of exponent, 52 of
fraction. -/
structure Binary64 where
  bits : UInt64
  deriving DecidableEq, Inhabited

namespace Binary64

def isNegative (x : Binary64) : Bool := x.bits ≥ 0x8000000000000000

def exponentField (x : Binary64) : Nat := (x.bits.toNat / 2 ^ 52) % 2 ^ 11

def fractionField (x : Binary64) : Nat := x.bits.toNat % 2 ^ 52

def isFinite (x : Binary64) : Bool := x.exponentField < 2047

def isInfinite (x : Binary64) : Bool := x.exponentField == 2047 && x.fractionField == 0

def isNaN (x : Binary64) : Bool := x.exponentField == 2047 && x.fractionField != 0

/-- A finite double is `mantissa * 2 ^ (shift - 1074)`, apart from its sign. -/
def mantissa (x : Binary64) : Nat :=
  if x.exponentField = 0 then x.fractionField else 2 ^ 52 + x.fractionField

def shift (x : Binary64) : Nat := x.exponentField - 1

def isZero (x : Binary64) : Bool := x.exponentField == 0 && x.fractionField == 0

def negate (x : Binary64) : Binary64 := ⟨x.bits ^^^ 0x8000000000000000⟩

def infinity : Binary64 := ⟨0x7ff0000000000000⟩

def nan : Binary64 := ⟨0x7ff8000000000000⟩

/-- The quotient rounded to the nearest integer, a half going to the even one. -/
def roundedQuotient (num den : Nat) : Nat :=
  let q := num / den
  let r := 2 * (num % den)
  if r < den then q
  else if den < r then q + 1
  else if q % 2 = 0 then q else q + 1

/-- The double with a given magnitude `m * 2 ^ (s - 1074)`, where `m` is at most
`2 ^ 53` and at least `2 ^ 52` unless `s = 0`. -/
def assemble (m s : Nat) : Binary64 :=
  if m < 2 ^ 52 then ⟨UInt64.ofNat m⟩
  else
    let (m, s) := if m = 2 ^ 53 then (2 ^ 52, s + 1) else (m, s)
    if 2046 ≤ s then infinity else ⟨UInt64.ofNat ((s + 1) * 2 ^ 52 + (m - 2 ^ 52))⟩

/-- The nearest double to `num / den`, for `den` other than zero. -/
def ofRatio (num den : Nat) : Binary64 :=
  if num = 0 then ⟨0⟩
  else
    -- `num * 2 ^ 1074 / den` counts the smallest positive doubles in the quotient.
    let units := num * 2 ^ 1074 / den
    let s := units.log2 - 52
    assemble (roundedQuotient (num * 2 ^ 1074) (den * 2 ^ s)) s

def ofNat (n : Nat) : Binary64 := ofRatio n 1

def ratio (x : Binary64) : Nat × Nat := (x.mantissa * 2 ^ x.shift, 2 ^ 1074)

def times (x y : Binary64) : Binary64 :=
  let (a, b) := x.ratio
  let (c, d) := y.ratio
  ofRatio (a * c) (b * d)

def dividedBy (x y : Binary64) : Binary64 :=
  let (a, b) := x.ratio
  let (c, d) := y.ratio
  ofRatio (a * d) (b * c)

end Binary64

end Drayage
