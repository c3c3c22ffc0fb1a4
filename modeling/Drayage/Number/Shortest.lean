import Drayage.Number.Binary64

/-!
# Shortest decimals

The text of a double is the decimal with the fewest digits that reads back as it,
and the nearest of those. How the digits are then laid out, and which of two that are
equally near is taken, is up to the format.
-/

namespace Drayage.Binary64

/-- The decimal `digits * 10 ^ exponent`. -/
structure Decimal where
  digits : Nat
  exponent : Int
  deriving DecidableEq, Inhabited

/-- The decimals `k * 10 ^ e` next to `num / den` below and above, as the two values
of `k`. -/
def neighbours (num den : Nat) (e : Int) : Nat × Nat :=
  let k := match e with
    | .ofNat p => num / (den * 10 ^ p)
    | .negSucc p => num * 10 ^ (p + 1) / den
  (k, k + 1)

def ofDecimal (k : Nat) : Int → Binary64
  | .ofNat p => ofRatio (k * 10 ^ p) 1
  | .negSucc p => ofRatio k (10 ^ (p + 1))

/-- The distance of `k * 10 ^ e` from `num / den`, over a denominator that `k` does not
change. -/
def distance (num den k : Nat) : Int → Nat
  | .ofNat p => (Int.ofNat (k * 10 ^ p * den) - num).natAbs
  | .negSucc p => (Int.ofNat (k * den) - num * 10 ^ (p + 1)).natAbs

def Decimal.trim : Nat → Decimal → Decimal
  | 0, d => d
  | fuel + 1, d =>
    if d.digits ≠ 0 ∧ d.digits % 10 = 0 then trim fuel ⟨d.digits / 10, d.exponent + 1⟩ else d

/-- What is taken of two neighbours that are equally near. -/
inductive Tie where
  | even
  | upper
  deriving DecidableEq, Inhabited

def Tie.pick (tie : Tie) (k : Nat) : Nat :=
  match tie with
  | even => if k % 2 = 0 then k else k + 1
  | upper => k + 1

/-- On the grid of step `10 ^ e`, the decimal that reads back as `x`, the nearer one
if both neighbours do. -/
def onGrid (x : Binary64) (tie : Tie) (e : Int) : Option Decimal :=
  let (num, den) := x.ratio
  let (lo, hi) := neighbours num den e
  let back (k : Nat) : Bool := ofDecimal k e == x
  match back lo, back hi with
  | true, true =>
    let below := distance num den lo e
    let above := distance num den hi e
    some ⟨if below < above then lo else if above < below then hi else tie.pick lo, e⟩
  | true, false => some ⟨lo, e⟩
  | false, true => some ⟨hi, e⟩
  | false, false => none

/-- The exponent of ten of the leading digit of `num / den`, or one less. -/
def leadingExponent (num den : Nat) : Int :=
  if den ≤ num then Int.ofNat ((num / den).log2 * 30103 / 100000)
  else - Int.ofNat (((den / num).log2 + 1) * 30103 / 100000 + 1)

def searchGrids (x : Binary64) (tie : Tie) : Nat → Int → Decimal
  | 0, e => ⟨0, e⟩
  | fuel + 1, e =>
    match x.onGrid tie e with
    | some d => d
    | none => searchGrids x tie fuel (e - 1)

/-- The shortest decimal that reads back as the magnitude of a finite double. -/
def shortest (x : Binary64) (tie : Tie) : Decimal :=
  let x : Binary64 := if x.isNegative then x.negate else x
  if x.isZero then ⟨0, 0⟩
  else
    let (num, den) := x.ratio
    (searchGrids x tie 40 (leadingExponent num den + 2)).trim 400

end Drayage.Binary64
