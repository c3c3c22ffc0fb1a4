import Drayage.Number.Shortest

/-!
# Decimal texts of doubles

`parse?` reads a double in decimal notation as the nearest one; `positional` writes it
without an exponent, in the fewest digits that read back.
-/

namespace Drayage.Binary64

/-- Decimal exponents beyond which a number of `digits` digits is infinite or zero. -/
def exponentBound (digits : Nat) : Int := digits + 400

/-- The nearest double to `n * 10 ^ e`, where `n` has so many digits. -/
def ofDigits (n digits : Nat) (e : Int) : Binary64 :=
  if n = 0 then ⟨0⟩
  else if 400 < e then infinity
  else if e < -exponentBound digits then ⟨0⟩
  else ofDecimal n e

def digitsValue (ds : List Char) : Nat := ds.foldl (fun n d => n * 10 + (d.toNat - '0'.toNat)) 0

/-- An exponent, after its letter: digits with an optional sign, and nothing else. -/
def exponent? (cs : List Char) : Option Int :=
  let (negative, ds) := match cs with
    | '+' :: ds => (false, ds)
    | '-' :: ds => (true, ds)
    | ds => (false, ds)
  if ds.isEmpty || !ds.all Char.isDigit then none
  else
    let n : Int := digitsValue ds
    some (if negative then -n else n)

/-- Digits with an optional point among them and an optional exponent. -/
def unsigned? (cs : List Char) : Option Binary64 := do
  let whole := cs.takeWhile Char.isDigit
  let rest := cs.drop whole.length
  let (fraction, rest) := match rest with
    | '.' :: rest => (rest.takeWhile Char.isDigit, rest.dropWhile Char.isDigit)
    | rest => ([], rest)
  let e ← match rest with
    | [] => some 0
    | c :: cs => if c = 'e' ∨ c = 'E' then exponent? cs else none
  let digits := whole ++ fraction
  if digits.isEmpty then none
  else return ofDigits (digitsValue digits) digits.length (e - fraction.length)

def word? (cs : List Char) : Option Binary64 :=
  match String.ofList (cs.map Char.toLower) with
  | "inf" => some infinity
  | "infinity" => some infinity
  | "nan" => some nan
  | _ => none

def parse? (s : String) : Option Binary64 :=
  let (negative, cs) := match s.toList with
    | '+' :: cs => (false, cs)
    | '-' :: cs => (true, cs)
    | cs => (false, cs)
  ((word? cs).or (unsigned? cs)).map fun x => if negative then x.negate else x

/-- A double without an exponent. A whole number has no point. -/
def positional (x : Binary64) : String :=
  if x.isNaN then "NaN"
  else
    let sign := if x.isNegative then "-" else ""
    if x.isInfinite then sign ++ "inf"
    else
      let d := x.shortest .upper
      let ds := Nat.toDigits 10 d.digits
      let point : Int := ds.length + d.exponent
      sign ++ String.ofList (
        if d.digits = 0 then ['0']
        else if 0 ≤ d.exponent then ds ++ List.replicate d.exponent.toNat '0'
        else if 0 < point then ds.take point.toNat ++ '.' :: ds.drop point.toNat
        else "0.".toList ++ List.replicate (-point).toNat '0' ++ ds)

/-- The nearest integer, a half going away from zero. -/
def round (x : Binary64) : Int :=
  let (num, den) := x.ratio
  let n : Int := ((2 * num + den) / (2 * den) : Nat)
  if x.isNegative then -n else n

end Drayage.Binary64
