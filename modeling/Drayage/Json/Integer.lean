import Drayage.Json.Reader

/-!
# Integers in other formats

Other formats than JSON write integers with either sign and in several bases, and hold
them in 64 bits with a sign.
-/

namespace Drayage.Number

def sign (cs : List Char) : Bool × List Char :=
  match cs with
  | '+' :: cs => (false, cs)
  | '-' :: cs => (true, cs)
  | cs => (false, cs)

def digitIn? (base : Nat) (c : Char) : Option Nat := (Json.hexValue? c).filter (· < base)

def naturalIn? (base : Nat) (cs : List Char) : Option Nat :=
  if cs.isEmpty then none
  else cs.foldlM (fun n c => (digitIn? base c).map (n * base + ·)) 0

def integer (minus : Bool) (n : Nat) : Number :=
  if minus && n ≠ 0 then .negative n else .natural n

def integer? (minus : Bool) (n : Nat) : Option Number :=
  if if minus then n ≤ 2 ^ 63 else n < 2 ^ 63 then some (integer minus n) else none

/-- An integer in some base, with an optional sign. -/
def integerIn? (base : Nat) (cs : List Char) : Option Number :=
  let (minus, ds) := sign cs
  (naturalIn? base ds).bind (integer? minus)

end Drayage.Number
