import Drayage.Json.Codec
import Drayage.Json.Integer
import Drayage.Number.Decimal
import Drayage.Text.Lowercase

/-!
# Values of settings

A setting is taken for what is wanted as far as that makes sense: a text may stand for a
number, a number for a truth value, and so on. `Scalars.lenient` are the codecs that do so.
-/

namespace Drayage.Settings

def ofText (s : String) : Json :=
  match Text.lowercase s with
  | "true" => .bool true
  | "false" => .bool false
  | _ =>
    match Number.integerIn? 10 s.toList with
    | some n => .number n
    | none =>
      match Binary64.parse? s with
      | some x => .number (.real x)
      | none => .text s

/-- Integers have 64 bits with a sign, and those beyond are doubles. -/
def narrow : Number → Number
  | .natural n => if n < 2 ^ 63 then .natural n else .real (.ofNat n)
  | n => n

def bool? : Json → Option Bool
  | .bool b => some b
  | .number (.natural n) => some (n ≠ 0)
  | .number (.negative _) => some true
  | .number (.real x) => some !x.isZero
  | .text s =>
    match Text.lowercase s with
    | "1" | "true" | "on" | "yes" => some true
    | "0" | "false" | "off" | "no" => some false
    | _ => none
  | _ => none

/-- The nearest natural number below `2 ^ 64`. -/
def nearest (x : Binary64) : Nat := if x.isNaN then 0 else Nat.min x.round.toNat (2 ^ 64 - 1)

/-- A natural number below `2 ^ 64` in decimal digits, with an optional plus sign. -/
def natural? (s : String) : Option Nat :=
  let ds := match s.toList with
    | '+' :: ds => ds
    | ds => ds
  (Number.naturalIn? 10 ds).filter (· < 2 ^ 64)

def nat64? : Json → Option Nat
  | .bool b => some b.toNat
  | .number n =>
    match narrow n with
    | .natural n => some n
    | .negative _ => none
    | .real x => some (nearest x)
  | .text s =>
    match Text.lowercase s with
    | "true" | "on" | "yes" => some 1
    | "false" | "off" | "no" => some 0
    | _ => natural? s
  | _ => none

def text? : Json → Option String
  | .text s => some s
  | .bool b => some (if b then "true" else "false")
  | .number n =>
    match narrow n with
    | .natural n => some (toString n)
    | .negative n => some ("-" ++ toString n)
    | .real x => some x.positional
  | _ => none

/-- Reads a value another way than it is written. -/
def lenient {α : Type} (c : Codec α) (read? : Json → Option α) (wanted : String) :
    Codec α where
  write := c.write
  read j := match read? j with
    | some a => .ok a
    | none => .error (.wrongSort j wanted)

def scalars : Scalars where
  text := lenient .text text? "a string"
  bool := lenient .bool bool? "a boolean"
  nat64 := lenient .nat64 nat64? "u64"

/-- A section may also list its values in their order; those left over do not count. -/
def sectionOf {α : Type} (width : Nat) (c : Codec α) : Codec α where
  write := c.write
  read
    | .list js => c.read (.list (js.take width))
    | j => c.read j

end Drayage.Settings
