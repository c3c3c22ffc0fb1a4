import Drayage.Json.Basic
import Drayage.Number.Shortest
import Drayage.Text.Quoted

/-!
# JSON text

The compact text of a JSON value: no blanks, members in the order of the value,
numbers in the shortest form that reads back.
-/

namespace Drayage.Json

def escapeChar (c : Char) : List Char :=
  if c = '"' then ['\\', '"']
  else if c = '\\' then ['\\', '\\']
  else if c = '\x08' then ['\\', 'b']
  else if c = '\x0c' then ['\\', 'f']
  else if c = '\n' then ['\\', 'n']
  else if c = '\r' then ['\\', 'r']
  else if c = '\t' then ['\\', 't']
  else if c.toNat < 0x20 then
    ['\\', 'u', '0', '0', Nat.digitChar (c.toNat / 16), Nat.digitChar (c.toNat % 16)]
  else [c]

def printText (cs : List Char) : List Char := '"' :: cs.flatMap escapeChar ++ ['"']

/-- A double in decimal notation. Between `1e-5` and `1e16` the digits are written
positionally and a whole number keeps its point and a zero; elsewhere there is an
exponent. Of two decimals that are equally near, the even one is written. Values that are
no numbers are written `null`. -/
def printReal (x : Binary64) : List Char :=
  if !x.isFinite then "null".toList
  else
    let d := x.shortest .even
    let ds := Nat.toDigits 10 d.digits
    let sign := if x.isNegative then ['-'] else []
    -- The number of digits before the point.
    let point : Int := ds.length + d.exponent
    sign ++
      if d.digits = 0 then "0.0".toList
      else if 0 ≤ d.exponent ∧ point ≤ 16 then
        ds ++ List.replicate d.exponent.toNat '0' ++ ".0".toList
      else if 0 < point ∧ point ≤ 16 then
        ds.take point.toNat ++ ['.'] ++ ds.drop point.toNat
      else if -5 < point ∧ point ≤ 0 then
        "0.".toList ++ List.replicate (-point).toNat '0' ++ ds
      else
        let tail := match ds.drop 1 with
          | [] => []
          | rest => '.' :: rest
        let e := point - 1
        ds.take 1 ++ tail ++ ['e'] ++ (if e < 0 then ['-'] else [])
          ++ Nat.toDigits 10 e.natAbs

def printNumber : Number → List Char
  | .natural n => Nat.toDigits 10 n
  | .negative n => '-' :: Nat.toDigits 10 n
  | .real x => printReal x

mutual

def print : Json → List Char
  | .null => "null".toList
  | .bool true => "true".toList
  | .bool false => "false".toList
  | .number n => printNumber n
  | .text s => printText s.toList
  | .list items => '[' :: printItems items ++ [']']
  | .record members => '{' :: printMembers members ++ ['}']
  | .fault _ => []

def printItems : List Json → List Char
  | [] => []
  | [j] => j.print
  | j :: k :: rest => j.print ++ ',' :: printItems (k :: rest)

def printMembers : List (String × Json) → List Char
  | [] => []
  | [(name, j)] => printText name.toList ++ ':' :: j.print
  | (name, j) :: m :: rest =>
    printText name.toList ++ ':' :: (j.print ++ ',' :: printMembers (m :: rest))

end

def compact (j : Json) : String := String.ofList j.print

end Drayage.Json
