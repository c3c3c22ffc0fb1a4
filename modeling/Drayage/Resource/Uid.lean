import Drayage.Json.Codec

/-!
# Uids

A uid tells one instance of a resource from all others, also from one that had the
same key before. It is a 128-bit number, written in five groups of hexadecimal digits.
-/

namespace Drayage

/-- The identity of one instance of a resource. -/
structure Uid where
  value : Nat
  deriving DecidableEq, Inhabited

namespace Uid

def unset : Uid := ⟨0⟩

def isUnset (u : Uid) : Bool := u == unset

def digits : (count : Nat) → Nat → List Char
  | 0, _ => []
  | count + 1, n => digits count (n / 16) ++ [Nat.digitChar (n % 16)]

/-- Groups of 8, 4, 4, 4 and 12 digits. -/
def grouped (ds : List Char) : List Char :=
  ds.take 8 ++ '-' :: (ds.drop 8).take 4 ++ '-' :: (ds.drop 12).take 4
    ++ '-' :: (ds.drop 16).take 4 ++ '-' :: ds.drop 20

def text (u : Uid) : String := String.ofList (grouped (digits 32 u.value))

/-- A uid of the random kind: version 4 of its layout. -/
def isRandom (u : Uid) : Bool :=
  u.value / 16 ^ 19 % 16 == 4 && u.value / 16 ^ 15 % 16 / 4 == 2

def ofDigits? (ds : List Char) : Option Uid :=
  if ds.length = 32 then
    (ds.foldlM (fun n d => (Json.hexValue? d).map (n * 16 + ·)) 0).map Uid.mk
  else none

def ungrouped? (cs : List Char) : Option (List Char) :=
  let ds := cs.take 8 ++ (cs.drop 9).take 4 ++ (cs.drop 14).take 4 ++ (cs.drop 19).take 4
    ++ cs.drop 24
  if cs.length = 36 && cs[8]? == some '-' && cs[13]? == some '-' && cs[18]? == some '-'
      && cs[23]? == some '-' then some ds
  else none

/-- Reads 32 digits, or five groups of them, which may stand in braces or behind
`urn:uuid:`. -/
def parse? (s : String) : Option Uid :=
  let cs := s.toList
  if cs.length = 32 then ofDigits? cs
  else
    let inner := match cs with
      | '\x7b' :: rest => if rest.getLast? = some '\x7d' then rest.dropLast else cs
      | _ => (Text.dropLead? "urn:uuid:".toList cs).getD cs
    (ungrouped? inner).bind ofDigits?

def codec : Codec Uid where
  write u := .text u.text
  read
    | .text s => match parse? s with
      | some u => .ok u
      | none => .error (.notUid s)
    | .fault _ => .error .unreadable
    | j => .error (.wrongSort j "a formatted UUID string")

end Uid

end Drayage
