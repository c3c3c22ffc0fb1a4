import Drayage.Data.Dict
import Drayage.Number.Binary64

/-!
# JSON data

A JSON value keeps the members of its objects in the order of the text, repetitions
included. What a reader finds unfit is part of the value too (`Fault`), so that a
fault counts only if somebody looks at it: a member that nobody asks for may hold
anything well formed.

`canonical` is the form of data that the program only passes on: members sorted by
name, the last of equal names kept.
-/

namespace Drayage

/-- A number: a natural number below `2 ^ 64`, the negative of one up to `2 ^ 63`, or a
double. -/
inductive Number where
  | natural (n : Nat)
  | negative (n : Nat)
  | real (x : Binary64)
  deriving DecidableEq, Inhabited

inductive Fault where
  /-- Well formed, but without a value: a string with half a surrogate pair, a number
  beyond the doubles, a value nested too deeply. -/
  | valueless
  /-- The same at the name of a member, where it cannot be passed over. -/
  | nameless
  /-- Here the text stops being JSON. -/
  | malformed
  deriving DecidableEq, Inhabited

inductive Json where
  | null
  | bool (b : Bool)
  | number (n : Number)
  | text (s : String)
  | list (items : List Json)
  | record (members : List (String × Json))
  | fault (f : Fault)
  deriving Inhabited

namespace Json

def nat (n : Nat) : Json := .number (.natural n)

mutual

def decEq : (a b : Json) → Decidable (a = b)
  | .null, .null => isTrue rfl
  | .bool a, .bool b => if h : a = b then isTrue (h ▸ rfl) else isFalse (by simp [h])
  | .number a, .number b => if h : a = b then isTrue (h ▸ rfl) else isFalse (by simp [h])
  | .text a, .text b => if h : a = b then isTrue (h ▸ rfl) else isFalse (by simp [h])
  | .list a, .list b => match decEqItems a b with
    | isTrue h => isTrue (h ▸ rfl)
    | isFalse h => isFalse (by simp [h])
  | .record a, .record b => match decEqMembers a b with
    | isTrue h => isTrue (h ▸ rfl)
    | isFalse h => isFalse (by simp [h])
  | .fault a, .fault b => if h : a = b then isTrue (h ▸ rfl) else isFalse (by simp [h])
  | .null, .bool _ | .null, .number _ | .null, .text _ | .null, .list _ | .null, .record _
  | .null, .fault _ => isFalse nofun
  | .bool _, .null | .bool _, .number _ | .bool _, .text _ | .bool _, .list _
  | .bool _, .record _ | .bool _, .fault _ => isFalse nofun
  | .number _, .null | .number _, .bool _ | .number _, .text _ | .number _, .list _
  | .number _, .record _ | .number _, .fault _ => isFalse nofun
  | .text _, .null | .text _, .bool _ | .text _, .number _ | .text _, .list _
  | .text _, .record _ | .text _, .fault _ => isFalse nofun
  | .list _, .null | .list _, .bool _ | .list _, .number _ | .list _, .text _
  | .list _, .record _ | .list _, .fault _ => isFalse nofun
  | .record _, .null | .record _, .bool _ | .record _, .number _ | .record _, .text _
  | .record _, .list _ | .record _, .fault _ => isFalse nofun
  | .fault _, .null | .fault _, .bool _ | .fault _, .number _ | .fault _, .text _
  | .fault _, .list _ | .fault _, .record _ => isFalse nofun

def decEqItems : (a b : List Json) → Decidable (a = b)
  | [], [] => isTrue rfl
  | [], _ :: _ => isFalse nofun
  | _ :: _, [] => isFalse nofun
  | a :: as, b :: bs => match decEq a b, decEqItems as bs with
    | isTrue h, isTrue k => isTrue (h ▸ k ▸ rfl)
    | isFalse h, _ => isFalse (by simp [h])
    | _, isFalse k => isFalse (by simp [k])

def decEqMembers : (a b : List (String × Json)) → Decidable (a = b)
  | [], [] => isTrue rfl
  | [], _ :: _ => isFalse nofun
  | _ :: _, [] => isFalse nofun
  | (j, a) :: as, (k, b) :: bs =>
    if h : j = k then
      match decEq a b, decEqMembers as bs with
      | isTrue h', isTrue k' => isTrue (by simp [h, h', k'])
      | isFalse h', _ => isFalse (by simp [h'])
      | _, isFalse k' => isFalse (by simp [k'])
    else isFalse (by simp [h])

end

instance : DecidableEq Json := decEq

mutual

/-- Nobody needs to look at a value that is well formed. -/
def wellFormed : Json → Bool
  | .fault .malformed => false
  | .list items => wellFormedItems items
  | .record members => wellFormedMembers members
  | _ => true

def wellFormedItems : List Json → Bool
  | [] => true
  | j :: js => j.wellFormed && wellFormedItems js

def wellFormedMembers : List (String × Json) → Bool
  | [] => true
  | (_, j) :: ms => j.wellFormed && wellFormedMembers ms

end

mutual

/-- A value with the members of its objects sorted by name, the last of equal names
kept, if it has no fault. -/
def canonical? : Json → Option Json
  | .null => some .null
  | .bool b => some (.bool b)
  | .number n => some (.number n)
  | .text s => some (.text s)
  | .list items => (canonicalItems? items).map .list
  | .record members =>
    (canonicalMembers? members).map fun ms => .record (Dict.ofList ms).entries
  | .fault _ => none

def canonicalItems? : List Json → Option (List Json)
  | [] => some []
  | j :: js => do
    let j ← j.canonical?
    let js ← canonicalItems? js
    return j :: js

def canonicalMembers? : List (String × Json) → Option (List (String × Json))
  | [] => some []
  | (name, j) :: ms => do
    let j ← j.canonical?
    let ms ← canonicalMembers? ms
    return (name, j) :: ms

end

/-- A member of an object, the last one with that name. -/
def member? (j : Json) (name : String) : Option Json :=
  match j with
  | .record members => (members.reverse.find? fun m => m.1 == name).map Prod.snd
  | _ => none

end Json

end Drayage
