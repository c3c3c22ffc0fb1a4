import Drayage.Json.Basic

/-!
# Reading JSON

`Json.read` turns a text into a value and tells whether anything but blanks follows it.
It never fails: what cannot be read becomes a fault in its place.
-/

namespace Drayage.Json

/-- What is left of a text after a part of it, or nothing where the text is malformed. -/
abbrev Rest := Option (List Char)

def isSpace (c : Char) : Bool := c = ' ' || c = '\n' || c = '\t' || c = '\r'

def skipSpace (cs : List Char) : List Char := cs.dropWhile isSpace

def hexValue? (c : Char) : Option Nat :=
  if '0' ≤ c ∧ c ≤ '9' then some (c.toNat - '0'.toNat)
  else if 'a' ≤ c ∧ c ≤ 'f' then some (c.toNat - 'a'.toNat + 10)
  else if 'A' ≤ c ∧ c ≤ 'F' then some (c.toNat - 'A'.toNat + 10)
  else none

def hex4? (a b c d : Char) : Option Nat := do
  return (((← hexValue? a) * 16 + (← hexValue? b)) * 16 + (← hexValue? c)) * 16 + (← hexValue? d)

/-- A piece of a string: a character, or a 16-bit unit written as an escape. -/
inductive Piece where
  | char (c : Char)
  | unit (u : Nat)

def shortEscape? (c : Char) : Option Char :=
  if c = '"' then some '"'
  else if c = '\\' then some '\\'
  else if c = '/' then some '/'
  else if c = 'b' then some '\x08'
  else if c = 'f' then some '\x0c'
  else if c = 'n' then some '\n'
  else if c = 'r' then some '\r'
  else if c = 't' then some '\t'
  else none

/-- The pieces of a string up to its closing quote. -/
def scanText : List Char → Option (List Piece × List Char)
  | [] => none
  | '"' :: cs => some ([], cs)
  | '\\' :: 'u' :: a :: b :: c :: d :: cs => do
    let u ← hex4? a b c d
    let (ps, rest) ← scanText cs
    return (.unit u :: ps, rest)
  | '\\' :: e :: cs => do
    let c ← shortEscape? e
    let (ps, rest) ← scanText cs
    return (.char c :: ps, rest)
  | c :: cs =>
    if c.toNat < 0x20 then none
    else if c = '\\' then none
    else do
      let (ps, rest) ← scanText cs
      return (.char c :: ps, rest)

/-- The characters of a string: two units form a surrogate pair, and half a pair is no
character. -/
def joinPieces : List Piece → Option (List Char)
  | [] => some []
  | .char c :: ps => (joinPieces ps).map (c :: ·)
  | .unit u :: .unit v :: ps =>
    if 0xd800 ≤ u ∧ u < 0xdc00 then
      if 0xdc00 ≤ v ∧ v < 0xe000 then
        (joinPieces ps).map
          (Char.ofNat (0x10000 + (u - 0xd800) * 0x400 + (v - 0xdc00)) :: ·)
      else none
    else if 0xdc00 ≤ u ∧ u < 0xe000 then none
    else (joinPieces (.unit v :: ps)).map (Char.ofNat u :: ·)
  | .unit u :: ps =>
    if 0xd800 ≤ u ∧ u < 0xe000 then none else (joinPieces ps).map (Char.ofNat u :: ·)

def digitValue (c : Char) : Nat := c.toNat - '0'.toNat

def isDigit (c : Char) : Bool := '0' ≤ c && c ≤ '9'

/-- The significant part of a number: the digits as a natural number as long as they stay
below `2 ^ 64`, and how many digits were left out. -/
def gather (n : Nat) : List Char → Nat × Nat
  | [] => (n, 0)
  | d :: ds =>
    if n * 10 + digitValue d < 2 ^ 64 then gather (n * 10 + digitValue d) ds
    else (n, ds.length + 1)

def exponentLimit : Nat := 2 ^ 31 - 1

/-- The double `n * 10 ^ e`, reached by one rounded multiplication or division with a power
of ten; very small numbers take several divisions. No value if it is too large. -/
def scale (n : Nat) : Nat → Int → Option Binary64
  | 0, _ => none
  | fuel + 1, e => go fuel (Binary64.ofNat n) e
where
  go : Nat → Binary64 → Int → Option Binary64
  | fuel, f, e =>
    if e.natAbs ≤ 308 then
      let p := Binary64.ofNat (10 ^ e.natAbs)
      if 0 ≤ e then
        let g := f.times p
        if g.isInfinite then none else some g
      else some (f.dividedBy p)
    else if f.isZero then some f
    else if 0 ≤ e then none
    else match fuel with
      | 0 => some ⟨0⟩
      | fuel + 1 => go fuel (f.dividedBy (Binary64.ofNat (10 ^ 308))) (e + 308)

def signed (negative : Bool) (x : Binary64) : Binary64 := if negative then x.negate else x

/-- A number with a point or an exponent, or with more digits than fit. -/
def realNumber (negative : Bool) (n : Nat) (e : Int) : Json :=
  match scale n 8 e with
  | some x => .number (.real (signed negative x))
  | none => .fault .valueless

/-- A whole number. Zero with a sign and negatives beyond `2 ^ 63` are doubles. -/
def wholeNumber (negative : Bool) (n : Nat) : Json :=
  if !negative then .number (.natural n)
  else if n = 0 ∨ 2 ^ 63 < n then .number (.real (Binary64.ofNat n).negate)
  else .number (.negative n)

/-- The exponent of a number, from the character after the `e` on: its sign and size. -/
def readExponent (cs : List Char) : Option (Bool × Nat × List Char) :=
  let (negative, cs) := match cs with
    | '+' :: cs => (false, cs)
    | '-' :: cs => (true, cs)
    | cs => (false, cs)
  match cs.takeWhile isDigit with
  | [] => none
  | ds => some (negative, ds.foldl (fun n d => n * 10 + digitValue d) 0, cs.dropWhile isDigit)

def withExponent (negative : Bool) (n : Nat) (e : Int) (cs : List Char) : Json × Rest :=
  let mark := match cs with
    | c :: _ => c = 'e' || c = 'E'
    | [] => false
  if !mark then (realNumber negative n e, some cs)
  else match readExponent (cs.drop 1) with
    | none => (.fault .malformed, none)
    | some (down, k, rest) =>
      if exponentLimit < k then
        if n ≠ 0 && !down then (.fault .valueless, some rest)
        else (.number (.real (signed negative ⟨0⟩)), some rest)
      else (realNumber negative n (if down then e - k else e + k), some rest)

def readNumber (negative : Bool) (cs : List Char) : Json × Rest :=
  let whole := cs.takeWhile isDigit
  let rest := cs.dropWhile isDigit
  match whole with
  | [] => (.fault .malformed, none)
  | '0' :: _ :: _ => (.fault .malformed, none)
  | whole =>
    let (n, left) := gather 0 whole
    match rest with
    | '.' :: rest =>
      match rest.takeWhile isDigit with
      | [] => (.fault .malformed, none)
      | places =>
        let (m, cut) := gather n places
        let kept := places.length - cut
        withExponent negative m ((left : Int) - kept) (rest.dropWhile isDigit)
    | c :: _ =>
      if c = 'e' || c = 'E' then withExponent negative n left rest
      else (if left = 0 then wholeNumber negative n else realNumber negative n left, some rest)
    | [] =>
      (if left = 0 then wholeNumber negative n else realNumber negative n left, some rest)

def readText (cs : List Char) : Json × Rest :=
  match scanText cs with
  | none => (.fault .malformed, none)
  | some (ps, rest) =>
    match joinPieces ps with
    | some cs => (.text (String.ofList cs), some rest)
    | none => (.fault .valueless, some rest)

def depthLimit : Nat := 127

/-- An array or object that is nested too deeply has no value. -/
def enclose (depth : Nat) (j : Json) (after : Rest) : Json :=
  if depth < depthLimit then j
  else if after.isSome then .fault .valueless else .fault .malformed

mutual

/-- One value, inside `depth` arrays and objects. The fuel bounds the length of the text. -/
def readValue : (fuel : Nat) → (depth : Nat) → List Char → Json × Rest
  | 0, _, _ => (.fault .malformed, none)
  | fuel + 1, depth, cs =>
    match skipSpace cs with
    | 'n' :: 'u' :: 'l' :: 'l' :: rest => (.null, some rest)
    | 't' :: 'r' :: 'u' :: 'e' :: rest => (.bool true, some rest)
    | 'f' :: 'a' :: 'l' :: 's' :: 'e' :: rest => (.bool false, some rest)
    | '"' :: rest => readText rest
    | '-' :: rest => readNumber true rest
    | '[' :: rest =>
      let (items, after) := match skipSpace rest with
        | ']' :: rest => ([], some rest)
        | rest => readItems fuel (depth + 1) rest
      (enclose depth (.list items) after, after)
    | '\x7b' :: rest =>
      let (members, after) := match skipSpace rest with
        | '\x7d' :: rest => ([], some rest)
        | rest => readMembers fuel (depth + 1) rest
      (enclose depth (.record members) after, after)
    | rest => readNumber false rest

def readItems : (fuel : Nat) → (depth : Nat) → List Char → List Json × Rest
  | 0, _, _ => ([.fault .malformed], none)
  | fuel + 1, depth, cs =>
    match readValue fuel depth cs with
    | (j, none) => ([j], none)
    | (j, some rest) =>
      match skipSpace rest with
      | ']' :: rest => ([j], some rest)
      | ',' :: rest =>
        let (js, after) := readItems fuel depth rest
        (j :: js, after)
      | _ => ([j, .fault .malformed], none)

def readMembers : (fuel : Nat) → (depth : Nat) → List Char → List (String × Json) × Rest
  | 0, _, _ => ([("", .fault .malformed)], none)
  | fuel + 1, depth, cs =>
    match skipSpace cs with
    | '"' :: rest =>
      match readText rest with
      | (.text name, some rest) =>
        match skipSpace rest with
        | ':' :: rest =>
          match readValue fuel depth rest with
          | (j, none) => ([(name, j)], none)
          | (j, some rest) =>
            let (ms, after) := readMore fuel depth rest
            ((name, j) :: ms, after)
        | _ => ([(name, .fault .malformed)], none)
      | (_, some rest) =>
        -- The name stands for no text; the rest is read for its form alone.
        match skipSpace rest with
        | ':' :: rest =>
          match readValue fuel depth rest with
          | (_, none) => ([("", .fault .malformed)], none)
          | (j, some rest) =>
            let (ms, after) := readMore fuel depth rest
            (("", if j.wellFormed then .fault .nameless else .fault .malformed) :: ms, after)
        | _ => ([("", .fault .malformed)], none)
      | (_, none) => ([("", .fault .malformed)], none)
    | _ => ([("", .fault .malformed)], none)

/-- What follows a member: the end of the object, or a comma and more members. -/
def readMore : (fuel : Nat) → (depth : Nat) → List Char → List (String × Json) × Rest
  | 0, _, _ => ([("", .fault .malformed)], none)
  | fuel + 1, depth, cs =>
    match skipSpace cs with
    | '\x7d' :: rest => ([], some rest)
    | ',' :: rest => readMembers fuel depth rest
    | _ => ([("", .fault .malformed)], none)

end

/-- The value of a text, and whether nothing but blanks follows it. -/
def read (s : String) : Json × Bool :=
  let cs := s.toList
  let (j, rest) := readValue (3 * cs.length + 3) 0 cs
  (j, match rest with
    | some rest => (skipSpace rest).isEmpty
    | none => false)

end Drayage.Json
