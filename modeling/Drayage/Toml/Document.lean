import Drayage.Toml.Scalar
import Drayage.Toml.Table

/-!
# TOML documents

A document is a list of sections, each of which has a header and values; the first section
has none and fills the document itself. `Toml.read?` gives the value of a document.
-/

namespace Drayage.Toml

/-- What follows a comment, the line break included. -/
def afterComment? (cs : List Char) : Option (List Char) :=
  match cs.dropWhile isPlain with
  | [] => some []
  | rest => afterBreak? rest

/-- What follows the end of a line; a comment may stand before it. -/
def afterLine? (cs : List Char) : Option (List Char) :=
  match skipGap cs with
  | [] => some []
  | '#' :: cs => afterComment? cs
  | cs => afterBreak? cs

def skipBetween : (fuel : Nat) → List Char → Option (List Char)
  | 0, _ => none
  | fuel + 1, cs =>
    match skipGap cs with
    | '#' :: cs => do skipBetween fuel (← afterComment? cs)
    | cs =>
      match afterBreak? cs with
      | some cs => skipBetween fuel cs
      | none => some cs

def depthLimit : Nat := 79

mutual

/-- One value, which may hold `depth` more levels of others. The fuel bounds the length of
the text. -/
def value? : (fuel : Nat) → (depth : Nat) → List Char → Option (Json × List Char)
  | 0, _, _ => none
  | fuel + 1, depth, cs =>
    match cs with
    | '"' :: _ | '\'' :: _ => (text? cs).map fun r => (.text r.1, r.2)
    | '[' :: cs =>
      if depth = 0 then none
      else (items? fuel (depth - 1) cs).map fun r => (.list r.1, r.2)
    | '\x7b' :: cs =>
      if depth = 0 then none
      else match skipGap cs with
        | '\x7d' :: cs => some (.record [], cs)
        | cs => do
          let (pairs, rest) ← pairs? fuel (depth - 1) cs
          return (.record (memberValues (← Members.fill pairs [])), rest)
    | cs => do
      let (w, rest) := word cs
      return (← scalar? w, rest)

/-- The items of a list; a comma may follow the last one. -/
def items? : (fuel : Nat) → (depth : Nat) → List Char → Option (List Json × List Char)
  | 0, _, _ => none
  | fuel + 1, depth, cs => do
    match ← skipBetween (cs.length + 1) cs with
    | ']' :: rest => return ([], rest)
    | cs =>
      let (j, rest) ← value? fuel depth cs
      match ← skipBetween (rest.length + 1) rest with
      | ']' :: rest => return ([j], rest)
      | ',' :: rest =>
        let (js, rest) ← items? fuel depth rest
        return (j :: js, rest)
      | _ => none

def pairs? : (fuel : Nat) → (depth : Nat) → List Char →
    Option (List (List String × String × Json) × List Char)
  | 0, _, _ => none
  | fuel + 1, depth, cs => do
    let (parents, name, rest) ← key? cs
    let (j, rest) ← value? fuel depth (skipGap (← expect? '=' rest))
    match skipGap rest with
    | '\x7d' :: rest => return ([(parents, name, j)], rest)
    | ',' :: rest =>
      let (pairs, rest) ← pairs? fuel depth rest
      return ((parents, name, j) :: pairs, rest)
    | _ => none

end

inductive Line where
  | pair (parents : List String) (name : String) (value : Json)
  | table (parents : List String) (name : String)
  | element (parents : List String) (name : String)

def line : List Char → Option (Line × List Char)
  | '[' :: '[' :: cs => do
    let (parents, name, rest) ← key? cs
    return (.element parents name, ← expect? ']' (← expect? ']' rest))
  | '[' :: cs => do
    let (parents, name, rest) ← key? cs
    return (.table parents name, ← expect? ']' rest)
  | cs => do
    let (parents, name, rest) ← key? cs
    let cs := skipGap (← expect? '=' rest)
    let (j, rest) ← value? (2 * cs.length + 2) depthLimit cs
    return (.pair parents name j, rest)

def lines : (fuel : Nat) → List Char → Option (List Line)
  | 0, _ => none
  | fuel + 1, cs => do
    match ← skipBetween (cs.length + 1) cs with
    | [] => return []
    | cs =>
      let (l, rest) ← line cs
      return l :: (← lines fuel (← afterLine? rest))

/-- Values up to the next header, and the lines from it on. -/
def pairsFirst : List Line → List (List String × String × Json) × List Line
  | .pair parents name j :: ls =>
    let (pairs, ls) := pairsFirst ls
    ((parents, name, j) :: pairs, ls)
  | ls => ([], ls)

def sections : (fuel : Nat) → List Line → Members → Option Members
  | 0, _, _ => none
  | fuel + 1, ls, ms =>
    match ls with
    | [] => some ms
    | .pair .. :: _ =>
      let (pairs, ls) := pairsFirst ls
      do sections fuel ls (← Members.fill pairs ms)
    | .table parents name :: ls =>
      let (pairs, ls) := pairsFirst ls
      do sections fuel ls (← Members.reach (Members.openTable pairs name) parents ms)
    | .element parents name :: ls =>
      let (pairs, ls) := pairsFirst ls
      do sections fuel ls (← Members.reach (Members.openElement pairs name) parents ms)

def read? (s : String) : Option Json := do
  let cs := match s.toList with
    | '\ufeff' :: cs => cs
    | cs => cs
  let ls ← lines (cs.length + 1) cs
  return .record (memberValues (← sections (ls.length + 1) ls []))

end Drayage.Toml
