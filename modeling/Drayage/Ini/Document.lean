import Drayage.Json.Reader
import Drayage.Text.Blank

/-!
# INI documents

Texts stand under names, most of them in sections with a name in brackets. A text ends with
its line; in front it may have parts in quotes. `Ini.read?` gives the value of a document.
-/

namespace Drayage.Ini

def escaped : Char → Char
  | '0' => '\x00'
  | 'a' => '\x07'
  | 'b' => '\x08'
  | 't' => '\t'
  | 'r' => '\r'
  | 'n' => '\n'
  | c => c

def code? (a b c d : Char) : Option Char := do
  let n ← Json.hex4? a b c d
  if n.isValidChar then return Char.ofNat n else none

/-- A text before a character that ends it, and what follows from there on. Only some texts
may end with the document (`last`). A line break after a backslash does not count. -/
def upTo? (ends : Char → Bool) (last : Bool) : List Char → Option (List Char × List Char)
  | [] => if last then some ([], []) else none
  | '\\' :: 'x' :: cs =>
    match cs with
    | a :: b :: c :: d :: cs => do
      let (text, rest) ← upTo? ends last cs
      return ((← code? a b c d) :: text, rest)
    | _ => none
  | '\\' :: '\n' :: cs => upTo? ends last cs
  | '\\' :: c :: cs => (upTo? ends last cs).map fun r => (escaped c :: r.1, r.2)
  | ['\\'] => none
  | c :: cs =>
    if ends c then some ([], c :: cs) else (upTo? ends last cs).map fun r => (c :: r.1, r.2)

def trimmed (cs : List Char) : String := Text.trim (String.ofList cs)

/-- The text on the rest of a line. White space after a part in quotes belongs to it. -/
def text? : (fuel : Nat) → (quoted : Bool) → List Char → Option (List Char × List Char)
  | 0, _, _ => none
  | _, _, [] => some ([], [])
  | fuel + 1, quoted, c :: cs => do
    if c == '"' || c == '\'' then
      let (part, rest) ← upTo? (· == c) false cs
      let (more, rest) ← text? fuel true (rest.drop 1)
      return (part ++ more, rest)
    else
      let (part, rest) ← upTo? (fun c => c == '\n' || c == '\r') true (c :: cs)
      let part := if quoted then part else Text.trimStart part
      return (Text.dropEndWhile Text.isBlank part, rest)

inductive Part where
  | heading (name : String)
  | pair (name value : String)
  deriving DecidableEq, Inhabited

/-- Passes over white space and tells whether a line begins there. -/
def skipBlank (fresh : Bool) : List Char → Bool × List Char
  | [] => (fresh, [])
  | c :: cs => if Text.isBlank c then skipBlank (c == '\n') cs else (fresh, c :: cs)

/-- The parts of a document. A comment takes a whole line, and no blank stands before it. -/
def parts? : (fuel : Nat) → (fresh : Bool) → List Char → Option (List Part)
  | 0, _, _ => none
  | fuel + 1, fresh, cs =>
    match skipBlank fresh cs with
    | (_, []) => some []
    | (fresh, c :: cs) => do
      if c == ';' || c == '#' then
        if fresh then parts? fuel true ((cs.dropWhile (· ≠ '\n')).drop 1) else none
      else if c == '[' then
        let (name, rest) ← upTo? (· == ']') false cs
        return .heading (trimmed name) :: (← parts? fuel false (rest.drop 1))
      else
        let (name, rest) ← upTo? (fun c => c == '=' || c == ':') false (c :: cs)
        if (trimmed name).isEmpty then none
        let start := (rest.drop 1).dropWhile fun c => Text.isBlank c && c != '\n' && c != '\r'
        let (value, rest) ← text? (start.length + 1) false start
        return .pair (trimmed name) (trimmed value) :: (← parts? fuel false rest)

/-- Adds a member in place of the one with the same name. -/
def place (name : String) (j : Json) (ms : List (String × Json)) : List (String × Json) :=
  ms.filter (·.1 ≠ name) ++ [(name, j)]

def close (root : List (String × Json)) :
    Option (String × List (String × Json)) → List (String × Json)
  | none => root
  | some (name, ms) => place name (.record ms) root

/-- Puts together what the parts say. A section takes the place of one with its name. -/
def gather (root : List (String × Json)) (filling : Option (String × List (String × Json))) :
    List Part → List (String × Json)
  | [] => close root filling
  | .heading name :: ps => gather (close root filling) (some (name, [])) ps
  | .pair name value :: ps =>
    match filling with
    | none => gather (place name (.text value) root) none ps
    | some (heading, ms) => gather root (some (heading, place name (.text value) ms)) ps

def read? (s : String) : Option Json :=
  (parts? (s.length + 1) true s.toList).map fun ps => .record (gather [] none ps)

end Drayage.Ini
