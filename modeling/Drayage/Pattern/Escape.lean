import Drayage.Pattern.Basic
import Drayage.Json.Reader

/-!
# Escapes in patterns

What a backslash makes of the characters after it: a plain character, a class of
characters or a condition. Other letters and digits after it are not understood.
-/

namespace Drayage.Pattern

structure Modes where
  ignoreCase : Bool
  /-- `^` and `$` also stand for the ends of lines. -/
  multiLine : Bool
  /-- The dot also stands for a line feed. -/
  dotAll : Bool
  /-- Lines may end with a carriage return. -/
  crlf : Bool
  /-- White space in the pattern means nothing, and `#` begins a comment. -/
  verbose : Bool
  /-- Classes speak of ASCII characters only. -/
  ascii : Bool
  deriving DecidableEq, Inhabited

namespace Modes

def standard : Modes := ⟨false, false, false, false, false, false⟩

def casing (m : Modes) (s : CharSet) : CharSet := if m.ignoreCase then .folded s else s

def digit (m : Modes) : CharSet := if m.ascii then .range '0' '9' else .digit

def blank (m : Modes) : CharSet :=
  if m.ascii then .union (.single ' ') (.range '\t' '\r') else .blank

def word (m : Modes) : CharSet :=
  if m.ascii then
    .unions [.range '0' '9', .range 'A' 'Z', .single '_', .range 'a' 'z']
  else .word

/-- A set with the opposite of another; in ASCII there is none, as it would hold parts of
characters. -/
def opposite? (m : Modes) (s : CharSet) : Option CharSet :=
  if m.ascii then none else some (.compl s)

end Modes

inductive Escape where
  | char (c : Char)
  | set (s : CharSet)
  | condition (c : Condition)
  deriving DecidableEq, Inhabited

namespace Escape

/-- ASCII characters that a backslash makes plain. -/
def isPlain (c : Char) : Bool :=
  c.toNat < 128 && !c.isAlphanum && c ≠ '<' && c ≠ '>'

def charAt? (n : Nat) : Option Char := if n.isValidChar then some (Char.ofNat n) else none

/-- The number that hexadecimal digits stand for; there has to be a digit. -/
def hexNumber? (ds : List Char) : Option Nat :=
  if ds.isEmpty then none
  else ds.foldlM (fun n d => (Json.hexValue? d).map (n * 16 + ·)) 0

/-- A code point of `width` digits, or of any number of digits in braces. -/
def codePoint? (width : Nat) (cs : List Char) : Option (Char × List Char) :=
  match cs with
  | '\x7b' :: rest => do
    let ds := rest.takeWhile (· ≠ '\x7d')
    match rest.drop ds.length with
    | [] => none
    | _ :: rest => return (← (← hexNumber? ds) |> charAt?, rest)
  | _ =>
    let ds := cs.take width
    if ds.length = width then do return (← (← hexNumber? ds) |> charAt?, cs.drop width) else none

def boundary? (name : String) (w : CharSet) : Option Condition :=
  match name with
  | "start" => some (.wordStart w)
  | "end" => some (.wordEnd w)
  | "start-half" => some (.wordStartHalf w)
  | "end-half" => some (.wordEndHalf w)
  | _ => none

/-- The end of a word, of a kind that may be named in braces. Braces that do not hold a name
belong to a repetition. -/
def wordEdge? (m : Modes) (cs : List Char) : Option (Escape × List Char) :=
  let plain := some (.condition (.boundary m.word), cs)
  match cs with
  | '\x7b' :: rest =>
    let isNameChar (c : Char) : Bool := c.isAlpha || c == '-'
    let name := rest.takeWhile isNameChar
    if name.isEmpty then plain
    else match rest.drop name.length with
      | '\x7d' :: rest => do
        return (.condition (← boundary? (String.ofList name) m.word), rest)
      | _ => none
  | _ => plain

def read? (m : Modes) : List Char → Option (Escape × List Char)
  | [] => none
  | c :: cs =>
    if isPlain c then some (.char c, cs)
    else match c with
      | 'x' => (codePoint? 2 cs).map fun (c, cs) => (.char c, cs)
      | 'u' => (codePoint? 4 cs).map fun (c, cs) => (.char c, cs)
      | 'U' => (codePoint? 8 cs).map fun (c, cs) => (.char c, cs)
      | 'd' => some (.set m.digit, cs)
      | 's' => some (.set m.blank, cs)
      | 'w' => some (.set m.word, cs)
      | 'D' => (m.opposite? m.digit).map fun s => (.set s, cs)
      | 'S' => (m.opposite? m.blank).map fun s => (.set s, cs)
      | 'W' => (m.opposite? m.word).map fun s => (.set s, cs)
      | 'a' => some (.char '\x07', cs)
      | 'f' => some (.char '\x0c', cs)
      | 't' => some (.char '\t', cs)
      | 'n' => some (.char '\n', cs)
      | 'r' => some (.char '\r', cs)
      | 'v' => some (.char '\x0b', cs)
      | 'A' => some (.condition .textStart, cs)
      | 'z' => some (.condition .textEnd, cs)
      | 'b' => wordEdge? m cs
      | 'B' => some (.condition (.noBoundary m.word), cs)
      | '<' => some (.condition (.wordStart m.word), cs)
      | '>' => some (.condition (.wordEnd m.word), cs)
      | _ => none

end Escape

end Drayage.Pattern
