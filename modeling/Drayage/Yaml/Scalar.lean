import Drayage.Yaml.Cursor
import Drayage.Json.Reader

/-!
# Scalars

The texts of scalars: plain, in quotes, or as a block of lines. Line breaks inside plain
and quoted scalars are folded: a single one is a blank, and of several the first one is
left out.
-/

namespace Drayage.Yaml

/-- White space that was read but does not yet belong to a scalar. -/
structure Pending where
  gaps : List Char
  /-- Whether there was a line break, and what the first one stands for. -/
  broken : Bool
  first : List Char
  further : List Char
  deriving DecidableEq, Inhabited

namespace Pending

def none : Pending := ⟨[], false, [], []⟩

def fold (p : Pending) : List Char :=
  if !p.broken then p.gaps
  else if p.first == ['\n'] then if p.further.isEmpty then [' '] else p.further
  else p.first ++ p.further

def addBreak (p : Pending) (b : List Char) : Pending :=
  if p.broken then { p with further := p.further ++ b } else ⟨[], true, b, []⟩

/-- Takes in a blank, which counts only while there is no line break. -/
def addGap (p : Pending) (x : Char) : Pending :=
  if p.broken then p else { p with gaps := p.gaps ++ [x] }

end Pending

/-- Reads blanks and line breaks. In a plain scalar a tab must not stand in for the
indentation of a line. -/
def readPending (tabLimit : Nat) : (fuel : Nat) → Pending → Cursor → Option (Pending × Cursor)
  | 0, p, c => some (p, c)
  | fuel + 1, p, c =>
    match c.peek with
    | some x =>
      if isGap x then
        if p.broken && x == '\t' && c.column < tabLimit then none
        else readPending tabLimit fuel (p.addGap x) (c.skip 1)
      else if isBreak x then
        let (b, c) := c.crossBreak
        readPending tabLimit fuel (p.addBreak b) c
      else some (p, c)
    | none => some (p, c)

namespace Quoted

def escape? : Char → Option Char
  | '0' => some '\x00'
  | 'a' => some '\x07'
  | 'b' => some '\x08'
  | 't' => some '\t'
  | '\t' => some '\t'
  | 'n' => some '\n'
  | 'v' => some '\x0b'
  | 'f' => some '\x0c'
  | 'r' => some '\r'
  | 'e' => some '\x1b'
  | ' ' => some ' '
  | '"' => some '"'
  | '/' => some '/'
  | '\\' => some '\\'
  | 'N' => some '\u0085'
  | '_' => some '\u00a0'
  | 'L' => some '\u2028'
  | 'P' => some '\u2029'
  | _ => none

def escapeWidth? : Char → Option Nat
  | 'x' => some 2
  | 'u' => some 4
  | 'U' => some 8
  | _ => none

def codePoint? (ds : List Char) : Option Char := do
  let n ← ds.foldlM (fun n d => (Json.hexValue? d).map (n * 16 + ·)) 0
  if n.isValidChar then some (Char.ofNat n) else none

def readEscape? (c : Cursor) : Option (Char × Cursor) := do
  let x ← c.at? 1
  match escapeWidth? x with
  | some width =>
    let ds := (c.rest.drop 2).take width
    if ds.length = width then return (← codePoint? ds, c.skip (2 + width)) else none
  | none => return (← escape? x, c.skip 2)

/-- Reads characters up to white space or the closing quote. An escaped line break counts
as a line break that stands for nothing. -/
def readWord (quote : Char) : (fuel : Nat) → (acc : List Char) → Cursor →
    Option (List Char × Pending × Cursor)
  | 0, _, _ => none
  | fuel + 1, acc, c =>
    match c.rest with
    | [] => some (acc, .none, c)
    | x :: rest =>
      if isGap x || isBreak x then some (acc, .none, c)
      else if x == quote then
        if quote == '\'' && rest.head? == some '\'' then
          readWord quote fuel (acc ++ ['\'']) (c.skip 2)
        else some (acc, .none, c)
      else if quote == '"' && x == '\\' then
        if rest.head?.any isBreak then some (acc, ⟨[], true, [], []⟩, ((c.skip 1).crossBreak).2)
        else do
          let (y, c) ← readEscape? c
          readWord quote fuel (acc ++ [y]) c
      else readWord quote fuel (acc ++ [x]) (c.skip 1)

def readFrom (quote : Char) : (fuel : Nat) → (acc : List Char) → Cursor →
    Option (List Char × Cursor)
  | 0, _, _ => none
  | fuel + 1, acc, c =>
    if c.seesDocumentMark || c.isAtEnd then none
    else do
      let (acc, p, c) ← readWord quote (c.rest.length + 1) acc c
      if c.sees quote && !p.broken then return (acc, c.skip 1)
      else
        let (p, c) ← readPending 0 c.rest.length p c
        readFrom quote fuel (acc ++ p.fold) c

def read? (quote : Char) (c : Cursor) : Option (List Char × Cursor) :=
  readFrom quote (c.rest.length + 1) [] (c.skip 1)

end Quoted

namespace Plain

def isFlowMark (x : Char) : Bool := [',', '[', ']', '\x7b', '\x7d'].contains x

/-- A plain scalar ends at a colon before white space and, inside brackets, at commas and
brackets. -/
def endsAt (flow : Bool) (c : Cursor) : Bool :=
  (c.sees ':' && c.isOpenAt 1) || (flow && c.peek.any isFlowMark)

/-- Inside brackets a colon must not run into a comma or bracket. -/
def isMisplaced (flow : Bool) (c : Cursor) : Bool :=
  flow && c.sees ':' && (c.at? 1).any fun x => isFlowMark x || x == '?'

/-- Reads characters up to white space or the end of the scalar. Also tells whether there
were any, in which case the white space before them counts. -/
def readWord (flow : Bool) : (fuel : Nat) → (acc : List Char) → Cursor →
    Option (List Char × Cursor)
  | 0, acc, c => some (acc, c)
  | fuel + 1, acc, c =>
    match c.peek with
    | none => some (acc, c)
    | some x =>
      if isGap x || isBreak x then some (acc, c)
      else if isMisplaced flow c then none
      else if endsAt flow c then some (acc, c)
      else readWord flow fuel (acc ++ [x]) (c.skip 1)

/-- A plain scalar: its text, whether it was followed by a line break, and where it ends. -/
def readFrom (flow : Bool) (indent : Nat) : (fuel : Nat) → (acc : List Char) → Pending → Cursor →
    Option (List Char × Bool × Cursor)
  | 0, _, _, _ => none
  | fuel + 1, acc, p, c =>
    if c.seesDocumentMark || c.sees '#' then some (acc, p.broken, c)
    else do
      let (word, next) ← readWord flow (c.rest.length + 1) [] c
      let (acc, p) := if word.isEmpty then (acc, p) else (acc ++ p.fold ++ word, Pending.none)
      if next.isAtGap || next.isAtBreak then
        let (p, next) ← readPending indent next.rest.length p next
        if !flow && next.column < indent then return (acc, p.broken, next)
        else readFrom flow indent fuel acc p next
      else return (acc, p.broken, next)

def read? (flow : Bool) (indent : Nat) (c : Cursor) : Option (List Char × Bool × Cursor) :=
  readFrom flow indent (c.rest.length + 1) [] .none c

end Plain

namespace Block

inductive Chomping where
  | strip
  | clip
  | keep
  deriving DecidableEq, Inhabited

structure Header where
  folded : Bool
  chomping : Chomping
  /-- The indentation of the block, beyond that of its parent, if it is given. -/
  indentation : Option Nat
  deriving DecidableEq, Inhabited

def chomping? : Char → Option Chomping
  | '+' => some .keep
  | '-' => some .strip
  | _ => none

/-- An indentation is a digit other than zero. -/
def indentation? (c : Cursor) : Option (Option Nat × Cursor) :=
  match c.peek with
  | some x =>
    if x == '0' then none
    else if x.isDigit then some (some (x.toNat - '0'.toNat), c.skip 1)
    else some (none, c)
  | none => some (none, c)

def signs? (folded : Bool) (c : Cursor) : Option (Header × Cursor) :=
  match c.peek.bind chomping? with
  | some chomping => do
    let (indentation, c) ← indentation? (c.skip 1)
    return (⟨folded, chomping, indentation⟩, c)
  | none => do
    let (indentation, c) ← indentation? c
    match indentation, c.peek.bind chomping? with
    | some n, some chomping => return (⟨folded, chomping, some n⟩, c.skip 1)
    | n, _ => return (⟨folded, .clip, n⟩, c)

def header? (c : Cursor) : Option (Header × Cursor) := do
  let (h, c) ← signs? (c.sees '>') (c.skip 1)
  let c := c.skipWhile isGap
  let c := if c.sees '#' then c.skipLine else c
  if c.isAtEnd then return (h, c)
  else if c.isAtBreak then return (h, c.crossBreak.2)
  else none

/-- Reads indentation and empty lines; `indent` is the indentation of the block, if it is
known. Returns the line breaks and the largest indentation met. -/
def readBreaks (indent : Option Nat) : (fuel : Nat) → (breaks : List Char) → (widest : Nat) →
    Cursor → Option (List Char × Nat × Cursor)
  | 0, breaks, widest, c => some (breaks, widest, c)
  | fuel + 1, breaks, widest, c =>
    let inside (n : Nat) : Bool := indent.all (n < ·)
    let blanks := (c.rest.takeWhile (· == ' ')).length
    let c := c.skip (match indent with
      | some n => min blanks (n - c.column)
      | none => blanks)
    let widest := max widest c.column
    if inside c.column && c.sees '\t' then none
    else if c.isAtBreak then
      let (b, c) := c.crossBreak
      readBreaks indent fuel (breaks ++ b) widest c
    else some (breaks, widest, c)

structure Progress where
  text : List Char
  /-- The break after the last line. -/
  last : List Char
  /-- The empty lines after it. -/
  further : List Char
  /-- The last line began with a blank. -/
  indented : Bool
  deriving DecidableEq, Inhabited

/-- Joins the lines so far with the next one. Only lines that begin without a blank are
folded. -/
def Progress.join (p : Progress) (folded nextIndented : Bool) : List Char :=
  let between :=
    if folded && p.last == ['\n'] && !p.indented && !nextIndented then
      if p.further.isEmpty then [' '] else []
    else p.last
  p.text ++ between ++ p.further

def readLines (folded : Bool) (indent : Nat) : (fuel : Nat) → Progress → Cursor →
    Option (Progress × Cursor)
  | 0, p, c => some (p, c)
  | fuel + 1, p, c =>
    if c.column == indent && !c.isAtEnd then do
      let indented := c.isAtGap
      let text := p.join folded indented
      let (line, c) := c.takeWhile fun x => !isBreak x
      let (last, c) := c.crossBreak
      let (further, _, c) ← readBreaks (some indent) c.rest.length [] 0 c
      readLines folded indent fuel ⟨text ++ line, last, further, indented⟩ c
    else some (p, c)

/-- Reads a block, from its mark on; `parent` is the indentation it stands in. -/
def read? (parent : Int) (c : Cursor) : Option (List Char × Cursor) := do
  let (h, c) ← header? c
  let given := h.indentation.map fun n => (max parent 0).toNat + n
  let (breaks, widest, c) ← readBreaks given (c.rest.length + 1) [] 0 c
  let indent := given.getD (max (max widest (parent + 1).toNat) 1)
  let (p, c) ← readLines h.folded indent (c.rest.length + 1) ⟨[], [], breaks, false⟩ c
  match h.chomping with
  | .strip => return (p.text, c)
  | .clip => return (p.text ++ p.last, c)
  | .keep => return (p.text ++ p.last ++ p.further, c)

end Block

end Drayage.Yaml
