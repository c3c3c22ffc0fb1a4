import Drayage.Yaml.Scalar

/-!
# The tokens of a YAML text

Tokens make the structure of a text explicit: what the indentation of a line opens and
closes, and which scalars are keys. Whether something is a key shows only at the colon
behind it, so the token that says so is then put in front of it.
-/

namespace Drayage.Yaml

inductive Token where
  | streamEnd
  | version (major minor : Nat)
  | tagHandle (handle lead : List Char)
  | documentStart
  | documentEnd
  | sequenceStart
  | mappingStart
  | blockEnd
  | flowSequenceStart
  | flowSequenceEnd
  | flowMappingStart
  | flowMappingEnd
  /-- The dash of an item. -/
  | item
  | comma
  | key
  | value
  | reference (name : List Char)
  | anchor (name : List Char)
  | tag (handle suffix : List Char)
  | scalar (text : List Char) (plain : Bool)
  deriving DecidableEq, Inhabited

/-- A place where something begins that may turn out to be a key. -/
structure PossibleKey where
  /-- The number of tokens before it. -/
  position : Nat
  line : Nat
  column : Nat
  index : Nat
  /-- Nothing but a key can stand there. -/
  required : Bool
  deriving DecidableEq, Inhabited

structure Scanner where
  cursor : Cursor
  /-- The indentation of the innermost block, `-1` outside all blocks. -/
  indent : Int
  outerIndents : List Int
  /-- A key may begin here. -/
  keyAllowed : Bool
  /-- The possible key outside brackets, or in the innermost brackets. -/
  possible : Option PossibleKey
  /-- Those of the brackets around it; there are as many as open brackets. -/
  outer : List (Option PossibleKey)
  tokens : Array Token
  deriving DecidableEq, Inhabited

namespace Scanner

def start (text : List Char) : Scanner := ⟨.start text, -1, [], true, none, [], #[]⟩

def inFlow (s : Scanner) : Bool := !s.outer.isEmpty

def column (s : Scanner) : Int := s.cursor.column

def push (s : Scanner) (t : Token) : Scanner := { s with tokens := s.tokens.push t }

def take (s : Scanner) (n : Nat) (t : Token) : Scanner :=
  { s with cursor := s.cursor.skip n, tokens := s.tokens.push t }

def insertAt (s : Scanner) (position : Nat) (t : Token) : Scanner :=
  { s with
    tokens := (s.tokens.toList.take position ++ t :: s.tokens.toList.drop position).toArray }

def keyLimit : Nat := 1024

/-- A key has to end on its line, and not too far away. -/
def isStale (c : Cursor) (k : PossibleKey) : Bool :=
  k.line < c.line || k.index + keyLimit < c.index

/-- What is left of a possible key at a place; nothing if it was required to be one. -/
def refresh? (c : Cursor) : Option PossibleKey → Option (Option PossibleKey)
  | none => some none
  | some k => if isStale c k then if k.required then none else some none else some (some k)

def dropStale? (s : Scanner) : Option Scanner := do
  return { s with possible := ← refresh? s.cursor s.possible,
                  outer := ← s.outer.mapM (refresh? s.cursor) }

def noKey? (s : Scanner) : Option Scanner :=
  if s.possible.any (·.required) then none else some { s with possible := none }

def markKey? (s : Scanner) : Option Scanner :=
  if !s.keyAllowed then some s
  else do
    let c := s.cursor
    let required := !s.inFlow && s.indent == s.column
    return { ← s.noKey? with
      possible := some ⟨s.tokens.size, c.line, c.column, c.index, required⟩ }

def allowKey (s : Scanner) (allowed : Bool) : Scanner := { s with keyAllowed := allowed }

/-- Opens a block if a column lies beyond the indentation. -/
def indentTo (s : Scanner) (column : Int) (position : Nat) (t : Token) : Scanner :=
  if s.inFlow || column ≤ s.indent then s
  else { s with indent := column, outerIndents := s.indent :: s.outerIndents }.insertAt position t

def closeBlocks (column : Int) : (outer : List Int) → Scanner → Scanner
  | [], s => s
  | i :: rest, s =>
    if column < s.indent then
      closeBlocks column rest
        { s with indent := i, outerIndents := rest, tokens := s.tokens.push .blockEnd }
    else s

/-- Closes the blocks that are indented beyond a column. -/
def dedentTo (s : Scanner) (column : Int) : Scanner :=
  if s.inFlow then s else closeBlocks column s.outerIndents s

/-- Passes over blanks, comments and line breaks. Where a key may begin, a tab is no
blank. -/
def toNextToken : (fuel : Nat) → Scanner → Scanner
  | 0, s => s
  | fuel + 1, s =>
    let tabs := s.inFlow || !s.keyAllowed
    let c := s.cursor
    let c :=
      if c.index == 0 && c.sees '\ufeff' then { c with rest := c.rest.drop 1, index := 1 } else c
    let c := c.skipWhile fun x => x == ' ' || (tabs && x == '\t')
    let c := if c.sees '#' then c.skipLine else c
    if c.isAtBreak then
      toNextToken fuel { s with cursor := c.crossBreak.2, keyAllowed := s.keyAllowed || !s.inFlow }
    else { s with cursor := c }

def leaveBlocks? (s : Scanner) : Option Scanner := do
  return (← (s.dedentTo (-1)).noKey?).allowKey false

def document? (s : Scanner) (t : Token) : Option Scanner := return (← s.leaveBlocks?).take 3 t

def openFlow? (s : Scanner) (t : Token) : Option Scanner := do
  let s ← s.markKey?
  return ({ s with possible := none, outer := s.possible :: s.outer }.allowKey true).take 1 t

def closeFlow? (s : Scanner) (t : Token) : Option Scanner := do
  let s ← s.noKey?
  let (possible, outer) := match s.outer with
    | [] => (none, [])
    | k :: rest => (k, rest)
  return ({ s with possible, outer }.allowKey false).take 1 t

def comma? (s : Scanner) : Option Scanner := return ((← s.noKey?).allowKey true).take 1 .comma

/-- Outside brackets, an item or a key in full form only begins where a key may. -/
def blockPart? (s : Scanner) (opening : Token) : Option Scanner :=
  if s.inFlow then some s
  else if s.keyAllowed then some (s.indentTo s.column s.tokens.size opening)
  else none

def item? (s : Scanner) : Option Scanner := do
  return ((← (← s.blockPart? .sequenceStart).noKey?).allowKey true).take 1 .item

def key? (s : Scanner) : Option Scanner := do
  return ((← (← s.blockPart? .mappingStart).noKey?).allowKey (!s.inFlow)).take 1 .key

/-- A colon makes the possible key a key. -/
def value? (s : Scanner) : Option Scanner :=
  match s.possible with
  | some k =>
    let s := (s.insertAt k.position .key).indentTo k.column k.position .mappingStart
    some (({ s with possible := none }.allowKey false).take 1 .value)
  | none => do
    return ((← s.blockPart? .mappingStart).allowKey (!s.inFlow)).take 1 .value

def isNameChar (x : Char) : Bool := x.isAlphanum || x == '_' || x == '-'

def name? (c : Cursor) : Option (List Char × Cursor) :=
  let (name, c) := c.takeWhile isNameChar
  let ended := c.isOpenAt 0 ||
    c.peek.any fun x => ['?', ':', ',', ']', '\x7d', '%', '@', '\x60'].contains x
  if name.isEmpty || !ended then none else some (name, c)

def named? (s : Scanner) (make : List Char → Token) : Option Scanner := do
  let s := (← s.markKey?).allowKey false
  let (name, cursor) ← name? (s.cursor.skip 1)
  return { s with cursor }.push (make name)

def isUriChar (x : Char) : Bool :=
  isNameChar x ||
    [';', '/', '?', ':', '@', '&', '=', '+', '$', '.', '!', '~', '*', '\'', '(', ')', '%'].contains x

def tagParts? (c : Cursor) : Option (List Char × List Char × Cursor) :=
  match c.rest with
  | '!' :: '<' :: _ =>
    let (uri, c) := (c.skip 2).takeWhile fun x => isUriChar x || x == ',' || x == '[' || x == ']'
    if c.sees '>' && !uri.isEmpty then some ([], uri, c.skip 1) else none
  | _ =>
    let (name, after) := (c.skip 1).takeWhile isNameChar
    if after.sees '!' then
      let (suffix, c) := (after.skip 1).takeWhile isUriChar
      if suffix.isEmpty then none else some ('!' :: name ++ ['!'], suffix, c)
    else
      let (suffix, c) := (c.skip 1).takeWhile isUriChar
      some (if suffix.isEmpty then ([], ['!'], c) else (['!'], suffix, c))

def tag? (s : Scanner) : Option Scanner := do
  let s := (← s.markKey?).allowKey false
  let (handle, suffix, cursor) ← tagParts? s.cursor
  if cursor.isOpenAt 0 || (s.inFlow && cursor.sees ',') then
    return { s with cursor }.push (.tag handle suffix)
  else none

def block? (s : Scanner) : Option Scanner := do
  let s := (← s.noKey?).allowKey true
  let (text, cursor) ← Block.read? s.indent s.cursor
  return { s with cursor }.push (.scalar text false)

def quoted? (s : Scanner) (quote : Char) : Option Scanner := do
  let s := (← s.markKey?).allowKey false
  let (text, cursor) ← Quoted.read? quote s.cursor
  return { s with cursor }.push (.scalar text false)

def plain? (s : Scanner) : Option Scanner := do
  let s ← s.markKey?
  let (text, broken, cursor) ← Plain.read? s.inFlow (s.indent + 1).toNat s.cursor
  return { s with cursor, keyAllowed := broken }.push (.scalar text true)

def number? (c : Cursor) : Option (Nat × Cursor) :=
  let (ds, c) := c.takeWhile Char.isDigit
  if ds.isEmpty || 9 < ds.length then none
  else some (ds.foldl (fun n d => n * 10 + (d.toNat - '0'.toNat)) 0, c)

def lineEnd? (c : Cursor) : Option Cursor :=
  let c := c.skipWhile isGap
  let c := if c.sees '#' then c.skipLine else c
  if c.isAtEnd then some c else if c.isAtBreak then some c.crossBreak.2 else none

def directive? (s : Scanner) : Option Scanner := do
  let s ← s.leaveBlocks?
  let (name, c) := (s.cursor.skip 1).takeWhile isNameChar
  let c' := c.skipWhile isGap
  match String.ofList name with
  | "YAML" =>
    let (major, c) ← number? c'
    if !c.sees '.' then none
    let (minor, c) ← number? (c.skip 1)
    return { s with cursor := ← lineEnd? c }.push (.version major minor)
  | "TAG" =>
    let (handle, c) := c'.takeWhile fun x => isNameChar x || x == '!'
    let (lead, c) := (c.skipWhile isGap).takeWhile isUriChar
    let enclosed := handle.head? == some '!' && handle.getLast? == some '!'
    if !enclosed || lead.isEmpty || !c.isOpenAt 0 then none
    return { s with cursor := ← lineEnd? c }.push (.tagHandle handle lead)
  | _ => none

def isIndicator (x : Char) : Bool :=
  ['-', '?', ':', ',', '[', ']', '\x7b', '\x7d', '#', '&', '*', '!', '|', '>', '\'', '"', '%',
    '@', '\x60'].contains x

def beginsPlain (s : Scanner) (x : Char) : Bool :=
  let c := s.cursor
  !(isGap x || isBreak x || isIndicator x)
    || (x == '-' && !(c.at? 1).any isGap)
    || (!s.inFlow && (x == '?' || x == ':') && !c.isOpenAt 1)

def token? (s : Scanner) (x : Char) : Option Scanner :=
  let c := s.cursor
  if c.column == 0 && x == '%' then s.directive?
  else if c.seesMark '-' then s.document? .documentStart
  else if c.seesMark '.' then s.document? .documentEnd
  else match x with
    | '[' => s.openFlow? .flowSequenceStart
    | '\x7b' => s.openFlow? .flowMappingStart
    | ']' => s.closeFlow? .flowSequenceEnd
    | '\x7d' => s.closeFlow? .flowMappingEnd
    | ',' => s.comma?
    | '*' => s.named? .reference
    | '&' => s.named? .anchor
    | '!' => s.tag?
    | '\'' => s.quoted? '\''
    | '"' => s.quoted? '"'
    | x =>
      if x == '-' && c.isOpenAt 1 then s.item?
      else if x == '?' && (s.inFlow || c.isOpenAt 1) then s.key?
      else if x == ':' && (s.inFlow || c.isOpenAt 1) then s.value?
      else if (x == '|' || x == '>') && !s.inFlow then s.block?
      else if s.beginsPlain x then s.plain?
      else none

def run? : (fuel : Nat) → Scanner → Option (List Token)
  | 0, _ => none
  | fuel + 1, s => do
    let s ← (toNextToken (s.cursor.rest.length + 1) s).dropStale?
    let s := s.dedentTo s.column
    match s.cursor.peek with
    | none => return ((← s.leaveBlocks?).push .streamEnd).tokens.toList
    | some x => run? fuel (← s.token? x)

end Scanner

def Token.ofText? (text : List Char) : Option (List Token) :=
  if text.all isAllowed then Scanner.run? (text.length + 1) (.start text) else none

end Drayage.Yaml
