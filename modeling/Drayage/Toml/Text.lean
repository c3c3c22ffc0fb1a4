import Drayage.Json.Reader

/-!
# Texts and keys in TOML

A text stands in quotes, in which escapes count, or in apostrophes, in which they do not;
three of either enclose a text of several lines. A key is a list of names between points.
-/

namespace Drayage.Toml

def isGap (c : Char) : Bool := c == ' ' || c == '\t'

/-- What may stand in a line: tabs, and characters that control nothing. -/
def isPlain (c : Char) : Bool := c == '\t' || (0x20 ≤ c.toNat && c.toNat != 0x7f)

def skipGap (cs : List Char) : List Char := cs.dropWhile isGap

def afterBreak? : List Char → Option (List Char)
  | '\n' :: cs => some cs
  | '\r' :: '\n' :: cs => some cs
  | _ => none

def code? (ds : List Char) : Option Char := do
  let n ← ds.foldlM (fun n d => (Json.hexValue? d).map (n * 16 + ·)) 0
  if n.isValidChar then return Char.ofNat n else none

def shortEscape? (c : Char) : Option Char :=
  match c with
  | 'b' => some '\x08'
  | 't' => some '\t'
  | 'n' => some '\n'
  | 'f' => some '\x0c'
  | 'r' => some '\r'
  | '"' => some '"'
  | '\\' => some '\\'
  | _ => none

/-- The content of a text with its escapes carried out. A backslash at the end of a line
takes away the blanks and line breaks up to the next character (`skipping`). -/
def unescape : (skipping : Bool) → List Char → Option (List Char)
  | _, [] => some []
  | _, '\\' :: cs =>
    if (afterBreak? (skipGap cs)).isSome then unescape true cs
    else match cs with
      | 'u' :: a :: b :: c :: d :: cs => do
        return (← code? [a, b, c, d]) :: (← unescape false cs)
      | 'U' :: a :: b :: c :: d :: e :: f :: g :: h :: cs => do
        return (← code? [a, b, c, d, e, f, g, h]) :: (← unescape false cs)
      | e :: cs => do
        return (← shortEscape? e) :: (← unescape false cs)
      | [] => none
  | skipping, c :: cs =>
    if c == '\r' || (skipping && (isGap c || c == '\n')) then unescape skipping cs
    else (unescape false cs).map (c :: ·)

/-- The part of a line before the quote that ends a text, and what follows the quote.
Where `escapes` count, a backslash hides the character after it. -/
def line? (quote : Char) (escapes : Bool) : List Char → Option (List Char × List Char)
  | [] => none
  | [c] => if c == quote then some ([], []) else none
  | c :: d :: cs =>
    if c == quote then some ([], d :: cs)
    else if escapes && c == '\\' then
      if isPlain d then (line? quote escapes cs).map fun r => (c :: d :: r.1, r.2) else none
    else if isPlain c then (line? quote escapes (d :: cs)).map fun r => (c :: r.1, r.2)
    else none

/-- The content of a text of several lines, up to three quotes. One or two quotes more
before them belong to the text. -/
def block? (quote : Char) (escapes : Bool) : List Char → Option (List Char × List Char)
  | [] => none
  | c :: cs =>
    if c == quote && cs.take 2 == [quote, quote] then
      let more := (cs.drop 2).takeWhile (· == quote)
      if more.length ≤ 2 then some (more, cs.drop (2 + more.length)) else none
    else if escapes && c == '\\' && (cs.take 1 == ['\\'] || cs.take 1 == [quote]) then
      match cs with
      | d :: cs => (block? quote escapes cs).map fun r => (c :: d :: r.1, r.2)
      | [] => none
    else if isPlain c || (afterBreak? (c :: cs)).isSome then
      (block? quote escapes cs).map fun r => (c :: r.1, r.2)
    else none

def quoted? (cs : List Char) : Option (String × List Char) := do
  let (raw, rest) ← line? '"' true cs
  return (String.ofList (← unescape false raw), rest)

def literal? (cs : List Char) : Option (String × List Char) :=
  (line? '\'' false cs).map fun r => (String.ofList r.1, r.2)

/-- A text of several lines; a line break right at its start does not count. -/
def lines? (quote : Char) (cs : List Char) : Option (String × List Char) := do
  let (raw, rest) ← block? quote (quote == '"') ((afterBreak? cs).getD cs)
  let content ← if quote == '"' then unescape false raw else some (raw.filter (· ≠ '\r'))
  return (String.ofList content, rest)

def text? : List Char → Option (String × List Char)
  | '"' :: '"' :: '"' :: cs => lines? '"' cs
  | '\'' :: '\'' :: '\'' :: cs => lines? '\'' cs
  | '"' :: cs => quoted? cs
  | '\'' :: cs => literal? cs
  | _ => none

def isBare (c : Char) : Bool := c.isAlphanum || c == '-' || c == '_'

def name? : List Char → Option (String × List Char)
  | '"' :: cs => quoted? cs
  | '\'' :: cs => literal? cs
  | cs =>
    let name := cs.takeWhile isBare
    if name.isEmpty then none else some (String.ofList name, cs.drop name.length)

def nameLimit : Nat := 80

/-- A key with at most `limit` names, and what follows the blanks after it. -/
def names? : (limit : Nat) → List Char → Option (List String × List Char)
  | 0, _ => none
  | limit + 1, cs => do
    let (name, rest) ← name? (skipGap cs)
    match skipGap rest with
    | '.' :: rest =>
      let (names, rest) ← names? limit rest
      return (name :: names, rest)
    | rest => return ([name], rest)

/-- A key: the names before the last one, the last one, and what follows. -/
def key? (cs : List Char) : Option (List String × String × List Char) := do
  let (names, rest) ← names? nameLimit cs
  return (names.dropLast, names.getLastD "", rest)

end Drayage.Toml
