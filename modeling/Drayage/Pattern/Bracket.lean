import Drayage.Pattern.Escape

/-!
# Sets in brackets

A set in brackets lists characters, ranges, classes and further sets, and may be combined
with others by `&&`, `--` and `~~`, from left to right.
-/

namespace Drayage.Pattern.Bracket

/-- White space and comments, where they mean nothing. -/
def skip (m : Modes) : List Char → List Char
  | [] => []
  | c :: cs =>
    if !m.verbose then c :: cs
    else if Text.isBlank c then skip m cs
    else if c = '#' then skipLine m cs
    else c :: cs
where
  skipLine (m : Modes) : List Char → List Char
    | [] => []
    | c :: cs => if c = '\n' then skip m cs else skipLine m cs

def named? : String → Option CharSet
  | "alnum" => some (.unions [.range '0' '9', .range 'A' 'Z', .range 'a' 'z'])
  | "alpha" => some (.union (.range 'A' 'Z') (.range 'a' 'z'))
  | "ascii" => some (.range '\x00' '\x7f')
  | "blank" => some (.union (.single '\t') (.single ' '))
  | "cntrl" => some (.union (.range '\x00' '\x1f') (.single '\x7f'))
  | "digit" => some (.range '0' '9')
  | "graph" => some (.range '!' '~')
  | "lower" => some (.range 'a' 'z')
  | "print" => some (.range ' ' '~')
  | "punct" =>
    some (.unions [.range '!' '/', .range ':' '@', .range '[' '\x60', .range '\x7b' '~'])
  | "space" => some (.union (.single ' ') (.range '\t' '\r'))
  | "upper" => some (.range 'A' 'Z')
  | "word" => some (.unions [.range '0' '9', .range 'A' 'Z', .single '_', .range 'a' 'z'])
  | "xdigit" => some (.unions [.range '0' '9', .range 'A' 'F', .range 'a' 'f'])
  | _ => none

/-- A named class such as `[:alpha:]` or `[:^alpha:]`, after its bracket. -/
def namedClass? (m : Modes) (cs : List Char) : Option (CharSet × List Char) :=
  match cs with
  | ':' :: rest =>
    let (negated, rest) := match rest with
      | '^' :: rest => (true, rest)
      | _ => (false, rest)
    let name := rest.takeWhile fun c => c ≠ ':'
    match rest.drop name.length with
    | ':' :: ']' :: rest =>
      (named? (String.ofList name)).map fun s =>
        let s := m.casing s
        (if negated then .compl s else s, rest)
    | _ => none
  | _ => none

def item? (m : Modes) : List Char → Option (Escape × List Char)
  | [] => none
  | '\\' :: cs => Escape.read? m cs
  | c :: cs => some (.char c, cs)

def alone? : Escape → Option CharSet
  | .char c => some (.single c)
  | .set s => some s
  | .condition _ => none

/-- An item, or a range from one to the next. A dash before a bracket or before another
dash makes no range. -/
def span? (m : Modes) (cs : List Char) : Option (CharSet × List Char) := do
  let (first, cs) ← item? m cs
  let cs := skip m cs
  match cs with
  | '-' :: rest =>
    let next := (skip m rest).head?
    if next = some ']' ∨ next = some '-' then return (m.casing (← alone? first), cs)
    else
      let (last, rest) ← item? m (skip m rest)
      match first, last with
      | .char a, .char b => if a ≤ b then return (m.casing (.range a b), rest) else none
      | _, _ => none
  | _ => return (m.casing (← alone? first), cs)

inductive Operator where
  | inter
  | diff
  | symmDiff
  deriving DecidableEq, Inhabited

def Operator.apply : Operator → CharSet → CharSet → CharSet
  | .inter => .inter
  | .diff => .diff
  | .symmDiff => .symmDiff

/-- A set that is being read: what stands to the left of the last operator, and the items
since then. -/
structure Open where
  negated : Bool
  left : Option (CharSet × Operator)
  items : List CharSet
  deriving DecidableEq, Inhabited

namespace Open

def value (o : Open) : CharSet :=
  let right := CharSet.unions o.items
  match o.left with
  | none => right
  | some (left, op) => op.apply left right

def add (o : Open) (s : CharSet) : Open := { o with items := s :: o.items }

def operator (o : Open) (op : Operator) : Open := { o with left := some (o.value, op), items := [] }

def close? (o : Open) (m : Modes) : Option CharSet :=
  if o.negated then m.opposite? o.value else some o.value

end Open

/-- Dashes at the start of a set stand for themselves. -/
def leadingDashes (m : Modes) (o : Open) : List Char → Open × List Char
  | '-' :: cs => leadingDashes m (o.add (.single '-')) cs
  | c :: cs =>
    if m.verbose && Text.isBlank c then leadingDashes m o cs else (o, c :: cs)
  | [] => (o, [])

/-- Begins a set, after its bracket. A closing bracket at the start stands for itself. -/
def begin (m : Modes) (cs : List Char) : Open × List Char :=
  let cs := skip m cs
  let (negated, cs) := match cs with
    | '^' :: rest => (true, rest)
    | _ => (false, cs)
  let (o, cs) := leadingDashes m ⟨negated, none, []⟩ cs
  match o.items, cs with
  | [], ']' :: rest => (o.add (.single ']'), rest)
  | _, _ => (o, cs)

/-- Reads on in a set, with the sets around it that are still open. -/
def readOpen? (m : Modes) : (fuel : Nat) → Open → (outer : List Open) → List Char →
    Option (CharSet × List Char)
  | 0, _, _, _ => none
  | fuel + 1, o, outer, cs =>
    match skip m cs with
    | [] => none
    | '[' :: rest =>
      match namedClass? m rest with
      | some (s, rest) => readOpen? m fuel (o.add s) outer rest
      | none =>
        let (inner, rest) := begin m rest
        readOpen? m fuel inner (o :: outer) rest
    | ']' :: rest => do
      let s ← o.close? m
      match outer with
      | [] => return (s, rest)
      | around :: outer => readOpen? m fuel (around.add s) outer rest
    | '&' :: '&' :: rest => readOpen? m fuel (o.operator .inter) outer rest
    | '-' :: '-' :: rest => readOpen? m fuel (o.operator .diff) outer rest
    | '~' :: '~' :: rest => readOpen? m fuel (o.operator .symmDiff) outer rest
    | cs => do
      let (s, rest) ← span? m cs
      readOpen? m fuel (o.add s) outer rest

def read? (m : Modes) (cs : List Char) : Option (CharSet × List Char) :=
  let (o, rest) := begin m cs
  readOpen? m (cs.length + 1) o [] rest

end Drayage.Pattern.Bracket
