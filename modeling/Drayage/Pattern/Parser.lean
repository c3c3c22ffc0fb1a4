import Drayage.Number.Power
import Drayage.Pattern.Bracket

/-!
# Reading patterns

A pattern is read from left to right, one token after another, with the groups that are
still open on a stack. Flags hold to the end of the group they stand in. Patterns that
would have to look around or back are not understood.
-/

namespace Drayage.Pattern.Parser

structure Group where
  /-- The modes to return to. -/
  outer : Modes
  /-- The finished alternatives, the last one first. -/
  branches : List Pattern
  /-- The parts of the current alternative, the last one first. `none` is where flags were
  set, which cannot be repeated. -/
  parts : List (Option Pattern)
  deriving DecidableEq, Inhabited

namespace Group

def start (outer : Modes) : Group := ⟨outer, [], []⟩

def add (g : Group) (p : Pattern) : Group := { g with parts := some p :: g.parts }

def branch (g : Group) : Pattern :=
  (g.parts.filterMap id).foldl (fun acc p => .seq p acc) .empty

def nextBranch (g : Group) : Group := { g with branches := g.branch :: g.branches, parts := [] }

def value (g : Group) : Pattern := g.branches.foldl (fun acc p => .either p acc) g.branch

def repeat? (g : Group) (min : Nat) (max : Option Nat) : Option Group :=
  match g.parts with
  | some p :: rest => some { g with parts := some (.repeated p min max) :: rest }
  | _ => none

end Group

structure State where
  modes : Modes
  group : Group
  outer : List Group
  /-- The names of groups so far. -/
  names : List (List Char)
  deriving DecidableEq, Inhabited

namespace State

def initial : State := ⟨.standard, .start .standard, [], []⟩

def add (s : State) (p : Pattern) : State := { s with group := s.group.add p }

def opened (s : State) (modes : Modes) : State :=
  { s with modes, group := .start s.modes, outer := s.group :: s.outer }

def close? (s : State) : Option State :=
  match s.outer with
  | [] => none
  | g :: outer => some { s with modes := s.group.outer, group := g.add s.group.value, outer }

end State

def switch? (m : Modes) (on : Bool) : Char → Option Modes
  | 'i' => some { m with ignoreCase := on }
  | 'm' => some { m with multiLine := on }
  | 's' => some { m with dotAll := on }
  | 'R' => some { m with crlf := on }
  | 'U' => some m
  | 'u' => some { m with ascii := !on }
  | 'x' => some { m with verbose := on }
  | _ => none

/-- Flags up to the colon or the bracket that ends them. No letter comes twice, and a dash,
of which there is at most one, is followed by a letter. -/
def flags? (m : Modes) (on : Bool) (seen : List Char) (afterDash : Bool) :
    List Char → Option (Modes × List Char × List Char)
  | [] => none
  | c :: cs =>
    if c = ':' ∨ c = ')' then if afterDash then none else some (m, seen, c :: cs)
    else if c = '-' then if on then flags? m false ('-' :: seen) true cs else none
    else if seen.contains c then none
    else do flags? (← switch? m on c) on (c :: seen) false cs

def isNameChar (first : Bool) (c : Char) : Bool :=
  c == '_' || (if first then Text.isWordCharacter c && !Text.isDecimalDigit c
    else Text.isWordCharacter c || c == '.' || c == '[' || c == ']')

/-- The name of a group, which no other group has. -/
def name? (names : List (List Char)) (cs : List Char) : Option (List Char × List Char) :=
  let name := cs.takeWhile (· ≠ '>')
  match name, cs.drop name.length with
  | c :: rest, _ :: cs =>
    if isNameChar true c && rest.all (isNameChar false) && !names.contains name then some (name, cs)
    else none
  | _, _ => none

def named? (s : State) (cs : List Char) : Option (State × List Char) := do
  let (name, cs) ← name? s.names cs
  return ({ s.opened s.modes with names := name :: s.names }, cs)

def open? (s : State) (cs : List Char) : Option (State × List Char) :=
  match Bracket.skip s.modes cs with
  | '?' :: '=' :: _ | '?' :: '!' :: _ | '?' :: '<' :: '=' :: _ | '?' :: '<' :: '!' :: _ => none
  | '?' :: 'P' :: '<' :: cs | '?' :: '<' :: cs => named? s cs
  | '?' :: cs => do
    let (modes, seen, cs) ← flags? s.modes true [] false cs
    match cs with
    | ':' :: cs => return (s.opened modes, cs)
    | _ :: cs =>
      if seen.isEmpty then none
      else return ({ s with modes, group := { s.group with parts := none :: s.group.parts } }, cs)
    | [] => none
  | cs => some (s.opened s.modes, cs)

/-- A repetition may be followed by a question mark, which only tells which match to
prefer. -/
def dropLazy : List Char → List Char
  | '?' :: cs => cs
  | cs => cs

/-- A number in a repetition, with white space around it. -/
def count? (cs : List Char) : Option (Nat × List Char) :=
  let cs := Text.trimStart cs
  let ds := cs.takeWhile Char.isDigit
  let n := ds.foldl (fun n d => n * 10 + (d.toNat - '0'.toNat)) 0
  if ds.isEmpty || 2 ^ 32 ≤ n then none else some (n, Text.trimStart (cs.drop ds.length))

def bounds? (cs : List Char) : Option (Nat × Option Nat × List Char) := do
  let (min, cs) ← count? cs
  match cs with
  | '\x7d' :: cs => return (min, some min, cs)
  | ',' :: cs =>
    match Text.trimStart cs with
    | '\x7d' :: cs => return (min, none, cs)
    | cs => do
      let (max, cs) ← count? cs
      match cs with
      | '\x7d' :: cs => if min ≤ max then return (min, some max, cs) else none
      | _ => none
  | _ => none

def repeat? (s : State) (min : Nat) (max : Option Nat) (cs : List Char) :
    Option (State × List Char) := do
  return ({ s with group := ← s.group.repeat? min max }, dropLazy cs)

def dot (m : Modes) : CharSet :=
  if m.dotAll then .compl .none
  else if m.crlf then .compl (.union (.single '\n') (.single '\r'))
  else .compl (.single '\n')

def lineStart (m : Modes) : Condition :=
  if m.multiLine then if m.crlf then .crlfStart else .lineStart else .textStart

def lineEnd (m : Modes) : Condition :=
  if m.multiLine then if m.crlf then .crlfEnd else .lineEnd else .textEnd

def escape? (s : State) (cs : List Char) : Option (State × List Char) := do
  let (e, cs) ← Escape.read? s.modes cs
  match e with
  | .char c => return (s.add (.one (s.modes.casing (.single c))), cs)
  | .set set => return (s.add (.one set), cs)
  | .condition c => return (s.add (.condition c), cs)

def token? (s : State) (c : Char) (cs : List Char) : Option (State × List Char) :=
  match c with
  | '(' => open? s cs
  | ')' => s.close?.map (·, cs)
  | '|' => some ({ s with group := s.group.nextBranch }, cs)
  | '[' => (Bracket.read? s.modes cs).map fun (set, cs) => (s.add (.one set), cs)
  | '?' => repeat? s 0 (some 1) cs
  | '*' => repeat? s 0 none cs
  | '+' => repeat? s 1 none cs
  | '\x7b' => do
    let (min, max, cs) ← bounds? cs
    repeat? s min max cs
  | '.' => if s.modes.ascii then none else some (s.add (.one (dot s.modes)), cs)
  | '^' => some (s.add (.condition (lineStart s.modes)), cs)
  | '$' => some (s.add (.condition (lineEnd s.modes)), cs)
  | '\\' => escape? s cs
  | c => some (s.add (.one (s.modes.casing (.single c))), cs)

def run? : (fuel : Nat) → State → List Char → Option Pattern
  | 0, _, _ => none
  | fuel + 1, s, cs =>
    match Bracket.skip s.modes cs with
    | [] => if s.outer.isEmpty then some s.group.value else none
    | c :: cs => do
      let (s, cs) ← token? s c cs
      run? fuel s cs

end Drayage.Pattern.Parser

namespace Drayage.Pattern

def parse? (text : String) : Option Pattern :=
  Parser.run? (text.length + 1) .initial text.toList

end Drayage.Pattern
