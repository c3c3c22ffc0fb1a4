import Drayage.Pattern.CharSet

/-!
# Patterns and what they match

A pattern stands for the stretches of a text that it matches. `ends` finds all places at
which a match from a given place can end; a text matches if there is a match anywhere in
it.
-/

namespace Drayage

namespace Pattern

/-- A place in a text: what is before it, in reverse, and what is after it. -/
structure Place where
  before : List Char
  after : List Char
  deriving DecidableEq, Inhabited

inductive Condition where
  | textStart
  | textEnd
  | lineStart
  | lineEnd
  /-- Lines that may also end with a carriage return, alone or before a line feed. -/
  | crlfStart
  | crlfEnd
  /-- Between a character of the set and one that is not in it. -/
  | boundary (w : CharSet)
  | noBoundary (w : CharSet)
  | wordStart (w : CharSet)
  | wordEnd (w : CharSet)
  | wordStartHalf (w : CharSet)
  | wordEndHalf (w : CharSet)
  deriving DecidableEq, Inhabited

namespace Condition

def holds (c : Condition) (p : Place) : Bool :=
  let prev := p.before.head?
  let next := p.after.head?
  match c with
  | textStart => prev.isNone
  | textEnd => next.isNone
  | lineStart => prev.all (· == '\n')
  | lineEnd => next.all (· == '\n')
  | crlfStart => prev.all fun c => c == '\n' || (c == '\r' && next != some '\n')
  | crlfEnd => next.all fun c => c == '\r' || (c == '\n' && prev != some '\r')
  | boundary w => prev.any w.contains != next.any w.contains
  | noBoundary w => prev.any w.contains == next.any w.contains
  | wordStart w => !prev.any w.contains && next.any w.contains
  | wordEnd w => prev.any w.contains && !next.any w.contains
  | wordStartHalf w => !prev.any w.contains
  | wordEndHalf w => !next.any w.contains

end Condition

end Pattern

inductive Pattern where
  | empty
  | one (set : Pattern.CharSet)
  | condition (c : Pattern.Condition)
  | seq (a b : Pattern)
  | either (a b : Pattern)
  /-- At least `min` times and, if there is a `max`, at most so many times. -/
  | repeated (a : Pattern) (min : Nat) (max : Option Nat)
  deriving DecidableEq, Inhabited

namespace Pattern

def distinct (ps : List Place) : List Place :=
  ps.foldr (fun p acc => if acc.contains p then acc else p :: acc) []

/-- All places reached from some places by a step taken any number of times, as far as
`rounds` rounds lead to new ones. -/
def closure (step : Place → List Place) : (rounds : Nat) → (found : List Place) →
    (latest : List Place) → List Place
  | 0, found, _ => found
  | rounds + 1, found, latest =>
    let fresh := (distinct (latest.flatMap step)).filter fun p => !found.contains p
    if fresh.isEmpty then found else closure step rounds (found ++ fresh) fresh

def iterate (step : Place → List Place) : (n : Nat) → List Place → List Place
  | 0, ps => ps
  | n + 1, ps => if ps.isEmpty then [] else iterate step n (distinct (ps.flatMap step))

def upTo (step : Place → List Place) : (n : Nat) → List Place → List Place
  | 0, ps => ps
  | n + 1, ps =>
    let next := distinct (ps ++ ps.flatMap step)
    if next.length = ps.length then ps else upTo step n next

def ends : Pattern → Place → List Place
  | empty, p => [p]
  | one set, ⟨before, c :: after⟩ => if set.contains c then [⟨c :: before, after⟩] else []
  | one _, ⟨_, []⟩ => []
  | condition c, p => if c.holds p then [p] else []
  | seq a b, p => distinct ((a.ends p).flatMap b.ends)
  | either a b, p => distinct (a.ends p ++ b.ends p)
  | repeated a min max, p =>
    let ps := iterate a.ends min [p]
    match max with
    | some max => upTo a.ends (max - min) ps
    | none => closure a.ends (p.after.length + 1) ps ps

def places (before : List Char) : List Char → List Place
  | [] => [⟨before, []⟩]
  | c :: cs => ⟨before, c :: cs⟩ :: places (c :: before) cs

def isMatch (p : Pattern) (s : String) : Bool :=
  (places [] s.toList).any fun place => !(p.ends place).isEmpty

end Pattern

end Drayage
