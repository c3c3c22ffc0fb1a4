import Drayage.Number.Power

/-!
# Spans of time

A span is a number of nanoseconds. Spans that are to be added to an instant have an
upper limit, `Span.limit`.
-/

namespace Drayage

structure Span where
  nanos : Nat
  deriving DecidableEq, Inhabited

namespace Span

def zero : Span := ⟨0⟩

def ofSeconds (n : Nat) : Span := ⟨n * 10 ^ 9⟩

def ofMillis (n : Nat) : Span := ⟨n * 10 ^ 6⟩

def seconds (s : Span) : Nat := s.nanos / 10 ^ 9

/-- Whole seconds, rounded up. -/
def secondsUp (s : Span) : Nat := (s.nanos + (10 ^ 9 - 1)) / 10 ^ 9

def millis (s : Span) : Nat := s.nanos / 10 ^ 6

def subsecond (s : Span) : Nat := s.nanos % 10 ^ 9

def isZero (s : Span) : Bool := s.nanos == 0

/-- The longest span that can be added to an instant: `2 ^ 63 - 1` milliseconds. -/
def limit : Nat := (2 ^ 63 - 1) * 10 ^ 6

def addable (s : Span) : Bool := s.nanos ≤ limit

/-- The span from a signed number of nanoseconds, a negative one counting as none. -/
def ofSigned (d : Int) : Span := ⟨d.toNat⟩

instance : LE Span := ⟨fun a b => a.nanos ≤ b.nanos⟩

instance : LT Span := ⟨fun a b => a.nanos < b.nanos⟩

instance (a b : Span) : Decidable (a ≤ b) := inferInstanceAs (Decidable (a.nanos ≤ b.nanos))

instance (a b : Span) : Decidable (a < b) := inferInstanceAs (Decidable (a.nanos < b.nanos))

def min (a b : Span) : Span := if a ≤ b then a else b

@[simp] theorem nanos_ofSeconds (n : Nat) : (ofSeconds n).nanos = n * 10 ^ 9 := rfl

theorem le_iff {a b : Span} : a ≤ b ↔ a.nanos ≤ b.nanos := Iff.rfl

theorem lt_iff {a b : Span} : a < b ↔ a.nanos < b.nanos := Iff.rfl

end Span

end Drayage
