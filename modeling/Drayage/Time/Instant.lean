import Drayage.Time.Calendar
import Drayage.Time.Span

/-!
# Instants

An instant is a number of seconds since the start of 1970 and a fraction of the second
in nanoseconds. A fraction of one second or more belongs to a leap second. The count of
seconds does not know of it: it has the same number as the second before it. A sum that
leaves the leap second in which it starts spends a second on it, and a difference counts it
if the other instant is later in its day.
-/

namespace Drayage

structure Instant where
  seconds : Int
  nanos : Nat
  deriving DecidableEq, Inhabited

namespace Instant

/-- Nanoseconds since the start of 1970. -/
def stamp (t : Instant) : Int := t.seconds * 10 ^ 9 + t.nanos

def ofStamp (n : Int) : Instant := ⟨n / 10 ^ 9, (n % 10 ^ 9).toNat⟩

/-- Milliseconds since the start of 1970, rounded down. -/
def millis (t : Instant) : Int := t.stamp / 10 ^ 6

/-- It lies in no leap second. -/
def Regular (t : Instant) : Prop := t.nanos < 10 ^ 9

instance (t : Instant) : Decidable t.Regular := inferInstanceAs (Decidable (t.nanos < 10 ^ 9))

def daySecond (t : Instant) : Int := t.seconds % 86400

/-- Signed nanoseconds from `s` to `t`. -/
def since (t s : Instant) : Int :=
  t.stamp - s.stamp +
    if s.daySecond < t.daySecond ∧ ¬ s.Regular then 10 ^ 9
    else if t.daySecond < s.daySecond ∧ ¬ t.Regular then -10 ^ 9
    else 0

/-- The time from `s` to `t`, none if `t` is the earlier one. -/
def elapsed (t s : Instant) : Span := Span.ofSigned (t.since s)

def earliest : Int := (Date.dayNumber ⟨Date.firstYear, 1, 1⟩) * 86400 * 10 ^ 9

def latest : Int := (Date.dayNumber ⟨Date.lastYear, 12, 31⟩ + 1) * 86400 * 10 ^ 9 - 1

/-- What sums are counted from, as a stamp. -/
def base (t : Instant) : Int := if t.Regular then t.stamp else t.stamp - 10 ^ 9

/-- A later instant, if it still has a date. -/
def add? (t : Instant) (d : Span) : Option Instant :=
  if t.base + d.nanos ≤ latest then
    -- a short span does not leave a leap second
    some (if ¬ t.Regular ∧ t.nanos + d.nanos < 2 * 10 ^ 9 then ⟨t.seconds, t.nanos + d.nanos⟩
      else ofStamp (t.base + d.nanos))
  else none

/-- A leap second comes after the second before it, and before the one after it. -/
instance : LT Instant :=
  ⟨fun t u => t.seconds < u.seconds ∨ t.seconds = u.seconds ∧ t.nanos < u.nanos⟩

instance (t u : Instant) : Decidable (t < u) :=
  inferInstanceAs (Decidable (t.seconds < u.seconds ∨ t.seconds = u.seconds ∧ t.nanos < u.nanos))

def shift (t : Instant) (seconds : Int) : Instant := ⟨t.seconds + seconds, t.nanos⟩

theorem stamp_ofStamp (n : Int) : (ofStamp n).stamp = n := by
  simp only [stamp, ofStamp]
  have h1 := Int.emod_nonneg n (b := 10 ^ 9) (by decide)
  have h2 := Int.mul_ediv_add_emod n (10 ^ 9)
  omega

theorem regular_ofStamp (n : Int) : (ofStamp n).Regular := by
  have := Int.emod_lt_of_pos n (b := 10 ^ 9) (by decide)
  show (n % 10 ^ 9).toNat < 10 ^ 9
  omega

theorem base_of_regular {t : Instant} (h : t.Regular) : t.base = t.stamp := if_pos h

/-- Away from leap seconds, the order is that of the stamps. -/
theorem lt_iff_of_regular {t u : Instant} (ht : t.Regular) (hu : u.Regular) :
    t < u ↔ t.stamp < u.stamp := by
  unfold Regular at ht hu
  show t.seconds < u.seconds ∨ t.seconds = u.seconds ∧ t.nanos < u.nanos ↔ _
  unfold stamp
  omega

theorem since_of_regular {t s : Instant} (ht : t.Regular) (hs : s.Regular) :
    t.since s = t.stamp - s.stamp := by
  simp [since, ht, hs]

theorem add?_eq_none_iff {t : Instant} {d : Span} :
    t.add? d = none ↔ latest < t.base + d.nanos := by
  unfold add?
  split <;> simp_all

/-- A sum that is in no leap second has the stamp that it should have. -/
theorem stamp_of_add? {t u : Instant} {d : Span} (h : t.add? d = some u) (regular : u.Regular) :
    u.stamp = t.base + d.nanos := by
  unfold add? at h
  split at h
  · split at h
    · rename_i short
      obtain rfl := Option.some.inj h
      exact absurd regular fun within : t.nanos + d.nanos < 10 ^ 9 =>
        short.1 (Nat.lt_of_le_of_lt (Nat.le_add_right _ _) within)
    · obtain rfl := Option.some.inj h
      exact stamp_ofStamp _
  · cases h

theorem Regular.add {t u : Instant} {d : Span} (regular : t.Regular) (h : t.add? d = some u) :
    u.Regular := by
  unfold add? at h
  split at h
  · rw [if_neg fun short => short.1 regular] at h
    obtain rfl := Option.some.inj h
    exact regular_ofStamp _
  · cases h

theorem Regular.stamp_add {t u : Instant} {d : Span} (regular : t.Regular)
    (h : t.add? d = some u) : u.stamp = t.stamp + d.nanos := by
  rw [stamp_of_add? h (regular.add h), base_of_regular regular]

theorem exists_add? {t : Instant} {d : Span} (regular : t.Regular)
    (dated : t.stamp + d.nanos ≤ latest) : ∃ u, t.add? d = some u := by
  rw [← Option.ne_none_iff_exists', ne_eq, add?_eq_none_iff, base_of_regular regular]
  omega

end Instant

end Drayage
