import Drayage.Proofs.Time.Calendar
import Drayage.Time.Rfc3339
import Mathlib.Data.Option.Basic

/-!
# Reading instants

An instant is read back from its text, whatever the offset and the fraction were that it
was first given with.
-/

namespace Drayage.Instant

/-- An instant that has a text: its second has a date, and it counts a leap second at the
end of a minute only. -/
structure Legible (t : Instant) : Prop where
  lower : earliest ≤ t.seconds * 10 ^ 9
  upper : t.seconds * 10 ^ 9 ≤ latest
  nanos : t.nanos < 2 * 10 ^ 9
  leap : 10 ^ 9 ≤ t.nanos → t.seconds % 60 = 59

/-! ## Digits -/

def AllDigits (ds : List Char) : Prop := ∀ d ∈ ds, isDigit d = true

theorem isDigit_iff {c : Char} : isDigit c = true ↔ 48 ≤ c.toNat ∧ c.toNat ≤ 57 := by
  simp only [isDigit, Bool.and_eq_true, decide_eq_true_eq]
  exact Iff.rfl

theorem isBlank_of_isDigit {c : Char} (h : isDigit c = true) : Text.isBlank c = false := by
  rw [isDigit_iff] at h
  simp only [Text.isBlank, Text.inRanges, Text.blankRanges, List.any_cons, List.any_nil]
  simp
  omega

theorem allDigits_pad (width n : Nat) : AllDigits (pad width n) := by
  intro d hd
  rcases List.mem_append.mp hd with hd | hd
  · rw [List.eq_of_mem_replicate hd]
    rfl
  · have digit := Nat.isDigit_of_mem_toDigits (by decide) (by decide) hd
    simp only [Char.isDigit, Bool.and_eq_true, decide_eq_true_eq] at digit
    exact isDigit_iff.mpr digit

theorem length_pad {width n : Nat} (positive : 0 < width) (h : n < 10 ^ width) :
    (pad width n).length = width := by
  have short := (Nat.length_toDigits_le_iff (by decide) positive).mpr h
  rw [pad, List.length_append, List.length_replicate]
  omega

theorem pad_ne_nil (width n : Nat) : pad width n ≠ [] := by
  simp [pad]

theorem value_eq_ofDigitChars (ds : List Char) : value ds = Nat.ofDigitChars 10 ds 0 := by
  unfold value
  rw [Nat.ofDigitChars_eq_foldl]
  congr 1
  funext n d
  rw [Nat.mul_comm]

theorem value_pad (width n : Nat) : value (pad width n) = n := by
  rw [value_eq_ofDigitChars, pad, Nat.ofDigitChars_append, Nat.ofDigitChars_replicate_zero,
    Nat.mul_zero, Nat.ofDigitChars_ten_toDigits]

/-- What follows a number does not go on with it. -/
def Ends (rest : List Char) : Prop := ∀ c ∈ rest.head?, isDigit c = false

/-- The digits of a number are all there are, or all that are asked for. -/
theorem takeDigits_append {width : Nat} {ds rest : List Char} (digits : AllDigits ds)
    (short : ds.length ≤ width) (ends : ds.length = width ∨ Ends rest) :
    ((ds ++ rest).take width).takeWhile isDigit = ds := by
  rw [List.take_append, List.take_of_length_le short, List.takeWhile_append_of_pos digits]
  have nothing : (rest.take (width - ds.length)).takeWhile isDigit = [] := by
    rcases ends with full | ends
    · rw [full, Nat.sub_self, List.take_zero]
      rfl
    · cases rest with
      | nil => simp
      | cons c rest =>
        cases width - ds.length with
        | zero => rfl
        | succ k => exact List.takeWhile_cons_of_neg (by simp [ends c rfl])
  rw [nothing, List.append_nil]

theorem trimStart_digits {ds rest : List Char} (digits : AllDigits ds) (some : ds ≠ []) :
    Text.trimStart (ds ++ rest) = ds ++ rest := by
  cases ds with
  | nil => exact absurd rfl some
  | cons d ds =>
    have := isBlank_of_isDigit (digits d List.mem_cons_self)
    exact List.dropWhile_cons_of_neg (by simp [this])

theorem number?_append {width : Nat} {ds rest : List Char} (digits : AllDigits ds)
    (some : ds ≠ []) (short : ds.length ≤ width) (ends : ds.length = width ∨ Ends rest) :
    number? width (ds ++ rest) = .some (value ds, rest) := by
  unfold number?
  simp only [trimStart_digits digits some, takeDigits_append digits short ends,
    List.isEmpty_eq_false_iff.mpr some, List.drop_left]
  rfl

/-- A number of the width that is asked for. -/
theorem number?_pad {width n : Nat} (positive : 0 < width) (h : n < 10 ^ width)
    (rest : List Char) : number? width (pad width n ++ rest) = some (n, rest) := by
  have length := length_pad positive h
  rw [number?_append (allDigits_pad width n) (pad_ne_nil width n) (Nat.le_of_eq length)
    (.inl length), value_pad]

theorem twoDigits_pad {n : Nat} (h : n < 100) (rest : List Char) :
    number? 2 (pad 2 n ++ rest) = some (n, rest) := number?_pad (by decide) h rest

theorem fraction?_pad {width n : Nat} (positive : 0 < width) (short : width ≤ 9)
    (h : n < 10 ^ width) {rest : List Char} (ends : Ends rest) :
    fraction? ('.' :: (pad width n ++ rest)) = some (n * 10 ^ (9 - width), rest) := by
  have length := length_pad positive h
  have digits := allDigits_pad width n
  have dropped : rest.dropWhile isDigit = rest := by
    cases rest with
    | nil => rfl
    | cons c rest => exact List.dropWhile_cons_of_neg (by simp [ends c rfl])
  unfold fraction?
  simp only [takeDigits_append digits (Nat.le_trans (Nat.le_of_eq length) short) (.inr ends),
    List.isEmpty_eq_false_iff.mpr (pad_ne_nil width n), List.drop_left' length, dropped,
    value_pad, length]
  rfl

theorem fraction?_printFraction {nanos : Nat} (h : nanos < 10 ^ 9) :
    fraction? (printFraction nanos ++ ['Z']) = some (nanos, ['Z']) := by
  have ends : Ends ['Z'] := by
    rintro c ⟨⟩
    rfl
  unfold printFraction
  split
  · rename_i none
    rw [none]
    rfl
  · split
    · rw [List.cons_append, fraction?_pad (by decide) (by decide) (by omega) ends]
      simp
      omega
    · split
      · rw [List.cons_append, fraction?_pad (by decide) (by decide) (by omega) ends]
        simp
        omega
      · rw [List.cons_append, fraction?_pad (by decide) (by decide) h ends]
        simp

theorem any_isDigit_append {ds : List Char} (digits : AllDigits ds) (some : ds ≠ [])
    (rest : List Char) : (ds ++ rest).head?.any isDigit = true := by
  cases ds with
  | nil => exact absurd rfl some
  | cons d ds => exact digits d List.mem_cons_self

/-- A number that goes on as long as there are digits. -/
theorem number?_all {n : Nat} {rest : List Char} (ends : Ends rest) :
    number? (pad 4 n ++ rest).length (pad 4 n ++ rest) = some (n, rest) := by
  have short : (pad 4 n).length ≤ (pad 4 n ++ rest).length := by
    rw [List.length_append]
    exact Nat.le_add_right _ _
  rw [number?_append (allDigits_pad 4 n) (pad_ne_nil 4 n) short (.inr ends), value_pad]

theorem bind_of_eq {α β : Type} {x : Option α} {a : α} {f : α → Option β} (h : x = some a) :
    x >>= f = f a := by
  rw [h]
  rfl

theorem year?_printYear (y : Int) {rest : List Char} (ends : Ends rest) :
    year? (printYear y ++ rest) = some (y, rest) := by
  have head := any_isDigit_append (allDigits_pad 4 y.natAbs) (pad_ne_nil 4 y.natAbs) rest
  unfold printYear
  by_cases plain : 0 ≤ y ∧ y ≤ 9999
  · rw [if_pos plain]
    have digits := allDigits_pad 4 y.toNat
    unfold year?
    simp only [trimStart_digits digits (pad_ne_nil 4 y.toNat)]
    have first := any_isDigit_append digits (pad_ne_nil 4 y.toNat) rest
    split
    · rename_i eq
      rw [eq] at first
      cases first
    · rename_i eq
      rw [eq] at first
      cases first
    · rw [number?_pad (by decide) (by omega)]
      simp
      omega
  · rw [if_neg plain]
    have signed : (guard ((pad 4 y.natAbs ++ rest).head?.any isDigit) : Option Unit) = some () :=
      (Option.guard_eq_some' ()).mpr head
    by_cases negative : y < 0
    · rw [if_pos negative]
      refine (bind_of_eq signed).trans ((bind_of_eq (number?_all ends)).trans ?_)
      have value : -(y.natAbs : Int) = y := by omega
      show some (-(y.natAbs : Int), rest) = _
      rw [value]
    · rw [if_neg negative]
      refine (bind_of_eq signed).trans ((bind_of_eq (number?_all ends)).trans ?_)
      have value : (y.natAbs : Int) = y := by omega
      show some ((y.natAbs : Int), rest) = _
      rw [value]

/-! ## The whole text -/

theorem Legible.date {t : Instant} (h : t.Legible) :
    (Date.ofDayNumber (t.seconds / 86400)).valid = true := by
  have lower := h.lower
  have upper := h.upper
  unfold earliest at lower
  unfold latest at upper
  exact Date.valid_ofDayNumber (by omega) (by omega)

theorem mark?_cons {c : Char} (h : Text.isBlank c = false) (cs : List Char) :
    mark? c (c :: cs) = some cs := by
  have trimmed : Text.trimStart (c :: cs) = c :: cs := List.dropWhile_cons_of_neg (by simp [h])
  unfold mark?
  rw [trimmed]
  exact if_pos rfl

/-- The second that is shown for an instant: in a leap second, one more than it counts as. -/
def shownSecond (t : Instant) : Nat :=
  (t.seconds % 86400).toNat % 60 + if 10 ^ 9 ≤ t.nanos then 1 else 0

/-- The nanoseconds that are shown for an instant. -/
def shownNanos (t : Instant) : Nat := if 10 ^ 9 ≤ t.nanos then t.nanos - 10 ^ 9 else t.nanos

theorem Legible.shown {t : Instant} (h : t.Legible) : t.shownSecond ≤ 60 ∧
    t.shownNanos < 10 ^ 9 ∧
    (if t.shownSecond = 60 then 59 else t.shownSecond) = (t.seconds % 86400).toNat % 60 ∧
    (if t.shownSecond = 60 then t.shownNanos + 10 ^ 9 else t.shownNanos) = t.nanos := by
  have nanos := h.nanos
  unfold shownSecond shownNanos
  by_cases leap : 10 ^ 9 ≤ t.nanos
  · have last := h.leap leap
    have sixty : (t.seconds % 86400).toNat % 60 + 1 = 60 := by omega
    simp only [if_pos leap, if_pos sixty]
    omega
  · have other : (t.seconds % 86400).toNat % 60 + 0 ≠ 60 := by omega
    simp only [if_neg leap, if_neg other]
    refine ⟨by omega, by omega, rfl, trivial⟩

/-- The instant on a day, from the part of its text behind the date. -/
def clock? (date : Date) (cs : List Char) : Option Instant := do
  let (hour, cs) ← number? 2 cs
  let cs ← mark? ':' cs
  let (minute, cs) ← number? 2 cs
  let cs ← mark? ':' cs
  let (second, cs) ← number? 2 cs
  let (nanos, cs) ← fraction? cs
  let (offset, cs) ← zone? (Text.trimStart cs)
  guard (Text.trimStart cs).isEmpty
  guard (date.valid && hour ≤ 23 && minute ≤ 59 && second ≤ 60)
  let leap := second = 60
  let inDay : Int := hour * 3600 + minute * 60 + (if leap then 59 else second)
  let t : Instant :=
    ⟨date.dayNumber * 86400 + inDay - offset, if leap then nanos + 10 ^ 9 else nanos⟩
  guard (earliest ≤ t.seconds * 10 ^ 9 && t.seconds * 10 ^ 9 ≤ latest)
  return t

/-- The text of an instant behind its date. -/
def printClock (t : Instant) : List Char :=
  pad 2 ((t.seconds % 86400).toNat / 3600) ++
    ':' :: (pad 2 ((t.seconds % 86400).toNat / 60 % 60) ++
      ':' :: (pad 2 t.shownSecond ++ (printFraction t.shownNanos ++ ['Z'])))

theorem clock?_printClock {t : Instant} (h : t.Legible) {date : Date} (valid : date.valid = true)
    (number : date.dayNumber = t.seconds / 86400) : clock? date t.printClock = some t := by
  obtain ⟨second, nanos, sameSecond, sameNanos⟩ := h.shown
  have colon : Text.isBlank ':' = false := by decide
  have zone : zone? (Text.trimStart ['Z']) = some (0, []) := rfl
  have whole : date.dayNumber * 86400 + (((t.seconds % 86400).toNat / 3600 : Nat) * 3600 +
      ((t.seconds % 86400).toNat / 60 % 60 : Nat) * 60 +
      ((if t.shownSecond = 60 then 59 else t.shownSecond : Nat) : Int)) - 0 = t.seconds := by
    omega
  have last (u : Instant) (same : u = t) :
      (do
        guard (earliest ≤ u.seconds * 10 ^ 9 && u.seconds * 10 ^ 9 ≤ latest)
        return u : Option Instant) = some t := by
    subst same
    refine bind_of_eq ((Option.guard_eq_some' ()).mpr ?_)
    rw [decide_eq_true h.lower, decide_eq_true h.upper]
    rfl
  unfold clock? printClock
  refine (bind_of_eq (twoDigits_pad (by omega) _)).trans ?_
  refine (bind_of_eq (mark?_cons colon _)).trans ?_
  refine (bind_of_eq (twoDigits_pad (by omega) _)).trans ?_
  refine (bind_of_eq (mark?_cons colon _)).trans ?_
  refine (bind_of_eq (twoDigits_pad (by omega) _)).trans ?_
  refine (bind_of_eq (fraction?_printFraction nanos)).trans ?_
  refine (bind_of_eq zone).trans ?_
  refine (bind_of_eq ((Option.guard_eq_some' ()).mpr rfl)).trans ?_
  refine (bind_of_eq ((Option.guard_eq_some' ()).mpr ?_)).trans (last _ ?_)
  · have hour : (t.seconds % 86400).toNat / 3600 ≤ 23 := by omega
    have minute : (t.seconds % 86400).toNat / 60 % 60 ≤ 59 := by omega
    simp only [valid, decide_eq_true hour, decide_eq_true minute, decide_eq_true second,
      Bool.and_true]
  · exact congr (congrArg Instant.mk whole) sameNanos

/-- An instant is read back from its text. -/
theorem parse?_print {t : Instant} (h : t.Legible) : parse? t.print = some t := by
  have valid := h.date
  have number := Date.dayNumber_ofDayNumber (t.seconds / 86400)
  have bounds := Date.valid_bounds valid
  have dash : Text.isBlank '-' = false := by decide
  have chars : t.print.toList =
      printDate (Date.ofDayNumber (t.seconds / 86400)) ++ 'T' :: t.printClock := by
    unfold printClock
    simp only [← List.append_assoc, ← List.cons_append]
    exact String.toList_ofList
  generalize Date.ofDayNumber (t.seconds / 86400) = date at valid number bounds chars
  obtain ⟨year, month, day⟩ := date
  dsimp only at bounds
  unfold parse?
  rw [chars]
  simp only [printDate, List.append_assoc, List.cons_append]
  refine (bind_of_eq (year?_printYear year (by rintro c ⟨⟩; rfl))).trans ?_
  refine (bind_of_eq (mark?_cons dash _)).trans ?_
  refine (bind_of_eq (twoDigits_pad (by omega) _)).trans ?_
  refine (bind_of_eq (mark?_cons dash _)).trans ?_
  refine (bind_of_eq (twoDigits_pad (by omega) _)).trans ?_
  exact clock?_printClock h valid number

theorem value_lt {ds : List Char} (digits : AllDigits ds) : value ds < 10 ^ ds.length := by
  have below (n : Nat) : ds.foldl (fun n d => n * 10 + (d.toNat - '0'.toNat)) n
      < (n + 1) * 10 ^ ds.length := by
    induction ds generalizing n with
    | nil => simp
    | cons d ds ih =>
      have digit := isDigit_iff.mp (digits d List.mem_cons_self)
      have zero : '0'.toNat = 48 := rfl
      have step : n * 10 + (d.toNat - '0'.toNat) + 1 ≤ (n + 1) * 10 := by omega
      refine Nat.lt_of_lt_of_le (ih (fun c hc => digits c (List.mem_cons_of_mem _ hc)) _) ?_
      rw [List.length_cons, Nat.pow_succ', ← Nat.mul_assoc]
      exact Nat.mul_le_mul_right _ step
  have := below 0
  rwa [Nat.zero_add, Nat.one_mul] at this

theorem fraction?_lt {cs rest : List Char} {nanos : Nat} (h : fraction? cs = some (nanos, rest)) :
    nanos < 10 ^ 9 := by
  unfold fraction? at h
  split at h
  · rename_i cs
    dsimp only at h
    split at h
    · cases h
    · cases h
      have short : ((cs.take 9).takeWhile isDigit).length ≤ 9 :=
        Nat.le_trans (List.takeWhile_sublist _).length_le (List.length_take_le 9 cs)
      have small := value_lt (List.all_eq_true.mp (List.all_takeWhile (l := cs.take 9)))
      generalize (cs.take 9).takeWhile isDigit = ds at short small
      have positive : 0 < 10 ^ (9 - ds.length) := Nat.pow_pos (by decide)
      have := Nat.mul_lt_mul_of_pos_right small positive
      rwa [← Nat.pow_add, Nat.add_sub_cancel' short] at this
  · cases h
    decide

/-- The hours and minutes of an offset, behind its sign. -/
def shift? (negative : Bool) (rest : List Char) : Option (Int × List Char) := do
  let (hours, rest) ← twoDigits? '9' rest
  let rest := rest.dropWhile fun c => c = ':' || Text.isBlank c
  let (minutes, rest) ← twoDigits? '5' rest
  let seconds : Int := hours * 3600 + minutes * 60
  guard (seconds < 86400)
  return (if negative then -seconds else seconds, rest)

/-- Offsets are whole minutes. -/
theorem shift?_mod (negative : Bool) {cs rest : List Char} {offset : Int}
    (h : shift? negative cs = some (offset, rest)) : offset % 60 = 0 := by
  unfold shift? at h
  obtain ⟨⟨hours, _⟩, _, h⟩ := Option.bind_eq_some_iff.mp h
  obtain ⟨⟨minutes, _⟩, _, h⟩ := Option.bind_eq_some_iff.mp h
  obtain ⟨_, _, h⟩ := Option.bind_eq_some_iff.mp h
  cases h
  split <;> omega

theorem offset?_mod {cs rest : List Char} {offset : Int}
    (h : offset? cs = some (offset, rest)) : offset % 60 = 0 := by
  unfold offset? at h
  split at h
  · cases h
    rfl
  · cases h
    rfl
  · simp only at h
    split at h
    · exact shift?_mod false h
    · split at h
      · exact shift?_mod true h
      · cases h
  · cases h

theorem zone?_mod {cs rest : List Char} {offset : Int} (h : zone? cs = some (offset, rest)) :
    offset % 60 = 0 := by
  unfold zone? at h
  split at h
  · split at h
    · cases h
      rfl
    · exact offset?_mod h
  · exact offset?_mod h

theorem legible_of_clock? (date : Date) {cs : List Char} {t : Instant}
    (h : clock? date cs = some t) : t.Legible := by
  unfold clock? at h
  obtain ⟨⟨hour, _⟩, _, h⟩ := Option.bind_eq_some_iff.mp h
  obtain ⟨_, _, h⟩ := Option.bind_eq_some_iff.mp h
  obtain ⟨⟨minute, _⟩, _, h⟩ := Option.bind_eq_some_iff.mp h
  obtain ⟨_, _, h⟩ := Option.bind_eq_some_iff.mp h
  obtain ⟨⟨second, _⟩, _, h⟩ := Option.bind_eq_some_iff.mp h
  obtain ⟨⟨nanos, _⟩, fraction, h⟩ := Option.bind_eq_some_iff.mp h
  obtain ⟨⟨offset, _⟩, zone, h⟩ := Option.bind_eq_some_iff.mp h
  obtain ⟨_, _, h⟩ := Option.bind_eq_some_iff.mp h
  obtain ⟨_, _, h⟩ := Option.bind_eq_some_iff.mp h
  obtain ⟨_, range, h⟩ := Option.bind_eq_some_iff.mp h
  have small := fraction?_lt fraction
  have minutes := zone?_mod zone
  have range := (Option.guard_eq_some' _).mp range
  simp only [Bool.and_eq_true, decide_eq_true_eq] at range
  cases h
  refine ⟨range.1, range.2, ?_, fun leap => ?_⟩
  · dsimp only
    split <;> omega
  · dsimp only at leap ⊢
    split at leap
    · rename_i sixty
      rw [if_pos sixty]
      omega
    · omega

/-- Whatever text an instant was read from, it has one of its own. -/
theorem legible_of_parse? {s : String} {t : Instant} (h : parse? s = some t) : t.Legible := by
  unfold parse? at h
  obtain ⟨⟨year, _⟩, _, h⟩ := Option.bind_eq_some_iff.mp h
  obtain ⟨_, _, h⟩ := Option.bind_eq_some_iff.mp h
  obtain ⟨⟨month, _⟩, _, h⟩ := Option.bind_eq_some_iff.mp h
  obtain ⟨_, _, h⟩ := Option.bind_eq_some_iff.mp h
  obtain ⟨⟨day, _⟩, _, h⟩ := Option.bind_eq_some_iff.mp h
  dsimp only at h
  split at h
  · exact legible_of_clock? ⟨year, month, day⟩ h
  · exact legible_of_clock? ⟨year, month, day⟩ h
  · exact legible_of_clock? ⟨year, month, day⟩ h
  · cases h

end Drayage.Instant
