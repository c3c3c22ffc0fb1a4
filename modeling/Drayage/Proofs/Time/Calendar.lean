import Drayage.Time.Calendar

/-!
# Days and dates

Every day has one date, and the number of the day is found again from it. Both ways go
through years that begin in March: the day is so many days after the beginning of one.
-/

namespace Drayage.Date

/-- Days from 1 March of the year 0 to 1 March of another. -/
def daysBefore (y : Int) : Int := 365 * y + y / 4 - y / 100 + y / 400

theorem daysBefore_cycle (c y : Int) :
    daysBefore (y + c * 400) = daysPerCycle * c + daysBefore y := by
  unfold daysBefore daysPerCycle
  omega

theorem length_of_year_le (y : Int) : daysBefore (y + 1) - daysBefore y ≤ 366 := by
  unfold daysBefore
  omega

theorem isLeapYear_of_length {y : Int} (long : 365 < daysBefore (y + 1) - daysBefore y) :
    isLeapYear (y + 1) = true := by
  unfold daysBefore at long
  have four : (y + 1) % 4 = 0 := by omega
  have century : (y + 1) % 100 ≠ 0 ∨ (y + 1) % 400 = 0 := by omega
  simp only [isLeapYear, Bool.and_eq_true, Bool.or_eq_true, decide_eq_true_eq]
  exact ⟨four, century⟩

/-- The year that a day falls into, counted from March. -/
def marchYear (d : Date) : Int := if d.month ≤ 2 then d.year - 1 else d.year

theorem dayNumber_eq (d : Date) : dayNumber d =
    daysBefore d.marchYear + (153 * (((d.month + 9) % 12 : Nat) : Int) + 2) / 5 + d.day - 1
      - epochDay := by
  show d.marchYear / 400 * daysPerCycle + (d.marchYear % 400 * 365 + d.marchYear % 400 / 4
    - d.marchYear % 400 / 100 + ((153 * (((d.month + 9) % 12 : Nat) : Int) + 2) / 5 + d.day - 1))
    - epochDay = _
  unfold daysBefore daysPerCycle
  omega

/-- The date of a day that is so many days after the beginning of a year in March. -/
def ofMarch (y day : Int) : Date :=
  let month := (5 * day + 2) / 153
  let inMonth := day - (153 * month + 2) / 5 + 1
  if month < 10 then ⟨y, (month + 3).toNat, inMonth.toNat⟩
  else ⟨y + 1, (month - 9).toNat, inMonth.toNat⟩

theorem dayNumber_ofMarch (y : Int) {day : Int} (first : 0 ≤ day) (last : day < 366) :
    dayNumber (ofMarch y day) = daysBefore y + day - epochDay := by
  have lower : 0 ≤ (5 * day + 2) / 153 := by omega
  have upper : (5 * day + 2) / 153 < 12 := by omega
  have start : (153 * ((5 * day + 2) / 153) + 2) / 5 ≤ day := by omega
  rw [dayNumber_eq]
  unfold ofMarch
  generalize (5 * day + 2) / 153 = month at *
  dsimp only
  by_cases before : month < 10
  · have year : marchYear ⟨y, (month + 3).toNat, (day - (153 * month + 2) / 5 + 1).toNat⟩ = y :=
      if_neg (show ¬ (month + 3).toNat ≤ 2 by omega)
    have same : (((month + 3).toNat + 9) % 12 : Nat) = month.toNat := by omega
    rw [if_pos before, year, same]
    dsimp only
    omega
  · have year : marchYear ⟨y + 1, (month - 9).toNat, (day - (153 * month + 2) / 5 + 1).toNat⟩ =
        y + 1 - 1 := if_pos (show (month - 9).toNat ≤ 2 by omega)
    have same : (((month - 9).toNat + 9) % 12 : Nat) = month.toNat := by omega
    rw [if_neg before, year, Int.add_sub_cancel, same]
    dsimp only
    omega

/-- The year of a cycle that a day of the cycle falls into. -/
def yearOfDay (day : Int) : Int := (day - day / 1460 + day / 36524 - day / 146096) / 365

theorem yearOfDay_mono {a b : Int} (le : a ≤ b) : yearOfDay a ≤ yearOfDay b := by
  refine Int.ediv_le_ediv (by decide) ?_
  omega

theorem yearOfDay_bounds : ∀ y < 400, yearOfDay (daysBefore (y : Nat)) = y ∧
    yearOfDay (daysBefore (y + 1 : Nat) - 1) = y := by
  decide +kernel

theorem exists_year {day : Int} (first : 0 ≤ day) {m : Nat} (last : day < daysBefore m) :
    ∃ y < m, daysBefore (y : Nat) ≤ day ∧ day < daysBefore (y + 1 : Nat) := by
  induction m with
  | zero => exact absurd first (Int.not_le.mpr last)
  | succ m ih =>
    by_cases before : day < daysBefore m
    · obtain ⟨y, inside, bounds⟩ := ih before
      exact ⟨y, Nat.lt_succ_of_lt inside, bounds⟩
    · exact ⟨m, Nat.lt_succ_self m, Int.not_lt.mp before, last⟩

theorem ofDayNumber_eq {n y : Int} (inside : 0 ≤ y ∧ y < 400)
    (year : yearOfDay ((n + epochDay) % daysPerCycle) = y)
    (first : daysBefore y ≤ (n + epochDay) % daysPerCycle)
    (last : (n + epochDay) % daysPerCycle - daysBefore y < 366) :
    ofDayNumber n = ofMarch (y + (n + epochDay) / daysPerCycle * 400)
      ((n + epochDay) % daysPerCycle - daysBefore y) := by
  have start : 365 * y + y / 4 - y / 100 = daysBefore y := by
    unfold daysBefore
    omega
  have first := Int.sub_nonneg_of_le first
  unfold ofDayNumber ofMarch
  unfold yearOfDay at year
  dsimp only
  rw [year, start]
  generalize (n + epochDay) % daysPerCycle - daysBefore y = day at first last ⊢
  by_cases before : (5 * day + 2) / 153 < 10
  · have late : ¬ (5 * day + 2) / 153 + 3 ≤ 2 := by omega
    simp only [if_pos before, if_neg late]
  · have early : (5 * day + 2) / 153 - 9 ≤ 2 := by omega
    simp only [if_neg before, if_pos early]

/-- Every day falls into a year. -/
theorem exists_ofMarch (n : Int) : ∃ y day, 0 ≤ day ∧
    day < daysBefore (y + 1) - daysBefore y ∧ n + epochDay = daysBefore y + day ∧
    ofDayNumber n = ofMarch y day := by
  have first : 0 ≤ (n + epochDay) % daysPerCycle := Int.emod_nonneg _ (by decide)
  have last : (n + epochDay) % daysPerCycle < daysPerCycle := Int.emod_lt_of_pos _ (by decide)
  have split := Int.mul_ediv_add_emod (n + epochDay) daysPerCycle
  obtain ⟨y, inside, lower, upper⟩ := exists_year (m := 400) first last
  have year : yearOfDay ((n + epochDay) % daysPerCycle) = y := by
    obtain ⟨start, stop⟩ := yearOfDay_bounds y inside
    have after := yearOfDay_mono lower
    have before := yearOfDay_mono (Int.le_sub_one_of_lt upper)
    omega
  have here := daysBefore_cycle ((n + epochDay) / daysPerCycle) y
  have next := daysBefore_cycle ((n + epochDay) / daysPerCycle) (y + 1)
  rw [Int.add_right_comm] at next
  rw [Int.natCast_succ] at upper
  have length := length_of_year_le (y : Int)
  exact ⟨y + (n + epochDay) / daysPerCycle * 400,
    (n + epochDay) % daysPerCycle - daysBefore y, by omega, by omega, by omega,
    ofDayNumber_eq (by omega) year lower (by omega)⟩

/-- The day of a date is found again. -/
theorem dayNumber_ofDayNumber (n : Int) : dayNumber (ofDayNumber n) = n := by
  obtain ⟨y, day, first, last, eq, date⟩ := exists_ofMarch n
  have := length_of_year_le y
  rw [date, dayNumber_ofMarch y first (by omega), ← eq, Int.add_sub_cancel]

/-- All months but February are as long as the days between their beginnings. -/
theorem monthLength_eq (y : Int) : ∀ m < 11,
    monthLength y ((m + 2) % 12 + 1) = (153 * (m + 1) + 2) / 5 - (153 * m + 2) / 5
  | 0, _ | 1, _ | 2, _ | 3, _ | 4, _ | 5, _ | 6, _ | 7, _ | 8, _ | 9, _ | 10, _ => rfl
  | _ + 11, h => absurd h (by omega)

theorem daysBefore_mono {a b : Int} (h : a ≤ b) : daysBefore a ≤ daysBefore b := by
  unfold daysBefore
  omega

theorem year_ofMarch (y day : Int) :
    (ofMarch y day).year = if (5 * day + 2) / 153 < 10 then y else y + 1 := by
  unfold ofMarch
  dsimp only
  split <;> rfl

theorem month_ofMarch {y day : Int} (first : 0 ≤ day) (last : day < 366) :
    (ofMarch y day).month = (((5 * day + 2) / 153).toNat + 2) % 12 + 1 := by
  unfold ofMarch
  dsimp only
  split
  · show ((5 * day + 2) / 153 + 3).toNat = _
    omega
  · show ((5 * day + 2) / 153 - 9).toNat = _
    omega

theorem day_ofMarch (y day : Int) :
    (ofMarch y day).day = (day - (153 * ((5 * day + 2) / 153) + 2) / 5 + 1).toNat := by
  unfold ofMarch
  dsimp only
  split <;> rfl

theorem day_ofMarch_le {y day : Int} (first : 0 ≤ day)
    (last : day < daysBefore (y + 1) - daysBefore y) :
    (ofMarch y day).day ≤ monthLength (ofMarch y day).year (ofMarch y day).month := by
  have length := length_of_year_le y
  have inside : day < 366 := by omega
  rw [month_ofMarch first inside, day_ofMarch]
  by_cases february : ((5 * day + 2) / 153).toNat < 11
  · rw [monthLength_eq _ _ february]
    have month : (5 * day + 2) / 153 = ((5 * day + 2) / 153).toNat := by omega
    generalize ((5 * day + 2) / 153).toNat = m at month ⊢
    have cast : 153 * (m : Int) + 2 = (153 * m + 2 : Nat) := rfl
    rw [month, cast]
    omega
  · have month : (5 * day + 2) / 153 = 11 := by omega
    rw [year_ofMarch, month]
    show _ ≤ if isLeapYear (y + 1) then 29 else 28
    split
    · omega
    · rename_i common
      have short : ¬ 365 < daysBefore (y + 1) - daysBefore y :=
        fun long => common (isLeapYear_of_length long)
      omega

theorem valid_ofMarch {y day : Int} (first : 0 ≤ day)
    (last : day < daysBefore (y + 1) - daysBefore y) (lower : firstYear ≤ (ofMarch y day).year)
    (upper : (ofMarch y day).year ≤ lastYear) : (ofMarch y day).valid = true := by
  have length := length_of_year_le y
  have month := month_ofMarch (y := y) first (by omega)
  have day := day_ofMarch y day
  have inMonth := day_ofMarch_le first last
  simp only [valid, Bool.and_eq_true, decide_eq_true_eq]
  refine ⟨⟨⟨⟨⟨lower, upper⟩, ?_⟩, ?_⟩, ?_⟩, inMonth⟩ <;> omega

/-- Each of the days that have a date has a valid one. -/
theorem valid_ofDayNumber {n : Int} (lower : dayNumber ⟨firstYear, 1, 1⟩ ≤ n)
    (upper : n ≤ dayNumber ⟨lastYear, 12, 31⟩) : (ofDayNumber n).valid = true := by
  obtain ⟨y, day, first, last, eq, date⟩ := exists_ofMarch n
  have start : dayNumber ⟨firstYear, 1, 1⟩ = daysBefore (firstYear - 1) + 306 - epochDay := by
    decide
  have stop : dayNumber ⟨lastYear, 12, 31⟩ = daysBefore lastYear + 305 - epochDay := by decide
  have years : daysBefore lastYear + 305 < daysBefore (lastYear + 1) := by decide
  rw [start] at lower
  rw [stop] at upper
  have year := year_ofMarch y day
  rw [date]
  refine valid_ofMarch first last ?_ ?_
  · refine Int.not_lt.mp fun early => ?_
    have next := daysBefore_mono (Int.le_sub_one_of_lt early)
    split at year
    · rw [year] at next
      omega
    · rw [year] at next
      omega
  · refine Int.not_lt.mp fun late => ?_
    have before := daysBefore_mono (Int.add_one_le_of_lt late)
    split at year
    · rw [year] at before
      omega
    · rw [year] at late
      have before := daysBefore_mono (Int.le_of_lt_add_one late)
      omega

/-- The numbers of a date take no more than two digits. -/
theorem valid_bounds {d : Date} (h : d.valid = true) :
    1 ≤ d.month ∧ d.month ≤ 12 ∧ 1 ≤ d.day ∧ d.day ≤ 31 := by
  simp only [valid, Bool.and_eq_true, decide_eq_true_eq] at h
  have length : monthLength d.year d.month ≤ 31 := by
    unfold monthLength
    split
    · split <;> decide
    all_goals decide
  omega

end Drayage.Date
