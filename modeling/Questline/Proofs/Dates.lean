import Questline.Calendar

/-!
# Days and dates

The date with a number exists and has that number (`isValid_ofDays`, `toDays_ofDays`), and
for the days of an instant its year stays within the years that instants are limited to
(`year_ofDays`).

A cycle of 400 years is counted from a first of March. `daysBefore` is the number of its
days before one of its years; the year of a day is the one whose days, by that count, enclose
it (`enclosed`). As the reading of the year takes the leap days off a day and divides by 365,
and the taking off is monotone (`withoutLeaps_mono`), it is enough to look at the first day of
a year and the day before it.
-/

namespace Questline.Date

/-! ## The year of a day -/

/-- The days of a cycle before a year of it. -/
def daysBefore (year : Int) : Int := 365 * year + year / 4 - year / 100

/-- A day of a cycle with the leap days before it taken off. -/
def withoutLeaps (day : Int) : Int := day - day / 1460 + day / 36524 - day / 146096

theorem withoutLeaps_mono {m n : Int} (h : m ≤ n) : withoutLeaps m ≤ withoutLeaps n := by
  unfold withoutLeaps
  omega

/-- No more than the leap days of earlier years are taken off the first day of a year. -/
theorem withoutLeaps_first {year : Int} (hlow : 0 ≤ year) (hhigh : year < 400) :
    year * 365 ≤ withoutLeaps (daysBefore year) := by
  have hfourths : daysBefore year / 1460 ≤ year / 4 := by unfold daysBefore; omega
  have hcenturies : year / 100 ≤ daysBefore year / 36524 := by unfold daysBefore; omega
  have hcycles : daysBefore year / 146096 = 0 := by unfold daysBefore; omega
  have hdays : daysBefore year = 365 * year + year / 4 - year / 100 := rfl
  unfold withoutLeaps
  omega

/-- No fewer are taken off the day before it. -/
theorem withoutLeaps_last {year : Int} (hlow : 0 < year) (hhigh : year < 400) :
    withoutLeaps (daysBefore year - 1) < year * 365 := by
  have hfourths : year / 4 ≤ (daysBefore year - 1) / 1460 := by unfold daysBefore; omega
  have hcenturies : (daysBefore year - 1) / 36524 ≤ year / 100 := by unfold daysBefore; omega
  have hcycles : 0 ≤ (daysBefore year - 1) / 146096 := by unfold daysBefore; omega
  have hdays : daysBefore year = 365 * year + year / 4 - year / 100 := rfl
  unfold withoutLeaps
  omega

/-- A day lies among the days of its year. The last day of a cycle is the leap day that
every fourth century has more than the others. -/
theorem enclosed {day year : Int} (hlow : 0 ≤ day) (hhigh : day < 146097)
    (hyear : year = withoutLeaps day / 365) :
    0 ≤ year ∧ year ≤ 399 ∧ daysBefore year ≤ day
      ∧ (day < daysBefore (year + 1) ∨ (year = 399 ∧ day = 146096)) := by
  have hfirst : withoutLeaps 0 ≤ withoutLeaps day := withoutLeaps_mono hlow
  have hlast : withoutLeaps day ≤ withoutLeaps 146096 := withoutLeaps_mono (by omega)
  rw [show withoutLeaps 0 = 0 from rfl] at hfirst
  rw [show withoutLeaps 146096 = 145999 from rfl] at hlast
  have hyear_low : 0 ≤ year := by omega
  have hyear_high : year ≤ 399 := by omega
  refine ⟨hyear_low, hyear_high, ?_, ?_⟩
  · by_cases hzero : year = 0
    · subst hzero
      exact hlow
    · refine Int.not_lt.mp fun hbefore => ?_
      have hmono := withoutLeaps_mono (show day ≤ daysBefore year - 1 by omega)
      have := withoutLeaps_last (show 0 < year by omega) (by omega)
      omega
  · by_cases hend : year = 399
    · subst hend
      rw [show daysBefore (399 + 1) = 146096 from rfl]
      omega
    · refine .inl (Int.not_le.mp fun hafter => ?_)
      have hmono := withoutLeaps_mono hafter
      have := withoutLeaps_first (show 0 ≤ year + 1 by omega) (by omega)
      omega

/-- The days of a year. -/
theorem daysBefore_succ (year : Int) :
    daysBefore (year + 1) ≤ daysBefore year + 366
      ∧ (daysBefore year + 365 < daysBefore (year + 1) → isLeapYear (year + 1) = true) := by
  unfold daysBefore isLeapYear
  constructor
  · omega
  · intro h
    simp
    omega

/-- Leap years recur with the cycles. -/
theorem isLeapYear_add_cycles (cycle year : Int) :
    isLeapYear (cycle * 400 + year) = isLeapYear year := by
  unfold isLeapYear
  rw [show (cycle * 400 + year) % 4 = year % 4 by omega,
    show (cycle * 400 + year) % 100 = year % 100 by omega,
    show (cycle * 400 + year) % 400 = year % 400 by omega]

/-! ## The month of a day -/

/-- The days of a year, counted from March, before a month of it. -/
def daysBeforeMonth (month : Int) : Int := (153 * month + 2) / 5

/-- What a number of days is taken apart into: a cycle, a year of it and a day of that year,
which lies among the days of its month. Months are counted from March. -/
structure Parts (days cycle year dayOfYear month : Int) : Prop where
  sum : days + 719468 = cycle * 146097 + daysBefore year + dayOfYear
  year_range : 0 ≤ year ∧ year ≤ 399
  day_range : 0 ≤ dayOfYear ∧ dayOfYear ≤ 365
  leap : dayOfYear = 365 → isLeapYear (cycle * 400 + year + 1) = true
  month_range : 0 ≤ month ∧ month ≤ 11
  within : daysBeforeMonth month ≤ dayOfYear ∧ dayOfYear < daysBeforeMonth (month + 1)

/-- The date that such parts make. -/
def ofParts (cycle year dayOfYear month : Int) : Date :=
  ⟨if month < 10 then cycle * 400 + year else cycle * 400 + year + 1,
    (if month < 10 then month + 3 else month - 9).toNat,
    (dayOfYear - daysBeforeMonth month + 1).toNat⟩

theorem parts_ofDays (days : Int) :
    ∃ cycle year dayOfYear month, Parts days cycle year dayOfYear month
      ∧ ofDays days = ofParts cycle year dayOfYear month := by
  obtain ⟨cycle, hcycle⟩ : ∃ cycle, cycle = (days + 719468) / 146097 := ⟨_, rfl⟩
  obtain ⟨day, hday⟩ : ∃ day, day = days + 719468 - cycle * 146097 := ⟨_, rfl⟩
  obtain ⟨year, hyear⟩ : ∃ year, year = withoutLeaps day / 365 := ⟨_, rfl⟩
  obtain ⟨dayOfYear, hdayOfYear⟩ : ∃ d, d = day - daysBefore year := ⟨_, rfl⟩
  obtain ⟨month, hmonth⟩ : ∃ m, m = (5 * dayOfYear + 2) / 153 := ⟨_, rfl⟩
  obtain ⟨hlow, hhigh, hfirst, hlast⟩ := enclosed (by omega) (by omega) hyear
  obtain ⟨hlength, hleap⟩ := daysBefore_succ year
  have hdayRange : 0 ≤ dayOfYear ∧ dayOfYear ≤ 365 := by
    rcases hlast with hlast | ⟨rfl, rfl⟩
    · omega
    · rw [hdayOfYear]
      decide
  refine ⟨cycle, year, dayOfYear, month, ⟨by omega, ⟨hlow, hhigh⟩, hdayRange, ?_, ?_, ?_⟩, ?_⟩
  · intro hleapDay
    rw [Int.add_assoc, isLeapYear_add_cycles]
    rcases hlast with hlast | ⟨rfl, -⟩
    · exact hleap (by omega)
    · rfl
  · omega
  · unfold daysBeforeMonth
    omega
  · have hyear' : (day - day / 1460 + day / 36524 - day / 146096) / 365 = year := hyear.symm
    have hdayOfYear' : day - (365 * year + year / 4 - year / 100) = dayOfYear := hdayOfYear.symm
    simp only [ofDays, ← hcycle, ← hday, hyear', hdayOfYear', ← hmonth]
    unfold ofParts daysBeforeMonth
    congr 1
    split <;> omega

theorem toDays_ofDays (days : Int) : toDays (ofDays days) = days := by
  obtain ⟨cycle, year, dayOfYear, month, hparts, heq⟩ := parts_ofDays days
  rw [heq]
  obtain ⟨hsum, hyear, -, -, hmonth, hwithin⟩ := hparts
  unfold daysBefore at hsum
  unfold daysBeforeMonth at hwithin
  by_cases hm : month < 10
  · have hmonth' : (((month + 3).toNat : Int) + 9) % 12 = month := by omega
    simp only [toDays, ofParts, if_pos hm, hmonth', daysBeforeMonth]
    rw [if_neg (by omega)]
    omega
  · have hmonth' : (((month - 9).toNat : Int) + 9) % 12 = month := by omega
    simp only [toDays, ofParts, if_neg hm, hmonth', daysBeforeMonth]
    rw [if_pos (by omega)]
    omega

theorem isValid_ofDays (days : Int) : (ofDays days).isValid = true := by
  obtain ⟨cycle, year, dayOfYear, month, hparts, heq⟩ := parts_ofDays days
  rw [heq]
  obtain ⟨-, -, hday, hleap, hmonth, hwithin⟩ := hparts
  unfold daysBeforeMonth at hwithin
  by_cases hfebruary : month = 11
  · subst hfebruary
    by_cases hlast : dayOfYear = 365
    · simp [isValid, ofParts, daysInMonth, daysBeforeMonth, hleap hlast, hlast]
    · simp [isValid, ofParts, daysInMonth, daysBeforeMonth]
      split <;> omega
  · have hcases : month = 0 ∨ month = 1 ∨ month = 2 ∨ month = 3 ∨ month = 4 ∨ month = 5
        ∨ month = 6 ∨ month = 7 ∨ month = 8 ∨ month = 9 ∨ month = 10 := by omega
    rcases hcases with rfl | rfl | rfl | rfl | rfl | rfl | rfl | rfl | rfl | rfl | rfl
    all_goals
      simp [isValid, ofParts, daysInMonth, daysBeforeMonth]
      omega

theorem daysInMonth_le (year : Int) (month : Nat) : daysInMonth year month ≤ 31 := by
  unfold daysInMonth
  split
  · split <;> decide
  · split <;> decide

/-- The month and the day of a date have two digits. -/
theorem lt_of_isValid {d : Date} (h : d.isValid = true) : d.month < 100 ∧ d.day < 100 := by
  have := daysInMonth_le d.year d.month
  simp [isValid] at h
  omega

/-- The years of the days that instants are limited to. -/
theorem year_ofDays {days : Int} (h : -96465292 ≤ days ∧ days ≤ 95026236) :
    -262143 ≤ (ofDays days).year ∧ (ofDays days).year ≤ 262142 := by
  obtain ⟨cycle, year, dayOfYear, month, hparts, heq⟩ := parts_ofDays days
  rw [heq]
  obtain ⟨hsum, hyear, hday, -, hmonth, hwithin⟩ := hparts
  unfold daysBefore at hsum
  unfold daysBeforeMonth at hwithin
  by_cases hm : month < 10
  · simp only [ofParts, if_pos hm]
    refine ⟨Int.not_lt.mp fun hlt => ?_, by omega⟩
    have hcycle : cycle = -656 := by omega
    have hyear : year = 256 := by omega
    subst hcycle hyear
    omega
  · simp only [ofParts, if_neg hm]
    refine ⟨by omega, Int.not_lt.mp fun hlt => ?_⟩
    have hcycle : cycle = 655 := by omega
    have hyear : year = 142 := by omega
    subst hcycle hyear
    omega

end Questline.Date
