import CertKeeper.Time.Calendar

/-!
# Laws of the calendar

Finding the day of a count and counting the days up to it are inverse
(`Date.dayNumber_ofDayNumber`), and the day that is found is one of the calendar
(`Date.ofFields?_ofDayNumber`). The count goes through 400 years at a time: a year of these
has begun by the days before it and has not ended (`Date.yearOfEra_bounds`).
-/

namespace CertKeeper.Date

/-- The year of a day within 400 years, as `ofDayNumber` computes it, is the one in which the
day lies. -/
theorem yearOfEra_bounds {day year : Nat} (hday : day < 146097)
    (hyear : year = (day - day / 1460 + day / 36524 - day / 146096) / 365) :
  365 * year + year / 4 - year / 100 ≤ day
    ∧ day < 365 * (year + 1) + (year + 1) / 4 - (year + 1) / 100 + (year + 1) / 400
    ∧ year ≤ 399
  := by
  by_cases hlast : day = 146096
  · subst hlast
    omega
  · obtain ⟨century, hcentury⟩ : ∃ century, century = day / 36524 := ⟨_, rfl⟩
    rw [← hcentury, show day / 146096 = 0 by omega] at hyear
    have hleap : year / 4 ≤ day / 1460 := by omega
    have hsame : year / 100 = century := by omega
    have hleap' : day / 1460 ≤ (year + 1) / 4 := by omega
    -- The last year of a century ends with the century.
    by_cases hends : year + 1 = 100 * (century + 1)
    · have : century = 0 ∨ century = 1 ∨ century = 2 ∨ century = 3 := by omega
      refine ⟨by omega, ?_, by omega⟩
      rcases this with h | h | h | h <;> subst h <;> simp only [hends] <;> omega
    · have : (year + 1) / 100 = century := by omega
      refine ⟨by omega, by omega, by omega⟩

/-- Leap years come again after 400 years. -/
theorem isLeapYear_add (era : Int) (year : Nat) :
  isLeapYear (era * 400 + year) ↔ year % 4 = 0 ∧ (year % 100 ≠ 0 ∨ year % 400 = 0)
  := by
  have hfourth : (era * 400 + year) % 4 = 0 ↔ year % 4 = 0 := by omega
  have hcentury : (era * 400 + year) % 100 = 0 ↔ year % 100 = 0 := by omega
  have hera : (era * 400 + year) % 400 = 0 ↔ year % 400 = 0 := by omega
  simp only [isLeapYear, Bool.and_eq_true, Bool.or_eq_true, decide_eq_true_eq, ne_eq, hfourth,
    hcentury, hera]

/-- Only a year that ends with the leap day has more than 365 days. -/
theorem dayOfYear_lt {days year day : Nat} (hyear : year ≤ 399)
    (hday : day + (365 * year + year / 4 - year / 100) = days)
    (hnext : days < 365 * (year + 1) + (year + 1) / 4 - (year + 1) / 100 + (year + 1) / 400)
    (era : Int) :
  day < 365 + (if isLeapYear (era * 400 + (year + 1 : Nat)) then 1 else 0)
  := by
  have hquarter : (year + 1) / 4 ≤ year / 4 + 1 := by omega
  have hcentury : year / 100 ≤ (year + 1) / 100 := by omega
  have hera : (year + 1) / 400 ≤ (year + 1) / 100 - year / 100 := by omega
  split
  · omega
  · rename_i hleap
    rw [isLeapYear_add] at hleap
    have hsame : (year + 1) / 4 + (year + 1) / 400 ≤ year / 4 + ((year + 1) / 100 - year / 100) := by
      omega
    clear hleap
    omega

/-- The months begin with March, and the days before one of them are at most those before the
day. -/
theorem month_bounds {day month : Nat} (hday : day ≤ 365) (hmonth : month = (5 * day + 2) / 153) :
  (153 * month + 2) / 5 ≤ day ∧ day < (153 * (month + 1) + 2) / 5 ∧ month ≤ 11
  := by
  omega

/-- The parts of a day as `ofDayNumber` finds them: the years before it since the last change of
the 400 years, the days since the first of March, and the month counted from March. -/
theorem exists_ofDayNumber (n : Int) :
  ∃ (era : Int) (year day month : Nat),
    n + 719468 = era * 146097 + (365 * year + year / 4 - year / 100 + day : Nat)
      ∧ year ≤ 399 ∧ day < 365 + (if isLeapYear (era * 400 + (year + 1 : Nat)) then 1 else 0)
      ∧ (153 * month + 2) / 5 ≤ day ∧ day < (153 * (month + 1) + 2) / 5 ∧ month ≤ 11
      ∧ ((month < 10 ∧ ofDayNumber n
          = ⟨era * 400 + year, month + 3, day - (153 * month + 2) / 5 + 1⟩)
        ∨ (10 ≤ month ∧ ofDayNumber n
          = ⟨era * 400 + (year + 1 : Nat), month - 9, day - (153 * month + 2) / 5 + 1⟩))
  := by
  obtain ⟨era, hera⟩ : ∃ era, era = (n + 719468) / 146097 := ⟨_, rfl⟩
  obtain ⟨dayOfEra, hdayOfEra⟩ : ∃ d, d = ((n + 719468) % 146097).toNat := ⟨_, rfl⟩
  have hsplit : n + 719468 = era * 146097 + (dayOfEra : Int) := by omega
  have hlt : dayOfEra < 146097 := by omega
  obtain ⟨year, hyear⟩ : ∃ year,
    year = (dayOfEra - dayOfEra / 1460 + dayOfEra / 36524 - dayOfEra / 146096) / 365 := ⟨_, rfl⟩
  obtain ⟨day, hday⟩ : ∃ day, day = dayOfEra - (365 * year + year / 4 - year / 100) := ⟨_, rfl⟩
  obtain ⟨month, hmonth⟩ : ∃ month, month = (5 * day + 2) / 153 := ⟨_, rfl⟩
  obtain ⟨hle, hnext, hbound⟩ := yearOfEra_bounds hlt hyear
  have hyears : day + (365 * year + year / 4 - year / 100) = dayOfEra := by
    rw [hday, Nat.sub_add_cancel hle]
  have hlength := dayOfYear_lt hbound hyears hnext era
  have hends : day ≤ 365 := by
    split at hlength <;> omega
  obtain ⟨hfrom, hto, hlast⟩ := month_bounds hends hmonth
  rw [← hyears, Nat.add_comm] at hsplit
  refine ⟨era, year, day, month, hsplit, hbound, hlength, hfrom, hto, hlast, ?_⟩
  simp only [ofDayNumber, ← hera, ← hdayOfEra, ← hyear, ← hday, ← hmonth]
  by_cases h : month < 10
  · left
    constructor
    · apply h
    · rw [if_pos h, if_neg (by omega)]
  · right
    constructor
    · omega
    · rw [if_neg h, if_pos (by omega)]
      rw [Int.natCast_add, Int.add_assoc]
      rfl

/-- The days of the years before a year, counted from a change of the 400 years. -/
theorem daysOfYears (era : Int) {year : Nat} (h : year ≤ 399) :
  365 * (era * 400 + year) + (era * 400 + year) / 4 - (era * 400 + year) / 100
      + (era * 400 + year) / 400
    = era * 146097 + (365 * year + year / 4 - year / 100 : Nat)
  := by
  have hfourth : (era * 400 + year) / 4 = era * 100 + (year / 4 : Nat) := by omega
  have hcentury : (era * 400 + year) / 100 = era * 4 + (year / 100 : Nat) := by omega
  have hera : (era * 400 + year) / 400 = era := by omega
  rw [hfourth, hcentury, hera]
  omega

/-- The number of the day that is found is the one that was looked for. -/
theorem dayNumber_ofDayNumber (n : Int) :
  (ofDayNumber n).dayNumber = n
  := by
  obtain ⟨era, year, day, month, hn, hyear, -, hfrom, -, hlast, ⟨h, heq⟩ | ⟨h, heq⟩⟩ :=
    exists_ofDayNumber n
  · rw [heq]
    simp only [dayNumber]
    rw [if_neg (by omega), if_neg (by omega), Nat.add_sub_cancel, daysOfYears era hyear]
    omega
  · have hbefore : era * 400 + ((year + 1 : Nat) : Int) - 1 = era * 400 + year := by omega
    rw [heq]
    simp only [dayNumber]
    rw [if_pos (by omega), if_pos (by omega), Nat.sub_add_cancel (by omega), hbefore,
      daysOfYears era hyear]
    omega

/-- The day that is found is one of the calendar. -/
theorem ofFields?_ofDayNumber (n : Int) :
  ofFields? (ofDayNumber n).year (ofDayNumber n).month (ofDayNumber n).day = some (ofDayNumber n)
  := by
  obtain ⟨era, year, day, month, -, -, hlength, hfrom, hto, hlast, ⟨h, heq⟩ | ⟨h, heq⟩⟩ :=
    exists_ofDayNumber n
  · rw [heq, ofFields?, if_pos]
    have : month = 0 ∨ month = 1 ∨ month = 2 ∨ month = 3 ∨ month = 4 ∨ month = 5 ∨ month = 6
        ∨ month = 7 ∨ month = 8 ∨ month = 9 := by omega
    rcases this with rfl | rfl | rfl | rfl | rfl | rfl | rfl | rfl | rfl | rfl <;>
      simp only [daysInMonth] <;> omega
  · rw [heq, ofFields?, if_pos]
    have : month = 10 ∨ month = 11 := by omega
    rcases this with rfl | rfl
    · simp only [daysInMonth]
      omega
    · simp only [daysInMonth]
      split at hlength
      · rw [if_pos (by assumption)]
        omega
      · rw [if_neg (by assumption)]
        omega

theorem dayNumber_newYear (year : Int) :
  dayNumber ⟨year, 1, 1⟩
    = 365 * (year - 1) + (year - 1) / 4 - (year - 1) / 100 + (year - 1) / 400 + 306 - 719468
  := by
  simp [dayNumber]

/-- A day lies between the first days of its year and of the next one. -/
theorem year_bounds (n : Int) :
  dayNumber ⟨(ofDayNumber n).year, 1, 1⟩ ≤ n ∧ n < dayNumber ⟨(ofDayNumber n).year + 1, 1, 1⟩
  := by
  obtain ⟨era, year, day, month, hn, hyear, hlength, hfrom, hto, hlast, ⟨h, heq⟩ | ⟨h, heq⟩⟩ :=
    exists_ofDayNumber n
  · have hfirst : day < 306 := by omega
    rw [heq, dayNumber_newYear, dayNumber_newYear]
    clear heq hlength hfrom hto
    simp only
    constructor <;> omega
  · have hnew : 306 ≤ day := by omega
    have hends : day ≤ 365 := by
      split at hlength <;> omega
    rw [heq, dayNumber_newYear, dayNumber_newYear]
    clear heq hlength hfrom hto
    simp only
    constructor <;> omega

/-- The first days of years come in the order of the years. -/
theorem dayNumber_year_le {y z : Int} (h : y ≤ z) :
  dayNumber ⟨y, 1, 1⟩ ≤ dayNumber ⟨z, 1, 1⟩
  := by
  rw [dayNumber_newYear, dayNumber_newYear]
  omega

end CertKeeper.Date
