import Mathlib

/-! Proleptic Gregorian dates by ordinal, day 1 being 0001-01-01, and how soon a month's day or
weekday comes again. -/

namespace Gregorian

def leap (year : Nat) : Bool :=
  year % 4 == 0 && (year % 100 != 0 || year % 400 == 0)

def daysInMonth (year : Nat) : Nat → Nat
  | 2 => if leap year then 29 else 28
  | 4 | 6 | 9 | 11 => 30
  | _ => 31

def daysBeforeYear (year : Nat) : Nat :=
  (year - 1) * 365 + (year - 1) / 4 - (year - 1) / 100 + (year - 1) / 400

def daysOfMonths (year : Nat) : Nat → Nat
  | 0 => 0
  | months + 1 => daysOfMonths year months + daysInMonth year (months + 1)

def toOrdinal (year month day : Nat) : Nat :=
  daysBeforeYear year + daysOfMonths year (month - 1) + day

structure Date where
  year : Nat
  month : Nat
  day : Nat
  deriving DecidableEq, Repr

structure Date.Valid (date : Date) : Prop where
  year : 1 ≤ date.year
  month : 1 ≤ date.month ∧ date.month ≤ 12
  day : 1 ≤ date.day ∧ date.day ≤ daysInMonth date.year date.month

def yearOf (ordinal : Nat) : Nat × Nat :=
  let days := ordinal - 1
  let centuries := days % 146097 / 36524
  let years := days % 146097 % 36524 % 1461 / 365
  let year := days / 146097 * 400 + centuries * 100 + days % 146097 % 36524 / 1461 * 4 + years + 1
  if years = 4 ∨ centuries = 4 then (year - 1, 366)
  else (year, days % 146097 % 36524 % 1461 % 365 + 1)

def monthFrom (year : Nat) : Nat → Nat → Nat → Nat × Nat
  | 0, month, day => (month, day)
  | left + 1, month, day =>
      if day ≤ daysInMonth year month then (month, day)
      else monthFrom year left (month + 1) (day - daysInMonth year month)

def ofOrdinal (ordinal : Nat) : Date :=
  let (year, dayOfYear) := yearOf ordinal
  let (month, day) := monthFrom year 11 1 dayOfYear
  { year, month, day }

/-- Monday is 0. -/
def weekday (ordinal : Nat) : Nat :=
  (ordinal + 6) % 7

theorem leap_iff (year : Nat) :
    leap year = true ↔ year % 4 = 0 ∧ (year % 100 ≠ 0 ∨ year % 400 = 0) := by
  simp [leap]

theorem daysInMonth_pos (year month : Nat) : 28 ≤ daysInMonth year month := by
  unfold daysInMonth
  split
  · split <;> omega
  all_goals omega

theorem daysInMonth_common (year month : Nat) : daysInMonth 1 month ≤ daysInMonth year month := by
  have common : ¬ leap 1 = true := by decide
  unfold daysInMonth
  split
  · rw [if_neg common]
    split
    · exact Nat.le_succ 28
    · exact Nat.le_refl 28
  all_goals exact Nat.le_refl _

theorem daysInMonth_common_eq {month : Nat} (other : month ≠ 2) (year : Nat) :
    daysInMonth year month = daysInMonth 1 month := by
  unfold daysInMonth
  split
  · exact absurd rfl other
  all_goals rfl

theorem daysOfMonths_year (year : Nat) :
    daysOfMonths year 12 = if leap year then 366 else 365 := by
  simp only [daysOfMonths, daysInMonth]
  split <;> rfl

theorem daysOfMonths_add (year months more : Nat) :
    daysOfMonths year months ≤ daysOfMonths year (months + more) := by
  induction more with
  | zero => exact Nat.le_refl _
  | succ more ih => exact Nat.le_trans ih (Nat.le_add_right _ _)

theorem Date.Valid.ofYear {date : Date} (valid : date.Valid) :
    daysOfMonths date.year (date.month - 1) + date.day ≤ daysOfMonths date.year 12 := by
  have upTo := daysOfMonths_add date.year (date.month - 1 + 1) (12 - date.month)
  have : date.month - 1 + 1 + (12 - date.month) = 12 := by
    have := valid.month
    omega
  rw [this, daysOfMonths, Nat.sub_add_cancel valid.month.1] at upTo
  have := valid.day
  omega

theorem daysBeforeYear_cycles (cycles centuries fours years : Nat) (inCycle : centuries ≤ 3)
    (inCentury : fours ≤ 24) (inFour : years ≤ 3) :
    daysBeforeYear (cycles * 400 + centuries * 100 + fours * 4 + years + 1) =
      cycles * 146097 + centuries * 36524 + fours * 1461 + years * 365 := by
  unfold daysBeforeYear
  omega

theorem leap_cycles (cycles centuries fours years : Nat) (inCycle : centuries ≤ 3)
    (inCentury : fours ≤ 24) (inFour : years ≤ 3) :
    leap (cycles * 400 + centuries * 100 + fours * 4 + years + 1) = true ↔
      years = 3 ∧ (fours ≠ 24 ∨ centuries = 3) := by
  rw [leap_iff]
  omega

theorem cycle_divisions {cycles rest : Nat} (inside : rest < 146097) :
    (cycles * 146097 + rest) / 146097 = cycles ∧ (cycles * 146097 + rest) % 146097 = rest := by
  omega

theorem century_divisions {centuries fours years day : Nat} (inCentury : fours ≤ 24)
    (inFour : years ≤ 3) (inYear : day < 365 ∨ day = 365 ∧ years = 3 ∧ fours ≠ 24) :
    (centuries * 36524 + (fours * 1461 + years * 365 + day)) / 36524 = centuries ∧
      (centuries * 36524 + (fours * 1461 + years * 365 + day)) % 36524 =
        fours * 1461 + (years * 365 + day) := by
  omega

theorem fours_divisions {fours years day : Nat} (inFour : years ≤ 3)
    (inYear : day < 365 ∨ day = 365 ∧ years = 3) :
    (fours * 1461 + (years * 365 + day)) / 1461 = fours ∧
      (fours * 1461 + (years * 365 + day)) % 1461 = years * 365 + day := by
  omega

theorem yearOf_daysBeforeYear {year dayOfYear : Nat} (positive : 1 ≤ year)
    (first : 1 ≤ dayOfYear) (last : dayOfYear ≤ daysOfMonths year 12) :
    yearOf (daysBeforeYear year + dayOfYear) = (year, dayOfYear) := by
  obtain ⟨cycles, centuries, fours, years, inCycle, inCentury, inFour, rfl⟩ :
      ∃ cycles centuries fours years, centuries ≤ 3 ∧ fours ≤ 24 ∧ years ≤ 3 ∧
        year = cycles * 400 + centuries * 100 + fours * 4 + years + 1 :=
    ⟨(year - 1) / 400, (year - 1) % 400 / 100, (year - 1) % 100 / 4, (year - 1) % 4,
      by omega, by omega, by omega, by omega⟩
  obtain ⟨day, rfl⟩ : ∃ day, dayOfYear = day + 1 := ⟨dayOfYear - 1, by omega⟩
  have isLeap := leap_cycles cycles centuries fours years inCycle inCentury inFour
  have inYear : day < 365 ∨ day = 365 ∧ years = 3 ∧ (fours ≠ 24 ∨ centuries = 3) := by
    rw [daysOfMonths_year] at last
    split at last
    · rename_i leapYear
      have := isLeap.mp leapYear
      omega
    · omega
  have days : cycles * 146097 + centuries * 36524 + fours * 1461 + years * 365 + (day + 1) - 1 =
      cycles * 146097 + (centuries * 36524 + (fours * 1461 + years * 365 + day)) := by
    omega
  have cycle := @cycle_divisions cycles
    (centuries * 36524 + (fours * 1461 + years * 365 + day)) (by omega)
  rw [daysBeforeYear_cycles cycles centuries fours years inCycle inCentury inFour, yearOf, days]
  simp only [cycle]
  by_cases lastDay : day = 365 ∧ fours = 24
  · -- the last day of a four-hundred-year cycle
    have : centuries = 3 ∧ years = 3 := by omega
    obtain ⟨rfl, rfl⟩ := lastDay
    obtain ⟨rfl, rfl⟩ := this
    norm_num
  · have century := @century_divisions centuries fours years day inCentury inFour (by omega)
    have four := @fours_divisions fours years day inFour (by omega)
    simp only [century, four]
    split
    · rw [Prod.mk.injEq]
      omega
    · rw [Prod.mk.injEq]
      omega

theorem monthFrom_day {year left before months day target : Nat} (inYear : months ≤ left)
    (counted : daysOfMonths year before + day = daysOfMonths year (before + months) + target)
    (first : 1 ≤ target) (last : target ≤ daysInMonth year (before + months + 1)) :
    monthFrom year left (before + 1) day = (before + months + 1, target) := by
  induction left generalizing before months day with
  | zero =>
      obtain rfl : months = 0 := by omega
      rw [monthFrom, Prod.mk.injEq]
      exact ⟨rfl, Nat.add_left_cancel counted⟩
  | succ left ih =>
      rw [monthFrom]
      cases months with
      | zero =>
          obtain rfl : day = target := Nat.add_left_cancel counted
          exact if_pos last
      | succ months =>
          have shift : before + (months + 1) = before + 1 + months := by omega
          have upTo := daysOfMonths_add year (before + 1) months
          rw [shift] at counted last ⊢
          rw [daysOfMonths] at upTo
          have later : ¬ day ≤ daysInMonth year (before + 1) := by omega
          rw [if_neg later]
          refine ih (by omega) ?_ last
          rw [daysOfMonths]
          omega

theorem ofOrdinal_toOrdinal {date : Date} (valid : date.Valid) :
    ofOrdinal (toOrdinal date.year date.month date.day) = date := by
  obtain ⟨year, month, day⟩ := date
  have inYear := valid.ofYear
  obtain ⟨positive, ⟨january, december⟩, first, last⟩ := valid
  simp only at positive january december first last inYear
  have sameYear := yearOf_daysBeforeYear positive (by omega) inYear
  rw [toOrdinal, Nat.add_assoc, ofOrdinal, sameYear]
  have sameMonth := @monthFrom_day year 11 0 (month - 1) (daysOfMonths year (month - 1) + day) day
    (by omega) (by simp [daysOfMonths]) first (by rwa [Nat.zero_add, Nat.sub_add_cancel january])
  simp only [Nat.zero_add, Nat.sub_add_cancel january] at sameMonth
  simp only [sameMonth]

theorem daysBeforeYear_succ (year : Nat) (positive : 1 ≤ year) :
    daysBeforeYear (year + 1) = daysBeforeYear year + daysOfMonths year 12 := by
  obtain ⟨before, rfl⟩ : ∃ before, year = before + 1 := ⟨year - 1, by omega⟩
  have fours : (before + 1) / 4 = before / 4 + if 4 ∣ before + 1 then 1 else 0 := Nat.succ_div
  have hundreds : (before + 1) / 100 = before / 100 + if 100 ∣ before + 1 then 1 else 0 :=
    Nat.succ_div
  have cycles : (before + 1) / 400 = before / 400 + if 400 ∣ before + 1 then 1 else 0 :=
    Nat.succ_div
  have isLeap : leap (before + 1) = true ↔
      4 ∣ before + 1 ∧ (¬ 100 ∣ before + 1 ∨ 400 ∣ before + 1) := by
    rw [leap_iff, Nat.dvd_iff_mod_eq_zero, Nat.dvd_iff_mod_eq_zero, Nat.dvd_iff_mod_eq_zero]
  rw [daysOfMonths_year]
  simp only [daysBeforeYear, Nat.add_sub_cancel, fours, hundreds, cycles, isLeap]
  have fewer : before / 100 ≤ before / 4 := Nat.div_le_div_left (by decide) (by decide)
  by_cases four : 4 ∣ before + 1
  · by_cases hundred : 100 ∣ before + 1
    · by_cases cycle : 400 ∣ before + 1
      · simp only [four, hundred, cycle, if_true, not_true, or_true, and_true]
        omega
      · simp only [four, hundred, cycle, if_true, if_false, not_true, or_false, and_false]
        omega
    · have cycle : ¬ 400 ∣ before + 1 := fun divides => hundred (Nat.dvd_trans (by decide) divides)
      simp only [four, hundred, cycle, if_true, if_false, not_false_iff, true_or, and_true]
      omega
  · have hundred : ¬ 100 ∣ before + 1 := fun divides => four (Nat.dvd_trans (by decide) divides)
    have cycle : ¬ 400 ∣ before + 1 := fun divides => four (Nat.dvd_trans (by decide) divides)
    simp only [four, hundred, cycle, if_false, false_and]
    omega

theorem daysBeforeYear_years (year years : Nat) (positive : 1 ≤ year) :
    daysBeforeYear year + 365 * years ≤ daysBeforeYear (year + years) ∧
      daysBeforeYear (year + years) ≤ daysBeforeYear year + 366 * years := by
  induction years with
  | zero => simp
  | succ years ih =>
      rw [← Nat.add_assoc, daysBeforeYear_succ (year + years) (by omega), daysOfMonths_year]
      split
      · omega
      · omega

theorem exists_year (ordinal : Nat) (positive : 1 ≤ ordinal) :
    ∃ year, 1 ≤ year ∧ daysBeforeYear year < ordinal ∧ ordinal ≤ daysBeforeYear (year + 1) := by
  induction ordinal, positive using Nat.le_induction with
  | base => exact ⟨1, by decide⟩
  | succ ordinal _ ih =>
      obtain ⟨year, positive, after, upTo⟩ := ih
      by_cases same : ordinal + 1 ≤ daysBeforeYear (year + 1)
      · exact ⟨year, positive, by omega, same⟩
      · have next : daysBeforeYear (year + 1) + 1 ≤ daysBeforeYear (year + 1 + 1) := by
          unfold daysBeforeYear
          omega
        exact ⟨year + 1, by omega, by omega, by omega⟩

/-- A date whose ordinal is three days to three years away, of any month and day of every year. -/
theorem exists_ordinary_day {month day : Nat} (january : 1 ≤ month) (december : month ≤ 12)
    (first : 1 ≤ day) (ordinal : Nat) (positive : 1 ≤ ordinal)
    (last : ∀ year, day ≤ daysInMonth year month) :
    ∃ later, ordinal + 3 ≤ later ∧ later ≤ ordinal + 1100 ∧
      ∃ year, 1 ≤ year ∧ ofOrdinal later = ⟨year, month, day⟩ ∧
        later = toOrdinal year month day := by
  obtain ⟨year, yearPositive, after, upTo⟩ := exists_year ordinal positive
  have valid : Date.Valid ⟨year + 2, month, day⟩ :=
    ⟨by simp only; omega, ⟨january, december⟩, first, last _⟩
  have inYear : daysOfMonths (year + 2) (month - 1) + day ≤ 366 := by
    have := valid.ofYear
    rw [daysOfMonths_year] at this
    refine this.trans ?_
    split
    · exact Nat.le_refl _
    · decide
  have upper := daysBeforeYear_years year 2 yearPositive
  have lower : daysBeforeYear (year + 1) + 365 ≤ daysBeforeYear (year + 2) :=
    (daysBeforeYear_years (year + 1) 1 (by omega)).1
  refine ⟨_, ?_, ?_, year + 2, by omega, ofOrdinal_toOrdinal valid, rfl⟩
  · simp only [toOrdinal]
    omega
  · simp only [toOrdinal]
    omega

theorem daysBeforeYear_eight {fours : Nat} (positive : 1 ≤ fours)
    (century : ¬ leap (4 * fours + 4) = true) :
    leap (4 * fours) = true ∧ leap (4 * fours + 8) = true ∧
      daysBeforeYear (4 * fours + 8) = daysBeforeYear (4 * fours) + 2921 := by
  have step : ∀ more, daysBeforeYear (4 * fours + (more + 1)) =
      daysBeforeYear (4 * fours + more) +
        if leap (4 * fours + more) = true then 366 else 365 := by
    intro more
    rw [← daysOfMonths_year]
    exact daysBeforeYear_succ (4 * fours + more) (by omega)
  have leapYear : leap (4 * fours + 0) = true := by
    rw [leap_iff] at century ⊢
    omega
  have common : ∀ more, more % 4 ≠ 0 → ¬ leap (4 * fours + more) = true := by
    intro more inside isLeap
    rw [leap_iff] at isLeap
    omega
  refine ⟨leapYear, ?_, ?_⟩
  · rw [leap_iff] at century ⊢
    omega
  · rw [step 7, step 6, step 5, step 4, step 3, step 2, step 1, step 0, if_pos leapYear,
      if_neg century, if_neg (common 1 (by decide)), if_neg (common 2 (by decide)),
      if_neg (common 3 (by decide)), if_neg (common 5 (by decide)), if_neg (common 6 (by decide)),
      if_neg (common 7 (by decide))]
    rfl

theorem exists_leap_day (ordinal : Nat) (positive : 1 ≤ ordinal) :
    ∃ later, ordinal + 3 ≤ later ∧ later ≤ ordinal + 2923 ∧
      ∃ year, ofOrdinal later = ⟨year, 2, 29⟩ := by
  obtain ⟨year, yearPositive, after, upTo⟩ := exists_year ordinal positive
  have leapDay : ∀ found, 1 ≤ found → leap found = true →
      ofOrdinal (daysBeforeYear found + 60) = ⟨found, 2, 29⟩ := by
    intro found foundPositive isLeap
    have valid : Date.Valid ⟨found, 2, 29⟩ :=
      ⟨foundPositive, by simp, by simp [daysInMonth, isLeap]⟩
    have := ofOrdinal_toOrdinal valid
    simpa [toOrdinal, daysOfMonths, daysInMonth] using this
  obtain ⟨fours, before, inFours, rfl⟩ : ∃ fours before, before < 4 ∧ year = 4 * fours + before :=
    ⟨year / 4, year % 4, by omega, by omega⟩
  by_cases thisYear : leap (4 * fours + before) = true ∧
      ordinal ≤ daysBeforeYear (4 * fours + before) + 57
  · exact ⟨_, by omega, by omega, _, leapDay _ yearPositive thisYear.1⟩
  · by_cases fourth : leap (4 * fours + 4) = true
    · have reach := daysBeforeYear_years (4 * fours + before) (4 - before) yearPositive
      have next := daysBeforeYear_years (4 * fours + before + 1) (3 - before) (by omega)
      have sum : 4 * fours + before + (4 - before) = 4 * fours + 4 := by omega
      have sum' : 4 * fours + before + 1 + (3 - before) = 4 * fours + 4 := by omega
      rw [sum] at reach
      rw [sum'] at next
      exact ⟨_, by omega, by omega, _, leapDay _ (by omega) fourth⟩
    · have reach := daysBeforeYear_years (4 * fours + before) (8 - before) yearPositive
      have next := daysBeforeYear_years (4 * fours + before + 1) (7 - before) (by omega)
      have sum : 4 * fours + before + (8 - before) = 4 * fours + 8 := by omega
      have sum' : 4 * fours + before + 1 + (7 - before) = 4 * fours + 8 := by omega
      rw [sum] at reach
      rw [sum'] at next
      cases before with
      | zero =>
          have eighth := daysBeforeYear_eight (by omega) fourth
          have late : ¬ ordinal ≤ daysBeforeYear (4 * fours) + 57 := fun early =>
            thisYear ⟨eighth.1, early⟩
          simp only [Nat.add_zero] at after
          exact ⟨_, by omega, by omega, _, leapDay _ (by omega) eighth.2.1⟩
      | succ before =>
          have eighth : leap (4 * fours + 8) = true := by
            rw [leap_iff] at fourth ⊢
            omega
          exact ⟨_, by omega, by omega, _, leapDay _ (by omega) eighth⟩

/-- A day of a month that some year has comes again within eight years. -/
theorem exists_month_day {month day : Nat} (january : 1 ≤ month) (december : month ≤ 12)
    (first : 1 ≤ day) (last : day ≤ daysInMonth 2000 month) (ordinal : Nat)
    (positive : 1 ≤ ordinal) :
    ∃ later, ordinal + 3 ≤ later ∧ later ≤ ordinal + 2923 ∧
      (ofOrdinal later).month = month ∧ (ofOrdinal later).day = day := by
  by_cases leapDay : month = 2 ∧ day = 29
  · obtain ⟨rfl, rfl⟩ := leapDay
    obtain ⟨later, after, upTo, year, date⟩ := exists_leap_day ordinal positive
    exact ⟨later, after, upTo, by rw [date], by rw [date]⟩
  · have everyYear : ∀ year, day ≤ daysInMonth year month := by
      intro year
      refine Nat.le_trans ?_ (daysInMonth_common year month)
      by_cases february : month = 2
      · subst february
        have : daysInMonth 2000 2 = 29 := rfl
        have : daysInMonth 1 2 = 28 := rfl
        omega
      · rwa [daysInMonth_common_eq february 2000] at last
    obtain ⟨later, after, upTo, year, _, date, _⟩ :=
      exists_ordinary_day january december first ordinal positive everyYear
    exact ⟨later, after, by omega, by rw [date], by rw [date]⟩

theorem exists_month_weekday {month target : Nat} (january : 1 ≤ month) (december : month ≤ 12)
    (inWeek : target < 7) (ordinal : Nat) (positive : 1 ≤ ordinal) :
    ∃ later, ordinal + 3 ≤ later ∧ later ≤ ordinal + 2923 ∧
      (ofOrdinal later).month = month ∧ (weekday later + 1) % 7 = target ∧
      1 ≤ (ofOrdinal later).day ∧ (ofOrdinal later).day ≤ 7 := by
  have short : ∀ day, day ≤ 7 → ∀ year, day ≤ daysInMonth year month := by
    intro day inWeek year
    have := daysInMonth_pos year month
    omega
  obtain ⟨start, after, upTo, year, yearPositive, _, rfl⟩ := exists_ordinary_day january december
    (Nat.le_refl 1) ordinal positive (short 1 (by decide))
  have inDays : 1 + (target + 7 - toOrdinal year month 1 % 7) % 7 ≤ 7 := by omega
  have valid : Date.Valid ⟨year, month, 1 + (target + 7 - toOrdinal year month 1 % 7) % 7⟩ :=
    ⟨yearPositive, ⟨january, december⟩, Nat.le_add_right _ _, short _ inDays year⟩
  have date := ofOrdinal_toOrdinal valid
  simp only at date
  refine ⟨_, ?_, ?_, by rw [date], ?_, by rw [date]; exact Nat.le_add_right _ _, ?_⟩
  · simp only [toOrdinal] at after ⊢
    omega
  · simp only [toOrdinal] at upTo ⊢
    omega
  · simp only [toOrdinal, weekday]
    omega
  · rw [date]
    simp only
    omega

end Gregorian
