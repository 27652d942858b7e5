import Mathlib.Tactic.IntervalCases
import SoapNode.Time.Instant

/-!
# The calendar

Each day since 1970, and before, has one date, which counts back to it and is valid. An era of 400 years is split in
centuries, these in spans of four years, and these in years from March. A part is a day longer than the others of
its kind where it ends with a leap day, so the last part of each kind may take one day more.
-/

namespace SoapNode.Date

/-- A day of an era by its century, its span of four years there, the year of that and the day of the year. -/
structure Parts (day century span year rest : Int) : Prop where
  day_eq : day = 36524 * century + 1461 * span + 365 * year + rest
  century_le : 0 ≤ century ∧ century ≤ 3
  span_le : 0 ≤ span ∧ span ≤ 24
  year_le : 0 ≤ year ∧ year ≤ 3
  rest_le : 0 ≤ rest ∧ rest ≤ 365
  leap : rest = 365 → year = 3 ∧ (span = 24 → century = 3)

theorem exists_parts (days : Int) :
    ∃ century span year rest, Parts ((days + 719468) % 146097) century span year rest := by
  have hera := Int.emod_nonneg (days + 719468) (show (146097 : Int) ≠ 0 by decide)
  have hera' := Int.emod_lt_of_pos (days + 719468) (show (0 : Int) < 146097 by decide)
  generalize (days + 719468) % 146097 = day at hera hera'
  obtain ⟨century, hcentury⟩ : ∃ century, century = min (day / 36524) 3 := ⟨_, rfl⟩
  obtain ⟨inCentury, hin⟩ : ∃ inCentury, inCentury = day - 36524 * century := ⟨_, rfl⟩
  obtain ⟨year, hyear⟩ : ∃ year, year = min (inCentury % 1461 / 365) 3 := ⟨_, rfl⟩
  exact ⟨century, inCentury / 1461, year,
    inCentury % 1461 - 365 * year, by omega, by omega, by omega, by omega, by omega, by omega⟩

variable {days century span year rest : Int}

/-- A day lies within its century, or is the last day of the era. -/
theorem Parts.century_or_last {day : Int} (h : Parts day century span year rest) :
    day / 36524 = century ∧ day < 146096 ∨ day = 146096 ∧ century = 3 := by
  obtain ⟨hday, hcentury, _, _, _, hleap⟩ := h
  obtain ⟨inCentury, hin⟩ : ∃ inCentury, inCentury = 1461 * span + 365 * year + rest := ⟨_, rfl⟩
  have hbound : inCentury < 36524 ∨ inCentury = 36524 ∧ century = 3 := by omega
  have hday : day = 36524 * century + inCentury := by omega
  have hpos : 0 ≤ inCentury := by omega
  clear hin hleap
  omega

theorem Parts.yearOfEra {day : Int} (h : Parts day century span year rest) :
    (day - day / 1460 + day / 36524 - day / 146096) / 365 = 100 * century + 4 * span + year := by
  have hcenturies : day / 36524 - day / 146096 = century := by
    have := h.century_or_last
    have := h.century_le
    omega
  obtain ⟨hday, _, _, _, _, hleap⟩ := h
  -- One day of each span is taken away, and that of the span itself only when its last day has come.
  have hspans : day / 1460 = 25 * century + span + (24 * century + span + 365 * year + rest) / 1460 := by omega
  omega

/-- The years before those of a span, with the leap days in them. -/
theorem Parts.leapDays {day : Int} (h : Parts day century span year rest) :
    (100 * century + 4 * span + year) / 4 - (100 * century + 4 * span + year) / 100 = 24 * century + span := by
  obtain ⟨_, _, _, _, _, _⟩ := h
  have hspan : (100 * century + 4 * span + year) / 4 = 25 * century + span := by omega
  have hcentury : (100 * century + 4 * span + year) / 100 = century + (4 * span + year) / 100 := by omega
  omega

/-- The month of the calendar for one that is counted from March. -/
def monthOf (m : Nat) : Nat := if m < 10 then m + 3 else m - 9

/-- The date of a day, read off its parts. -/
theorem Parts.ofDays_eq (h : Parts ((days + 719468) % 146097) century span year rest) :
    ofDays days =
      let m := (5 * rest.toNat + 2) / 153
      ⟨100 * century + 4 * span + year + (days + 719468) / 146097 * 400 + (if monthOf m ≤ 2 then 1 else 0),
        monthOf m, rest.toNat - (153 * m + 2) / 5 + 1⟩ := by
  have hrest : (days + 719468) % 146097 -
    (365 * (100 * century + 4 * span + year) + (100 * century + 4 * span + year) / 4 -
      (100 * century + 4 * span + year) / 100) = rest := by
    have := h.leapDays
    have := h.day_eq
    omega
  simp only [ofDays, h.yearOfEra, hrest]
  rfl

theorem toDays_ofDays (days : Int) : (ofDays days).toDays = days := by
  obtain ⟨century, span, year, rest, h⟩ := exists_parts days
  rw [h.ofDays_eq]
  have hleap := h.leapDays
  obtain ⟨hday, hcentury, hspan, hyear, hrest, -⟩ := h
  obtain ⟨m, hm⟩ : ∃ m, m = (5 * rest.toNat + 2) / 153 := ⟨_, rfl⟩
  obtain ⟨yearOfEra, hyearOfEra⟩ : ∃ yearOfEra, yearOfEra = 100 * century + 4 * span + year := ⟨_, rfl⟩
  rw [← hyearOfEra] at hleap
  have hmonth : (monthOf m + 9) % 12 = m := by
    rw [monthOf]
    split <;> omega
  have hfirst : (153 * m + 2) / 5 ≤ rest.toNat := by omega
  have hyears (y : Int) : (if monthOf m ≤ 2 then y + (if monthOf m ≤ 2 then 1 else 0) - 1
      else y + (if monthOf m ≤ 2 then 1 else 0)) = y := by
    split <;> omega
  have hera : (yearOfEra + (days + 719468) / 146097 * 400) / 400 = (days + 719468) / 146097 := by omega
  have hofEra : (yearOfEra + (days + 719468) / 146097 * 400) % 400 = yearOfEra := by omega
  simp only [toDays, ← hm, ← hyearOfEra, hyears, hmonth, hera, hofEra]
  clear hm hyears hmonth hera hofEra
  omega

/-- A year from March that has a day more ends in a leap year. -/
theorem Parts.isLeapYear {day : Int} (h : Parts day century span year 365) (era : Int) :
    isLeapYear (100 * century + 4 * span + year + era * 400 + 1) = true := by
  obtain ⟨-, hcentury, hspan, -, -, hleap⟩ := h
  obtain ⟨rfl, hlast⟩ := hleap rfl
  have hfour : (100 * century + 4 * span + 3 + era * 400 + 1) % 4 = 0 := by omega
  have hhundred : (100 * century + 4 * span + 3 + era * 400 + 1) % 100 ≠ 0 ∨
      (100 * century + 4 * span + 3 + era * 400 + 1) % 400 = 0 := by
    omega
  simp only [Date.isLeapYear, Bool.and_eq_true, Bool.or_eq_true, beq_iff_eq, bne_iff_ne]
  exact ⟨hfour, hhundred⟩

/-- The months before February have the days up to the next one. -/
theorem daysIn_monthOf (y : Int) {m : Nat} (hm : m < 11) :
    daysIn y (monthOf m) = (153 * (m + 1) + 2) / 5 - (153 * m + 2) / 5 := by
  interval_cases m <;> rfl

theorem daysIn_le (y : Int) (month : Nat) : daysIn y month ≤ 31 := by
  unfold daysIn
  split
  · split <;> decide
  all_goals decide

theorem isValid_ofDays (days : Int) : (ofDays days).isValid = true := by
  obtain ⟨century, span, year, rest, h⟩ := exists_parts days
  rw [h.ofDays_eq]
  have hrest := h.rest_le
  obtain ⟨m, hm⟩ : ∃ m, m = (5 * rest.toNat + 2) / 153 := ⟨_, rfl⟩
  have hmonth : 1 ≤ monthOf m ∧ monthOf m ≤ 12 := by
    rw [monthOf]
    split <;> omega
  simp only [isValid, ← hm, Bool.and_eq_true, decide_eq_true_eq]
  refine ⟨⟨⟨hmonth.1, hmonth.2⟩, Nat.le_add_left ..⟩, ?_⟩
  rcases Nat.lt_or_ge m 11 with hbefore | hfebruary
  · rw [daysIn_monthOf _ hbefore]
    omega
  · obtain rfl : m = 11 := by omega
    show rest.toNat - 337 + 1 ≤
      if Date.isLeapYear (100 * century + 4 * span + year + (days + 719468) / 146097 * 400 + 1) = true then 29 else 28
    clear hmonth hm
    by_cases hleap : rest = 365
    · subst hleap
      rw [if_pos (h.isLeapYear _)]
      decide
    · split <;> omega

end SoapNode.Date
