import Keyset.Calendar.Date

/-!
# The calendar counts every day once

`Date.ofDayNumber` gives a day of the calendar (`isValid_ofDayNumber`) whose count is the one it was asked for
(`dayNumber_ofDayNumber`), for every integer, so also for days before year 1.
-/

namespace Keyset.Date

/-! ## Months -/

/-- The month and day found from a month on have a day of that month, and as many days before it as were asked for. -/
theorem monthAndDay_spec (leap : Bool) (months month n : Nat)
    (h : daysBeforeMonth leap month + n < daysBeforeMonth leap (month + months + 1)) :
    1 ≤ (monthAndDay leap months month n).2 ∧
      (monthAndDay leap months month n).2 ≤ monthLength leap (monthAndDay leap months month n).1 ∧
      daysBeforeMonth leap (monthAndDay leap months month n).1 + ((monthAndDay leap months month n).2 - 1) =
        daysBeforeMonth leap month + n := by
  induction months generalizing month n with
  | zero =>
    simp only [monthAndDay, daysBeforeMonth] at h ⊢
    omega
  | succ months ih =>
    rw [monthAndDay]
    split
    · dsimp only
      omega
    · rename_i hn
      have hnext : daysBeforeMonth leap (month + 1) = daysBeforeMonth leap month + monthLength leap month := rfl
      have hend : month + 1 + months + 1 = month + (months + 1) + 1 := by omega
      obtain ⟨h1, h2, h3⟩ := ih (month + 1) (n - monthLength leap month) (by rw [hend, hnext]; omega)
      exact ⟨h1, h2, by rw [h3, hnext]; omega⟩

theorem daysBeforeMonth_thirteen (leap : Bool) : daysBeforeMonth leap 13 = if leap then 366 else 365 := by
  cases leap <;> rfl

/-! ## Years -/

/-- The days of 400 years are taken apart into centuries, quadrennia, years and days, where only the last year of a
quadrennium has a 366th day, and not in the last quadrennium of the first three centuries. -/
theorem quadricentury_parts {r : Nat} (hr : r < 146097) :
    let century := min 3 (r / 36524)
    let inCentury := r - 36524 * century
    let inQuadrennium := inCentury % 1461
    let yearOfFour := min 3 (inQuadrennium / 365)
    36524 * century + 1461 * (inCentury / 1461) + 365 * yearOfFour + (inQuadrennium - 365 * yearOfFour) = r ∧
      inCentury / 1461 ≤ 24 ∧ inQuadrennium - 365 * yearOfFour ≤ 365 ∧
      (inQuadrennium - 365 * yearOfFour = 365 → yearOfFour = 3 ∧ (inCentury / 1461 = 24 → century = 3)) := by
  have hcentury : min 3 (r / 36524) ≤ 3 ∧ 36524 * min 3 (r / 36524) ≤ r ∧
      (min 3 (r / 36524) < 3 → r < 36524 * min 3 (r / 36524) + 36524) := by omega
  simp only
  generalize min 3 (r / 36524) = century at hcentury
  obtain ⟨hc, hle, hlt⟩ := hcentury
  obtain ⟨s, hs⟩ : ∃ s, r - 36524 * century = s := ⟨_, rfl⟩
  rw [hs]
  have hyear : min 3 (s % 1461 / 365) ≤ 3 ∧ 365 * min 3 (s % 1461 / 365) ≤ s % 1461 ∧
      s % 1461 ≤ 365 * min 3 (s % 1461 / 365) + 365 ∧
      (s % 1461 = 365 * min 3 (s % 1461 / 365) + 365 → min 3 (s % 1461 / 365) = 3) := by omega
  generalize min 3 (s % 1461 / 365) = y at hyear
  omega

/-- The days before a year, by its place in the cycles of 400, 100 and 4 years. -/
theorem daysBeforeYear_eq (q : Int) {c f y : Nat} (hc : c ≤ 3) (hf : f ≤ 24) (hy : y ≤ 3) :
    daysBeforeYear (400 * q + 100 * c + 4 * f + y + 1) = 146097 * q + 36524 * c + 1461 * f + 365 * y := by
  unfold daysBeforeYear
  omega

/-- The last year of a quadrennium is a leap year, if it does not end one of the first three centuries. -/
theorem isLeapYear_eq_true (q : Int) {c f : Nat} (hf : f ≤ 24) (hlast : f = 24 → c = 3) :
    isLeapYear (400 * q + 100 * c + 4 * f + 3 + 1) = true := by
  simp only [isLeapYear, Bool.and_eq_true, Bool.or_eq_true, decide_eq_true_eq]
  omega

/-- What `ofDayNumber` computes: a year that begins no later than the day, and month and day from the days that remain. -/
theorem ofDayNumber_spec (n : Int) : ∃ (year : Int) (rest : Nat),
    ofDayNumber n = ⟨year, (monthAndDay (isLeapYear year) 11 1 rest).1, (monthAndDay (isLeapYear year) 11 1 rest).2⟩ ∧
      daysBeforeYear year + rest = n + epoch ∧ rest < if isLeapYear year then 366 else 365 := by
  have hr : ((n + epoch) % 146097).toNat < 146097 := by omega
  obtain ⟨hsum, hf, hrest, hlast⟩ := quadricentury_parts hr
  have hc : min 3 (((n + epoch) % 146097).toNat / 36524) ≤ 3 := Nat.min_le_left ..
  have hdays : n + epoch = 146097 * ((n + epoch) / 146097) + ((n + epoch) % 146097).toNat := by omega
  refine ⟨_, _, rfl, ?_, ?_⟩
  · rw [daysBeforeYear_eq _ hc hf (Nat.min_le_left ..)]
    omega
  · split
    · omega
    · rename_i hleap
      refine Nat.lt_of_le_of_ne hrest fun h => hleap ?_
      obtain ⟨hy, hcentury⟩ := hlast h
      rw [hy]
      exact isLeapYear_eq_true _ hf hcentury

/-! ## Days -/

/-- Every count has a day of the calendar. -/
theorem isValid_ofDayNumber (n : Int) : (ofDayNumber n).IsValid := by
  obtain ⟨year, rest, h, -, hlt⟩ := ofDayNumber_spec n
  rw [← daysBeforeMonth_thirteen] at hlt
  obtain ⟨h1, h2, -⟩ := monthAndDay_spec (isLeapYear year) 11 1 rest (by simpa [daysBeforeMonth, monthLength] using hlt)
  rw [h]
  exact ⟨h1, h2⟩

/-- The day of a count has that count. -/
theorem dayNumber_ofDayNumber (n : Int) : (ofDayNumber n).dayNumber = n := by
  obtain ⟨year, rest, h, hsum, hlt⟩ := ofDayNumber_spec n
  rw [← daysBeforeMonth_thirteen] at hlt
  obtain ⟨h1, -, h3⟩ := monthAndDay_spec (isLeapYear year) 11 1 rest (by simpa [daysBeforeMonth, monthLength] using hlt)
  have hfirst : daysBeforeMonth (isLeapYear year) 1 = 0 := rfl
  rw [h, dayNumber]
  simp only
  omega

theorem IsValid.month_le {d : Date} (h : d.IsValid) : d.month ≤ 12 := by
  have hpos : 0 < monthLength (isLeapYear d.year) d.month := Nat.lt_of_lt_of_le h.1 h.2
  unfold monthLength at hpos
  split at hpos <;> omega

theorem IsValid.day_le {d : Date} (h : d.IsValid) : d.day ≤ 31 := by
  refine Nat.le_trans h.2 ?_
  cases isLeapYear d.year <;> unfold monthLength <;> split <;> decide

end Keyset.Date
