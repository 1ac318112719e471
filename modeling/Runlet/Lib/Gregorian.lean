import Mathlib.Data.Nat.Find
import Mathlib.Tactic.IntervalCases
import Runlet.Lib.Tiling

/-!
The proleptic Gregorian calendar: days numbered from 1 January 1970 on, the
date of a day, and the weeks, months, quarters and years as tilings of the days.
-/

namespace Runlet.Gregorian

/-! ### Years and months -/

def isLeap (y : Int) : Bool := y % 4 = 0 ∧ (y % 100 ≠ 0 ∨ y % 400 = 0)

/-- The length of a month, counted from zero. -/
def monthLength (leap : Bool) : Nat → Nat
  | 1 => if leap then 29 else 28
  | 3 | 5 | 8 | 10 => 30
  | _ => 31

/-- The days of a year before a month, counted from zero. -/
def daysBefore (leap : Bool) : Nat → Nat
  | 0 => 0
  | month + 1 => daysBefore leap month + monthLength leap month

/-- The number of 1 January. -/
def yearStart (y : Int) : Int :=
  365 * (y - 1) + (y - 1) / 4 - (y - 1) / 100 + (y - 1) / 400 - 719162

/-- The year of a day: an estimate by the mean length of a year, put right. -/
def yearOf (n : Int) : Int :=
  let estimate := (n + 719162) * 400 / 146097 + 1
  if n < yearStart estimate then estimate - 1
  else if yearStart (estimate + 1) ≤ n then estimate + 1
  else estimate

/-- The day within its year, counted from zero. -/
def dayOfYear (n : Int) : Nat := (n - yearStart (yearOf n)).toNat

/-- The month of a day of the year, counted from zero. -/
def monthAt (leap : Bool) (k : Nat) : Nat := Nat.findGreatest (fun m => daysBefore leap m ≤ k) 11

def monthOf (n : Int) : Nat := monthAt (isLeap (yearOf n)) (dayOfYear n) + 1

def dayOf (n : Int) : Nat :=
  dayOfYear n - daysBefore (isLeap (yearOf n)) (monthAt (isLeap (yearOf n)) (dayOfYear n)) + 1

/-- The days of a month. -/
def daysInMonth (y : Int) (m : Nat) : Nat := monthLength (isLeap y) (m - 1)

/-- A date that exists. -/
structure IsDate (y : Int) (m d : Nat) : Prop where
  month_pos : 1 ≤ m
  month_le : m ≤ 12
  day_pos : 1 ≤ d
  day_le : d ≤ daysInMonth y m

instance (y : Int) (m d : Nat) : Decidable (IsDate y m d) :=
  decidable_of_iff (1 ≤ m ∧ m ≤ 12 ∧ 1 ≤ d ∧ d ≤ daysInMonth y m)
    ⟨fun h => ⟨h.1, h.2.1, h.2.2.1, h.2.2.2⟩,
      fun h => ⟨h.month_pos, h.month_le, h.day_pos, h.day_le⟩⟩

/-- The number of a day. -/
def dayNumber (y : Int) (m d : Nat) : Int :=
  yearStart y + daysBefore (isLeap y) (m - 1) + d - 1

theorem monthLength_pos (leap : Bool) (m : Nat) : 0 < monthLength leap m := by
  unfold monthLength
  split
  · split <;> decide
  all_goals decide

theorem monthLength_le (leap : Bool) (m : Nat) : monthLength leap m ≤ 31 := by
  unfold monthLength
  split
  · split <;> decide
  all_goals decide

theorem daysBefore_year (leap : Bool) : daysBefore leap 12 = if leap then 366 else 365 := by
  cases leap <;> rfl

theorem yearStart_succ (y : Int) : yearStart (y + 1) = yearStart y + daysBefore (isLeap y) 12 := by
  rw [daysBefore_year]
  unfold yearStart isLeap
  by_cases hfour : y % 4 = 0
  · by_cases hcentury : y % 100 = 0
    · by_cases hquad : y % 400 = 0
      · simp only [hfour, hcentury, hquad, decide_true, and_self, or_true, if_true]
        omega
      · simp [hfour, hcentury, hquad]
        omega
    · simp [hfour, hcentury]
      omega
  · simp [hfour]
    omega

theorem yearOf_spec (n : Int) : yearStart (yearOf n) ≤ n ∧ n < yearStart (yearOf n + 1) := by
  unfold yearOf
  dsimp only
  split
  · rename_i hearly
    unfold yearStart at hearly ⊢
    omega
  · rename_i hlate
    split
    · rename_i hnext
      unfold yearStart at hlate hnext ⊢
      omega
    · omega

/-- The years as periods of days. -/
def yearTiling : Tiling where
  start := yearStart
  index := yearOf
  start_lt y := by
    rw [yearStart_succ, daysBefore_year]
    split <;> omega
  start_le n := (yearOf_spec n).1
  lt_start n := (yearOf_spec n).2

/-! ### The date of a day -/

theorem dayOfYear_eq (n : Int) : (dayOfYear n : Int) = n - yearStart (yearOf n) := by
  have hstart := (yearOf_spec n).1
  unfold dayOfYear
  omega

theorem dayOfYear_lt (n : Int) : dayOfYear n < daysBefore (isLeap (yearOf n)) 12 := by
  have hend := (yearOf_spec n).2
  have heq := dayOfYear_eq n
  rw [yearStart_succ] at hend
  omega

theorem monthAt_spec (leap : Bool) (k : Nat) (hk : k < daysBefore leap 12) :
    monthAt leap k ≤ 11 ∧ daysBefore leap (monthAt leap k) ≤ k ∧
      k < daysBefore leap (monthAt leap k + 1) := by
  have hle : monthAt leap k ≤ 11 := Nat.findGreatest_le 11
  refine ⟨hle, ?_, ?_⟩
  · exact Nat.findGreatest_spec (P := fun m => daysBefore leap m ≤ k) (Nat.zero_le 11)
      (Nat.zero_le k)
  · rcases Nat.lt_or_ge (monthAt leap k) 11 with hlt | hge
    · apply Nat.lt_of_not_le
      exact Nat.findGreatest_is_greatest (P := fun m => daysBefore leap m ≤ k)
        (Nat.lt_succ_self _) hlt
    · rwa [show monthAt leap k = 11 by omega]

/-- The first day of a month, the months numbered through all years. -/
def monthStart (i : Int) : Int :=
  yearStart (i / 12) + daysBefore (isLeap (i / 12)) (i % 12).toNat

theorem monthStart_eq (y : Int) (m : Nat) (hm : m ≤ 11) :
    monthStart (12 * y + m) = yearStart y + daysBefore (isLeap y) m := by
  have hyear : (12 * y + (m : Int)) / 12 = y := by omega
  have hmonth : ((12 * y + (m : Int)) % 12).toNat = m := by omega
  unfold monthStart
  rw [hyear, hmonth]

/-- A month ends where the days of the year before the next month end, also in December. -/
theorem monthStart_next (y : Int) (m : Nat) (hm : m ≤ 11) :
    monthStart (12 * y + m + 1) = yearStart y + daysBefore (isLeap y) (m + 1) := by
  rcases Nat.lt_or_ge m 11 with hlt | hge
  · have heq := monthStart_eq y (m + 1) (by omega)
    rw [Nat.cast_add, Nat.cast_one, ← add_assoc] at heq
    exact heq
  · have hlast : m = 11 := by omega
    have heq := monthStart_eq (y + 1) 0 (by omega)
    subst hlast
    rw [show (12 * y + ((11 : Nat) : Int) + 1) = 12 * (y + 1) + ((0 : Nat) : Int) by omega, heq,
      yearStart_succ, show daysBefore (isLeap (y + 1)) 0 = 0 from rfl, Nat.cast_zero, add_zero]

/-- The months as periods of days. -/
def monthTiling : Tiling where
  start := monthStart
  index n := 12 * yearOf n + monthAt (isLeap (yearOf n)) (dayOfYear n)
  start_lt i := by
    have hparts : i = 12 * (i / 12) + ((i % 12).toNat : Int) := by omega
    have hlength := monthLength_pos (isLeap (i / 12)) (i % 12).toNat
    have hnext := monthStart_next (i / 12) (i % 12).toNat (by omega)
    rw [← hparts, daysBefore] at hnext
    unfold monthStart at hnext ⊢
    omega
  start_le n := by
    obtain ⟨hle, hstart, -⟩ := monthAt_spec _ _ (dayOfYear_lt n)
    have heq := dayOfYear_eq n
    rw [monthStart_eq _ _ hle]
    omega
  lt_start n := by
    obtain ⟨hle, -, hend⟩ := monthAt_spec _ _ (dayOfYear_lt n)
    have heq := dayOfYear_eq n
    rw [monthStart_next _ _ hle]
    omega

theorem monthTiling_index (n : Int) :
    monthTiling.index n = 12 * yearOf n + ((monthOf n - 1 : Nat) : Int) := rfl

theorem monthOf_range (n : Int) : 1 ≤ monthOf n ∧ monthOf n ≤ 12 := by
  have hle := (monthAt_spec _ _ (dayOfYear_lt n)).1
  unfold monthOf
  omega

/-- A day is found again from its date. -/
theorem dayNumber_date (n : Int) : dayNumber (yearOf n) (monthOf n) (dayOf n) = n := by
  obtain ⟨-, hstart, -⟩ := monthAt_spec _ _ (dayOfYear_lt n)
  have heq := dayOfYear_eq n
  unfold dayNumber monthOf dayOf
  rw [Nat.add_sub_cancel]
  omega

theorem isDate_date (n : Int) : IsDate (yearOf n) (monthOf n) (dayOf n) := by
  obtain ⟨-, hstart, hend⟩ := monthAt_spec _ _ (dayOfYear_lt n)
  obtain ⟨hpos, hle⟩ := monthOf_range n
  refine ⟨hpos, hle, Nat.le_add_left 1 _, ?_⟩
  rw [daysBefore] at hend
  unfold dayOf daysInMonth monthOf
  rw [Nat.add_sub_cancel]
  omega

/-- A date that exists lies in its month. -/
theorem monthTiling_date (y : Int) (m d : Nat) (h : IsDate y m d) :
    monthTiling.index (dayNumber y m d) = 12 * y + ((m - 1 : Nat) : Int) := by
  obtain ⟨hmonth, hmonth', hday, hday'⟩ := h
  have hstart := monthStart_eq y (m - 1) (by omega)
  have hnext := monthStart_next y (m - 1) (by omega)
  unfold daysInMonth at hday'
  rw [daysBefore] at hnext
  apply monthTiling.index_eq
  · change monthStart _ ≤ _
    rw [hstart, dayNumber]
    omega
  · change _ < monthStart _
    rw [hnext, dayNumber]
    omega

/-- A date that exists is found again from its number. -/
theorem date_dayNumber (y : Int) (m d : Nat) (h : IsDate y m d) :
    yearOf (dayNumber y m d) = y ∧ monthOf (dayNumber y m d) = m ∧
      dayOf (dayNumber y m d) = d := by
  have hindex := monthTiling_date y m d h
  have hrange := monthOf_range (dayNumber y m d)
  have hback := dayNumber_date (dayNumber y m d)
  have hpos := (isDate_date (dayNumber y m d)).day_pos
  have hpositive := h.month_pos
  have hatMost := h.month_le
  rw [monthTiling_index] at hindex
  have hyear : yearOf (dayNumber y m d) = y := by omega
  have hmonth : monthOf (dayNumber y m d) = m := by omega
  rw [hyear, hmonth] at hback
  refine ⟨hyear, hmonth, ?_⟩
  unfold dayNumber at hback hpos ⊢
  omega

/-- The first day of a month. -/
theorem dayNumber_first (y : Int) (m : Nat) (hm : 1 ≤ m ∧ m ≤ 12) :
    dayNumber y m 1 = monthStart (12 * y + ((m - 1 : Nat) : Int)) := by
  rw [monthStart_eq y (m - 1) (by omega)]
  unfold dayNumber
  omega

/-- The last day of a month is the one before the next month. -/
theorem dayNumber_last (y : Int) (m : Nat) (hm : 1 ≤ m ∧ m ≤ 12) :
    dayNumber y m (daysInMonth y m) = monthStart (12 * y + ((m - 1 : Nat) : Int) + 1) - 1 := by
  rw [monthStart_next y (m - 1) (by omega), daysBefore]
  unfold dayNumber daysInMonth
  omega

theorem isDate_first (y : Int) (m : Nat) (hm : 1 ≤ m ∧ m ≤ 12) : IsDate y m 1 :=
  ⟨hm.1, hm.2, Nat.le_refl 1, monthLength_pos _ _⟩

theorem isDate_last (y : Int) (m : Nat) (hm : 1 ≤ m ∧ m ≤ 12) : IsDate y m (daysInMonth y m) :=
  ⟨hm.1, hm.2, monthLength_pos _ _, Nat.le_refl _⟩

/-- Dates of one year are less than 366 days apart. -/
theorem dayNumber_near (n : Int) (m d : Nat) (h : IsDate (yearOf n) m d) :
    n - 366 < dayNumber (yearOf n) m d ∧ dayNumber (yearOf n) m d < n + 366 := by
  obtain ⟨hstart, hend⟩ := yearOf_spec n
  obtain ⟨hstart', hend'⟩ := yearOf_spec (dayNumber (yearOf n) m d)
  rw [(date_dayNumber _ m d h).1] at hstart' hend'
  have hlength : daysBefore (isLeap (yearOf n)) 12 ≤ 366 := by
    rw [daysBefore_year]
    split <;> decide
  rw [yearStart_succ] at hend hend'
  omega

/-! ### Periods -/

theorem week_pos : (0 : Int) < 7 := by decide

theorem quarter_pos : (0 : Int) < 3 := by decide

/-- The days one by one. -/
def dayTiling : Tiling := .every 1 0 Int.zero_lt_one

/-- The weeks, from Monday on. -/
def weekTiling : Tiling := .every 7 (-3) week_pos

def quarterTiling : Tiling := monthTiling.coarsen 3 quarter_pos

/-- The days since Monday. -/
def daysFromMonday (n : Int) : Nat := ((n + 3) % 7).toNat

theorem weekTiling_first (n : Int) : weekTiling.first n = n - daysFromMonday n := by
  unfold weekTiling Tiling.first Tiling.every daysFromMonday
  dsimp only
  omega

theorem weekTiling_last (n : Int) : weekTiling.last n = n - daysFromMonday n + 6 := by
  unfold weekTiling Tiling.last Tiling.every daysFromMonday
  dsimp only
  omega

end Runlet.Gregorian
