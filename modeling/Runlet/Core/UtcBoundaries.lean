import Runlet.Core.ZonedBoundaries

/-!
`start_of` and `end_of` in UTC, where every local time is shown once: the
boundaries are the ends of the periods of the calendar, and the periods follow
each other without gap. Beside them the length of a month.
-/

namespace Runlet.Datetime

open Gregorian Rfc3339 Classify

variable {cal : Calendar}

/-- A value without a view. -/
def utcValue (ms : Int) : DateTime := ⟨ms, none⟩

/-- Instants of one period, by the dates they fall on. -/
def SamePeriod (unit : Period) (a b : Int) : Prop :=
  match unit with
  | .day => dayAt a = dayAt b
  | .week => dayAt a - Gregorian.daysFromMonday (dayAt a) =
      dayAt b - Gregorian.daysFromMonday (dayAt b)
  | .month => yearOf (dayAt a) = yearOf (dayAt b) ∧ monthOf (dayAt a) = monthOf (dayAt b)
  | .quarter => yearOf (dayAt a) = yearOf (dayAt b) ∧
      (monthOf (dayAt a) - 1) / 3 = (monthOf (dayAt b) - 1) / 3
  | .year => yearOf (dayAt a) = yearOf (dayAt b)

theorem samePeriod_iff (unit : Period) (a b : Int) :
    SamePeriod unit a b ↔ unit.millis.index a = unit.millis.index b := by
  have ha := monthOf_range (dayAt a)
  have hb := monthOf_range (dayAt b)
  have hmonth (n : Int) : monthTiling.index n = 12 * yearOf n + ((monthOf n - 1 : Nat) : Int) :=
    monthTiling_index n
  cases unit with
  | day =>
      change dayAt a = dayAt b ↔ (dayAt a - 0) / 1 = (dayAt b - 0) / 1
      omega
  | week =>
      change _ ↔ (dayAt a - -3) / 7 = (dayAt b - -3) / 7
      unfold SamePeriod Gregorian.daysFromMonday
      omega
  | month =>
      change _ ↔ monthTiling.index (dayAt a) = monthTiling.index (dayAt b)
      rw [hmonth, hmonth]
      unfold SamePeriod
      omega
  | quarter =>
      change _ ↔ monthTiling.index (dayAt a) / 3 = monthTiling.index (dayAt b) / 3
      rw [hmonth, hmonth]
      unfold SamePeriod
      omega
  | year => exact Iff.rfl

/-- In UTC a boundary is the end of the period. -/
theorem utc_boundary (chrono : Chrono cal) (unit : Period) (ms : Int) (atEnd : Bool)
    (hroom : Room 740 (dayAt ms)) :
    (utcValue ms).boundary cal unit atEnd = .ok (utcValue (unit.localBoundary atEnd ms)) := by
  have hloc : ms + chrono.offset cal.utc ms = ms := by
    rw [chrono.offset_utc, Int.add_zero]
  have hshown : unit.localBoundary atEnd ms + chrono.offset cal.utc (unit.localBoundary atEnd ms) =
      unit.localBoundary atEnd (ms + chrono.offset cal.utc ms) := by
    rw [hloc, chrono.offset_utc, Int.add_zero]
  have hrange := shown_representable chrono (utcValue ms) cal.utc unit hroom atEnd _ hshown
  rcases boundary_cases chrono (utcValue ms) cal.utc unit rfl hroom atEnd with
    ⟨t, hok, hearliest⟩ | ⟨-, hnone⟩
  · have ht := hearliest.shown
    rw [chrono.offset_utc, Int.add_zero] at ht
    rw [hok, ht]
    change Except.ok (utcValue (unit.localBoundary atEnd (ms + chrono.offset cal.utc ms))) = _
    rw [hloc]
  · exact absurd hshown (hnone _ hrange)

theorem utc_startOf (chrono : Chrono cal) (unit : Period) (ms : Int)
    (hroom : Room 740 (dayAt ms)) :
    (utcValue ms).startOf cal unit.name = .ok (utcValue (unit.millis.first ms)) :=
  utc_boundary chrono unit ms false hroom

theorem utc_endOf (chrono : Chrono cal) (unit : Period) (ms : Int)
    (hroom : Room 740 (dayAt ms)) :
    (utcValue ms).endOf cal unit.name = .ok (utcValue (unit.millis.last ms)) :=
  utc_boundary chrono unit ms true hroom

/-- The days of a boundary are near. -/
theorem boundary_room (unit : Period) (atEnd : Bool) (ms : Int) (hroom : Room 1200 (dayAt ms)) :
    Room 800 (dayAt (unit.localBoundary atEnd ms)) := by
  obtain ⟨hlow, hhigh⟩ := hroom
  obtain ⟨hnear, hnear'⟩ := boundary_near unit atEnd (dayAt ms)
  have hday : dayAt (unit.localBoundary atEnd ms) = unit.boundary atEnd (dayAt ms) := by
    rw [localBoundary_eq]
    unfold dayAt dayMillis
    cases atEnd <;> simp only [if_true, if_false, Bool.false_eq_true] <;> omega
  rw [hday]
  constructor <;> omega

/-! ### The component bundle -/

/-- The bundle of an instant in UTC. There is none in the last month of the calendar,
whose length is not found. -/
theorem datetimeParts_utc (chrono : Chrono cal) (ms : Int) (hms : Representable ms) :
    if monthTiling.last (dayAt ms) < maxDay then
      ∃ parts, datetimeDispatch cal "parts" (payloadFor (utcValue ms) []) = .ok parts ∧
        field "days_in_month" parts =
          some (int (Gregorian.daysInMonth (yearOf (dayAt ms)) (monthOf (dayAt ms)))) ∧
        field "weekday" parts = some (int ((Gregorian.daysFromMonday (dayAt ms) + 1 : Nat) : Int))
    else datetimeDispatch cal "parts" (payloadFor (utcValue ms) []) = .error "invalid date" := by
  obtain ⟨i, hi⟩ := Option.isSome_iff_exists.mp ((chrono.fromMillis_isSome ms).mpr hms)
  have hmillis := chrono.millis_fromMillis ms i hi
  have hyear := chrono.components_year i
  have hmonth := chrono.components_month i
  have hweekday := chrono.components_weekday i
  rw [hmillis] at hyear hmonth hweekday
  have hfield : fieldI64 (payloadFor (utcValue ms) []) "ms" = .ok ms :=
    fieldI64_int _ "ms" ms rfl hms.fits
  have hzone : resolveZone cal (payloadFor (utcValue ms) []) = .ok cal.utc := rfl
  have hpositive := (monthOf_range (dayAt ms)).1
  have hdays := daysInMonth_eq chrono (dayAt ms) hms.1 hms.2
  change if _ then ∃ parts, datetimeParts cal _ = _ ∧ _ else datetimeParts cal _ = _
  unfold datetimeParts instant
  rw [hzone, ok_bind, hfield, ok_bind, hi, okOr_bind]
  dsimp only
  rw [hyear, hmonth, if_pos hpositive, ok_bind]
  split
  · rename_i hinside
    rw [hdays, if_pos hinside, ok_bind]
    refine ⟨_, rfl, rfl, ?_⟩
    rw [hweekday]
    rfl
  · rename_i hlast
    rw [hdays, if_neg hlast]
    rfl

theorem part_utc (chrono : Chrono cal) (ms : Int) (hms : Representable ms) :
    if monthTiling.last (dayAt ms) < maxDay then
      (utcValue ms).part cal "days_in_month" =
        .ok (Gregorian.daysInMonth (yearOf (dayAt ms)) (monthOf (dayAt ms))) ∧
      (utcValue ms).part cal "weekday" = .ok (Gregorian.daysFromMonday (dayAt ms) + 1)
    else ∀ key, (utcValue ms).part cal key = .error "invalid date" := by
  have hparts := datetimeParts_utc chrono ms hms
  have hsmall (n : Nat) (hn : n ≤ 31) : numberOf (int (n : Int)) = n := by
    apply numberOf_int
    unfold fitsI64
    rw [Bool.and_eq_true, decide_eq_true_eq, decide_eq_true_eq]
    omega
  unfold DateTime.part
  split at hparts
  · obtain ⟨parts, hrun, hdays, hweekday⟩ := hparts
    have hlength : Gregorian.daysInMonth (yearOf (dayAt ms)) (monthOf (dayAt ms)) ≤ 31 :=
      monthLength_le _ _
    have hweek : Gregorian.daysFromMonday (dayAt ms) + 1 ≤ 31 := by
      unfold Gregorian.daysFromMonday
      omega
    rw [if_pos ‹_›, hrun, Except.map, Except.map, hdays, hweekday, Option.map_some, Option.map_some,
      Option.getD_some, Option.getD_some, hsmall _ hlength, hsmall _ hweek]
    exact ⟨rfl, rfl⟩
  · rw [if_neg ‹_›, hparts]
    exact fun _ => rfl

/-! ### The laws in UTC -/

/-- What is expected of the boundaries of one instant in UTC. -/
structure UtcBoundaryLaw (cal : Calendar) (unit : Period) (ms first last : Int) : Prop where
  startOf : (utcValue ms).startOf cal unit.name = .ok (utcValue first)
  endOf : (utcValue ms).endOf cal unit.name = .ok (utcValue last)
  first_le : first ≤ ms
  le_last : ms ≤ last
  first_same : SamePeriod unit first ms
  last_same : SamePeriod unit last ms
  startOf_first : (utcValue first).startOf cal unit.name = .ok (utcValue first)
  endOf_last : (utcValue last).endOf cal unit.name = .ok (utcValue last)
  constant : ∀ ms', InYears ms' → SamePeriod unit ms' ms →
    (utcValue ms').startOf cal unit.name = .ok (utcValue first) ∧
      (utcValue ms').endOf cal unit.name = .ok (utcValue last)
  next_other : ¬SamePeriod unit (last + 1) ms
  next_start : (utcValue (last + 1)).startOf cal unit.name = .ok (utcValue (last + 1))

/-- Behind the last millisecond there is room for the next one. -/
theorem next_room (unit : Period) (ms : Int) (hroom : Room 1200 (dayAt ms)) :
    Room 740 (dayAt (unit.millis.last ms + 1)) := by
  obtain ⟨hlow, hhigh⟩ := boundary_room unit true ms hroom
  have hlast : unit.localBoundary true ms = unit.millis.last ms := rfl
  rw [hlast] at hlow hhigh
  have hnext : dayAt (unit.millis.last ms) ≤ dayAt (unit.millis.last ms + 1) ∧
      dayAt (unit.millis.last ms + 1) ≤ dayAt (unit.millis.last ms) + 1 := by
    unfold dayAt dayMillis
    omega
  constructor <;> omega

theorem utcBoundaryLaw (chrono : Chrono cal) (unit : Period) (ms : Int) (hyears : InYears ms) :
    UtcBoundaryLaw cal unit ms (unit.millis.first ms) (unit.millis.last ms) := by
  have hroom := hyears.room.mono (by decide : (740 : Int) ≤ 1200)
  have hfirst : Room 740 (dayAt (unit.millis.first ms)) :=
    (boundary_room unit false ms hyears.room).mono (by decide)
  have hlast : Room 740 (dayAt (unit.millis.last ms)) :=
    (boundary_room unit true ms hyears.room).mono (by decide)
  have hnext := next_room unit ms hyears.room
  refine ⟨utc_startOf chrono unit ms hroom, utc_endOf chrono unit ms hroom,
    unit.millis.first_le ms, unit.millis.le_last ms, ?_, ?_, ?_, ?_, ?_, ?_, ?_⟩
  · exact (samePeriod_iff unit _ _).mpr (unit.millis.index_first ms)
  · exact (samePeriod_iff unit _ _).mpr (unit.millis.index_last ms)
  · rw [utc_startOf chrono unit _ hfirst,
      unit.millis.first_congr ms _ (unit.millis.index_first ms)]
  · rw [utc_endOf chrono unit _ hlast, unit.millis.last_congr ms _ (unit.millis.index_last ms)]
  · intro ms' hyears' hsame
    have hroom' := hyears'.room.mono (by decide : (740 : Int) ≤ 1200)
    have hindex := (samePeriod_iff unit _ _).mp hsame
    rw [utc_startOf chrono unit ms' hroom', utc_endOf chrono unit ms' hroom',
      unit.millis.first_congr ms ms' hindex, unit.millis.last_congr ms ms' hindex]
    exact ⟨rfl, rfl⟩
  · rw [samePeriod_iff, unit.millis.index_next]
    omega
  · rw [utc_startOf chrono unit _ hnext, unit.millis.first_next]

/-- The length of a month in days is that from its start to the start of the next. -/
theorem daysInMonth_law (chrono : Chrono cal) (ms : Int) (hyears : InYears ms) :
    ∃ days : Int, (utcValue ms).part cal "days_in_month" = .ok days ∧
      days * dayMillis = Period.month.millis.last ms + 1 - Period.month.millis.first ms := by
  have hroom := hyears.room.mono (by decide : (366 : Int) ≤ 1200)
  have hpart := part_utc chrono ms (hyears.room.representable (by decide))
  rw [if_pos (roomy_month _ hroom)] at hpart
  refine ⟨_, hpart.1, ?_⟩
  change _ = (monthTiling.start (monthTiling.index (dayAt ms) + 1)) * dayMillis - 1 + 1 -
    monthTiling.first (dayAt ms) * dayMillis
  have hlast := monthTiling_last (dayAt ms)
  have hfirst := monthTiling_first (dayAt ms)
  have hlength : dayNumber (yearOf (dayAt ms)) (monthOf (dayAt ms))
      (Gregorian.daysInMonth (yearOf (dayAt ms)) (monthOf (dayAt ms))) =
      dayNumber (yearOf (dayAt ms)) (monthOf (dayAt ms)) 1 +
        Gregorian.daysInMonth (yearOf (dayAt ms)) (monthOf (dayAt ms)) - 1 := by
    unfold dayNumber
    omega
  unfold Tiling.last at hlast
  unfold dayMillis
  omega

/-- In UTC the boundaries of every instant of the years 1 to 9999 enclose it and lie
in its period, the periods follow each other, and the length of its month is that
between two starts. -/
theorem utc_boundaries (chrono : Chrono cal) (ms : Int) (hyears : InYears ms) :
    (∀ unit, ∃ first last, UtcBoundaryLaw cal unit ms first last) ∧
      ∃ first last days, (utcValue ms).startOf cal "month" = .ok (utcValue first) ∧
        (utcValue ms).endOf cal "month" = .ok (utcValue last) ∧
        (utcValue (last + 1)).startOf cal "month" = .ok (utcValue (last + 1)) ∧
        (utcValue ms).part cal "days_in_month" = .ok days ∧
        days * 86400000 = last + 1 - first := by
  refine ⟨fun unit => ⟨_, _, utcBoundaryLaw chrono unit ms hyears⟩, ?_⟩
  have hmonth := utcBoundaryLaw chrono .month ms hyears
  obtain ⟨days, hpart, hlength⟩ := daysInMonth_law chrono ms hyears
  exact ⟨_, _, days, hmonth.startOf, hmonth.endOf, hmonth.next_start, hpart, hlength⟩

theorem utc_boundaries_leap :
    (∀ unit, ∃ first last, UtcBoundaryLaw (gregorian fun _ => none) unit 1709208000000 first last) ∧
      ∃ first last days,
        (utcValue 1709208000000).startOf (gregorian fun _ => none) "month" = .ok (utcValue first) ∧
        (utcValue 1709208000000).endOf (gregorian fun _ => none) "month" = .ok (utcValue last) ∧
        (utcValue (last + 1)).startOf (gregorian fun _ => none) "month" =
          .ok (utcValue (last + 1)) ∧
        (utcValue 1709208000000).part (gregorian fun _ => none) "days_in_month" = .ok days ∧
        days * 86400000 = last + 1 - first :=
  utc_boundaries (gregorianChrono fun _ => none) 1709208000000 (by decide)

end Runlet.Datetime
