import Runlet.Core.Chrono
import Runlet.Core.DatetimeValue

/-!
`start_of` and `end_of` of a datetime: the dates the calendar operations find
are the first and the last day of the period of the local date, and the local
boundary is taken back to the earliest instant that shows it.
-/

namespace Runlet.Datetime

open Gregorian Rfc3339 Errors Classify

/-- The units of a boundary. -/
inductive Period where
  | day
  | week
  | month
  | quarter
  | year
  deriving DecidableEq

def Period.name : Period → String
  | .day => "day"
  | .week => "week"
  | .month => "month"
  | .quarter => "quarter"
  | .year => "year"

/-- The days of each period. -/
def Period.tiling : Period → Tiling
  | .day => dayTiling
  | .week => weekTiling
  | .month => monthTiling
  | .quarter => quarterTiling
  | .year => yearTiling

theorem dayMillis_pos : 0 < dayMillis := by decide

/-- The local milliseconds of each period. -/
def Period.millis (unit : Period) : Tiling := unit.tiling.scale dayMillis dayMillis_pos

/-- A day with so many days of room to the ends of the calendar. -/
def Room (margin n : Int) : Prop := minDay + margin ≤ n ∧ n + margin ≤ maxDay

theorem minDay_eq : minDay = -96465292 := by decide

theorem maxDay_eq : maxDay = 95026236 := by decide

variable {cal : Calendar}

section Dates

variable (chrono : Chrono cal)

/-! ### Dates the calendar finds -/

theorem fromYmd_ok (y : Int) (m d : Nat) (h : IsDate y m d)
    (hlow : minDay ≤ dayNumber y m d) (hhigh : dayNumber y m d ≤ maxDay) :
    ∃ date, cal.fromYmd y m d = some date ∧ chrono.number date = dayNumber y m d := by
  obtain ⟨date, hdate⟩ := (chrono.number_range _).mpr ⟨hlow, hhigh⟩
  exact ⟨date, (chrono.fromYmd y m d date).mpr ⟨h, hdate⟩, hdate⟩

theorem pred_ok (date : cal.Date) (hlow : minDay ≤ chrono.number date - 1) :
    ∃ other, cal.pred date = some other ∧ chrono.number other = chrono.number date - 1 := by
  have hhigh := ((chrono.number_range (chrono.number date)).mp ⟨date, rfl⟩).2
  obtain ⟨other, hother⟩ := (chrono.number_range _).mpr ⟨hlow, by omega⟩
  exact ⟨other, (chrono.pred date other).mpr hother, hother⟩

/-- A date of the same year as a roomy date. -/
theorem near_ok (date : cal.Date) (m d : Nat) (hroom : Room 366 (chrono.number date))
    (h : IsDate (yearOf (chrono.number date)) m d) :
    ∃ other, chrono.number other = dayNumber (yearOf (chrono.number date)) m d := by
  obtain ⟨hlow, hhigh⟩ := hroom
  obtain ⟨hnear, hnear'⟩ := dayNumber_near _ _ _ h
  apply (chrono.number_range _).mpr
  omega

theorem withDay_ok (date : cal.Date) (d : Nat) (hroom : Room 366 (chrono.number date))
    (h : IsDate (yearOf (chrono.number date)) (monthOf (chrono.number date)) d) :
    ∃ other, cal.withDay date d = some other ∧ chrono.number other =
      dayNumber (yearOf (chrono.number date)) (monthOf (chrono.number date)) d := by
  obtain ⟨other, hother⟩ := near_ok chrono date _ d hroom h
  exact ⟨other, (chrono.withDay date d other).mpr ⟨h, hother⟩, hother⟩

theorem withMonth_ok (date : cal.Date) (m : Nat) (hroom : Room 366 (chrono.number date))
    (h : IsDate (yearOf (chrono.number date)) m (dayOf (chrono.number date))) :
    ∃ other, cal.withMonth date m = some other ∧ chrono.number other =
      dayNumber (yearOf (chrono.number date)) m (dayOf (chrono.number date)) := by
  obtain ⟨other, hother⟩ := near_ok chrono date m _ hroom h
  exact ⟨other, (chrono.withMonth date m other).mpr ⟨h, hother⟩, hother⟩

end Dates

/-! ### The days of a month -/

theorem monthTiling_last (n : Int) :
    monthTiling.last n = dayNumber (yearOf n) (monthOf n)
      (Gregorian.daysInMonth (yearOf n) (monthOf n)) := by
  rw [dayNumber_last _ _ (monthOf_range n)]
  rfl

/-- The day before the first of the next month: there is none behind the last day
of the calendar. -/
theorem dayBefore_next (chrono : Chrono cal) (n : Int) (hlow : minDay ≤ n) (y : Int) (m : Nat) (hdate : IsDate y m 1)
    (hnext : dayNumber y m 1 = monthTiling.last n + 1) :
    (do
      let first ← okOr "invalid date" (cal.fromYmd y m 1)
      let last ← okOr "date out of range" (cal.pred first)
      pure (cal.day last)) =
      if monthTiling.last n < maxDay then
        Except.ok (Gregorian.daysInMonth (yearOf n) (monthOf n))
      else .error "invalid date" := by
  have hlast := monthTiling.le_last n
  by_cases hend : monthTiling.last n < maxDay
  · obtain ⟨first, hfirst, hnumber⟩ := fromYmd_ok chrono y m 1 hdate (by omega) (by omega)
    obtain ⟨last, hpred, hnumber'⟩ := pred_ok chrono first (by omega)
    have hday : chrono.number last = dayNumber (yearOf n) (monthOf n)
        (Gregorian.daysInMonth (yearOf n) (monthOf n)) := by
      rw [← monthTiling_last]
      omega
    rw [if_pos hend, hfirst, okOr_bind, hpred, okOr_bind, chrono.day, hday,
      (date_dayNumber _ _ _ (isDate_last _ _ (monthOf_range n))).2.2]
    rfl
  · have hnone : cal.fromYmd y m 1 = none := by
      cases hdate' : cal.fromYmd y m 1 with
      | none => rfl
      | some date =>
          have hnumber := ((chrono.fromYmd y m 1 date).mp hdate').2
          have hrange := (chrono.number_range (chrono.number date)).mp ⟨date, rfl⟩
          omega
    rw [if_neg hend, hnone]
    rfl

/-- The days of a month, from the first day of the next one: that day has no date
behind December of the last year. -/
theorem daysInMonth_eq (chrono : Chrono cal) (n : Int) (hlow : minDay ≤ n) (hhigh : n ≤ maxDay) :
    daysInMonth cal (yearOf n) (monthOf n) =
      if monthTiling.last n < maxDay then
        .ok (Gregorian.daysInMonth (yearOf n) (monthOf n))
      else .error "invalid date" := by
  obtain ⟨hmonth, hmonth'⟩ := monthOf_range n
  have hlast : monthTiling.last n + 1 = monthStart (12 * yearOf n + ((monthOf n - 1 : Nat) : Int) + 1) := by
    rw [monthTiling_last, dayNumber_last _ _ (monthOf_range n)]
    omega
  unfold daysInMonth
  by_cases hdecember : monthOf n ≥ 12
  · have hyear : yearOf n + 1 < 2 ^ 31 := by
      have hstart := (yearOf_spec n).1
      rw [maxDay_eq] at hhigh
      unfold yearStart at hstart
      omega
    have hnext : dayNumber (yearOf n + 1) 1 1 = monthTiling.last n + 1 := by
      rw [hlast, dayNumber_first _ _ (by decide)]
      congr 1
      omega
    rw [if_pos hdecember, if_pos hyear]
    exact dayBefore_next chrono n hlow _ _ (isDate_first _ 1 (by decide)) hnext
  · have hnext : dayNumber (yearOf n) (monthOf n + 1) 1 = monthTiling.last n + 1 := by
      rw [hlast, dayNumber_first _ _ (by omega)]
      congr 1
      omega
    rw [if_neg hdecember]
    exact dayBefore_next chrono n hlow _ _ (isDate_first _ _ (by omega)) hnext

/-! ### The dates of a boundary -/

/-- The first or the last day of the period of a day. -/
def Period.boundary (unit : Period) (atEnd : Bool) (n : Int) : Int :=
  if atEnd then unit.tiling.last n else unit.tiling.first n

theorem weekBoundary_ok (chrono : Chrono cal) (date : cal.Date) (atEnd : Bool)
    (hroom : Room 366 (chrono.number date)) :
    ∃ target, weekBoundary cal date atEnd = .ok target ∧
      chrono.number target = Period.week.boundary atEnd (chrono.number date) := by
  have hweek := Int.emod_lt_of_pos (chrono.number date + 3) week_pos
  obtain ⟨hlow, hhigh⟩ := hroom
  obtain ⟨monday, hmonday⟩ := (chrono.number_range
    (chrono.number date - Gregorian.daysFromMonday (chrono.number date))).mpr (by
      unfold Gregorian.daysFromMonday
      omega)
  have hsub := (chrono.subDays date (cal.daysFromMonday date) monday).mpr (by
    rw [chrono.daysFromMonday, hmonday])
  unfold weekBoundary
  rw [hsub, okOr_bind]
  cases atEnd with
  | false =>
      refine ⟨monday, rfl, ?_⟩
      exact hmonday.trans (weekTiling_first _).symm
  | true =>
      obtain ⟨sunday, hsunday⟩ := (chrono.number_range (chrono.number monday + 6)).mpr (by
        rw [hmonday]
        unfold Gregorian.daysFromMonday
        omega)
      refine ⟨sunday, ?_, ?_⟩
      · rw [if_pos rfl, (chrono.addDays monday 6 sunday).mpr hsunday]
        rfl
      · rw [hsunday, hmonday]
        exact (weekTiling_last _).symm

theorem monthTiling_first (n : Int) :
    monthTiling.first n = dayNumber (yearOf n) (monthOf n) 1 := by
  rw [dayNumber_first _ _ (monthOf_range n)]
  rfl

theorem roomy_month (n : Int) (hroom : Room 366 n) : monthTiling.last n < maxDay := by
  obtain ⟨-, hhigh⟩ := hroom
  obtain ⟨-, hnear⟩ := dayNumber_near n _ _ (isDate_last _ _ (monthOf_range n))
  rw [monthTiling_last]
  omega

theorem monthBoundary_ok (chrono : Chrono cal) (date : cal.Date) (atEnd : Bool)
    (hroom : Room 366 (chrono.number date)) :
    ∃ target, monthBoundary cal date atEnd = .ok target ∧
      chrono.number target = Period.month.boundary atEnd (chrono.number date) := by
  unfold monthBoundary
  cases atEnd with
  | false =>
      obtain ⟨target, hwith, hnumber⟩ :=
        withDay_ok chrono date 1 hroom (isDate_first _ _ (monthOf_range _))
      refine ⟨target, ?_, ?_⟩
      · rw [if_neg (by decide), pure_bind]
        dsimp only
        rw [hwith]
        rfl
      · exact hnumber.trans (monthTiling_first _).symm
  | true =>
      obtain ⟨target, hwith, hnumber⟩ :=
        withDay_ok chrono date _ hroom (isDate_last _ _ (monthOf_range _))
      have hlow : minDay ≤ chrono.number date := ((chrono.number_range _).mp ⟨date, rfl⟩).1
      have hhigh : chrono.number date ≤ maxDay := ((chrono.number_range _).mp ⟨date, rfl⟩).2
      refine ⟨target, ?_, ?_⟩
      · rw [if_pos rfl, chrono.year, chrono.month, daysInMonth_eq chrono _ hlow hhigh,
          if_pos (roomy_month _ hroom), ok_bind]
        dsimp only
        rw [hwith]
        rfl
      · exact hnumber.trans (monthTiling_last _).symm

/-- The days of a quarter by the first month of it. -/
theorem quarterTiling_first (n : Int) : quarterTiling.first n =
    dayNumber (yearOf n) ((monthOf n - 1) / 3 * 3 + 1) 1 := by
  have hrange := monthOf_range n
  rw [dayNumber_first _ _ (by omega)]
  unfold quarterTiling Tiling.first Tiling.coarsen
  dsimp only
  rw [monthTiling_index]
  change monthStart _ = monthStart _
  congr 1
  omega

theorem quarterTiling_last (n : Int) : quarterTiling.last n =
    dayNumber (yearOf n) ((monthOf n - 1) / 3 * 3 + 3)
      (Gregorian.daysInMonth (yearOf n) ((monthOf n - 1) / 3 * 3 + 3)) := by
  have hrange := monthOf_range n
  rw [dayNumber_last _ _ (by omega)]
  unfold quarterTiling Tiling.last Tiling.coarsen
  dsimp only
  rw [monthTiling_index]
  change monthStart _ - 1 = monthStart _ - 1
  congr 2
  omega

theorem quarterBoundary_ok (chrono : Chrono cal) (date : cal.Date) (atEnd : Bool)
    (hroom : Room 732 (chrono.number date)) :
    ∃ target, quarterBoundary cal date atEnd = .ok target ∧
      chrono.number target = Period.quarter.boundary atEnd (chrono.number date) := by
  obtain ⟨hlow, hhigh⟩ := hroom
  have hroom' : Room 366 (chrono.number date) := ⟨by omega, by omega⟩
  have hmonth := monthOf_range (chrono.number date)
  obtain ⟨first, hfirst, hnumber⟩ := withDay_ok chrono date 1 hroom' (isDate_first _ _ hmonth)
  obtain ⟨hyear, -, hday⟩ := date_dayNumber _ _ _ (isDate_first (yearOf (chrono.number date)) _ hmonth)
  rw [← hnumber] at hyear hday
  -- any month of the year is reached from the first of the month
  have hanchor (m : Nat) (hm : 1 ≤ m ∧ m ≤ 12) : ∃ anchored, cal.withMonth first m = some anchored ∧
      chrono.number anchored = dayNumber (yearOf (chrono.number date)) m 1 := by
    obtain ⟨anchored, hanchored⟩ := near_ok chrono date m 1 hroom' (isDate_first _ _ hm)
    refine ⟨anchored, (chrono.withMonth first m anchored).mpr ?_, hanchored⟩
    rw [hyear, hday]
    exact ⟨isDate_first _ _ hm, hanchored⟩
  unfold quarterBoundary
  rw [chrono.month, if_pos hmonth.1, ok_bind, hfirst]
  cases atEnd with
  | false =>
      obtain ⟨anchored, hwith, htarget⟩ := hanchor _ (by omega :
        1 ≤ (monthOf (chrono.number date) - 1) / 3 * 3 + 1 ∧ _ ≤ 12)
      refine ⟨anchored, ?_, ?_⟩
      · simp only [Bool.false_eq_true, if_false, Option.bind_some, hwith]
        rfl
      · exact htarget.trans (quarterTiling_first _).symm
  | true =>
      obtain ⟨anchored, hwith, htarget⟩ := hanchor _ (by omega :
        1 ≤ (monthOf (chrono.number date) - 1) / 3 * 3 + 1 + 2 ∧ _ ≤ 12)
      have hdate := isDate_first (yearOf (chrono.number date)) _ (by omega :
        1 ≤ (monthOf (chrono.number date) - 1) / 3 * 3 + 1 + 2 ∧ _ ≤ 12)
      obtain ⟨hyear', hmonth', -⟩ := date_dayNumber _ _ _ hdate
      obtain ⟨hnear, hnear'⟩ := dayNumber_near _ _ _ hdate
      obtain ⟨target, hmonthEnd, hlast⟩ := monthBoundary_ok chrono anchored true
        ⟨by omega, by omega⟩
      refine ⟨target, ?_, ?_⟩
      · simp only [if_true, Option.bind_some, hwith]
        exact hmonthEnd
      · rw [hlast]
        change monthTiling.last _ = quarterTiling.last _
        rw [monthTiling_last, quarterTiling_last, htarget, hyear', hmonth']

theorem yearTiling_first (n : Int) : yearTiling.first n = dayNumber (yearOf n) 1 1 := by
  change yearStart (yearOf n) = yearStart (yearOf n) + ((0 : Nat) : Int) + ((1 : Nat) : Int) - 1
  omega

theorem yearTiling_last (n : Int) : yearTiling.last n = dayNumber (yearOf n) 12 31 := by
  have hlength : daysBefore (isLeap (yearOf n)) 12 = daysBefore (isLeap (yearOf n)) 11 + 31 := rfl
  change yearStart (yearOf n + 1) - 1 =
    yearStart (yearOf n) + ((daysBefore (isLeap (yearOf n)) 11 : Nat) : Int) + ((31 : Nat) : Int) - 1
  rw [yearStart_succ, hlength]
  omega

/-- Through a month of 31 days every date is kept on the way. -/
theorem anchor_ok (chrono : Chrono cal) (date : cal.Date) (hroom : Room 366 (chrono.number date))
    (m d : Nat) (hm : 1 ≤ m ∧ m ≤ 12)
    (hlength : Gregorian.daysInMonth (yearOf (chrono.number date)) m = 31) (hd : 1 ≤ d ∧ d ≤ 31) :
    ∃ target, ((cal.withMonth date m).bind fun anchored => cal.withDay anchored d) = some target ∧
      chrono.number target = dayNumber (yearOf (chrono.number date)) m d := by
  have hkept : IsDate (yearOf (chrono.number date)) m (dayOf (chrono.number date)) := by
    have hdate := isDate_date (chrono.number date)
    refine ⟨hm.1, hm.2, hdate.day_pos, ?_⟩
    rw [hlength]
    exact Nat.le_trans hdate.day_le (monthLength_le _ _)
  have htarget : IsDate (yearOf (chrono.number date)) m d :=
    ⟨hm.1, hm.2, hd.1, hlength ▸ hd.2⟩
  obtain ⟨anchored, hwith, hnumber⟩ := withMonth_ok chrono date m hroom hkept
  obtain ⟨hyear, hmonth, -⟩ := date_dayNumber _ _ _ hkept
  rw [← hnumber] at hyear hmonth
  obtain ⟨target, htarget'⟩ := near_ok chrono date m d hroom htarget
  refine ⟨target, ?_, htarget'⟩
  rw [hwith, Option.bind_some, chrono.withDay, hyear, hmonth]
  exact ⟨htarget, htarget'⟩

theorem yearBoundary_ok (chrono : Chrono cal) (date : cal.Date) (atEnd : Bool)
    (hroom : Room 366 (chrono.number date)) :
    ∃ target, yearBoundary cal date atEnd = .ok target ∧
      chrono.number target = Period.year.boundary atEnd (chrono.number date) := by
  unfold yearBoundary
  cases atEnd with
  | false =>
      obtain ⟨target, hfound, hnumber⟩ :=
        anchor_ok chrono date hroom 1 1 (by decide) rfl (by decide)
      refine ⟨target, ?_, hnumber.trans (yearTiling_first _).symm⟩
      exact congrArg (okOr _) hfound
  | true =>
      obtain ⟨target, hfound, hnumber⟩ :=
        anchor_ok chrono date hroom 12 31 (by decide) rfl (by decide)
      refine ⟨target, ?_, hnumber.trans (yearTiling_last _).symm⟩
      exact congrArg (okOr _) hfound

theorem boundaryDate_ok (chrono : Chrono cal) (date : cal.Date) (unit : Period) (atEnd : Bool)
    (hroom : Room 732 (chrono.number date)) :
    ∃ target, boundaryDate cal date unit.name atEnd = .ok target ∧
      chrono.number target = unit.boundary atEnd (chrono.number date) := by
  have hroom' : Room 366 (chrono.number date) := by
    obtain ⟨hlow, hhigh⟩ := hroom
    exact ⟨by omega, by omega⟩
  cases unit with
  | day =>
      refine ⟨date, rfl, ?_⟩
      unfold Period.boundary Period.tiling dayTiling Tiling.first Tiling.last Tiling.every
      split <;> dsimp only <;> omega
  | week => exact weekBoundary_ok chrono date atEnd hroom'
  | month => exact monthBoundary_ok chrono date atEnd hroom'
  | quarter => exact quarterBoundary_ok chrono date atEnd hroom
  | year => exact yearBoundary_ok chrono date atEnd hroom'

/-! ### From the local boundary to an instant -/

/-- The instants of the years 1 to 9999. -/
def InYears (ms : Int) : Prop := 1 ≤ yearOf (dayAt ms) ∧ yearOf (dayAt ms) ≤ 9999

instance (ms : Int) : Decidable (InYears ms) := instDecidableAnd

theorem InYears.days {ms : Int} (h : InYears ms) : -719162 ≤ dayAt ms ∧ dayAt ms < 2932897 := by
  obtain ⟨hfirst, hlast⟩ := h
  obtain ⟨hstart, hend⟩ := yearOf_spec (dayAt ms)
  have hlow : yearStart 1 ≤ yearStart (yearOf (dayAt ms)) :=
    yearTiling.start_le_start hfirst
  have hhigh : yearStart (yearOf (dayAt ms) + 1) ≤ yearStart 10000 :=
    yearTiling.start_le_start (by omega)
  have hone : yearStart 1 = -719162 := by decide
  have hmany : yearStart 10000 = 2932897 := by decide
  omega

theorem InYears.room {ms : Int} (h : InYears ms) : Room 1200 (dayAt ms) := by
  obtain ⟨hlow, hhigh⟩ := h.days
  have hmin := minDay_eq
  have hmax := maxDay_eq
  constructor <;> omega

theorem Room.mono {small large n : Int} (h : Room large n) (hle : small ≤ large) : Room small n := by
  obtain ⟨hlow, hhigh⟩ := h
  constructor <;> omega

/-- Milliseconds in a range of days. -/
theorem dayAt_iff (ms low high : Int) :
    (low ≤ dayAt ms ∧ dayAt ms ≤ high) ↔
      low * dayMillis ≤ ms ∧ ms < (high + 1) * dayMillis := by
  unfold dayAt dayMillis
  omega

theorem Room.representable {margin ms : Int} (h : Room margin (dayAt ms)) (hmargin : 0 ≤ margin) :
    Representable ms := by
  obtain ⟨hlow, hhigh⟩ := h
  constructor <;> omega

theorem Representable.fits {ms : Int} (h : Representable ms) : fitsI64 ms = true := by
  obtain ⟨hlow, hhigh⟩ := (dayAt_iff ms _ _).mp h
  rw [minDay_eq] at hlow
  rw [maxDay_eq] at hhigh
  unfold dayMillis at hlow hhigh
  unfold fitsI64
  rw [Bool.and_eq_true, decide_eq_true_eq, decide_eq_true_eq]
  omega

/-- The local boundary of the period of a local time. -/
def Period.localBoundary (unit : Period) (atEnd : Bool) (loc : Int) : Int :=
  if atEnd then unit.millis.last loc else unit.millis.first loc

theorem localBoundary_eq (unit : Period) (atEnd : Bool) (loc : Int) :
    unit.localBoundary atEnd loc =
      unit.boundary atEnd (dayAt loc) * dayMillis + if atEnd then dayMillis - 1 else 0 := by
  cases atEnd with
  | false => exact (Int.add_zero _).symm
  | true =>
      change unit.tiling.start (unit.tiling.index (dayAt loc) + 1) * dayMillis - 1 =
        (unit.tiling.start (unit.tiling.index (dayAt loc) + 1) - 1) * dayMillis + (dayMillis - 1)
      unfold dayMillis
      omega

/-- A period reaches less than a year from any of its days. -/
theorem boundary_near (unit : Period) (atEnd : Bool) (n : Int) :
    n - 366 < unit.boundary atEnd n ∧ unit.boundary atEnd n < n + 366 := by
  have hrange := monthOf_range n
  unfold Period.boundary
  cases unit with
  | day =>
      unfold Period.tiling dayTiling Tiling.first Tiling.last Tiling.every
      split <;> dsimp only <;> omega
  | week =>
      have hfirst := weekTiling_first n
      have hlast := weekTiling_last n
      unfold Gregorian.daysFromMonday at hfirst hlast
      dsimp only [Period.tiling]
      split <;> omega
  | month =>
      dsimp only [Period.tiling]
      rw [monthTiling_first, monthTiling_last]
      split
      · exact dayNumber_near n _ _ (isDate_last _ _ hrange)
      · exact dayNumber_near n _ _ (isDate_first _ _ hrange)
  | quarter =>
      dsimp only [Period.tiling]
      rw [quarterTiling_first, quarterTiling_last]
      split
      · exact dayNumber_near n _ _ (isDate_last _ _ (by omega))
      · exact dayNumber_near n _ _ (isDate_first _ _ (by omega))
  | year =>
      dsimp only [Period.tiling]
      rw [yearTiling_first, yearTiling_last]
      split
      · exact dayNumber_near n _ _ (isDate_last (yearOf n) 12 (by decide))
      · exact dayNumber_near n _ _ (isDate_first (yearOf n) 1 (by decide))

/-- The first instant that shows a local time. -/
structure Earliest (offset : Int → Int) (loc t : Int) : Prop where
  representable : Representable t
  shown : t + offset t = loc
  least : ∀ t', Representable t' → t' + offset t' = loc → t ≤ t'

theorem resolveZone_payload (self : DateTime) (tz : cal.Zone) (unit : String)
    (hzone : zoneOf cal self.zone = some tz) :
    resolveZone cal (payloadFor self [("unit", .str unit)]) = .ok tz := by
  unfold zoneOf at hzone
  unfold payloadFor
  cases hname : self.zone with
  | none =>
      simp only [hname, Option.some.injEq] at hzone
      rw [← hzone]
      rfl
  | some name =>
      simp only [hname] at hzone
      change parseZone cal name = .ok tz
      unfold parseZone
      rw [hzone]
      rfl

/-- The first or the last millisecond of a date. -/
theorem edgeTime_ok (chrono : Chrono cal) (target : cal.Date) (atEnd : Bool) :
    ∃ naive,
      (if atEnd then cal.atTime target 23 59 59 999 else cal.atTime target 0 0 0 0) = some naive ∧
      cal.utcMillis naive =
        chrono.number target * dayMillis + if atEnd then dayMillis - 1 else 0 := by
  cases atEnd with
  | false => exact chrono.atTime target 0 0 0 0 (by decide) (by decide) (by decide) (by decide)
  | true => exact chrono.atTime target 23 59 59 999 (by decide) (by decide) (by decide) (by decide)

/-- The boundary is the instant of a local time, that of the period in the zone. -/
theorem datetimeBoundary_local (chrono : Chrono cal) (self : DateTime) (tz : cal.Zone)
    (hzone : zoneOf cal self.zone = some tz) (hroom : Room 740 (dayAt self.ms))
    (unit : Period) (atEnd : Bool) :
    ∃ naive, datetimeBoundary cal (payloadFor self [("unit", .str unit.name)]) atEnd =
        (fromLocal cal tz naive).map int ∧
      cal.utcMillis naive = unit.localBoundary atEnd (self.ms + chrono.offset tz self.ms) := by
  have hms := hroom.representable (by decide)
  obtain ⟨hlow, hhigh⟩ := hroom
  obtain ⟨hoffset, hoffset'⟩ := chrono.offset_bounded tz self.ms
  have hnear : dayAt self.ms - 1 ≤ dayAt (self.ms + chrono.offset tz self.ms) ∧
      dayAt (self.ms + chrono.offset tz self.ms) ≤ dayAt self.ms + 1 := by
    unfold dayAt dayMillis at *
    omega
  have hlocal : Representable (self.ms + chrono.offset tz self.ms) := ⟨by omega, by omega⟩
  obtain ⟨i, hi⟩ := Option.isSome_iff_exists.mp ((chrono.fromMillis_isSome self.ms).mpr hms)
  have hmillis := chrono.millis_fromMillis self.ms i hi
  have hdate := chrono.localDate tz i (by rwa [hmillis])
  rw [hmillis] at hdate
  obtain ⟨target, htarget, hnumber⟩ := boundaryDate_ok chrono (cal.localDate tz i) unit atEnd (by
    rw [hdate]
    exact ⟨by omega, by omega⟩)
  obtain ⟨naive, hnaive, hutc⟩ := edgeTime_ok chrono target atEnd
  refine ⟨naive, ?_, ?_⟩
  · have hunit : fieldStr (payloadFor self [("unit", .str unit.name)]) "unit" = .ok unit.name := rfl
    have hfield : fieldI64 (payloadFor self [("unit", .str unit.name)]) "ms" = .ok self.ms :=
      fieldI64_int _ "ms" self.ms rfl hms.fits
    unfold datetimeBoundary instant
    rw [hunit, ok_bind, resolveZone_payload self tz _ hzone, ok_bind, hfield, ok_bind, hi,
      okOr_bind, htarget, ok_bind, hnaive, okOr_bind]
    cases fromLocal cal tz naive <;> rfl
  · rw [hutc, hnumber, hdate, localBoundary_eq]

/-- The boundary of a period in a zone: the earliest instant of the local one, or
an error when no instant shows it. -/
theorem datetimeBoundary_cases (chrono : Chrono cal) (self : DateTime) (tz : cal.Zone)
    (hzone : zoneOf cal self.zone = some tz) (hroom : Room 740 (dayAt self.ms))
    (unit : Period) (atEnd : Bool) :
    (∃ t, datetimeBoundary cal (payloadFor self [("unit", .str unit.name)]) atEnd = .ok (int t) ∧
      Earliest (chrono.offset tz)
        (unit.localBoundary atEnd (self.ms + chrono.offset tz self.ms)) t) ∨
    (∃ error, datetimeBoundary cal (payloadFor self [("unit", .str unit.name)]) atEnd =
        .error error) ∧
      ∀ t, Representable t → t + chrono.offset tz t ≠
        unit.localBoundary atEnd (self.ms + chrono.offset tz self.ms) := by
  obtain ⟨naive, hrun, hutc⟩ := datetimeBoundary_local chrono self tz hzone hroom unit atEnd
  rw [hrun, ← hutc]
  unfold fromLocal
  cases hfound : cal.fromLocal tz naive with
  | none => exact .inr ⟨⟨_, rfl⟩, chrono.fromLocal_none tz naive hfound⟩
  | some found =>
      obtain ⟨⟨hrange, hshown⟩, hleast⟩ := chrono.fromLocal_some tz naive found hfound
      exact .inl ⟨cal.millis found, rfl, hrange, hshown, hleast⟩

end Runlet.Datetime
