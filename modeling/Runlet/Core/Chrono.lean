import Runlet.Core.Datetime
import Runlet.Lib.LocalTime
import Runlet.Lib.Rfc3339

/-!
What the `datetime` domain relies on of its calendar library: the proleptic
Gregorian calendar over a bounded range of days, instants in milliseconds, zones
as bounded offsets with the earliest instant of a local time, and RFC 3339 text.
A calendar written out on the library of this development meets it.
-/

namespace Runlet.Datetime

open Gregorian Rfc3339

/-- The first and the last day that have a date: 1 January -262143 and 31 December 262142. -/
def minDay : Int := dayNumber (-262143) 1 1

def maxDay : Int := dayNumber 262142 12 31

/-- The instants on the days that have a date. -/
def Representable (ms : Int) : Prop := minDay ≤ dayAt ms ∧ dayAt ms ≤ maxDay

instance (ms : Int) : Decidable (Representable ms) := instDecidableAnd

/-- The calendar library: the number of each date, the offset of each zone at an
instant, and what its operations return. -/
structure Chrono (cal : Calendar) where
  number : cal.Date → Int
  offset : cal.Zone → Int → Int
  number_range : ∀ n, (∃ date, number date = n) ↔ minDay ≤ n ∧ n ≤ maxDay
  year : ∀ date, cal.year date = yearOf (number date)
  month : ∀ date, cal.month date = monthOf (number date)
  day : ∀ date, cal.day date = dayOf (number date)
  daysFromMonday : ∀ date, cal.daysFromMonday date = Gregorian.daysFromMonday (number date)
  fromYmd : ∀ y m d date, cal.fromYmd y m d = some date ↔
    IsDate y m d ∧ number date = dayNumber y m d
  withDay : ∀ date d other, cal.withDay date d = some other ↔
    IsDate (yearOf (number date)) (monthOf (number date)) d ∧
      number other = dayNumber (yearOf (number date)) (monthOf (number date)) d
  withMonth : ∀ date m other, cal.withMonth date m = some other ↔
    IsDate (yearOf (number date)) m (dayOf (number date)) ∧
      number other = dayNumber (yearOf (number date)) m (dayOf (number date))
  pred : ∀ date other, cal.pred date = some other ↔ number other = number date - 1
  addDays : ∀ date count other, cal.addDays date count = some other ↔
    number other = number date + count
  subDays : ∀ date count other, cal.subDays date count = some other ↔
    number other = number date - count
  millis_fromMillis : ∀ ms i, cal.fromMillis ms = some i → cal.millis i = ms
  fromMillis_isSome : ∀ ms, (cal.fromMillis ms).isSome = true ↔ Representable ms
  addMonths_zero : ∀ i, cal.addMonths i 0 = some i
  offset_bounded : ∀ zone t, -dayMillis < offset zone t ∧ offset zone t < dayMillis
  offset_utc : ∀ t, offset cal.utc t = 0
  localDate : ∀ zone i, Representable (cal.millis i + offset zone (cal.millis i)) →
    number (cal.localDate zone i) = dayAt (cal.millis i + offset zone (cal.millis i))
  atTime : ∀ date h m s ms, h < 24 → m < 60 → s < 60 → ms < 1000 →
    ∃ naive, cal.atTime date h m s ms = some naive ∧
      cal.utcMillis naive = number date * dayMillis +
        ((((h * 60 + m) * 60 + s) * 1000 + ms : Nat) : Int)
  /-- The earliest instant of a local time. -/
  fromLocal_some : ∀ zone naive i, cal.fromLocal zone naive = some i →
    (Representable (cal.millis i) ∧
      cal.millis i + offset zone (cal.millis i) = cal.utcMillis naive) ∧
    ∀ t, Representable t → t + offset zone t = cal.utcMillis naive → cal.millis i ≤ t
  fromLocal_none : ∀ zone naive, cal.fromLocal zone naive = none →
    ∀ t, Representable t → t + offset zone t ≠ cal.utcMillis naive
  components_year : ∀ i, (cal.components cal.utc i).year = yearOf (dayAt (cal.millis i))
  components_month : ∀ i, (cal.components cal.utc i).month = monthOf (dayAt (cal.millis i))
  components_weekday : ∀ i, (cal.components cal.utc i).weekday =
    Gregorian.daysFromMonday (dayAt (cal.millis i)) + 1
  toRfc3339 : ∀ ms i, cal.fromMillis ms = some i → (cal.toRfc3339 i).toList = write ms
  /-- Reading a text in UTC. -/
  parseRfc3339_some : ∀ text ms, text.toList.getLast? = some 'Z' → read text.toList = some ms →
    Representable ms → ∃ i, cal.parseRfc3339 text = some i ∧ cal.millis i = ms
  parseRfc3339_none : ∀ text, text.toList.getLast? = some 'Z' → read text.toList = none →
    cal.parseRfc3339 text = none
  /-- A date alone has no time behind it. -/
  parseDate_time : ∀ text, 'T' ∈ text.toList → cal.parseDate text = none

/-! ### A calendar of that kind -/

/-- A date by its number. -/
abbrev DayNumber := {n : Int // minDay ≤ n ∧ n ≤ maxDay}

def dayOption (n : Int) : Option DayNumber :=
  if h : minDay ≤ n ∧ n ≤ maxDay then some ⟨n, h⟩ else none

/-- The date with these parts, if there is one. -/
def dateOption (y : Int) (m d : Nat) : Option DayNumber :=
  if IsDate y m d then dayOption (dayNumber y m d) else none

abbrev Instant := {ms : Int // Representable ms}

def instantOption (ms : Int) : Option Instant :=
  if h : Representable ms then some ⟨ms, h⟩ else none

abbrev ZoneRules := LocalTime.Zone dayMillis

theorem no_offset_bounded : -dayMillis < 0 ∧ 0 < dayMillis := by decide

def utcRules : ZoneRules := .fixed 0 no_offset_bounded

/-- An instant moved by whole months, the day cut to the length of the month. -/
def shiftMonths (ms months : Int) : Int :=
  let index := monthTiling.index (dayAt ms) + months
  let y := index / 12
  let m := (index % 12).toNat + 1
  dayNumber y m (min (dayOf (dayAt ms)) (Gregorian.daysInMonth y m)) * dayMillis + timeAt ms

/-- The ISO week of a day: that of the Thursday of its week. -/
def thursdayOf (n : Int) : Int := n - Gregorian.daysFromMonday n + 3

def componentsAt (ms : Int) : Components where
  year := yearOf (dayAt ms)
  month := monthOf (dayAt ms)
  day := dayOf (dayAt ms)
  hour := timeAt ms / 3600000
  minute := timeAt ms / 60000 % 60
  second := timeAt ms / 1000 % 60
  millisecond := timeAt ms % 1000
  weekday := Gregorian.daysFromMonday (dayAt ms) + 1
  ordinal := dayOfYear (dayAt ms) + 1
  isoWeek := dayOfYear (thursdayOf (dayAt ms)) / 7 + 1
  isoYear := yearOf (thursdayOf (dayAt ms))

/-- A date as `%Y-%m-%d`, of four digits for the year. -/
def readDate (text : String) : Option DayNumber :=
  if text.toList.all fun c => NumberText.isDigit c || c == '-' then do
    let (y, cs) ← number 4 text.toList
    let cs ← expect ['-'] cs
    let (m, cs) ← number 2 cs
    let cs ← expect ['-'] cs
    let (d, cs) ← number 2 cs
    if cs = [] then dateOption y m d else none
  else none

theorem epoch_inRange : minDay ≤ 0 ∧ 0 ≤ maxDay := by decide

/-- The calendar over a table of zones. -/
def gregorian (zones : String → Option ZoneRules) : Calendar where
  Instant := Instant
  Zone := ZoneRules
  Date := DayNumber
  Local := Int
  now := .ok 0
  parseRfc3339 text := (read text.toList).bind instantOption
  parseDate := readDate
  fromMillis := instantOption
  millis i := i.val
  addMonths i count := instantOption (shiftMonths i.val count)
  subMonths i count := instantOption (shiftMonths i.val (-count))
  toRfc3339 i := String.ofList (write i.val)
  toRfc3339In _ i := String.ofList (write i.val)
  components zone i := componentsAt (i.val + zone.offset i.val)
  localDate zone i := (dayOption (dayAt (i.val + zone.offset i.val))).getD ⟨0, epoch_inRange⟩
  utc := utcRules
  parseZone name := if name = "UTC" then some utcRules else zones name
  utcMillis loc := loc
  fromLocal zone loc := (zone.earliest (fun t => decide (Representable t)) loc).bind instantOption
  atTime date h m s ms :=
    if h < 24 ∧ m < 60 ∧ s < 60 ∧ ms < 1000 then
      some (date.val * dayMillis + ((((h * 60 + m) * 60 + s) * 1000 + ms : Nat) : Int))
    else none
  fromYmd := dateOption
  year date := yearOf date.val
  month date := monthOf date.val
  day date := dayOf date.val
  daysFromMonday date := Gregorian.daysFromMonday date.val
  addDays date count := dayOption (date.val + count)
  subDays date count := dayOption (date.val - count)
  withDay date d := dateOption (yearOf date.val) (monthOf date.val) d
  withMonth date m := dateOption (yearOf date.val) m (dayOf date.val)
  pred date := dayOption (date.val - 1)

theorem dayOption_iff (n : Int) (day : DayNumber) : dayOption n = some day ↔ day.val = n := by
  unfold dayOption
  constructor
  · intro h
    split at h
    · cases h
      rfl
    · cases h
  · rintro rfl
    rw [dif_pos day.property]

theorem dateOption_iff (y : Int) (m d : Nat) (day : DayNumber) :
    dateOption y m d = some day ↔ IsDate y m d ∧ day.val = dayNumber y m d := by
  unfold dateOption
  by_cases hdate : IsDate y m d
  · rw [if_pos hdate, dayOption_iff]
    exact (and_iff_right hdate).symm
  · rw [if_neg hdate]
    exact ⟨nofun, fun h => absurd h.1 hdate⟩

theorem instantOption_iff (ms : Int) (i : Instant) : instantOption ms = some i ↔ i.val = ms := by
  unfold instantOption
  constructor
  · intro h
    split at h
    · cases h
      rfl
    · cases h
  · rintro rfl
    rw [dif_pos i.property]

theorem instantOption_of (ms : Int) (h : Representable ms) : instantOption ms = some ⟨ms, h⟩ :=
  dif_pos h

theorem readDate_time (text : String) (h : 'T' ∈ text.toList) : readDate text = none := by
  unfold readDate
  rw [if_neg]
  intro hall
  have htime := List.all_eq_true.mp hall 'T' h
  revert htime
  decide

/-- Nothing is moved by no months. -/
theorem shiftMonths_zero (ms : Int) : shiftMonths ms 0 = ms := by
  have hdate := isDate_date (dayAt ms)
  have hindex := monthTiling_index (dayAt ms)
  obtain ⟨hpos, hle⟩ := monthOf_range (dayAt ms)
  have hyear : (monthTiling.index (dayAt ms) + 0) / 12 = yearOf (dayAt ms) := by omega
  have hmonth : ((monthTiling.index (dayAt ms) + 0) % 12).toNat + 1 = monthOf (dayAt ms) := by
    omega
  unfold shiftMonths
  dsimp only
  rw [hyear, hmonth, Nat.min_eq_left hdate.day_le, dayNumber_date, dayAt_timeAt]

/-- The calendar is one that can be relied on. -/
def gregorianChrono (zones : String → Option ZoneRules) : Chrono (gregorian zones) where
  number date := date.val
  offset zone t := zone.offset t
  number_range n := ⟨fun ⟨date, hdate⟩ => hdate ▸ date.property, fun h => ⟨⟨n, h⟩, rfl⟩⟩
  year _ := rfl
  month _ := rfl
  day _ := rfl
  daysFromMonday _ := rfl
  fromYmd := dateOption_iff
  withDay date d other := dateOption_iff _ _ d other
  withMonth date m other := dateOption_iff _ m _ other
  pred date other := dayOption_iff _ other
  addDays date count other := dayOption_iff _ other
  subDays date count other := dayOption_iff _ other
  millis_fromMillis ms i h := (instantOption_iff ms i).mp h
  fromMillis_isSome ms := by
    change (instantOption ms).isSome = true ↔ _
    unfold instantOption
    split
    · rename_i hms
      exact ⟨fun _ => hms, fun _ => rfl⟩
    · rename_i hms
      exact ⟨nofun, fun h => absurd h hms⟩
  addMonths_zero i := by
    apply (instantOption_iff _ i).mpr
    exact (shiftMonths_zero i.val).symm
  offset_bounded zone t := zone.offset_bounded t
  offset_utc _ := rfl
  localDate zone i h := by
    obtain ⟨date, hdate⟩ : ∃ date, dayOption (dayAt (i.val + zone.offset i.val)) = some date :=
      ⟨⟨_, h⟩, dif_pos h⟩
    change ((dayOption (dayAt (i.val + zone.offset i.val))).getD _).val = _
    rw [hdate]
    exact (dayOption_iff _ date).mp hdate
  atTime date h m s ms hh hm hs hms := ⟨_, if_pos ⟨hh, hm, hs, hms⟩, rfl⟩
  fromLocal_some zone loc i h := by
    obtain ⟨t, hearliest, hinstant⟩ := Option.bind_eq_some_iff.mp h
    have hvalue : i.val = t := (instantOption_iff t i).mp hinstant
    obtain ⟨⟨-, hshown⟩, hleast⟩ := zone.earliest_some _ loc t hearliest
    refine ⟨⟨i.property, ?_⟩, ?_⟩
    · change i.val + zone.offset i.val = loc
      rw [hvalue, hshown]
    · intro t' hrange hshown'
      change i.val ≤ t'
      rw [hvalue]
      exact hleast t' (decide_eq_true hrange) hshown'
  fromLocal_none zone loc h t hrange hshown := by
    cases hearliest : zone.earliest (fun t => decide (Representable t)) loc with
    | none => exact zone.earliest_none _ loc hearliest t (decide_eq_true hrange) hshown
    | some t' =>
        have hrange' := of_decide_eq_true (zone.earliest_some _ loc t' hearliest).1.1
        change (zone.earliest (fun t => decide (Representable t)) loc).bind instantOption = none at h
        rw [hearliest, Option.bind_some, instantOption_of t' hrange'] at h
        cases h
  components_year i := congrArg (fun ms => yearOf (dayAt ms)) (Int.add_zero i.val)
  components_month i := congrArg (fun ms => monthOf (dayAt ms)) (Int.add_zero i.val)
  components_weekday i :=
    congrArg (fun ms => Gregorian.daysFromMonday (dayAt ms) + 1) (Int.add_zero i.val)
  toRfc3339 ms i h := by
    change (String.ofList (write i.val)).toList = write ms
    rw [String.toList_ofList, (instantOption_iff ms i).mp h]
  parseRfc3339_some text ms _ hread hrange := by
    refine ⟨⟨ms, hrange⟩, ?_, rfl⟩
    change (read text.toList).bind instantOption = _
    rw [hread]
    exact instantOption_of ms hrange
  parseRfc3339_none text _ hread := by
    change (read text.toList).bind instantOption = _
    rw [hread]
    rfl
  parseDate_time := readDate_time

end Runlet.Datetime
