import Runlet.Lib.Pipeline
import Runlet.Core.BusinessDays
import Runlet.Core.ZonedBoundaries

/-!
Parts, months and differences of the `datetime` value (`sys.rs`, `datetime.js`): parts
read in a zone and built again in it, months added one after the other, and the span of
`diff` given back to `add`.
-/

namespace Runlet.Datetime

open Errors Classify Text Gregorian Rfc3339

/-- What these verbs ask of the calendar library beside dates and offsets: the parts of a
local time, and months added with the day cut to the length of the month. -/
structure Civil {cal : Calendar} (chrono : Chrono cal) : Prop where
  components : ∀ zone i, Representable (cal.millis i + chrono.offset zone (cal.millis i)) →
    cal.components zone i = componentsAt (cal.millis i + chrono.offset zone (cal.millis i))
  addMonths : ∀ i count,
    (cal.addMonths i count).map cal.millis =
      if Representable (shiftMonths (cal.millis i) count) then
        some (shiftMonths (cal.millis i) count)
      else none
  subMonths : ∀ i count,
    (cal.subMonths i count).map cal.millis =
      if Representable (shiftMonths (cal.millis i) (-count)) then
        some (shiftMonths (cal.millis i) (-count))
      else none

theorem instantOption_map (ms : Int) :
    (instantOption ms).map Subtype.val = if Representable ms then some ms else none := by
  unfold instantOption
  split <;> rfl

theorem gregorianCivil (zones : String → Option ZoneRules) : Civil (gregorianChrono zones) where
  components _ _ _ := rfl
  addMonths i count := instantOption_map (shiftMonths i.val count)
  subMonths i count := instantOption_map (shiftMonths i.val (-count))

section Verbs

variable (cal : Calendar)

/-- The component bundle, in the zone of the view. -/
def partsOf (self : DateTime) : Except String Json :=
  datetimeDispatch cal "parts" (payloadFor self [])

def zoneField : Option String → List (String × Json)
  | none => []
  | some name => [("zone", .str name)]

/-- `datetime.from`: the zone reads the parts and is no view of the result. -/
def fromParts (parts : Json) (zone : Option String) : Except String DateTime :=
  (datetimeDispatch cal "from" (.obj (("parts", parts) :: zoneField zone))).map fun value =>
    ⟨numberOf value, none⟩

def DateTime.diff (self other : DateTime) : Except String Json :=
  datetimeDispatch cal "diff" (.obj [("a", int self.ms), ("b", int other.ms)])

/-- What `add` reads of an object: its units, and nothing else of it. -/
def deltaOf (span : Json) : Delta :=
  let part key := ((field key span).map numberOf).getD 0
  ⟨part "years", part "months", part "weeks", part "days", part "hours", part "minutes",
    part "seconds", part "ms"⟩

def monthsDelta (months : Int) : Delta := { noDelta with months }

end Verbs

variable {cal : Calendar} {chrono : Chrono cal}

/-! ### Parts and back -/

theorem resolveZone_ok {payload : Json} {name : Option String} {tz : cal.Zone}
    (hname : (field "zone" payload).bind asStr = name) (hzone : zoneOf cal name = some tz) :
    resolveZone cal payload = .ok tz := by
  rw [resolveZone, hname]
  cases name with
  | none => exact congrArg Except.ok (Option.some.inj hzone)
  | some name =>
      change okOr _ (cal.parseZone name) = _
      rw [show cal.parseZone name = some tz from hzone]
      rfl

/-- The bundle of a local time, as the bridge writes it. -/
def bundleAt (loc : Int) : Json :=
  let parts := componentsAt loc
  .obj
    [("year", int parts.year), ("month", int parts.month), ("day", int parts.day),
      ("hour", int parts.hour), ("minute", int parts.minute), ("second", int parts.second),
      ("millisecond", int parts.millisecond), ("weekday", int parts.weekday),
      ("quarter", int ((parts.month - 1) / 3 + 1 : Nat)), ("day_of_year", int parts.ordinal),
      ("iso_week", .obj [("week", int parts.isoWeek), ("week_year", int parts.isoYear)]),
      ("days_in_month", int (Gregorian.daysInMonth parts.year parts.month : Nat))]

/-- The local time of a view is on the calendar, a month before its end. -/
theorem local_room (chrono : Chrono cal) {self : DateTime} (hyears : InYears self.ms) (tz : cal.Zone) :
    Room 1100 (dayAt (self.ms + chrono.offset tz self.ms)) := by
  obtain ⟨hlow, hhigh⟩ := hyears.room
  obtain ⟨hoffset, hoffset'⟩ := chrono.offset_bounded tz self.ms
  unfold dayAt dayMillis at *
  constructor <;> omega

theorem partsOf_ok (civil : Civil chrono) {self : DateTime} {tz : cal.Zone}
    (hzone : zoneOf cal self.zone = some tz) (hyears : InYears self.ms) :
    partsOf cal self = .ok (bundleAt (self.ms + chrono.offset tz self.ms)) := by
  have hms := hyears.room.representable (by decide)
  have hroom := local_room chrono hyears tz
  have hlocal := hroom.representable (by decide)
  obtain ⟨i, hi⟩ := Option.isSome_iff_exists.mp ((chrono.fromMillis_isSome self.ms).mpr hms)
  have hmillis := chrono.millis_fromMillis self.ms i hi
  have hparts := civil.components tz i (by rwa [hmillis])
  rw [hmillis] at hparts
  have hpayload : resolveZone cal (payloadFor self []) = .ok tz := by
    apply resolveZone_ok _ hzone
    unfold payloadFor
    cases self.zone <;> rfl
  have hfield : fieldI64 (payloadFor self []) "ms" = .ok self.ms :=
    fieldI64_int _ "ms" self.ms rfl hms.fits
  have hpositive := (monthOf_range (dayAt (self.ms + chrono.offset tz self.ms))).1
  have hdays := daysInMonth_eq chrono _ hlocal.1 hlocal.2
  have hlast : monthTiling.last (dayAt (self.ms + chrono.offset tz self.ms)) < maxDay := by
    apply roomy_month
    exact hroom.mono (by decide)
  rw [if_pos hlast] at hdays
  change datetimeParts cal _ = _
  unfold datetimeParts instant
  rw [hpayload, ok_bind, hfield, ok_bind, hi, okOr_bind, hparts]
  dsimp only [componentsAt]
  rw [if_pos hpositive, ok_bind, hdays, ok_bind]
  rfl

theorem partI64_int (parts : Json) (key : String) (default value : Int)
    (hfield : field key parts = some (int value)) (hfits : fitsI64 value = true) :
    partI64 parts key default = .ok value := by
  rw [partI64, hfield]
  dsimp only
  rw [asI64_int value hfits]
  rfl

theorem partU32_int (parts : Json) (key : String) (default value : Nat)
    (hfield : field key parts = some (int value)) (hsmall : value < 2 ^ 32) :
    partU32 parts key default = .ok value := by
  have hfits : fitsI64 (value : Int) = true := by
    rw [fitsI64_iff]
    omega
  rw [partU32, hfield]
  dsimp only
  rw [asI64_int _ hfits, Option.bind_some, if_pos (by omega)]
  rfl

/-- The time of day in hours, minutes, seconds and milliseconds. -/
theorem timeAt_parts (loc : Int) :
    timeAt loc / 3600000 < 24 ∧ timeAt loc / 60000 % 60 < 60 ∧ timeAt loc / 1000 % 60 < 60 ∧
      timeAt loc % 1000 < 1000 ∧
      ((timeAt loc / 3600000 * 60 + timeAt loc / 60000 % 60) * 60 + timeAt loc / 1000 % 60) * 1000 +
        timeAt loc % 1000 = timeAt loc := by
  have hday : timeAt loc < 86400000 := by
    unfold timeAt dayMillis
    omega
  omega

theorem yearOf_small {loc : Int} (hloc : Representable loc) :
    -(2 ^ 31) ≤ yearOf (dayAt loc) ∧ yearOf (dayAt loc) < 2 ^ 31 := by
  obtain ⟨hlow, hhigh⟩ := hloc
  obtain ⟨hstart, hend⟩ := yearOf_spec (dayAt loc)
  rw [minDay_eq] at hlow
  rw [maxDay_eq] at hhigh
  unfold yearStart at hstart hend
  omega

/-- Parts that were read of a local time name this local time. -/
theorem datetimeFrom_bundle (chrono : Chrono cal) {loc : Int} (hloc : Representable loc)
    {payload : Json} {tz : cal.Zone} (hparts : field "parts" payload = some (bundleAt loc))
    (hzone : resolveZone cal payload = .ok tz) :
    ∃ naive, cal.utcMillis naive = loc ∧
      datetimeFrom cal payload = (fromLocal cal tz naive).map int := by
  have hdate := isDate_date (dayAt loc)
  have hyear := yearOf_small hloc
  have hfits : fitsI64 (yearOf (dayAt loc)) = true := by
    rw [fitsI64_iff]
    omega
  have hlength : Gregorian.daysInMonth (yearOf (dayAt loc)) (monthOf (dayAt loc)) ≤ 31 :=
    monthLength_le _ _
  have hmonth := hdate.month_le
  have hday := hdate.day_le
  obtain ⟨hhour, hminute, hsecond, hmilli, htime⟩ := timeAt_parts loc
  obtain ⟨date, hymd, hnumber⟩ := fromYmd_ok chrono _ _ _ hdate
    (by rw [dayNumber_date]; exact hloc.1) (by rw [dayNumber_date]; exact hloc.2)
  obtain ⟨naive, hnaive, hutc⟩ := chrono.atTime date _ _ _ _ hhour hminute hsecond hmilli
  refine ⟨naive, ?_, ?_⟩
  · rw [hutc, hnumber, dayNumber_date, htime]
    exact dayAt_timeAt loc
  · have hreadYear := partI64_int (bundleAt loc) "year" 0 (yearOf (dayAt loc)) rfl hfits
    have hreadMonth := partU32_int (bundleAt loc) "month" 1 (monthOf (dayAt loc)) rfl (by omega)
    have hreadDay := partU32_int (bundleAt loc) "day" 1 (dayOf (dayAt loc)) rfl (by omega)
    have hreadHour := partU32_int (bundleAt loc) "hour" 0 (timeAt loc / 3600000) rfl (by omega)
    have hreadMinute := partU32_int (bundleAt loc) "minute" 0 (timeAt loc / 60000 % 60) rfl
      (by omega)
    have hreadSecond := partU32_int (bundleAt loc) "second" 0 (timeAt loc / 1000 % 60) rfl
      (by omega)
    have hreadMilli := partU32_int (bundleAt loc) "millisecond" 0 (timeAt loc % 1000) rfl
      (by omega)
    unfold datetimeFrom
    rw [hparts, okOr_bind, hreadYear, ok_bind, if_pos hyear, hreadMonth, hreadDay, hreadHour,
      hreadMinute, hreadSecond, hreadMilli]
    simp only [ok_bind, hymd, Option.bind_some, hnaive, okOr_bind, hzone]
    cases fromLocal cal tz naive <;> rfl

/-- Parts read in the zone of a view and built again in this zone give the earliest instant
of the local time: the instant itself unless an earlier one shows the same time. -/
theorem fromParts_partsOf (chrono : Chrono cal) (civil : Civil chrono) (self : DateTime)
    (tz : cal.Zone) (hzone : zoneOf cal self.zone = some tz) (hyears : InYears self.ms) :
    ∃ parts t, partsOf cal self = .ok parts ∧ fromParts cal parts self.zone = .ok ⟨t, none⟩ ∧
      Earliest (chrono.offset tz) (self.ms + chrono.offset tz self.ms) t ∧
      (t = self.ms ↔ ∀ e, Representable e → e < self.ms →
        e + chrono.offset tz e ≠ self.ms + chrono.offset tz self.ms) := by
  have hms := hyears.room.representable (by decide)
  have hlocal := (local_room chrono hyears tz).representable (by decide)
  have hpayload : resolveZone cal (.obj
      (("parts", bundleAt (self.ms + chrono.offset tz self.ms)) :: zoneField self.zone)) =
      .ok tz := by
    apply resolveZone_ok _ hzone
    cases self.zone <;> rfl
  obtain ⟨naive, hutc, hfrom⟩ := datetimeFrom_bundle chrono hlocal rfl hpayload
  cases hfound : cal.fromLocal tz naive with
  | none =>
      exact absurd hutc.symm (chrono.fromLocal_none tz naive hfound self.ms hms)
  | some found =>
      obtain ⟨⟨hrange, hshown⟩, hleast⟩ := chrono.fromLocal_some tz naive found hfound
      rw [hutc] at hshown hleast
      refine ⟨_, cal.millis found, partsOf_ok civil hzone hyears, ?_, ⟨hrange, hshown, hleast⟩, ?_⟩
      · change (datetimeFrom cal _).map _ = _
        rw [hfrom, fromLocal, hfound, okOr_bind]
        change Except.ok (DateTime.mk (numberOf (int (cal.millis found))) none) = _
        rw [numberOf_int _ hrange.fits]
      · constructor
        · intro heq e he hbefore hshown'
          exact absurd (hleast e he hshown') (by omega)
        · intro hnone
          have hle := hleast self.ms hms rfl
          rcases Int.lt_or_eq_of_le hle with hlt | heq
          · exact absurd hshown (hnone _ hrange hlt)
          · exact heq

/-- In the half hour before midnight that comes twice, the first one is found. -/
theorem fromParts_partsOf_night :
    ∃ parts t, partsOf (gregorian saoPauloZones) ⟨1518921000000, some "America/Sao_Paulo"⟩ =
        .ok parts ∧
      fromParts (gregorian saoPauloZones) parts (some "America/Sao_Paulo") = .ok ⟨t, none⟩ ∧
      Earliest saoPaulo.offset (1518921000000 + saoPaulo.offset 1518921000000) t ∧
      (t = 1518921000000 ↔ ∀ e, Representable e → e < 1518921000000 →
        e + saoPaulo.offset e ≠ 1518921000000 + saoPaulo.offset 1518921000000) :=
  fromParts_partsOf (gregorianChrono saoPauloZones) (gregorianCivil saoPauloZones)
    ⟨1518921000000, some "America/Sao_Paulo"⟩ saoPaulo rfl (by decide)

/-! ### Months -/

theorem fieldI64_eq (fields : List (String × Json)) (key : String) (value : Int)
    (hlookup : fields.lookup key = some (int value)) :
    fieldI64 (.obj fields) key =
      if fitsI64 value then .ok value else .error ("missing integer field '" ++ key ++ "'") := by
  unfold fieldI64 field
  dsimp only
  rw [hlookup, Option.bind_some, asI64_int_eq]
  cases fitsI64 value <;> rfl

theorem shifted_ok (civil : Civil chrono) (i : cal.Instant) (months : Int) :
    ((if months < 0 then cal.subMonths i months.natAbs else cal.addMonths i months.natAbs).map
      cal.millis) =
      if Representable (shiftMonths (cal.millis i) months) then
        some (shiftMonths (cal.millis i) months)
      else none := by
  split
  · have hmonths : -(months.natAbs : Int) = months := by omega
    rw [civil.subMonths, hmonths]
  · have hmonths : (months.natAbs : Int) = months := by omega
    rw [civil.addMonths, hmonths]

theorem okOr_eq_ok_iff {α : Type} (error : String) (found : Option α) (value : α) :
    okOr error found = .ok value ↔ found = some value := by
  cases found with
  | none => exact ⟨nofun, nofun⟩
  | some found =>
      constructor
      · intro h
        exact congrArg some (Except.ok.inj h)
      · intro h
        exact congrArg Except.ok (Option.some.inj h)

theorem ite_eq_ok_iff {α : Type} (p : Prop) [Decidable p] (found value : α) (error : String) :
    (if p then Except.ok found else .error error) = .ok value ↔ p ∧ found = value := by
  split <;> simp [*]

theorem datetimeAdd_ok_iff (civil : Civil chrono) (ms months fixed : Int) (value : Json) :
    datetimeAdd cal (addPayload ms months fixed) = .ok value ↔
      (Representable ms ∧ months.natAbs < 2 ^ 32 ∧ Representable (shiftMonths ms months) ∧
        fitsI64 months = true ∧ fitsI64 fixed = true ∧
        Representable (shiftMonths ms months + fixed)) ∧
      value = int (shiftMonths ms months + fixed) := by
  have hms := fieldI64_eq [("ms", int ms), ("months", int months), ("fixed_ms", int fixed)] "ms"
    ms rfl
  have hmonths := fieldI64_eq [("ms", int ms), ("months", int months), ("fixed_ms", int fixed)]
    "months" months rfl
  have hfixed := fieldI64_eq [("ms", int ms), ("months", int months), ("fixed_ms", int fixed)]
    "fixed_ms" fixed rfl
  unfold datetimeAdd addPayload instant
  rw [hms, hmonths, hfixed]
  simp only [bind_eq_ok_iff, ite_eq_ok_iff, okOr_eq_ok_iff]
  constructor
  · rintro ⟨_, ⟨-, rfl⟩, i, hi, _, ⟨hfitsMonths, rfl⟩, _, ⟨hfitsFixed, rfl⟩, hrun⟩
    obtain rfl := chrono.millis_fromMillis ms i hi
    have hstart := (chrono.fromMillis_isSome _).mp (Option.isSome_iff_exists.mpr ⟨i, hi⟩)
    split at hrun
    · rename_i hcount
      simp only [ok_bind, bind_eq_ok_iff, okOr_eq_ok_iff] at hrun
      obtain ⟨j, hj, hout⟩ := hrun
      have hshifted := shifted_ok civil i months
      rw [hj, Option.map_some] at hshifted
      split at hshifted
      · rename_i hrange
        rw [Option.some.inj hshifted] at hout
        split at hout
        · obtain ⟨k, hk, hvalue⟩ := (bind_eq_ok_iff _ _ _).mp hout
          have hrepresentable := (chrono.fromMillis_isSome _).mp
            (Option.isSome_iff_exists.mpr ⟨k, (okOr_eq_ok_iff _ _ _).mp hk⟩)
          exact ⟨⟨hstart, hcount, hrange, hfitsMonths, hfitsFixed, hrepresentable⟩,
            (Except.ok.inj hvalue).symm⟩
        · cases hout
      · cases hshifted
    · cases hrun
  · rintro ⟨⟨hstart, hcount, hrange, hfitsMonths, hfitsFixed, hout⟩, rfl⟩
    obtain ⟨i, hi⟩ := Option.isSome_iff_exists.mp ((chrono.fromMillis_isSome ms).mpr hstart)
    obtain ⟨k, hk⟩ := Option.isSome_iff_exists.mp ((chrono.fromMillis_isSome _).mpr hout)
    have hmillis := chrono.millis_fromMillis ms i hi
    have hshifted := shifted_ok civil i months
    rw [hmillis, if_pos hrange] at hshifted
    obtain ⟨j, hj, hjms⟩ := Option.map_eq_some_iff.mp hshifted
    refine ⟨ms, ⟨hstart.fits, rfl⟩, i, hi, months, ⟨hfitsMonths, rfl⟩, fixed, ⟨hfitsFixed, rfl⟩, ?_⟩
    rw [if_pos hcount, ok_bind, hj, okOr_bind, hjms, if_pos hout.fits, hk]
    rfl

/-- What `add` needs of a span, and what it makes of it. -/
structure Added (base : DateTime) (delta : Delta) (out : DateTime) : Prop where
  start : Representable base.ms
  months : (monthsOf delta).natAbs < 2 ^ 32
  shifted : Representable (shiftMonths base.ms (monthsOf delta))
  fixed : fitsI64 (fixedMs delta) = true
  representable : Representable out.ms
  ms : out.ms = shiftMonths base.ms (monthsOf delta) + fixedMs delta
  zone : out.zone = base.zone

theorem fits_of_small {months : Int} (h : months.natAbs < 2 ^ 32) : fitsI64 months = true := by
  rw [fitsI64_iff]
  omega

/-- Months first, each step on the calendar, and the view as before. -/
theorem add_eq_ok_iff (civil : Civil chrono) (self : DateTime) (delta : Delta) (out : DateTime) :
    self.add cal delta = .ok out ↔ Added self delta out := by
  have hrun := datetimeAdd_ok_iff civil self.ms (monthsOf delta) (fixedMs delta)
  change (datetimeAdd cal (addPayload _ _ _)).map _ = _ ↔ _
  constructor
  · intro h
    cases hadd : datetimeAdd cal (addPayload self.ms (monthsOf delta) (fixedMs delta)) with
    | error message =>
        rw [hadd] at h
        cases h
    | ok value =>
        rw [hadd] at h
        obtain ⟨⟨hstart, hcount, hrange, _, hfixed, hout⟩, rfl⟩ := (hrun value).mp hadd
        have hms := numberOf_int _ hout.fits
        obtain rfl := Except.ok.inj h
        have hout' : Representable
            (numberOf (int (shiftMonths self.ms (monthsOf delta) + fixedMs delta))) := by
          rwa [hms]
        exact ⟨hstart, hcount, hrange, hfixed, hout', hms, rfl⟩
  · intro h
    have hout := h.representable
    rw [h.ms] at hout
    rw [(hrun _).mpr ⟨⟨h.start, h.months, h.shifted, fits_of_small h.months, h.fixed, hout⟩, rfl⟩]
    change Except.ok (DateTime.mk _ _) = _
    rw [numberOf_int _ hout.fits, ← h.ms, ← h.zone]

/-! ### Months after months -/

/-- The length of the month so many months from an instant. -/
def lengthAt (ms months : Int) : Nat :=
  let index := monthTiling.index (dayAt ms) + months
  Gregorian.daysInMonth (index / 12) ((index % 12).toNat + 1)

theorem lengthAt_index (ms months : Int) :
    ∃ y m, 1 ≤ m ∧ m ≤ 12 ∧ monthTiling.index (dayAt ms) + months = 12 * y + ((m - 1 : Nat) : Int) ∧
      lengthAt ms months = Gregorian.daysInMonth y m ∧
      shiftMonths ms months =
        dayNumber y m (min (dayOf (dayAt ms)) (lengthAt ms months)) * dayMillis + timeAt ms :=
  ⟨(monthTiling.index (dayAt ms) + months) / 12,
    ((monthTiling.index (dayAt ms) + months) % 12).toNat + 1, by omega, by omega, by omega, rfl, rfl⟩

theorem timeAt_lt (ms : Int) : (timeAt ms : Int) < dayMillis := by
  unfold timeAt dayMillis
  omega

theorem dayAt_add (n : Int) (time : Nat) (htime : (time : Int) < dayMillis) :
    dayAt (n * dayMillis + time) = n ∧ timeAt (n * dayMillis + time) = time := by
  unfold dayAt timeAt dayMillis at *
  omega

/-- Months move the month; the day is cut to the length of the new one and the time stays. -/
theorem shiftMonths_parts (ms months : Int) :
    monthTiling.index (dayAt (shiftMonths ms months)) =
        monthTiling.index (dayAt ms) + months ∧
      dayOf (dayAt (shiftMonths ms months)) = min (dayOf (dayAt ms)) (lengthAt ms months) ∧
      timeAt (shiftMonths ms months) = timeAt ms := by
  obtain ⟨y, m, hpos, hle, hindex, hlength, hshift⟩ := lengthAt_index ms months
  have hstart := (isDate_date (dayAt ms)).day_pos
  have hlengthPos : 1 ≤ lengthAt ms months := by
    rw [hlength]
    exact monthLength_pos _ _
  have hdate : IsDate y m (min (dayOf (dayAt ms)) (lengthAt ms months)) := by
    refine ⟨hpos, hle, by omega, ?_⟩
    rw [← hlength]
    exact Nat.min_le_right _ _
  obtain ⟨hday, htime⟩ := dayAt_add (dayNumber y m (min (dayOf (dayAt ms)) (lengthAt ms months)))
    (timeAt ms) (timeAt_lt ms)
  rw [hshift, hday, htime]
  refine ⟨?_, (date_dayNumber _ _ _ hdate).2.2, rfl⟩
  rw [monthTiling_date _ _ _ hdate, hindex]

/-- An instant is known by its month, its day and its time. -/
theorem eq_of_parts {a b : Int} (hindex : monthTiling.index (dayAt a) = monthTiling.index (dayAt b))
    (hday : dayOf (dayAt a) = dayOf (dayAt b)) (htime : timeAt a = timeAt b) : a = b := by
  have ha := monthOf_range (dayAt a)
  have hb := monthOf_range (dayAt b)
  rw [monthTiling_index, monthTiling_index] at hindex
  have hyear : yearOf (dayAt a) = yearOf (dayAt b) := by omega
  have hmonth : monthOf (dayAt a) = monthOf (dayAt b) := by omega
  have hnumber : dayAt a = dayAt b := by
    rw [← dayNumber_date (dayAt a), ← dayNumber_date (dayAt b), hyear, hmonth, hday]
  rw [← dayAt_timeAt a, ← dayAt_timeAt b, hnumber, htime]

theorem lengthAt_shift (ms j k : Int) : lengthAt (shiftMonths ms j) k = lengthAt ms (j + k) := by
  unfold lengthAt
  rw [(shiftMonths_parts ms j).1, add_assoc]

/-- Two shifts are one exactly when the first cut takes no more of the day than the whole
shift does. -/
theorem shiftMonths_shiftMonths_iff (ms j k : Int) :
    shiftMonths (shiftMonths ms j) k = shiftMonths ms (j + k) ↔
      min (dayOf (dayAt ms)) (lengthAt ms (j + k)) ≤ lengthAt ms j := by
  obtain ⟨hindex, hday, htime⟩ := shiftMonths_parts ms j
  obtain ⟨hindex', hday', htime'⟩ := shiftMonths_parts (shiftMonths ms j) k
  obtain ⟨hindex'', hday'', htime''⟩ := shiftMonths_parts ms (j + k)
  rw [lengthAt_shift, hday] at hday'
  constructor
  · intro h
    rw [h, hday''] at hday'
    omega
  · intro h
    apply eq_of_parts
    · rw [hindex', hindex, hindex'', add_assoc]
    · rw [hday', hday'']
      omega
    · rw [htime', htime, htime'']

theorem lengthAt_zero (ms : Int) : dayOf (dayAt ms) ≤ lengthAt ms 0 := by
  have hday := (shiftMonths_parts ms 0).2.1
  rw [shiftMonths_zero] at hday
  omega

theorem monthsOf_monthsDelta (months : Int) : monthsOf (monthsDelta months) = months := by
  change 0 * 12 + months = months
  omega

theorem fixedMs_monthsDelta (months : Int) : fixedMs (monthsDelta months) = 0 := rfl

/-- The months between two instants of the calendar are few. -/
theorem months_between {a b months : Int} (ha : Representable a) (hb : Representable b)
    (hmonths : monthTiling.index (dayAt b) = monthTiling.index (dayAt a) + months) :
    months.natAbs < 2 ^ 32 := by
  have hfirst : monthTiling.index minDay = -3145716 := by decide
  have hlast : monthTiling.index maxDay = 3145715 := by decide
  have halow := monthTiling.index_le_index ha.1
  have hahigh := monthTiling.index_le_index ha.2
  have hblow := monthTiling.index_le_index hb.1
  have hbhigh := monthTiling.index_le_index hb.2
  omega

/-- Months added one after the other: the month and the time are those of the sum, the day
is cut by both months, the sum added at once gives the same exactly when the month in
between cut nothing more, and the first step can be taken back exactly when it cut nothing. -/
structure MonthsLaw (cal : Calendar) (base mid last : DateTime) (j k : Int) : Prop where
  month : monthTiling.index (dayAt last.ms) = monthTiling.index (dayAt base.ms) + (j + k)
  day : dayOf (dayAt last.ms) =
    min (min (dayOf (dayAt base.ms)) (lengthAt base.ms j)) (lengthAt base.ms (j + k))
  time : timeAt last.ms = timeAt base.ms
  atOnce : base.add cal (monthsDelta (j + k)) = .ok last ↔
    min (dayOf (dayAt base.ms)) (lengthAt base.ms (j + k)) ≤ lengthAt base.ms j
  undone : mid.sub cal (monthsDelta j) = .ok base ↔
    dayOf (dayAt base.ms) ≤ lengthAt base.ms j

theorem added_months_iff (base out : DateTime) (months : Int) :
    Added base (monthsDelta months) out ↔
      (Representable base.ms ∧ months.natAbs < 2 ^ 32 ∧ Representable out.ms) ∧
        out.ms = shiftMonths base.ms months ∧ out.zone = base.zone := by
  constructor
  · rintro ⟨hstart, hcount, _, _, hout, hms, hzone⟩
    rw [monthsOf_monthsDelta] at hcount hms
    rw [fixedMs_monthsDelta, add_zero] at hms
    exact ⟨⟨hstart, hcount, hout⟩, hms, hzone⟩
  · rintro ⟨⟨hstart, hcount, hout⟩, hms, hzone⟩
    have hmonths := monthsOf_monthsDelta months
    refine ⟨hstart, by rwa [hmonths], ?_, rfl, hout, ?_, hzone⟩
    · rwa [hmonths, ← hms]
    · rw [hmonths, fixedMs_monthsDelta, add_zero, hms]

theorem sub_monthsDelta (cal : Calendar) (value : DateTime) (months : Int) :
    value.sub cal (monthsDelta months) = value.add cal (monthsDelta (-months)) := by
  have hmonths : -monthsOf (monthsDelta months) = monthsOf (monthsDelta (-months)) := by
    rw [monthsOf_monthsDelta, monthsOf_monthsDelta]
  rw [DateTime.sub, hmonths]
  rfl

theorem add_add_months (civil : Civil chrono) (base mid last : DateTime) (j k : Int)
    (hj : base.add cal (monthsDelta j) = .ok mid) (hk : mid.add cal (monthsDelta k) = .ok last) :
    MonthsLaw cal base mid last j k := by
  obtain ⟨⟨hbase, hcount, hmid⟩, hmidMs, hmidZone⟩ :=
    (added_months_iff _ _ _).mp ((add_eq_ok_iff civil _ _ _).mp hj)
  obtain ⟨⟨_, _, hlast⟩, hlastMs, hlastZone⟩ :=
    (added_months_iff _ _ _).mp ((add_eq_ok_iff civil _ _ _).mp hk)
  rw [hmidMs] at hlastMs
  obtain ⟨hindex, hday, htime⟩ := shiftMonths_parts base.ms j
  obtain ⟨hindex', hday', htime'⟩ := shiftMonths_parts (shiftMonths base.ms j) k
  rw [lengthAt_shift, hday] at hday'
  refine ⟨?_, ?_, ?_, ?_, ?_⟩
  · rw [hlastMs, hindex', hindex, add_assoc]
  · rw [hlastMs, hday']
  · rw [hlastMs, htime', htime]
  · rw [add_eq_ok_iff civil, added_months_iff, ← shiftMonths_shiftMonths_iff, hlastMs]
    rw [hlastMs] at hlast
    have hsum : (j + k).natAbs < 2 ^ 32 := by
      apply months_between hbase hlast
      rw [hindex', hindex, add_assoc]
    exact ⟨fun h => h.2.1, fun h => ⟨⟨hbase, hsum, hlast⟩, h, hlastZone.trans hmidZone⟩⟩
  · have hback := shiftMonths_shiftMonths_iff base.ms j (-j)
    have hzero := lengthAt_zero base.ms
    have hnegative : (-j).natAbs < 2 ^ 32 := by omega
    rw [add_neg_cancel, shiftMonths_zero, Nat.min_eq_left hzero] at hback
    rw [sub_monthsDelta, add_eq_ok_iff civil, added_months_iff, hmidMs, ← hback]
    rw [hmidMs] at hmid
    exact ⟨fun h => h.2.1.symm, fun h => ⟨⟨hmid, hnegative, hbase⟩, h.symm, hmidZone.symm⟩⟩

/-- 31 January, by a month and by another one: 28 February on the way. -/
theorem add_add_months_january :
    MonthsLaw (gregorian fun _ => none) ⟨1738281600000, none⟩ ⟨1740700800000, none⟩
      ⟨1743120000000, none⟩ 1 1 := by
  have hcivil := gregorianCivil fun _ => none
  apply add_add_months hcivil
  · apply (add_eq_ok_iff hcivil _ _ _).mpr
    apply (added_months_iff _ _ _).mpr
    decide
  · apply (add_eq_ok_iff hcivil _ _ _).mpr
    apply (added_months_iff _ _ _).mpr
    decide

/-! ### Differences -/

/-- The whole seconds between two instants, without a sign. -/
def wholeSeconds (a b : Int) : Nat := ((a - b).tdiv 1000).natAbs

/-- What `diff` answers with is a span of whole seconds without a sign: added to the earlier
value it finds the later one again, up to the milliseconds. -/
structure DiffLaw (cal : Calendar) (a b : DateTime) (span : Json) : Prop where
  diff : a.diff cal b = .ok span
  added : ∀ out, b.add cal (deltaOf span) = .ok out ↔
    Representable (b.ms + 1000 * wholeSeconds a.ms b.ms) ∧
      out = ⟨b.ms + 1000 * wholeSeconds a.ms b.ms, b.zone⟩
  again : b.add cal (deltaOf span) = .ok ⟨a.ms, b.zone⟩ ↔ b.ms ≤ a.ms ∧ 1000 ∣ a.ms - b.ms

/-- The span of a difference, as the bridge writes it. -/
def spanOf (totalMs : Int) : Json :=
  let seconds := (totalMs.tdiv 1000).natAbs
  .obj
    [("total_ms", int totalMs), ("total_seconds", int (totalMs.tdiv 1000)),
      ("days", int (seconds / 86400 : Nat)), ("hours", int (seconds % 86400 / 3600 : Nat)),
      ("minutes", int (seconds % 86400 % 3600 / 60 : Nat)),
      ("seconds", int (seconds % 86400 % 3600 % 60 : Nat))]

theorem Representable.bounds {ms : Int} (h : Representable ms) : -(2 ^ 53) < ms ∧ ms < 2 ^ 53 := by
  obtain ⟨hlow, hhigh⟩ := (dayAt_iff ms _ _).mp h
  rw [minDay_eq] at hlow
  rw [maxDay_eq] at hhigh
  unfold dayMillis at hlow hhigh
  omega

theorem wholeSeconds_eq (a b : Int) : wholeSeconds a b = (a - b).natAbs / 1000 :=
  Int.natAbs_tdiv (a - b) 1000

theorem diff_span (cal : Calendar) (a b : DateTime) (ha : Representable a.ms)
    (hb : Representable b.ms) : a.diff cal b = .ok (spanOf (a.ms - b.ms)) := by
  have hfieldA := fieldI64_int [("a", int a.ms), ("b", int b.ms)] "a" a.ms rfl ha.fits
  have hfieldB := fieldI64_int [("a", int a.ms), ("b", int b.ms)] "b" b.ms rfl hb.fits
  have hboundsA := ha.bounds
  have hboundsB := hb.bounds
  have hfits : fitsI64 (a.ms - b.ms) = true := by
    rw [fitsI64_iff]
    omega
  change datetimeDiff _ = _
  unfold datetimeDiff
  rw [hfieldA, ok_bind, hfieldB, ok_bind, if_pos hfits]
  rfl

theorem deltaOf_span (a b : Int) (ha : Representable a) (hb : Representable b) :
    monthsOf (deltaOf (spanOf (a - b))) = 0 ∧
      fixedMs (deltaOf (spanOf (a - b))) = 1000 * wholeSeconds a b := by
  have hboundsA := ha.bounds
  have hboundsB := hb.bounds
  have hsmall : wholeSeconds a b < 2 ^ 63 := by
    rw [wholeSeconds_eq]
    omega
  obtain ⟨hwhole, hhours, hminutes, hseconds⟩ := splitDuration_spec (wholeSeconds a b) _ _ _ _ rfl
  have hread : ∀ n : Nat, n ≤ wholeSeconds a b → numberOf (int n) = n := by
    intro n hn
    apply numberOf_int
    rw [fitsI64_iff]
    omega
  refine ⟨rfl, ?_⟩
  change ((((0 * 7 + numberOf (int (wholeSeconds a b / 86400 : Nat))) * 24 +
    numberOf (int (wholeSeconds a b % 86400 / 3600 : Nat))) * 60 +
    numberOf (int (wholeSeconds a b % 86400 % 3600 / 60 : Nat))) * 60 +
    numberOf (int (wholeSeconds a b % 86400 % 3600 % 60 : Nat))) * 1000 + 0 = _
  rw [hread _ (by omega), hread _ (by omega), hread _ (by omega), hread _ (by omega)]
  omega

theorem diff_law (civil : Civil chrono) (a b : DateTime) (ha : Representable a.ms)
    (hb : Representable b.ms) : DiffLaw cal a b (spanOf (a.ms - b.ms)) := by
  obtain ⟨hmonths, hfixed⟩ := deltaOf_span a.ms b.ms ha hb
  have hboundsA := ha.bounds
  have hboundsB := hb.bounds
  have hwhole := wholeSeconds_eq a.ms b.ms
  have hadded : ∀ out, b.add cal (deltaOf (spanOf (a.ms - b.ms))) = .ok out ↔
      Representable (b.ms + 1000 * wholeSeconds a.ms b.ms) ∧
        out = ⟨b.ms + 1000 * wholeSeconds a.ms b.ms, b.zone⟩ := by
    intro out
    rw [add_eq_ok_iff civil]
    constructor
    · rintro ⟨_, _, _, _, hout, hms, hzone⟩
      rw [hmonths, hfixed, shiftMonths_zero] at hms
      refine ⟨by rwa [← hms], ?_⟩
      rw [← hms, ← hzone]
    · rintro ⟨hout, rfl⟩
      refine ⟨hb, by rw [hmonths]; decide, by rwa [hmonths, shiftMonths_zero], ?_, hout, ?_, rfl⟩
      · rw [hfixed, fitsI64_iff]
        omega
      · rw [hmonths, hfixed, shiftMonths_zero]
  refine ⟨diff_span cal a b ha hb, hadded, ?_⟩
  rw [hadded]
  constructor
  · rintro ⟨_, heq⟩
    have hms := congrArg DateTime.ms heq
    dsimp only at hms
    omega
  · rintro ⟨hle, hdvd⟩
    have heq : b.ms + 1000 * wholeSeconds a.ms b.ms = a.ms := by omega
    rw [heq]
    exact ⟨ha, rfl⟩

/-- Noon and the midnight before it. -/
theorem diff_law_noon :
    DiffLaw (gregorian fun _ => none) ⟨43200000, none⟩ ⟨0, none⟩ (spanOf (43200000 - 0)) :=
  diff_law (gregorianCivil fun _ => none) ⟨43200000, none⟩ ⟨0, none⟩ (by decide) (by decide)

end Runlet.Datetime
