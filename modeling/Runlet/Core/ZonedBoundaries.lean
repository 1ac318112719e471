import Runlet.Core.Boundaries

/-!
`start_of` and `end_of` in any zone. They enclose the instant exactly when the
clock of the zone shows the ends of the local period on the right sides of it:
where midnight is skipped there is nothing to return, and where the last
millisecond is shown twice the earlier one may lie before the instant.
-/

namespace Runlet.Datetime

open Gregorian Rfc3339

variable {cal : Calendar}

/-- What is expected of the boundaries: they exist and enclose the instant. -/
def BoundaryLaw (cal : Calendar) (self : DateTime) (unit : Period) : Prop :=
  ∃ first last, self.startOf cal unit.name = .ok first ∧ self.endOf cal unit.name = .ok last ∧
    first.ms ≤ self.ms ∧ self.ms ≤ last.ms

/-- One of the two operations. -/
def DateTime.boundary (cal : Calendar) (self : DateTime) (unit : Period) (atEnd : Bool) :
    Except String DateTime :=
  if atEnd then self.endOf cal unit.name else self.startOf cal unit.name

theorem boundary_eq (self : DateTime) (unit : Period) (atEnd : Bool) :
    self.boundary cal unit atEnd =
      (datetimeBoundary cal (payloadFor self [("unit", .str unit.name)]) atEnd).map fun value =>
        ⟨numberOf value, self.zone⟩ := by
  cases atEnd <;> rfl

section Zone

variable (chrono : Chrono cal) (self : DateTime) (tz : cal.Zone) (unit : Period)

/-- The operation returns the earliest instant of the local boundary, if there is one. -/
theorem boundary_cases (hzone : zoneOf cal self.zone = some tz) (hroom : Room 740 (dayAt self.ms))
    (atEnd : Bool) :
    (∃ t, self.boundary cal unit atEnd = .ok ⟨t, self.zone⟩ ∧
      Earliest (chrono.offset tz)
        (unit.localBoundary atEnd (self.ms + chrono.offset tz self.ms)) t) ∨
    (∃ error, self.boundary cal unit atEnd = .error error) ∧
      ∀ t, Representable t → t + chrono.offset tz t ≠
        unit.localBoundary atEnd (self.ms + chrono.offset tz self.ms) := by
  rw [boundary_eq]
  rcases datetimeBoundary_cases chrono self tz hzone hroom unit atEnd with
    ⟨t, hok, hearliest⟩ | ⟨⟨error, herror⟩, hnone⟩
  · refine .inl ⟨t, ?_, hearliest⟩
    rw [hok, Except.map, numberOf_int t hearliest.representable.fits]
  · refine .inr ⟨⟨error, ?_⟩, hnone⟩
    rw [herror]
    rfl

/-- An instant that shows a boundary has a date. -/
theorem shown_representable (hroom : Room 740 (dayAt self.ms)) (atEnd : Bool) (t : Int)
    (hshown : t + chrono.offset tz t =
      unit.localBoundary atEnd (self.ms + chrono.offset tz self.ms)) : Representable t := by
  obtain ⟨hlow, hhigh⟩ := hroom
  obtain ⟨hoffset, hoffset'⟩ := chrono.offset_bounded tz self.ms
  obtain ⟨hshift, hshift'⟩ := chrono.offset_bounded tz t
  obtain ⟨hnear, hnear'⟩ := boundary_near unit atEnd (dayAt (self.ms + chrono.offset tz self.ms))
  rw [localBoundary_eq] at hshown
  apply (dayAt_iff t _ _).mpr
  unfold dayAt dayMillis at *
  cases atEnd <;> simp only [if_true, if_false, Bool.false_eq_true] at hshown <;> omega

theorem startOf_iff (hzone : zoneOf cal self.zone = some tz) (hyears : InYears self.ms) :
    (∃ first, self.startOf cal unit.name = .ok first ∧ first.ms ≤ self.ms) ↔
      ∃ s, s ≤ self.ms ∧ s + chrono.offset tz s =
        unit.localBoundary false (self.ms + chrono.offset tz self.ms) := by
  have hroom := hyears.room.mono (by decide : (740 : Int) ≤ 1200)
  have hstart : self.startOf cal unit.name = self.boundary cal unit false := rfl
  rw [hstart]
  rcases boundary_cases chrono self tz unit hzone hroom false with
    ⟨t, hok, hearliest⟩ | ⟨⟨error, herror⟩, hnone⟩
  · rw [hok]
    constructor
    · rintro ⟨_, ⟨⟩, hle⟩
      exact ⟨t, hle, hearliest.shown⟩
    · rintro ⟨s, hle, hshown⟩
      have hs := shown_representable chrono self tz unit hroom false s hshown
      exact ⟨_, rfl, Int.le_trans (hearliest.least s hs hshown) hle⟩
  · rw [herror]
    constructor
    · rintro ⟨_, ⟨⟩, -⟩
    · rintro ⟨s, -, hshown⟩
      exact absurd hshown (hnone s (shown_representable chrono self tz unit hroom false s hshown))

theorem endOf_iff (hzone : zoneOf cal self.zone = some tz) (hyears : InYears self.ms) :
    (∃ last, self.endOf cal unit.name = .ok last ∧ self.ms ≤ last.ms) ↔
      (∃ e, self.ms ≤ e ∧ e + chrono.offset tz e =
        unit.localBoundary true (self.ms + chrono.offset tz self.ms)) ∧
      ∀ e, e < self.ms → e + chrono.offset tz e ≠
        unit.localBoundary true (self.ms + chrono.offset tz self.ms) := by
  have hroom := hyears.room.mono (by decide : (740 : Int) ≤ 1200)
  have hend : self.endOf cal unit.name = self.boundary cal unit true := rfl
  rw [hend]
  rcases boundary_cases chrono self tz unit hzone hroom true with
    ⟨t, hok, hearliest⟩ | ⟨⟨error, herror⟩, hnone⟩
  · rw [hok]
    constructor
    · rintro ⟨_, ⟨⟩, hle⟩
      refine ⟨⟨t, hle, hearliest.shown⟩, ?_⟩
      intro e hbefore hshown
      have he := shown_representable chrono self tz unit hroom true e hshown
      have hleast := hearliest.least e he hshown
      dsimp only at hle
      omega
    · rintro ⟨-, hnever⟩
      refine ⟨_, rfl, ?_⟩
      by_contra hbefore
      exact hnever t (Int.lt_of_not_ge hbefore) hearliest.shown
  · rw [herror]
    constructor
    · rintro ⟨_, ⟨⟩, -⟩
    · rintro ⟨⟨e, -, hshown⟩, -⟩
      exact absurd hshown (hnone e (shown_representable chrono self tz unit hroom true e hshown))

/-- The boundaries enclose the instant exactly when the zone shows the first local
millisecond of the period by then, and the last one from then on but not before. -/
theorem boundaryLaw_iff (hzone : zoneOf cal self.zone = some tz)
    (hyears : InYears self.ms) :
    BoundaryLaw cal self unit ↔
      (∃ s, s ≤ self.ms ∧ s + chrono.offset tz s =
        unit.localBoundary false (self.ms + chrono.offset tz self.ms)) ∧
      (∃ e, self.ms ≤ e ∧ e + chrono.offset tz e =
        unit.localBoundary true (self.ms + chrono.offset tz self.ms)) ∧
      ∀ e, e < self.ms → e + chrono.offset tz e ≠
        unit.localBoundary true (self.ms + chrono.offset tz self.ms) := by
  rw [← startOf_iff chrono self tz unit hzone hyears, ← endOf_iff chrono self tz unit hzone hyears]
  constructor
  · rintro ⟨first, last, hstart, hend, hle, hle'⟩
    exact ⟨⟨first, hstart, hle⟩, last, hend, hle'⟩
  · rintro ⟨⟨first, hstart, hle⟩, last, hend, hle'⟩
    exact ⟨first, last, hstart, hend, hle, hle'⟩

end Zone

/-! ### Two nights in one zone -/

theorem saoPaulo_bounded : ∀ offset ∈
    (-7200000 : Int) :: [((1518919200000 : Int), (-10800000 : Int)),
      (1541300400000, -7200000)].map Prod.snd,
    -dayMillis < offset ∧ offset < dayMillis := by
  decide

/-- The changes of 2018: back at midnight on 18 February, forward at midnight on
4 November. -/
def saoPaulo : ZoneRules where
  initial := -7200000
  changes := [(1518919200000, -10800000), (1541300400000, -7200000)]
  bounded := saoPaulo_bounded

def saoPauloZones (name : String) : Option ZoneRules :=
  if name = "America/Sao_Paulo" then some saoPaulo else none

theorem saoPaulo_offset (t : Int) : saoPaulo.offset t =
    if 1541300400000 ≤ t then -7200000 else if 1518919200000 ≤ t then -10800000 else -7200000 := rfl

/-- A quiet day of the zone: 15 July 2018, 12:00. -/
theorem boundaryLaw_quiet :
    BoundaryLaw (gregorian saoPauloZones) ⟨1531666800000, some "America/Sao_Paulo"⟩ .day := by
  apply (boundaryLaw_iff (gregorianChrono saoPauloZones)
    ⟨1531666800000, some "America/Sao_Paulo"⟩ saoPaulo .day rfl (by decide)).mpr
  refine ⟨⟨1531623600000, by decide, by decide⟩, ⟨1531709999999, by decide, by decide⟩, ?_⟩
  intro e hbefore hshown
  change e + saoPaulo.offset e = 1531699199999 at hshown
  rw [saoPaulo_offset] at hshown
  dsimp only at hbefore
  split at hshown
  · omega
  · split at hshown <;> omega

/-- On 4 November 2018 there is no midnight to return, and in the second half
hour before midnight on 17 February the end of the day is the first one. -/
theorem boundaryLaw_nights :
    (InYears 1541332800000 ∧
      ¬BoundaryLaw (gregorian saoPauloZones) ⟨1541332800000, some "America/Sao_Paulo"⟩ .day) ∧
    (InYears 1518921000000 ∧
      ¬BoundaryLaw (gregorian saoPauloZones) ⟨1518921000000, some "America/Sao_Paulo"⟩ .day) := by
  refine ⟨⟨by decide, ?_⟩, ⟨by decide, ?_⟩⟩
  · rintro ⟨first, last, hstart, -, hle, -⟩
    obtain ⟨s, -, hshown⟩ := (startOf_iff (gregorianChrono saoPauloZones)
      ⟨1541332800000, some "America/Sao_Paulo"⟩ saoPaulo .day rfl (by decide)).mp
        ⟨first, hstart, hle⟩
    change s + saoPaulo.offset s = 1541289600000 at hshown
    rw [saoPaulo_offset] at hshown
    split at hshown
    · omega
    · split at hshown <;> omega
  · rintro ⟨first, last, -, hend, -, hle⟩
    obtain ⟨-, hnever⟩ := (endOf_iff (gregorianChrono saoPauloZones)
      ⟨1518921000000, some "America/Sao_Paulo"⟩ saoPaulo .day rfl (by decide)).mp
        ⟨last, hend, hle⟩
    exact hnever 1518919199999 (by decide) (by decide)

end Runlet.Datetime
