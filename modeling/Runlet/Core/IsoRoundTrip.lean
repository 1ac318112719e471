import Runlet.Core.Boundaries

/-!
The text of a `datetime`: `toJSON`, `toString` and the identity key all write the
instant as RFC 3339 in UTC. The text tells every two instants apart; `parse`
takes it back when its year is written with four digits and no sign.
-/

namespace Runlet.Datetime

open Gregorian Rfc3339 Errors Classify Text NumberText

section Texts

variable (cal : Calendar)

/-- The instant on the wire, without the zone of the view. -/
def DateTime.toJSON (self : DateTime) : Except String Json :=
  datetimeDispatch cal "iso" (.obj [("ms", int self.ms)])

def DateTime.toString (self : DateTime) : Except String Json :=
  datetimeDispatch cal "iso" (.obj [("ms", int self.ms)])

def DateTime.idKey (self : DateTime) : Except String Json :=
  datetimeDispatch cal "iso" (.obj [("ms", int self.ms)])

/-- `parse` of anything that is not a `datetime` itself. -/
def parse (input : Json) : Except String DateTime :=
  (datetimeDispatch cal "parse" (.obj [("input", input)])).map fun value => ⟨numberOf value, none⟩

/-- What is written is read back as the same instant. -/
def RoundTrips (self : DateTime) : Prop :=
  ∀ text, self.toJSON cal = .ok text ∨ self.toString cal = .ok text →
    parse cal text = .ok ⟨self.ms, none⟩

end Texts

variable {cal : Calendar}

/-- A year of four digits and no sign. -/
def PlainYear (ms : Int) : Prop := 0 ≤ yearOf (dayAt ms) ∧ yearOf (dayAt ms) ≤ 9999

instance (ms : Int) : Decidable (PlainYear ms) := instDecidableAnd

/-! ### Writing -/

theorem toJSON_run (chrono : Chrono cal) (self : DateTime) :
    if Representable self.ms then
      self.toJSON cal = .ok (.str (String.ofList (write self.ms)))
    else ∃ error, self.toJSON cal = .error error := by
  have hlookup : field "ms" (.obj [("ms", int self.ms)]) = some (int self.ms) := rfl
  have hfield : fieldI64 (.obj [("ms", int self.ms)]) "ms" =
      if fitsI64 self.ms then .ok self.ms else .error ("missing integer field '" ++ "ms" ++ "'") := by
    unfold fieldI64
    rw [hlookup, Option.bind_some, asI64_int_eq]
    cases fitsI64 self.ms <;> rfl
  change if _ then datetimeIso cal _ = _ else ∃ error, datetimeIso cal _ = Except.error error
  unfold datetimeIso instant
  rw [hfield]
  split
  · rename_i hms
    obtain ⟨i, hi⟩ := Option.isSome_iff_exists.mp ((chrono.fromMillis_isSome self.ms).mpr hms)
    have htext : cal.toRfc3339 i = String.ofList (write self.ms) := by
      rw [← chrono.toRfc3339 self.ms i hi, String.ofList_toList]
    rw [if_pos hms.fits, ok_bind, hi, okOr_bind, ← htext]
    rfl
  · rename_i hms
    have hnone : cal.fromMillis self.ms = none := by
      apply Option.not_isSome_iff_eq_none.mp
      exact mt (chrono.fromMillis_isSome self.ms).mp hms
    cases fitsI64 self.ms with
    | false => exact ⟨_, rfl⟩
    | true =>
        rw [if_pos rfl, ok_bind, hnone]
        exact ⟨_, rfl⟩

/-! ### Reading -/

theorem yearText_head_visible (ms : Int) (c : Char) (h : (write ms).head? = some c) :
    isWhitespace c = false := by
  obtain ⟨c', rest, htext, hkind⟩ := yearText_head (yearOf (dayAt ms))
  have hc : c' = c := by
    unfold write at h
    dsimp only at h
    rw [htext] at h
    exact Option.some.inj h
  rw [hc] at hkind
  rcases hkind with hdigit | rfl | rfl
  · obtain ⟨hlow, hhigh⟩ := (isDigit_iff c).mp hdigit
    rw [Bool.eq_false_iff]
    intro hspace
    simp only [isWhitespace, Bool.or_eq_true, Bool.and_eq_true, decide_eq_true_eq,
      beq_iff_eq] at hspace
    omega
  · rfl
  · rfl

theorem trim_write (ms : Int) : trim (String.ofList (write ms)) = String.ofList (write ms) := by
  unfold trim
  rw [String.toList_ofList, trimChars_eq_self _ (yearText_head_visible ms)]
  intro c hlast
  rw [write_getLast] at hlast
  cases hlast
  rfl

theorem parse_run (chrono : Chrono cal) (ms : Int) (hms : Representable ms) :
    if PlainYear ms then
      parse cal (.str (String.ofList (write ms))) = .ok ⟨ms, none⟩
    else ∃ error, parse cal (.str (String.ofList (write ms))) = .error error := by
  have hlast : (String.ofList (write ms)).toList.getLast? = some 'Z' := by
    rw [String.toList_ofList, write_getLast]
  have hmark : 'T' ∈ (String.ofList (write ms)).toList := by
    rw [String.toList_ofList]
    exact mark_mem_write ms
  change if _ then (datetimeParse cal (.obj [("input", .str (String.ofList (write ms)))])).map _ = _
    else ∃ error, (datetimeParse cal (.obj [("input", .str _)])).map _ = Except.error error
  have hinput : field "input" (.obj [("input", .str (String.ofList (write ms)))]) =
      some (.str (String.ofList (write ms))) := rfl
  unfold datetimeParse
  rw [hinput, okOr_bind]
  unfold parseInput parseDateStr
  dsimp only
  rw [trim_write]
  split
  · rename_i hyear
    obtain ⟨i, hparsed, hmillis⟩ := chrono.parseRfc3339_some _ ms hlast
      (by rw [String.toList_ofList, read_write ms hyear]) hms
    rw [hparsed]
    dsimp only
    rw [hmillis, ok_bind]
    change Except.ok (DateTime.mk (numberOf (int ms)) none) = _
    rw [numberOf_int ms hms.fits]
  · rename_i hyear
    rw [chrono.parseRfc3339_none _ hlast (by rw [String.toList_ofList, read_write_none ms hyear])]
    dsimp only
    rw [chrono.parseDate_time _ hmark]
    exact ⟨_, rfl⟩

/-! ### The laws -/

/-- The identity key tells instants apart. -/
theorem idKey_injective (chrono : Chrono cal) (self other : DateTime) (key : Json)
    (h : self.idKey cal = .ok key) (h' : other.idKey cal = .ok key) : self.ms = other.ms := by
  have hrun := toJSON_run chrono self
  have hrun' := toJSON_run chrono other
  change self.toJSON cal = _ at h
  change other.toJSON cal = _ at h'
  rw [h] at hrun
  rw [h'] at hrun'
  split at hrun
  · split at hrun'
    · have htext := Except.ok.inj (hrun.symm.trans hrun')
      apply write_injective
      exact String.ofList_injective (Json.str.inj htext)
    · obtain ⟨error, herror⟩ := hrun'
      cases herror
  · obtain ⟨error, herror⟩ := hrun
    cases herror

theorem roundTrips_iff (chrono : Chrono cal) (self : DateTime) :
    RoundTrips cal self ↔ (Representable self.ms → PlainYear self.ms) := by
  have hrun := toJSON_run chrono self
  constructor
  · intro htrips hms
    rw [if_pos hms] at hrun
    have hparse := parse_run chrono self.ms hms
    by_contra hyear
    rw [if_neg hyear] at hparse
    obtain ⟨error, herror⟩ := hparse
    cases (htrips _ (.inl hrun)).symm.trans herror
  · intro hyear text htext
    have htext : self.toJSON cal = .ok text := htext.elim id id
    split at hrun
    · rename_i hms
      have hparse := parse_run chrono self.ms hms
      rw [if_pos (hyear hms)] at hparse
      rw [← hparse, ← Except.ok.inj (hrun.symm.trans htext)]
    · obtain ⟨error, herror⟩ := hrun
      cases herror.symm.trans htext

/-- Identity keys are injective on instants, and a written instant is read back exactly
when its year is one of the years 0 to 9999. -/
theorem iso_laws (chrono : Chrono cal) :
    (∀ (self other : DateTime) (key : Json),
      self.idKey cal = .ok key → other.idKey cal = .ok key → self.ms = other.ms) ∧
    ∀ self : DateTime, RoundTrips cal self ↔ (Representable self.ms → PlainYear self.ms) :=
  ⟨idKey_injective chrono, roundTrips_iff chrono⟩

/-- The first instant of the year 10000 is written with a sign and five digits, which
`parse` does not take. -/
theorem roundTrips_year10000 :
    (⟨253402300800000, none⟩ : DateTime).toJSON (gregorian fun _ => none) =
      .ok (.str "+10000-01-01T00:00:00Z") ∧
    ¬RoundTrips (gregorian fun _ => none) ⟨253402300800000, none⟩ := by
  have hrun := toJSON_run (gregorianChrono fun _ => none) ⟨253402300800000, none⟩
  have hrange : Representable 253402300800000 := by decide
  have htext : String.ofList (write 253402300800000) = "+10000-01-01T00:00:00Z" := by decide
  rw [if_pos hrange, htext] at hrun
  refine ⟨hrun, ?_⟩
  intro htrips
  have hyear := (roundTrips_iff (gregorianChrono fun _ => none) _).mp htrips hrange
  revert hyear
  decide

end Runlet.Datetime
