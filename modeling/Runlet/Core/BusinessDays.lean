import Runlet.Core.UtcBoundaries
import Runlet.Lib.Walk

/-!
`add_business_days` of a datetime without a view: a loop that goes from day to
day and counts the days from Monday to Friday it lands on. To see whether a day
is one of them it asks for the component bundle, which there is none of in the
last month of the calendar.
-/

namespace Runlet.Datetime

open Gregorian Rfc3339 Walk

/-! ### The loop -/

section Loop

variable (cal : Calendar)

def DateTime.isWeekend (self : DateTime) : Except String Bool := do
  let wd ← self.part cal "weekday"
  return wd == 6 || wd == 7

def DateTime.isBusinessDay (self : DateTime) : Except String Bool := do
  let weekend ← self.isWeekend cal
  return !weekend

/-- `{ days: step }`. -/
def daysDelta (step : Int) : Delta := { noDelta with days := step }

/-- The rounds of the loop: nothing when they are used up before the days are. -/
def businessLoop (step : Int) : Nat → Nat → DateTime → Option (Except String DateTime)
  | _, 0, cur => some (.ok cur)
  | 0, _ + 1, _ => none
  | rounds + 1, remaining + 1, cur =>
      match cur.add cal (daysDelta step) with
      | .error error => some (.error error)
      | .ok next =>
          match next.isBusinessDay cal with
          | .error error => some (.error error)
          | .ok business =>
              businessLoop step rounds (if business then remaining else remaining + 1) next

def stepOf (n : Int) : Int := if n < 0 then -1 else 1

def DateTime.addBusinessDays (self : DateTime) (n : Int) (rounds : Nat) :
    Option (Except String DateTime) :=
  businessLoop cal (stepOf n) rounds n.natAbs self

/-- The loop ends with a result after some number of rounds. -/
def Ends (run : Nat → Option (Except String DateTime)) (result : Except String DateTime) : Prop :=
  ∃ rounds, run rounds = some result

/-- More rounds than the loop takes change nothing. -/
theorem businessLoop_mono (step : Int) (rounds more remaining : Nat) (cur : DateTime)
    (result : Except String DateTime)
    (h : businessLoop cal step rounds remaining cur = some result) :
    businessLoop cal step (rounds + more) remaining cur = some result := by
  induction rounds generalizing remaining cur with
  | zero =>
      cases remaining with
      | zero =>
          unfold businessLoop at h ⊢
          exact h
      | succ remaining => cases h
  | succ rounds ih =>
      cases remaining with
      | zero =>
          unfold businessLoop at h ⊢
          exact h
      | succ remaining =>
          rw [Nat.add_right_comm]
          unfold businessLoop at h ⊢
          split at h
          · exact h
          · split at h
            · exact h
            · exact ih _ _ h

theorem Ends.unique {step : Int} {remaining : Nat} {cur : DateTime}
    {result other : Except String DateTime}
    (h : Ends (fun rounds => businessLoop cal step rounds remaining cur) result)
    (h' : Ends (fun rounds => businessLoop cal step rounds remaining cur) other) :
    result = other := by
  obtain ⟨rounds, hrun⟩ := h
  obtain ⟨rounds', hrun'⟩ := h'
  have hboth := businessLoop_mono cal step rounds rounds' remaining cur result hrun
  have hboth' := businessLoop_mono cal step rounds' rounds remaining cur other hrun'
  rw [Nat.add_comm, hboth] at hboth'
  exact Option.some.inj hboth'

end Loop

variable {cal : Calendar}

/-! ### One step -/

/-- Monday to Friday. -/
def IsBusiness (n : Int) : Bool := Gregorian.daysFromMonday n < 5

/-- The first day of the last month of the calendar. -/
def lastMonth : Int := dayNumber 262142 12 1

theorem lastMonth_iff (n : Int) (hn : n ≤ maxDay) :
    monthTiling.last n < maxDay ↔ n < lastMonth := by
  have hfirst : monthTiling.first maxDay = lastMonth := by decide
  have hlast : monthTiling.last maxDay = maxDay := by decide
  constructor
  · intro hbefore
    by_contra hinside
    have hindex := monthTiling.index_between maxDay n (by omega) (by omega)
    rw [monthTiling.last_congr maxDay n hindex] at hbefore
    omega
  · intro hbefore
    by_contra hinside
    have hlow := monthTiling.first_le n
    have hmonth : monthTiling.first lastMonth = lastMonth := by decide
    have hindex := monthTiling.index_between n lastMonth (by omega) (by
      rw [maxDay_eq] at hinside
      have hvalue : lastMonth = 95026206 := by decide
      omega)
    rw [monthTiling.first_congr n lastMonth hindex] at hmonth
    omega

theorem addMs_day (ms step : Int) : dayAt (ms + step * dayMillis) = dayAt ms + step := by
  unfold dayAt dayMillis
  omega

/-- A day on the calendar. -/
def OnCalendar (n : Int) : Prop := minDay ≤ n ∧ n ≤ maxDay

/-- From a date to the next is far less than the whole range of times. -/
theorem daySpan_fits (ms step : Int) (hms : Representable ms)
    (hout : Representable (ms + step * dayMillis)) : fitsI64 (step * dayMillis) = true := by
  obtain ⟨hlow, hhigh⟩ := (dayAt_iff ms _ _).mp hms
  obtain ⟨hlow', hhigh'⟩ := (dayAt_iff _ _ _).mp hout
  rw [minDay_eq] at hlow hlow'
  rw [maxDay_eq] at hhigh hhigh'
  unfold dayMillis at *
  unfold fitsI64
  rw [Bool.and_eq_true, decide_eq_true_eq, decide_eq_true_eq]
  omega

theorem fixedMs_daysDelta (step : Int) : fixedMs (daysDelta step) = step * dayMillis := by
  unfold fixedMs daysDelta noDelta dayMillis
  dsimp only
  omega

/-- A span without months is added without a look at the calendar. -/
theorem datetimeAdd_fixed (chrono : Chrono cal) (ms span : Int) (hms : Representable ms)
    (hspan : fitsI64 span = true) (hout : Representable (ms + span)) :
    datetimeAdd cal (addPayload ms 0 span) = .ok (int (ms + span)) := by
  obtain ⟨i, hi⟩ := Option.isSome_iff_exists.mp ((chrono.fromMillis_isSome ms).mpr hms)
  obtain ⟨j, hj⟩ := Option.isSome_iff_exists.mp ((chrono.fromMillis_isSome _).mpr hout)
  have hmillis := chrono.millis_fromMillis ms i hi
  have hfieldMs : fieldI64 (addPayload ms 0 span) "ms" = .ok ms :=
    fieldI64_int _ "ms" ms rfl hms.fits
  have hfieldMonths : fieldI64 (addPayload ms 0 span) "months" = .ok 0 :=
    fieldI64_int _ "months" 0 rfl rfl
  have hfieldFixed : fieldI64 (addPayload ms 0 span) "fixed_ms" = .ok span :=
    fieldI64_int _ "fixed_ms" _ rfl hspan
  unfold datetimeAdd instant
  rw [hfieldMs, ok_bind, hi, okOr_bind, hfieldMonths, ok_bind, hfieldFixed, ok_bind,
    if_pos (by decide), ok_bind]
  change (okOr _ (cal.addMonths i 0) >>= _) = _
  rw [chrono.addMonths_zero, okOr_bind, hmillis]
  dsimp only
  rw [if_pos hout.fits, hj, okOr_bind]
  rfl

theorem add_days (chrono : Chrono cal) (ms step : Int) (hms : Representable ms)
    (hnext : OnCalendar (dayAt ms + step)) :
    (utcValue ms).add cal (daysDelta step) = .ok (utcValue (ms + step * dayMillis)) := by
  have hout : Representable (ms + step * dayMillis) := by
    unfold Representable
    rwa [addMs_day]
  have hrun := datetimeAdd_fixed chrono ms (step * dayMillis) hms (daySpan_fits ms step hms hout) hout
  unfold DateTime.add callMs
  rw [fixedMs_daysDelta]
  change (datetimeAdd cal (addPayload ms 0 (step * dayMillis))).map _ = _
  rw [hrun, Except.map, numberOf_int _ hout.fits]
  rfl

theorem isBusinessDay_utc (chrono : Chrono cal) (ms : Int) (hms : Representable ms) :
    (utcValue ms).isBusinessDay cal =
      if dayAt ms < lastMonth then .ok (IsBusiness (dayAt ms)) else .error "invalid date" := by
  have hpart := part_utc chrono ms hms
  unfold DateTime.isBusinessDay DateTime.isWeekend
  by_cases hinside : dayAt ms < lastMonth
  · rw [if_pos ((lastMonth_iff _ hms.2).mpr hinside)] at hpart
    rw [if_pos hinside, hpart.2, ok_bind, pure_bind]
    change Except.ok _ = Except.ok _
    congr 1
    have hweek : Gregorian.daysFromMonday (dayAt ms) < 7 := by
      unfold Gregorian.daysFromMonday
      omega
    unfold IsBusiness
    generalize Gregorian.daysFromMonday (dayAt ms) = weekday at hweek
    interval_cases weekday <;> rfl
  · rw [if_neg (mt (lastMonth_iff _ hms.2).mp hinside)] at hpart
    rw [if_neg hinside, hpart "weekday"]
    rfl

/-! ### The whole walk -/

/-- From every day a day from Monday to Friday is at most three steps away. -/
theorem business_near (n step : Int) (hstep : step = 1 ∨ step = -1) :
    ∃ more, Nth IsBusiness n step 1 more := by
  cases hfirst : IsBusiness (n + step) with
  | true => exact ⟨1, .one hfirst⟩
  | false =>
      cases hsecond : IsBusiness (n + step + step) with
      | true => exact ⟨2, .skip hfirst (.one hsecond)⟩
      | false =>
          have hthird : IsBusiness (n + step + step + step) = true := by
            unfold IsBusiness Gregorian.daysFromMonday at *
            rw [decide_eq_false_iff_not] at hfirst hsecond
            rw [decide_eq_true_eq]
            omega
          exact ⟨3, .skip hfirst (.skip hsecond (.one hthird))⟩

theorem stepOf_cases (n : Int) : stepOf n = 1 ∨ stepOf n = -1 := by
  unfold stepOf
  split
  · exact .inr rfl
  · exact .inl rfl

theorem stepOf_neg (n : Int) (hn : n ≠ 0) : stepOf (-n) = -stepOf n := by
  unfold stepOf
  split <;> split <;> omega

/-- No day of the walk is in the last month of the calendar. -/
def Early (n step : Int) (length : Nat) : Prop := ∀ day ∈ places n step length, day < lastMonth

/-- The instants the walk goes through have a date. -/
structure Walkable (n step : Int) (length : Nat) : Prop where
  start : length ≠ 0 → OnCalendar n
  places : ∀ day ∈ places n step length, OnCalendar day

theorem Walkable.next {n step : Int} {length : Nat} (h : Walkable n step (length + 1)) :
    Walkable (n + step) step length := by
  have hplaces := h.places
  rw [places_succ] at hplaces
  refine ⟨?_, ?_⟩
  · exact fun _ => hplaces _ (List.mem_cons_self ..)
  · exact fun day hday => hplaces day (List.mem_cons_of_mem _ hday)

theorem Walkable.back {n step : Int} {length : Nat} (h : Walkable n step length) :
    Walkable (goal n step length) (-step) length := by
  refine ⟨?_, ?_⟩
  · intro hlength
    obtain ⟨rest, rfl⟩ := Nat.exists_eq_succ_of_ne_zero hlength
    exact h.places _ (goal_mem n step rest)
  · intro day hday
    rcases mem_places_back n step length day hday with rfl | hday'
    · apply h.start
      rintro rfl
      cases hday
    · exact h.places day hday'

/-- A time of a day. -/
def atDay (n : Int) (time : Nat) : DateTime := utcValue (n * dayMillis + time)

theorem dayAt_atDay (n : Int) (time : Nat) (htime : (time : Int) < dayMillis) :
    dayAt (n * dayMillis + time) = n := by
  unfold dayAt dayMillis at *
  omega

/-- One round of the loop, from a day to the next. -/
theorem businessLoop_round (chrono : Chrono cal) (step n : Int) (time rounds remaining : Nat)
    (htime : (time : Int) < dayMillis) (hstart : OnCalendar n) (hnext : OnCalendar (n + step)) :
    businessLoop cal step (rounds + 1) (remaining + 1) (atDay n time) =
      if n + step < lastMonth then
        businessLoop cal step rounds (if IsBusiness (n + step) then remaining else remaining + 1)
          (atDay (n + step) time)
      else some (.error "invalid date") := by
  have hday := dayAt_atDay n time htime
  have hday' := dayAt_atDay (n + step) time htime
  have hin : Representable (n * dayMillis + time) := by
    unfold Representable
    rwa [hday]
  have hout : Representable ((n + step) * dayMillis + time) := by
    unfold Representable
    rwa [hday']
  have hadd := add_days chrono (n * dayMillis + time) step hin (by rwa [hday])
  have hmoved : n * dayMillis + time + step * dayMillis = (n + step) * dayMillis + time := by
    ring
  rw [hmoved] at hadd
  have hbusiness := isBusinessDay_utc chrono _ hout
  rw [hday'] at hbusiness
  rw [businessLoop]
  unfold atDay
  rw [hadd]
  dsimp only
  rw [hbusiness]
  by_cases hinside : n + step < lastMonth
  · rw [if_pos hinside, if_pos hinside]
  · rw [if_neg hinside, if_neg hinside]

/-- The walk is done if no day of it is in the last month of the calendar; otherwise the
first such day ends it with an error. -/
theorem businessLoop_run (chrono : Chrono cal) (step : Int) (time : Nat)
    (htime : (time : Int) < dayMillis) (count length : Nat) (n : Int)
    (hnth : Nth IsBusiness n step count length) (hwalk : Walkable n step length) :
    (Early n step length →
      businessLoop cal step length count (atDay n time) =
        some (.ok (atDay (goal n step length) time))) ∧
    (¬Early n step length →
      businessLoop cal step length count (atDay n time) = some (.error "invalid date")) := by
  induction length generalizing n count with
  | zero =>
      obtain rfl := hnth.length_zero_iff.mp rfl
      rw [goal_zero]
      refine ⟨fun _ => rfl, ?_⟩
      intro hlate
      exact absurd (fun day hday => nomatch hday) hlate
  | succ length ih =>
      obtain ⟨count, rfl⟩ := Nat.exists_eq_succ_of_ne_zero (Nat.pos_iff_ne_zero.mp hnth.count_pos)
      have hnext : OnCalendar (n + step) := by
        apply hwalk.places
        rw [places_succ]
        exact List.mem_cons_self ..
      have hearly : Early n step (length + 1) ↔
          n + step < lastMonth ∧ Early (n + step) step length := by
        unfold Early
        rw [places_succ]
        exact List.forall_mem_cons
      have hround := businessLoop_round chrono step n time length count htime
        (hwalk.start (Nat.succ_ne_zero length)) hnext
      obtain ⟨hdone, hfailed⟩ := ih _ (n + step) hnth.next hwalk.next
      rw [hearly, goal_succ, hround]
      by_cases hinside : n + step < lastMonth
      · rw [if_pos hinside]
        refine ⟨fun h => hdone h.2, ?_⟩
        exact fun hlate => hfailed fun h => hlate ⟨hinside, h⟩
      · rw [if_neg hinside]
        exact ⟨fun h => absurd h.1 hinside, fun _ => rfl⟩

theorem businessLoop_ends (chrono : Chrono cal) (step : Int) (time : Nat)
    (htime : (time : Int) < dayMillis) (count length : Nat) (n : Int)
    (hnth : Nth IsBusiness n step count length) (hwalk : Walkable n step length) :
    Ends (fun rounds => businessLoop cal step rounds count (atDay n time))
        (.ok (atDay (goal n step length) time)) ↔
      Early n step length := by
  obtain ⟨hdone, hfailed⟩ := businessLoop_run chrono step time htime count length n hnth hwalk
  constructor
  · intro hends
    by_contra hlate
    cases Ends.unique cal hends ⟨length, hfailed hlate⟩
  · exact fun hearly => ⟨length, hdone hearly⟩

/-! ### The law -/

/-- What is expected of `n` business days, `length` days away: the day at the same time,
and from a business day the way back. -/
structure BusinessLaw (cal : Calendar) (ms n : Int) (length : Nat) : Prop where
  forward : Ends ((utcValue ms).addBusinessDays cal n)
    (.ok (utcValue (goal (dayAt ms) (stepOf n) length * dayMillis + timeAt ms)))
  back : IsBusiness (dayAt ms) = true →
    Ends ((utcValue (goal (dayAt ms) (stepOf n) length * dayMillis + timeAt ms)).addBusinessDays
      cal (-n)) (.ok (utcValue ms))

/-- The law for a known length of the walk. -/
theorem businessLaw_iff (chrono : Chrono cal) (ms n : Int) (length : Nat)
    (hnth : Nth IsBusiness (dayAt ms) (stepOf n) n.natAbs length)
    (hwalk : Walkable (dayAt ms) (stepOf n) length) :
    BusinessLaw cal ms n length ↔
      Early (dayAt ms) (stepOf n) length ∧
        (n ≠ 0 → IsBusiness (dayAt ms) = true → dayAt ms < lastMonth) := by
  have htime : (timeAt ms : Int) < dayMillis := Int.ofNat_lt.mpr (timeAt_lt ms)
  have hms : utcValue ms = atDay (dayAt ms) (timeAt ms) := by
    unfold atDay
    rw [dayAt_timeAt]
  have hforward := businessLoop_ends chrono _ _ htime _ _ _ hnth hwalk
  rw [← hms] at hforward
  -- the way back asks about the days of the walk and about its start
  have hback (hbusiness : IsBusiness (dayAt ms) = true) (hn : n ≠ 0) :
      Ends ((atDay (goal (dayAt ms) (stepOf n) length) (timeAt ms)).addBusinessDays cal (-n))
          (.ok (utcValue ms)) ↔
        Early (goal (dayAt ms) (stepOf n) length) (-stepOf n) length := by
    have hends := businessLoop_ends chrono _ _ htime _ _ _ (hnth.back hbusiness) hwalk.back
    rw [goal_back, ← hms] at hends
    rw [← hends]
    unfold DateTime.addBusinessDays
    rw [stepOf_neg n hn, Int.natAbs_neg]
  have hlength : length = 0 ↔ n = 0 := hnth.length_zero_iff.trans Int.natAbs_eq_zero
  constructor
  · intro law
    refine ⟨hforward.mp law.forward, ?_⟩
    intro hn hbusiness
    obtain ⟨rest, rfl⟩ := Nat.exists_eq_succ_of_ne_zero (mt hlength.mp hn)
    exact (hback hbusiness hn).mp (law.back hbusiness) _ (start_mem_back _ _ rest)
  · rintro ⟨hearly, hstart⟩
    refine ⟨hforward.mpr hearly, ?_⟩
    intro hbusiness
    by_cases hn : n = 0
    · obtain rfl := hlength.mpr hn
      rw [goal_zero, dayAt_timeAt, hn]
      exact ⟨0, rfl⟩
    · apply (hback hbusiness hn).mpr
      intro day hday
      rcases mem_places_back _ _ _ day hday with rfl | hday'
      · exact hstart hn hbusiness
      · exact hearly day hday'

/-- `add_business_days` ends on the business day that is counted off and comes back from
there, unless it asks about a day in the last month of the calendar. -/
theorem addBusinessDays_iff (chrono : Chrono cal) (ms n : Int) :
    (∃ length, Nth IsBusiness (dayAt ms) (stepOf n) n.natAbs length ∧
      (Walkable (dayAt ms) (stepOf n) length → BusinessLaw cal ms n length)) ↔
    ∀ length, Nth IsBusiness (dayAt ms) (stepOf n) n.natAbs length →
      Walkable (dayAt ms) (stepOf n) length →
        Early (dayAt ms) (stepOf n) length ∧
          (n ≠ 0 → IsBusiness (dayAt ms) = true → dayAt ms < lastMonth) := by
  constructor
  · rintro ⟨length, hnth, hlaw⟩ other hother hwalk
    obtain rfl := hnth.unique hother
    exact (businessLaw_iff chrono ms n length hnth hwalk).mp (hlaw hwalk)
  · intro hquiet
    obtain ⟨length, hnth⟩ := exists_nth IsBusiness (dayAt ms) (stepOf n)
      (fun day => business_near day (stepOf n) (stepOf_cases n)) n.natAbs
    refine ⟨length, hnth, ?_⟩
    exact fun hwalk =>
      (businessLaw_iff chrono ms n length hnth hwalk).mpr (hquiet length hnth hwalk)

/-- From Friday 30 November 262142 the next business day is Monday 3 December, which has a
date; the loop ends on the Saturday with an error. -/
theorem addBusinessDays_lastMonth :
    Nth IsBusiness (dayAt 8210264112000000) (stepOf 1) (Int.natAbs 1) 3 ∧
      Walkable (dayAt 8210264112000000) (stepOf 1) 3 ∧
      ¬∃ length, Nth IsBusiness (dayAt 8210264112000000) (stepOf 1) (Int.natAbs 1) length ∧
        (Walkable (dayAt 8210264112000000) (stepOf 1) length →
          BusinessLaw (gregorian fun _ => none) 8210264112000000 1 length) := by
  have hnth : Nth IsBusiness (dayAt 8210264112000000) (stepOf 1) (Int.natAbs 1) 3 :=
    .skip rfl (.skip rfl (.one rfl))
  have hwalk : Walkable (dayAt 8210264112000000) (stepOf 1) 3 := by
    refine ⟨fun _ => ⟨by decide, by decide⟩, ?_⟩
    intro day hday
    simp only [places, List.range, List.range.loop, List.map_cons, List.map_nil,
      List.mem_cons, List.not_mem_nil, or_false] at hday
    rcases hday with rfl | rfl | rfl <;> exact ⟨by decide, by decide⟩
  refine ⟨hnth, hwalk, ?_⟩
  rintro ⟨length, hlength, hlaw⟩
  obtain rfl := hnth.unique hlength
  obtain ⟨hearly, -⟩ := (businessLaw_iff (gregorianChrono fun _ => none) _ _ _ hnth hwalk).mp
    (hlaw hwalk)
  have hsaturday := hearly _ (List.mem_cons_self ..)
  revert hsaturday
  decide

end Runlet.Datetime
