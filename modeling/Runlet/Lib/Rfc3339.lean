import Runlet.Lib.Gregorian
import Runlet.Lib.NumberText

/-!
Timestamps in milliseconds as RFC 3339 text in UTC. The writer puts a sign in
front of a year that does not have four digits and leaves out a fraction of zero;
the reader takes exactly four digits for the year.
-/

namespace Runlet.Rfc3339

open Gregorian Text NumberText

def dayMillis : Int := 86400000

/-- The day of a timestamp. -/
def dayAt (ms : Int) : Int := ms / dayMillis

/-- The milliseconds of a timestamp since midnight. -/
def timeAt (ms : Int) : Nat := (ms % dayMillis).toNat

/-! ### Writing -/

/-- Four digits, or a sign and at least four. -/
def yearText (y : Int) : List Char :=
  if 0 ≤ y ∧ y ≤ 9999 then lastDigits 4 y.toNat
  else
    let digits := Nat.toDigits 10 y.natAbs
    (if y < 0 then '-' else '+') :: (List.replicate (4 - digits.length) '0' ++ digits)

/-- Three digits of a fraction that is not zero. -/
def millisText (millis : Nat) : List Char :=
  if millis = 0 then [] else '.' :: lastDigits 3 millis

/-- Everything behind the date. -/
def timeText (time : Nat) : List Char :=
  lastDigits 2 (time / 3600000) ++ ':' :: (lastDigits 2 (time / 60000 % 60) ++
    ':' :: (lastDigits 2 (time / 1000 % 60) ++ (millisText (time % 1000) ++ ['Z'])))

def write (ms : Int) : List Char :=
  let day := dayAt ms
  yearText (yearOf day) ++ '-' :: (lastDigits 2 (monthOf day) ++
    '-' :: (lastDigits 2 (dayOf day) ++ 'T' :: timeText (timeAt ms)))

/-! ### Reading -/

/-- A number of exactly `count` digits. -/
def number (count : Nat) (cs : List Char) : Option (Nat × List Char) :=
  if count ≤ cs.length then (parseDigits 0 (cs.take count)).map fun n => (n, cs.drop count)
  else none

def expect (allowed : List Char) : List Char → Option (List Char)
  | [] => none
  | c :: rest => if c ∈ allowed then some rest else none

/-- Milliseconds, from as many digits of a fraction as there are. -/
def fraction (cs : List Char) : Option (Nat × List Char) :=
  if cs.head? = some '.' then
    let digits := cs.tail.takeWhile isDigit
    if digits = [] then none
    else (parseDigits 0 ((digits ++ ['0', '0']).take 3)).map fun n =>
      (n, cs.tail.dropWhile isDigit)
  else some (0, cs)

/-- The time of day, up to a leap second, and the mark of UTC. -/
def readTime (cs : List Char) : Option Nat := do
  let (hour, cs) ← number 2 cs
  let cs ← expect [':'] cs
  let (minute, cs) ← number 2 cs
  let cs ← expect [':'] cs
  let (second, cs) ← number 2 cs
  let (millis, cs) ← fraction cs
  let cs ← expect ['Z', 'z'] cs
  if cs = [] ∧ hour ≤ 23 ∧ minute ≤ 59 ∧ second ≤ 60 then
    some (((hour * 60 + minute) * 60 + second) * 1000 + millis)
  else none

def read (cs : List Char) : Option Int := do
  let (year, cs) ← number 4 cs
  let cs ← expect ['-'] cs
  let (month, cs) ← number 2 cs
  let cs ← expect ['-'] cs
  let (day, cs) ← number 2 cs
  let cs ← expect ['T', 't', ' '] cs
  let time ← readTime cs
  if IsDate year month day then some (dayNumber year month day * dayMillis + time) else none

/-! ### Numbers and marks -/

theorem number_lastDigits (count n : Nat) (rest : List Char) (hn : n < 10 ^ count) :
    number count (lastDigits count n ++ rest) = some (n, rest) := by
  have hlength := length_lastDigits count n
  unfold number
  rw [if_pos (by rw [List.length_append]; omega), List.take_left' hlength, List.drop_left' hlength,
    parseDigits_lastDigits, Nat.zero_mul, Nat.zero_add, Nat.mod_eq_of_lt hn]
  rfl

theorem number_mark (count : Nat) (c : Char) (rest : List Char) (hc : digitValue c = none) :
    number (count + 1) (c :: rest) = none := by
  unfold number
  rw [List.take_succ_cons, parseDigits, hc]
  exact ite_self _

theorem expect_cons (allowed : List Char) (c : Char) (rest : List Char) (hc : c ∈ allowed) :
    expect allowed (c :: rest) = some rest := if_pos hc

theorem fraction_millisText (millis : Nat) (hmillis : millis < 1000) :
    fraction (millisText millis ++ ['Z']) = some (millis, ['Z']) := by
  unfold millisText
  by_cases hzero : millis = 0
  · rw [if_pos hzero, hzero]
    rfl
  · have hdigits : ∀ c ∈ lastDigits 3 millis, isDigit c = true := by
      apply isDigit_of_parseDigits 0 (0 * 10 ^ 3 + millis % 10 ^ 3)
      exact parseDigits_lastDigits 3 millis 0
    have hlength := length_lastDigits 3 millis
    have htake : (lastDigits 3 millis ++ ['Z']).takeWhile isDigit = lastDigits 3 millis := by
      rw [List.takeWhile_append_of_pos hdigits]
      simp [isDigit, digitValue]
    have hdrop : (lastDigits 3 millis ++ ['Z']).dropWhile isDigit = ['Z'] := by
      rw [List.dropWhile_append_of_pos hdigits]
      rfl
    have hne : lastDigits 3 millis ≠ [] := by
      intro hnil
      rw [hnil] at hlength
      cases hlength
    rw [if_neg hzero, List.cons_append]
    unfold fraction
    rw [List.head?_cons, if_pos rfl, List.tail_cons]
    dsimp only
    rw [htake, hdrop, if_neg hne, List.take_left' hlength, parseDigits_lastDigits, Nat.zero_mul,
      Nat.zero_add, Nat.mod_eq_of_lt (by omega)]
    rfl

theorem timeAt_lt (ms : Int) : timeAt ms < 86400000 := by
  unfold timeAt dayMillis
  omega

/-- A timestamp is its day and its time of day. -/
theorem dayAt_timeAt (ms : Int) : dayAt ms * dayMillis + timeAt ms = ms := by
  unfold dayAt timeAt dayMillis
  omega

theorem readTime_timeText (time : Nat) (htime : time < 86400000) :
    readTime (timeText time) = some time := by
  unfold readTime timeText
  simp only [Option.bind_eq_bind]
  rw [number_lastDigits 2 _ _ (by omega), Option.bind_some]
  dsimp only
  rw [expect_cons _ _ _ (by decide), Option.bind_some,
    number_lastDigits 2 _ _ (by omega), Option.bind_some]
  dsimp only
  rw [expect_cons _ _ _ (by decide), Option.bind_some,
    number_lastDigits 2 _ _ (by omega), Option.bind_some]
  dsimp only
  rw [fraction_millisText _ (by omega), Option.bind_some]
  dsimp only
  rw [expect_cons _ _ _ (by decide), Option.bind_some,
    if_pos ⟨rfl, by omega, by omega, by omega⟩]
  congr 1
  omega

/-! ### What is read of what was written -/

theorem lastDigits_month (n : Int) : monthOf n < 10 ^ 2 ∧ dayOf n < 10 ^ 2 := by
  have hmonth := (isDate_date n).month_le
  have hday := (isDate_date n).day_le
  have hlength := monthLength_le (isLeap (yearOf n)) (monthOf n - 1)
  unfold daysInMonth at hday
  omega

/-- A year of four digits is read back. -/
theorem read_write (ms : Int) (hyear : 0 ≤ yearOf (dayAt ms) ∧ yearOf (dayAt ms) ≤ 9999) :
    read (write ms) = some ms := by
  obtain ⟨hmonth, hday⟩ := lastDigits_month (dayAt ms)
  have hcast : ((yearOf (dayAt ms)).toNat : Int) = yearOf (dayAt ms) := by omega
  unfold read write yearText
  simp only [Option.bind_eq_bind]
  rw [if_pos hyear, number_lastDigits 4 _ _ (by omega), Option.bind_some]
  dsimp only
  rw [expect_cons _ _ _ (by decide), Option.bind_some,
    number_lastDigits 2 _ _ hmonth, Option.bind_some]
  dsimp only
  rw [expect_cons _ _ _ (by decide), Option.bind_some,
    number_lastDigits 2 _ _ hday, Option.bind_some]
  dsimp only
  rw [expect_cons _ _ _ (by decide), Option.bind_some,
    readTime_timeText _ (timeAt_lt ms), Option.bind_some, hcast,
    if_pos (isDate_date _), dayNumber_date, dayAt_timeAt]

theorem yearText_signed (y : Int) (hyear : ¬(0 ≤ y ∧ y ≤ 9999)) :
    yearText y = (if y < 0 then '-' else '+') ::
      (List.replicate (4 - (Nat.toDigits 10 y.natAbs).length) '0' ++ Nat.toDigits 10 y.natAbs) := by
  unfold yearText
  rw [if_neg hyear]

/-- A year with a sign is not read. -/
theorem read_write_none (ms : Int)
    (hyear : ¬(0 ≤ yearOf (dayAt ms) ∧ yearOf (dayAt ms) ≤ 9999)) : read (write ms) = none := by
  have hsign : digitValue (if yearOf (dayAt ms) < 0 then '-' else '+') = none := by
    split <;> rfl
  unfold read write
  dsimp only
  rw [yearText_signed _ hyear, List.cons_append, number_mark 3 _ _ hsign]
  rfl

/-! ### Different timestamps have different texts -/

theorem parseDigits_zeros (count : Nat) : parseDigits 0 (List.replicate count '0') = some 0 := by
  induction count with
  | zero => rfl
  | succ count ih => exact ih

/-- The year a text stands for. -/
def yearValue (cs : List Char) : Option Int :=
  match cs with
  | [] => none
  | c :: rest =>
      if c = '-' then (parseDigits 0 rest).map fun n : Nat => -(n : Int)
      else if c = '+' then (parseDigits 0 rest).map fun n : Nat => (n : Int)
      else (parseDigits 0 (c :: rest)).map fun n : Nat => (n : Int)

theorem yearValue_yearText (y : Int) : yearValue (yearText y) = some y := by
  by_cases hyear : 0 ≤ y ∧ y ≤ 9999
  · have hdigits := isDigit_of_parseDigits 0 _ _ (parseDigits_lastDigits 4 y.toNat 0)
    have hparse := parseDigits_lastDigits 4 y.toNat 0
    have hlength := length_lastDigits 4 y.toNat
    unfold yearText
    rw [if_pos hyear]
    cases hcs : lastDigits 4 y.toNat with
    | nil => simp [hcs] at hlength
    | cons c rest =>
        rw [hcs] at hdigits hparse
        have hc := hdigits c (List.mem_cons_self ..)
        have hminus : c ≠ '-' := by
          rintro rfl
          cases hc
        have hplus : c ≠ '+' := by
          rintro rfl
          cases hc
        unfold yearValue
        dsimp only
        rw [if_neg hminus, if_neg hplus, hparse, Nat.zero_mul, Nat.zero_add,
          Nat.mod_eq_of_lt (by omega), Option.map_some, Int.toNat_of_nonneg hyear.1]
  · have hparse : parseDigits 0 (List.replicate (4 - (Nat.toDigits 10 y.natAbs).length) '0' ++
        Nat.toDigits 10 y.natAbs) = some y.natAbs := by
      rw [parseDigits_append, parseDigits_zeros, Option.bind_some, parseDigits_toDigits]
    rw [yearText_signed y hyear]
    unfold yearValue
    dsimp only
    rw [hparse]
    by_cases hneg : y < 0
    · rw [if_pos hneg, if_pos rfl, Option.map_some]
      congr 1
      omega
    · rw [if_neg hneg, if_neg (by decide), if_pos rfl, Option.map_some]
      congr 1
      omega

/-- Behind its first character a year has digits only. -/
theorem yearText_parts (y : Int) : ∃ c rest, yearText y = c :: rest ∧ '-' ∉ rest := by
  have hno (cs : List Char) (n : Nat) (hparse : parseDigits 0 cs = some n) : '-' ∉ cs := by
    intro hmem
    have hdigit := isDigit_of_parseDigits 0 n cs hparse _ hmem
    cases hdigit
  by_cases hyear : 0 ≤ y ∧ y ≤ 9999
  · have hlength := length_lastDigits 4 y.toNat
    unfold yearText
    rw [if_pos hyear]
    cases hcs : lastDigits 4 y.toNat with
    | nil => simp [hcs] at hlength
    | cons c rest =>
        refine ⟨c, rest, rfl, ?_⟩
        have hall := hno _ _ (parseDigits_lastDigits 4 y.toNat 0)
        rw [hcs] at hall
        exact fun hmem => hall (List.mem_cons_of_mem _ hmem)
  · refine ⟨_, _, yearText_signed y hyear, ?_⟩
    apply hno _ y.natAbs
    rw [parseDigits_append, parseDigits_zeros, Option.bind_some, parseDigits_toDigits]

/-- A year starts with a digit or with a sign. -/
theorem yearText_head (y : Int) : ∃ c rest, yearText y = c :: rest ∧
    (isDigit c = true ∨ c = '-' ∨ c = '+') := by
  by_cases hyear : 0 ≤ y ∧ y ≤ 9999
  · have hdigits := isDigit_of_parseDigits 0 _ _ (parseDigits_lastDigits 4 y.toNat 0)
    obtain ⟨c, rest, htext, -⟩ := yearText_parts y
    refine ⟨c, rest, htext, .inl ?_⟩
    apply hdigits
    rw [← htext.symm.trans (if_pos hyear)]
    exact List.mem_cons_self ..
  · refine ⟨_, _, yearText_signed y hyear, .inr ?_⟩
    split
    · exact .inl rfl
    · exact .inr rfl

/-- A written timestamp has a mark before its time. -/
theorem mark_mem_write (ms : Int) : 'T' ∈ write ms := by
  unfold write
  dsimp only
  rw [List.mem_append, List.mem_cons, List.mem_append, List.mem_cons, List.mem_append]
  exact .inr (.inr (.inr (.inr (.inr (List.mem_cons_self ..)))))

theorem write_getLast (ms : Int) : (write ms).getLast? = some 'Z' := by
  have hparts : ∃ front, write ms = front ++ ['Z'] := by
    unfold write timeText
    refine ⟨yearText (yearOf (dayAt ms)) ++ '-' :: (lastDigits 2 (monthOf (dayAt ms)) ++
      '-' :: (lastDigits 2 (dayOf (dayAt ms)) ++ 'T' :: (lastDigits 2 (timeAt ms / 3600000) ++
        ':' :: (lastDigits 2 (timeAt ms / 60000 % 60) ++
          ':' :: (lastDigits 2 (timeAt ms / 1000 % 60) ++ millisText (timeAt ms % 1000)))))), ?_⟩
    simp only [List.append_assoc, List.cons_append]
  obtain ⟨front, hfront⟩ := hparts
  rw [hfront, List.getLast?_append_of_ne_nil _ (List.cons_ne_nil _ _)]
  rfl

/-- Two texts cut at their first separator. -/
theorem append_separator_inj (sep : Char) (front front' back back' : List Char)
    (hfront : sep ∉ front) (hfront' : sep ∉ front')
    (h : front ++ sep :: back = front' ++ sep :: back') : front = front' ∧ back = back' := by
  induction front generalizing front' with
  | nil =>
      cases front' with
      | nil => exact ⟨rfl, List.tail_eq_of_cons_eq h⟩
      | cons c rest =>
          have hc : sep = c := List.head_eq_of_cons_eq h
          exact absurd (hc ▸ List.mem_cons_self ..) hfront'
  | cons c rest ih =>
      cases front' with
      | nil =>
          have hc : c = sep := List.head_eq_of_cons_eq h
          exact absurd (hc ▸ List.mem_cons_self ..) hfront
      | cons c' rest' =>
          obtain ⟨hrest, hback⟩ := ih rest' (fun hmem => hfront (List.mem_cons_of_mem _ hmem))
            (fun hmem => hfront' (List.mem_cons_of_mem _ hmem)) (List.tail_eq_of_cons_eq h)
          have hc : c = c' := List.head_eq_of_cons_eq h
          exact ⟨by rw [hc, hrest], hback⟩

theorem lastDigits_append_inj (count n n' : Nat) (rest rest' : List Char) (hn : n < 10 ^ count)
    (hn' : n' < 10 ^ count) (h : lastDigits count n ++ rest = lastDigits count n' ++ rest') :
    n = n' ∧ rest = rest' := by
  have hread := congrArg (number count) h
  rw [number_lastDigits count n rest hn, number_lastDigits count n' rest' hn',
    Option.some.injEq, Prod.mk.injEq] at hread
  exact hread

theorem write_injective (ms ms' : Int) (h : write ms = write ms') : ms = ms' := by
  obtain ⟨hmonth, hday⟩ := lastDigits_month (dayAt ms)
  obtain ⟨hmonth', hday'⟩ := lastDigits_month (dayAt ms')
  obtain ⟨c, rest, htext, hrest⟩ := yearText_parts (yearOf (dayAt ms))
  obtain ⟨c', rest', htext', hrest'⟩ := yearText_parts (yearOf (dayAt ms'))
  unfold write at h
  dsimp only at h
  rw [htext, htext'] at h
  obtain ⟨hdigits, hbehind⟩ :=
    append_separator_inj '-' rest rest' _ _ hrest hrest' (List.tail_eq_of_cons_eq h)
  obtain ⟨hmonths, hbehind⟩ := lastDigits_append_inj 2 _ _ _ _ hmonth hmonth' hbehind
  obtain ⟨hdays, hbehind⟩ :=
    lastDigits_append_inj 2 _ _ _ _ hday hday' (List.tail_eq_of_cons_eq hbehind)
  have hyears : yearOf (dayAt ms) = yearOf (dayAt ms') := by
    have hsame : yearText (yearOf (dayAt ms)) = yearText (yearOf (dayAt ms')) := by
      rw [htext, htext', hdigits, List.head_eq_of_cons_eq h]
    have hvalue := congrArg yearValue hsame
    rw [yearValue_yearText, yearValue_yearText] at hvalue
    exact Option.some.inj hvalue
  have htimes : timeAt ms = timeAt ms' := by
    have hread := congrArg readTime (List.tail_eq_of_cons_eq hbehind)
    rw [readTime_timeText _ (timeAt_lt ms), readTime_timeText _ (timeAt_lt ms')] at hread
    exact Option.some.inj hread
  have hsameDay : dayAt ms = dayAt ms' := by
    rw [← dayNumber_date (dayAt ms), hyears, hmonths, hdays, dayNumber_date]
  rw [← dayAt_timeAt ms, hsameDay, htimes, dayAt_timeAt]

end Runlet.Rfc3339
