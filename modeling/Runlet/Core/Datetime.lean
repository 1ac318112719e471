import Mathlib.Algebra.Ring.Int.Defs
import Mathlib.Algebra.Ring.Nat
import Runlet.Lib.Text
import Runlet.Core.Classify

/-!
The `datetime` domain of the `__sys` bridge (`sys.rs`): calendar arithmetic on
epoch milliseconds, with an optional zone for the view. The calendar and zone
library is a parameter; the clock is one of its fields.
-/

namespace Runlet.Datetime

open Errors Classify Text

def asStr : Json → Option String
  | .str text => some text
  | _ => none

/-- `Value::as_i64` on a number as it was written: an integer literal, without
a sign on zero, within 64 bits. -/
def asI64 : Json → Option Int
  | .num literal =>
      match literal.toList with
      | '-' :: digits =>
          match parseDigits 0 digits with
          | some value =>
              if digits ≠ [] ∧ 0 < value ∧ value ≤ 2 ^ 63 then some (-(value : Int)) else none
          | none => none
      | digits =>
          match parseDigits 0 digits with
          | some value => if digits ≠ [] ∧ value < 2 ^ 63 then some (value : Int) else none
          | none => none
  | _ => none

def fieldStr (payload : Json) (key : String) : Except String String :=
  match (field key payload).bind asStr with
  | some text => .ok text
  | none => .error ("missing string field '" ++ key ++ "'")

def fieldI64 (payload : Json) (key : String) : Except String Int :=
  match (field key payload).bind asI64 with
  | some value => .ok value
  | none => .error ("missing integer field '" ++ key ++ "'")

def okOr {α : Type} (error : String) : Option α → Except String α
  | some value => .ok value
  | none => .error error

def fitsI64 (value : Int) : Bool := -(2 ^ 63) ≤ value && value < 2 ^ 63

/-- The components of an instant in a zone. -/
structure Components where
  year : Int
  month : Nat
  day : Nat
  hour : Nat
  minute : Nat
  second : Nat
  millisecond : Nat
  weekday : Nat
  ordinal : Nat
  isoWeek : Nat
  isoYear : Int

/-- The calendar and time zone library, and the clock. -/
structure Calendar where
  Instant : Type
  Zone : Type
  Date : Type
  Local : Type
  now : Except String Int
  parseRfc3339 : String → Option Instant
  parseDate : String → Option Date
  fromMillis : Int → Option Instant
  millis : Instant → Int
  addMonths : Instant → Nat → Option Instant
  subMonths : Instant → Nat → Option Instant
  toRfc3339 : Instant → String
  toRfc3339In : Zone → Instant → String
  components : Zone → Instant → Components
  localDate : Zone → Instant → Date
  utc : Zone
  parseZone : String → Option Zone
  utcMillis : Local → Int
  /-- The earliest instant of a local time, none in a gap. -/
  fromLocal : Zone → Local → Option Instant
  atTime : Date → Nat → Nat → Nat → Nat → Option Local
  fromYmd : Int → Nat → Nat → Option Date
  year : Date → Int
  month : Date → Nat
  day : Date → Nat
  daysFromMonday : Date → Nat
  addDays : Date → Nat → Option Date
  subDays : Date → Nat → Option Date
  withDay : Date → Nat → Option Date
  withMonth : Date → Nat → Option Date
  pred : Date → Option Date

variable (cal : Calendar)

def int (value : Int) : Json := .num (toString value)

/-- Digits padded with zeros to a width that counts the sign. -/
def padded (width : Nat) (value : Int) : String :=
  let digits := toString value.natAbs
  let sign := if value < 0 then "-" else ""
  let zeros := width - sign.length - digits.length
  sign ++ String.ofList (List.replicate zeros '0') ++ digits

/-! ### Zones and instants -/

def instant (ms : Int) : Except String cal.Instant :=
  okOr "timestamp out of range" (cal.fromMillis ms)

def parseZone (name : String) : Except String cal.Zone :=
  okOr ("unknown timezone: '" ++ name ++ "'") (cal.parseZone name)

def resolveZone (payload : Json) : Except String cal.Zone :=
  match (field "zone" payload).bind asStr with
  | some name => parseZone cal name
  | none => .ok cal.utc

def fromLocal (tz : cal.Zone) (naive : cal.Local) : Except String Int := do
  let found ← okOr "local time does not exist in the given zone" (cal.fromLocal tz naive)
  pure (cal.millis found)

/-! ### Parsing and building -/

def parseDateStr (text : String) : Except String Int :=
  match cal.parseRfc3339 (trim text) with
  | some parsed => .ok (cal.millis parsed)
  | none =>
      match cal.parseDate (trim text) with
      | some date => do
          let naive ← okOr "invalid date" (cal.atTime date 0 0 0 0)
          pure (cal.utcMillis naive)
      | none => .error ("cannot parse date: '" ++ text ++ "'")

def parseInput : Json → Except String Int
  | .num literal => okOr "epoch millis must be an integer" (asI64 (.num literal))
  | .str text => parseDateStr cal text
  | _ => .error "datetime input must be an ISO string or epoch millis"

def datetimeParse (payload : Json) : Except String Json := do
  let input ← okOr "missing 'input'" (field "input" payload)
  let ms ← parseInput cal input
  pure (int ms)

def partI64 (parts : Json) (key : String) (default : Int) : Except String Int :=
  match field key parts with
  | none => .ok default
  | some value => okOr ("'" ++ key ++ "' must be an integer") (asI64 value)

def partU32 (parts : Json) (key : String) (default : Nat) : Except String Nat :=
  match field key parts with
  | none => .ok default
  | some value =>
      okOr ("'" ++ key ++ "' must be a non-negative integer") <|
        (asI64 value).bind fun num =>
          if 0 ≤ num ∧ num < 2 ^ 32 then some num.toNat else none

def datetimeFrom (payload : Json) : Except String Json := do
  let parts ← okOr "missing 'parts'" (field "parts" payload)
  let year ← partI64 parts "year" 0
  let year ← if -(2 ^ 31) ≤ year ∧ year < 2 ^ 31 then Except.ok year
    else Except.error "year out of range"
  let month ← partU32 parts "month" 1
  let day ← partU32 parts "day" 1
  let hour ← partU32 parts "hour" 0
  let minute ← partU32 parts "minute" 0
  let second ← partU32 parts "second" 0
  let milli ← partU32 parts "millisecond" 0
  let naive ← okOr "date parts are out of range" <|
    (cal.fromYmd year month day).bind fun date => cal.atTime date hour minute second milli
  let tz ← resolveZone cal payload
  let ms ← fromLocal cal tz naive
  pure (int ms)

/-- Whole months first, then the fixed offset. -/
def datetimeAdd (payload : Json) : Except String Json := do
  let ms ← fieldI64 payload "ms"
  let base ← instant cal ms
  let months ← fieldI64 payload "months"
  let fixedMs ← fieldI64 payload "fixed_ms"
  let count ← if months.natAbs < 2 ^ 32 then Except.ok months.natAbs
    else Except.error "month arithmetic overflow"
  let shifted ← okOr "datetime arithmetic overflow" <|
    if months < 0 then cal.subMonths base count else cal.addMonths base count
  let out := cal.millis shifted + fixedMs
  if fitsI64 out then do
    let _ ← instant cal out
    pure (int out)
  else .error "datetime arithmetic overflow"

/-! ### Components and boundaries -/

def daysInMonth (year : Int) (month : Nat) : Except String Nat := do
  let (nextYear, nextMonth) ←
    if month ≥ 12 then
      if year + 1 < 2 ^ 31 then Except.ok (year + 1, 1) else Except.error "year out of range"
    else Except.ok (year, month + 1)
  let first ← okOr "invalid date" (cal.fromYmd nextYear nextMonth 1)
  let last ← okOr "date out of range" (cal.pred first)
  pure (cal.day last)

def datetimeParts (payload : Json) : Except String Json := do
  let tz ← resolveZone cal payload
  let ms ← fieldI64 payload "ms"
  let base ← instant cal ms
  let zoned := cal.components tz base
  let quarter ← if 1 ≤ zoned.month then Except.ok ((zoned.month - 1) / 3 + 1)
    else Except.error "quarter computation overflow"
  let days ← daysInMonth cal zoned.year zoned.month
  pure <| .obj
    [("year", int zoned.year), ("month", int zoned.month), ("day", int zoned.day),
      ("hour", int zoned.hour), ("minute", int zoned.minute), ("second", int zoned.second),
      ("millisecond", int zoned.millisecond), ("weekday", int zoned.weekday),
      ("quarter", int quarter), ("day_of_year", int zoned.ordinal),
      ("iso_week", .obj [("week", int zoned.isoWeek), ("week_year", int zoned.isoYear)]),
      ("days_in_month", int days)]

def weekBoundary (date : cal.Date) (atEnd : Bool) : Except String cal.Date := do
  let monday ← okOr "week boundary out of range" (cal.subDays date (cal.daysFromMonday date))
  if atEnd then okOr "week boundary out of range" (cal.addDays monday 6) else pure monday

def monthBoundary (date : cal.Date) (atEnd : Bool) : Except String cal.Date := do
  let day ← if atEnd then daysInMonth cal (cal.year date) (cal.month date) else pure 1
  okOr "month boundary out of range" (cal.withDay date day)

def quarterBoundary (date : cal.Date) (atEnd : Bool) : Except String cal.Date := do
  let zeroBased ← if 1 ≤ cal.month date then Except.ok (cal.month date - 1)
    else Except.error "quarter boundary out of range"
  let firstOfQuarter := zeroBased / 3 * 3 + 1
  let month := if atEnd then firstOfQuarter + 2 else firstOfQuarter
  let anchored ← okOr "quarter boundary out of range" <|
    (cal.withDay date 1).bind fun first => cal.withMonth first month
  if atEnd then monthBoundary cal anchored true else pure anchored

def yearBoundary (date : cal.Date) (atEnd : Bool) : Except String cal.Date :=
  let (month, day) := if atEnd then (12, 31) else (1, 1)
  okOr "year boundary out of range" <|
    (cal.withMonth date month).bind fun anchored => cal.withDay anchored day

def boundaryDate (date : cal.Date) (unit : String) (atEnd : Bool) : Except String cal.Date :=
  match unit with
  | "day" => .ok date
  | "week" => weekBoundary cal date atEnd
  | "month" => monthBoundary cal date atEnd
  | "quarter" => quarterBoundary cal date atEnd
  | "year" => yearBoundary cal date atEnd
  | other => .error ("unknown boundary unit: '" ++ other ++ "'")

def datetimeBoundary (payload : Json) (atEnd : Bool) : Except String Json := do
  let unit ← fieldStr payload "unit"
  let tz ← resolveZone cal payload
  let ms ← fieldI64 payload "ms"
  let base ← instant cal ms
  let target ← boundaryDate cal (cal.localDate tz base) unit atEnd
  let naive ← okOr "invalid boundary time" <|
    if atEnd then cal.atTime target 23 59 59 999 else cal.atTime target 0 0 0 0
  let out ← fromLocal cal tz naive
  pure (int out)

/-! ### Formatting -/

def datetimeIso (payload : Json) : Except String Json := do
  let ms ← fieldI64 payload "ms"
  let base ← instant cal ms
  match (field "zone" payload).bind asStr with
  | none => pure (.str (cal.toRfc3339 base))
  | some name => do
      let tz ← parseZone cal name
      pure (.str (cal.toRfc3339In tz base))

/-- The tokens of a pattern, a longer one before the ones it starts with. -/
def patternTokens (zoned : Components) : List (List Char × String) :=
  [("YYYY".toList, padded 4 zoned.year), ("SSS".toList, padded 3 zoned.millisecond),
    ("YY".toList, padded 2 (zoned.year % 100)), ("MM".toList, padded 2 zoned.month),
    ("DD".toList, padded 2 zoned.day), ("HH".toList, padded 2 zoned.hour),
    ("mm".toList, padded 2 zoned.minute), ("ss".toList, padded 2 zoned.second)]

/-- The scan of a pattern, with the number of characters of a token that are
still to be passed over. -/
def renderTokens (tokens : List (List Char × String)) : Nat → List Char → String
  | _, [] => ""
  | skip + 1, _ :: rest => renderTokens tokens skip rest
  | 0, c :: rest =>
      match tokens.find? fun token => token.1.isPrefixOf (c :: rest) with
      | some token => token.2 ++ renderTokens tokens (token.1.length - 1) rest
      | none => String.singleton c ++ renderTokens tokens 0 rest

def renderPattern (pattern : String) (zoned : Components) : String :=
  renderTokens (patternTokens zoned) 0 pattern.toList

def datetimeFormat (payload : Json) : Except String Json := do
  let tz ← resolveZone cal payload
  let ms ← fieldI64 payload "ms"
  let base ← instant cal ms
  let pattern ← fieldStr payload "pattern"
  pure (.str (renderPattern pattern (cal.components tz base)))

/-! ### Durations -/

/-- Days, hours, minutes and seconds of a number of seconds. -/
def splitDuration (totalSeconds : Nat) : Nat × Nat × Nat × Nat :=
  let afterDays := totalSeconds % 86400
  let afterHours := afterDays % 3600
  (totalSeconds / 86400, afterDays / 3600, afterHours / 60, afterHours % 60)

/-- Nothing of a duration is lost, and every part is below the next unit. -/
theorem splitDuration_spec (totalSeconds days hours minutes seconds : Nat)
    (h : splitDuration totalSeconds = (days, hours, minutes, seconds)) :
    days * 86400 + hours * 3600 + minutes * 60 + seconds = totalSeconds ∧
      hours < 24 ∧ minutes < 60 ∧ seconds < 60 := by
  simp only [splitDuration, Prod.mk.injEq] at h
  omega

def datetimeDiff (payload : Json) : Except String Json := do
  let first ← fieldI64 payload "a"
  let second ← fieldI64 payload "b"
  let totalMs := first - second
  if fitsI64 totalMs then
    let totalSeconds := totalMs.tdiv 1000
    let (days, hours, minutes, seconds) := splitDuration totalSeconds.natAbs
    pure <| .obj
      [("total_ms", int totalMs), ("total_seconds", int totalSeconds), ("days", int days),
        ("hours", int hours), ("minutes", int minutes), ("seconds", int seconds)]
  else .error "datetime diff overflow"

def datetimeDispatch (op : String) (payload : Json) : Except String Json :=
  match op with
  | "now" => do
      let ms ← cal.now
      pure (int ms)
  | "parse" => datetimeParse cal payload
  | "from" => datetimeFrom cal payload
  | "add" => datetimeAdd cal payload
  | "parts" => datetimeParts cal payload
  | "start_of" => datetimeBoundary cal payload false
  | "end_of" => datetimeBoundary cal payload true
  | "iso" => datetimeIso cal payload
  | "format" => datetimeFormat cal payload
  | "diff" => datetimeDiff payload
  | other => .error ("unknown datetime op: '" ++ other ++ "'")

end Runlet.Datetime
