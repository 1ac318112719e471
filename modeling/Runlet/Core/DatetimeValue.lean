import Runlet.Core.Datetime

/-!
The `datetime` value of a script (`datetime.js`): an instant and the zone of a
view, which asks the bridge for all that depends on the calendar. Numbers go to
the bridge and come back as integer literals.
-/

namespace Runlet.Datetime

open Errors Classify Text

structure DateTime where
  ms : Int
  zone : Option String

/-- The payload of a value: the instant, and the zone of a view. -/
def payloadFor (self : DateTime) (extra : List (String × Json)) : Json :=
  let zone := match self.zone with
    | none => []
    | some name => [("zone", .str name)]
  .obj (extra ++ ("ms", int self.ms) :: zone)

/-- A number the bridge answers with. -/
def numberOf (value : Json) : Int := (asI64 value).getD 0

/-- A span to add. -/
structure Delta where
  years : Int
  months : Int
  weeks : Int
  days : Int
  hours : Int
  minutes : Int
  seconds : Int
  ms : Int

/-- Units that are not given count zero. -/
def noDelta : Delta := ⟨0, 0, 0, 0, 0, 0, 0, 0⟩

def monthsOf (delta : Delta) : Int := delta.years * 12 + delta.months

def fixedMs (delta : Delta) : Int :=
  ((((delta.weeks * 7 + delta.days) * 24 + delta.hours) * 60 + delta.minutes) * 60 +
    delta.seconds) * 1000 + delta.ms

variable (cal : Calendar)

/-- An operation that answers with an instant; the view stays. -/
def callMs (self : DateTime) (op : String) (payload : Json) : Except String DateTime :=
  (datetimeDispatch cal op payload).map fun value => ⟨numberOf value, self.zone⟩

def addPayload (ms months fixed : Int) : Json :=
  .obj [("ms", int ms), ("months", int months), ("fixed_ms", int fixed)]

def DateTime.add (self : DateTime) (delta : Delta) : Except String DateTime :=
  callMs cal self "add" (addPayload self.ms (monthsOf delta) (fixedMs delta))

def DateTime.sub (self : DateTime) (delta : Delta) : Except String DateTime :=
  callMs cal self "add" (addPayload self.ms (-monthsOf delta) (-fixedMs delta))

def DateTime.startOf (self : DateTime) (unit : String) : Except String DateTime :=
  callMs cal self "start_of" (payloadFor self [("unit", .str unit)])

def DateTime.endOf (self : DateTime) (unit : String) : Except String DateTime :=
  callMs cal self "end_of" (payloadFor self [("unit", .str unit)])

/-- One number of the component bundle. -/
def DateTime.part (self : DateTime) (key : String) : Except String Int :=
  (datetimeDispatch cal "parts" (payloadFor self [])).map fun parts =>
    ((field key parts).map numberOf).getD 0

/-! ### Steps that succeed -/

theorem ok_bind {α β : Type} (value : α) (next : α → Except String β) :
    (Except.ok value >>= next) = next value := rfl

theorem okOr_bind {α β : Type} (error : String) (value : α) (next : α → Except String β) :
    (okOr error (some value) >>= next) = next value := rfl

/-! ### Integers over the bridge -/

theorem minus_not_mem_digits (n : Nat) : '-' ∉ Nat.toDigits 10 n := by
  intro hmem
  have hdigit := Nat.isDigit_of_mem_toDigits (by decide) (by decide) hmem
  revert hdigit
  decide

theorem fitsI64_iff (value : Int) : fitsI64 value = true ↔ -(2 ^ 63) ≤ value ∧ value < 2 ^ 63 := by
  unfold fitsI64
  rw [Bool.and_eq_true, decide_eq_true_eq, decide_eq_true_eq]

/-- The bridge reads an integer of 64 bits back, and no other. -/
theorem asI64_int_eq (value : Int) :
    asI64 (int value) = if fitsI64 value then some value else none := by
  unfold int asI64
  dsimp only
  rw [Int.toString_eq_repr, Int.repr_eq_if]
  by_cases hsign : 0 ≤ value
  · have hnat : (value.toNat : Int) = value := Int.toNat_of_nonneg hsign
    rw [if_pos hsign, Nat.toList_repr]
    split
    · rename_i digits hdigits
      exact absurd (hdigits ▸ List.mem_cons_self ..) (minus_not_mem_digits value.toNat)
    · rw [parseDigits_toDigits]
      dsimp only
      rw [hnat]
      apply if_congr _ rfl rfl
      rw [fitsI64_iff, and_iff_right Nat.toDigits_ne_nil]
      omega
  · have hnat : ((-value).toNat : Int) = -value := by omega
    rw [if_neg hsign, String.toList_append, Nat.toList_repr, show "-".toList = ['-'] from rfl,
      List.singleton_append]
    split
    · rename_i digits hdigits
      rw [← List.tail_eq_of_cons_eq hdigits, parseDigits_toDigits]
      dsimp only
      rw [hnat, Int.neg_neg]
      apply if_congr _ rfl rfl
      rw [fitsI64_iff, and_iff_right Nat.toDigits_ne_nil]
      omega
    · rename_i hother
      exact absurd rfl (hother _)

theorem asI64_int (value : Int) (hfits : fitsI64 value = true) : asI64 (int value) = some value := by
  rw [asI64_int_eq, if_pos hfits]

theorem numberOf_int (value : Int) (hfits : fitsI64 value = true) : numberOf (int value) = value := by
  unfold numberOf
  rw [asI64_int value hfits]
  rfl

theorem fieldI64_int (fields : List (String × Json)) (key : String) (value : Int)
    (hlookup : fields.lookup key = some (int value)) (hfits : fitsI64 value = true) :
    fieldI64 (.obj fields) key = .ok value := by
  unfold fieldI64 field
  dsimp only
  rw [hlookup, Option.bind_some, asI64_int value hfits]

/-- The zone a payload names, UTC without a name. -/
def zoneOf (name : Option String) : Option cal.Zone :=
  match name with
  | none => some cal.utc
  | some name => cal.parseZone name

end Runlet.Datetime
