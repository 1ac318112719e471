import Runlet.Lib.NumberText
import Runlet.Core.Money

/-!
The values a `list` holds, and how `list.js` reads them: the field of a record,
the number behind a value, its identity key and its ordering key. Wrapper values
(decimal, money, datetime, text) answer by their canonical value, plain scalars
by themselves.
-/

namespace Runlet.ListUtil

open Binary64 MoneyUtil NumberText

/-- A script value over decimals `D` and references `O` to other objects. -/
inductive Value (D O : Type) where
  | undefined
  | null
  | bool (b : Bool)
  | number (n : Number)
  | string (s : String)
  | decimal (d : D)
  | money (m : Money D)
  | datetime (ms : Int) (zone : Option String)
  | text (s : String)
  | object (o : O)
  deriving DecidableEq

variable {D O : Type}

/-- Reading a property of a value, inherited ones included. -/
abbrev Property (D O : Type) := Value D O → String → Value D O

/-- No field reads the record itself. -/
def fieldOf (property : Property D O) (record : Value D O) : Option String → Value D O
  | none => record
  | some field =>
      match record with
      | .null | .undefined => .undefined
      | record => property record field

/-! ### Numbers -/

/-- The decimal engine: parsing, checked addition and division, and the number
behind a decimal. -/
structure Arith (D : Type) where
  val : D → ℚ
  parse : String → Except String D
  add : D → D → Except String D
  div : D → Nat → Except String D

/-- The text of a value that is read as a number: every finite number, and the
strings that are one. -/
def numericText : Value D O → Option String
  | .number n => if isFinite n then some (numberText n) else none
  | .string s =>
      if strip s = "" ∨ isFinite (toNumber (strip s)) = false then none else some (strip s)
  | _ => none

/-- A decimal for a numeric value, nothing for one to skip. -/
def numOf (ar : Arith D) (v : Value D O) : Except String (Option D) :=
  match v with
  | .decimal d => .ok (some d)
  | v =>
      match numericText v with
      | some t => (ar.parse t).map some
      | none => .ok none

/-- Only numbers and strings have a text to parse. -/
theorem numOf_text (ar : Arith D) (v : Value D O) (t : String) (ht : numericText v = some t) :
    numOf ar v = (ar.parse t).map some := by
  cases v with
  | decimal d => cases ht
  | _ => simp only [numOf, ht]

theorem numOf_blank (ar : Arith D) (v : Value D O) (hv : ∀ d, v ≠ .decimal d)
    (ht : numericText v = none) : numOf ar v = .ok none := by
  cases v with
  | decimal d => exact absurd rfl (hv d)
  | _ => simp only [numOf, ht]

def moneyOf : Value D O → Option (Money D)
  | .money m => some m
  | _ => none

/-! ### Identity -/

/-- The renderings of the wrappers: a decimal with all its digits, and an
instant in universal time. -/
structure Texts (D : Type) where
  decimal : D → String
  iso : Int → String

/-- A wrapper's identity text, or the plain value itself. -/
def idOf (texts : Texts D) : Value D O → Value D O
  | .decimal d => .string (texts.decimal d)
  | .money m => .string (texts.decimal m.amount ++ " " ++ m.currency)
  | .datetime ms _ => .string (texts.iso ms)
  | .text s => .string s
  | v => v

/-- `===`: a number that is not one equals nothing. -/
def strictEq [DecidableEq D] [DecidableEq O] (a b : Value D O) : Bool :=
  a = b ∧ a ≠ .number .nan

def idEq [DecidableEq D] [DecidableEq O] (texts : Texts D) (a b : Value D O) : Bool :=
  strictEq (idOf texts a) (idOf texts b)

/-! ### Order -/

/-- A wrapper's ordering key, or the plain value itself. -/
def orderOf : Value D O → Value D O
  | .money m => .decimal m.amount
  | .datetime ms _ => .number (Number.ofRat ms)
  | .text s => .string s
  | v => v

end Runlet.ListUtil
