import Mathlib.Data.List.Lex
import Mathlib.Data.Sum.Order
import Runlet.Core.AggregateTexts
import Runlet.Core.Identity
import Runlet.Lib.StableSort

/-!
`sort_by` of `list.js`: records go to the array's own sort with a comparator over
the ordering keys of one field. Decimal keys compare exactly and all else with
`<`, for which a record without the field is on neither side of any other: the
comparator is a total preorder exactly when there is no such record, or nothing
to sort.
-/

namespace Runlet.ListUtil

open Binary64 DecimalOps MoneyUtil NumberText StableSort

variable {D O : Type}

/-! ### Comparing with `<` -/

/-- What `<` makes of a value before it compares. -/
inductive Primitive where
  | undefined
  | null
  | bool (b : Bool)
  | number (n : Number)
  | string (s : String)

def Primitive.toNumber : Primitive → Number
  | .undefined => .nan
  | .null => Number.ofRat 0
  | .bool b => Number.ofRat (if b then 1 else 0)
  | .number n => n
  | .string s => NumberText.toNumber s

/-- The UTF-16 code units of a text, by which texts compare. -/
def codeUnits (s : String) : List Nat :=
  s.toList.flatMap fun c =>
    if c.toNat < 65536 then [c.toNat]
    else [55296 + (c.toNat - 65536) / 1024, 56320 + (c.toNat - 65536) % 1024]

def numberLess : Number → Number → Bool
  | .finite a _, .finite b _ => a < b
  | .infinite negative, .finite _ _ => negative
  | .finite _ _, .infinite negative => !negative
  | .infinite a, .infinite b => a && !b
  | _, _ => false

def Primitive.less : Primitive → Primitive → Bool
  | .string a, .string b => codeUnits a < codeUnits b
  | a, b => numberLess a.toNumber b.toNumber

/-- A wrapper turns into its text; what other objects turn into is up to them. -/
def toPrimitive (texts : Texts D) (objects : O → Primitive) : Value D O → Primitive
  | .undefined => .undefined
  | .null => .null
  | .bool b => .bool b
  | .number n => .number n
  | .string s => .string s
  | .decimal d => .string (texts.decimal d)
  | .money m => .string (texts.decimal m.amount)
  | .datetime ms _ => .string (texts.iso ms)
  | .text s => .string s
  | .object o => objects o

/-! ### The comparator -/

section

variable (ar : Arith D) (texts : Texts D) (objects : O → Primitive)

def cmpOrder (a b : Value D O) : Int :=
  match orderOf a, orderOf b with
  | .decimal x, .decimal y => order (ar.val x) (ar.val y)
  | oa, ob =>
      if (toPrimitive texts objects oa).less (toPrimitive texts objects ob) then -1
      else if (toPrimitive texts objects ob).less (toPrimitive texts objects oa) then 1
      else 0

variable (property : Property D O) (field direction : Option String)

def dir : Int := if direction = some "desc" then -1 else 1

def comparator (a b : Value D O) : Int :=
  cmpOrder ar texts objects (fieldOf property a field) (fieldOf property b field) *
    dir direction

def isUndefined : Value D O → Bool
  | .undefined => true
  | _ => false

/-- `Array.prototype.sort` asks the comparator only about defined elements, and
puts the others last. -/
def arraySort (sort : (Value D O → Value D O → Int) → List (Value D O) → List (Value D O))
    (comparefn : Value D O → Value D O → Int) (array : List (Value D O)) : List (Value D O) :=
  sort (putLast isUndefined comparefn) array

def sortBy (sort : (Value D O → Value D O → Int) → List (Value D O) → List (Value D O))
    (records : List (Value D O)) : List (Value D O) :=
  arraySort sort (comparator ar texts objects property field direction) records

end

/-! ### What sorting is for -/

inductive Kind where
  | numbers
  | strings
  | amounts
  | instants
  deriving DecidableEq

/-- The kinds of values that can be put in order. The milliseconds of an instant
are a number of the script. -/
def kindOf : Value D O → Option Kind
  | .number n => if isFinite n then some .numbers else none
  | .string _ | .text _ => some .strings
  | .decimal _ | .money _ => some .amounts
  | .datetime ms _ => if (Number.ofRat ms).val? = some (ms : ℚ) then some .instants else none
  | _ => none

/-- What values of one kind are ordered by: their numbers, or the code units of
their texts. -/
def sortKey (ar : Arith D) : Value D O → Lex (ℚ ⊕ List Nat)
  | .number n => Sum.inlₗ (n.val?.getD 0)
  | .decimal d => Sum.inlₗ (ar.val d)
  | .money m => Sum.inlₗ (ar.val m.amount)
  | .datetime ms _ => Sum.inlₗ ms
  | .string s | .text s => Sum.inrₗ (codeUnits s)
  | _ => Sum.inlₗ 0

section

variable (ar : Arith D) (texts : Texts D) (objects : O → Primitive) (property : Property D O)
  (field direction : Option String)

def present (r : Value D O) : Bool := !isUndefined (fieldOf property r field)

def fieldKeyOf (r : Value D O) : Lex (ℚ ⊕ List Nat) := sortKey ar (fieldOf property r field)

/-- The records that have the field stand in order, equal ones as they came, and
none is lost or new. -/
structure SortedBy (records sorted : List (Value D O)) : Prop where
  perm : sorted.Perm records
  ordered : (sorted.filter (present property field)).Pairwise fun a b =>
    if direction = some "desc" then fieldKeyOf ar property field b ≤ fieldKeyOf ar property field a
    else fieldKeyOf ar property field a ≤ fieldKeyOf ar property field b
  stable : ∀ a ∈ records, present property field a = true →
    sorted.filter (fun b => present property field b &&
      decide (fieldKeyOf ar property field a = fieldKeyOf ar property field b)) =
    records.filter fun b => present property field b &&
      decide (fieldKeyOf ar property field a = fieldKeyOf ar property field b)

end

/-! ### The ordering keys of each kind -/

/-- Numbers are finite, and instants are script numbers. -/
theorem kindOf_number (n : Number) (kind : Kind)
    (hkind : kindOf (.number n : Value D O) = some kind) :
    kind = .numbers ∧ ∃ x, n.val? = some x := by
  have hite : (if isFinite n then some Kind.numbers else none) = some kind := hkind
  split at hite
  · rename_i hfinite
    cases hite
    exact ⟨rfl, Option.isSome_iff_exists.mp hfinite⟩
  · cases hite

theorem kindOf_datetime (ms : Int) (zone : Option String) (kind : Kind)
    (hkind : kindOf (.datetime ms zone : Value D O) = some kind) :
    kind = .instants ∧ (Number.ofRat ms).val? = some (ms : ℚ) := by
  have hite : (if (Number.ofRat ms).val? = some (ms : ℚ) then some Kind.instants else none) =
      some kind := hkind
  split at hite
  · rename_i hms
    cases hite
    exact ⟨rfl, hms⟩
  · cases hite

/-- The ordering key of a value, by its kind. -/
def KeyOf (ar : Arith D) (v : Value D O) : Kind → Prop
  | .numbers | .instants =>
      ∃ n x, n.val? = some x ∧ orderOf v = .number n ∧ sortKey ar v = Sum.inlₗ x
  | .strings => ∃ s, orderOf v = .string s ∧ sortKey ar v = Sum.inrₗ (codeUnits s)
  | .amounts => ∃ d, orderOf v = .decimal d ∧ sortKey ar v = Sum.inlₗ (ar.val d)

theorem keyOf_kind (ar : Arith D) (v : Value D O) (kind : Kind) (hv : kindOf v = some kind) :
    KeyOf ar v kind := by
  cases v with
  | number n =>
      obtain ⟨rfl, x, hx⟩ := kindOf_number n kind hv
      refine ⟨n, x, hx, rfl, ?_⟩
      show (Sum.inlₗ (n.val?.getD 0) : Lex (ℚ ⊕ List Nat)) = Sum.inlₗ x
      rw [hx]
      rfl
  | datetime ms zone =>
      obtain ⟨rfl, hms⟩ := kindOf_datetime ms zone kind hv
      exact ⟨Number.ofRat ms, ms, hms, rfl, rfl⟩
  | string s =>
      cases hv
      exact ⟨s, rfl, rfl⟩
  | text s =>
      cases hv
      exact ⟨s, rfl, rfl⟩
  | decimal d =>
      cases hv
      exact ⟨d, rfl, rfl⟩
  | money m =>
      cases hv
      exact ⟨m.amount, rfl, rfl⟩
  | undefined => cases hv
  | null => cases hv
  | bool b => cases hv
  | object o => cases hv

/-! ### Native comparison -/

theorem numberLess_nan (n : Number) : numberLess .nan n = false ∧ numberLess n .nan = false := by
  cases n <;> exact ⟨rfl, rfl⟩

/-- Nothing is on either side of what is missing. -/
theorem less_undefined (p : Primitive) :
    Primitive.undefined.less p = false ∧ p.less .undefined = false := by
  have hnumber : Primitive.undefined.less p = numberLess .nan p.toNumber ∧
      p.less .undefined = numberLess p.toNumber .nan := by
    cases p <;> exact ⟨rfl, rfl⟩
  rw [hnumber.1, hnumber.2]
  exact numberLess_nan p.toNumber

theorem less_number (a b : Number) (x y : ℚ) (ha : a.val? = some x) (hb : b.val? = some y) :
    (Primitive.number a).less (.number b) = decide (x < y) := by
  cases a with
  | nan => cases ha
  | infinite negative => cases ha
  | finite value isDouble =>
      cases b with
      | nan => cases hb
      | infinite negative => cases hb
      | finite value' isDouble' =>
          cases ha
          cases hb
          rfl

theorem order_inl (x y : ℚ) :
    order (Sum.inlₗ x : Lex (ℚ ⊕ List Nat)) (Sum.inlₗ y) = order x y :=
  order_eq_ite x y _ _ Sum.Lex.inl_lt_inl_iff Sum.Lex.inl_lt_inl_iff

theorem order_inr (x y : List Nat) :
    order (Sum.inrₗ x : Lex (ℚ ⊕ List Nat)) (Sum.inrₗ y) = order x y :=
  order_eq_ite x y _ _ Sum.Lex.inr_lt_inr_iff Sum.Lex.inr_lt_inr_iff

section

variable (ar : Arith D) (texts : Texts D) (objects : O → Primitive)

/-- Keys that are not both decimals compare with `<`. -/
theorem cmpOrder_native (a b : Value D O)
    (hnot : ∀ x y, orderOf a = .decimal x → orderOf b = .decimal y → False) :
    cmpOrder ar texts objects a b =
      if (toPrimitive texts objects (orderOf a)).less (toPrimitive texts objects (orderOf b)) then
        -1
      else if (toPrimitive texts objects (orderOf b)).less
        (toPrimitive texts objects (orderOf a)) then 1
      else 0 := by
  unfold cmpOrder
  split
  · rename_i x y ha hb
    exact absurd hb (fun hb => hnot x y ha hb)
  · rfl

theorem cmpOrder_decimal (a b : Value D O) (x y : D) (ha : orderOf a = .decimal x)
    (hb : orderOf b = .decimal y) :
    cmpOrder ar texts objects a b = order (ar.val x) (ar.val y) := by
  unfold cmpOrder
  rw [ha, hb]

theorem cmpOrder_number (a b : Value D O) (n m : Number) (x y : ℚ) (ha : orderOf a = .number n)
    (hb : orderOf b = .number m) (hn : n.val? = some x) (hm : m.val? = some y) :
    cmpOrder ar texts objects a b = order x y := by
  rw [cmpOrder_native ar texts objects a b (by
    intro _ _ hdecimal
    rw [ha] at hdecimal
    cases hdecimal), ha, hb]
  simp only [toPrimitive, less_number n m x y hn hm, less_number m n y x hm hn]
  exact order_eq_ite x y _ _ decide_eq_true_iff decide_eq_true_iff

theorem cmpOrder_string (a b : Value D O) (s t : String) (ha : orderOf a = .string s)
    (hb : orderOf b = .string t) :
    cmpOrder ar texts objects a b = order (codeUnits s) (codeUnits t) := by
  rw [cmpOrder_native ar texts objects a b (by
    intro _ _ hdecimal
    rw [ha] at hdecimal
    cases hdecimal), ha, hb]
  simp only [toPrimitive, Primitive.less]
  exact order_eq_ite (codeUnits s) (codeUnits t) _ _ decide_eq_true_iff decide_eq_true_iff

/-- A record without the field compares equal to every other. -/
theorem cmpOrder_undefined (a b : Value D O)
    (h : isUndefined a = true ∨ isUndefined b = true) : cmpOrder ar texts objects a b = 0 := by
  have hundefined : ∀ v : Value D O, isUndefined v = true → v = .undefined := by
    intro v hv
    cases v <;> first | rfl | cases hv
  rcases h with h | h
  · rw [hundefined a h, cmpOrder_native ar texts objects .undefined b (by
      intro _ _ hdecimal
      cases hdecimal)]
    simp only [orderOf, toPrimitive, less_undefined]
    rfl
  · rw [hundefined b h, cmpOrder_native ar texts objects a .undefined (by
      intro _ _ _ hdecimal
      cases hdecimal)]
    simp only [orderOf, toPrimitive, less_undefined]
    rfl

/-- Values of one kind compare by their sort keys. -/
theorem cmpOrder_kind (a b : Value D O) (kind : Kind) (ha : kindOf a = some kind)
    (hb : kindOf b = some kind) :
    cmpOrder ar texts objects a b = order (sortKey ar a) (sortKey ar b) := by
  have hkey := keyOf_kind ar a kind ha
  have hkey' := keyOf_kind ar b kind hb
  cases kind with
  | numbers =>
      obtain ⟨n, x, hn, ha, hkey⟩ := hkey
      obtain ⟨m, y, hm, hb, hkey'⟩ := hkey'
      rw [cmpOrder_number ar texts objects a b n m x y ha hb hn hm, hkey, hkey', order_inl]
  | strings =>
      obtain ⟨s, ha, hkey⟩ := hkey
      obtain ⟨t, hb, hkey'⟩ := hkey'
      rw [cmpOrder_string ar texts objects a b s t ha hb, hkey, hkey', order_inr]
  | amounts =>
      obtain ⟨x, ha, hkey⟩ := hkey
      obtain ⟨y, hb, hkey'⟩ := hkey'
      rw [cmpOrder_decimal ar texts objects a b x y ha hb, hkey, hkey', order_inl]
  | instants =>
      obtain ⟨n, x, hn, ha, hkey⟩ := hkey
      obtain ⟨m, y, hm, hb, hkey'⟩ := hkey'
      rw [cmpOrder_number ar texts objects a b n m x y ha hb hn hm, hkey, hkey', order_inl]

end

/-! ### The comparator on records of one kind -/

section

variable (ar : Arith D) (texts : Texts D) (objects : O → Primitive) (property : Property D O)
  (field direction : Option String)

theorem not_present_undefined (r : Value D O) (hr : isUndefined r = true) :
    present property field r = false := by
  cases r with
  | undefined => cases field <;> rfl
  | _ => cases hr

theorem comparator_absent (a b : Value D O)
    (h : present property field a = false ∨ present property field b = false) :
    comparator ar texts objects property field direction a b = 0 := by
  have hmissing : ∀ r, present property field r = false →
      isUndefined (fieldOf property r field) = true := by
    intro r hr
    unfold present at hr
    simpa using hr
  unfold comparator
  rw [cmpOrder_undefined ar texts objects _ _ (h.imp (hmissing a) (hmissing b)), Int.zero_mul]

/-- The sign of two keys, in the direction of the sort. -/
theorem order_dir_le_zero (x y : Lex (ℚ ⊕ List Nat)) :
    order x y * dir direction ≤ 0 ↔ if direction = some "desc" then y ≤ x else x ≤ y := by
  unfold dir
  split
  · rw [← order_le_zero y x, order_comm x y]
    omega
  · rw [← order_le_zero x y]
    omega

theorem order_dir_eq_zero (x y : Lex (ℚ ⊕ List Nat)) :
    order x y * dir direction = 0 ↔ x = y := by
  rw [← order_eq_zero x y]
  unfold dir
  split <;> omega

/-- The direction does not matter for being a total preorder. -/
theorem totalPreorder_direction (records : List (Value D O)) (other : Option String)
    (h : TotalPreorder (comparator ar texts objects property field direction) records) :
    TotalPreorder (comparator ar texts objects property field other) records := by
  have hdir : dir other = dir direction ∨ dir other = dir direction * -1 := by
    unfold dir
    split <;> split <;> decide
  rcases hdir with hdir | hdir
  · apply totalPreorder_congr _ h
    intro a _ b _
    unfold comparator
    rw [hdir]
  · apply totalPreorder_congr _ h.reverse
    intro a _ b _
    unfold comparator
    rw [hdir, mul_assoc]

variable (kind : Kind) (records : List (Value D O))
  (hkind : ∀ r ∈ records, isUndefined (fieldOf property r field) = true ∨
    kindOf (fieldOf property r field) = some kind)

include hkind

theorem comparator_present (a b : Value D O) (ha : a ∈ records) (hb : b ∈ records)
    (hpa : present property field a = true) (hpb : present property field b = true) :
    comparator ar texts objects property field direction a b =
      order (fieldKeyOf ar property field a) (fieldKeyOf ar property field b) *
        dir direction := by
  have hpresent : ∀ r ∈ records, present property field r = true →
      kindOf (fieldOf property r field) = some kind := by
    intro r hr hp
    rcases hkind r hr with hmissing | hk
    · unfold present at hp
      rw [hmissing] at hp
      cases hp
    · exact hk
  unfold comparator
  rw [cmpOrder_kind ar texts objects _ _ kind (hpresent a ha hpa) (hpresent b hb hpb)]
  rfl

/-- A record without the field ties what it stands between. -/
theorem same_key_of_preorder
    (h : TotalPreorder (comparator ar texts objects property field direction) records)
    (m : Value D O) (hm : m ∈ records) (hmissing : present property field m = false)
    (a b : Value D O) (ha : a ∈ records) (hb : b ∈ records)
    (hpa : present property field a = true) (hpb : present property field b = true) :
    fieldKeyOf ar property field a = fieldKeyOf ar property field b := by
  have hpre := totalPreorder_direction ar texts objects property field direction records none h
  have hle : ∀ x ∈ records, ∀ y ∈ records, present property field x = true →
      present property field y = true →
      fieldKeyOf ar property field x ≤ fieldKeyOf ar property field y := by
    intro x hx y hy hpx hpy
    have hthrough := hpre.trans x hx m hm y hy
      (comparator_absent ar texts objects property field none x m (.inr hmissing)).le
      (comparator_absent ar texts objects property field none m y (.inl hmissing)).le
    rw [comparator_present ar texts objects property field none kind records hkind x y hx hy hpx
      hpy, show dir none = 1 from rfl, mul_one, order_le_zero] at hthrough
    exact hthrough
  exact le_antisymm (hle a ha b hb hpa hpb) (hle b hb a ha hpb hpa)

/-- With nothing missing records compare by their keys; with one key for all they
all compare equal. -/
theorem preorder_of_present (h : (∀ r ∈ records, present property field r = true) ∨
      ∀ a ∈ records, ∀ b ∈ records, present property field a = true →
        present property field b = true →
        fieldKeyOf ar property field a = fieldKeyOf ar property field b) :
    TotalPreorder (comparator ar texts objects property field direction) records := by
  apply totalPreorder_direction ar texts objects property field none
  rcases h with hall | hsame
  · apply totalPreorder_congr _ (totalPreorder_order (fieldKeyOf ar property field) records)
    intro a ha b hb
    rw [comparator_present ar texts objects property field none kind records hkind a b ha hb
      (hall a ha) (hall b hb)]
    exact mul_one _
  · apply totalPreorder_congr _ (totalPreorder_order (fun _ => (0 : Nat)) records)
    intro a ha b hb
    show _ = 0
    cases hpa : present property field a with
    | false => exact comparator_absent ar texts objects property field none a b (.inl hpa)
    | true =>
        cases hpb : present property field b with
        | false => exact comparator_absent ar texts objects property field none a b (.inr hpb)
        | true =>
            rw [comparator_present ar texts objects property field none kind records hkind a b ha
              hb hpa hpb, (order_eq_zero _ _).mpr (hsame a ha b hb hpa hpb)]
            rfl

/-- What a sort owes a total preorder, read as the order of the field. -/
theorem sortedBy_of_stableSorted (sorted : List (Value D O))
    (hsorted : StableSorted
      (putLast isUndefined (comparator ar texts objects property field direction)) records
      sorted) :
    SortedBy ar property field direction records sorted := by
  obtain ⟨hperm, hordered, hstable⟩ := hsorted
  have hdefined : ∀ r, present property field r = true → isUndefined r = false := by
    intro r hr
    by_contra hu
    rw [not_present_undefined property field r (Bool.not_eq_false _ ▸ hu)] at hr
    cases hr
  have hsign : ∀ a ∈ records, ∀ b ∈ records, present property field a = true →
      present property field b = true →
      putLast isUndefined (comparator ar texts objects property field direction) a b =
        order (fieldKeyOf ar property field a) (fieldKeyOf ar property field b) *
          dir direction := by
    intro a ha b hb hpa hpb
    rw [putLast_of_not _ _ a b (hdefined a hpa) (hdefined b hpb)]
    exact comparator_present ar texts objects property field direction kind records hkind a b ha
      hb hpa hpb
  refine ⟨hperm, ?_, ?_⟩
  · apply (hordered.filter _).imp_of_mem
    intro a b ha hb hle
    obtain ⟨ha, hpa⟩ := List.mem_filter.mp ha
    obtain ⟨hb, hpb⟩ := List.mem_filter.mp hb
    rw [hsign a (hperm.mem_iff.mp ha) b (hperm.mem_iff.mp hb) hpa hpb] at hle
    exact (order_dir_le_zero direction _ _).mp hle
  · intro a ha hpa
    -- Equal present records are the present ones among those that compare equal.
    have hsame : ∀ b ∈ records, (present property field b &&
        decide (fieldKeyOf ar property field a = fieldKeyOf ar property field b)) =
        (present property field b && decide (putLast isUndefined
          (comparator ar texts objects property field direction) a b = 0)) := by
      intro b hb
      cases hpb : present property field b with
      | false => rfl
      | true =>
          simp only [hsign a ha b hb hpa hpb, order_dir_eq_zero]
    rw [List.filter_congr fun b hb => hsame b (hperm.mem_iff.mp hb), List.filter_congr hsame,
      ← List.filter_filter, ← List.filter_filter]
    exact congrArg (List.filter (present property field)) (hstable a ha)

end

/-- Over a field of one kind, `sort_by` compares by a total preorder and sorts
stably exactly when no record lacks the field, or all values are the same. -/
theorem sort_by_iff (ar : Arith D) (texts : Texts D) (objects : O → Primitive)
    (property : Property D O) (field direction : Option String) (kind : Kind)
    (records : List (Value D O))
    (hkind : ∀ r ∈ records, isUndefined (fieldOf property r field) = true ∨
      kindOf (fieldOf property r field) = some kind) :
    (TotalPreorder (comparator ar texts objects property field direction) records ∧
      ∀ sort, Sorts sort → SortedBy ar property field direction records
        (sortBy ar texts objects property field direction sort records)) ↔
    (∀ r ∈ records, present property field r = true) ∨
      ∀ a ∈ records, ∀ b ∈ records, present property field a = true →
        present property field b = true →
        fieldKeyOf ar property field a = fieldKeyOf ar property field b := by
  constructor
  · rintro ⟨hpre, -⟩
    by_cases hall : ∀ r ∈ records, present property field r = true
    · exact .inl hall
    · obtain ⟨m, hm, hmissing⟩ : ∃ m ∈ records, ¬ present property field m = true := by
        by_contra hnone
        exact hall fun r hr => by_contra fun hr' => hnone ⟨r, hr, hr'⟩
      right
      intro a ha b hb
      exact same_key_of_preorder ar texts objects property field direction kind records hkind hpre
        m hm (Bool.eq_false_of_not_eq_true hmissing) a b ha hb
  · intro h
    have hpre := preorder_of_present ar texts objects property field direction kind records hkind h
    refine ⟨hpre, ?_⟩
    intro sort hsort
    apply sortedBy_of_stableSorted ar texts objects property field direction kind records hkind
    exact hsort.sorted _ records (hpre.putLast isUndefined)

/-- Records with a price or none. -/
def price : Property Decimal (Option Nat)
  | .object (some n), "price" => .number (Number.ofRat n)
  | _, _ => .undefined

/-- Objects as the texts they turn into. -/
def objectText : Option Nat → Primitive := fun _ => .string "[object Object]"

/-- Two records cost the same. -/
def priced : List (Value Decimal (Option Nat)) :=
  [.object (some 1), .object (some 3), .object (some 1)]

theorem sort_by_iff_prices :
    SortedBy (libArith plainLib) price (some "price") (some "desc") priced
      (sortBy (libArith plainLib) sampleTexts objectText price (some "price") (some "desc")
        (fun cmp xs => xs.insertionSort fun a b => cmp a b ≤ 0) priced) := by
  have hkind : priced.all fun r =>
      kindOf (fieldOf price r (some "price")) = some .numbers := by decide +kernel
  have hpresent : priced.all fun r => present price (some "price") r := by decide +kernel
  refine ((sort_by_iff (libArith plainLib) sampleTexts objectText price (some "price")
    (some "desc") .numbers priced ?_).mpr (.inl ?_)).2 _ insertionSort_sorts
  · intro r hr
    exact .inr (of_decide_eq_true (List.all_eq_true.mp hkind r hr))
  · exact List.all_eq_true.mp hpresent

/-- The record in the middle has no price. -/
def gap : List (Value Decimal (Option Nat)) :=
  [.object (some 2), .object none, .object (some 1)]

/-- It keeps the records around it from being compared: nothing is moved. -/
theorem missing_breaks_order :
    Sorts (fun (cmp : Value Decimal (Option Nat) → Value Decimal (Option Nat) → Int) xs =>
      xs.insertionSort fun a b => cmp a b ≤ 0) ∧
    sortBy (libArith plainLib) sampleTexts objectText price (some "price") none
      (fun cmp xs => xs.insertionSort fun a b => cmp a b ≤ 0) gap = gap ∧
    ¬ TotalPreorder (comparator (libArith plainLib) sampleTexts objectText price (some "price")
      none) gap ∧
    ¬ SortedBy (libArith plainLib) price (some "price") none gap gap := by
  refine ⟨insertionSort_sorts, ?_, ?_, ?_⟩
  · decide +kernel
  · intro hpre
    have hle := hpre.trans (.object (some 2)) (by simp [gap]) (.object none) (by simp [gap])
      (.object (some 1)) (by simp [gap]) (by decide +kernel) (by decide +kernel)
    revert hle
    decide +kernel
  · intro hsorted
    have hordered := hsorted.ordered
    revert hordered
    decide +kernel

end Runlet.ListUtil
