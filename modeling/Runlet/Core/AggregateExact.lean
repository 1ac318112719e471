import Runlet.Core.AggregateTexts
import Runlet.Lib.DecimalRounding

/-!
Exact sums. Every number is read and every addition rounds to the nearest decimal,
so a sum is exact while the single values and the running totals are decimals
themselves: for all that a sum goes through at once, exactly when they are.
-/

namespace Runlet.ListUtil

open DecimalFormat DecimalOps MoneyUtil NumberText Text

variable {O : Type}

/-- The number a value adds to a sum. -/
def numericValue : Value Decimal O → Option ℚ
  | .decimal d => some d.val
  | v => decimalNumber v

/-- The sum of the amounts when there is money, of the numbers otherwise. -/
def exactSum (values : List (Value Decimal O)) : ℚ :=
  match moneys values with
  | [] => (values.filterMap numericValue).sum
  | amounts => (amounts.map fun m => m.amount.val).sum

/-- A total that is the sum: money once there is money, in the currency of every
amount. -/
def IsExact (values : List (Value Decimal O)) : Amount Decimal → Prop
  | .decimal d => moneys values = [] ∧ d.val = exactSum values
  | .money m => moneys values ≠ [] ∧ m.amount.val = exactSum values ∧
      ∀ x ∈ moneys values, x.currency = m.currency

/-- Whatever the sum returns is exact, with every library that rounds. -/
def SumExact (values : List (Value Decimal O)) : Prop :=
  ∀ (lib : DecimalLib) (exponents : String → Prop), lib.Lawful → ReadsDecimals lib exponents →
    ∀ total, sum (libArith lib) values = .ok total → IsExact values total

/-- What stands before the first money value can be read, and money is of one
currency. -/
structure Readable (values : List (Value Decimal O)) : Prop where
  number : ∀ before v after, values = before ++ v :: after → moneys before = [] →
    (numericText v).isSome →
    ∃ q, decimalNumber v = some q ∧ InRange 79228162514264337593543950335 q
  currency : ∀ a ∈ moneys values, ∀ b ∈ moneys values, a.currency = b.currency

/-- What a sum goes through: the values up to each of them, and each one before any
money alone. -/
inductive Reached (values : List (Value Decimal O)) : List (Value Decimal O) → Prop where
  | total (front : List (Value Decimal O)) (hfront : front <+: values) : Reached values front
  | single (before : List (Value Decimal O)) (v : Value Decimal O)
      (after : List (Value Decimal O)) (hsplit : values = before ++ v :: after)
      (hnone : moneys before = []) : Reached values [v]

/-- The sum of all that is reached and can be added up in range is a decimal. -/
def SumsAreDecimals (values : List (Value Decimal O)) : Prop :=
  ∀ part, Reached values part → Readable part →
    (∀ front, front <+: part → InRange 79228162514264337593543950335 (exactSum front)) →
    ∃ e : Decimal, e.val = exactSum part

theorem Reached.trans {values part inner : List (Value Decimal O)} (hpart : Reached values part)
    (hinner : Reached part inner) : Reached values inner := by
  cases hpart with
  | total front hfront =>
      cases hinner with
      | total inner hinner => exact .total inner (hinner.trans hfront)
      | single before v after hsplit hnone =>
          obtain ⟨rest, rfl⟩ := hfront
          refine .single before v (after ++ rest) ?_ hnone
          rw [hsplit, List.append_assoc, List.cons_append]
  | single before v after hsplit hnone =>
      cases hinner with
      | total inner hinner =>
          rcases List.prefix_cons_iff.mp hinner with rfl | ⟨tail, rfl, htail⟩
          · exact .total [] List.nil_prefix
          · rw [List.prefix_nil.mp htail]
            exact .single before v after hsplit hnone
      | single front w behind hsplit' hnone' =>
          obtain ⟨-, heq⟩ := List.append_eq_singleton_iff.mp hsplit'.symm |>.resolve_right (by
            rintro ⟨-, heq⟩
            cases heq)
          obtain ⟨rfl, -⟩ := List.cons.inj heq
          exact .single before w after hsplit hnone

/-! ### One more value -/

theorem moneys_concat (front : List (Value Decimal O)) (v : Value Decimal O) :
    moneys (front ++ [v]) = moneys front ++ (moneyOf v).toList := by
  unfold moneys
  rw [List.filterMap_append]
  cases hv : moneyOf v <;> simp [hv]

theorem numericText_money (v : Value Decimal O) (m : Money Decimal) (hv : moneyOf v = some m) :
    numericText v = none := by
  cases v <;> first | rfl | cases hv

theorem exactSum_of_none (values : List (Value Decimal O)) (hnone : moneys values = []) :
    exactSum values = (values.filterMap numericValue).sum := by
  unfold exactSum
  rw [hnone]

theorem exactSum_of_money (values : List (Value Decimal O)) (hmoney : moneys values ≠ []) :
    exactSum values = ((moneys values).map fun m => m.amount.val).sum := by
  unfold exactSum
  split
  · rename_i hnone
    exact absurd hnone hmoney
  · rfl

theorem exactSum_number (front : List (Value Decimal O)) (v : Value Decimal O)
    (hnone : moneys front = []) (hv : moneyOf v = none) :
    exactSum (front ++ [v]) = exactSum front + (numericValue v).getD 0 := by
  have hafter : moneys (front ++ [v]) = [] := by
    rw [moneys_concat, hnone, hv]
    rfl
  rw [exactSum_of_none _ hafter, exactSum_of_none _ hnone, List.filterMap_append,
    List.sum_append]
  cases hq : numericValue v <;> simp [hq]

theorem exactSum_first (front : List (Value Decimal O)) (v : Value Decimal O) (m : Money Decimal)
    (hnone : moneys front = []) (hv : moneyOf v = some m) :
    exactSum (front ++ [v]) = m.amount.val := by
  have hafter : moneys (front ++ [v]) = [m] := by
    rw [moneys_concat, hnone, hv]
    rfl
  rw [exactSum_of_money _ (by rw [hafter]; simp), hafter]
  simp

theorem exactSum_money (front : List (Value Decimal O)) (v : Value Decimal O)
    (hmoney : moneys front ≠ []) :
    exactSum (front ++ [v]) =
      exactSum front + ((moneyOf v).map fun m => m.amount.val).getD 0 := by
  have hafter : moneys (front ++ [v]) ≠ [] := by
    rw [moneys_concat]
    exact List.append_ne_nil_of_left_ne_nil hmoney _
  rw [exactSum_of_money _ hafter, exactSum_of_money _ hmoney, moneys_concat, List.map_append,
    List.sum_append]
  cases hv : moneyOf v <;> simp

/-- What reading a value that is no money can do. -/
theorem numOf_cases (lib : DecimalLib) (v : Value Decimal O) (hv : moneyOf v = none) :
    (numericValue v = none ∧ numOf (libArith lib) v = .ok none ∧ numericText v = none) ∨
    (∃ d, numericValue v = some d.val ∧ numOf (libArith lib) v = .ok (some d) ∧
      numericText v = none) ∨
    ∃ t, numericText v = some t ∧ numericValue v = decimalValue (trim t) ∧
      numOf (libArith lib) v = ((libArith lib).parse t).map some := by
  by_cases hdecimal : ∃ d, v = .decimal d
  · obtain ⟨d, rfl⟩ := hdecimal
    exact .inr (.inl ⟨d, rfl, rfl, rfl⟩)
  · have hvalue : numericValue v = decimalNumber v := by
      cases v <;> first | rfl | exact absurd ⟨_, rfl⟩ hdecimal
    cases ht : numericText v with
    | none =>
        refine .inl ⟨?_, numOf_blank _ v (fun d hd => hdecimal ⟨d, hd⟩) ht, rfl⟩
        rw [hvalue, decimalNumber, ht, Option.bind_none]
    | some t =>
        refine .inr (.inr ⟨t, rfl, ?_, numOf_text _ v t ht⟩)
        rw [hvalue, decimalNumber_text v t ht]

/-! ### Parts that can be added up -/

/-- The two conditions on a part. -/
structure Adds (values : List (Value Decimal O)) : Prop where
  readable : Readable values
  inRange : ∀ front, front <+: values →
    InRange 79228162514264337593543950335 (exactSum front)

theorem exactSum_nil : exactSum ([] : List (Value Decimal O)) = 0 := rfl

theorem inRange_val (d : Decimal) : InRange 79228162514264337593543950335 d.val :=
  d.abs_val_le.trans_lt (lt_add_one _)

theorem adds_nil : Adds ([] : List (Value Decimal O)) where
  readable := ⟨fun before v after h => by simp at h, fun a ha => by simp at ha⟩
  inRange := by
    intro front hfront
    rw [List.prefix_nil.mp hfront, exactSum_nil]
    have hzero := inRange_val zero
    rwa [show zero.val = 0 from Dec.ofInt_val 0 _] at hzero

theorem adds_concat (front : List (Value Decimal O)) (v : Value Decimal O) (hadds : Adds front)
    (hplain : moneys front = [] → (numericText v).isSome →
      ∃ q, decimalNumber v = some q ∧ InRange 79228162514264337593543950335 q)
    (hcurrency : ∀ m, moneyOf v = some m → ∀ x ∈ moneys front, x.currency = m.currency)
    (hrange : InRange 79228162514264337593543950335 (exactSum (front ++ [v]))) :
    Adds (front ++ [v]) := by
  refine ⟨⟨?_, ?_⟩, ?_⟩
  · intro before x after hsplit hnone hsome
    rcases List.eq_nil_or_concat after with rfl | ⟨rest, last, rfl⟩
    · obtain ⟨rfl, hx⟩ := List.append_inj' hsplit rfl
      obtain ⟨rfl, -⟩ := List.cons.inj hx
      exact hplain hnone hsome
    · rw [List.concat_eq_append, ← List.cons_append, ← List.append_assoc] at hsplit
      obtain ⟨hfront, -⟩ := List.append_inj' hsplit rfl
      exact hadds.readable.number before x rest hfront hnone hsome
  · intro a ha b hb
    rw [moneys_concat, List.mem_append, Option.mem_toList] at ha hb
    rcases ha with ha | ha
    · rcases hb with hb | hb
      · exact hadds.readable.currency a ha b hb
      · exact hcurrency b hb a ha
    · rcases hb with hb | hb
      · exact (hcurrency a ha b hb).symm
      · rw [ha] at hb
        cases hb
        rfl
  · intro pre hpre
    rcases List.prefix_concat_iff.mp hpre with rfl | hpre
    · exact hrange
    · exact hadds.inRange pre hpre

/-- One value that stands alone. -/
theorem adds_single (v : Value Decimal O) (hv : moneyOf v = none) (q : ℚ)
    (hvalue : numericValue v = some q)
    (hplain : (numericText v).isSome → decimalNumber v = some q)
    (hrange : InRange 79228162514264337593543950335 q) :
    Adds [v] ∧ exactSum [v] = q := by
  have hsum : exactSum ([] ++ [v]) = q := by
    rw [exactSum_number [] v rfl hv, hvalue, exactSum_nil, zero_add]
    rfl
  refine ⟨adds_concat [] v adds_nil (fun _ hsome => ⟨q, hplain hsome, hrange⟩) ?_ ?_, hsum⟩
  · intro m _ x hx
    cases hx
  · rw [hsum]
    exact hrange

/-! ### Sums that are decimals are exact -/

/-- What a sum returns of its totals. -/
def Totals.amount (t : Totals Decimal) : Amount Decimal :=
  match t.money with
  | some total => .money total
  | none => .decimal t.dec

theorem Totals.amount_none (t : Totals Decimal) (ht : t.money = none) :
    t.amount = .decimal t.dec := by
  unfold Totals.amount
  rw [ht]

theorem Totals.amount_some (t : Totals Decimal) (m : Money Decimal) (ht : t.money = some m) :
    t.amount = .money m := by
  unfold Totals.amount
  rw [ht]

theorem sum_eq_ok_iff (ar : Arith Decimal) (values : List (Value Decimal O))
    (total : Amount Decimal) :
    sum ar values = .ok total ↔ ∃ t, totals ar values = .ok t ∧ t.amount = total := by
  have hsum : sum ar values = totals ar values >>= fun t => .ok t.amount := by
    unfold sum Totals.amount
    congr 1
    funext t
    cases t.money <;> rfl
  rw [hsum, bind_eq_ok_iff]
  simp only [Except.ok.injEq]

theorem totals_concat (ar : Arith Decimal) (front : List (Value Decimal O))
    (v : Value Decimal O) :
    totals ar (front ++ [v]) = totals ar front >>= fun t => totalStep ar t v := by
  unfold totals
  cases ar.parse "0" with
  | error err => rfl
  | ok zero =>
      show (front ++ [v]).foldlM (totalStep ar) _ = _ >>= _
      rw [List.foldlM_append]
      simp only [List.foldlM_cons, List.foldlM_nil, bind_pure]
      rfl

/-- A text that was accepted has a value in range, to which the decimal is closest. -/
theorem parse_inRange {lib : DecimalLib} {exponents : String → Prop}
    (hreads : ReadsDecimals lib exponents) (t : String) (d : Decimal)
    (hok : (libArith lib).parse t = .ok d) :
    ∃ q, decimalValue (trim t) = some q ∧ InRange 79228162514264337593543950335 q ∧
      Closest q d := by
  have hstr := (parse_ok_iff lib t d).mp hok
  cases hvalue : decimalValue (trim t) with
  | none =>
      have hunknown : ¬ Known exponents (trim t) := by
        intro hknown
        obtain ⟨q, hq⟩ := hknown.value
        rw [hvalue] at hq
        cases hq
      obtain ⟨err, herr⟩ := hreads.rejects (trim t) hunknown
      rw [herr] at hstr
      cases hstr
  | some q =>
      refine ⟨q, rfl, ?_, hreads.closest (trim t) q d hvalue hstr⟩
      by_contra hlarge
      have hlarge : 79228162514264337593543950336 ≤ |q| := by
        have := not_lt.mp hlarge
        push_cast at this
        linarith
      obtain ⟨err, herr⟩ := hreads.overflows (trim t) q hvalue hlarge
      rw [herr] at hstr
      cases hstr

section

variable (lib : DecimalLib) {exponents : String → Prop} (hlib : lib.Lawful)
  (hreads : ReadsDecimals lib exponents)

include hreads in
/-- A value alone is a decimal, so reading it rounds nothing. -/
theorem numOf_exact (v : Value Decimal O) (hv : moneyOf v = none)
    (halone : Adds [v] → ∃ e : Decimal, e.val = exactSum [v]) (d : Decimal)
    (hok : numOf (libArith lib) v = .ok (some d)) :
    numericValue v = some d.val ∧ ((numericText v).isSome → decimalNumber v = some d.val) := by
  rcases numOf_cases lib v hv with ⟨-, hnone, -⟩ | ⟨e, he, hnum, htext⟩ | ⟨t, ht, hvalue, hnum⟩
  · rw [hnone] at hok
    cases hok
  · rw [hnum] at hok
    cases hok
    refine ⟨he, fun hsome => ?_⟩
    rw [htext] at hsome
    cases hsome
  · have hparse : (libArith lib).parse t = .ok d := by
      rw [hnum] at hok
      cases hp : (libArith lib).parse t with
      | error err =>
          rw [hp] at hok
          cases hok
      | ok e =>
          rw [hp] at hok
          cases hok
          rfl
    obtain ⟨q, hq, hrange, hclose⟩ := parse_inRange hreads t d hparse
    have hplain : decimalNumber v = some q := (decimalNumber_text v t ht).trans hq
    obtain ⟨hadds, hsum⟩ := adds_single v hv q (hvalue.trans hq) (fun _ => hplain) hrange
    obtain ⟨e, he⟩ := halone hadds
    have hexact := hclose.exact e (he.trans hsum)
    rw [hexact]
    exact ⟨hvalue.trans hq, fun _ => hplain⟩

theorem addMoney_eq_ok_iff (total m next : Money Decimal) :
    addMoney (libArith lib) total m = .ok next ↔
      total.currency = m.currency ∧ next.currency = total.currency ∧
        lib.checkedAdd total.amount m.amount = some next.amount := by
  unfold addMoney sameCurrency
  by_cases hsame : total.currency = m.currency
  · rw [if_neg (not_not.mpr hsame)]
    constructor
    · intro hok
      obtain ⟨-, -, hok⟩ := (bind_eq_ok_iff _ _ _).mp hok
      obtain ⟨amount, hamount, hok⟩ := (bind_eq_ok_iff _ _ _).mp hok
      cases hok
      exact ⟨hsame, rfl, (okOr_eq_ok _ _).mp hamount⟩
    · rintro ⟨-, hkeep, hadd⟩
      apply (bind_eq_ok_iff _ _ _).mpr
      refine ⟨(), rfl, (bind_eq_ok_iff _ _ _).mpr ⟨next.amount, (okOr_eq_ok _ _).mpr hadd, ?_⟩⟩
      rw [← hkeep]
      rfl
  · rw [if_pos hsame]
    constructor
    · intro hok
      cases hok
    · exact fun hok => absurd hok.1 hsame

theorem numOf_eq_none (v : Value Decimal O) (hv : moneyOf v = none)
    (hok : numOf (libArith lib) v = .ok none) : numericValue v = none ∧ numericText v = none := by
  rcases numOf_cases lib v hv with ⟨hvalue, -, htext⟩ | ⟨d, -, hnum, -⟩ | ⟨t, -, -, hnum⟩
  · exact ⟨hvalue, htext⟩
  · rw [hnum] at hok
    cases hok
  · rw [hnum] at hok
    cases hp : (libArith lib).parse t <;> rw [hp] at hok <;> cases hok

/-- The first money value of a column becomes the total. -/
theorem isExact_first (front : List (Value Decimal O)) (v : Value Decimal O) (m : Money Decimal)
    (hv : moneyOf v = some m) (hadds : Adds front) (hnone : moneys front = []) :
    Adds (front ++ [v]) ∧ IsExact (front ++ [v]) (.money m) := by
  have hfirst := exactSum_first front v m hnone hv
  have hafter : moneys (front ++ [v]) = [m] := by
    rw [moneys_concat, hnone, hv]
    rfl
  constructor
  · apply adds_concat front v hadds
    · intro _ hsome
      rw [numericText_money v m hv] at hsome
      cases hsome
    · intro x _ y hy
      rw [hnone] at hy
      cases hy
    · rw [hfirst]
      exact inRange_val m.amount
  · refine ⟨?_, hfirst.symm, ?_⟩
    · rw [hafter]
      apply List.cons_ne_nil
    · intro x hx
      rw [hafter] at hx
      rw [List.mem_singleton.mp hx]

/-- A value that is no money changes nothing once there is money. -/
theorem isExact_skip (front : List (Value Decimal O)) (v : Value Decimal O) (total : Money Decimal)
    (hv : moneyOf v = none) (hadds : Adds front) (hexact : IsExact front (.money total)) :
    Adds (front ++ [v]) ∧ IsExact (front ++ [v]) (.money total) := by
  obtain ⟨hmoney, hval, hcurrency⟩ := hexact
  have hsum := exactSum_money front v hmoney
  rw [hv, Option.map_none, Option.getD_none, add_zero] at hsum
  have hkept : moneys (front ++ [v]) = moneys front := by
    rw [moneys_concat, hv]
    exact List.append_nil _
  constructor
  · apply adds_concat front v hadds (fun hnone => absurd hnone hmoney)
    · intro m hm
      rw [hv] at hm
      cases hm
    · rw [hsum]
      exact hadds.inRange front (List.prefix_refl front)
  · unfold IsExact
    rw [hkept, hsum]
    exact ⟨hmoney, hval, hcurrency⟩

include hlib in
/-- More money: the sum of the two amounts is not rounded when it is a decimal. -/
theorem isExact_money (front : List (Value Decimal O)) (v : Value Decimal O)
    (total m next : Money Decimal) (hv : moneyOf v = some m) (hadds : Adds front)
    (hexact : IsExact front (.money total))
    (hdecimal : Adds (front ++ [v]) → ∃ e : Decimal, e.val = exactSum (front ++ [v]))
    (hok : addMoney (libArith lib) total m = .ok next) :
    Adds (front ++ [v]) ∧ IsExact (front ++ [v]) (.money next) := by
  obtain ⟨hmoney, hval, hcurrency⟩ := hexact
  have hsum := exactSum_money front v hmoney
  rw [hv, Option.map_some, Option.getD_some, ← hval] at hsum
  obtain ⟨hsame, hkeep, hadd⟩ := (addMoney_eq_ok_iff lib total m next).mp hok
  have hrounds := hlib.add total.amount m.amount
  rw [hadd, ← hsum] at hrounds
  have hnext : Adds (front ++ [v]) := by
    apply adds_concat front v hadds (fun hnone => absurd hnone hmoney) _ hrounds.inRange
    intro x hx y hy
    rw [hv, Option.some_inj] at hx
    rw [hcurrency y hy, hsame, hx]
  obtain ⟨e, he⟩ := hdecimal hnext
  refine ⟨hnext, ?_, hrounds.exact e he, ?_⟩
  · rw [moneys_concat]
    exact List.append_ne_nil_of_left_ne_nil hmoney _
  · intro x hx
    rw [moneys_concat, hv, List.mem_append] at hx
    rcases hx with hx | hx
    · rw [hkeep]
      exact hcurrency x hx
    · rw [show x = m by simpa using hx, hkeep, hsame]

/-- A blank before any money. -/
theorem isExact_blank (front : List (Value Decimal O)) (v : Value Decimal O) (dec : Decimal)
    (hv : moneyOf v = none) (hadds : Adds front) (hexact : IsExact front (.decimal dec))
    (hok : numOf (libArith lib) v = .ok none) :
    Adds (front ++ [v]) ∧ IsExact (front ++ [v]) (.decimal dec) := by
  obtain ⟨hnone, hval⟩ := hexact
  obtain ⟨hvalue, htext⟩ := numOf_eq_none lib v hv hok
  have hsum := exactSum_number front v hnone hv
  rw [hvalue, Option.getD_none, add_zero] at hsum
  constructor
  · apply adds_concat front v hadds
    · intro _ hsome
      rw [htext] at hsome
      cases hsome
    · intro m hm
      rw [hv] at hm
      cases hm
    · rw [hsum]
      exact hadds.inRange front (List.prefix_refl front)
  · refine ⟨?_, hval.trans hsum.symm⟩
    rw [moneys_concat, hnone, hv]
    rfl

include hlib hreads in
/-- A number before any money: neither reading it nor adding it rounds. -/
theorem isExact_number (front : List (Value Decimal O)) (v : Value Decimal O)
    (dec d next : Decimal) (hv : moneyOf v = none) (hadds : Adds front)
    (hexact : IsExact front (.decimal dec))
    (halone : Adds [v] → ∃ e : Decimal, e.val = exactSum [v])
    (hdecimal : Adds (front ++ [v]) → ∃ e : Decimal, e.val = exactSum (front ++ [v]))
    (hnum : numOf (libArith lib) v = .ok (some d)) (hok : lib.checkedAdd dec d = some next) :
    Adds (front ++ [v]) ∧ IsExact (front ++ [v]) (.decimal next) := by
  obtain ⟨hnone, hval⟩ := hexact
  obtain ⟨hvalue, hplain⟩ := numOf_exact lib hreads v hv halone d hnum
  have hsum := exactSum_number front v hnone hv
  rw [hvalue, Option.getD_some, ← hval] at hsum
  have hrounds := hlib.add dec d
  rw [hok, ← hsum] at hrounds
  have hnext : Adds (front ++ [v]) := by
    apply adds_concat front v hadds (fun _ hsome => ⟨d.val, hplain hsome, inRange_val d⟩) _
      hrounds.inRange
    intro m hm
    rw [hv] at hm
    cases hm
  obtain ⟨e, he⟩ := hdecimal hnext
  refine ⟨hnext, ?_, hrounds.exact e he⟩
  rw [moneys_concat, hnone, hv]
  rfl

include hlib hreads in
/-- One value more. -/
theorem isExact_step (values front : List (Value Decimal O)) (v : Value Decimal O)
    (hsums : SumsAreDecimals values) (hpart : front ++ [v] <+: values) (t next : Totals Decimal)
    (hadds : Adds front) (hexact : IsExact front t.amount)
    (hok : totalStep (libArith lib) t v = .ok next) :
    Adds (front ++ [v]) ∧ IsExact (front ++ [v]) next.amount := by
  have hdecimal : Adds (front ++ [v]) → ∃ e : Decimal, e.val = exactSum (front ++ [v]) :=
    fun h => hsums _ (.total _ hpart) h.readable h.inRange
  cases ht : t.money with
  | some total =>
      rw [t.amount_some total ht] at hexact
      cases hv : moneyOf v with
      | some m =>
          rw [totalStep_add _ t v total m ht hv] at hok
          obtain ⟨after, hafter, hok⟩ := (bind_eq_ok_iff _ _ _).mp hok
          cases hok
          exact isExact_money lib hlib front v total m after hv hadds hexact hdecimal hafter
      | none =>
          rw [totalStep_skip _ t v total ht hv] at hok
          cases hok
          rw [t.amount_some total ht]
          exact isExact_skip front v total hv hadds hexact
  | none =>
      rw [t.amount_none ht] at hexact
      cases hv : moneyOf v with
      | some m =>
          rw [totalStep_first _ t v m ht hv] at hok
          cases hok
          exact isExact_first front v m hv hadds hexact.1
      | none =>
          cases hnum : numOf (libArith lib) v with
          | error err =>
              obtain ⟨found, hfound⟩ := totalStep_bad _ t v ht hv ⟨err, hnum⟩
              rw [hfound] at hok
              cases hok
          | ok o =>
              cases o with
              | none =>
                  rw [totalStep_blank _ t v ht hv hnum] at hok
                  cases hok
                  rw [t.amount_none ht]
                  exact isExact_blank lib front v t.dec hv hadds hexact hnum
              | some d =>
                  have halone : Adds [v] → ∃ e : Decimal, e.val = exactSum [v] := by
                    obtain ⟨after, hsplit⟩ := hpart
                    have hreached : Reached values [v] := by
                      apply Reached.single front v after _ hexact.1
                      rw [← hsplit, List.append_assoc, List.singleton_append]
                    exact fun h => hsums _ hreached h.readable h.inRange
                  rw [totalStep_read _ t v d ht hv hnum] at hok
                  obtain ⟨dec, hdec, hok⟩ := (bind_eq_ok_iff _ _ _).mp hok
                  cases hok
                  rw [Totals.amount_none { t with dec := dec, decCount := t.decCount + 1 } ht]
                  exact isExact_number lib hlib hreads front v t.dec d dec hv hadds hexact halone
                    hdecimal hnum ((okOr_eq_ok _ _).mp hdec)

include hreads in
theorem totals_start : ∃ zero : Decimal, zero.val = 0 ∧
    totals (libArith lib) ([] : List (Value Decimal O)) = .ok ⟨none, 0, zero, 0⟩ := by
  obtain ⟨zero, hzero, hval⟩ := parse_nat hreads 0 (by omega)
  refine ⟨zero, by exact_mod_cast hval, ?_⟩
  unfold totals
  rw [show (libArith lib).parse "0" = .ok zero from hzero]
  rfl

include hlib hreads in
/-- By induction over the values from the front: every running total is exact. -/
theorem isExact_run (values front : List (Value Decimal O)) (hsums : SumsAreDecimals values)
    (hpart : front <+: values) (t : Totals Decimal)
    (hok : totals (libArith lib) front = .ok t) : Adds front ∧ IsExact front t.amount := by
  induction front using List.reverseRecOn generalizing t with
  | nil =>
      obtain ⟨zero, hzero, hstart⟩ := totals_start (O := O) lib hreads
      rw [hstart] at hok
      cases hok
      exact ⟨adds_nil, rfl, hzero⟩
  | append_singleton front v ih =>
      rw [totals_concat] at hok
      obtain ⟨before, hbefore, hok⟩ := (bind_eq_ok_iff _ _ _).mp hok
      obtain ⟨hadds, hexact⟩ := ih ((List.prefix_append front [v]).trans hpart) before hbefore
      exact isExact_step lib hlib hreads values front v hsums hpart before t hadds hexact
        hok

end

theorem sumExact_of_decimals (values : List (Value Decimal O)) (hsums : SumsAreDecimals values) :
    SumExact values := by
  intro lib exponents hlib hreads total hok
  obtain ⟨t, ht, rfl⟩ := (sum_eq_ok_iff _ values total).mp hok
  exact (isExact_run lib hlib hreads values values hsums (List.prefix_refl values) t ht).2

theorem SumsAreDecimals.part {values part : List (Value Decimal O)}
    (hsums : SumsAreDecimals values) (hpart : Reached values part) : SumsAreDecimals part :=
  fun inner hinner => hsums inner (hpart.trans hinner)

/-! ### Exact sums are decimals -/

theorem scientificLib_lawful : scientificLib.Lawful := readerLib_lawful decimalValue

theorem scientificLib_fromStr (text : String) (q : ℚ) (hq : decimalValue text = some q)
    (d : Decimal) : scientificLib.fromStr text = .ok d ↔ nearest q = some d :=
  readerLib_fromStr text q hq d

theorem scientificLib_add (a b : Decimal)
    (hrange : InRange 79228162514264337593543950335 (a.val + b.val)) :
    ∃ d, scientificLib.checkedAdd a b = some d :=
  nearest_inRange (a.val + b.val) hrange

theorem Adds.front {front : List (Value Decimal O)} {v : Value Decimal O}
    (hadds : Adds (front ++ [v])) : Adds front where
  readable := by
    constructor
    · intro before x after hsplit
      apply hadds.readable.number before x (after ++ [v])
      rw [hsplit, List.append_assoc, List.cons_append]
    · intro a ha b hb
      have hmem : ∀ x ∈ moneys front, x ∈ moneys (front ++ [v]) := by
        intro x hx
        rw [moneys_concat]
        exact List.mem_append_left _ hx
      exact hadds.readable.currency a (hmem a ha) b (hmem b hb)
  inRange := fun pre hpre => hadds.inRange pre (hpre.trans (List.prefix_append front [v]))

theorem Adds.total {values : List (Value Decimal O)} (hadds : Adds values) :
    InRange 79228162514264337593543950335 (exactSum values) :=
  hadds.inRange values (List.prefix_refl values)

/-- A number that stands alone is read and added to nothing, so it is exact when
that sum is. -/
theorem numOf_of_exact (v : Value Decimal O) (hv : moneyOf v = none) (halone : SumExact [v])
    (hplain : (numericText v).isSome →
      ∃ q, decimalNumber v = some q ∧ InRange 79228162514264337593543950335 q) :
    numOf (libArith scientificLib) v = .ok none ∨
      ∃ d, numOf (libArith scientificLib) v = .ok (some d) ∧ numericValue v = some d.val := by
  rcases numOf_cases scientificLib v hv with
    ⟨-, hnum, -⟩ | ⟨d, hvalue, hnum, -⟩ | ⟨t, ht, hvalue, hnum⟩
  · exact .inl hnum
  · exact .inr ⟨d, hnum, hvalue⟩
  · obtain ⟨q, hq, hrange⟩ := hplain (by rw [ht]; rfl)
    have htrim : decimalValue (trim t) = some q := (decimalNumber_text v t ht).symm.trans hq
    obtain ⟨d, hd⟩ : ∃ d : Decimal, nearest q = some d := nearest_inRange q hrange
    have hparse : (libArith scientificLib).parse t = .ok d :=
      (parse_ok_iff scientificLib t d).mpr ((scientificLib_fromStr (trim t) q htrim d).mpr hd)
    rw [hparse] at hnum
    refine .inr ⟨d, hnum, ?_⟩
    -- The sum of this value alone is zero plus the decimal that was read.
    obtain ⟨zero, hzero, hstart⟩ := totals_start (O := O) scientificLib scientificLib_reads
    have hrounds := scientificLib_lawful.add zero d
    rw [hzero, zero_add] at hrounds
    obtain ⟨s, hs⟩ := scientificLib_add zero d (by
      rw [hzero, zero_add]
      exact inRange_val d)
    rw [hs] at hrounds
    have hsum : sum (libArith scientificLib) ([] ++ [v]) = .ok (.decimal s) := by
      apply (sum_eq_ok_iff _ _ _).mpr
      refine ⟨⟨none, 0, s, 1⟩, ?_, rfl⟩
      rw [totals_concat, hstart]
      show totalStep (libArith scientificLib) ⟨none, 0, zero, 0⟩ v = _
      rw [totalStep_read _ _ v d rfl hv hnum]
      apply (bind_eq_ok_iff _ _ _).mpr
      exact ⟨s, (okOr_eq_ok _ _).mpr hs, rfl⟩
    obtain ⟨-, hexact⟩ := halone scientificLib _ scientificLib_lawful scientificLib_reads _ hsum
    have htotal : exactSum ([] ++ [v]) = q := by
      rw [exactSum_number [] v rfl hv, hvalue, htrim, exactSum_nil, zero_add]
      rfl
    rw [hvalue, htrim, ← hrounds.exact d rfl, hexact]
    exact congrArg some htotal.symm

/-- A part that can be added up gets its sum: no step throws. -/
theorem step_returns (front : List (Value Decimal O)) (v : Value Decimal O) (t : Totals Decimal)
    (hadds : Adds (front ++ [v])) (hexact : IsExact front t.amount)
    (halone : moneys front = [] → SumExact [v]) :
    ∃ next, totalStep (libArith scientificLib) t v = .ok next := by
  cases ht : t.money with
  | some total =>
      rw [t.amount_some total ht] at hexact
      obtain ⟨hmoney, hval, hcurrency⟩ := hexact
      cases hv : moneyOf v with
      | none => exact ⟨t, totalStep_skip _ t v total ht hv⟩
      | some m =>
          have hsum := hadds.total
          rw [exactSum_money front v hmoney, hv, Option.map_some, Option.getD_some, ← hval] at hsum
          obtain ⟨amount, hamount⟩ := scientificLib_add total.amount m.amount hsum
          have hsame : total.currency = m.currency := by
            obtain ⟨x, hx⟩ := List.exists_mem_of_ne_nil _ hmoney
            rw [← hcurrency x hx]
            apply hadds.readable.currency x _ m
            · rw [moneys_concat, hv]
              exact List.mem_append_right _ List.mem_cons_self
            · rw [moneys_concat]
              exact List.mem_append_left _ hx
          rw [totalStep_add _ t v total m ht hv,
            (addMoney_eq_ok_iff scientificLib total m ⟨amount, total.currency⟩).mpr
              ⟨hsame, rfl, hamount⟩]
          exact ⟨_, rfl⟩
  | none =>
      rw [t.amount_none ht] at hexact
      obtain ⟨hnone, hval⟩ := hexact
      cases hv : moneyOf v with
      | some m => exact ⟨_, totalStep_first _ t v m ht hv⟩
      | none =>
          have hread := numOf_of_exact v hv (halone hnone)
            (hadds.readable.number front v [] rfl hnone)
          rcases hread with hnum | ⟨d, hnum, hvalue⟩
          · exact ⟨t, totalStep_blank _ t v ht hv hnum⟩
          · have hsum := hadds.total
            rw [exactSum_number front v hnone hv, hvalue, Option.getD_some, ← hval] at hsum
            obtain ⟨dec, hdec⟩ := scientificLib_add t.dec d hsum
            rw [totalStep_read _ t v d ht hv hnum,
              show (libArith scientificLib).add t.dec d = .ok dec from (okOr_eq_ok _ _).mpr hdec]
            exact ⟨_, rfl⟩

/-- By induction over the values from the front, as each running total is exact. -/
theorem totals_return (values front : List (Value Decimal O))
    (hexact : ∀ part, Reached values part → SumExact part) (hfront : front <+: values)
    (hadds : Adds front) :
    ∃ t, totals (libArith scientificLib) front = .ok t ∧ IsExact front t.amount := by
  induction front using List.reverseRecOn with
  | nil =>
      obtain ⟨zero, hzero, hstart⟩ := totals_start (O := O) scientificLib scientificLib_reads
      exact ⟨_, hstart, rfl, hzero⟩
  | append_singleton front v ih =>
      obtain ⟨t, ht, hbefore⟩ := ih ((List.prefix_append front [v]).trans hfront) hadds.front
      have halone : moneys front = [] → SumExact [v] := by
        intro hnone
        obtain ⟨after, hsplit⟩ := hfront
        apply hexact [v]
        apply Reached.single front v after _ hnone
        rw [← hsplit, List.append_assoc, List.singleton_append]
      obtain ⟨next, hnext⟩ := step_returns front v t hadds hbefore halone
      have hok : totals (libArith scientificLib) (front ++ [v]) = .ok next := by
        rw [totals_concat, ht]
        exact hnext
      refine ⟨next, hok, ?_⟩
      apply hexact _ (.total _ hfront) scientificLib _ scientificLib_lawful scientificLib_reads
      exact (sum_eq_ok_iff _ _ _).mpr ⟨next, hok, rfl⟩

/-- An exact total is the decimal that was asked for. -/
theorem IsExact.decimal {values : List (Value Decimal O)} {total : Amount Decimal}
    (hexact : IsExact values total) : ∃ e : Decimal, e.val = exactSum values := by
  cases total with
  | decimal d => exact ⟨d, hexact.2⟩
  | money m => exact ⟨m.amount, hexact.2.1⟩

theorem reached_sums_exact_iff (values : List (Value Decimal O)) :
    (∀ part, Reached values part → SumExact part) ↔ SumsAreDecimals values := by
  constructor
  · intro hexact part hpart hreadable hrange
    have hinner : ∀ inner, Reached part inner → SumExact inner :=
      fun inner hinner => hexact inner (hpart.trans hinner)
    obtain ⟨t, -, htotal⟩ :=
      totals_return part part hinner (List.prefix_refl part) ⟨hreadable, hrange⟩
    exact htotal.decimal
  · exact fun hsums part hpart => sumExact_of_decimals part (hsums.part hpart)

/-- The sum of a column is exact where the single values and the running totals are
decimals; and these are decimals exactly when each of them is exact as a sum. -/
theorem sums_exact_iff (property : Property Decimal O) (field : Option String)
    (l : Lst Decimal O) :
    (SumsAreDecimals (column property field l.arr) → SumExact (column property field l.arr)) ∧
    ((∀ part, Reached (column property field l.arr) part → SumExact part) ↔
      SumsAreDecimals (column property field l.arr)) :=
  ⟨sumExact_of_decimals _, reached_sums_exact_iff _⟩

/-- Two prices as texts. -/
def tenths : List (Value Decimal Empty) := [.string "0.1", .string "0.2"]

theorem tenths_decimals : SumsAreDecimals tenths := by
  have hone : (⟨1, 1, by decide, by decide⟩ : Decimal).val = exactSum [tenths[0]] := by
    decide +kernel
  have htwo : (⟨2, 1, by decide, by decide⟩ : Decimal).val = exactSum [tenths[1]] := by
    decide +kernel
  intro part hpart _ _
  cases hpart with
  | total front hfront =>
      rcases List.prefix_cons_iff.mp hfront with rfl | ⟨tail, rfl, htail⟩
      · exact ⟨.ofInt 0 (by decide), by decide +kernel⟩
      rcases List.prefix_cons_iff.mp htail with rfl | ⟨tail, rfl, hnil⟩
      · exact ⟨_, hone⟩
      · rw [List.prefix_nil.mp hnil]
        exact ⟨⟨3, 1, by decide, by decide⟩, by decide +kernel⟩
  | single before v after hsplit hnone =>
      have hmem : v ∈ tenths := by
        rw [hsplit]
        simp
      simp only [tenths, List.mem_cons, List.not_mem_nil, or_false] at hmem
      rcases hmem with rfl | rfl
      · exact ⟨_, hone⟩
      · exact ⟨_, htwo⟩

theorem sums_exact_iff_tenths : SumExact tenths :=
  (sums_exact_iff (fun v _ => v) none ⟨tenths, by decide⟩).1 tenths_decimals

def largest : Decimal := .ofInt 79228162514264337593543950335 (by decide)

/-- One tenth more than the largest decimal. -/
def tenthOver : List (Value Decimal Empty) := [.decimal largest, .string "0.1"]

/-- The tenth is rounded away. -/
theorem tenth_lost :
    scientificLib.Lawful ∧ ReadsDecimals scientificLib (fun _ => True) ∧
    sum (libArith scientificLib) tenthOver = .ok (.decimal largest) ∧ ¬ SumExact tenthOver := by
  have hsum : sum (libArith scientificLib) tenthOver = .ok (.decimal largest) := by decide +kernel
  have hlost : largest.val ≠ exactSum tenthOver := by decide +kernel
  refine ⟨scientificLib_lawful, scientificLib_reads, hsum, ?_⟩
  intro hexact
  exact hlost (hexact scientificLib _ scientificLib_lawful scientificLib_reads _ hsum).2

end Runlet.ListUtil
