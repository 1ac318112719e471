import Runlet.Lib.DecimalRounding
import Runlet.Core.Aggregates

/-!
The aggregates over plain scalars, as the engine's decimals compute them. A
value takes part when a script reads it as a finite number, but its text is then
parsed as a decimal, which knows no radix prefixes, and exponents only as far as
the library takes them: the column is safe exactly when the library knows every
such text.
-/

namespace Runlet.ListUtil

open DecimalFormat DecimalOps MoneyUtil NumberText Text

variable {O : Type}

/-- A text the library knows: in plain notation, or with one of the exponents it
takes. -/
def Known (exponents : String → Prop) (text : String) : Prop :=
  (plainValue text).isSome ∨ ((decimalValue text).isSome ∧ exponents text)

/-- How the library reads a text: what it knows, rounded to a closest decimal,
every value within the largest mantissa and none past it. Which exponents it takes
depends on its version. -/
structure ReadsDecimals (lib : DecimalLib) (exponents : String → Prop) : Prop where
  accepts : ∀ text q, Known exponents text → decimalValue text = some q →
    |q| ≤ 79228162514264337593543950335 → ∃ d, lib.fromStr text = .ok d
  closest : ∀ text q d, decimalValue text = some q → lib.fromStr text = .ok d → Closest q d
  overflows : ∀ text q, decimalValue text = some q → 79228162514264337593543950336 ≤ |q| →
    ∃ err, lib.fromStr text = .error err
  rejects : ∀ text, ¬ Known exponents text → ∃ err, lib.fromStr text = .error err

theorem Known.value {exponents : String → Prop} {text : String} (h : Known exponents text) :
    ∃ q, decimalValue text = some q := by
  rcases h with hplain | ⟨hvalue, -⟩
  · obtain ⟨q, hq⟩ := Option.isSome_iff_exists.mp hplain
    exact ⟨q, decimalValue_of_plain hq⟩
  · exact Option.isSome_iff_exists.mp hvalue

/-- The operations behind `Decimal`; a count is parsed as it is written. -/
def libArith (lib : DecimalLib) : Arith Decimal where
  val := Dec.val
  parse := parseDecimal lib
  add := fun a b => okOr (lib.checkedAdd a b)
  div := fun d n => do
    let right ← parseDecimal lib (toString n)
    if right.val = 0 then .error "division by zero" else okOr (lib.checkedDiv d right)

def MAX_OUTPUT : Nat := 1000000

/-- A list checks its length when it is made. -/
structure Lst (D O : Type) where
  arr : List (Value D O)
  short : arr.length ≤ MAX_OUTPUT

/-- The values a document holds beside its objects. -/
def Scalar : Value Decimal O → Prop
  | .undefined | .null | .bool _ | .number _ | .string _ => True
  | _ => False

/-- The number behind the text that is parsed for a value. -/
def decimalNumber (v : Value Decimal O) : Option ℚ :=
  (numericText v).bind fun t => decimalValue (trim t)

def OutOfRange (v : Value Decimal O) : Prop :=
  ∃ q, decimalNumber v = some q ∧ 79228162514264337593543950335 < |q|

/-- An operation that left the range, or a value outside it. -/
def Overflow (lib : DecimalLib) (values : List (Value Decimal O)) (err : String) : Prop :=
  err = "decimal overflow" ∨
    ∃ v ∈ values, OutOfRange v ∧ numOf (libArith lib) v = .error err

/-- Nothing but overflow throws; a value that is no number is skipped, and one
that is contributes itself, unless it is out of range. -/
structure NeverAborts (lib : DecimalLib) (values : List (Value Decimal O)) : Prop where
  sum : ∀ err, sum (libArith lib) values = .error err → Overflow lib values err
  avg : ∀ err, avg (libArith lib) values = .error err → Overflow lib values err
  min : ∀ err, min (libArith lib) values = .error err → Overflow lib values err
  max : ∀ err, max (libArith lib) values = .error err → Overflow lib values err
  skipped : ∀ v ∈ values, numericText v = none → numOf (libArith lib) v = .ok none
  read : ∀ v ∈ values, (numericText v).isSome → numOf (libArith lib) v = .ok none ∨
    (∃ d q, numOf (libArith lib) v = .ok (some d) ∧ decimalNumber v = some q ∧ Closest q d) ∨
    OutOfRange v

/-! ### Single values -/

theorem moneyOf_scalar (v : Value Decimal O) (hv : Scalar v) : moneyOf v = none := by
  cases v <;> first | rfl | cases hv

theorem numOf_scalar_blank (ar : Arith Decimal) (v : Value Decimal O) (hv : Scalar v)
    (ht : numericText v = none) : numOf ar v = .ok none := by
  apply numOf_blank ar v _ ht
  rintro d rfl
  cases hv

theorem decimalNumber_text (v : Value Decimal O) (t : String) (ht : numericText v = some t) :
    decimalNumber v = decimalValue (trim t) := by
  rw [decimalNumber, ht, Option.bind_some]

theorem parse_text (lib : DecimalLib) (t : String) :
    (libArith lib).parse t = match lib.fromStr (trim t) with
      | .ok value => .ok value
      | .error err => .error ("invalid decimal '" ++ t ++ "': " ++ err) := rfl

theorem parse_ok_iff (lib : DecimalLib) (t : String) (d : Decimal) :
    (libArith lib).parse t = .ok d ↔ lib.fromStr (trim t) = .ok d := by
  rw [parse_text]
  cases lib.fromStr (trim t) <;> simp

section

variable {lib : DecimalLib} {exponents : String → Prop} (hreads : ReadsDecimals lib exponents)

include hreads

/-- A known text in range is read as a closest decimal. -/
theorem parse_known (t : String) (q : ℚ) (hknown : Known exponents (trim t))
    (hq : decimalValue (trim t) = some q) (hrange : |q| ≤ 79228162514264337593543950335) :
    ∃ d, (libArith lib).parse t = .ok d ∧ Closest q d := by
  obtain ⟨d, hd⟩ := hreads.accepts (trim t) q hknown hq hrange
  exact ⟨d, (parse_ok_iff lib t d).mpr hd, hreads.closest (trim t) q d hq hd⟩

theorem parse_nat (n : Nat) (hn : n ≤ 79228162514264337593543950335) :
    ∃ d, (libArith lib).parse (toString n) = .ok d ∧ d.val = n := by
  have hrange : |(n : ℚ)| ≤ 79228162514264337593543950335 := by
    rw [Nat.abs_cast]
    exact_mod_cast hn
  have hplain := plainValue_natText n
  obtain ⟨d, hd, hclose⟩ := parse_known hreads (toString n) n
    (.inl (Option.isSome_iff_exists.mpr ⟨_, hplain⟩)) (decimalValue_of_plain hplain) hrange
  refine ⟨d, hd, hclose.exact (.ofInt n (by simpa using hn)) ?_⟩
  rw [Dec.ofInt_val]
  rfl

/-- A value whose text is known is read, or is out of range. -/
theorem numOf_known (v : Value Decimal O) (t : String) (ht : numericText v = some t)
    (hknown : Known exponents (trim t)) :
    (∃ d q, numOf (libArith lib) v = .ok (some d) ∧ decimalNumber v = some q ∧ Closest q d) ∨
      OutOfRange v := by
  obtain ⟨q, hq⟩ := hknown.value
  have hvalue : decimalNumber v = some q := (decimalNumber_text v t ht).trans hq
  by_cases hrange : |q| ≤ 79228162514264337593543950335
  · obtain ⟨d, hd, hclose⟩ := parse_known hreads t q hknown hq hrange
    refine .inl ⟨d, q, ?_, hvalue, hclose⟩
    rw [numOf_text _ v t ht, hd]
    rfl
  · exact .inr ⟨q, hvalue, not_le.mp hrange⟩

/-- A value whose text is not known cannot be read. -/
theorem numOf_unknown (v : Value Decimal O) (t : String) (ht : numericText v = some t)
    (hunknown : ¬ Known exponents (trim t)) : Throws (numOf (libArith lib) v) := by
  obtain ⟨err, herr⟩ := hreads.rejects (trim t) hunknown
  rw [numOf_text _ v t ht, parse_text, herr]
  exact ⟨_, rfl⟩

theorem error_of_numOf (values : List (Value Decimal O)) (hscalar : ∀ v ∈ values, Scalar v)
    (hknown : ∀ v ∈ values, ∀ t, numericText v = some t →
      Known exponents (trim t) ∨ OutOfRange v)
    (v : Value Decimal O) (hv : v ∈ values) (err : String)
    (herr : numOf (libArith lib) v = .error err) : Overflow lib values err := by
  refine .inr ⟨v, hv, ?_, herr⟩
  cases ht : numericText v with
  | none =>
      rw [numOf_scalar_blank _ v (hscalar v hv) ht] at herr
      cases herr
  | some t =>
      rcases hknown v hv t ht with htext | hout
      · rcases numOf_known hreads v t ht htext with ⟨d, q, hd, -⟩ | hout
        · rw [hd] at herr
          cases herr
        · exact hout
      · exact hout

end

/-! ### Runs over scalars -/

theorem okOr_error (result : Option Decimal) (err : String) (herr : okOr result = .error err) :
    err = "decimal overflow" := by
  cases result with
  | none =>
      cases herr
      rfl
  | some d => cases herr

/-- What a step does to the totals of a column without money. -/
theorem totalStep_scalar (ar : Arith Decimal) (t : Totals Decimal) (v : Value Decimal O)
    (ht : t.money = none) (hv : moneyOf v = none) :
    (∀ next, totalStep ar t v = .ok next →
      next.money = none ∧ next.decCount ≤ t.decCount + 1) ∧
    ∀ err, totalStep ar t v = .error err → numOf ar v = .error err ∨
      ∃ d, ar.add t.dec d = .error err := by
  cases hnum : numOf ar v with
  | error found =>
      have hstep : totalStep ar t v = .error found := by
        simp only [totalStep, hv, ht, hnum]
        rfl
      rw [hstep]
      constructor
      · intro next hnext
        cases hnext
      · rintro err ⟨⟩
        exact .inl rfl
  | ok o =>
      cases o with
      | none =>
          rw [totalStep_blank ar t v ht hv hnum]
          constructor
          · rintro next ⟨⟩
            exact ⟨ht, by omega⟩
          · intro err herr
            cases herr
      | some d =>
          rw [totalStep_read ar t v d ht hv hnum]
          constructor
          · intro next hnext
            obtain ⟨dec, -, hnext⟩ := (bind_eq_ok_iff _ _ _).mp hnext
            cases hnext
            exact ⟨ht, le_refl _⟩
          · intro err herr
            rcases (bind_eq_error_iff _ _ _).mp herr with hadd | ⟨dec, -, herr⟩
            · exact .inr ⟨d, hadd⟩
            · cases herr

/-- The totals of a column without money have none, and count at most all. -/
theorem totals_scalar_run (ar : Arith Decimal) (values : List (Value Decimal O))
    (hnone : ∀ v ∈ values, moneyOf v = none) (t final : Totals Decimal) (ht : t.money = none)
    (hok : values.foldlM (totalStep ar) t = .ok final) :
    final.money = none ∧ final.decCount ≤ t.decCount + values.length := by
  induction values generalizing t with
  | nil =>
      cases hok
      exact ⟨ht, by omega⟩
  | cons v rest ih =>
      rw [List.foldlM_cons] at hok
      obtain ⟨next, hnext, hrest⟩ := (bind_eq_ok_iff _ _ _).mp hok
      obtain ⟨hmoney, hcount⟩ :=
        (totalStep_scalar ar t v ht (hnone v List.mem_cons_self)).1 next hnext
      obtain ⟨hfinal, hle⟩ :=
        ih (fun x hx => hnone x (List.mem_cons_of_mem v hx)) next hmoney hrest
      refine ⟨hfinal, ?_⟩
      rw [List.length_cons]
      omega

/-- Decimals compare with each other, so only reading a value can fail. -/
theorem extremeStep_scalar (ar : Arith Decimal) (keepLeft : Ordering → Bool)
    (best : Option (Amount Decimal)) (v : Value Decimal O) (hv : moneyOf v = none)
    (hbest : ∀ a, best = some a → ∃ d, a = .decimal d) (next : Option (Amount Decimal))
    (hnext : extremeStep ar keepLeft best v = .ok next) :
    ∀ a, next = some a → ∃ d, a = .decimal d := by
  rcases aggOf_cases ar v hv with hbad | hnone | ⟨d, hd⟩
  · obtain ⟨err, herr⟩ := extremeStep_bad ar keepLeft best v hbad
    rw [herr] at hnext
    cases hnext
  · rw [extremeStep_none ar keepLeft best v hnone] at hnext
    cases hnext
    exact hbest
  · cases best with
    | none =>
        rw [extremeStep_first ar keepLeft v _ hd] at hnext
        cases hnext
        rintro a ⟨⟩
        exact ⟨d, rfl⟩
    | some b =>
        obtain ⟨e, rfl⟩ := hbest b rfl
        rw [extremeStep_some ar keepLeft v _ _ hd] at hnext
        cases hnext
        intro a ha
        split at ha
        · cases ha
          exact ⟨d, rfl⟩
        · cases ha
          exact ⟨e, rfl⟩

theorem extremeStep_scalar_error (ar : Arith Decimal) (keepLeft : Ordering → Bool)
    (best : Option (Amount Decimal)) (v : Value Decimal O) (hv : moneyOf v = none)
    (hbest : ∀ a, best = some a → ∃ d, a = .decimal d) (err : String)
    (herr : extremeStep ar keepLeft best v = .error err) : numOf ar v = .error err := by
  rcases (bind_eq_error_iff _ _ _).mp herr with hagg | ⟨o, ho, herr⟩
  · rw [aggOf_number ar v hv] at hagg
    cases hnum : numOf ar v with
    | error found =>
        rw [hnum] at hagg
        cases hagg
        rfl
    | ok d =>
        rw [hnum] at hagg
        cases hagg
  · cases best with
    | none => cases o <;> cases herr
    | some b =>
        obtain ⟨e, rfl⟩ := hbest b rfl
        rcases aggOf_cases ar v hv with ⟨found, hbad⟩ | hnone | ⟨d, hd⟩
        · rw [hbad] at ho
          cases ho
        · rw [hnone] at ho
          cases ho
          cases herr
        · rw [hd] at ho
          cases ho
          cases herr

section

variable (lib : DecimalLib) {exponents : String → Prop} (hreads : ReadsDecimals lib exponents)
  (values : List (Value Decimal O)) (hscalar : ∀ v ∈ values, Scalar v)
  (hknown : ∀ v ∈ values, ∀ t, numericText v = some t → Known exponents (trim t) ∨ OutOfRange v)

include hreads hscalar hknown

theorem totals_error (err : String) (herr : totals (libArith lib) values = .error err) :
    Overflow lib values err := by
  obtain ⟨zero, hzero, -⟩ := parse_nat hreads 0 (by omega)
  unfold totals at herr
  rw [show (libArith lib).parse "0" = .ok zero from hzero] at herr
  obtain ⟨t, ht, v, hv, hstep⟩ := foldlM_error (totalStep (libArith lib))
    (fun t => t.money = none) values
    (fun t ht v hv next hnext =>
      ((totalStep_scalar _ t v ht (moneyOf_scalar v (hscalar v hv))).1 next
        hnext).1)
    ⟨none, 0, zero, 0⟩ rfl err herr
  rcases (totalStep_scalar _ t v ht (moneyOf_scalar v (hscalar v hv))).2 err
    hstep with hnum | ⟨d, hadd⟩
  · exact error_of_numOf hreads values hscalar hknown v hv err hnum
  · exact .inl (okOr_error _ err hadd)

theorem sum_error (err : String) (herr : sum (libArith lib) values = .error err) :
    Overflow lib values err := by
  rcases (bind_eq_error_iff _ _ _).mp herr with htotals | ⟨t, -, herr⟩
  · exact totals_error lib hreads values hscalar hknown err htotals
  · cases hmoney : t.money with
    | none => simp [hmoney, pure, Except.pure] at herr
    | some total => simp [hmoney, pure, Except.pure] at herr

theorem avg_error (hshort : values.length ≤ MAX_OUTPUT) (err : String)
    (herr : avg (libArith lib) values = .error err) : Overflow lib values err := by
  rcases (bind_eq_error_iff _ _ _).mp herr with htotals | ⟨t, ht, herr⟩
  · exact totals_error lib hreads values hscalar hknown err htotals
  · obtain ⟨zero, -, hrun⟩ := (bind_eq_ok_iff _ _ _).mp ht
    obtain ⟨hmoney, hcount⟩ := totals_scalar_run (libArith lib) values
      (fun v hv => moneyOf_scalar v (hscalar v hv)) _ t rfl hrun
    simp only [hmoney] at herr
    split at herr
    · cases herr
    · rename_i hsome
      obtain ⟨right, hright, hval⟩ := parse_nat hreads t.decCount
        (by
          unfold MAX_OUTPUT at hshort
          simp only [Nat.zero_add] at hcount
          omega)
      have hnonzero : right.val ≠ 0 := by
        rw [hval]
        exact_mod_cast hsome
      have hdiv : (libArith lib).div t.dec t.decCount = okOr (lib.checkedDiv t.dec right) := by
        unfold libArith at hright ⊢
        simp only at hright ⊢
        rw [hright]
        exact if_neg hnonzero
      rcases (bind_eq_error_iff _ _ _).mp herr with hfail | ⟨mean, -, herr⟩
      · rw [hdiv] at hfail
        exact .inl (okOr_error _ err hfail)
      · cases herr

theorem extremum_error (keepLeft : Ordering → Bool) (err : String)
    (herr : extremum (libArith lib) keepLeft values = .error err) :
    Overflow lib values err := by
  have hnone : ∀ v ∈ values, moneyOf v = none := fun v hv =>
    moneyOf_scalar v (hscalar v hv)
  obtain ⟨best, hbest, v, hv, hstep⟩ := foldlM_error (extremeStep (libArith lib) keepLeft)
    (fun best => ∀ a, best = some a → ∃ d, a = .decimal d) values
    (fun best hbest v hv next hnext =>
      extremeStep_scalar (libArith lib) keepLeft best v (hnone v hv) hbest next hnext)
    none (by simp) err herr
  have hnum := extremeStep_scalar_error (libArith lib) keepLeft best v (hnone v hv) hbest err
    hstep
  exact error_of_numOf hreads values hscalar hknown v hv err hnum

theorem neverAborts_of_known (hshort : values.length ≤ MAX_OUTPUT) :
    NeverAborts lib values where
  sum := sum_error lib hreads values hscalar hknown
  avg := avg_error lib hreads values hscalar hknown hshort
  min := extremum_error lib hreads values hscalar hknown _
  max := extremum_error lib hreads values hscalar hknown _
  skipped := by
    intro v hv hnone
    exact numOf_scalar_blank _ v (hscalar v hv) hnone
  read := by
    intro v hv hsome
    obtain ⟨t, ht⟩ := Option.isSome_iff_exists.mp hsome
    rcases hknown v hv t ht with htext | hout
    · exact .inr (numOf_known hreads v t ht htext)
    · exact .inr (.inr hout)

end

/-- The aggregates never abort over a field of scalars exactly when the library
knows the text of every value that a script reads as a finite number, those out of
range apart. -/
theorem never_aborts_iff (lib : DecimalLib) (exponents : String → Prop)
    (hreads : ReadsDecimals lib exponents) (property : Property Decimal O)
    (field : Option String) (l : Lst Decimal O)
    (hscalar : ∀ v ∈ column property field l.arr, Scalar v) :
    NeverAborts lib (column property field l.arr) ↔
      ∀ v ∈ column property field l.arr, ∀ t, numericText v = some t →
        Known exponents (trim t) ∨ OutOfRange v := by
  constructor
  · intro hnever v hv t ht
    by_contra hnot
    obtain ⟨hunknown, hin⟩ := not_or.mp hnot
    obtain ⟨err, herr⟩ := numOf_unknown hreads v t ht hunknown
    rcases hnever.read v hv (by rw [ht]; rfl) with hskip | ⟨d, q, hd, -⟩ | hout
    · rw [herr] at hskip
      cases hskip
    · rw [herr] at hd
      cases hd
    · exact hin hout
  · intro hknown
    apply neverAborts_of_known lib hreads _ hscalar hknown
    unfold column
    rw [List.length_map]
    exact l.short

/-! ### Two versions of the library -/

/-- The engine's arithmetic, and a reading of texts. -/
def readerLib (value : String → Option ℚ) : DecimalLib where
  checkedAdd := fun a b => nearest (a.val + b.val)
  checkedSub := fun a b => nearest (a.val - b.val)
  checkedMul := fun a b => nearest (a.val * b.val)
  checkedDiv := fun a b => if b.val = 0 then none else nearest (a.val / b.val)
  fromStr := fun text =>
    match value text with
    | some q =>
        match nearest q with
        | some d => .ok d
        | none => .error "Invalid decimal: overflow from too many digits"
    | none => .error "Invalid decimal: unknown character"
  parseArray := fun _ => .ok []
  render := fun _ => ""

theorem readerLib_lawful (value : String → Option ℚ) : (readerLib value).Lawful where
  add := fun a b => nearest_rounds (a.val + b.val)
  sub := fun a b => nearest_rounds (a.val - b.val)
  mul := fun a b => nearest_rounds (a.val * b.val)
  div := by
    intro a b hb
    have hdiv : (readerLib value).checkedDiv a b = nearest (a.val / b.val) := by
      simp [readerLib, hb]
    rw [hdiv]
    exact nearest_rounds (a.val / b.val)

theorem readerLib_fromStr {value : String → Option ℚ} (text : String) (q : ℚ)
    (hq : value text = some q) (d : Decimal) :
    (readerLib value).fromStr text = .ok d ↔ nearest q = some d := by
  simp only [readerLib, hq]
  cases (nearest q : Option Decimal) <;> simp

theorem readerLib_reads {value : String → Option ℚ} {exponents : String → Prop}
    (hvalue : ∀ text q, value text = some q ↔ decimalValue text = some q ∧ Known exponents text) :
    ReadsDecimals (readerLib value) exponents where
  accepts := by
    intro text q hknown hq hrange
    obtain ⟨d, hd⟩ : ∃ d : Decimal, nearest q = some d :=
      nearest_inRange q (hrange.trans_lt (by norm_num))
    exact ⟨d, (readerLib_fromStr text q ((hvalue text q).mpr ⟨hq, hknown⟩) d).mpr hd⟩
  closest := by
    intro text q d hq hd
    cases hread : value text with
    | none =>
        simp only [readerLib, hread] at hd
        cases hd
    | some r =>
        obtain ⟨hr, -⟩ := (hvalue text r).mp hread
        cases hq.symm.trans hr
        have hrounds : Rounds q (nearest q : Option Decimal) := nearest_rounds q
        rw [(readerLib_fromStr text q hread d).mp hd] at hrounds
        exact hrounds.1 d rfl
  overflows := by
    intro text q hq hlarge
    have hnone : (nearest q : Option Decimal) = none := by
      apply if_pos
      push_cast
      linarith
    cases hread : value text with
    | none => exact ⟨_, by simp only [readerLib, hread]; rfl⟩
    | some r =>
        obtain ⟨hr, -⟩ := (hvalue text r).mp hread
        cases hq.symm.trans hr
        exact ⟨_, by simp only [readerLib, hread, hnone]; rfl⟩
  rejects := by
    intro text hunknown
    cases hread : value text with
    | none => exact ⟨_, by simp only [readerLib, hread]; rfl⟩
    | some r => exact absurd ((hvalue text r).mp hread).2 hunknown

/-- Plain notation only. -/
def plainLib : DecimalLib := readerLib plainValue

/-- Exponents as well. -/
def scientificLib : DecimalLib := readerLib decimalValue

theorem plainLib_reads : ReadsDecimals plainLib fun _ => False := by
  apply readerLib_reads
  intro text q
  constructor
  · intro hq
    exact ⟨decimalValue_of_plain hq, .inl (Option.isSome_iff_exists.mpr ⟨q, hq⟩)⟩
  · rintro ⟨hq, hplain | ⟨-, hnever⟩⟩
    · obtain ⟨r, hr⟩ := Option.isSome_iff_exists.mp hplain
      cases hq.symm.trans (decimalValue_of_plain hr)
      exact hr
    · cases hnever

theorem scientificLib_reads : ReadsDecimals scientificLib fun _ => True := by
  apply readerLib_reads
  intro text q
  constructor
  · intro hq
    exact ⟨hq, .inr ⟨Option.isSome_iff_exists.mpr ⟨q, hq⟩, trivial⟩⟩
  · exact And.left

/-- A column of numbers with blanks and words between them. -/
def sampleColumn : Lst Decimal Empty :=
  ⟨[.string "0.1", .null, .string "abc", .bool true, .string " 12 ", .undefined], by decide⟩

theorem never_aborts_iff_words :
    NeverAborts plainLib (column (fun v _ => v) none sampleColumn.arr) := by
  have hscalar : ∀ v ∈ column (fun v _ => v) none sampleColumn.arr, Scalar v := by
    simp [sampleColumn, column, fieldOf, Scalar]
  apply (never_aborts_iff plainLib (fun _ => False) plainLib_reads (fun v _ => v) none
    sampleColumn hscalar).mpr
  have hall : (column (fun v _ => v) none sampleColumn.arr).all fun v =>
      ((numericText v).map fun t => (plainValue (trim t)).isSome).getD true := by decide +kernel
  intro v hv t ht
  have hv := List.all_eq_true.mp hall v hv
  rw [ht] at hv
  exact .inl (.inl hv)

/-- One text with a radix prefix makes every aggregate throw, exponents or not. -/
theorem hexadecimal_aborts :
    ReadsDecimals plainLib (fun _ => False) ∧ ReadsDecimals scientificLib (fun _ => True) ∧
    ∀ lib ∈ [plainLib, scientificLib],
      numOf (libArith lib) (.string "0x10" : Value Decimal Empty) =
        .error "invalid decimal '0x10': Invalid decimal: unknown character" ∧
      ¬ NeverAborts lib [(.string "0x10" : Value Decimal Empty)] := by
  refine ⟨plainLib_reads, scientificLib_reads, ?_⟩
  intro lib hlib
  have herr : numOf (libArith lib) (.string "0x10" : Value Decimal Empty) =
      .error "invalid decimal '0x10': Invalid decimal: unknown character" := by
    rcases List.mem_cons.mp hlib with rfl | hlib
    · decide +kernel
    · rw [List.mem_singleton.mp hlib]
      decide +kernel
  have hnumber : decimalNumber (.string "0x10" : Value Decimal Empty) = none := by
    decide +kernel
  refine ⟨herr, ?_⟩
  intro hnever
  rcases hnever.read _ List.mem_cons_self (by decide +kernel) with hskip | ⟨d, q, hd, -⟩ |
    ⟨q, hq, -⟩
  · rw [herr] at hskip
    cases hskip
  · rw [herr] at hd
    cases hd
  · rw [hnumber] at hq
    cases hq

end Runlet.ListUtil
