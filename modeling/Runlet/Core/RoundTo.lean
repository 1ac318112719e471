import Runlet.Lib.DecimalRounding
import Runlet.Core.Decimal

/-!
Rounding to a multiple of a step, as `decimal.rs` does it: divide by the step,
round the quotient to a whole number, multiply back. Both the division and the
product round to the nearest decimal. The result keeps the promise of its mode
exactly when the quotient does not cross and the product is a decimal.
-/

namespace Runlet.DecimalOps

open DecimalFormat Text

def roundingStrategy (mode : String) : Except String RoundingStrategy :=
  match trim mode with
  | "" | "half_up" => .ok .midpointAwayFromZero
  | "half_even" => .ok .midpointNearestEven
  | "up" => .ok .awayFromZero
  | "down" => .ok .toZero
  | "ceil" => .ok .toPositiveInfinity
  | "floor" => .ok .toNegativeInfinity
  | other => .error ("unknown rounding mode: '" ++ other ++ "'")

/-- The result as a number; the source renders it with all its digits. -/
def roundTo (lib : DecimalLib) (value : Decimal) (stepStr mode : String) :
    Except String Decimal := do
  let step ← parseDecimal lib stepStr
  if step.val ≤ 0 then
    .error ("round_to step must be positive: '" ++ stepStr ++ "'")
  else do
    let strategy ← roundingStrategy mode
    let quotient ← okOr (lib.checkedDiv value step)
    okOr (lib.checkedMul (quotient.roundWhole strategy) step)

/-- A multiple of the step, in the place the mode promises. -/
def Meets (strategy : RoundingStrategy) (value step result : ℚ) : Prop :=
  (∃ k : Int, result = k * step) ∧ strategy.Fits step result value

/-- Every decimal nearest to the exact quotient can be rounded in its place,
and the multiple it leads to is itself a decimal. Quotients and multiples out of
range are left out: there the operations return nothing. -/
def RoundsSafely (strategy : RoundingStrategy) (value step : Decimal) : Prop :=
  ∀ d : Decimal, InRange 79228162514264337593543950335 (value.val / step.val) →
    Closest (value.val / step.val) d →
    InRange 79228162514264337593543950335 (strategy.round d.val * step.val) →
      ¬ strategy.Crosses (value.val / step.val) d.val ∧
      ∃ e : Decimal, e.val = strategy.round d.val * step.val

theorem roundTo_eq_ok_iff (lib : DecimalLib) (value : Decimal) (stepStr mode : String)
    (result : Decimal) :
    roundTo lib value stepStr mode = .ok result ↔
      ∃ step strategy quotient, parseDecimal lib stepStr = .ok step ∧ 0 < step.val ∧
        roundingStrategy mode = .ok strategy ∧ lib.checkedDiv value step = some quotient ∧
        lib.checkedMul (quotient.roundWhole strategy) step = some result := by
  unfold roundTo
  constructor
  · intro hok
    obtain ⟨step, hstep, hok⟩ := (bind_eq_ok_iff _ _ _).mp hok
    split at hok
    · cases hok
    · rename_i hpositive
      obtain ⟨strategy, hstrategy, hok⟩ := (bind_eq_ok_iff _ _ _).mp hok
      obtain ⟨quotient, hquotient, hproduct⟩ := (bind_eq_ok_iff _ _ _).mp hok
      exact ⟨step, strategy, quotient, hstep, not_le.mp hpositive, hstrategy,
        (okOr_eq_ok _ _).mp hquotient, (okOr_eq_ok _ _).mp hproduct⟩
  · rintro ⟨step, strategy, quotient, hstep, hpositive, hstrategy, hquotient, hproduct⟩
    apply (bind_eq_ok_iff _ _ _).mpr
    refine ⟨step, hstep, ?_⟩
    rw [if_neg (not_le.mpr hpositive)]
    apply (bind_eq_ok_iff _ _ _).mpr
    refine ⟨strategy, hstrategy, ?_⟩
    apply (bind_eq_ok_iff _ _ _).mpr
    exact ⟨quotient, (okOr_eq_ok _ _).mpr hquotient, (okOr_eq_ok _ _).mpr hproduct⟩

/-- On a whole multiple the promise is about the quotient. -/
theorem fits_multiple_iff (strategy : RoundingStrategy) (k : Int) (value step : ℚ)
    (hstep : 0 < step) :
    strategy.Fits step (k * step) value ↔ strategy.Fits 1 k (value / step) := by
  have hvalue : value = value / step * step := by field_simp
  conv_lhs => rw [hvalue]
  exact strategy.fits_scale k (value / step) step hstep

/-- A closest decimal of a multiple near `value` that is a multiple itself is
that multiple: `value` is a decimal too, and it is closer than the next one. -/
theorem multiple_exact (value step product : Decimal) (hstep : 0 < step.val) (n k : Int)
    (hnear : |(n : ℚ) - value.val / step.val| < 1)
    (hclose : Closest (n * step.val) product) (hk : product.val = k * step.val) : k = n := by
  have hdist := hclose value
  have hvalue : value.val = value.val / step.val * step.val := by field_simp
  rw [hk, hvalue, ← sub_mul, ← sub_mul, abs_mul, abs_mul, abs_of_pos hstep,
    mul_le_mul_iff_left₀ hstep, abs_sub_comm (value.val / step.val)] at hdist
  exact eq_of_dist_lt_one k n (hdist.trans_lt hnear)

/-- A library that answers one quotient with a given closest decimal. -/
def tunedLib (q : ℚ) (d step : Decimal) : DecimalLib where
  checkedAdd := fun a b => nearest (a.val + b.val)
  checkedSub := fun a b => nearest (a.val - b.val)
  checkedMul := fun a b => nearest (a.val * b.val)
  checkedDiv := fun a b => if a.val / b.val = q then some d else nearest (a.val / b.val)
  fromStr := fun _ => .ok step
  parseArray := fun _ => .ok []
  render := fun _ => ""

theorem tunedLib_lawful (q : ℚ) (d step : Decimal)
    (hrange : InRange 79228162514264337593543950335 q) (hclose : Closest q d) :
    (tunedLib q d step).Lawful where
  add := fun _ _ => nearest_rounds _
  sub := fun _ _ => nearest_rounds _
  mul := fun _ _ => nearest_rounds _
  div := by
    intro a b _
    simp only [tunedLib]
    split
    · rename_i hq
      rw [hq]
      constructor
      · intro other hother
        cases hother
        exact hclose
      · intro hlarge
        exact absurd hrange (not_lt.mpr hlarge)
    · exact nearest_rounds _

/-- Over the libraries that keep the contract: what a successful run returns
meets its mode exactly when the quotient and the multiple round safely. -/
theorem round_to_meets_iff (value step : Decimal) (stepStr mode : String)
    (strategy : RoundingStrategy) (hmode : roundingStrategy mode = .ok strategy)
    (hstep : 0 < step.val) :
    (∀ lib : DecimalLib, lib.Lawful → parseDecimal lib stepStr = .ok step →
      ∀ result, roundTo lib value stepStr mode = .ok result →
        Meets strategy value.val step.val result.val) ↔
    RoundsSafely strategy value step := by
  constructor
  · intro hmeets d hrange hclose hproduct
    have hlib := tunedLib_lawful (value.val / step.val) d step hrange hclose
    obtain ⟨product, hnearest⟩ : ∃ product : Decimal,
        nearest (strategy.round d.val * step.val) = some product :=
      nearest_inRange _ hproduct
    have hok : roundTo (tunedLib (value.val / step.val) d step) value stepStr mode =
        .ok product := by
      apply (roundTo_eq_ok_iff _ _ _ _ _).mpr
      refine ⟨step, strategy, d, rfl, hstep, hmode, if_pos rfl, ?_⟩
      simpa [tunedLib] using hnearest
    obtain ⟨⟨k, hk⟩, hfits⟩ := hmeets _ hlib rfl product hok
    have hrounds : Rounds (strategy.round d.val * step.val) (some product) :=
      hnearest ▸ nearest_rounds _
    have hnear := strategy.round_near _ d hrange hclose
    have hsame := multiple_exact value step product hstep (strategy.round d.val) k hnear
      (hrounds.1 product rfl) hk
    rw [hk, hsame, fits_multiple_iff strategy _ _ _ hstep] at hfits
    rw [hsame] at hk
    exact ⟨(strategy.fits_iff (by decide) (by decide) _ d hrange hclose).mp hfits,
      product, hk⟩
  · intro hsafe lib hlib hparse result hok
    obtain ⟨step', strategy', quotient, hstep', -, hmode', hquotient, hproduct⟩ :=
      (roundTo_eq_ok_iff _ _ _ _ _).mp hok
    cases hparse.symm.trans hstep'
    cases hmode.symm.trans hmode'
    have hdiv := hlib.div value step hstep.ne'
    have hmul := hlib.mul (quotient.roundWhole strategy) step
    rw [hquotient] at hdiv
    rw [hproduct, Dec.roundWhole_val] at hmul
    have hclose := hdiv.1 quotient rfl
    obtain ⟨hcross, e, he⟩ := hsafe quotient hdiv.inRange hclose hmul.inRange
    have hexact := hmul.exact e he
    refine ⟨⟨strategy.round quotient.val, hexact⟩, ?_⟩
    rw [hexact, fits_multiple_iff strategy _ _ _ hstep]
    exact (strategy.fits_iff (by decide) (by decide) _ quotient hdiv.inRange hclose).mpr
      hcross

/-- A quotient and a multiple that are decimals themselves round safely. -/
theorem roundsSafely_of_exact (strategy : RoundingStrategy) (value step quotient product : Decimal)
    (hquotient : quotient.val = value.val / step.val)
    (hproduct : product.val = strategy.round (value.val / step.val) * step.val) :
    RoundsSafely strategy value step := by
  intro d _ hclose _
  have hexact := hclose.exact quotient hquotient
  rw [hexact]
  exact ⟨strategy.not_crosses_self _, product, hproduct⟩

/-- The exact-then-nearest library that reads one step. -/
def sampleSteps (stepText : String) (step : Decimal) : DecimalLib :=
  { sampleLib with
    fromStr := fun text =>
      if text = stepText then .ok step else .error "Invalid decimal: unknown character" }

theorem sampleSteps_lawful (stepText : String) (step : Decimal) :
    (sampleSteps stepText step).Lawful where
  add := sampleLib_lawful.add
  sub := sampleLib_lawful.sub
  mul := sampleLib_lawful.mul
  div := sampleLib_lawful.div

/-- Cash rounding of 1.02 to the nearest 0.05. -/
theorem round_to_meets_iff_cash :
    roundTo (sampleSteps "0.05" ⟨5, 2, by decide, by decide⟩) ⟨102, 2, by decide, by decide⟩
      "0.05" "half_even" = .ok one ∧
    Meets .midpointNearestEven (102 / 10 ^ 2) (5 / 10 ^ 2) 1 := by
  have hok : roundTo (sampleSteps "0.05" ⟨5, 2, by decide, by decide⟩)
      ⟨102, 2, by decide, by decide⟩ "0.05" "half_even" = .ok one := by decide +kernel
  have hsafe : RoundsSafely .midpointNearestEven ⟨102, 2, by decide, by decide⟩
      ⟨5, 2, by decide, by decide⟩ :=
    roundsSafely_of_exact _ _ _ ⟨204, 1, by decide, by decide⟩ one
      (by decide +kernel) (by decide +kernel)
  have hmeets := (round_to_meets_iff ⟨102, 2, by decide, by decide⟩
    ⟨5, 2, by decide, by decide⟩ "0.05" "half_even" .midpointNearestEven (by decide +kernel)
    (by decide +kernel)).mpr hsafe _ (sampleSteps_lawful _ _) (by decide +kernel) _ hok
  refine ⟨hok, ?_⟩
  simpa [Dec.val, one, Dec.ofInt] using hmeets

/-- The quotient of this value and three is closer to one than to the decimal
below one. -/
def justBelowThree : Decimal := ⟨29999999999999999999999999999, 28, by decide, by decide⟩

/-- Rounding down returns more than the value. -/
theorem floor_exceeds_value :
    (sampleSteps "3" ⟨3, 0, by decide, by decide⟩).Lawful ∧
    roundTo (sampleSteps "3" ⟨3, 0, by decide, by decide⟩) justBelowThree "3" "floor" =
      .ok ⟨3, 0, by decide, by decide⟩ ∧
    ¬ Meets .toNegativeInfinity justBelowThree.val 3 3 := by
  refine ⟨sampleSteps_lawful _ _, by decide +kernel, ?_⟩
  rintro ⟨-, hle, -⟩
  have hvalue : justBelowThree.val < 3 := by decide +kernel
  linarith

end Runlet.DecimalOps
