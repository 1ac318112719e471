import Mathlib.Algebra.Order.Field.Power
import Runlet.Lib.DecimalRounding

/-!
The finite numbers of IEEE binary64 as rational numbers, and rounding to the
nearest of them with ties to even. A number is rounded to a multiple of the
unit in the last place of its own binade, and no double is closer.
-/

namespace Runlet.Binary64

open DecimalFormat

/-- 53 significant bits and an exponent in range. -/
def IsDouble (q : ℚ) : Prop :=
  ∃ m e : Int, m.natAbs < 2 ^ 53 ∧ -1074 ≤ e ∧ e ≤ 971 ∧ q = m * (2 : ℚ) ^ e

/-- The binary logarithm, rounded down. -/
def magnitude (q : ℚ) : Int :=
  let guess : Int := (Nat.log2 q.num.natAbs : Int) - Nat.log2 q.den
  if (2 : ℚ) ^ guess ≤ |q| then guess else guess - 1

/-- The exponent of the last place. -/
def lastPlace (q : ℚ) : Int := max (-1074) (magnitude q - 52)

def roundDouble (q : ℚ) : ℚ :=
  roundHalfEven (q / (2 : ℚ) ^ lastPlace q) * (2 : ℚ) ^ lastPlace q

theorem two_zpow_pos (e : Int) : (0 : ℚ) < (2 : ℚ) ^ e := zpow_pos (by norm_num) e

theorem two_zpow_le {e f : Int} (h : e ≤ f) : (2 : ℚ) ^ e ≤ (2 : ℚ) ^ f :=
  zpow_le_zpow_right₀ (by norm_num) h

theorem two_zpow_add (e f : Int) : (2 : ℚ) ^ (e + f) = (2 : ℚ) ^ e * (2 : ℚ) ^ f :=
  zpow_add₀ (by norm_num) e f

/-! ### The binade of a number -/

theorem magnitude_spec (q : ℚ) (hq : q ≠ 0) :
    (2 : ℚ) ^ magnitude q ≤ |q| ∧ |q| < (2 : ℚ) ^ (magnitude q + 1) := by
  have hnum : q.num.natAbs ≠ 0 := by simpa using hq
  have hden : q.den ≠ 0 := q.den_nz
  have hvalue : |q| = (q.num.natAbs : ℚ) / q.den := by
    conv_lhs => rw [← Rat.num_div_den q]
    rw [abs_div, ← Int.cast_abs, Nat.abs_cast, ← Int.natCast_natAbs, Int.cast_natCast]
  have hdenpos : (0 : ℚ) < q.den := by exact_mod_cast q.den_pos
  have hnumlow : (2 : ℚ) ^ (Nat.log2 q.num.natAbs : Int) ≤ q.num.natAbs := by
    rw [zpow_natCast]
    exact_mod_cast Nat.log2_self_le hnum
  have hnumhigh : (q.num.natAbs : ℚ) < (2 : ℚ) ^ ((Nat.log2 q.num.natAbs : Int) + 1) := by
    rw [← Nat.cast_succ, zpow_natCast]
    exact_mod_cast Nat.lt_log2_self
  have hdenlow : (2 : ℚ) ^ (Nat.log2 q.den : Int) ≤ q.den := by
    rw [zpow_natCast]
    exact_mod_cast Nat.log2_self_le hden
  have hdenhigh : (q.den : ℚ) < (2 : ℚ) ^ ((Nat.log2 q.den : Int) + 1) := by
    rw [← Nat.cast_succ, zpow_natCast]
    exact_mod_cast Nat.lt_log2_self
  have hhigh : |q| < (2 : ℚ) ^ ((Nat.log2 q.num.natAbs : Int) - Nat.log2 q.den + 1) := by
    rw [hvalue, div_lt_iff₀ hdenpos]
    calc (q.num.natAbs : ℚ) < (2 : ℚ) ^ ((Nat.log2 q.num.natAbs : Int) + 1) := hnumhigh
      _ = (2 : ℚ) ^ ((Nat.log2 q.num.natAbs : Int) - Nat.log2 q.den + 1) *
          (2 : ℚ) ^ (Nat.log2 q.den : Int) := by
        rw [← two_zpow_add]
        congr 1
        omega
      _ ≤ _ := mul_le_mul_of_nonneg_left hdenlow (two_zpow_pos _).le
  have hlow : (2 : ℚ) ^ ((Nat.log2 q.num.natAbs : Int) - Nat.log2 q.den - 1) ≤ |q| := by
    rw [hvalue, le_div_iff₀ hdenpos]
    calc (2 : ℚ) ^ ((Nat.log2 q.num.natAbs : Int) - Nat.log2 q.den - 1) * q.den
        ≤ (2 : ℚ) ^ ((Nat.log2 q.num.natAbs : Int) - Nat.log2 q.den - 1) *
          (2 : ℚ) ^ ((Nat.log2 q.den : Int) + 1) :=
        mul_le_mul_of_nonneg_left hdenhigh.le (two_zpow_pos _).le
      _ = (2 : ℚ) ^ (Nat.log2 q.num.natAbs : Int) := by
        rw [← two_zpow_add]
        congr 1
        omega
      _ ≤ _ := hnumlow
  unfold magnitude
  dsimp only
  split
  · rename_i hguess
    exact ⟨hguess, hhigh⟩
  · rename_i hguess
    refine ⟨hlow, ?_⟩
    rw [sub_add_cancel]
    exact not_le.mp hguess

/-- A number has at most 53 bits in front of its last place. -/
theorem scaled_lt (q : ℚ) : |q / (2 : ℚ) ^ lastPlace q| < (2 : ℚ) ^ (53 : Int) := by
  have hpos := two_zpow_pos (lastPlace q)
  rw [abs_div, abs_of_pos hpos, div_lt_iff₀ hpos, ← two_zpow_add]
  by_cases hq : q = 0
  · rw [hq, abs_zero]
    exact two_zpow_pos _
  · refine (magnitude_spec q hq).2.trans_le (two_zpow_le ?_)
    unfold lastPlace
    omega

/-! ### Rounding is nearest -/

/-- Multiples of the last place are no closer. -/
theorem roundDouble_multiple (q : ℚ) (k : Int) :
    |roundDouble q - q| ≤ |k * (2 : ℚ) ^ lastPlace q - q| := by
  have hpos := two_zpow_pos (lastPlace q)
  have hscale : ∀ n : Int, |n * (2 : ℚ) ^ lastPlace q - q| =
      |(n : ℚ) - q / (2 : ℚ) ^ lastPlace q| * (2 : ℚ) ^ lastPlace q := by
    intro n
    conv_rhs => rw [← abs_of_pos hpos]
    rw [← abs_mul, abs_of_pos hpos]
    congr 1
    field_simp
  unfold roundDouble
  rw [hscale, hscale]
  exact mul_le_mul_of_nonneg_right
    (closest_int _ _ k (roundHalfEven_dist (q / (2 : ℚ) ^ lastPlace q))) hpos.le

/-- A double with a smaller last place lies below the binade; the binade's own
first number is closer. -/
theorem roundDouble_nearest (q d : ℚ) (hd : IsDouble d) : |roundDouble q - q| ≤ |d - q| := by
  obtain ⟨m, e, hm, he, -, rfl⟩ := hd
  rcases le_or_gt (lastPlace q) e with hle | hlt
  · have hmultiple : (m : ℚ) * (2 : ℚ) ^ e =
        ((m * 2 ^ (e - lastPlace q).toNat : Int) : ℚ) * (2 : ℚ) ^ lastPlace q := by
      push_cast
      rw [mul_assoc, ← zpow_natCast, ← two_zpow_add]
      congr 2
      omega
    rw [hmultiple]
    exact roundDouble_multiple q _
  · have hplace : lastPlace q = magnitude q - 52 := by
      unfold lastPlace at hlt ⊢
      omega
    by_cases hq : q = 0
    · have hzero : roundDouble q = 0 := by
        simp [hq, roundDouble, roundHalfEven]
      rw [hzero, hq, sub_zero, abs_zero]
      exact abs_nonneg _
    · obtain ⟨hlow, -⟩ := magnitude_spec q hq
      have hsmall : |(m : ℚ) * (2 : ℚ) ^ e| < (2 : ℚ) ^ magnitude q := by
        have hcast : |(m : ℚ)| < (2 : ℚ) ^ (53 : Int) := by
          rw [← Int.cast_abs, ← Int.natCast_natAbs]
          exact_mod_cast hm
        rw [abs_mul, abs_of_pos (two_zpow_pos e)]
        calc |(m : ℚ)| * (2 : ℚ) ^ e < (2 : ℚ) ^ (53 : Int) * (2 : ℚ) ^ e :=
              mul_lt_mul_of_pos_right hcast (two_zpow_pos e)
          _ = (2 : ℚ) ^ (53 + e) := (two_zpow_add _ _).symm
          _ ≤ (2 : ℚ) ^ magnitude q := two_zpow_le (by omega)
      have hfirst : (2 : ℚ) ^ magnitude q = ((2 ^ 52 : Int) : ℚ) * (2 : ℚ) ^ lastPlace q := by
        have hsplit : magnitude q = 52 + lastPlace q := by omega
        conv_lhs => rw [hsplit, two_zpow_add]
        norm_num
      have hbounds := abs_lt.mp hsmall
      rcases le_or_gt 0 q with hsign | hsign
      · rw [abs_of_nonneg hsign] at hlow
        have hnear := roundDouble_multiple q (2 ^ 52)
        rw [← hfirst] at hnear
        refine hnear.trans ?_
        rw [abs_of_nonpos (by linarith), abs_of_nonpos (by linarith)]
        linarith
      · rw [abs_of_neg hsign] at hlow
        have hnear := roundDouble_multiple q (-2 ^ 52)
        rw [Int.cast_neg, neg_mul, ← hfirst] at hnear
        refine hnear.trans ?_
        rw [abs_of_nonneg (by linarith), abs_of_nonneg (by linarith)]
        linarith

theorem roundDouble_of_isDouble (q : ℚ) (hq : IsDouble q) : roundDouble q = q := by
  have hnear := roundDouble_nearest q q hq
  rw [sub_self, abs_zero] at hnear
  have hzero := abs_nonpos_iff.mp hnear
  linarith

/-! ### Rounding yields a double -/

/-- The significand may round up to the next power of two. -/
theorem significand_le (q : ℚ) :
    (roundHalfEven (q / (2 : ℚ) ^ lastPlace q)).natAbs ≤ 2 ^ 53 := by
  obtain ⟨hlow, hhigh⟩ := roundHalfEven_between (q / (2 : ℚ) ^ lastPlace q)
  obtain ⟨hneg, hpos⟩ := abs_lt.mp (scaled_lt q)
  have hfloor : -(2 ^ 53 : Int) ≤ ⌊q / (2 : ℚ) ^ lastPlace q⌋ := by
    apply Int.le_floor.mpr
    push_cast
    exact_mod_cast hneg.le
  have hceil : ⌈q / (2 : ℚ) ^ lastPlace q⌉ ≤ (2 ^ 53 : Int) := by
    apply Int.ceil_le.mpr
    push_cast
    exact_mod_cast hpos.le
  omega

/-- Above the subnormal range the significand has all its bits. -/
theorem significand_ge (q : ℚ) (hq : q ≠ 0) (hplace : -1074 < lastPlace q) :
    2 ^ 52 ≤ (roundHalfEven (q / (2 : ℚ) ^ lastPlace q)).natAbs := by
  have hpos := two_zpow_pos (lastPlace q)
  have hscaled : ((2 ^ 52 : Int) : ℚ) ≤ |q / (2 : ℚ) ^ lastPlace q| := by
    rw [abs_div, abs_of_pos hpos, le_div_iff₀ hpos]
    calc ((2 ^ 52 : Int) : ℚ) * (2 : ℚ) ^ lastPlace q
        = (2 : ℚ) ^ (52 + lastPlace q) := by
          rw [two_zpow_add]
          norm_num
      _ ≤ (2 : ℚ) ^ magnitude q := by
          apply two_zpow_le
          unfold lastPlace at hplace ⊢
          omega
      _ ≤ |q| := (magnitude_spec q hq).1
  obtain ⟨hlow, hhigh⟩ := roundHalfEven_between (q / (2 : ℚ) ^ lastPlace q)
  rcases le_abs.mp hscaled with hright | hleft
  · have := Int.le_floor.mpr hright
    omega
  · have hceil : ⌈q / (2 : ℚ) ^ lastPlace q⌉ ≤ -(2 ^ 52 : Int) := by
      apply Int.ceil_le.mpr
      rw [Int.cast_neg]
      linarith
    omega

theorem abs_roundDouble (q : ℚ) : |roundDouble q| =
    ((roundHalfEven (q / (2 : ℚ) ^ lastPlace q)).natAbs : ℚ) * (2 : ℚ) ^ lastPlace q := by
  unfold roundDouble
  rw [abs_mul, abs_of_pos (two_zpow_pos _), ← Int.cast_abs, ← Int.natCast_natAbs,
    Int.cast_natCast]

theorem zero_isDouble : IsDouble 0 :=
  ⟨0, 0, by norm_num, by norm_num, by norm_num, by norm_num⟩

/-- A result in range is a double: a full significand moves to the next binade. -/
theorem roundDouble_isDouble (q : ℚ) (hrange : |roundDouble q| < (2 : ℚ) ^ (1024 : Int)) :
    IsDouble (roundDouble q) := by
  rcases eq_or_ne q 0 with rfl | hq
  · rw [roundDouble_of_isDouble 0 zero_isDouble]
    exact zero_isDouble
  have hle := significand_le q
  have hbottom : -1074 ≤ lastPlace q := le_max_left _ _
  have htop : ∀ bits : Nat,
      2 ^ bits ≤ (roundHalfEven (q / (2 : ℚ) ^ lastPlace q)).natAbs →
        (bits : Int) + lastPlace q < 1024 := by
    intro bits hbits
    apply (zpow_lt_zpow_iff_right₀ (by norm_num : (1 : ℚ) < 2)).mp
    rw [abs_roundDouble] at hrange
    refine lt_of_le_of_lt ?_ hrange
    rw [two_zpow_add, zpow_natCast]
    apply mul_le_mul_of_nonneg_right _ (two_zpow_pos _).le
    exact_mod_cast hbits
  rcases Nat.lt_or_ge (roundHalfEven (q / (2 : ℚ) ^ lastPlace q)).natAbs (2 ^ 53) with
    hlt | hge
  · refine ⟨_, lastPlace q, hlt, hbottom, ?_, rfl⟩
    rcases eq_or_lt_of_le hbottom with heq | habove
    · omega
    · have := htop 52 (significand_ge q hq habove)
      omega
  · have hfull := htop 53 hge
    refine ⟨(roundHalfEven (q / (2 : ℚ) ^ lastPlace q)).sign * 2 ^ 52, lastPlace q + 1,
      ?_, by omega, by omega, ?_⟩
    · rw [Int.natAbs_mul, Int.natAbs_sign_of_ne_zero (by omega)]
      norm_num
    · have hsign : roundHalfEven (q / (2 : ℚ) ^ lastPlace q) =
          (roundHalfEven (q / (2 : ℚ) ^ lastPlace q)).sign * 2 ^ 53 := by
        conv_lhs => rw [← Int.sign_mul_natAbs (roundHalfEven (q / (2 : ℚ) ^ lastPlace q))]
        have hexact : (roundHalfEven (q / (2 : ℚ) ^ lastPlace q)).natAbs = 2 ^ 53 := by omega
        rw [hexact]
        norm_num
      unfold roundDouble
      conv_lhs => rw [hsign]
      rw [two_zpow_add]
      push_cast
      ring

theorem roundDouble_isDouble_iff (q : ℚ) (hrange : |roundDouble q| < (2 : ℚ) ^ (1024 : Int)) :
    roundDouble q = q ↔ IsDouble q := by
  constructor
  · intro heq
    rw [← heq]
    exact roundDouble_isDouble q hrange
  · exact roundDouble_of_isDouble q

/-- Zero is a double: rounding at most doubles a number. -/
theorem abs_roundDouble_le (q : ℚ) : |roundDouble q| ≤ 2 * |q| := by
  have hnear := roundDouble_nearest q 0 zero_isDouble
  rw [zero_sub, abs_neg] at hnear
  calc |roundDouble q| = |(roundDouble q - q) + q| := by rw [sub_add_cancel]
    _ ≤ |roundDouble q - q| + |q| := abs_add_le _ _
    _ ≤ 2 * |q| := by linarith

theorem roundDouble_lt_top (q : ℚ) (hq : |q| < (2 : ℚ) ^ (1023 : Int)) :
    |roundDouble q| < (2 : ℚ) ^ (1024 : Int) := by
  have hle := abs_roundDouble_le q
  have htop : (2 : ℚ) ^ (1024 : Int) = 2 * (2 : ℚ) ^ (1023 : Int) := by
    rw [show (1024 : Int) = 1 + 1023 from rfl, two_zpow_add, zpow_one]
  rw [htop]
  linarith

/-! ### The numbers of the format -/

/-- Zero has one sign here. -/
inductive Number where
  | nan
  | infinite (negative : Bool)
  | finite (value : ℚ) (isDouble : IsDouble value)
  deriving DecidableEq

def Number.val? : Number → Option ℚ
  | .finite value _ => some value
  | _ => none

def Number.ofRat (q : ℚ) : Number :=
  if h : |roundDouble q| < (2 : ℚ) ^ (1024 : Int) then
    .finite (roundDouble q) (roundDouble_isDouble q h)
  else .infinite (decide (q < 0))

theorem Number.ofRat_val (q : ℚ) (hq : |q| < (2 : ℚ) ^ (1023 : Int)) :
    (Number.ofRat q).val? = some (roundDouble q) := by
  unfold Number.ofRat
  rw [dif_pos (roundDouble_lt_top q hq)]
  rfl

/-- A whole number with at most 53 bits in front of its trailing zeros. -/
def Significant (n : Int) : Prop :=
  ∃ (m : Int) (k : Nat), m.natAbs < 2 ^ 53 ∧ k ≤ 971 ∧ n = m * 2 ^ k

theorem isDouble_intCast_iff (n : Int) : IsDouble (n : ℚ) ↔ Significant n := by
  constructor
  · rintro ⟨m, e, hm, -, htop, hval⟩
    rcases le_or_gt 0 e with he | he
    · refine ⟨m, e.toNat, hm, by omega, ?_⟩
      have hcast : (n : ℚ) = ((m * 2 ^ e.toNat : Int) : ℚ) := by
        rw [hval]
        push_cast
        rw [← zpow_natCast, Int.toNat_of_nonneg he]
      exact Int.cast_inj.mp hcast
    · refine ⟨n, 0, ?_, by omega, by ring⟩
      have hle : |(n : ℚ)| ≤ |(m : ℚ)| := by
        rw [hval, abs_mul, abs_of_pos (two_zpow_pos e)]
        apply mul_le_of_le_one_right (abs_nonneg _)
        rw [← zpow_zero (2 : ℚ)]
        exact two_zpow_le he.le
      rw [← Int.cast_abs, ← Int.cast_abs, Int.cast_le, Int.abs_eq_natAbs,
        Int.abs_eq_natAbs] at hle
      omega
  · rintro ⟨m, k, hm, hk, rfl⟩
    refine ⟨m, k, hm, by omega, by omega, ?_⟩
    push_cast
    rw [zpow_natCast]

end Runlet.Binary64
