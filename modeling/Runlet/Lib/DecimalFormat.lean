import Mathlib.Algebra.Order.Floor.Ring
import Mathlib.Algebra.Order.Round
import Mathlib.Data.Rat.Floor
import Mathlib.Tactic.Linarith
import Mathlib.Tactic.FieldSimp
import Mathlib.Tactic.Ring
import Mathlib.Tactic.Positivity
import Mathlib.Tactic.NormNum

/-!
Decimal numbers with a bounded mantissa and a bounded scale, and arithmetic
that rounds to the nearest of them. The bounds are parameters. `Rounds q r`
is the contract of one checked operation whose exact result is `q`: the answer
is a closest number of the format, or nothing, and nothing on overflow.
`nearest` is an executable operation that meets it.
-/

namespace Runlet.DecimalFormat

/-- `mantissa / 10 ^ scale`, both within the bounds of the format. -/
structure Dec (bound maxScale : Nat) where
  mantissa : Int
  scale : Nat
  fits : mantissa.natAbs ≤ bound
  scaleLe : scale ≤ maxScale
  deriving DecidableEq

variable {bound maxScale : Nat}

def Dec.val (d : Dec bound maxScale) : ℚ := d.mantissa / 10 ^ d.scale

theorem natAbs_le_iff (k : Int) : k.natAbs ≤ bound ↔ |(k : ℚ)| ≤ bound := by
  rw [← Int.cast_abs, ← Int.natCast_natAbs]
  norm_cast

theorem Dec.abs_val_le (d : Dec bound maxScale) : |d.val| ≤ bound := by
  have hm : |(d.mantissa : ℚ)| ≤ bound := (natAbs_le_iff d.mantissa).mp d.fits
  have hpow : (1 : ℚ) ≤ 10 ^ d.scale := one_le_pow₀ (by norm_num)
  have hpos : (0 : ℚ) < 10 ^ d.scale := by positivity
  rw [Dec.val, abs_div, abs_of_pos hpos]
  exact (div_le_self (abs_nonneg _) hpow).trans hm

/-- An integer within the bound, as a number of scale zero. -/
def Dec.ofInt (k : Int) (hk : k.natAbs ≤ bound) : Dec bound maxScale :=
  ⟨k, 0, hk, Nat.zero_le _⟩

@[simp] theorem Dec.ofInt_val (k : Int) (hk : k.natAbs ≤ bound) :
    (Dec.ofInt k hk : Dec bound maxScale).val = k := by
  simp [Dec.ofInt, Dec.val]

/-! ### Rounding to an integer -/

theorem eq_of_dist_lt_one (n k : Int) (hdist : |(n : ℚ) - k| < 1) : n = k := by
  rw [← Int.cast_sub, ← Int.cast_abs] at hdist
  have hlt : |n - k| < 1 := by exact_mod_cast hdist
  have hzero := Int.abs_lt_one_iff.mp hlt
  omega

/-- Half away from zero. -/
def roundHalfAway (q : ℚ) : Int :=
  if 0 ≤ q then ⌊q + 1 / 2⌋ else ⌈q - 1 / 2⌉

theorem roundHalfAway_dist (q : ℚ) : |(roundHalfAway q : ℚ) - q| ≤ 1 / 2 := by
  unfold roundHalfAway
  split
  · have hle := Int.floor_le (q + 1 / 2)
    have hlt := Int.lt_floor_add_one (q + 1 / 2)
    rw [abs_le]
    constructor <;> linarith
  · have hle := Int.le_ceil (q - 1 / 2)
    have hlt := Int.ceil_lt_add_one (q - 1 / 2)
    rw [abs_le]
    constructor <;> linarith

theorem roundHalfAway_intCast (k : Int) : roundHalfAway (k : ℚ) = k := by
  have hdist := roundHalfAway_dist (k : ℚ)
  exact eq_of_dist_lt_one _ k (by linarith)

/-- An integer bound on a number bounds its rounding too. -/
theorem roundHalfAway_natAbs_le (q : ℚ) (hq : |q| ≤ bound) :
    (roundHalfAway q).natAbs ≤ bound := by
  have hdist := abs_le.mp (roundHalfAway_dist q)
  have hbounds := abs_le.mp hq
  have hupper : (roundHalfAway q : ℚ) < (bound : ℚ) + 1 := by linarith
  have hlower : -((bound : ℚ) + 1) < (roundHalfAway q : ℚ) := by linarith
  have hupper' : roundHalfAway q < (bound : Int) + 1 := by exact_mod_cast hupper
  have hlower' : -((bound : Int) + 1) < roundHalfAway q := by exact_mod_cast hlower
  omega

theorem floor_natAbs_le (q : ℚ) (hq : |q| ≤ bound) : ⌊q⌋.natAbs ≤ bound := by
  have hbounds := abs_le.mp hq
  have hupper : ⌊q⌋ ≤ (bound : Int) := by
    have : (⌊q⌋ : ℚ) ≤ bound := (Int.floor_le q).trans hbounds.2
    exact_mod_cast this
  have hlower : -(bound : Int) ≤ ⌊q⌋ := Int.le_floor.mpr (by push_cast; exact hbounds.1)
  omega

/-- No integer is closer than one within a half. -/
theorem closest_int (q : ℚ) (r k : Int) (hr : |(r : ℚ) - q| ≤ 1 / 2) :
    |(r : ℚ) - q| ≤ |(k : ℚ) - q| := by
  by_cases heq : k = r
  · rw [heq]
  · have hgap : (1 : ℚ) ≤ |(k : ℚ) - r| := by
      rw [← Int.cast_sub, ← Int.cast_abs]
      exact_mod_cast Int.one_le_abs (sub_ne_zero.mpr heq)
    have htriangle : |(k : ℚ) - r| ≤ |(k : ℚ) - q| + |(r : ℚ) - q| := by
      calc |(k : ℚ) - r| = |((k : ℚ) - q) - ((r : ℚ) - q)| := by ring_nf
        _ ≤ |(k : ℚ) - q| + |(r : ℚ) - q| := abs_sub _ _
    linarith

/-! ### Operations on one number -/

def Dec.floor (d : Dec bound maxScale) : Dec bound maxScale :=
  .ofInt ⌊d.val⌋ (floor_natAbs_le d.val d.abs_val_le)

@[simp] theorem Dec.floor_val (d : Dec bound maxScale) : d.floor.val = ⌊d.val⌋ :=
  Dec.ofInt_val _ _

theorem scaled_abs_le (d : Dec bound maxScale) (places : Nat) (hplaces : places ≤ d.scale) :
    |d.val * 10 ^ places| ≤ bound := by
  have hm : |(d.mantissa : ℚ)| ≤ bound := (natAbs_le_iff d.mantissa).mp d.fits
  have hpos : (0 : ℚ) < 10 ^ (d.scale - places) := by positivity
  have hpow : (1 : ℚ) ≤ 10 ^ (d.scale - places) := one_le_pow₀ (by norm_num)
  have hval : d.val * 10 ^ places = d.mantissa / 10 ^ (d.scale - places) := by
    have hsplit : (10 : ℚ) ^ d.scale = 10 ^ (d.scale - places) * 10 ^ places := by
      rw [← pow_add, Nat.sub_add_cancel hplaces]
    rw [Dec.val, hsplit]
    field_simp
  rw [hval, abs_div, abs_of_pos hpos]
  exact (div_le_self (abs_nonneg _) hpow).trans hm

/-- Rounds half away from zero to at most `places` digits. -/
def Dec.roundDp (d : Dec bound maxScale) (places : Nat) : Dec bound maxScale :=
  if h : d.scale ≤ places then d
  else
    ⟨roundHalfAway (d.val * 10 ^ places), places,
      roundHalfAway_natAbs_le _ (scaled_abs_le d places (by omega)),
      by have := d.scaleLe; omega⟩

theorem Dec.val_mul_pow (d : Dec bound maxScale) (places : Nat)
    (hplaces : d.scale ≤ places) :
    d.val * 10 ^ places = ((d.mantissa * 10 ^ (places - d.scale) : Int) : ℚ) := by
  have hsplit : (10 : ℚ) ^ places = 10 ^ (places - d.scale) * 10 ^ d.scale := by
    rw [← pow_add, Nat.sub_add_cancel hplaces]
  rw [Dec.val, hsplit]
  push_cast
  field_simp

theorem Dec.roundDp_val (d : Dec bound maxScale) (places : Nat) :
    (d.roundDp places).val = roundHalfAway (d.val * 10 ^ places) / 10 ^ places := by
  unfold Dec.roundDp
  split
  · rename_i hplaces
    rw [d.val_mul_pow places hplaces, roundHalfAway_intCast, ← d.val_mul_pow places hplaces]
    field_simp
  · rfl

/-- Appends zeros while the mantissa fits. -/
def Dec.pad : Nat → Dec bound maxScale → Dec bound maxScale
  | 0, d => d
  | fuel + 1, d =>
      if h : (d.mantissa * 10).natAbs ≤ bound ∧ d.scale + 1 ≤ maxScale then
        Dec.pad fuel ⟨d.mantissa * 10, d.scale + 1, h.1, h.2⟩
      else d

theorem Dec.pad_val (fuel : Nat) (d : Dec bound maxScale) : (d.pad fuel).val = d.val := by
  induction fuel generalizing d with
  | zero => rfl
  | succ fuel ih =>
      unfold Dec.pad
      split
      · rw [ih]
        simp only [Dec.val, pow_succ]
        push_cast
        field_simp
      · rfl

/-- Changes the scale: rounds when digits go, pads when there is room. -/
def Dec.rescale (d : Dec bound maxScale) (places : Nat) : Dec bound maxScale :=
  if places < d.scale then d.roundDp places else d.pad (places - d.scale)

/-- Either way the number is rounded to `places` digits. -/
theorem Dec.rescale_round (d : Dec bound maxScale) (places : Nat) :
    (d.rescale places).val = roundHalfAway (d.val * 10 ^ places) / 10 ^ places := by
  unfold Dec.rescale
  split
  · exact d.roundDp_val places
  · rename_i hscale
    rw [Dec.pad_val, d.val_mul_pow places (not_lt.mp hscale), roundHalfAway_intCast,
      ← d.val_mul_pow places (not_lt.mp hscale)]
    field_simp

/-- A number that has at most `places` digits keeps its value. -/
theorem Dec.rescale_val (d : Dec bound maxScale) (places : Nat) (k : Int)
    (hval : d.val = k / 10 ^ places) : (d.rescale places).val = k / 10 ^ places := by
  have hscaled : d.val * 10 ^ places = (k : ℚ) := by
    rw [hval]
    field_simp
  rw [Dec.rescale_round, hscaled, roundHalfAway_intCast]

/-! ### The contract of a checked operation -/

def Closest (q : ℚ) (d : Dec bound maxScale) : Prop :=
  ∀ e : Dec bound maxScale, |d.val - q| ≤ |e.val - q|

/-- A closest number or nothing; nothing once the result is past the largest
mantissa. -/
def Rounds (q : ℚ) (result : Option (Dec bound maxScale)) : Prop :=
  (∀ d, result = some d → Closest q d) ∧ ((bound : ℚ) + 1 ≤ |q| → result = none)

theorem Closest.exact {q : ℚ} {d : Dec bound maxScale} (h : Closest q d)
    (e : Dec bound maxScale) (he : e.val = q) : d.val = q := by
  have hclose := h e
  rw [he, sub_self, abs_zero] at hclose
  have hzero := abs_nonpos_iff.mp hclose
  linarith

/-- A representable result is returned exactly. -/
theorem Rounds.exact {q : ℚ} {d : Dec bound maxScale} (h : Rounds q (some d))
    (e : Dec bound maxScale) (he : e.val = q) : d.val = q := (h.1 d rfl).exact e he

/-- A result with room for `places` digits is off by at most half a unit of
the last of them. -/
theorem Rounds.error_le {q : ℚ} {d : Dec bound maxScale} (h : Rounds q (some d))
    (places : Nat) (hplaces : places ≤ maxScale) (hroom : |q| * 10 ^ places ≤ bound) :
    |d.val - q| ≤ 1 / 2 / 10 ^ places := by
  have hpos : (0 : ℚ) < 10 ^ places := by positivity
  have hscaled : |q * 10 ^ places| ≤ bound := by rwa [abs_mul, abs_of_pos hpos]
  have hclose := h.1 d rfl ⟨roundHalfAway (q * 10 ^ places), places,
    roundHalfAway_natAbs_le _ hscaled, hplaces⟩
  have hdist := roundHalfAway_dist (q * 10 ^ places)
  have herror : |(roundHalfAway (q * 10 ^ places) : ℚ) / 10 ^ places - q| =
      |(roundHalfAway (q * 10 ^ places) : ℚ) - q * 10 ^ places| / 10 ^ places := by
    rw [← abs_of_pos hpos, ← abs_div, abs_of_pos hpos]
    congr 1
    field_simp
  simp only [Dec.val] at hclose
  rw [herror] at hclose
  exact hclose.trans (div_le_div_of_nonneg_right hdist hpos.le)

/-- An integer result is returned exactly: it is representable or past the
bound. -/
theorem Rounds.int {k : Int} {d : Dec bound maxScale} (h : Rounds (k : ℚ) (some d)) :
    d.val = k := by
  by_cases hfits : k.natAbs ≤ bound
  · exact h.exact (.ofInt k hfits) (Dec.ofInt_val k hfits)
  · have hlarge : (bound : ℚ) + 1 ≤ |(k : ℚ)| := by
      rw [← Int.cast_abs, ← Int.natCast_natAbs]
      exact_mod_cast Nat.lt_of_not_le hfits
    cases h.2 hlarge

theorem Rounds.scaled {k : Int} {places : Nat} {d : Dec bound maxScale}
    (hfits : k.natAbs ≤ bound) (hplaces : places ≤ maxScale)
    (h : Rounds ((k : ℚ) / 10 ^ places) (some d)) : d.val = k / 10 ^ places :=
  h.exact ⟨k, places, hfits, hplaces⟩ rfl

/-! ### An operation that meets the contract -/

/-- The closest number of one scale. -/
def candidate (q : ℚ) (scale : Nat) (hscale : scale ≤ maxScale) : Dec bound maxScale :=
  ⟨max (-bound) (min bound (roundHalfAway (q * 10 ^ scale))), scale, by omega, hscale⟩

/-- The closest of the candidates up to a scale; a later one wins only when
it is strictly closer. -/
def closestUpTo (q : ℚ) : (scale : Nat) → scale ≤ maxScale → Dec bound maxScale
  | 0, hscale => candidate q 0 hscale
  | scale + 1, hscale =>
      let best := closestUpTo q scale (by omega)
      let next := candidate q (scale + 1) hscale
      if |next.val - q| < |best.val - q| then next else best

def nearest (q : ℚ) : Option (Dec bound maxScale) :=
  if (bound : ℚ) + 1 ≤ |q| then none else some (closestUpTo q maxScale (Nat.le_refl _))

theorem clamp_closest (q : ℚ) (k : Int) (hk : k.natAbs ≤ bound) :
    |((max (-(bound : Int)) (min bound (roundHalfAway q)) : Int) : ℚ) - q| ≤
      |(k : ℚ) - q| := by
  have hdist := roundHalfAway_dist q
  have hbounds := abs_le.mp hdist
  have hkabs := abs_le.mp ((natAbs_le_iff k).mp hk)
  rcases lt_trichotomy (roundHalfAway q) (-(bound : Int)) with hlow | heq | hhigh
  · have hclamp : max (-(bound : Int)) (min bound (roundHalfAway q)) = -bound := by omega
    have hstep : roundHalfAway q ≤ -(bound : Int) - 1 := by omega
    have hcast : (roundHalfAway q : ℚ) ≤ -(bound : ℚ) - 1 := by exact_mod_cast hstep
    rw [hclamp]
    push_cast
    rw [abs_of_nonneg (by linarith), abs_of_nonneg (by linarith)]
    linarith
  · have hclamp : max (-(bound : Int)) (min bound (roundHalfAway q)) = roundHalfAway q := by
      omega
    rw [hclamp]
    exact closest_int q _ k hdist
  · by_cases hup : roundHalfAway q ≤ bound
    · have hclamp : max (-(bound : Int)) (min bound (roundHalfAway q)) =
          roundHalfAway q := by omega
      rw [hclamp]
      exact closest_int q _ k hdist
    · have hclamp : max (-(bound : Int)) (min bound (roundHalfAway q)) = bound := by omega
      have hstep : (bound : Int) + 1 ≤ roundHalfAway q := by omega
      have hcast : (bound : ℚ) + 1 ≤ (roundHalfAway q : ℚ) := by exact_mod_cast hstep
      rw [hclamp]
      push_cast
      rw [abs_of_nonpos (by linarith), abs_of_nonpos (by linarith)]
      linarith

/-- At its own scale no number is closer than the candidate. -/
theorem candidate_closest (q : ℚ) (e : Dec bound maxScale) :
    |(candidate q e.scale e.scaleLe : Dec bound maxScale).val - q| ≤ |e.val - q| := by
  have hpos : (0 : ℚ) < 10 ^ e.scale := by positivity
  have hscale : ∀ k : Int, |(k : ℚ) / 10 ^ e.scale - q| =
      |(k : ℚ) - q * 10 ^ e.scale| / 10 ^ e.scale := by
    intro k
    rw [← abs_of_pos hpos, ← abs_div, abs_of_pos hpos]
    congr 1
    field_simp
  unfold candidate Dec.val
  rw [hscale, hscale]
  exact div_le_div_of_nonneg_right (clamp_closest (q * 10 ^ e.scale) e.mantissa e.fits)
    hpos.le

theorem closestUpTo_le (q : ℚ) (scale : Nat) (hscale : scale ≤ maxScale)
    (s : Nat) (hs : s ≤ scale) :
    |(closestUpTo q scale hscale : Dec bound maxScale).val - q| ≤
      |(candidate q s (hs.trans hscale) : Dec bound maxScale).val - q| := by
  induction scale with
  | zero =>
      obtain rfl : s = 0 := by omega
      exact le_refl _
  | succ scale ih =>
      have hbest : |(closestUpTo q (scale + 1) hscale : Dec bound maxScale).val - q| ≤
          |(closestUpTo q scale (by omega) : Dec bound maxScale).val - q| ∧
          |(closestUpTo q (scale + 1) hscale : Dec bound maxScale).val - q| ≤
          |(candidate q (scale + 1) hscale : Dec bound maxScale).val - q| := by
        simp only [closestUpTo]
        split
        · rename_i hlt
          exact ⟨hlt.le, le_refl _⟩
        · rename_i hnot
          exact ⟨le_refl _, not_lt.mp hnot⟩
      by_cases heq : s = scale + 1
      · subst heq
        exact hbest.2
      · exact hbest.1.trans (ih (by omega) (by omega))

theorem closestUpTo_closest (q : ℚ) :
    Closest q (closestUpTo q maxScale (Nat.le_refl _) : Dec bound maxScale) := by
  intro e
  exact (closestUpTo_le q maxScale (Nat.le_refl _) e.scale e.scaleLe).trans
    (candidate_closest q e)

theorem nearest_rounds (q : ℚ) : Rounds q (nearest q : Option (Dec bound maxScale)) := by
  unfold nearest
  refine ⟨?_, fun hlarge => if_pos hlarge⟩
  intro d hd
  split at hd
  · cases hd
  · cases hd
    exact closestUpTo_closest q

/-- The exact result is within the range of the format. -/
def InRange (bound : Nat) (q : ℚ) : Prop := |q| < (bound : ℚ) + 1

theorem Rounds.inRange {q : ℚ} {d : Dec bound maxScale} (h : Rounds q (some d)) :
    InRange bound q := by
  by_contra hlarge
  cases h.2 (not_lt.mp hlarge)

theorem nearest_inRange (q : ℚ) (hq : InRange bound q) :
    ∃ d : Dec bound maxScale, nearest q = some d := by
  unfold nearest
  rw [if_neg (not_le.mpr hq)]
  exact ⟨_, rfl⟩

/-! ### Operations that choose a closest number -/

/-- An operation whose result is everywhere one of the closest numbers to the exact
one; which one, where there are several, is its own choice. -/
structure RoundedOp (exact : Dec bound maxScale → Dec bound maxScale → ℚ) where
  apply : Dec bound maxScale → Dec bound maxScale → Dec bound maxScale
  closest : ∀ a b, Closest (exact a b) (apply a b)

section RoundedOp

variable {exact : Dec bound maxScale → Dec bound maxScale → ℚ}

/-- The operation with its range checked. -/
def RoundedOp.checked (op : RoundedOp exact) (a b : Dec bound maxScale) :
    Option (Dec bound maxScale) :=
  if |exact a b| < (bound : ℚ) + 1 then some (op.apply a b) else none

theorem RoundedOp.checked_eq (op : RoundedOp exact) {a b : Dec bound maxScale}
    (h : InRange bound (exact a b)) : op.checked a b = some (op.apply a b) := if_pos h

theorem RoundedOp.checked_rounds (op : RoundedOp exact) (a b : Dec bound maxScale) :
    Rounds (exact a b) (op.checked a b) := by
  constructor
  · intro d hd
    obtain ⟨-, hd⟩ := Option.ite_none_right_eq_some.mp hd
    cases hd
    exact op.closest a b
  · intro hlarge
    exact if_neg (not_lt.mpr hlarge)

theorem RoundedOp.rounds (op : RoundedOp exact) {a b : Dec bound maxScale}
    (h : InRange bound (exact a b)) : Rounds (exact a b) (some (op.apply a b)) :=
  op.checked_eq h ▸ op.checked_rounds a b

/-- A checked operation, with a closest number wherever it returns nothing. -/
def RoundedOp.extending
    (result : Dec bound maxScale → Dec bound maxScale → Option (Dec bound maxScale))
    (hresult : ∀ a b, Rounds (exact a b) (result a b)) : RoundedOp exact where
  apply a b := (result a b).getD (closestUpTo (exact a b) maxScale (Nat.le_refl _))
  closest := by
    intro a b
    cases hsome : result a b with
    | none => exact closestUpTo_closest (exact a b)
    | some d => exact (hresult a b).1 d hsome

theorem RoundedOp.extending_apply
    {result : Dec bound maxScale → Dec bound maxScale → Option (Dec bound maxScale)}
    (hresult : ∀ a b, Rounds (exact a b) (result a b)) {a b d : Dec bound maxScale}
    (h : result a b = some d) : (RoundedOp.extending result hresult).apply a b = d := by
  simp only [extending, h, Option.getD_some]

end RoundedOp

end Runlet.DecimalFormat
