import Mathlib.Algebra.Ring.Int.Parity
import Runlet.Lib.DecimalFormat

/-!
Rounding to whole numbers in six ways, behind a rounding to the nearest decimal.
Rounding a number that is itself the nearest decimal of `q` gives what rounding
`q` would, unless the decimal has reached the whole number on the far side, or
the point half-way on the far side for the two nearest modes.
-/

namespace Runlet.DecimalFormat

inductive RoundingStrategy where
  | midpointAwayFromZero
  | midpointNearestEven
  | awayFromZero
  | toZero
  | toPositiveInfinity
  | toNegativeInfinity
  deriving DecidableEq

/-- Half to the even neighbour. -/
def roundHalfEven (q : ℚ) : Int :=
  if Int.fract q < 1 / 2 then ⌊q⌋
  else if 1 / 2 < Int.fract q then ⌊q⌋ + 1
  else if ⌊q⌋ % 2 = 0 then ⌊q⌋ else ⌊q⌋ + 1

def RoundingStrategy.round : RoundingStrategy → ℚ → Int
  | .midpointAwayFromZero, q => roundHalfAway q
  | .midpointNearestEven, q => roundHalfEven q
  | .awayFromZero, q => if 0 ≤ q then ⌈q⌉ else ⌊q⌋
  | .toZero, q => if 0 ≤ q then ⌊q⌋ else ⌈q⌉
  | .toPositiveInfinity, q => ⌈q⌉
  | .toNegativeInfinity, q => ⌊q⌋

/-- What each way of rounding to multiples of `unit` promises of its result. -/
def RoundingStrategy.Fits : RoundingStrategy → ℚ → ℚ → ℚ → Prop
  | .midpointAwayFromZero, unit, n, q => |n - q| ≤ unit / 2
  | .midpointNearestEven, unit, n, q => |n - q| ≤ unit / 2
  | .awayFromZero, unit, n, q => |n| - unit < |q| ∧ |q| ≤ |n|
  | .toZero, unit, n, q => |n| ≤ |q| ∧ |q| < |n| + unit
  | .toPositiveInfinity, unit, n, q => n - unit < q ∧ q ≤ n
  | .toNegativeInfinity, unit, n, q => n ≤ q ∧ q < n + unit

def IsWhole (q : ℚ) : Prop := ∃ k : Int, q = k

/-- The decimal `d` stands where rounding it is no longer rounding `q`: on the
whole number behind `q`, or half-way with `q` on the other side than the
neighbour it goes to. Past the largest decimal it may also be too far away. -/
def RoundingStrategy.Crosses : RoundingStrategy → ℚ → ℚ → Prop
  | .midpointAwayFromZero, q, d => 1 / 2 < |q - d| ∨ (IsWhole (d - 1 / 2) ∧ |q| < |d|)
  | .midpointNearestEven, q, d => 1 / 2 < |q - d| ∨
      ∃ k : Int, d = k + 1 / 2 ∧ ((k % 2 = 0 ∧ d < q) ∨ (k % 2 = 1 ∧ q < d))
  | .awayFromZero, q, d => IsWhole d ∧ |d| < |q|
  | .toZero, q, d => IsWhole d ∧ |q| < |d|
  | .toPositiveInfinity, q, d => IsWhole d ∧ d < q
  | .toNegativeInfinity, q, d => IsWhole d ∧ q < d

/-- The promise does not depend on the unit. -/
theorem RoundingStrategy.fits_scale (strategy : RoundingStrategy) (n q unit : ℚ)
    (hunit : 0 < unit) :
    strategy.Fits unit (n * unit) (q * unit) ↔ strategy.Fits 1 n q := by
  have habs : ∀ a : ℚ, |a * unit| = |a| * unit := by
    intro a
    rw [abs_mul, abs_of_pos hunit]
  have hdist : |n * unit - q * unit| = |n - q| * unit := by
    rw [← sub_mul, habs]
  have hle : ∀ a b : ℚ, a * unit ≤ b * unit ↔ a ≤ b := fun _ _ => mul_le_mul_iff_left₀ hunit
  have hlt : ∀ a b : ℚ, a * unit < b * unit ↔ a < b := fun _ _ => mul_lt_mul_iff_left₀ hunit
  have hhalf : unit / 2 = 1 / 2 * unit := by ring
  have hup : ∀ a : ℚ, a * unit + unit = (a + 1) * unit := fun a => by ring
  have hdown : ∀ a : ℚ, a * unit - unit = (a - 1) * unit := fun a => by ring
  cases strategy <;>
    simp only [RoundingStrategy.Fits, habs, hdist, hhalf, hup, hdown, hle, hlt]

/-- A number never crosses itself. -/
theorem RoundingStrategy.not_crosses_self (strategy : RoundingStrategy) (q : ℚ) :
    ¬ strategy.Crosses q q := by
  have hfar : ¬ 1 / 2 < |q - q| := by
    rw [sub_self, abs_zero]
    norm_num
  cases strategy with
  | midpointAwayFromZero =>
      rintro (h | ⟨-, hlt⟩)
      · exact hfar h
      · exact lt_irrefl _ hlt
  | midpointNearestEven =>
      rintro (h | ⟨k, -, ⟨-, hlt⟩ | ⟨-, hlt⟩⟩)
      · exact hfar h
      · exact lt_irrefl _ hlt
      · exact lt_irrefl _ hlt
  | awayFromZero => exact fun hcross => lt_irrefl _ hcross.2
  | toZero => exact fun hcross => lt_irrefl _ hcross.2
  | toPositiveInfinity => exact fun hcross => lt_irrefl _ hcross.2
  | toNegativeInfinity => exact fun hcross => lt_irrefl _ hcross.2

/-! ### Between the neighbours -/

theorem roundHalfAway_between (q : ℚ) : ⌊q⌋ ≤ roundHalfAway q ∧ roundHalfAway q ≤ ⌈q⌉ := by
  unfold roundHalfAway
  split
  · constructor
    · exact Int.floor_le_floor (by linarith)
    · have hle := Int.floor_le (q + 1 / 2)
      have hceil := Int.le_ceil q
      have hlt : ((⌊q + 1 / 2⌋ : Int) : ℚ) < ((⌈q⌉ + 1 : Int) : ℚ) := by
        push_cast
        linarith
      have := Int.cast_lt.mp hlt
      omega
  · constructor
    · have hle := Int.le_ceil (q - 1 / 2)
      have hfloor := Int.floor_le q
      have hlt : ((⌊q⌋ : Int) : ℚ) < ((⌈q - 1 / 2⌉ + 1 : Int) : ℚ) := by
        push_cast
        linarith
      have := Int.cast_lt.mp hlt
      omega
    · exact Int.ceil_le_ceil (by linarith)

theorem floor_add_one_le_ceil (q : ℚ) (hfract : 0 < Int.fract q) : ⌊q⌋ + 1 ≤ ⌈q⌉ := by
  have hlt : (⌊q⌋ : ℚ) < q := by
    have := Int.self_sub_floor q
    linarith
  have hceil := Int.le_ceil q
  have hcast : (⌊q⌋ : ℚ) < (⌈q⌉ : ℚ) := by linarith
  have := Int.cast_lt.mp hcast
  omega

theorem roundHalfEven_between (q : ℚ) : ⌊q⌋ ≤ roundHalfEven q ∧ roundHalfEven q ≤ ⌈q⌉ := by
  have hceil := Int.floor_le_ceil q
  unfold roundHalfEven
  split
  · omega
  · rename_i hhalf
    have hup := floor_add_one_le_ceil q (by linarith [not_lt.mp hhalf])
    split
    · omega
    · split <;> omega

theorem roundHalfEven_dist (q : ℚ) : |(roundHalfEven q : ℚ) - q| ≤ 1 / 2 := by
  have hfract : q - ⌊q⌋ = Int.fract q := Int.self_sub_floor q
  have hnonneg := Int.fract_nonneg q
  have hlt := Int.fract_lt_one q
  rw [abs_le]
  unfold roundHalfEven
  split
  · constructor <;> linarith
  · rename_i hlow
    have hhalf := not_lt.mp hlow
    split
    · push_cast
      constructor <;> linarith
    · rename_i hhigh
      have hmid := not_lt.mp hhigh
      split
      · constructor <;> linarith
      · push_cast
        constructor <;> linarith

theorem floor_add_half (k : Int) : ⌊(k : ℚ) + 1 / 2⌋ = k := by
  rw [Int.floor_intCast_add]
  norm_num

theorem roundHalfEven_half (k : Int) :
    roundHalfEven ((k : ℚ) + 1 / 2) = if k % 2 = 0 then k else k + 1 := by
  have hfract : Int.fract ((k : ℚ) + 1 / 2) = 1 / 2 := by
    rw [Int.fract, floor_add_half]
    ring
  unfold roundHalfEven
  rw [hfract, floor_add_half, if_neg (lt_irrefl _), if_neg (lt_irrefl _)]

theorem roundHalfAway_half (k : Int) :
    roundHalfAway ((k : ℚ) + 1 / 2) = if 0 ≤ k then k + 1 else k := by
  have hsum : (k : ℚ) + 1 / 2 + 1 / 2 = ((k + 1 : Int) : ℚ) := by
    push_cast
    ring
  have hdiff : (k : ℚ) + 1 / 2 - 1 / 2 = (k : ℚ) := by ring
  unfold roundHalfAway
  rw [hsum, hdiff, Int.floor_intCast, Int.ceil_intCast]
  by_cases hk : 0 ≤ k
  · have hcast : (0 : ℚ) ≤ (k : ℚ) := by exact_mod_cast hk
    rw [if_pos hk, if_pos (by linarith)]
  · have hcast : (k : ℚ) ≤ -1 := by exact_mod_cast (by omega : k ≤ -1)
    rw [if_neg hk, if_neg (by linarith)]

theorem RoundingStrategy.round_between (strategy : RoundingStrategy) (q : ℚ) :
    ⌊q⌋ ≤ strategy.round q ∧ strategy.round q ≤ ⌈q⌉ := by
  have hle := Int.floor_le_ceil q
  cases strategy with
  | midpointAwayFromZero => exact roundHalfAway_between q
  | midpointNearestEven => exact roundHalfEven_between q
  | awayFromZero =>
      simp only [RoundingStrategy.round]
      split <;> omega
  | toZero =>
      simp only [RoundingStrategy.round]
      split <;> omega
  | toPositiveInfinity => exact ⟨hle, le_refl _⟩
  | toNegativeInfinity => exact ⟨le_refl _, hle⟩

/-- A number that is not whole lies in the same unit interval as every number
whose neighbours enclose it. -/
theorem same_interval (x d : ℚ) (hlow : (⌊x⌋ : ℚ) ≤ d) (hhigh : d ≤ (⌈x⌉ : ℚ))
    (hd : ¬ IsWhole d) :
    (⌊d⌋ : ℚ) < d ∧ d < ⌊d⌋ + 1 ∧ (⌊d⌋ : ℚ) < x ∧ x < ⌊d⌋ + 1 := by
  have hne : (⌊d⌋ : ℚ) ≠ d := fun heq => hd ⟨⌊d⌋, heq.symm⟩
  have hfloor : (⌊d⌋ : ℚ) < d := lt_of_le_of_ne (Int.floor_le d) hne
  have hbelow : (⌊x⌋ : ℚ) ≤ (⌊d⌋ : ℚ) := Int.cast_le.mpr (Int.le_floor.mpr hlow)
  have habove : ⌊d⌋ < ⌈x⌉ := Int.cast_lt.mp (hfloor.trans_le hhigh)
  have hx := Int.lt_floor_add_one x
  exact ⟨hfloor, Int.lt_floor_add_one d, Int.lt_ceil.mp habove, by linarith⟩

theorem floor_fits_iff (x d : ℚ) (hlow : (⌊x⌋ : ℚ) ≤ d) (hhigh : d ≤ (⌈x⌉ : ℚ)) :
    ((⌊d⌋ : ℚ) ≤ x ∧ x < ⌊d⌋ + 1) ↔ ¬ (IsWhole d ∧ x < d) := by
  by_cases hwhole : IsWhole d
  · obtain ⟨k, rfl⟩ := hwhole
    have hx := Int.lt_floor_add_one x
    rw [Int.floor_intCast]
    constructor
    · rintro ⟨hle, -⟩ ⟨-, hlt⟩
      linarith
    · intro hnot
      have hle : (k : ℚ) ≤ x := not_lt.mp fun hlt => hnot ⟨⟨k, rfl⟩, hlt⟩
      exact ⟨hle, by linarith⟩
  · obtain ⟨-, -, hfloor, hnext⟩ := same_interval x d hlow hhigh hwhole
    exact ⟨fun _ hcross => hwhole hcross.1, fun _ => ⟨hfloor.le, hnext⟩⟩

theorem ceil_fits_iff (x d : ℚ) (hlow : (⌊x⌋ : ℚ) ≤ d) (hhigh : d ≤ (⌈x⌉ : ℚ)) :
    ((⌈d⌉ : ℚ) - 1 < x ∧ x ≤ ⌈d⌉) ↔ ¬ (IsWhole d ∧ d < x) := by
  have hmirror := floor_fits_iff (-x) (-d)
    (by rw [Int.floor_neg]; push_cast; linarith) (by rw [Int.ceil_neg]; push_cast; linarith)
  have hwhole : IsWhole (-d) ↔ IsWhole d := by
    constructor
    · rintro ⟨k, hk⟩
      exact ⟨-k, by push_cast; linarith⟩
    · rintro ⟨k, hk⟩
      exact ⟨-k, by push_cast; linarith⟩
  rw [Int.floor_neg, hwhole, neg_lt_neg_iff] at hmirror
  rw [← hmirror]
  push_cast
  constructor
  · rintro ⟨hlt, hle⟩
    exact ⟨by linarith, by linarith⟩
  · rintro ⟨hle, hlt⟩
    exact ⟨by linarith, by linarith⟩

/-- Neighbours of zero and above keep a number there, and below likewise. -/
theorem same_sign (x d : ℚ) (hlow : (⌊x⌋ : ℚ) ≤ d) (hhigh : d ≤ (⌈x⌉ : ℚ)) :
    (0 ≤ x → 0 ≤ d) ∧ (x ≤ 0 → d ≤ 0) := by
  constructor
  · intro hx
    have hfloor : (0 : ℚ) ≤ (⌊x⌋ : ℚ) := Int.cast_nonneg (Int.floor_nonneg.mpr hx)
    exact hfloor.trans hlow
  · intro hx
    have hceil : (⌈x⌉ : ℚ) ≤ 0 := by exact_mod_cast Int.ceil_le.mpr (by push_cast; exact hx)
    exact hhigh.trans hceil

/-! ### Behind a closest decimal -/

variable {bound maxScale : Nat}

theorem int_le_of_closest (x : ℚ) (d : Dec bound maxScale) (hclose : Closest x d)
    (hx : x < bound + 1) (k : Int) (hk : (k : ℚ) ≤ x) : (k : ℚ) ≤ d.val := by
  have hlt : k < (bound : Int) + 1 := by
    have : (k : ℚ) < ((bound + 1 : Int) : ℚ) := by
      push_cast
      linarith
    exact Int.cast_lt.mp this
  by_cases hfits : k.natAbs ≤ bound
  · by_contra hbelow
    have hdist := hclose (.ofInt k hfits)
    rw [Dec.ofInt_val, abs_of_nonpos (by linarith), abs_of_nonpos (by linarith)] at hdist
    linarith
  · have hsmall : (k : ℚ) ≤ ((-(bound : Int) : Int) : ℚ) := Int.cast_le.mpr (by omega)
    have hval := (abs_le.mp d.abs_val_le).1
    push_cast at hsmall
    linarith

theorem le_int_of_closest (x : ℚ) (d : Dec bound maxScale) (hclose : Closest x d)
    (hx : -((bound : ℚ) + 1) < x) (k : Int) (hk : x ≤ (k : ℚ)) : d.val ≤ (k : ℚ) := by
  have hlt : -((bound : Int) + 1) < k := by
    have : ((-((bound : Int) + 1) : Int) : ℚ) < (k : ℚ) := by
      push_cast
      linarith
    exact Int.cast_lt.mp this
  by_cases hfits : k.natAbs ≤ bound
  · by_contra habove
    have hdist := hclose (.ofInt k hfits)
    rw [Dec.ofInt_val, abs_of_nonneg (by linarith), abs_of_nonneg (by linarith)] at hdist
    linarith
  · have hlarge : (((bound : Int) : Int) : ℚ) ≤ (k : ℚ) := Int.cast_le.mpr (by omega)
    have hval := (abs_le.mp d.abs_val_le).2
    push_cast at hlarge
    linarith

theorem closest_between (x : ℚ) (d : Dec bound maxScale) (hrange : InRange bound x)
    (hclose : Closest x d) : (⌊x⌋ : ℚ) ≤ d.val ∧ d.val ≤ (⌈x⌉ : ℚ) := by
  obtain ⟨hlow, hhigh⟩ := abs_lt.mp hrange
  exact ⟨int_le_of_closest x d hclose hhigh ⌊x⌋ (Int.floor_le x),
    le_int_of_closest x d hclose hlow ⌈x⌉ (Int.le_ceil x)⟩

/-- Next to a number with a fraction the format has the point half-way. -/
theorem half_representable (hbound : bound % 10 = 5) (hscale : 1 ≤ maxScale)
    (d : Dec bound maxScale) (hd : ¬ IsWhole d.val) :
    ∃ e : Dec bound maxScale, e.val = ⌊d.val⌋ + 1 / 2 := by
  have hplaces : 1 ≤ d.scale := by
    by_contra hzero
    apply hd
    have hscaleZero : d.scale = 0 := by omega
    exact ⟨d.mantissa, by simp [Dec.val, hscaleZero]⟩
  obtain ⟨hlow, hhigh⟩ := abs_le.mp (scaled_abs_le d 1 hplaces)
  have hfloor := Int.floor_le d.val
  have hnext := Int.lt_floor_add_one d.val
  have hupper : ⌊d.val⌋ * 10 ≤ (bound : Int) := by
    have : ((⌊d.val⌋ * 10 : Int) : ℚ) ≤ ((bound : Int) : ℚ) := by
      push_cast
      linarith
    exact Int.cast_le.mp this
  have hlower : -(bound : Int) < (⌊d.val⌋ + 1) * 10 := by
    have : ((-(bound : Int) : Int) : ℚ) < (((⌊d.val⌋ + 1) * 10 : Int) : ℚ) := by
      push_cast
      linarith
    exact Int.cast_lt.mp this
  refine ⟨⟨⌊d.val⌋ * 10 + 5, 1, by omega, hscale⟩, ?_⟩
  simp only [Dec.val, pow_one]
  push_cast
  ring

/-- Below the point half-way the exact number cannot be above it: that point
would be closer. -/
theorem half_reach (hbound : bound % 10 = 5) (hscale : 1 ≤ maxScale) (x : ℚ)
    (d : Dec bound maxScale) (hclose : Closest x d) (hd : ¬ IsWhole d.val) :
    (d.val < ⌊d.val⌋ + 1 / 2 → x ≤ ⌊d.val⌋ + 1 / 2) ∧
    ((⌊d.val⌋ : ℚ) + 1 / 2 < d.val → (⌊d.val⌋ : ℚ) + 1 / 2 ≤ x) := by
  obtain ⟨e, he⟩ := half_representable hbound hscale d hd
  have hdist := hclose e
  rw [he] at hdist
  constructor
  · intro hbelow
    by_contra habove
    rw [abs_of_nonpos (by linarith), abs_of_nonpos (by linarith)] at hdist
    linarith
  · intro habove
    by_contra hbelow
    rw [abs_of_nonneg (by linarith), abs_of_nonneg (by linarith)] at hdist
    linarith

/-- Away from the points half-way both nearest modes fit unless the decimal is
more than a half away. -/
theorem nearest_fits_iff (hbound : bound % 10 = 5) (hscale : 1 ≤ maxScale) (x : ℚ)
    (d : Dec bound maxScale) (hrange : InRange bound x) (hclose : Closest x d) (n : Int)
    (hn : |(n : ℚ) - d.val| ≤ 1 / 2) (hmid : ¬ IsWhole (d.val - 1 / 2)) :
    |(n : ℚ) - x| ≤ 1 / 2 ↔ ¬ 1 / 2 < |x - d.val| := by
  by_cases hwhole : IsWhole d.val
  · obtain ⟨k, hk⟩ := hwhole
    rw [hk] at hn
    have hsame : n = k := eq_of_dist_lt_one n k (by linarith)
    rw [hk, hsame, abs_sub_comm, not_lt]
  · obtain ⟨hlow, hhigh⟩ := closest_between x d hrange hclose
    obtain ⟨hfloor, hnext, hxfloor, hxnext⟩ := same_interval x d.val hlow hhigh hwhole
    obtain ⟨hbelow, habove⟩ := half_reach hbound hscale x d hclose hwhole
    obtain ⟨hnlow, hnhigh⟩ := abs_le.mp hn
    have hne : d.val ≠ ⌊d.val⌋ + 1 / 2 := by
      intro heq
      exact hmid ⟨⌊d.val⌋, by linarith⟩
    rcases lt_or_gt_of_ne hne with hlt | hgt
    · have hx := hbelow hlt
      have hsame : n = ⌊d.val⌋ := by
        apply eq_of_dist_lt_one
        rw [abs_lt]
        constructor <;> linarith
      have hfits : |(n : ℚ) - x| ≤ 1 / 2 := by
        rw [hsame, abs_le]
        constructor <;> linarith
      have hdist : |x - d.val| ≤ 1 / 2 := by
        rw [abs_le]
        constructor <;> linarith
      exact ⟨fun _ => not_lt.mpr hdist, fun _ => hfits⟩
    · have hx := habove hgt
      have hsame : n = ⌊d.val⌋ + 1 := by
        apply eq_of_dist_lt_one
        push_cast
        rw [abs_lt]
        constructor <;> linarith
      have hfits : |(n : ℚ) - x| ≤ 1 / 2 := by
        rw [hsame, abs_le]
        push_cast
        constructor <;> linarith
      have hdist : |x - d.val| ≤ 1 / 2 := by
        rw [abs_le]
        constructor <;> linarith
      exact ⟨fun _ => not_lt.mpr hdist, fun _ => hfits⟩

/-- A decimal half-way between two whole numbers stands within a half of the
exact number, which is strictly between the two. -/
theorem halfway_between (x : ℚ) (d : Dec bound maxScale) (hrange : InRange bound x)
    (hclose : Closest x d) (k : Int) (hd : d.val = k + 1 / 2) :
    (k : ℚ) < x ∧ x < k + 1 ∧ ¬ 1 / 2 < |x - d.val| := by
  obtain ⟨hlow, hhigh⟩ := closest_between x d hrange hclose
  have hwhole : ¬ IsWhole d.val := by
    rintro ⟨m, hm⟩
    have hdouble : ((2 * m : Int) : ℚ) = ((2 * k + 1 : Int) : ℚ) := by
      push_cast
      linarith
    have := Int.cast_inj.mp hdouble
    omega
  obtain ⟨-, -, hfloor, hnext⟩ := same_interval x d.val hlow hhigh hwhole
  rw [hd, floor_add_half] at hfloor hnext
  refine ⟨hfloor, hnext, not_lt.mpr ?_⟩
  rw [hd, abs_le]
  constructor <;> linarith

/-- From a point half-way the lower neighbour fits what is not above the point,
the upper one what is not below it. -/
theorem halfway_fits_iff (x : ℚ) (k : Int) (hlow : (k : ℚ) < x) (hhigh : x < k + 1) :
    (|(k : ℚ) - x| ≤ 1 / 2 ↔ ¬ (k : ℚ) + 1 / 2 < x) ∧
    (|((k + 1 : Int) : ℚ) - x| ≤ 1 / 2 ↔ ¬ x < (k : ℚ) + 1 / 2) := by
  constructor
  · rw [abs_of_neg (by linarith), not_lt]
    constructor <;> intro h <;> linarith
  · push_cast
    rw [abs_of_pos (by linarith), not_lt]
    constructor <;> intro h <;> linarith

theorem midpointAwayFromZero_fits_iff (hbound : bound % 10 = 5) (hscale : 1 ≤ maxScale)
    (x : ℚ) (d : Dec bound maxScale) (hrange : InRange bound x) (hclose : Closest x d) :
    |(roundHalfAway d.val : ℚ) - x| ≤ 1 / 2 ↔
      ¬ (1 / 2 < |x - d.val| ∨ (IsWhole (d.val - 1 / 2) ∧ |x| < |d.val|)) := by
  by_cases hmid : IsWhole (d.val - 1 / 2)
  · obtain ⟨k, hk⟩ := hmid
    have hval : d.val = k + 1 / 2 := by linarith
    obtain ⟨hlow, hhigh, hnear⟩ := halfway_between x d hrange hclose k hval
    obtain ⟨hdown, hup⟩ := halfway_fits_iff x k hlow hhigh
    have hcross : (1 / 2 < |x - d.val| ∨ (IsWhole (d.val - 1 / 2) ∧ |x| < |d.val|)) ↔
        |x| < |d.val| := by
      constructor
      · rintro (hfar | ⟨-, hlt⟩)
        · exact absurd hfar hnear
        · exact hlt
      · intro hlt
        exact .inr ⟨⟨k, hk⟩, hlt⟩
    rw [hcross, hval, roundHalfAway_half]
    by_cases hsign : 0 ≤ k
    · have hcast : (0 : ℚ) ≤ (k : ℚ) := by exact_mod_cast hsign
      rw [if_pos hsign, hup, abs_of_pos (by linarith), abs_of_pos (by linarith)]
    · have hcast : (k : ℚ) ≤ -1 := by exact_mod_cast (by omega : k ≤ -1)
      rw [if_neg hsign, hdown, abs_of_neg (by linarith), abs_of_neg (by linarith),
        neg_lt_neg_iff]
  · rw [nearest_fits_iff hbound hscale x d hrange hclose _ (roundHalfAway_dist d.val) hmid]
    have hnone : ¬ (IsWhole (d.val - 1 / 2) ∧ |x| < |d.val|) := fun hcross => hmid hcross.1
    rw [or_iff_left hnone]

theorem midpointNearestEven_fits_iff (hbound : bound % 10 = 5) (hscale : 1 ≤ maxScale)
    (x : ℚ) (d : Dec bound maxScale) (hrange : InRange bound x) (hclose : Closest x d) :
    |(roundHalfEven d.val : ℚ) - x| ≤ 1 / 2 ↔
      ¬ (1 / 2 < |x - d.val| ∨ ∃ k : Int, d.val = k + 1 / 2 ∧
        ((k % 2 = 0 ∧ d.val < x) ∨ (k % 2 = 1 ∧ x < d.val))) := by
  by_cases hmid : IsWhole (d.val - 1 / 2)
  · obtain ⟨k, hk⟩ := hmid
    have hval : d.val = k + 1 / 2 := by linarith
    obtain ⟨hlow, hhigh, hnear⟩ := halfway_between x d hrange hclose k hval
    obtain ⟨hdown, hup⟩ := halfway_fits_iff x k hlow hhigh
    have hcross : (1 / 2 < |x - d.val| ∨ ∃ k : Int, d.val = k + 1 / 2 ∧
        ((k % 2 = 0 ∧ d.val < x) ∨ (k % 2 = 1 ∧ x < d.val))) ↔
        (k % 2 = 0 ∧ d.val < x) ∨ (k % 2 = 1 ∧ x < d.val) := by
      constructor
      · rintro (hfar | ⟨m, hm, hside⟩)
        · exact absurd hfar hnear
        · have hsame : m = k := by
            have : (m : ℚ) = (k : ℚ) := by linarith
            exact Int.cast_inj.mp this
          rwa [hsame] at hside
      · intro hside
        exact .inr ⟨k, hval, hside⟩
    rw [hcross, hval, roundHalfEven_half]
    by_cases heven : k % 2 = 0
    · rw [if_pos heven, hdown]
      simp [heven]
    · have hodd : k % 2 = 1 := by omega
      rw [if_neg heven, hup]
      simp [hodd]
  · rw [nearest_fits_iff hbound hscale x d hrange hclose _ (roundHalfEven_dist d.val) hmid]
    have hnone : ¬ ∃ k : Int, d.val = k + 1 / 2 ∧
        ((k % 2 = 0 ∧ d.val < x) ∨ (k % 2 = 1 ∧ x < d.val)) := by
      rintro ⟨k, hk, -⟩
      exact hmid ⟨k, by linarith⟩
    rw [or_iff_left hnone]

/-- Toward zero is down above zero and up below it, and nothing crosses zero. -/
theorem toZero_fits_iff (x d : ℚ) (hlow : (⌊x⌋ : ℚ) ≤ d) (hhigh : d ≤ (⌈x⌉ : ℚ)) :
    RoundingStrategy.toZero.Fits 1 (RoundingStrategy.toZero.round d) x ↔
      ¬ RoundingStrategy.toZero.Crosses x d := by
  simp only [RoundingStrategy.Fits, RoundingStrategy.round, RoundingStrategy.Crosses]
  rcases le_or_gt 0 x with hx | hx
  · have hd : 0 ≤ d := (same_sign x d hlow hhigh).1 hx
    have hround : (0 : ℚ) ≤ (⌊d⌋ : ℚ) := Int.cast_nonneg (Int.floor_nonneg.mpr hd)
    rw [if_pos hd, abs_of_nonneg hx, abs_of_nonneg hd, abs_of_nonneg hround]
    exact floor_fits_iff x d hlow hhigh
  · have hd : d ≤ 0 := (same_sign x d hlow hhigh).2 hx.le
    have hround : (if 0 ≤ d then ⌊d⌋ else ⌈d⌉) = ⌈d⌉ := by
      split
      · rename_i hnonneg
        obtain rfl : d = 0 := le_antisymm hd hnonneg
        simp
      · rfl
    have hceil : (⌈d⌉ : ℚ) ≤ 0 := by
      exact_mod_cast Int.ceil_le.mpr (by push_cast; exact hd)
    rw [hround, abs_of_neg hx, abs_of_nonpos hd, abs_of_nonpos hceil, neg_lt_neg_iff,
      ← ceil_fits_iff x d hlow hhigh]
    constructor
    · rintro ⟨hle, hlt⟩
      exact ⟨by linarith, by linarith⟩
    · rintro ⟨hlt, hle⟩
      exact ⟨by linarith, by linarith⟩

theorem awayFromZero_fits_iff (x d : ℚ) (hlow : (⌊x⌋ : ℚ) ≤ d) (hhigh : d ≤ (⌈x⌉ : ℚ)) :
    RoundingStrategy.awayFromZero.Fits 1 (RoundingStrategy.awayFromZero.round d) x ↔
      ¬ RoundingStrategy.awayFromZero.Crosses x d := by
  simp only [RoundingStrategy.Fits, RoundingStrategy.round, RoundingStrategy.Crosses]
  rcases le_or_gt 0 x with hx | hx
  · have hd : 0 ≤ d := (same_sign x d hlow hhigh).1 hx
    have hround : (0 : ℚ) ≤ (⌈d⌉ : ℚ) := Int.cast_nonneg (Int.ceil_nonneg hd)
    rw [if_pos hd, abs_of_nonneg hx, abs_of_nonneg hd, abs_of_nonneg hround]
    exact ceil_fits_iff x d hlow hhigh
  · have hd : d ≤ 0 := (same_sign x d hlow hhigh).2 hx.le
    have hround : (if 0 ≤ d then ⌈d⌉ else ⌊d⌋) = ⌊d⌋ := by
      split
      · rename_i hnonneg
        obtain rfl : d = 0 := le_antisymm hd hnonneg
        simp
      · rfl
    have hfloor : (⌊d⌋ : ℚ) ≤ 0 := (Int.floor_le d).trans hd
    rw [hround, abs_of_neg hx, abs_of_nonpos hd, abs_of_nonpos hfloor, neg_lt_neg_iff,
      ← floor_fits_iff x d hlow hhigh]
    constructor
    · rintro ⟨hlt, hle⟩
      exact ⟨by linarith, by linarith⟩
    · rintro ⟨hle, hlt⟩
      exact ⟨by linarith, by linarith⟩

/-- Rounding a closest decimal of `x` keeps what the rounding promises about
`x` exactly when the decimal does not cross. -/
theorem RoundingStrategy.fits_iff (strategy : RoundingStrategy) (hbound : bound % 10 = 5)
    (hscale : 1 ≤ maxScale) (x : ℚ) (d : Dec bound maxScale) (hrange : InRange bound x)
    (hclose : Closest x d) :
    strategy.Fits 1 (strategy.round d.val) x ↔ ¬ strategy.Crosses x d.val := by
  obtain ⟨hlow, hhigh⟩ := closest_between x d hrange hclose
  cases strategy with
  | midpointAwayFromZero =>
      exact midpointAwayFromZero_fits_iff hbound hscale x d hrange hclose
  | midpointNearestEven =>
      exact midpointNearestEven_fits_iff hbound hscale x d hrange hclose
  | awayFromZero => exact awayFromZero_fits_iff x d.val hlow hhigh
  | toZero => exact toZero_fits_iff x d.val hlow hhigh
  | toPositiveInfinity => exact ceil_fits_iff x d.val hlow hhigh
  | toNegativeInfinity => exact floor_fits_iff x d.val hlow hhigh

/-- The whole number stays less than a unit away. -/
theorem RoundingStrategy.round_near (strategy : RoundingStrategy) (x : ℚ)
    (d : Dec bound maxScale) (hrange : InRange bound x) (hclose : Closest x d) :
    |(strategy.round d.val : ℚ) - x| < 1 := by
  obtain ⟨hlow, hhigh⟩ := closest_between x d hrange hclose
  obtain ⟨hdown, hup⟩ := strategy.round_between d.val
  have hfloor : (⌊x⌋ : ℚ) ≤ (strategy.round d.val : ℚ) :=
    Int.cast_le.mpr ((Int.le_floor.mpr hlow).trans hdown)
  have hceil : (strategy.round d.val : ℚ) ≤ (⌈x⌉ : ℚ) :=
    Int.cast_le.mpr (hup.trans (Int.ceil_le.mpr hhigh))
  have hbelow := Int.lt_floor_add_one x
  have habove := Int.ceil_lt_add_one x
  rw [abs_lt]
  constructor <;> linarith

/-- Rounds to scale zero; the whole number has no more digits than the mantissa. -/
def Dec.roundWhole (strategy : RoundingStrategy) (d : Dec bound maxScale) :
    Dec bound maxScale :=
  .ofInt (strategy.round d.val) (by
    obtain ⟨hdown, hup⟩ := strategy.round_between d.val
    have hfloor := floor_natAbs_le d.val d.abs_val_le
    have hceil := floor_natAbs_le (-d.val) (by rw [abs_neg]; exact d.abs_val_le)
    rw [Int.floor_neg] at hceil
    omega)

@[simp] theorem Dec.roundWhole_val (strategy : RoundingStrategy) (d : Dec bound maxScale) :
    (d.roundWhole strategy).val = strategy.round d.val := Dec.ofInt_val _ _

end Runlet.DecimalFormat
