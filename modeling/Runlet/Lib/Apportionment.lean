import Mathlib.Algebra.BigOperators.Ring.Finset
import Mathlib.Algebra.Order.BigOperators.Group.Finset
import Mathlib.Algebra.Order.Floor.Ring
import Mathlib.Tactic.Linarith

/-!
Apportionment by largest remainders. Quotas that add up to a whole total are
rounded to whole shares with the same sum: each one down or up, and up where the
remainder is larger, with ties in the order of the shares. What is left over
behind the floors is the sum of the remainders, so a quota that is whole is
never rounded up.
-/

namespace Runlet.Apportionment

variable {ι K : Type} [Fintype ι] [Field K] [LinearOrder K] [FloorRing K]

/-- The units left over behind the floors. -/
def leftover (quota : ι → K) (total : Int) : Int := total - ∑ i, ⌊quota i⌋

theorem sum_fract (quota : ι → K) (total : Int) (hsum : ∑ i, quota i = total) :
    ∑ i, Int.fract (quota i) = (leftover quota total : K) := by
  have hsplit : ∑ i, Int.fract (quota i) = ∑ i, quota i - ∑ i, (⌊quota i⌋ : K) := by
    rw [← Finset.sum_sub_distrib]
    rfl
  rw [hsplit, hsum, leftover]
  push_cast
  rfl

/-- There are never more units left over than shares. -/
theorem leftover_bounds [IsStrictOrderedRing K] (quota : ι → K) (total : Int) (hsum : ∑ i, quota i = total) :
    0 ≤ leftover quota total ∧ leftover quota total ≤ Fintype.card ι := by
  have hfract := sum_fract quota total hsum
  constructor
  · have hnonneg : (0 : K) ≤ (leftover quota total : K) := by
      rw [← hfract]
      exact Finset.sum_nonneg fun i _ => Int.fract_nonneg (quota i)
    exact_mod_cast hnonneg
  · have hle : (leftover quota total : K) ≤ (Fintype.card ι : K) := by
      calc
        (leftover quota total : K) = ∑ i, Int.fract (quota i) := hfract.symm
        _ ≤ ∑ _i : ι, (1 : K) := Finset.sum_le_sum fun i _ => (Int.fract_lt_one (quota i)).le
        _ = (Fintype.card ι : K) := by simp
    exact_mod_cast hle

variable [LinearOrder ι]

/-- The larger remainder goes first, and the earlier of equal ones. -/
def Ahead (quota : ι → K) (i j : ι) : Prop :=
  Int.fract (quota j) < Int.fract (quota i) ∨
    (Int.fract (quota j) = Int.fract (quota i) ∧ i < j)

structure LargestRemainder (quota : ι → K) (total : Int) (share : ι → Int) : Prop where
  near : ∀ i, share i = ⌊quota i⌋ ∨ share i = ⌊quota i⌋ + 1
  order : ∀ i j, share i = ⌊quota i⌋ + 1 → share j = ⌊quota j⌋ → Ahead quota i j
  sum : ∑ i, share i = total

/-- Raising as many shares as units are left over, those that go first. -/
theorem largestRemainder_of_raised (quota : ι → K) (total : Int) (raised : Finset ι)
    (hcard : (raised.card : Int) = leftover quota total)
    (hahead : ∀ i ∈ raised, ∀ j ∉ raised, Ahead quota i j) :
    LargestRemainder quota total fun i => ⌊quota i⌋ + if i ∈ raised then 1 else 0 where
  near := by
    intro i
    by_cases hi : i ∈ raised
    · right
      simp [hi]
    · left
      simp [hi]
  order := by
    intro i j hi hj
    apply hahead
    · by_contra hnot
      simp [hnot] at hi
    · intro hmem
      simp [hmem] at hj
  sum := by
    have hcount : ∑ i, (if i ∈ raised then (1 : Int) else 0) = raised.card := by
      simp
    rw [Finset.sum_add_distrib, hcount, hcard, leftover]
    omega

/-- As many shares are raised as there are units left over. -/
theorem LargestRemainder.card_raised {quota : ι → K} {total : Int} {share : ι → Int}
    (h : LargestRemainder quota total share) :
    ((Finset.univ.filter fun i => share i = ⌊quota i⌋ + 1).card : Int) =
      leftover quota total := by
  have hshare : ∀ i, share i = ⌊quota i⌋ + if share i = ⌊quota i⌋ + 1 then 1 else 0 := by
    intro i
    rcases h.near i with hdown | hup
    · rw [if_neg (by omega), add_zero]
      exact hdown
    · rw [if_pos hup]
      exact hup
  have hcount : ∑ i, (if share i = ⌊quota i⌋ + 1 then (1 : Int) else 0) =
      (Finset.univ.filter fun i => share i = ⌊quota i⌋ + 1).card := by
    simp
  have hsum : ∑ i, share i = ∑ i, ⌊quota i⌋ +
      ∑ i, (if share i = ⌊quota i⌋ + 1 then (1 : Int) else 0) := by
    rw [← Finset.sum_add_distrib]
    exact Finset.sum_congr rfl fun i _ => hshare i
  rw [← hcount, leftover, ← h.sum, hsum]
  omega

/-- A whole quota is its share: were it raised, every other quota with a
remainder would be too, and there are not that many units. -/
theorem LargestRemainder.whole [IsStrictOrderedRing K] {quota : ι → K} {total : Int} {share : ι → Int}
    (h : LargestRemainder quota total share) (hsum : ∑ i, quota i = total) (i : ι)
    (hwhole : Int.fract (quota i) = 0) : share i = ⌊quota i⌋ := by
  rcases h.near i with hdown | hup
  · exact hdown
  exfalso
  have hothers : ∀ j ∈ Finset.univ, j ∉ Finset.univ.filter (fun j => share j = ⌊quota j⌋ + 1) →
      Int.fract (quota j) = 0 := by
    intro j _ hj
    have hnot : share j = ⌊quota j⌋ := by
      rcases h.near j with hdown | hraised
      · exact hdown
      · exact absurd (Finset.mem_filter.mpr ⟨Finset.mem_univ j, hraised⟩) hj
    rcases h.order i j hup hnot with hless | ⟨hsame, -⟩
    · have := Int.fract_nonneg (quota j)
      linarith
    · rw [hsame, hwhole]
  have hless : ∑ j ∈ Finset.univ.filter (fun j => share j = ⌊quota j⌋ + 1), Int.fract (quota j) <
      ∑ _j ∈ Finset.univ.filter (fun j => share j = ⌊quota j⌋ + 1), (1 : K) := by
    apply Finset.sum_lt_sum
    · intro j _
      exact (Int.fract_lt_one (quota j)).le
    · exact ⟨i, Finset.mem_filter.mpr ⟨Finset.mem_univ i, hup⟩, Int.fract_lt_one (quota i)⟩
  have hraised : ∑ j ∈ Finset.univ.filter (fun j => share j = ⌊quota j⌋ + 1),
      Int.fract (quota j) = ∑ j, Int.fract (quota j) :=
    Finset.sum_subset (Finset.filter_subset _ _) hothers
  have hcard : ((Finset.univ.filter fun j => share j = ⌊quota j⌋ + 1).card : K) =
      (leftover quota total : K) := by
    exact_mod_cast congrArg (Int.cast : Int → K) h.card_raised
  rw [hraised, sum_fract quota total hsum] at hless
  simp only [Finset.sum_const, nsmul_eq_mul, mul_one, hcard] at hless
  exact lt_irrefl _ hless

end Runlet.Apportionment
