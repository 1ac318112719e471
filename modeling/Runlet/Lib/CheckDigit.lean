import Mathlib.Algebra.Ring.Basic
import Mathlib.Algebra.GroupWithZero.Basic
import Mathlib.Data.Set.Function
import Mathlib.Tactic.Ring

/-!
Check characters over any alphabet: a word is valid when a sum over its symbols
has a given value. The first kind of sum weighs each symbol by its position,
counted from the end; the second reads the word from the front, each symbol
scaling what was read before it.
-/

namespace Runlet.CheckDigit

section Weighted

variable {α M : Type} [AddCommGroup M] (weight : Nat → α → M)

/-- The sum of the weights of symbols at consecutive positions. -/
def total : Nat → List α → M
  | _, [] => 0
  | position, x :: rest => weight position x + total (position + 1) rest

theorem total_append (position : Nat) (xs ys : List α) :
    total weight position (xs ++ ys) =
      total weight position xs + total weight (position + xs.length) ys := by
  induction xs generalizing position with
  | nil => simp [total]
  | cons x xs ih =>
      have hplace : position + 1 + xs.length = position + (xs.length + 1) := by omega
      rw [List.cons_append, total, total, ih, hplace, List.length_cons, ← add_assoc]

/-- Another symbol at one position changes the sum when its weight differs. -/
theorem total_replace_ne (position : Nat) (xs ys : List α) (x y : α)
    (hweight : weight (position + xs.length) x ≠ weight (position + xs.length) y) :
    total weight position (xs ++ y :: ys) ≠ total weight position (xs ++ x :: ys) := by
  rw [total_append, total_append, total, total]
  intro h
  exact hweight (add_right_cancel (add_left_cancel h)).symm

/-- Two neighbours change places without a trace exactly when their weights add up. -/
theorem total_swap_iff (position : Nat) (xs ys : List α) (x y : α) :
    total weight position (xs ++ y :: x :: ys) = total weight position (xs ++ x :: y :: ys) ↔
      weight (position + xs.length) y + weight (position + xs.length + 1) x =
        weight (position + xs.length) x + weight (position + xs.length + 1) y := by
  rw [total_append, total_append, add_right_inj, total, total, total, total, ← add_assoc,
    ← add_assoc, add_left_inj]

/-- A word has one check symbol when the weights at its position are a bijection. -/
theorem existsUnique_check (symbols : Set α) (position : Nat) (body : List α)
    (hbijective : Set.BijOn (weight position) symbols Set.univ) :
    ∃! check, check ∈ symbols ∧ total weight position (check :: body) = 0 := by
  obtain ⟨check, hmem, hweight⟩ :=
    hbijective.surjOn (Set.mem_univ (-total weight (position + 1) body))
  refine ⟨check, ⟨hmem, ?_⟩, ?_⟩
  · rw [total, hweight, neg_add_cancel]
  · rintro other ⟨hother, hzero⟩
    apply hbijective.injOn hother hmem
    rw [total] at hzero
    rw [hweight]
    exact eq_neg_of_add_eq_zero_left hzero

/-- Symbols without weight may stand in front of the last position. -/
theorem total_weightless (position : Nat) (xs ys : List α)
    (hzero : ∀ k, ∀ y ∈ ys, weight k y = 0) :
    total weight position (xs ++ ys) = total weight position xs := by
  have hys : ∀ k, total weight k ys = 0 := by
    induction ys with
    | nil => exact fun _ => rfl
    | cons y ys ih =>
        intro k
        rw [total, hzero k y (List.mem_cons_self ..), zero_add]
        exact ih (fun k z hz => hzero k z (List.mem_cons_of_mem _ hz)) (k + 1)
  rw [total_append, hys, add_zero]

end Weighted

section Scaled

variable {α R : Type} [CommRing R] (scale value : α → R)

/-- What is read of a word from the front. -/
def horner : R → List α → R
  | acc, [] => acc
  | acc, x :: rest => horner (acc * scale x + value x) rest

/-- How far a word moves what was read before it. -/
def shift : List α → R
  | [] => 1
  | x :: rest => scale x * shift rest

theorem horner_append (acc : R) (xs ys : List α) :
    horner scale value acc (xs ++ ys) =
      horner scale value (horner scale value acc xs) ys := by
  induction xs generalizing acc with
  | nil => rfl
  | cons x xs ih => exact ih _

/-- The rest of a word keeps a difference, scaled. -/
theorem horner_sub (a b : R) (xs : List α) :
    horner scale value a xs - horner scale value b xs = (a - b) * shift scale xs := by
  induction xs generalizing a b with
  | nil => rw [horner, horner, shift, mul_one]
  | cons x xs ih =>
      rw [horner, horner, ih, shift]
      ring

variable [NoZeroDivisors R] [Nontrivial R]

theorem shift_ne_zero (xs : List α) (hscale : ∀ x ∈ xs, scale x ≠ 0) : shift scale xs ≠ 0 := by
  induction xs with
  | nil => exact one_ne_zero
  | cons x xs ih =>
      apply mul_ne_zero (hscale x (List.mem_cons_self ..))
      exact ih fun y hy => hscale y (List.mem_cons_of_mem _ hy)

/-- What was read before stays apart through the rest of the word. -/
theorem horner_ne (a b : R) (xs : List α) (hab : a ≠ b) (hscale : ∀ x ∈ xs, scale x ≠ 0) :
    horner scale value a xs ≠ horner scale value b xs := by
  apply sub_ne_zero.mp
  rw [horner_sub]
  exact mul_ne_zero (sub_ne_zero.mpr hab) (shift_ne_zero scale xs hscale)

/-- Another symbol of the same scale and another value changes what is read. -/
theorem horner_replace_ne (acc : R) (xs ys : List α) (x y : α) (hsame : scale x = scale y)
    (hvalue : value x ≠ value y) (hscale : ∀ z ∈ ys, scale z ≠ 0) :
    horner scale value acc (xs ++ x :: ys) ≠ horner scale value acc (xs ++ y :: ys) := by
  rw [horner_append, horner_append]
  apply horner_ne scale value _ _ ys _ hscale
  rw [hsame]
  exact fun h => hvalue (add_left_cancel h)

/-- Neighbours of the same scale, other than one, do not change places unseen. -/
theorem horner_swap_ne (acc : R) (xs ys : List α) (x y : α) (hsame : scale x = scale y)
    (hone : scale x ≠ 1) (hvalue : value x ≠ value y) (hscale : ∀ z ∈ ys, scale z ≠ 0) :
    horner scale value acc (xs ++ x :: y :: ys) ≠ horner scale value acc (xs ++ y :: x :: ys) := by
  rw [horner_append, horner_append]
  apply horner_ne scale value _ _ ys _ hscale
  apply sub_ne_zero.mp
  have hdifference (a : R) : (a * scale x + value x) * scale y + value y -
      ((a * scale y + value y) * scale x + value x) =
      (value x - value y) * (scale x - 1) := by
    rw [← hsame]
    ring
  rw [hdifference]
  exact mul_ne_zero (sub_ne_zero.mpr hvalue) (sub_ne_zero.mpr hone)

end Scaled

end Runlet.CheckDigit
