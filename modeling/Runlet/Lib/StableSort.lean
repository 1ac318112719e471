import Mathlib.Data.Int.Order.Basic
import Mathlib.Data.List.Sort

/-!
Sorting with a comparator that answers with a sign. A sort owes a stable sorted
permutation to a comparator that is a total preorder on the list at hand, and any
permutation to others; insertion sort is one that pays.
-/

namespace Runlet.StableSort

variable {α K : Type}

/-- The sign is about one total preorder on the members of the list. -/
structure TotalPreorder (cmp : α → α → Int) (xs : List α) : Prop where
  opposite : ∀ a ∈ xs, ∀ b ∈ xs, 0 < cmp b a ↔ cmp a b < 0
  trans : ∀ a ∈ xs, ∀ b ∈ xs, ∀ c ∈ xs, cmp a b ≤ 0 → cmp b c ≤ 0 → cmp a c ≤ 0

/-- Sorted, with what compares equal in the order it came in. -/
structure StableSorted (cmp : α → α → Int) (xs sorted : List α) : Prop where
  perm : sorted.Perm xs
  ordered : sorted.Pairwise fun a b => cmp a b ≤ 0
  stable : ∀ a ∈ xs, sorted.filter (fun b => cmp a b = 0) = xs.filter fun b => cmp a b = 0

/-- What a sort promises of comparators that are total preorders, and of others. -/
structure Sorts (sort : (α → α → Int) → List α → List α) : Prop where
  perm : ∀ cmp xs, (sort cmp xs).Perm xs
  sorted : ∀ cmp xs, TotalPreorder cmp xs → StableSorted cmp xs (sort cmp xs)

/-! ### Total preorders -/

theorem TotalPreorder.refl {cmp : α → α → Int} {xs : List α} (h : TotalPreorder cmp xs) (a : α)
    (ha : a ∈ xs) : cmp a a = 0 := by
  have hself := h.opposite a ha a ha
  omega

theorem TotalPreorder.mono {cmp : α → α → Int} {xs ys : List α} (h : TotalPreorder cmp xs)
    (hsub : ys ⊆ xs) : TotalPreorder cmp ys where
  opposite := fun a ha b hb => h.opposite a (hsub ha) b (hsub hb)
  trans := fun a ha b hb c hc => h.trans a (hsub ha) b (hsub hb) c (hsub hc)

/-- The opposite direction is a total preorder as well. -/
theorem TotalPreorder.reverse {cmp : α → α → Int} {xs : List α} (h : TotalPreorder cmp xs) :
    TotalPreorder (fun a b => cmp a b * -1) xs where
  opposite := by
    intro a ha b hb
    have hback := h.opposite b hb a ha
    omega
  trans := by
    intro a ha b hb c hc hab hbc
    have hab : cmp a b * -1 ≤ 0 := hab
    have hbc : cmp b c * -1 ≤ 0 := hbc
    have hba := h.opposite a ha b hb
    have hcb := h.opposite b hb c hc
    have hac := h.opposite a ha c hc
    have hca := h.trans c hc b hb a ha (by omega) (by omega)
    show cmp a c * -1 ≤ 0
    omega

theorem totalPreorder_congr {cmp cmp' : α → α → Int} {xs : List α}
    (heq : ∀ a ∈ xs, ∀ b ∈ xs, cmp' a b = cmp a b) (h : TotalPreorder cmp xs) :
    TotalPreorder cmp' xs where
  opposite := by
    intro a ha b hb
    rw [heq a ha b hb, heq b hb a ha]
    exact h.opposite a ha b hb
  trans := by
    intro a ha b hb c hc
    rw [heq a ha b hb, heq b hb c hc, heq a ha c hc]
    exact h.trans a ha b hb c hc

/-- The sign of two keys. -/
def order [LinearOrder K] (x y : K) : Int := if x < y then -1 else if y < x then 1 else 0

theorem order_eq_ite [LinearOrder K] (x y : K) (p q : Prop) [Decidable p] [Decidable q]
    (hp : p ↔ x < y) (hq : q ↔ y < x) :
    (if p then -1 else if q then 1 else 0 : Int) = order x y := by
  unfold order
  simp only [hp, hq]

theorem order_le_zero [LinearOrder K] (x y : K) : order x y ≤ 0 ↔ x ≤ y := by
  unfold order
  split
  · rename_i hlt
    simp [hlt.le]
  · split
    · rename_i hlt
      simp [hlt]
    · rename_i hle
      simp [not_lt.mp hle]

theorem order_eq_zero [LinearOrder K] (x y : K) : order x y = 0 ↔ x = y := by
  unfold order
  split
  · rename_i hlt
    simp [hlt.ne]
  · rename_i hnot
    split
    · rename_i hlt
      simp [hlt.ne']
    · rename_i hle
      simp [le_antisymm (not_lt.mp hle) (not_lt.mp hnot)]

theorem order_comm [LinearOrder K] (x y : K) : order y x = -order x y := by
  unfold order
  split
  · rename_i hlt
    rw [if_neg (not_lt.mpr hlt.le)]
  · rename_i hnot
    split
    · rfl
    · rfl

theorem totalPreorder_order [LinearOrder K] (key : α → K) (xs : List α) :
    TotalPreorder (fun a b => order (key a) (key b)) xs where
  opposite := by
    intro a _ b _
    rw [order_comm (key a) (key b)]
    omega
  trans := by
    intro a _ b _ c _
    rw [order_le_zero, order_le_zero, order_le_zero]
    exact le_trans

/-- Some values come last, whatever the comparator says of them. -/
def putLast (last : α → Bool) (cmp : α → α → Int) (a b : α) : Int :=
  match last a, last b with
  | true, true => 0
  | true, false => 1
  | false, true => -1
  | false, false => cmp a b

theorem putLast_of_not (last : α → Bool) (cmp : α → α → Int) (a b : α) (ha : last a = false)
    (hb : last b = false) : putLast last cmp a b = cmp a b := by
  simp only [putLast, ha, hb]

theorem TotalPreorder.putLast {cmp : α → α → Int} {xs : List α} (h : TotalPreorder cmp xs)
    (last : α → Bool) : TotalPreorder (putLast last cmp) xs where
  opposite := by
    intro a ha b hb
    unfold StableSort.putLast
    cases last a <;> cases last b <;> first | exact h.opposite a ha b hb | simp
  trans := by
    intro a ha b hb c hc
    unfold StableSort.putLast
    cases last a <;> cases last b <;> cases last c <;>
      first | exact h.trans a ha b hb c hc | simp

/-! ### Insertion sort -/

section

variable (cmp : α → α → Int)

theorem ordered_orderedInsert (x : α) (xs : List α) (h : TotalPreorder cmp (x :: xs))
    (hxs : xs.Pairwise fun a b => cmp a b ≤ 0) :
    (xs.orderedInsert (fun a b => cmp a b ≤ 0) x).Pairwise fun a b => cmp a b ≤ 0 := by
  induction xs with
  | nil => simp
  | cons y ys ih =>
      obtain ⟨hy, hys⟩ := List.pairwise_cons.mp hxs
      have hmem : y ∈ x :: y :: ys := by simp
      rw [List.orderedInsert_cons]
      split
      · rename_i hxy
        apply List.pairwise_cons.mpr
        refine ⟨?_, hxs⟩
        intro z hz
        rcases List.mem_cons.mp hz with rfl | hrest
        · exact hxy
        · exact h.trans x List.mem_cons_self y hmem z (List.mem_cons_of_mem x hz) hxy (hy z hrest)
      · rename_i hxy
        have hinner : TotalPreorder cmp (x :: ys) :=
          h.mono (List.cons_subset_cons x (List.subset_cons_self y ys))
        apply List.pairwise_cons.mpr
        refine ⟨?_, ih hinner hys⟩
        intro z hz
        rcases (List.mem_orderedInsert _).mp hz with rfl | hrest
        · have hback := h.opposite y hmem z List.mem_cons_self
          omega
        · exact hy z hrest

/-- Insertion puts a value in front of its equals. -/
theorem filter_orderedInsert (equal : α → Bool) (x : α) (xs : List α)
    (hfront : equal x = true → ∀ y ∈ xs, equal y = true → cmp x y ≤ 0) :
    (xs.orderedInsert (fun a b => cmp a b ≤ 0) x).filter equal = (x :: xs).filter equal := by
  induction xs with
  | nil => rfl
  | cons y ys ih =>
      have hinner := ih fun hx z hz => hfront hx z (List.mem_cons_of_mem y hz)
      rw [List.orderedInsert_cons]
      split
      · rfl
      · rename_i hxy
        rw [List.filter_cons, hinner, List.filter_cons, List.filter_cons, List.filter_cons]
        by_cases hx : equal x = true
        · have hy : ¬ equal y = true := fun hy => hxy (hfront hx y List.mem_cons_self hy)
          rw [if_neg hy, if_neg hy]
        · rw [if_neg hx, if_neg hx]

theorem insertionSort_ordered (xs : List α) (h : TotalPreorder cmp xs) :
    (xs.insertionSort fun a b => cmp a b ≤ 0).Pairwise fun a b => cmp a b ≤ 0 := by
  induction xs with
  | nil => simp
  | cons x xs ih =>
      rw [List.insertionSort_cons]
      apply ordered_orderedInsert
      · apply h.mono
        apply List.cons_subset_cons
        exact (List.perm_insertionSort _ xs).subset
      · exact ih (h.mono (List.subset_cons_self x xs))

theorem insertionSort_stable (xs : List α) (h : TotalPreorder cmp xs) (a : α) (ha : a ∈ xs)
    (rest : List α) (hrest : rest ⊆ xs) :
    (rest.insertionSort fun a b => cmp a b ≤ 0).filter (fun b => cmp a b = 0) =
      rest.filter fun b => cmp a b = 0 := by
  induction rest with
  | nil => rfl
  | cons x ys ih =>
      have hys : ys ⊆ xs := fun y hy => hrest (List.mem_cons_of_mem x hy)
      have hx : x ∈ xs := hrest List.mem_cons_self
      rw [List.insertionSort_cons, filter_orderedInsert, List.filter_cons, List.filter_cons,
        ih hys]
      intro hax y hy hay
      have hy : y ∈ xs := hys ((List.mem_insertionSort _).mp hy)
      have hax := of_decide_eq_true hax
      have hay := of_decide_eq_true hay
      have hback := h.opposite a ha x hx
      apply h.trans x hx a ha y hy
      · have hfront := h.opposite x hx a ha
        omega
      · omega

end

theorem insertionSort_sorts :
    Sorts fun (cmp : α → α → Int) xs => xs.insertionSort fun a b => cmp a b ≤ 0 where
  perm := fun _ xs => List.perm_insertionSort _ xs
  sorted := fun cmp xs h =>
    ⟨List.perm_insertionSort _ xs, insertionSort_ordered cmp xs h,
      fun a ha => insertionSort_stable cmp xs h a ha xs (List.Subset.refl xs)⟩

end Runlet.StableSort
