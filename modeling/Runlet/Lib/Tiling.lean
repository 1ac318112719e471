import Mathlib.Algebra.Order.Group.Int
import Mathlib.Order.SuccPred.Basic
import Mathlib.Order.Monotone.Basic

/-!
The integers cut into consecutive periods. A tiling says where each period
starts and which period a number is in; the periods of a coarser tiling are runs
of a fixed number of periods, and those of a finer scale are multiplied out.
-/

namespace Runlet

/-- Consecutive periods without gap or overlap. -/
structure Tiling where
  start : Int → Int
  index : Int → Int
  start_lt : ∀ i, start i < start (i + 1)
  start_le : ∀ n, start (index n) ≤ n
  lt_start : ∀ n, n < start (index n + 1)

namespace Tiling

variable (tiling : Tiling)

/-- The first number of the period of `n`. -/
def first (n : Int) : Int := tiling.start (tiling.index n)

/-- The last number of the period of `n`. -/
def last (n : Int) : Int := tiling.start (tiling.index n + 1) - 1

theorem start_lt_start {i j : Int} (h : i < j) : tiling.start i < tiling.start j :=
  strictMono_int_of_lt_succ tiling.start_lt h

theorem start_le_start {i j : Int} (h : i ≤ j) : tiling.start i ≤ tiling.start j :=
  (strictMono_int_of_lt_succ tiling.start_lt).monotone h

theorem lt_of_start {i j : Int} (h : tiling.start i < tiling.start j) : i < j :=
  (strictMono_int_of_lt_succ tiling.start_lt).lt_iff_lt.mp h

theorem index_eq (i n : Int) (hstart : tiling.start i ≤ n) (hend : n < tiling.start (i + 1)) :
    tiling.index n = i := by
  have hlow := tiling.lt_of_start (Int.lt_of_le_of_lt hstart (tiling.lt_start n))
  have hhigh := tiling.lt_of_start (Int.lt_of_le_of_lt (tiling.start_le n) hend)
  omega

theorem index_start (i : Int) : tiling.index (tiling.start i) = i :=
  tiling.index_eq i _ (Int.le_refl _) (tiling.start_lt i)

/-- A later number is in no earlier period. -/
theorem index_le_index {n k : Int} (h : n ≤ k) : tiling.index n ≤ tiling.index k := by
  have hstart := Int.lt_of_le_of_lt (tiling.start_le n) (Int.lt_of_le_of_lt h (tiling.lt_start k))
  have hlt := tiling.lt_of_start hstart
  omega

theorem first_le (n : Int) : tiling.first n ≤ n := tiling.start_le n

theorem le_last (n : Int) : n ≤ tiling.last n := by
  have hend := tiling.lt_start n
  unfold last
  omega

/-- Whatever lies between the ends of a period is in it. -/
theorem index_between (n k : Int) (hfirst : tiling.first n ≤ k) (hlast : k ≤ tiling.last n) :
    tiling.index k = tiling.index n := by
  unfold last at hlast
  exact tiling.index_eq _ k hfirst (by omega)

theorem index_first (n : Int) : tiling.index (tiling.first n) = tiling.index n :=
  tiling.index_start _

theorem index_last (n : Int) : tiling.index (tiling.last n) = tiling.index n := by
  apply tiling.index_between n _ _ (Int.le_refl _)
  exact Int.le_trans (tiling.first_le n) (tiling.le_last n)

/-- Behind the last number of a period the next one starts. -/
theorem index_next (n : Int) : tiling.index (tiling.last n + 1) = tiling.index n + 1 := by
  rw [show tiling.last n + 1 = tiling.start (tiling.index n + 1) by unfold last; omega,
    tiling.index_start]

theorem first_next (n : Int) : tiling.first (tiling.last n + 1) = tiling.last n + 1 := by
  unfold first
  rw [tiling.index_next]
  unfold last
  omega

theorem first_congr (n k : Int) (h : tiling.index k = tiling.index n) :
    tiling.first k = tiling.first n := congrArg tiling.start h

theorem last_congr (n k : Int) (h : tiling.index k = tiling.index n) :
    tiling.last k = tiling.last n := by
  unfold last
  rw [h]

/-- Runs of `k` periods. -/
def coarsen (k : Int) (hk : 0 < k) : Tiling where
  start i := tiling.start (i * k)
  index n := tiling.index n / k
  start_lt i := by
    apply tiling.start_lt_start
    rw [Int.add_mul]
    omega
  start_le n := by
    apply Int.le_trans _ (tiling.start_le n)
    exact tiling.start_le_start (Int.ediv_mul_le _ (Int.ne_of_gt hk))
  lt_start n := by
    apply Int.lt_of_lt_of_le (tiling.lt_start n)
    apply tiling.start_le_start
    exact Int.lt_ediv_add_one_mul_self _ hk

/-- Periods of `d` times as many units. -/
def scale (d : Int) (hd : 0 < d) : Tiling where
  start i := tiling.start i * d
  index n := tiling.index (n / d)
  start_lt i := Int.mul_lt_mul_of_pos_right (tiling.start_lt i) hd
  start_le n := by
    apply Int.le_trans _ (Int.ediv_mul_le n (Int.ne_of_gt hd))
    exact Int.mul_le_mul_of_nonneg_right (tiling.start_le _) (Int.le_of_lt hd)
  lt_start n := by
    apply Int.lt_of_lt_of_le (Int.lt_ediv_add_one_mul_self n hd)
    exact Int.mul_le_mul_of_nonneg_right (tiling.lt_start _) (Int.le_of_lt hd)

/-- Periods of a fixed length, the first of them from `offset` on. -/
def every (length offset : Int) (hlength : 0 < length) : Tiling where
  start i := i * length + offset
  index n := (n - offset) / length
  start_lt i := by
    rw [Int.add_mul]
    omega
  start_le n := by
    have := Int.ediv_mul_le (n - offset) (Int.ne_of_gt hlength)
    omega
  lt_start n := by
    have := Int.lt_ediv_add_one_mul_self (n - offset) hlength
    omega

end Tiling

end Runlet
