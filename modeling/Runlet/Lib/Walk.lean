import Mathlib.Algebra.Order.Group.Int
import Mathlib.Algebra.Ring.Int.Defs
import Mathlib.Data.List.Range
import Mathlib.Tactic.Ring

/-!
Walks over the integers by a fixed step, and the `count`-th place of a kind on
them: the first place of the kind by which `count` of them have been passed.
-/

namespace Runlet.Walk

/-- The places of a walk, without the one it starts from. -/
def places (start step : Int) (length : Nat) : List Int :=
  (List.range length).map fun i => start + step * (i + 1 : Nat)

/-- Where a walk ends. -/
def goal (start step : Int) (length : Nat) : Int := start + step * length

theorem goal_zero (start step : Int) : goal start step 0 = start := by
  unfold goal
  rw [Int.ofNat_zero, Int.mul_zero, Int.add_zero]

theorem goal_succ (start step : Int) (length : Nat) :
    goal start step (length + 1) = goal (start + step) step length := by
  unfold goal
  push_cast
  ring

theorem goal_add (start step : Int) (length more : Nat) :
    goal start step (length + more) = goal (goal start step length) step more := by
  unfold goal
  push_cast
  ring

/-- Walked back by the same length, a walk ends where it began. -/
theorem goal_back (start step : Int) (length : Nat) :
    goal (goal start step length) (-step) length = start := by
  unfold goal
  ring

theorem places_zero (start step : Int) : places start step 0 = [] := rfl

theorem places_succ (start step : Int) (length : Nat) :
    places start step (length + 1) = (start + step) :: places (start + step) step length := by
  unfold places
  rw [List.range_succ_eq_map, List.map_cons, List.map_map]
  congr 1
  · push_cast
    ring
  · apply List.map_congr_left
    intro i _
    rw [Function.comp_apply]
    push_cast
    ring

theorem places_append (start step : Int) (length more : Nat) :
    places start step (length + more) =
      places start step length ++ places (goal start step length) step more := by
  induction length generalizing start with
  | zero => rw [Nat.zero_add, places_zero, goal_zero, List.nil_append]
  | succ length ih =>
      rw [Nat.add_right_comm, places_succ, places_succ, ih, goal_succ, List.cons_append]

theorem places_one (start step : Int) : places start step 1 = [start + step] :=
  places_succ start step 0

theorem goal_mem (start step : Int) (length : Nat) :
    goal start step (length + 1) ∈ places start step (length + 1) := by
  rw [places_append, places_one, goal_add]
  apply List.mem_append_right
  apply List.mem_singleton.mpr
  unfold goal
  push_cast
  ring

/-- The places of the way back are the start and the places before the end. -/
theorem places_back (start step : Int) (length : Nat) :
    places (goal start step (length + 1)) (-step) (length + 1) =
      goal start step length :: places (goal start step length) (-step) length := by
  have hprevious : goal start step (length + 1) + -step = goal start step length := by
    unfold goal
    push_cast
    ring
  rw [places_succ, hprevious]

theorem mem_places_back (start step : Int) (length : Nat) (n : Int)
    (h : n ∈ places (goal start step length) (-step) length) :
    n = start ∨ n ∈ places start step length := by
  induction length with
  | zero => cases h
  | succ length ih =>
      rw [places_back] at h
      rw [places_append start step length 1]
      rcases List.mem_cons.mp h with rfl | h
      · cases length with
        | zero => exact .inl (goal_zero start step)
        | succ length => exact .inr (List.mem_append_left _ (goal_mem start step length))
      · rcases ih h with h | h
        · exact .inl h
        · exact .inr (List.mem_append_left _ h)

theorem start_mem_back (start step : Int) (length : Nat) :
    start ∈ places (goal start step (length + 1)) (-step) (length + 1) := by
  have h := goal_mem (goal start step (length + 1)) (-step) length
  rwa [goal_back] at h

/-! ### The count-th place of a kind -/

variable (kind : Int → Bool)

/-- A walk of this length ends at the `count`-th place of the kind behind its start. -/
structure Nth (start step : Int) (count length : Nat) : Prop where
  counted : (places start step length).countP kind = count
  lands : length ≠ 0 → kind (goal start step length) = true

variable {kind} {start step : Int}

theorem Nth.zero : Nth kind start step 0 0 := ⟨rfl, fun h => absurd rfl h⟩

/-- A walk that takes a step has a place to land on. -/
theorem Nth.count_pos {count length : Nat} (h : Nth kind start step count (length + 1)) :
    0 < count := by
  rw [← h.counted]
  apply List.countP_pos_iff.mpr
  exact ⟨_, goal_mem start step length, h.lands (Nat.succ_ne_zero length)⟩

theorem Nth.length_zero_iff {count length : Nat} (h : Nth kind start step count length) :
    length = 0 ↔ count = 0 := by
  cases length with
  | zero => exact ⟨fun _ => h.counted.symm, fun _ => rfl⟩
  | succ length =>
      have hpos := h.count_pos
      omega

/-- What is left of a walk after its first step. -/
theorem Nth.next {count length : Nat} (h : Nth kind start step (count + 1) (length + 1)) :
    Nth kind (start + step) step (if kind (start + step) then count else count + 1) length := by
  have hcounted := h.counted
  rw [places_succ, List.countP_cons] at hcounted
  refine ⟨?_, ?_⟩
  · cases hkind : kind (start + step) with
    | true =>
        rw [hkind, if_pos rfl] at hcounted
        rw [if_pos rfl]
        omega
    | false =>
        rw [hkind, if_neg Bool.false_ne_true] at hcounted
        rw [if_neg Bool.false_ne_true]
        omega
  · intro _
    have hlands := h.lands (Nat.succ_ne_zero length)
    rwa [goal_succ] at hlands

/-- There is one such place. -/
theorem Nth.unique {count length other : Nat} (h : Nth kind start step count length)
    (h' : Nth kind start step count other) : length = other := by
  induction length generalizing start count other with
  | zero =>
      have hcount := h.length_zero_iff.mp rfl
      exact (h'.length_zero_iff.mpr hcount).symm
  | succ length ih =>
      cases count with
      | zero => exact absurd h.count_pos (Nat.lt_irrefl 0)
      | succ count =>
          cases other with
          | zero => exact absurd (h'.length_zero_iff.mp rfl) (Nat.succ_ne_zero count)
          | succ other => rw [ih h.next h'.next]

theorem Nth.one (h : kind (start + step) = true) : Nth kind start step 1 1 := by
  refine ⟨?_, ?_⟩
  · rw [places_one, List.countP_singleton, h, if_pos rfl]
  · intro _
    rwa [goal_succ, goal_zero]

/-- A place of another kind is passed. -/
theorem Nth.skip {count length : Nat} (hother : kind (start + step) = false)
    (h : Nth kind (start + step) step (count + 1) length) :
    Nth kind start step (count + 1) (length + 1) := by
  refine ⟨?_, ?_⟩
  · rw [places_succ, List.countP_cons, hother, if_neg Bool.false_ne_true, h.counted]
  · intro _
    rw [goal_succ]
    apply h.lands
    exact mt h.length_zero_iff.mp (Nat.succ_ne_zero count)

/-- A walk to the next place of the kind lengthens one to the `count`-th. -/
theorem Nth.append {count length more : Nat} (h : Nth kind start step count length)
    (hmore : Nth kind (goal start step length) step 1 more) :
    Nth kind start step (count + 1) (length + more) := by
  refine ⟨?_, ?_⟩
  · rw [places_append, List.countP_append, h.counted, hmore.counted]
  · intro _
    rw [goal_add]
    apply hmore.lands
    exact mt hmore.length_zero_iff.mp Nat.one_ne_zero

/-- Where a next place of the kind is always found, so is a `count`-th. -/
theorem exists_nth (kind : Int → Bool) (start step : Int)
    (hnext : ∀ n, ∃ more, Nth kind n step 1 more) (count : Nat) :
    ∃ length, Nth kind start step count length := by
  induction count with
  | zero => exact ⟨0, .zero⟩
  | succ count ih =>
      obtain ⟨length, hlength⟩ := ih
      obtain ⟨more, hmore⟩ := hnext (goal start step length)
      exact ⟨length + more, hlength.append hmore⟩

/-- On the way back the place it began from is counted in place of the one landed on. -/
theorem countP_back (kind : Int → Bool) (start step : Int) (length : Nat) :
    (places (goal start step length) (-step) length).countP kind +
        (if kind (goal start step length) then 1 else 0) =
      (places start step length).countP kind + (if kind start then 1 else 0) := by
  induction length with
  | zero => rw [goal_zero, places_zero, places_zero]
  | succ length ih =>
      have hlast : goal start step length + step = goal start step (length + 1) := by
        unfold goal
        push_cast
        ring
      rw [places_back, places_append start step length 1, places_one, List.countP_cons,
        List.countP_append, List.countP_singleton, hlast, ih]
      omega

/-- Between two places of the kind the way back counts as many. -/
theorem Nth.back {count length : Nat} (h : Nth kind start step count length)
    (hstart : kind start = true) :
    Nth kind (goal start step length) (-step) count length := by
  refine ⟨?_, ?_⟩
  · have hback := countP_back kind start step length
    have hend : kind (goal start step length) = true := by
      cases length with
      | zero => rwa [goal_zero]
      | succ length => exact h.lands (Nat.succ_ne_zero length)
    rw [hend, hstart, h.counted] at hback
    exact Nat.add_right_cancel hback
  · intro _
    rwa [goal_back]

end Runlet.Walk
