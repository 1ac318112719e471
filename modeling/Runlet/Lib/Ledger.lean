import Mathlib.Data.List.Basic

/-!
Counting what a list of tasks holds. Every task holds a number of units of a
resource, and a pool holds the free units. Tasks only ever change in place or
are appended, so one task exchanging units with the pool keeps the sum of
free and held units.
-/

namespace Runlet.Ledger

variable {Task Pool : Type*}

/-- The units held by all tasks together. -/
def total (units : Task → Nat) : List Task → Nat
  | [] => 0
  | task :: tasks => units task + total units tasks

@[simp] theorem total_nil (units : Task → Nat) : total units [] = 0 := rfl

@[simp] theorem total_cons (units : Task → Nat) (task : Task) (tasks : List Task) :
    total units (task :: tasks) = units task + total units tasks := rfl

@[simp] theorem total_append (units : Task → Nat) (left right : List Task) :
    total units (left ++ right) = total units left + total units right := by
  induction left with
  | nil => simp
  | cons head rest ih =>
      simp only [List.cons_append, total_cons, ih]
      omega

/-- Replacing one task moves the total by the difference of that task. -/
theorem total_set (units : Task → Nat) (tasks : List Task) (i : Nat) (old new : Task)
    (hold : tasks[i]? = some old) :
    total units (tasks.set i new) + units old = total units tasks + units new := by
  induction tasks generalizing i with
  | nil => simp at hold
  | cons head rest ih =>
      cases i with
      | zero =>
          have heq : head = old := by simpa using hold
          subst heq
          simp only [List.set_cons_zero, total_cons]
          omega
      | succ i =>
          have hrest := ih i (by simpa using hold)
          simp only [List.set_cons_succ, total_cons]
          omega

theorem total_le_total (units other : Task → Nat) (tasks : List Task)
    (hle : ∀ task ∈ tasks, units task ≤ other task) :
    total units tasks ≤ total other tasks := by
  induction tasks with
  | nil => simp
  | cons head rest ih =>
      have hhead := hle head (by simp)
      have hrest := ih fun task htask => hle task (by simp [htask])
      simp only [total_cons]
      omega

theorem total_eq_zero_iff (units : Task → Nat) (tasks : List Task) :
    total units tasks = 0 ↔ ∀ task ∈ tasks, units task = 0 := by
  induction tasks with
  | nil => simp
  | cons head rest ih => simp [ih]

theorem le_total (units : Task → Nat) (tasks : List Task) (task : Task)
    (htask : task ∈ tasks) : units task ≤ total units tasks := by
  induction tasks with
  | nil => cases htask
  | cons head rest ih =>
      simp only [total_cons]
      rcases List.mem_cons.mp htask with rfl | hrest
      · omega
      · have := ih hrest
        omega

/-- Free and held units together are the capacity. -/
def Conserved (free : Pool → Nat) (units : Task → Nat) (capacity : Nat) (pool : Pool)
    (tasks : List Task) : Prop :=
  free pool + total units tasks = capacity

theorem Conserved.total_le {free : Pool → Nat} {units : Task → Nat} {capacity : Nat}
    {pool : Pool} {tasks : List Task} (h : Conserved free units capacity pool tasks) :
    total units tasks ≤ capacity := by
  unfold Conserved at h
  omega

/-- One task and the pool exchange units. -/
theorem Conserved.set {free : Pool → Nat} {units : Task → Nat} {capacity : Nat}
    {pool : Pool} {tasks : List Task} (h : Conserved free units capacity pool tasks)
    (i : Nat) (old new : Task) (next : Pool) (hold : tasks[i]? = some old)
    (hexchange : free next + units new = free pool + units old) :
    Conserved free units capacity next (tasks.set i new) := by
  have hset := total_set units tasks i old new hold
  unfold Conserved at h ⊢
  omega

/-- New tasks arrive holding nothing. -/
theorem Conserved.append {free : Pool → Nat} {units : Task → Nat} {capacity : Nat}
    {pool : Pool} {tasks : List Task} (h : Conserved free units capacity pool tasks)
    (arriving : List Task) (hempty : ∀ task ∈ arriving, units task = 0) :
    Conserved free units capacity pool (tasks ++ arriving) := by
  have hzero := (total_eq_zero_iff units arriving).mpr hempty
  unfold Conserved at h ⊢
  rw [total_append, hzero]
  exact h

end Runlet.Ledger
