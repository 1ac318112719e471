import Mathlib.Logic.Function.Basic
import Mathlib.Data.List.Basic

/-!
A limit kept by several counters. Every call belongs to one key; it performs
some operations and adds to the counter of its key, and a counter that has
reached the limit blocks the calls of its key. The question is when the limit
also holds for all the operations together, over every sequence of calls.
-/

namespace Runlet.Budget

variable {Call Key : Type}

/-- The operations a call performs and the units it records, from the units
its counter holds. -/
structure Meter (Call Key : Type) where
  max : Nat
  key : Call → Key
  effect : Call → Nat → Nat × Nat

structure Account (Key : Type) where
  performed : Nat
  used : Key → Nat

def Account.empty : Account Key := ⟨0, fun _ => 0⟩

/-- Two kinds of calls matter: those that perform operations at all, and those
that perform one without recording it. -/
structure Meter.Lawful (meter : Meter Call Key) (active leaks : Call → Prop) : Prop where
  full : ∀ call used, meter.max ≤ used → meter.effect call used = (0, 0)
  bounded : ∀ call used, used < meter.max → used + (meter.effect call used).2 ≤ meter.max
  idle : ∀ call used, ¬ active call → (meter.effect call used).1 = 0
  busy : ∀ call used, active call → used < meter.max →
    0 < (meter.effect call used).1 ∧ (meter.effect call used).2 ≤ (meter.effect call used).1
  recorded : ∀ call used, ¬ leaks call →
    (meter.effect call used).1 ≤ (meter.effect call used).2
  leaked : ∀ call, leaks call → 0 < meter.max →
    active call ∧ (meter.effect call 0).2 < (meter.effect call 0).1

variable [DecidableEq Key]

def Meter.step (meter : Meter Call Key) (account : Account Key) (call : Call) : Account Key :=
  let used := account.used (meter.key call)
  ⟨account.performed + (meter.effect call used).1,
    Function.update account.used (meter.key call) (used + (meter.effect call used).2)⟩

def Meter.runFrom (meter : Meter Call Key) (account : Account Key) (calls : List Call) :
    Account Key :=
  calls.foldl meter.step account

/-- All the calls are within the repertoire. -/
def Within (repertoire : Call → Prop) (calls : List Call) : Prop :=
  ∀ call ∈ calls, repertoire call

section

variable {meter : Meter Call Key} {active leaks : Call → Prop}

theorem step_used_same (account : Account Key) (call : Call) :
    (meter.step account call).used (meter.key call) =
      account.used (meter.key call) +
        (meter.effect call (account.used (meter.key call))).2 := by
  simp [Meter.step]

theorem step_used_other (account : Account Key) (call : Call) (key : Key)
    (hkey : key ≠ meter.key call) : (meter.step account call).used key = account.used key := by
  simp [Meter.step, hkey]

theorem step_used_le (hlawful : meter.Lawful active leaks) (account : Account Key) (call : Call)
    (key : Key) (hle : account.used key ≤ meter.max) :
    (meter.step account call).used key ≤ meter.max := by
  by_cases hkey : key = meter.key call
  · subst hkey
    rw [step_used_same]
    by_cases hfree : account.used (meter.key call) < meter.max
    · exact hlawful.bounded call _ hfree
    · rw [hlawful.full call _ (by omega)]
      exact hle
  · rw [step_used_other account call key hkey]
    exact hle

/-- When all active calls share a key and none leaks, the counter of that key
stays ahead of the operations. -/
theorem run_performed_le (hlawful : meter.Lawful active leaks) (shared : Key)
    (calls : List Call) (account : Account Key)
    (hkey : ∀ call ∈ calls, active call → meter.key call = shared)
    (hrecorded : ∀ call ∈ calls, ¬ leaks call)
    (hle : account.used shared ≤ meter.max) (hstart : account.performed ≤ account.used shared) :
    (meter.runFrom account calls).performed ≤ meter.max := by
  induction calls generalizing account with
  | nil => exact Nat.le_trans hstart hle
  | cons call rest ih =>
      have hcall := hrecorded call List.mem_cons_self
      refine ih (meter.step account call) ?_ ?_ ?_ ?_
      · intro other hmem
        exact hkey other (List.mem_cons_of_mem call hmem)
      · intro other hmem
        exact hrecorded other (List.mem_cons_of_mem call hmem)
      · exact step_used_le hlawful account call shared hle
      · by_cases hactive : active call
        · have hshared := hkey call List.mem_cons_self hactive
          rw [← hshared, step_used_same]
          have hle' := hlawful.recorded call (account.used (meter.key call)) hcall
          rw [← hshared] at hstart
          simp only [Meter.step]
          omega
        · have hnone := hlawful.idle call (account.used (meter.key call)) hactive
          have hmono : account.used shared ≤ (meter.step account call).used shared := by
            by_cases hshared : shared = meter.key call
            · subst hshared
              rw [step_used_same]
              omega
            · exact Nat.le_of_eq (step_used_other account call shared hshared).symm
          simp only [Meter.step, hnone, Nat.add_zero] at hmono ⊢
          omega

theorem run_performed_idle (calls : List Call) (account : Account Key)
    (hidle : ∀ call ∈ calls, ∀ used, (meter.effect call used).1 = 0) :
    (meter.runFrom account calls).performed = account.performed := by
  induction calls generalizing account with
  | nil => rfl
  | cons call rest ih =>
      have hrest := ih (meter.step account call)
        (fun other hmem => hidle other (List.mem_cons_of_mem call hmem))
      have hcall := hidle call List.mem_cons_self (account.used (meter.key call))
      calc
        (meter.runFrom account (call :: rest)).performed =
            (meter.step account call).performed := hrest
        _ = account.performed := by simp [Meter.step, hcall]

/-- An active call repeated `n` times performs an operation each time or uses
up its counter with operations. -/
theorem replicate_performed (hlawful : meter.Lawful active leaks) (call : Call)
    (hactive : active call) (n : Nat) (account : Account Key) :
    account.performed + min n (meter.max - account.used (meter.key call)) ≤
      (meter.runFrom account (List.replicate n call)).performed := by
  induction n generalizing account with
  | zero => simp [Meter.runFrom]
  | succ n ih =>
      have hrest := ih (meter.step account call)
      rw [step_used_same] at hrest
      change _ ≤ (meter.runFrom (meter.step account call) (List.replicate n call)).performed
      have hperformed : (meter.step account call).performed =
          account.performed + (meter.effect call (account.used (meter.key call))).1 := rfl
      by_cases hfree : account.used (meter.key call) < meter.max
      · have hbusy := hlawful.busy call _ hactive hfree
        omega
      · rw [hlawful.full call _ (by omega)] at hrest hperformed
        omega

theorem replicate_used_other (call : Call) (key : Key) (hkey : key ≠ meter.key call) (n : Nat)
    (account : Account Key) :
    (meter.runFrom account (List.replicate n call)).used key = account.used key := by
  induction n generalizing account with
  | zero => rfl
  | succ n ih =>
      change (meter.runFrom (meter.step account call) (List.replicate n call)).used key = _
      rw [ih, step_used_other account call key hkey]

/-- Over every sequence of calls of a repertoire: the limit holds for all the
operations together exactly when it is zero, or all active calls share a
counter and none leaks. -/
theorem performed_le_iff (hlawful : meter.Lawful active leaks) (repertoire : Call → Prop) :
    (∀ calls, Within repertoire calls →
      (meter.runFrom Account.empty calls).performed ≤ meter.max) ↔
    meter.max = 0 ∨
      ((∀ left right, repertoire left → repertoire right → active left → active right →
        meter.key left = meter.key right) ∧
      ∀ call, repertoire call → ¬ leaks call) := by
  constructor
  · intro hall
    by_cases hzero : meter.max = 0
    · exact .inl hzero
    right
    refine ⟨?_, ?_⟩
    · intro left right hleft hright hactive hactive'
      by_contra hkeys
      have hwithin : Within repertoire (List.replicate meter.max left ++ [right]) := by
        intro call hmem
        rcases List.mem_append.mp hmem with hmem | hmem
        · rw [List.eq_of_mem_replicate hmem]
          exact hleft
        · rw [List.mem_singleton.mp hmem]
          exact hright
      have hbound := hall _ hwithin
      have hfirst := replicate_performed hlawful left hactive meter.max Account.empty
      have hother : (meter.runFrom Account.empty (List.replicate meter.max left)).used
          (meter.key right) = 0 :=
        replicate_used_other left (meter.key right) (fun heq => hkeys heq.symm) meter.max
          Account.empty
      have hlast := (hlawful.busy right 0 hactive' (by omega)).1
      simp only [Meter.runFrom, List.foldl_append, List.foldl_cons, List.foldl_nil,
        Meter.step] at hbound
      simp only [Meter.runFrom, Account.empty] at hfirst hother hbound
      rw [hother] at hbound
      omega
    · intro call hcall hleaks
      have hbound := hall (List.replicate (meter.max + 1) call)
        (fun other hmem => by rw [List.eq_of_mem_replicate hmem]; exact hcall)
      obtain ⟨hactive, hleak⟩ := hlawful.leaked call hleaks (by omega)
      have hrest := replicate_performed hlawful call hactive meter.max
        (meter.step Account.empty call)
      have hlimit := hlawful.bounded call 0 (by omega)
      rw [step_used_same] at hrest
      simp only [Account.empty, Meter.step, Nat.zero_add] at hrest
      have hunfold : (meter.runFrom Account.empty (List.replicate (meter.max + 1) call)).performed =
          (meter.runFrom (meter.step Account.empty call)
            (List.replicate meter.max call)).performed := rfl
      rw [hunfold] at hbound
      simp only [Account.empty, Meter.step, Nat.zero_add] at hbound
      omega
  · intro hcond calls hwithin
    rcases hcond with hzero | ⟨hshared, hnone⟩
    · rw [run_performed_idle calls Account.empty]
      · exact Nat.zero_le _
      · intro call _ used
        rw [hlawful.full call used (by omega)]
    · by_cases hany : ∃ call ∈ calls, active call
      · obtain ⟨first, hfirst, hactive⟩ := hany
        refine run_performed_le hlawful (meter.key first) calls Account.empty ?_ ?_
          (Nat.zero_le _) (Nat.le_refl _)
        · intro call hcall hactive'
          exact hshared call first (hwithin call hcall) (hwithin first hfirst) hactive' hactive
        · exact fun call hcall => hnone call (hwithin call hcall)
      · rw [run_performed_idle calls Account.empty]
        · exact Nat.zero_le _
        · intro call hcall used
          exact hlawful.idle call used fun hactive => hany ⟨call, hcall, hactive⟩

end

end Runlet.Budget
