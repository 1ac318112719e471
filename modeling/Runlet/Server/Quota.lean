import Mathlib.Data.List.Count
import Mathlib.Order.Bounds.Basic
import Mathlib.Data.List.MinMax
import Runlet.Lib.Transition

/-!
The per-tenant, plan-gated quota of `quota.rs`. `PlanLimits` is the pure gate;
`TenantQuota` adds the table of in-flight counts, and a live guard stands for
one admitted execution that has not been dropped yet. The system of this
module interleaves admits and guard drops of any tenants in any order.
-/

namespace Runlet.Quota

open Transition

/-- The largest `u64`. -/
def u64Max : Nat := 18446744073709551615

def saturatingAdd (a b : Nat) : Nat := min (a + b) u64Max

/-- One plan's limit: a `u64` number of concurrent executions. -/
structure PlanLimit where
  maxConcurrent : Nat
  isU64 : maxConcurrent ≤ u64Max

/-- Structured over-limit detail: plan, limit and usage at decision time. -/
structure QuotaExceeded where
  plan : String
  limit : Nat
  usage : Nat
  deriving DecidableEq

inductive QuotaDecision where
  | allowed
  | exceeded (detail : QuotaExceeded)
  deriving DecidableEq

/-- The configured `plan → limit` table, a map: every plan is named once. -/
structure PlanLimits where
  plans : List (String × PlanLimit)
  nodup : (plans.map Prod.fst).Nodup

/-- The configured limits, as the iterator `plans.values()` yields them. -/
def PlanLimits.values (limits : PlanLimits) : List Nat :=
  limits.plans.map fun entry => entry.2.maxConcurrent

/-- The minimum configured limit, or `0` when no plan is configured. -/
def PlanLimits.mostRestrictive (limits : PlanLimits) : Nat :=
  limits.values.min?.getD 0

def PlanLimits.get (limits : PlanLimits) (name : String) : Option PlanLimit :=
  limits.plans.lookup name

/-- The plan's own limit when it is configured, else the most restrictive. -/
def PlanLimits.limitFor (limits : PlanLimits) (plan : Option String) : Nat :=
  match plan.bind limits.get with
  | none => limits.mostRestrictive
  | some limit => limit.maxConcurrent

/-- At-or-above refuses. -/
def PlanLimits.check (limits : PlanLimits) (plan : Option String)
    (usage : Nat) : QuotaDecision :=
  if usage ≥ limits.limitFor plan then
    .exceeded ⟨plan.getD "unknown", limits.limitFor plan, usage⟩
  else
    .allowed

/-- The shared `HashMap` from tenant id to in-flight count. -/
abbrev Inflight := String → Option Nat

def Inflight.insert (table : Inflight) (tenant : String) (count : Nat) : Inflight :=
  fun other => if other = tenant then some count else table other

def Inflight.remove (table : Inflight) (tenant : String) : Inflight :=
  fun other => if other = tenant then none else table other

/-- Releases one unit of its tenant's count when dropped. -/
structure QuotaGuard where
  tenant : String
  deriving DecidableEq

/-- `TenantQuota::admit`: the guard or the refusal, and the table after it. -/
def admitExecution (limits : PlanLimits) (table : Inflight) (tenant : String)
    (plan : Option String) : Except QuotaExceeded QuotaGuard × Inflight :=
  let usage := (table tenant).getD 0
  match limits.check plan usage with
  | .allowed => (.ok ⟨tenant⟩, table.insert tenant (saturatingAdd usage 1))
  | .exceeded detail => (.error detail, table)

/-- `Drop for QuotaGuard`. -/
def QuotaGuard.drop (guard : QuotaGuard) (table : Inflight) : Inflight :=
  match table guard.tenant with
  | none => table
  | some count =>
      let count := count - 1
      if count = 0 then (table.insert guard.tenant count).remove guard.tenant
      else table.insert guard.tenant count

/-! ### The gate -/

theorem limitFor_le_u64Max (limits : PlanLimits) (plan : Option String) :
    limits.limitFor plan ≤ u64Max := by
  unfold PlanLimits.limitFor
  cases plan.bind limits.get with
  | some limit => exact limit.isU64
  | none =>
      unfold PlanLimits.mostRestrictive
      cases hmin : limits.values.min? with
      | none => simp
      | some least =>
          obtain ⟨entry, _, heq⟩ := List.mem_map.mp (List.min?_mem hmin)
          exact heq ▸ entry.2.isU64

theorem limitFor_of_configured (limits : PlanLimits) (name : String)
    (limit : PlanLimit) (hget : limits.get name = some limit) :
    limits.limitFor (some name) = limit.maxConcurrent := by
  simp [PlanLimits.limitFor, hget]

/-- An absent or unknown plan takes the smallest configured limit. -/
theorem limitFor_isLeast (limits : PlanLimits) (plan : Option String)
    (hplan : plan.bind limits.get = none) (hne : limits.plans ≠ []) :
    IsLeast {value | value ∈ limits.values} (limits.limitFor plan) := by
  have hvalues : limits.values ≠ [] := by simpa [PlanLimits.values] using hne
  obtain ⟨least, hleast⟩ : ∃ least, limits.values.min? = some least :=
    Option.ne_none_iff_exists'.mp (by simpa [List.min?_eq_none_iff] using hvalues)
  have hlimit : limits.limitFor plan = least := by
    simp [PlanLimits.limitFor, hplan, PlanLimits.mostRestrictive, hleast]
  rw [hlimit]
  exact List.min?_eq_some_iff.mp hleast

theorem limitFor_of_empty (limits : PlanLimits) (plan : Option String)
    (hempty : limits.plans = []) : limits.limitFor plan = 0 := by
  have hget : plan.bind limits.get = none := by
    cases plan with
    | none => rfl
    | some name => simp [PlanLimits.get, hempty]
  simp [PlanLimits.limitFor, hget, PlanLimits.mostRestrictive,
    PlanLimits.values, hempty]

theorem check_eq_allowed_iff (limits : PlanLimits) (plan : Option String)
    (usage : Nat) :
    limits.check plan usage = .allowed ↔ usage < limits.limitFor plan := by
  unfold PlanLimits.check
  split
  · simp; omega
  · simp; omega

/-! ### One operation on the table -/

/-- How the table stores a live count: a tenant without live guards has no
entry. -/
def slots (count : Nat) : Option Nat :=
  if count = 0 then none else some count

/-- The table holds exactly the counts of `live`. -/
def Counts (table : Inflight) (live : String → Nat) : Prop :=
  ∀ tenant, table tenant = slots (live tenant)

@[simp] theorem slots_getD (count : Nat) : (slots count).getD 0 = count := by
  unfold slots
  split <;> simp_all

theorem admitExecution_ok_iff (limits : PlanLimits) (table : Inflight)
    (live : String → Nat) (hcounts : Counts table live) (tenant : String)
    (plan : Option String) :
    (∃ guard, (admitExecution limits table tenant plan).1 = .ok guard) ↔
      live tenant < limits.limitFor plan := by
  have husage : (table tenant).getD 0 = live tenant := by
    rw [hcounts tenant, slots_getD]
  rw [← check_eq_allowed_iff]
  simp only [admitExecution, husage]
  cases limits.check plan (live tenant) with
  | allowed => simp
  | exceeded detail => simp

/-- An admit hands out the guard of its own tenant. -/
theorem admitExecution_guard (limits : PlanLimits) (table : Inflight) (tenant : String)
    (plan : Option String) (guard : QuotaGuard)
    (hok : (admitExecution limits table tenant plan).1 = .ok guard) :
    guard = ⟨tenant⟩ := by
  simp only [admitExecution] at hok
  cases hcheck : limits.check plan ((table tenant).getD 0) with
  | allowed => simpa [hcheck] using hok.symm
  | exceeded detail => simp [hcheck] at hok

/-- A refusal returns the table it was given. -/
theorem admitExecution_refused (limits : PlanLimits) (table : Inflight)
    (tenant : String) (plan : Option String) (detail : QuotaExceeded)
    (hrefused : (admitExecution limits table tenant plan).1 = .error detail) :
    (admitExecution limits table tenant plan).2 = table := by
  simp only [admitExecution] at hrefused ⊢
  cases hcheck : limits.check plan ((table tenant).getD 0) with
  | allowed => simp [hcheck] at hrefused
  | exceeded _ => rfl

/-- An admit adds one to its own tenant. The saturating addition never
saturates: the count was below a `u64` limit. -/
theorem admitExecution_counts (limits : PlanLimits) (table : Inflight)
    (live : String → Nat) (hcounts : Counts table live) (tenant : String)
    (plan : Option String) (guard : QuotaGuard)
    (hok : (admitExecution limits table tenant plan).1 = .ok guard) :
    Counts (admitExecution limits table tenant plan).2
      (Function.update live tenant (live tenant + 1)) := by
  have hlt : live tenant < limits.limitFor plan :=
    (admitExecution_ok_iff limits table live hcounts tenant plan).mp ⟨guard, hok⟩
  have hmax := limitFor_le_u64Max limits plan
  have husage : (table tenant).getD 0 = live tenant := by
    rw [hcounts tenant, slots_getD]
  have hallowed := (check_eq_allowed_iff limits plan (live tenant)).mpr hlt
  simp only [admitExecution, husage, hallowed]
  intro other
  have hsum : saturatingAdd (live tenant) 1 = live tenant + 1 := by
    unfold saturatingAdd
    omega
  by_cases hother : other = tenant
  · subst hother
    simp [Inflight.insert, hsum, slots]
  · simp [Inflight.insert, hother, hcounts other]

theorem drop_counts (table : Inflight) (live : String → Nat)
    (hcounts : Counts table live) (guard : QuotaGuard)
    (hlive : 0 < live guard.tenant) :
    Counts (guard.drop table)
      (Function.update live guard.tenant (live guard.tenant - 1)) := by
  have hentry : table guard.tenant = some (live guard.tenant) := by
    rw [hcounts guard.tenant, slots, if_neg (by omega)]
  intro other
  simp only [QuotaGuard.drop, hentry]
  by_cases hother : other = guard.tenant
  · subst hother
    by_cases hlast : live guard.tenant - 1 = 0
    · simp [hlast, Inflight.remove, slots]
    · simp [hlast, Inflight.insert, slots]
  · by_cases hlast : live guard.tenant - 1 = 0
    · simp [hlast, Inflight.remove, Inflight.insert, hother, hcounts other]
    · simp [hlast, Inflight.insert, hother, hcounts other]

/-! ### Interleavings of admits and guard drops -/

/-- The quota table together with the guards that are still alive. -/
structure State where
  inflight : Inflight
  guards : List QuotaGuard

def State.initial : State := ⟨fun _ => none, []⟩

inductive Action where
  | admitted (tenant : String) (plan : Option String)
  | dropped (guard : QuotaGuard)

def Action.tenant : Action → String
  | .admitted tenant _ => tenant
  | .dropped guard => guard.tenant

/-- A guard can only be dropped while it is alive, and only once. -/
def step (limits : PlanLimits) (s : State) : Action → Option State
  | .admitted tenant plan =>
      match admitExecution limits s.inflight tenant plan with
      | (.ok guard, table) => some ⟨table, guard :: s.guards⟩
      | (.error _, table) => some ⟨table, s.guards⟩
  | .dropped guard =>
      if guard ∈ s.guards then
        some ⟨guard.drop s.inflight, s.guards.erase guard⟩
      else none

/-- The number of live guards of a tenant. -/
def State.live (s : State) (tenant : String) : Nat :=
  s.guards.count ⟨tenant⟩

theorem live_cons (guard : QuotaGuard) (table table' : Inflight)
    (guards : List QuotaGuard) :
    (State.mk table (guard :: guards)).live =
      Function.update (State.mk table' guards).live guard.tenant
        ((State.mk table' guards).live guard.tenant + 1) := by
  funext tenant
  by_cases h : tenant = guard.tenant
  · subst h
    simp [State.live]
  · have hne : guard ≠ ⟨tenant⟩ := by
      rintro rfl
      exact h rfl
    simp [State.live, h, List.count_cons_of_ne hne]

theorem live_erase (guard : QuotaGuard) (table table' : Inflight)
    (guards : List QuotaGuard) :
    (State.mk table (guards.erase guard)).live =
      Function.update (State.mk table' guards).live guard.tenant
        ((State.mk table' guards).live guard.tenant - 1) := by
  funext tenant
  by_cases h : tenant = guard.tenant
  · subst h
    simp [State.live]
  · have hne : (⟨tenant⟩ : QuotaGuard) ≠ guard := by
      rintro rfl
      exact h rfl
    simp [State.live, h, List.count_erase_of_ne hne]

theorem step_counts (limits : PlanLimits) (s next : State) (action : Action)
    (hcounts : Counts s.inflight s.live)
    (hstep : step limits s action = some next) :
    Counts next.inflight next.live := by
  cases action with
  | admitted tenant plan =>
      cases hanswer : admitExecution limits s.inflight tenant plan with
      | mk outcome table =>
          cases outcome with
          | ok guard =>
              have hnext := admitExecution_counts limits s.inflight s.live
                hcounts tenant plan guard (by rw [hanswer])
              simp only [step, hanswer, Option.some.injEq] at hstep
              subst hstep
              rw [hanswer] at hnext
              have hguard := admitExecution_guard limits s.inflight tenant plan guard
                (by rw [hanswer])
              rw [live_cons guard table s.inflight s.guards, hguard]
              exact hnext
          | error detail =>
              have htable := admitExecution_refused limits s.inflight tenant
                plan detail (by rw [hanswer])
              simp only [step, hanswer, Option.some.injEq] at hstep
              subst hstep
              rw [hanswer] at htable
              simp only at htable
              exact htable ▸ hcounts
  | dropped guard =>
      simp only [step] at hstep
      split at hstep
      · rename_i hmem
        simp only [Option.some.injEq] at hstep
        subst hstep
        have hlive : 0 < s.live guard.tenant := List.count_pos_iff.mpr hmem
        rw [live_erase guard _ s.inflight s.guards]
        exact drop_counts s.inflight s.live hcounts guard hlive
      · cases hstep

/-- An operation on one tenant leaves every other tenant's entry alone. -/
theorem step_other_tenant (limits : PlanLimits) (s next : State)
    (action : Action) (hstep : step limits s action = some next)
    (other : String) (hother : other ≠ action.tenant) :
    next.inflight other = s.inflight other := by
  cases action with
  | admitted tenant plan =>
      simp only [Action.tenant] at hother
      simp only [step, admitExecution] at hstep
      cases hcheck : limits.check plan ((s.inflight tenant).getD 0) with
      | allowed =>
          simp only [hcheck, Option.some.injEq] at hstep
          subst hstep
          simp [Inflight.insert, hother]
      | exceeded detail =>
          simp only [hcheck, Option.some.injEq] at hstep
          subst hstep
          rfl
  | dropped guard =>
      simp only [Action.tenant] at hother
      simp only [step] at hstep
      split at hstep
      · simp only [Option.some.injEq] at hstep
        subst hstep
        simp only [QuotaGuard.drop]
        cases s.inflight guard.tenant with
        | none => rfl
        | some count =>
            by_cases hlast : count - 1 = 0
            · simp [hlast, Inflight.remove, Inflight.insert, hother]
            · simp [hlast, Inflight.insert, hother]
      · cases hstep

theorem run_counts (limits : PlanLimits) (s : State) (actions : List Action)
    (hrun : run (step limits) State.initial actions = some s) :
    Counts s.inflight s.live :=
  run_invariant_of_step (step limits) (fun s => Counts s.inflight s.live)
    (fun s action next h hnext => step_counts limits s next action h hnext)
    State.initial s actions (fun _ => rfl) hrun

/-- The whole contract of the accountant, in every state any interleaving can
reach: the table holds the live counts and no entry at zero, the gate decides
on the live count, a refusal changes nothing, and no operation touches another
tenant. -/
theorem quota_accounting (limits : PlanLimits) (actions : List Action)
    (s : State) (hrun : run (step limits) State.initial actions = some s) :
    (∀ tenant, s.inflight tenant =
      if s.live tenant = 0 then none else some (s.live tenant)) ∧
    (∀ tenant plan,
      (∃ guard, (admitExecution limits s.inflight tenant plan).1 = .ok guard) ↔
        s.live tenant < limits.limitFor plan) ∧
    (∀ name limit, limits.get name = some limit →
      limits.limitFor (some name) = limit.maxConcurrent) ∧
    (∀ plan : Option String, plan.bind limits.get = none → limits.plans ≠ [] →
      IsLeast {value | value ∈ limits.values} (limits.limitFor plan)) ∧
    (limits.plans = [] → ∀ tenant plan,
      ¬ ∃ guard, (admitExecution limits s.inflight tenant plan).1 = .ok guard) ∧
    (∀ tenant plan detail,
      (admitExecution limits s.inflight tenant plan).1 = .error detail →
        (admitExecution limits s.inflight tenant plan).2 = s.inflight) ∧
    (∀ action next, step limits s action = some next →
      ∀ other, other ≠ action.tenant → next.inflight other = s.inflight other) := by
  have hcounts := run_counts limits s actions hrun
  have hok := admitExecution_ok_iff limits s.inflight s.live hcounts
  refine ⟨hcounts, hok, limitFor_of_configured limits,
    limitFor_isLeast limits, ?_, admitExecution_refused limits s.inflight,
    fun action next hstep => step_other_tenant limits s next action hstep⟩
  intro hempty tenant plan hadmitted
  have hlt := (hok tenant plan).mp hadmitted
  rw [limitFor_of_empty limits plan hempty] at hlt
  omega

/-- One free-plan tenant that fills its limit and releases a slot, with a
second tenant on an unknown plan in between. -/
def sampleLimits : PlanLimits :=
  ⟨[("free", ⟨1, by decide⟩), ("pro", ⟨5, by decide⟩)], by decide⟩

def sampleActions : List Action :=
  [.admitted "acme" (some "free"), .admitted "globex" (some "trial"),
    .admitted "acme" none, .admitted "acme" (some "pro"), .dropped ⟨"acme"⟩]

theorem quota_accounting_sample :
    ∃ s, run (step sampleLimits) State.initial sampleActions = some s ∧
      s.live "acme" = 1 ∧ s.live "globex" = 1 ∧
      s.inflight "acme" = some 1 ∧ s.inflight "initech" = none ∧
      ¬ ∃ guard, (admitExecution sampleLimits s.inflight "acme" none).1 =
        .ok guard := by
  obtain ⟨s, hrun⟩ : ∃ s, run (step sampleLimits) State.initial
      sampleActions = some s := ⟨_, rfl⟩
  have hacme : s.live "acme" = 1 := by
    have := Option.some.inj hrun
    subst this
    decide
  have hglobex : s.live "globex" = 1 := by
    have := Option.some.inj hrun
    subst this
    decide
  have hinitech : s.live "initech" = 0 := by
    have := Option.some.inj hrun
    subst this
    decide
  obtain ⟨htable, hok, -⟩ := quota_accounting sampleLimits sampleActions s hrun
  refine ⟨s, hrun, hacme, hglobex, ?_, ?_, ?_⟩
  · rw [htable, hacme]
    rfl
  · rw [htable, hinitech]
    rfl
  · rw [hok, hacme]
    decide

end Runlet.Quota
