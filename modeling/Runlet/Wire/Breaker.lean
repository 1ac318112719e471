import Mathlib.Data.List.Induction
import Mathlib.Order.Basic

/-!
The per-target circuit breaker of `breaker.rs`. Each call takes the lock for
its whole body, so a history is a list of calls with the time each of them
read; nothing under the lock can panic, and the branch for a poisoned lock is
left out. The phases `opened` and `halfOpen` have no field of their own in the
source: they are read off the history of calls here and then compared with
what the two stored fields make the breaker do.
-/

namespace Runlet.Breaker

def u32Max : Nat := 4294967295

def u64Modulus : Nat := 18446744073709551616

/-- Breaker tunables; times are counted in the clock's own ticks. -/
structure BreakerConfig where
  threshold : Nat
  cooldown : Nat
  thresholdIsU32 : threshold ≤ u32Max

structure TargetState where
  failures : Nat
  openUntil : Option Nat
  deriving DecidableEq

structure CircuitBreaker where
  config : BreakerConfig
  targets : String → Option TargetState
  trips : Nat

/-- `None` when disabled. -/
def CircuitBreaker.new (config : BreakerConfig) : Option CircuitBreaker :=
  if config.threshold = 0 then none
  else some ⟨config, fun _ => none, 0⟩

def CircuitBreaker.insert (b : CircuitBreaker) (target : String)
    (state : TargetState) : CircuitBreaker :=
  { b with targets := fun other => if other = target then some state else b.targets other }

/-- `Instant::checked_add`: `none` past the last representable instant. -/
def checkedAdd (instantMax now cooldown : Nat) : Option Nat :=
  if now + cooldown ≤ instantMax then some (now + cooldown) else none

/-- The answer and the breaker after it: the first call after the cool-down
re-arms the open window. -/
def CircuitBreaker.allow (instantMax : Nat) (b : CircuitBreaker) (target : String)
    (now : Nat) : Bool × CircuitBreaker :=
  match b.targets target with
  | none => (true, b)
  | some state =>
      match state.openUntil with
      | none => (true, b)
      | some deadline =>
          if now < deadline then (false, b)
          else
            let rearmed := checkedAdd instantMax now b.config.cooldown
            (true, b.insert target ⟨state.failures, rearmed⟩)

def CircuitBreaker.record (instantMax : Nat) (b : CircuitBreaker) (target : String)
    (success : Bool) (now : Nat) : CircuitBreaker :=
  let state := (b.targets target).getD ⟨0, none⟩
  if success then b.insert target ⟨0, none⟩
  else
    let failures := min (state.failures + 1) u32Max
    if failures ≥ b.config.threshold then
      let trips := if state.openUntil.isNone then (b.trips + 1) % u64Modulus else b.trips
      let deadline := checkedAdd instantMax now b.config.cooldown
      { b.insert target ⟨failures, deadline⟩ with trips }
    else b.insert target ⟨failures, state.openUntil⟩

inductive Operation where
  | allow
  | record (success : Bool)
  deriving DecidableEq

/-- One call on the shared breaker, with the time it read. -/
structure Call where
  now : Nat
  target : String
  operation : Operation
  deriving DecidableEq

def step (instantMax : Nat) (b : CircuitBreaker) (call : Call) : CircuitBreaker :=
  match call.operation with
  | .allow => (b.allow instantMax call.target call.now).2
  | .record success => b.record instantMax call.target success call.now

def run (instantMax : Nat) (b : CircuitBreaker) (calls : List Call) : CircuitBreaker :=
  calls.foldl (step instantMax) b

/-- Whether a call of `allow` at this point is answered with `true`. -/
def admits (instantMax : Nat) (b : CircuitBreaker) (target : String) (now : Nat) : Bool :=
  (b.allow instantMax target now).1

def CircuitBreaker.openUntil (b : CircuitBreaker) (target : String) : Option Nat :=
  (b.targets target).bind TargetState.openUntil

def CircuitBreaker.failures (b : CircuitBreaker) (target : String) : Nat :=
  ((b.targets target).map TargetState.failures).getD 0

/-- Open or half-open: a deadline is set. -/
def CircuitBreaker.isOpen (b : CircuitBreaker) (target : String) : Bool :=
  (b.openUntil target).isSome

/-- The failures of a target since its last success, from the calls alone. -/
def countFailures (target : String) (count : Nat) (call : Call) : Nat :=
  if call.target = target then
    match call.operation with
    | .allow => count
    | .record true => 0
    | .record false => count + 1
  else count

def consecutiveFailures (target : String) (calls : List Call) : Nat :=
  calls.foldl (countFailures target) 0

/-- An outcome of the target. -/
def Call.recordsOn (call : Call) (target : String) : Bool :=
  decide (call.target = target) && decide (call.operation ≠ .allow)

/-- A call was admitted to the open target after its cool-down, and no outcome
of the target has been recorded since. -/
def HalfOpen (instantMax : Nat) (b : CircuitBreaker) (target : String)
    (calls : List Call) : Prop :=
  ∃ before now after, calls = before ++ ⟨now, target, .allow⟩ :: after ∧
    (run instantMax b before).isOpen target = true ∧
    admits instantMax (run instantMax b before) target now = true ∧
    ∀ call ∈ after, call.recordsOn target = false

/-- Open without a probe under way. -/
def Opened (instantMax : Nat) (b : CircuitBreaker) (target : String)
    (calls : List Call) : Prop :=
  (run instantMax b calls).isOpen target = true ∧ ¬ HalfOpen instantMax b target calls

/-- The closed-to-open transitions along a run. A call changes no target but
its own, so that is where a transition is looked for. -/
def openings (instantMax : Nat) (b : CircuitBreaker) : List Call → Nat
  | [] => 0
  | call :: rest =>
      let next := step instantMax b call
      let opening := !b.isOpen call.target && next.isOpen call.target
      opening.toNat + openings instantMax next rest

/-- The times of the calls never decrease. -/
def Clocked (calls : List Call) : Prop :=
  calls.Pairwise fun earlier later => earlier.now ≤ later.now

section Steps

variable (instantMax : Nat) (b : CircuitBreaker) (target : String)

@[simp] theorem insert_targets_self (state : TargetState) :
    (b.insert target state).targets target = some state := by
  simp [CircuitBreaker.insert]

theorem insert_targets_other (state : TargetState) (other : String) (h : other ≠ target) :
    (b.insert target state).targets other = b.targets other := by
  simp [CircuitBreaker.insert, h]

@[simp] theorem openUntil_insert (state : TargetState) :
    (b.insert target state).openUntil target = state.openUntil := by
  simp [CircuitBreaker.openUntil]

@[simp] theorem failures_insert (state : TargetState) :
    (b.insert target state).failures target = state.failures := by
  simp [CircuitBreaker.failures]

@[simp] theorem insert_trips (state : TargetState) :
    (b.insert target state).trips = b.trips := rfl

@[simp] theorem insert_config (state : TargetState) :
    (b.insert target state).config = b.config := rfl

/-- `allow` through the two views of a target: closed, refused before the
deadline, or admitted with the window re-armed. -/
theorem allow_eq (now : Nat) :
    b.allow instantMax target now =
      match b.openUntil target with
      | none => (true, b)
      | some deadline =>
          if now < deadline then (false, b)
          else (true, b.insert target
            ⟨b.failures target, checkedAdd instantMax now b.config.cooldown⟩) := by
  unfold CircuitBreaker.allow CircuitBreaker.openUntil CircuitBreaker.failures
  cases hstate : b.targets target with
  | none => rfl
  | some state =>
      cases hopen : state.openUntil with
      | none => simp [hopen]
      | some deadline => simp [hopen]

/-- `record` through the same views; an unknown target counts as closed. -/
theorem record_eq (success : Bool) (now : Nat) :
    b.record instantMax target success now =
      if success then b.insert target ⟨0, none⟩
      else if b.config.threshold ≤ min (b.failures target + 1) u32Max then
        { b.insert target ⟨min (b.failures target + 1) u32Max,
            checkedAdd instantMax now b.config.cooldown⟩ with
          trips := if b.openUntil target = none then (b.trips + 1) % u64Modulus
            else b.trips }
      else b.insert target ⟨min (b.failures target + 1) u32Max, b.openUntil target⟩ := by
  unfold CircuitBreaker.record CircuitBreaker.openUntil CircuitBreaker.failures
  cases b.targets target with
  | none => simp
  | some state => simp

theorem failures_record (success : Bool) (now : Nat) :
    (b.record instantMax target success now).failures target =
      if success then 0 else min (b.failures target + 1) u32Max := by
  rw [record_eq]
  split
  · simp
  · split <;> simp [CircuitBreaker.failures]

theorem openUntil_record (success : Bool) (now : Nat) :
    (b.record instantMax target success now).openUntil target =
      if success then none
      else if b.config.threshold ≤ min (b.failures target + 1) u32Max then
        checkedAdd instantMax now b.config.cooldown
      else b.openUntil target := by
  rw [record_eq]
  split
  · simp
  · split <;> simp [CircuitBreaker.openUntil]

theorem trips_record (success : Bool) (now : Nat) :
    (b.record instantMax target success now).trips =
      if success = false ∧ b.config.threshold ≤ min (b.failures target + 1) u32Max ∧
          b.openUntil target = none then
        (b.trips + 1) % u64Modulus
      else b.trips := by
  rw [record_eq]
  cases success with
  | true => simp
  | false =>
      by_cases hreach : b.config.threshold ≤ min (b.failures target + 1) u32Max
      · simp only [Bool.false_eq_true, if_false, if_true, hreach, true_and]
      · simp only [Bool.false_eq_true, if_false, hreach, false_and, and_false,
          insert_trips]

theorem admits_eq_false_iff (now : Nat) :
    admits instantMax b target now = false ↔
      ∃ deadline, b.openUntil target = some deadline ∧ now < deadline := by
  unfold admits
  rw [allow_eq]
  cases b.openUntil target with
  | none => simp
  | some deadline =>
      by_cases hlt : now < deadline
      · simp [hlt]
      · simp [hlt]

theorem openUntil_allow (now : Nat) :
    (b.allow instantMax target now).2.openUntil target =
      if admits instantMax b target now = true ∧ b.isOpen target = true then
        checkedAdd instantMax now b.config.cooldown
      else b.openUntil target := by
  unfold admits CircuitBreaker.isOpen
  rw [allow_eq]
  cases hopen : b.openUntil target with
  | none => simp [hopen]
  | some deadline =>
      by_cases hlt : now < deadline
      · simp [hlt, hopen]
      · simp [hlt]

theorem failures_allow (now : Nat) :
    (b.allow instantMax target now).2.failures target = b.failures target := by
  rw [allow_eq]
  cases b.openUntil target with
  | none => rfl
  | some deadline =>
      by_cases hlt : now < deadline
      · simp [hlt]
      · simp [hlt]

theorem trips_allow (now : Nat) :
    (b.allow instantMax target now).2.trips = b.trips := by
  rw [allow_eq]
  cases b.openUntil target with
  | none => rfl
  | some deadline =>
      by_cases hlt : now < deadline
      · simp [hlt]
      · simp [hlt]

theorem step_config (call : Call) : (step instantMax b call).config = b.config := by
  unfold step
  cases call.operation with
  | allow =>
      simp only [allow_eq]
      cases b.openUntil call.target with
      | none => rfl
      | some deadline =>
          by_cases hlt : call.now < deadline
          · simp [hlt]
          · simp [hlt]
  | record success =>
      simp only [record_eq]
      split
      · rfl
      · split <;> rfl

/-- No call touches the entry of another target. -/
theorem step_targets_other (call : Call) (hother : call.target ≠ target) :
    (step instantMax b call).targets target = b.targets target := by
  have hne : target ≠ call.target := fun h => hother h.symm
  unfold step
  cases call.operation with
  | allow =>
      simp only [allow_eq]
      cases b.openUntil call.target with
      | none => rfl
      | some deadline =>
          by_cases hlt : call.now < deadline
          · simp [hlt]
          · simp [hlt, insert_targets_other, hne]
  | record success =>
      simp only [record_eq]
      split
      · exact insert_targets_other b call.target _ target hne
      · split <;> exact insert_targets_other b call.target _ target hne

theorem openUntil_step_other (call : Call) (hother : call.target ≠ target) :
    (step instantMax b call).openUntil target = b.openUntil target := by
  simp only [CircuitBreaker.openUntil, step_targets_other instantMax b target call hother]

theorem failures_step_other (call : Call) (hother : call.target ≠ target) :
    (step instantMax b call).failures target = b.failures target := by
  simp only [CircuitBreaker.failures, step_targets_other instantMax b target call hother]

end Steps

@[simp] theorem run_append_singleton (instantMax : Nat) (b : CircuitBreaker)
    (calls : List Call) (call : Call) :
    run instantMax b (calls ++ [call]) = step instantMax (run instantMax b calls) call := by
  simp [run, List.foldl_append]

@[simp] theorem consecutiveFailures_append_singleton (target : String)
    (calls : List Call) (call : Call) :
    consecutiveFailures target (calls ++ [call]) =
      countFailures target (consecutiveFailures target calls) call := by
  simp [consecutiveFailures, List.foldl_append]

/-- What the two stored fields mean: the count is the (saturated) number of
failures since the last success, and a deadline is set once that number has
reached the threshold. -/
def Faithful (b : CircuitBreaker) (calls : List Call) : Prop :=
  ∀ target, b.failures target = min (consecutiveFailures target calls) u32Max ∧
    (b.isOpen target = true ↔ b.config.threshold ≤ consecutiveFailures target calls)

theorem checkedAdd_of_le (instantMax now cooldown : Nat) (h : now + cooldown ≤ instantMax) :
    checkedAdd instantMax now cooldown = some (now + cooldown) := by
  simp [checkedAdd, h]

theorem isOpen_allow (instantMax : Nat) (b : CircuitBreaker) (target : String) (now : Nat)
    (hclock : now + b.config.cooldown ≤ instantMax) :
    (b.allow instantMax target now).2.isOpen target = b.isOpen target := by
  unfold CircuitBreaker.isOpen
  rw [openUntil_allow, checkedAdd_of_le _ _ _ hclock]
  split
  · rename_i hprobe
    exact hprobe.2.symm
  · rfl

theorem isOpen_record_success (instantMax : Nat) (b : CircuitBreaker) (target : String)
    (now : Nat) : (b.record instantMax target true now).isOpen target = false := by
  simp [CircuitBreaker.isOpen, openUntil_record]

theorem isOpen_record_failure (instantMax : Nat) (b : CircuitBreaker) (target : String)
    (now : Nat) (hclock : now + b.config.cooldown ≤ instantMax) :
    (b.record instantMax target false now).isOpen target = true ↔
      b.config.threshold ≤ b.failures target + 1 ∨ b.isOpen target = true := by
  have hbound := b.config.thresholdIsU32
  unfold CircuitBreaker.isOpen
  rw [openUntil_record, checkedAdd_of_le _ _ _ hclock]
  by_cases hreach : b.config.threshold ≤ b.failures target + 1
  · have hmin : b.config.threshold ≤ min (b.failures target + 1) u32Max := by omega
    simp [hmin, hreach]
  · have hmin : ¬ b.config.threshold ≤ min (b.failures target + 1) u32Max := by omega
    simp [hmin, hreach]

theorem faithful_step (instantMax : Nat) (b : CircuitBreaker) (calls : List Call)
    (call : Call) (hpos : 0 < b.config.threshold)
    (hclock : call.now + b.config.cooldown ≤ instantMax) (h : Faithful b calls) :
    Faithful (step instantMax b call) (calls ++ [call]) := by
  intro target
  obtain ⟨hfailures, hopen⟩ := h target
  rw [step_config, consecutiveFailures_append_singleton]
  by_cases hself : call.target = target
  · subst hself
    cases hop : call.operation with
    | allow =>
        simp only [step, hop, countFailures, if_true]
        rw [failures_allow, isOpen_allow _ _ _ _ hclock]
        exact ⟨hfailures, hopen⟩
    | record success =>
        cases success with
        | true =>
            simp only [step, hop, countFailures, if_true]
            rw [failures_record, isOpen_record_success]
            refine ⟨by simp, ?_⟩
            simp only [Bool.false_eq_true, false_iff]
            omega
        | false =>
            have hbound := b.config.thresholdIsU32
            simp only [step, hop, countFailures, if_true]
            rw [failures_record, isOpen_record_failure _ _ _ _ hclock, hopen, hfailures]
            simp only [Bool.false_eq_true, if_false]
            omega
  · rw [failures_step_other _ _ _ _ hself, CircuitBreaker.isOpen,
      openUntil_step_other _ _ _ _ hself]
    simp only [countFailures, hself, if_false]
    exact ⟨hfailures, hopen⟩

/-- The times read by the calls leave room for a cool-down. -/
def Representable (instantMax : Nat) (b : CircuitBreaker) (calls : List Call) : Prop :=
  ∀ call ∈ calls, call.now + b.config.cooldown ≤ instantMax

theorem run_config (instantMax : Nat) (b : CircuitBreaker) (calls : List Call) :
    (run instantMax b calls).config = b.config := by
  induction calls using List.reverseRecOn with
  | nil => rfl
  | append_singleton before call ih => rw [run_append_singleton, step_config, ih]

/-- A breaker as `new` builds it. -/
structure Fresh (b : CircuitBreaker) : Prop where
  enabled : 0 < b.config.threshold
  unknown : ∀ target, b.targets target = none
  untripped : b.trips = 0

theorem fresh_new (config : BreakerConfig) (b : CircuitBreaker)
    (hnew : CircuitBreaker.new config = some b) : Fresh b ∧ b.config = config := by
  unfold CircuitBreaker.new at hnew
  split at hnew
  · cases hnew
  · rename_i hthreshold
    cases hnew
    exact ⟨⟨Nat.pos_of_ne_zero hthreshold, fun _ => rfl, rfl⟩, rfl⟩

theorem faithful_run (instantMax : Nat) (b : CircuitBreaker) (hfresh : Fresh b)
    (calls : List Call) (hrep : Representable instantMax b calls) :
    Faithful (run instantMax b calls) calls := by
  induction calls using List.reverseRecOn with
  | nil =>
      intro target
      have hpos := hfresh.enabled
      simp only [run, List.foldl_nil, consecutiveFailures, CircuitBreaker.failures,
        CircuitBreaker.isOpen, CircuitBreaker.openUntil, hfresh.unknown target]
      simp
      omega
  | append_singleton before call ih =>
      rw [run_append_singleton]
      have hconfig := run_config instantMax b before
      apply faithful_step
      · rw [hconfig]
        exact hfresh.enabled
      · rw [hconfig]
        exact hrep call (by simp)
      · exact ih fun other hother => hrep other (by simp [hother])

/-- Between two outcomes of a target a call can only re-arm its window, never
close or open it. -/
theorem isOpen_step_of_not_record (instantMax : Nat) (b : CircuitBreaker) (target : String)
    (call : Call) (hclock : call.now + b.config.cooldown ≤ instantMax)
    (hquiet : call.recordsOn target = false) :
    (step instantMax b call).isOpen target = b.isOpen target := by
  by_cases hself : call.target = target
  · subst hself
    have hop : call.operation = .allow := by simpa [Call.recordsOn] using hquiet
    simp only [step, hop]
    exact isOpen_allow instantMax b call.target call.now hclock
  · simp only [CircuitBreaker.isOpen, openUntil_step_other _ _ _ _ hself]

theorem run_append (instantMax : Nat) (b : CircuitBreaker) (before after : List Call) :
    run instantMax b (before ++ after) = run instantMax (run instantMax b before) after :=
  List.foldl_append

theorem isOpen_run_of_quiet (instantMax : Nat) (b : CircuitBreaker) (target : String)
    (calls : List Call) (hrep : Representable instantMax b calls)
    (hquiet : ∀ call ∈ calls, call.recordsOn target = false) :
    (run instantMax b calls).isOpen target = b.isOpen target := by
  induction calls using List.reverseRecOn with
  | nil => rfl
  | append_singleton before call ih =>
      rw [run_append_singleton, isOpen_step_of_not_record]
      · apply ih
        · exact fun other hother => hrep other (by simp [hother])
        · exact fun other hother => hquiet other (by simp [hother])
      · rw [run_config]
        exact hrep call (by simp)
      · exact hquiet call (by simp)

/-- Until the deadline nothing but an outcome moves it. -/
theorem openUntil_run_of_quiet (instantMax : Nat) (b : CircuitBreaker) (target : String)
    (deadline : Nat) (calls : List Call) (hopen : b.openUntil target = some deadline)
    (hquiet : ∀ call ∈ calls, call.recordsOn target = false)
    (hearly : ∀ call ∈ calls, call.now < deadline) :
    (run instantMax b calls).openUntil target = some deadline := by
  induction calls using List.reverseRecOn with
  | nil => exact hopen
  | append_singleton before call ih =>
      have hbefore : (run instantMax b before).openUntil target = some deadline := by
        apply ih
        · exact fun other hother => hquiet other (by simp [hother])
        · exact fun other hother => hearly other (by simp [hother])
      rw [run_append_singleton]
      by_cases hself : call.target = target
      · subst hself
        have hop : call.operation = .allow := by
          have := hquiet call (by simp)
          simpa [Call.recordsOn] using this
        have hrefused :
            admits instantMax (run instantMax b before) call.target call.now = false := by
          rw [admits_eq_false_iff]
          exact ⟨deadline, hbefore, hearly call (by simp)⟩
        simp only [step, hop]
        rw [openUntil_allow, hrefused, hbefore]
        simp
      · rw [openUntil_step_other _ _ _ _ hself, hbefore]

section Probes

variable {instantMax : Nat} {b : CircuitBreaker} {target : String} {calls : List Call}

theorem HalfOpen.append (h : HalfOpen instantMax b target calls) (call : Call)
    (hquiet : call.recordsOn target = false) :
    HalfOpen instantMax b target (calls ++ [call]) := by
  obtain ⟨before, now, after, rfl, hopen, hadmitted, hafter⟩ := h
  refine ⟨before, now, after ++ [call], by simp, hopen, hadmitted, ?_⟩
  intro other hother
  rcases List.mem_append.mp hother with hmem | hmem
  · exact hafter other hmem
  · rw [List.mem_singleton.mp hmem]
    exact hquiet

theorem not_halfOpen_append_record (call : Call) (hrecord : call.recordsOn target = true) :
    ¬ HalfOpen instantMax b target (calls ++ [call]) := by
  rintro ⟨before, now, after, hsplit, -, -, hafter⟩
  cases after using List.reverseRecOn with
  | nil =>
      have hlast : call = ⟨now, target, .allow⟩ := by
        have := (List.append_inj' hsplit rfl).2
        simpa using this
      rw [hlast] at hrecord
      simp [Call.recordsOn] at hrecord
  | append_singleton rest last =>
      have hlast : call = last := by
        have hsplit' : calls ++ [call] = (before ++ ⟨now, target, .allow⟩ :: rest) ++ [last] := by
          rw [hsplit]
          simp
        have := (List.append_inj' hsplit' rfl).2
        simpa using this
      have := hafter last (by simp)
      rw [← hlast, hrecord] at this
      cases this

theorem HalfOpen.isOpen (h : HalfOpen instantMax b target calls)
    (hrep : Representable instantMax b calls) :
    (run instantMax b calls).isOpen target = true := by
  obtain ⟨before, now, after, rfl, hopen, hadmitted, hafter⟩ := h
  have hsplit : before ++ (⟨now, target, .allow⟩ : Call) :: after =
      (before ++ [⟨now, target, .allow⟩]) ++ after := by simp
  have hprobe : (run instantMax b (before ++ [⟨now, target, .allow⟩])).isOpen target = true := by
    rw [run_append_singleton, isOpen_step_of_not_record]
    · exact hopen
    · rw [run_config]
      exact hrep ⟨now, target, .allow⟩ (by simp)
    · simp [Call.recordsOn]
  rw [hsplit, run_append, isOpen_run_of_quiet]
  · exact hprobe
  · intro call hcall
    rw [run_config]
    exact hrep call (by simp [hcall])
  · exact hafter

end Probes

theorem Call.operation_of_recordsOn (call : Call) (target : String)
    (h : call.recordsOn target = true) :
    call.target = target ∧ ∃ success, call.operation = .record success := by
  simp only [Call.recordsOn, Bool.and_eq_true, decide_eq_true_eq] at h
  refine ⟨h.1, ?_⟩
  cases hop : call.operation with
  | allow => exact absurd hop h.2
  | record success => exact ⟨success, rfl⟩

/-- A target opens at a call exactly when the call records the failure that
reaches the threshold, or the failure of a half-open probe. -/
theorem opened_step_iff (instantMax : Nat) (b : CircuitBreaker) (hfresh : Fresh b)
    (before : List Call) (call : Call)
    (hrep : Representable instantMax b (before ++ [call])) (target : String) :
    (Opened instantMax b target (before ++ [call]) ∧ ¬ Opened instantMax b target before) ↔
      call.target = target ∧ call.operation = .record false ∧
        (consecutiveFailures target before + 1 = b.config.threshold ∨
          HalfOpen instantMax b target before) := by
  have hrepBefore : Representable instantMax b before :=
    fun other hother => hrep other (by simp [hother])
  have hclock : call.now + b.config.cooldown ≤ instantMax := hrep call (by simp)
  have hfaithBefore := (faithful_run instantMax b hfresh before hrepBefore target).2
  have hfaithAfter := (faithful_run instantMax b hfresh (before ++ [call]) hrep target).2
  rw [run_config] at hfaithBefore hfaithAfter
  constructor
  · rintro ⟨⟨hopen, hnoProbe⟩, hnotOpened⟩
    by_cases hrecord : call.recordsOn target = true
    · obtain ⟨hself, success, hop⟩ := call.operation_of_recordsOn target hrecord
      cases success with
      | true =>
          have hcount := hfaithAfter.mp hopen
          have hpos := hfresh.enabled
          simp [countFailures, hself, hop] at hcount
          omega
      | false =>
          refine ⟨hself, hop, ?_⟩
          by_cases hwasOpen : (run instantMax b before).isOpen target = true
          · right
            by_contra hnoHalf
            exact hnotOpened ⟨hwasOpen, hnoHalf⟩
          · left
            have hcount := hfaithAfter.mp hopen
            have hbelow := mt hfaithBefore.mpr hwasOpen
            simp [countFailures, hself, hop] at hcount
            omega
    · have hquiet : call.recordsOn target = false := by simpa using hrecord
      have hsame := isOpen_step_of_not_record instantMax (run instantMax b before) target call
        (by rw [run_config]; exact hclock) hquiet
      rw [run_append_singleton, hsame] at hopen
      have hhalf : HalfOpen instantMax b target before := by
        by_contra hnoHalf
        exact hnotOpened ⟨hopen, hnoHalf⟩
      exact absurd (hhalf.append call hquiet) hnoProbe
  · rintro ⟨hself, hop, hreason⟩
    have hrecord : call.recordsOn target = true := by simp [Call.recordsOn, hself, hop]
    have hcount : b.config.threshold ≤ consecutiveFailures target before + 1 := by
      rcases hreason with hreach | hhalf
      · exact Nat.le_of_eq hreach.symm
      · have := hfaithBefore.mp (hhalf.isOpen hrepBefore)
        omega
    refine ⟨⟨hfaithAfter.mpr ?_, not_halfOpen_append_record call hrecord⟩, ?_⟩
    · simpa [countFailures, hself, hop] using hcount
    · rintro ⟨hopen, hnoHalf⟩
      rcases hreason with hreach | hhalf
      · have := hfaithBefore.mp hopen
        omega
      · exact hnoHalf hhalf

theorem trips_step (instantMax : Nat) (b : CircuitBreaker) (call : Call)
    (hclock : call.now + b.config.cooldown ≤ instantMax) (htrips : b.trips < u64Modulus) :
    (step instantMax b call).trips =
      (b.trips + (!b.isOpen call.target &&
        (step instantMax b call).isOpen call.target).toNat) % u64Modulus := by
  cases hop : call.operation with
  | allow =>
      simp only [step, hop, trips_allow, isOpen_allow _ _ _ _ hclock, Bool.not_and_self,
        Bool.toNat_false, Nat.add_zero]
      exact (Nat.mod_eq_of_lt htrips).symm
  | record success =>
      simp only [step, hop, trips_record]
      cases success with
      | true =>
          simp only [isOpen_record_success, Bool.and_false, Bool.toNat_false, Nat.add_zero]
          simpa using (Nat.mod_eq_of_lt htrips).symm
      | false =>
          have hbound := b.config.thresholdIsU32
          have hopen := isOpen_record_failure instantMax b call.target call.now hclock
          cases hwas : b.openUntil call.target with
          | some deadline =>
              have hisOpen : b.isOpen call.target = true := by
                simp [CircuitBreaker.isOpen, hwas]
              simpa [hisOpen] using (Nat.mod_eq_of_lt htrips).symm
          | none =>
              have hisOpen : b.isOpen call.target = false := by
                simp [CircuitBreaker.isOpen, hwas]
              simp only [hisOpen, Bool.false_eq_true, or_false] at hopen
              by_cases hreach : b.config.threshold ≤ b.failures call.target + 1
              · have hmin : b.config.threshold ≤
                    min (b.failures call.target + 1) u32Max := by omega
                simp [hopen.mpr hreach, hisOpen, hmin]
              · have hmin : ¬ b.config.threshold ≤
                    min (b.failures call.target + 1) u32Max := by omega
                have hstays := Bool.eq_false_iff.mpr (mt hopen.mp hreach)
                simpa [hstays, hisOpen, hmin] using (Nat.mod_eq_of_lt htrips).symm

theorem trips_run (instantMax : Nat) (b : CircuitBreaker) (calls : List Call)
    (hrep : Representable instantMax b calls) (htrips : b.trips < u64Modulus) :
    (run instantMax b calls).trips = (b.trips + openings instantMax b calls) % u64Modulus := by
  induction calls generalizing b with
  | nil => exact (Nat.mod_eq_of_lt htrips).symm
  | cons call rest ih =>
      have hstep := trips_step instantMax b call (hrep call List.mem_cons_self) htrips
      have hrest : Representable instantMax (step instantMax b call) rest := by
        intro other hother
        rw [step_config]
        exact hrep other (List.mem_cons_of_mem call hother)
      have hlt : (step instantMax b call).trips < u64Modulus := by
        rw [hstep]
        exact Nat.mod_lt _ (by decide)
      have hrun : run instantMax b (call :: rest) =
          run instantMax (step instantMax b call) rest := rfl
      rw [hrun, ih _ hrest hlt, hstep]
      simp only [openings]
      rw [Nat.mod_add_mod, Nat.add_assoc]

/-- A recorded failure that leaves the target open has set a whole cool-down. -/
theorem openUntil_record_failure (instantMax : Nat) (b : CircuitBreaker)
    (calls : List Call) (call : Call)
    (hclock : call.now + b.config.cooldown ≤ instantMax) (h : Faithful b calls)
    (hop : call.operation = .record false)
    (hopen : (step instantMax b call).isOpen call.target = true) :
    (step instantMax b call).openUntil call.target = some (call.now + b.config.cooldown) := by
  obtain ⟨hfailures, hthreshold⟩ := h call.target
  have hbound := b.config.thresholdIsU32
  simp only [step, hop] at hopen ⊢
  rw [isOpen_record_failure _ _ _ _ hclock, hthreshold, hfailures] at hopen
  have hmin : b.config.threshold ≤ min (b.failures call.target + 1) u32Max := by
    rw [hfailures]
    omega
  rw [openUntil_record, checkedAdd_of_le _ _ _ hclock]
  simp [hmin]

theorem trips_record_of_isOpen (instantMax : Nat) (b : CircuitBreaker) (call : Call)
    (success : Bool) (hopen : b.isOpen call.target = true)
    (hop : call.operation = .record success) :
    (step instantMax b call).trips = b.trips := by
  have hsome : b.openUntil call.target ≠ none := by
    intro hnone
    simp [CircuitBreaker.isOpen, hnone] at hopen
  simp only [step, hop, trips_record]
  simp [hsome]

/-- A probe holds back every later call for a cool-down, unless an outcome of
the target comes in first. -/
theorem refused_after_probe (instantMax : Nat) (b : CircuitBreaker) (probe call : Call)
    (between : List Call) (hclock : probe.now + b.config.cooldown ≤ instantMax)
    (hprobe : probe.operation = .allow)
    (hopen : b.isOpen probe.target = true)
    (hadmitted : admits instantMax b probe.target probe.now = true)
    (hquiet : ∀ other ∈ between, other.recordsOn probe.target = false)
    (hearly : ∀ other ∈ between, other.now ≤ call.now)
    (hlt : call.now < probe.now + b.config.cooldown) :
    admits instantMax (run instantMax b (probe :: between)) probe.target call.now = false := by
  have hrearmed : (step instantMax b probe).openUntil probe.target =
      some (probe.now + b.config.cooldown) := by
    simp only [step, hprobe]
    rw [openUntil_allow, checkedAdd_of_le _ _ _ hclock]
    simp [hopen, hadmitted]
  have hstays := openUntil_run_of_quiet instantMax (step instantMax b probe) probe.target
    (probe.now + b.config.cooldown) between hrearmed hquiet
    (fun other hother => Nat.lt_of_le_of_lt (hearly other hother) hlt)
  rw [admits_eq_false_iff]
  exact ⟨probe.now + b.config.cooldown, hstays, hlt⟩

/-- The behaviour a circuit breaker is for, along one history of calls. The
deadline of an open target is `openUntil`; `before` is any prefix of the
history and `call` the call that follows it. -/
structure Contract (instantMax : Nat) (b : CircuitBreaker) (calls : List Call) : Prop where
  open_iff : ∀ (before after : List Call), calls = before ++ after → ∀ target,
    (run instantMax b before).isOpen target = true ↔
      b.config.threshold ≤ consecutiveFailures target before
  opens_iff : ∀ (before : List Call) (call : Call) (after : List Call),
    calls = before ++ call :: after → ∀ target,
    (Opened instantMax b target (before ++ [call]) ∧ ¬ Opened instantMax b target before) ↔
      call.target = target ∧ call.operation = .record false ∧
        (consecutiveFailures target before + 1 = b.config.threshold ∨
          HalfOpen instantMax b target before)
  opens_for_cooldown : ∀ (before : List Call) (call : Call) (after : List Call),
    calls = before ++ call :: after →
    Opened instantMax b call.target (before ++ [call]) →
    call.operation = .record false →
    (run instantMax b (before ++ [call])).openUntil call.target =
      some (call.now + b.config.cooldown)
  refused_iff : ∀ (before : List Call) (call : Call) (after : List Call),
    calls = before ++ call :: after →
    call.operation = .allow →
    (admits instantMax (run instantMax b before) call.target call.now = false ↔
      ∃ deadline, (run instantMax b before).openUntil call.target = some deadline ∧
        call.now < deadline)
  one_probe : ∀ (before : List Call) (probe : Call) (between : List Call) (call : Call)
      (after : List Call),
    calls = before ++ probe :: (between ++ call :: after) →
    probe.operation = .allow → call.operation = .allow → call.target = probe.target →
    (run instantMax b before).isOpen probe.target = true →
    admits instantMax (run instantMax b before) probe.target probe.now = true →
    (∀ other ∈ between, other.recordsOn probe.target = false) →
    call.now < probe.now + b.config.cooldown →
    admits instantMax (run instantMax b (before ++ probe :: between))
      call.target call.now = false
  success_closes : ∀ (before : List Call) (call : Call) (after : List Call),
    calls = before ++ call :: after →
    call.operation = .record true →
    (run instantMax b (before ++ [call])).openUntil call.target = none ∧
      (run instantMax b (before ++ [call])).failures call.target = 0
  isolated : ∀ (before : List Call) (call : Call) (after : List Call),
    calls = before ++ call :: after →
    ∀ target, target ≠ call.target →
    (run instantMax b (before ++ [call])).targets target =
      (run instantMax b before).targets target
  trips_counted : (run instantMax b calls).trips = openings instantMax b calls % u64Modulus
  probe_not_counted : ∀ (before : List Call) (call : Call) (after : List Call),
    calls = before ++ call :: after →
    HalfOpen instantMax b call.target before → call.operation = .record false →
    (run instantMax b (before ++ [call])).trips = (run instantMax b before).trips

theorem Clocked.between_le {before between after : List Call} {probe call : Call}
    (h : Clocked (before ++ probe :: (between ++ call :: after))) :
    ∀ other ∈ between, other.now ≤ call.now := by
  intro other hother
  have htail := (List.pairwise_append.mp h).2.1
  have hrest := (List.pairwise_cons.mp htail).2
  exact (List.pairwise_append.mp hrest).2.2 other hother call List.mem_cons_self

theorem breaker_contract (instantMax : Nat) (config : BreakerConfig) (b : CircuitBreaker)
    (hnew : CircuitBreaker.new config = some b) (calls : List Call)
    (hclocked : Clocked calls) (hrep : Representable instantMax b calls) :
    Contract instantMax b calls := by
  obtain ⟨hfresh, -⟩ := fresh_new config b hnew
  have hrepOf : ∀ before after, calls = before ++ after →
      Representable instantMax b before := by
    intro before after hsplit other hother
    exact hrep other (by simp [hsplit, hother])
  have hfaithOf : ∀ before after, calls = before ++ after →
      Faithful (run instantMax b before) before := by
    intro before after hsplit
    exact faithful_run instantMax b hfresh before (hrepOf before after hsplit)
  have hclockOf : ∀ before call after, calls = before ++ call :: after →
      call.now + (run instantMax b before).config.cooldown ≤ instantMax := by
    intro before call after hsplit
    rw [run_config]
    exact hrep call (by simp [hsplit])
  constructor
  case open_iff =>
    intro before after hsplit target
    have h := (hfaithOf before after hsplit target).2
    rwa [run_config] at h
  case opens_iff =>
    intro before call after hsplit target
    exact opened_step_iff instantMax b hfresh before call
      (hrepOf (before ++ [call]) after (by simp [hsplit])) target
  case opens_for_cooldown =>
    intro before call after hsplit hopened hop
    have h := openUntil_record_failure instantMax (run instantMax b before) before call
      (hclockOf before call after hsplit) (hfaithOf before (call :: after) hsplit) hop
      (by simpa using hopened.1)
    rwa [run_config, ← run_append_singleton] at h
  case refused_iff =>
    intro before call after _ _
    exact admits_eq_false_iff instantMax (run instantMax b before) call.target call.now
  case one_probe =>
    intro before probe between call after hsplit hprobe _ htarget hopen hadmitted hquiet hlt
    rw [run_append, htarget]
    apply refused_after_probe instantMax (run instantMax b before) probe call between
      (hclockOf before probe _ hsplit) hprobe hopen hadmitted hquiet
    · exact Clocked.between_le (hsplit ▸ hclocked)
    · rwa [run_config]
  case success_closes =>
    intro before call after _ hop
    rw [run_append_singleton]
    simp only [step, hop]
    rw [openUntil_record, failures_record]
    simp
  case isolated =>
    intro before call after _ target hne
    rw [run_append_singleton]
    exact step_targets_other instantMax (run instantMax b before) target call hne.symm
  case trips_counted =>
    have h := trips_run instantMax b calls hrep (by rw [hfresh.untripped]; decide)
    rwa [hfresh.untripped, Nat.zero_add] at h
  case probe_not_counted =>
    intro before call after hsplit hhalf hop
    rw [run_append_singleton]
    exact trips_record_of_isOpen instantMax (run instantMax b before) call false
      (hhalf.isOpen (hrepOf before (call :: after) hsplit)) hop

/-- Threshold 2 and cool-down 10: two failures trip the target, a probe at 12
fails, and another target goes on undisturbed. -/
def sampleConfig : BreakerConfig := ⟨2, 10, by decide⟩

def sampleCalls : List Call :=
  [⟨0, "db:1", .record false⟩, ⟨1, "db:1", .record false⟩, ⟨2, "db:1", .allow⟩,
    ⟨3, "db:2", .allow⟩, ⟨12, "db:1", .allow⟩, ⟨13, "db:1", .allow⟩,
    ⟨14, "db:1", .record false⟩, ⟨30, "db:1", .record true⟩]

theorem breaker_contract_probe_fails :
    Contract 1000 ⟨sampleConfig, fun _ => none, 0⟩ sampleCalls ∧
      openings 1000 ⟨sampleConfig, fun _ => none, 0⟩ sampleCalls = 1 := by
  have hclocked : Clocked sampleCalls := by
    unfold Clocked
    decide
  have hrepresentable : Representable 1000 ⟨sampleConfig, fun _ => none, 0⟩ sampleCalls := by
    unfold Representable
    decide
  refine ⟨breaker_contract 1000 sampleConfig _ rfl sampleCalls hclocked hrepresentable, ?_⟩
  decide +kernel

end Runlet.Breaker
