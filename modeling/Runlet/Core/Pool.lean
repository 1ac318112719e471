import Runlet.Lib.Ledger
import Runlet.Lib.Transition

/-!
The pool of warm runtimes (`pool.rs`) under `LogicHost::run` and `shutdown`
from any number of threads. Every atomic operation is a step of its own, so the
operations of an acquire, a release and a drain interleave freely. Runtimes are
alike; the queue is the number of them that are idle. A panic of the engine
unwinds through `run`, which drops the runtime without a release.
-/

namespace Runlet.Pool

open Ledger Transition

def gcEveryN : Nat := 16

/-- The queue and the shared counters. `drained` tells that some `shutdown`
has returned. -/
structure JsPool where
  size : Nat
  idle : Nat
  accepting : Bool
  inFlight : Nat
  releaseSeq : Nat
  gcRuns : Nat
  drained : Bool
  deriving DecidableEq

def JsPool.new (size : Nat) : JsPool := ⟨size, size, true, 0, 0, 0, false⟩

/-- Where a thread stands, named after what comes next. -/
inductive Phase where
  | outside
  | resolving
  | acquiring
  | counting
  | executing
  | unwinding
  | uncounting
  | releasing
  | numbering
  | sweeping
  | pushing
  | disposing
  | draining
  deriving DecidableEq

/-- What a thread does next where it has a choice or where its surroundings
decide: which call it makes, and whether a step fails or panics. -/
inductive Move where
  | run
  | shutdown
  | go
  | fail
  | panic
  deriving DecidableEq

def JsPool.step (pool : JsPool) : Phase → Move → Option (JsPool × Phase)
  -- `is_accepting`
  | .outside, .run => some (pool, if pool.accepting then .resolving else .outside)
  -- the first half of `shutdown`
  | .outside, .shutdown => some ({ pool with accepting := false }, .draining)
  -- the registered script, if one is asked for
  | .resolving, .go => some (pool, .acquiring)
  | .resolving, .fail => some (pool, .outside)
  -- `pop`, or a new runtime
  | .acquiring, .go => some ({ pool with idle := pool.idle - 1 }, .counting)
  | .acquiring, .fail => if pool.idle = 0 then some (pool, .outside) else none
  | .counting, .go => some ({ pool with inFlight := pool.inFlight + 1 }, .executing)
  | .executing, .go => some (pool, .uncounting)
  | .executing, .panic => some (pool, .unwinding)
  | .unwinding, .go => some (pool, .outside)
  -- `release`
  | .uncounting, .go => some ({ pool with inFlight := pool.inFlight - 1 }, .releasing)
  | .releasing, .go => some (pool, if pool.accepting then .numbering else .disposing)
  | .numbering, .go =>
      some ({ pool with releaseSeq := pool.releaseSeq + 1 },
        if pool.releaseSeq % gcEveryN = 0 then .sweeping else .pushing)
  | .sweeping, .go => some ({ pool with gcRuns := pool.gcRuns + 1 }, .pushing)
  | .pushing, .go =>
      some ({ pool with idle := if pool.idle < pool.size then pool.idle + 1 else pool.idle },
        .outside)
  | .disposing, .go => some (pool, .outside)
  -- `pop` until there is none
  | .draining, .go =>
      if pool.idle = 0 then some ({ pool with drained := true }, .outside)
      else some ({ pool with idle := pool.idle - 1 }, .draining)
  | _, _ => none

structure State where
  pool : JsPool
  threads : List Phase

def State.init (size threads : Nat) : State :=
  ⟨JsPool.new size, List.replicate threads .outside⟩

/-- Thread `i` makes a move. -/
def step (s : State) (action : Nat × Move) : Option State :=
  match s.threads[action.1]? with
  | none => none
  | some phase =>
      match s.pool.step phase action.2 with
      | none => none
      | some (pool, next) => some ⟨pool, s.threads.set action.1 next⟩

/-! ### The contract -/

/-- Between the two halves of the in-flight count; a panicked execution counts
until it has unwound. -/
def Phase.inFlight : Phase → Nat
  | .executing => 1
  | .unwinding => 1
  | .uncounting => 1
  | _ => 0

/-- A sweep under way. -/
def Phase.sweeps : Phase → Nat
  | .sweeping => 1
  | _ => 0

structure PoolContract (s : State) : Prop where
  inFlight : s.pool.inFlight = total Phase.inFlight s.threads
  idle : s.pool.idle ≤ s.pool.size
  drained : s.pool.drained = true → s.pool.inFlight = 0 → s.pool.idle = 0
  sweeps : s.pool.gcRuns + total Phase.sweeps s.threads =
    (s.pool.releaseSeq + (gcEveryN - 1)) / gcEveryN

/-- No execution panics, and no runtime is pushed once a `shutdown` has
returned. -/
def Undisturbed (s : State) (action : Nat × Move) : Prop :=
  (s.threads[action.1]? = some .executing → action.2 ≠ .panic) ∧
    (s.threads[action.1]? = some .pushing → s.pool.drained = false)

instance (s : State) (action : Nat × Move) : Decidable (Undisturbed s action) :=
  inferInstanceAs (Decidable (_ ∧ _))

structure Inv (s : State) : Prop where
  inFlight : s.pool.inFlight = total Phase.inFlight s.threads
  sound : Phase.unwinding ∉ s.threads
  idle : s.pool.idle ≤ s.pool.size
  drained : s.pool.drained = true → s.pool.idle = 0
  sweeps : s.pool.gcRuns + total Phase.sweeps s.threads =
    (s.pool.releaseSeq + (gcEveryN - 1)) / gcEveryN

/-- The sweeps that go with a number of re-pooling releases. -/
def dueSweeps (releases : Nat) : Nat := (releases + (gcEveryN - 1)) / gcEveryN

/-- Every sixteenth release, the first one included, is due for a sweep. -/
theorem dueSweeps_succ (releases : Nat) :
    dueSweeps (releases + 1) = dueSweeps releases + if releases % gcEveryN = 0 then 1 else 0 := by
  unfold dueSweeps gcEveryN
  split <;> omega

/-- What one step does to the counters, for the thread that takes it. -/
structure StepSpec (pool next : JsPool) (phase after : Phase) : Prop where
  inFlight : next.inFlight + phase.inFlight = pool.inFlight + after.inFlight
  sound : after ≠ .unwinding
  idle : next.idle ≤ next.size
  drained : next.drained = true → next.idle = 0
  sweeps : next.gcRuns + after.sweeps + dueSweeps pool.releaseSeq =
    pool.gcRuns + phase.sweeps + dueSweeps next.releaseSeq

theorem step_spec (pool next : JsPool) (phase after : Phase) (move : Move)
    (hstep : pool.step phase move = some (next, after))
    (hphase : phase ≠ .unwinding) (hpanic : phase = .executing → move ≠ .panic)
    (hpush : phase = .pushing → pool.drained = false)
    (hcounted : phase.inFlight ≤ pool.inFlight) (hidle : pool.idle ≤ pool.size)
    (hdrained : pool.drained = true → pool.idle = 0) : StepSpec pool next phase after := by
  cases phase with
  | outside =>
      cases move with
      | run =>
          cases hstep
          by_cases haccepting : pool.accepting = true
          · rw [if_pos haccepting]
            exact ⟨rfl, by decide, hidle, hdrained, rfl⟩
          · rw [if_neg haccepting]
            exact ⟨rfl, by decide, hidle, hdrained, rfl⟩
      | shutdown =>
          cases hstep
          exact ⟨rfl, by decide, hidle, hdrained, rfl⟩
      | _ => cases hstep
  | resolving =>
      cases move with
      | go =>
          cases hstep
          exact ⟨rfl, by decide, hidle, hdrained, rfl⟩
      | fail =>
          cases hstep
          exact ⟨rfl, by decide, hidle, hdrained, rfl⟩
      | _ => cases hstep
  | acquiring =>
      cases move with
      | go =>
          cases hstep
          refine ⟨rfl, by decide, Nat.le_trans (Nat.sub_le _ _) hidle, ?_, rfl⟩
          intro h
          simp [hdrained h]
      | fail =>
          simp only [JsPool.step] at hstep
          split at hstep
          · cases hstep
            exact ⟨rfl, by decide, hidle, hdrained, rfl⟩
          · cases hstep
      | _ => cases hstep
  | counting =>
      cases move with
      | go =>
          cases hstep
          exact ⟨rfl, by decide, hidle, hdrained, rfl⟩
      | _ => cases hstep
  | executing =>
      cases move with
      | go =>
          cases hstep
          exact ⟨rfl, by decide, hidle, hdrained, rfl⟩
      | panic => exact absurd rfl (hpanic rfl)
      | _ => cases hstep
  | unwinding => exact absurd rfl hphase
  | uncounting =>
      cases move with
      | go =>
          cases hstep
          exact ⟨Nat.sub_add_cancel hcounted, by decide, hidle, hdrained, rfl⟩
      | _ => cases hstep
  | releasing =>
      cases move with
      | go =>
          cases hstep
          by_cases haccepting : pool.accepting = true
          · rw [if_pos haccepting]
            exact ⟨rfl, by decide, hidle, hdrained, rfl⟩
          · rw [if_neg haccepting]
            exact ⟨rfl, by decide, hidle, hdrained, rfl⟩
      | _ => cases hstep
  | numbering =>
      cases move with
      | go =>
          cases hstep
          have hdue := dueSweeps_succ pool.releaseSeq
          by_cases hmultiple : pool.releaseSeq % gcEveryN = 0
          · rw [if_pos hmultiple] at hdue ⊢
            refine ⟨rfl, by decide, hidle, hdrained, ?_⟩
            simp only [Phase.sweeps, hdue]
            omega
          · rw [if_neg hmultiple] at hdue ⊢
            refine ⟨rfl, by decide, hidle, hdrained, ?_⟩
            simp only [Phase.sweeps, hdue]
            omega
      | _ => cases hstep
  | sweeping =>
      cases move with
      | go =>
          cases hstep
          exact ⟨rfl, by decide, hidle, hdrained, rfl⟩
      | _ => cases hstep
  | pushing =>
      cases move with
      | go =>
          cases hstep
          refine ⟨rfl, by decide, ?_, ?_, rfl⟩
          · simp only
            split <;> omega
          · intro h
            rw [hpush rfl] at h
            cases h
      | _ => cases hstep
  | disposing =>
      cases move with
      | go =>
          cases hstep
          exact ⟨rfl, by decide, hidle, hdrained, rfl⟩
      | _ => cases hstep
  | draining =>
      cases move with
      | go =>
          simp only [JsPool.step] at hstep
          split at hstep
          · rename_i hempty
            cases hstep
            exact ⟨rfl, by decide, hidle, fun _ => hempty, rfl⟩
          · cases hstep
            refine ⟨rfl, by decide, Nat.le_trans (Nat.sub_le _ _) hidle, ?_, rfl⟩
            intro h
            simp [hdrained h]
      | _ => cases hstep

theorem inv_init (size threads : Nat) : Inv (State.init size threads) := by
  have hzero (units : Phase → Nat) (h : units .outside = 0) :
      total units (State.init size threads).threads = 0 := by
    rw [total_eq_zero_iff]
    intro phase hphase
    rw [List.eq_of_mem_replicate hphase]
    exact h
  refine ⟨?_, ?_, Nat.le_refl _, (fun h => nomatch h), ?_⟩
  · rw [hzero Phase.inFlight rfl]
    rfl
  · intro hmem
    cases List.eq_of_mem_replicate hmem
  · rw [hzero Phase.sweeps rfl]
    change 0 = (0 + (16 - 1)) / 16
    decide

theorem inv_step (s : State) (action : Nat × Move) (next : State) (hinv : Inv s)
    (hguard : Undisturbed s action) (hstep : step s action = some next) : Inv next := by
  unfold step at hstep
  cases hphase : s.threads[action.1]? with
  | none =>
      rw [hphase] at hstep
      cases hstep
  | some phase =>
      rw [hphase] at hstep
      simp only at hstep
      cases hpool : s.pool.step phase action.2 with
      | none =>
          rw [hpool] at hstep
          cases hstep
      | some moved =>
          obtain ⟨pool, after⟩ := moved
          rw [hpool] at hstep
          cases hstep
          have hmem : phase ∈ s.threads := List.mem_of_getElem? hphase
          have hcounted : phase.inFlight ≤ s.pool.inFlight := by
            rw [hinv.inFlight]
            exact le_total Phase.inFlight s.threads phase hmem
          have hspec := step_spec s.pool pool phase after action.2 hpool
            (fun heq => hinv.sound (heq ▸ hmem))
            (fun heq => hguard.1 (hphase.trans (congrArg some heq)))
            (fun heq => hguard.2 (hphase.trans (congrArg some heq)))
            hcounted hinv.idle hinv.drained
          have hflying := total_set Phase.inFlight s.threads action.1 phase after hphase
          have hsweeping := total_set Phase.sweeps s.threads action.1 phase after hphase
          have hinFlight := hspec.inFlight
          have hsweeps := hspec.sweeps
          have hold := hinv.inFlight
          have holdSweeps : s.pool.gcRuns + total Phase.sweeps s.threads =
            dueSweeps s.pool.releaseSeq := hinv.sweeps
          refine ⟨?_, ?_, hspec.idle, hspec.drained, ?_⟩
          · change pool.inFlight = total Phase.inFlight (s.threads.set action.1 after)
            omega
          · intro hunwinding
            rcases List.mem_or_eq_of_mem_set hunwinding with hold | hnew
            · exact hinv.sound hold
            · exact hspec.sound hnew.symm
          · change pool.gcRuns + total Phase.sweeps (s.threads.set action.1 after) =
              dueSweeps pool.releaseSeq
            omega

/-- For every pool, any number of threads and every interleaving in which no
execution panics and nothing is pushed once a `shutdown` has returned, the
contract holds in every state that is reached. -/
theorem poolContract_of_undisturbed (size threads : Nat) (actions : List (Nat × Move))
    (final : State) (hrun : run step (State.init size threads) actions = some final)
    (hguard : Guarded step Undisturbed (State.init size threads) actions) :
    PoolContract final := by
  have hinv : Inv final := run_invariant step Undisturbed Inv inv_step
    (State.init size threads) final actions (inv_init size threads) hguard hrun
  exact ⟨hinv.inFlight, hinv.idle, fun h _ => hinv.drained h, hinv.sweeps⟩

/-- One execution from start to end, and then a shutdown by another thread. -/
def runThenShutdown : List (Nat × Move) :=
  [(0, .run), (0, .go), (0, .go), (0, .go), (0, .go), (0, .go), (0, .go), (0, .go), (0, .go),
    (0, .go), (1, .shutdown), (1, .go), (1, .go)]

theorem runThenShutdown_contract :
    ∃ final, run step (State.init 1 2) runThenShutdown = some final ∧
      final.pool = ⟨1, 0, false, 0, 1, 1, true⟩ ∧ PoolContract final := by
  refine ⟨_, rfl, rfl, ?_⟩
  refine poolContract_of_undisturbed 1 2 runThenShutdown _ rfl ?_
  exact guarded_of_tested step Undisturbed (fun s action => decide (Undisturbed s action))
    (fun s action h => of_decide_eq_true h) _ _ (by decide)

/-- A panicked execution stays counted. -/
def panicked : List (Nat × Move) :=
  [(0, .run), (0, .go), (0, .go), (0, .go), (0, .panic), (0, .go)]

/-- A release that saw the pool accepting pushes after the drain. -/
def latePush : List (Nat × Move) :=
  [(0, .run), (0, .go), (0, .go), (0, .go), (0, .go), (0, .go), (0, .go), (1, .shutdown), (1, .go),
    (0, .go), (0, .go), (0, .go)]

theorem panic_and_late_push :
    (∃ final, run step (State.init 1 1) panicked = some final ∧
      final.threads = [.outside] ∧ final.pool.inFlight = 1 ∧ ¬ PoolContract final) ∧
    (∃ final, run step (State.init 1 2) latePush = some final ∧
      final.threads = [.outside, .outside] ∧ final.pool = ⟨1, 1, false, 0, 1, 1, true⟩ ∧
      ¬ PoolContract final) := by
  refine ⟨⟨_, rfl, rfl, rfl, ?_⟩, ⟨_, rfl, rfl, rfl, ?_⟩⟩
  · exact fun hcontract => absurd hcontract.inFlight (by decide)
  · exact fun hcontract => absurd (hcontract.drained rfl rfl) (by decide)

end Runlet.Pool
