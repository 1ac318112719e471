import Runlet.Server.ExecutionAccounting

/-!
What the permits and the quota guards bound. An execution is bounded by a pool
as long as its future is there to hold the unit: by the bulkhead and its
tenant's plan on every path, by its partition's share only against executions
that draw on the same semaphore.
-/

namespace Runlet.Executions

open Errors Gates Identity Ledger Quota Transition

variable {Key : Type}

/-! ### The bulkhead and the plans -/

/-- No future is dropped while its execution runs. -/
def KeepsFuture (s : State) : Action → Prop
  | .disconnect index => ∀ task, s.tasks[index]? = some task → task.running = false
  | _ => True

/-- Every running execution still has the future that holds its permits. -/
def Attended (s : State) : Prop :=
  ∀ task ∈ s.tasks, task.running = true → task.stage = .executing

/-- Whatever runs after a move has just started, or ran before and its future
has not left the executing stage. -/
theorem advanced_running (cfg : Config Key) (pools pools' : Pools) (task task' : Task)
    (h : Advanced cfg pools task task' pools') (hrunning : task'.running = true) :
    task.stage = .permitted ∧ task'.stage = .executing ∨
    task.running = true ∧ (task'.stage = task.stage ∨ task.stage ≠ .executing) := by
  cases h with
  | spawned hstage => exact .inl ⟨hstage, rfl⟩
  | finished hrun => cases hrunning
  | resumed hstage hrun => simp [hrun] at hrunning
  | metered guard table hstage hdebit => exact .inr ⟨hrunning, .inr (by simp [hstage])⟩
  | refused table hstage hdebit => exact .inr ⟨hrunning, .inr (by simp [hstage])⟩
  | failed hstage => exact .inr ⟨hrunning, .inr (by simp [hstage])⟩
  | slotted batch hpath hstage hfree => exact .inr ⟨hrunning, .inr (by simp [hstage])⟩
  | granted bucket rest hpath hstage hgrant =>
      exact .inr ⟨hrunning, .inr (by simp [hstage])⟩
  | shed hpath hstage => exact .inr ⟨hrunning, .inr (by simp [hstage])⟩
  | awaited batch hready hfree =>
      rcases hready with ⟨-, hstage⟩ | ⟨-, hstage⟩
      · exact .inr ⟨hrunning, .inr (by simp [hstage])⟩
      · exact .inr ⟨hrunning, .inr (by simp [hstage])⟩
  | droppedGuard guard hstage hguard => exact .inr ⟨hrunning, .inl rfl⟩
  | droppedSlot batch hstage hpath hslot => exact .inr ⟨hrunning, .inl rfl⟩
  | droppedBucket bucket limiter hstage hbucket hlimiter => exact .inr ⟨hrunning, .inl rfl⟩
  | droppedGlobal hstage hglobal => exact .inr ⟨hrunning, .inl rfl⟩

theorem advanced_attended (cfg : Config Key) (pools pools' : Pools) (task task' : Task)
    (h : Advanced cfg pools task task' pools')
    (hattended : task.running = true → task.stage = .executing)
    (hrunning : task'.running = true) : task'.stage = .executing := by
  rcases advanced_running cfg pools pools' task task' h hrunning with
    ⟨-, hstarted⟩ | ⟨hran, hkept | hleft⟩
  · exact hstarted
  · exact hkept.trans (hattended hran)
  · exact (hleft (hattended hran)).elim

theorem attended_step (cfg : Config Key) (s next : State) (action : Action)
    (hattended : Attended s) (hguard : KeepsFuture s action)
    (h : step cfg s action = some next) : Attended next := by
  intro other hother hrunning
  rcases step_cases cfg s next action h with
    ⟨arriving, harriving, htasks, -⟩ |
    ⟨index, move, task, task', -, htask, hadvance, htasks⟩ |
    ⟨index, task, rfl, htask, -, -, htasks⟩
  · rw [htasks, List.mem_append] at hother
    rcases hother with hold | hnew
    · exact hattended other hold hrunning
    · obtain ⟨path, request, rfl⟩ := harriving.new other hnew
      cases hrunning
  · rw [htasks] at hother
    rcases List.mem_or_eq_of_mem_set hother with hold | rfl
    · exact hattended other hold hrunning
    · exact advanced_attended cfg s.pools next.pools task other
        (advanced_of_advance cfg s.pools next.pools task other move hadvance)
        (hattended task (List.mem_of_getElem? htask)) hrunning
  · rw [htasks] at hother
    rcases List.mem_or_eq_of_mem_set hother with hold | rfl
    · exact hattended other hold hrunning
    · simp [hguard task htask] at hrunning

theorem running_le_capacity (cfg : Config Key) (s : State) (hsound : Sound cfg s)
    (hattended : Attended s) : s.running ≤ cfg.bulkheadCapacity := by
  refine le_trans ?_ hsound.global.total_le
  refine total_le_total _ _ s.tasks ?_
  intro task htask
  cases hrunning : task.running with
  | false => simp
  | true =>
      have hheld := (hsound.held task htask).stage
      simp only [Task.HeldAtStage, hattended task htask hrunning] at hheld
      simp [Task.globalUnits, hheld.2.global]

theorem runningForTenant_le (cfg : Config Key) (s : State) (hsound : Sound cfg s)
    (hattended : Attended s) (trusted : TrustedRuntime Key) (limits : PlanLimits)
    (htrusted : cfg.trusted = some trusted) (hquota : trusted.quota = some limits)
    (tenant : String) : s.runningForTenant tenant ≤ s.guards tenant := by
  refine total_le_total _ _ s.tasks ?_
  intro task htask
  by_cases hcounted : task.running = true ∧ task.request.tenant = some tenant
  · have hheld := (hsound.held task htask).stage
    simp only [Task.HeldAtStage, hattended task htask hcounted.1] at hheld
    have hguard := hheld.1 trusted limits tenant htrusted hquota hcounted.2
    simp [Task.guardUnits, hguard, hcounted.1, hcounted.2]
  · have hzero : (task.running && task.request.tenant == some tenant) = false := by
      simpa using hcounted
    simp [hzero]

/-- In every interleaving that never drops a future under its execution, the
running executions stay within the bulkhead, and those of a tenant within the
limit of its plan (the largest one, should its requests name several). -/
theorem running_bounded (cfg : Config Key) (actions : List Action) (s : State)
    (hguard : Guarded (step cfg) KeepsFuture (State.initial cfg) actions)
    (hrun : run (step cfg) (State.initial cfg) actions = some s) :
    s.running ≤ cfg.bulkheadCapacity ∧
    ∀ trusted limits, cfg.trusted = some trusted → trusted.quota = some limits →
      ∀ tenant bound, (∀ task ∈ s.tasks, task.request.tenant = some tenant →
        limits.limitFor task.request.plan ≤ bound) →
      s.runningForTenant tenant ≤ bound := by
  obtain ⟨hsound, hattended⟩ := run_invariant (step cfg) KeepsFuture
    (fun s => Sound cfg s ∧ Attended s)
    (fun s action next hinv hkeeps hstep =>
      ⟨sound_step cfg s next action hinv.1 hstep,
        attended_step cfg s next action hinv.2 hkeeps hstep⟩)
    (State.initial cfg) s actions
    ⟨sound_initial cfg, fun task htask => by cases htask⟩ hguard hrun
  refine ⟨running_le_capacity cfg s hsound hattended, ?_⟩
  intro trusted limits htrusted hquota tenant bound hbound
  have hguards := runningForTenant_le cfg s hsound hattended trusted limits htrusted
    hquota tenant
  exact hguards.trans (hsound.plans trusted limits htrusted hquota tenant bound hbound)

def meteredTrusted : TrustedRuntime Unit := { sampleTrusted with quota := some sampleLimits }

/-- One blocking thread, and one execution per partition key. -/
def smallBox : Config Unit where
  maxConcurrentExecutions := 1
  poolSize := 1
  maxConcurrentPerPartition := 1
  partitionBuckets := 4
  trusted := some meteredTrusted
  hash := String.length

def acmeIdentity : TrustedIdentity where
  tenant := some "acme"
  user := some "u_42"
  roles := []
  entitlements := []
  suspended := false
  anonymous := false
  plan := some "free"
  principalKind := none
  onBehalfOf := none
  scope := none
  mode := .live
  capture := false
  logLevel := none

def acmeRequest : Request := ⟨some "acme", some acmeIdentity⟩

/-- A request runs, its future resumes and drops everything, and the next one
runs. -/
def inTurn : List Action :=
  [.arrive acmeRequest, .move 0 .quota, .move 0 .permit, .move 0 .spawn,
    .move 0 .finish, .move 0 .resume, .move 0 (.drop .global), .move 0 (.drop .bucket),
    .move 0 (.drop .guard), .arrive acmeRequest, .move 1 .quota, .move 1 .permit,
    .move 1 .spawn]

theorem running_bounded_in_turn :
    ∃ s, run (step smallBox) (State.initial smallBox) inTurn = some s ∧
      s.running = 1 ∧ smallBox.bulkheadCapacity = 1 ∧
      s.runningForTenant "acme" ≤ sampleLimits.limitFor (some "free") := by
  obtain ⟨s, hrun⟩ : ∃ s, run (step smallBox) (State.initial smallBox) inTurn =
      some s := ⟨_, rfl⟩
  have hkeeps : ∀ a ∈ inTurn, ∀ s, KeepsFuture s a := by
    simp [inTurn, KeepsFuture]
  obtain ⟨-, hplan⟩ := running_bounded smallBox inTurn s
    (guarded_of_mem _ _ _ _ hkeeps) hrun
  have hstate := Option.some.inj hrun
  refine ⟨s, hrun, ?_, rfl, hplan meteredTrusted sampleLimits rfl rfl "acme" _ ?_⟩
  · subst hstate
    decide
  · subst hstate
    decide

/-- The client of a running request disconnects: its permits and its guard are
back while its execution still runs, and the next request runs beside it. -/
def disconnectThenNext : List Action :=
  [.arrive acmeRequest, .move 0 .quota, .move 0 .permit, .move 0 .spawn,
    .disconnect 0, .move 0 (.drop .global), .move 0 (.drop .bucket),
    .move 0 (.drop .guard), .arrive acmeRequest, .move 1 .quota, .move 1 .permit,
    .move 1 .spawn]

theorem disconnect_exceeds_bulkhead :
    ∃ s, run (step smallBox) (State.initial smallBox) disconnectThenNext = some s ∧
      s.running = 2 ∧ smallBox.bulkheadCapacity = 1 ∧
      s.runningForTenant "acme" = 2 ∧ sampleLimits.limitFor (some "free") = 1 ∧
      ∀ task ∈ s.tasks, task.request.plan = some "free" := by
  refine ⟨_, rfl, ?_, rfl, ?_, rfl, ?_⟩ <;> decide

/-! ### Fairness over all three paths -/

/-- An execution starts only beside executions of its own kind: a `/execute`
request when no batch execution of its key runs, a batch execution when no
other request of its key runs. -/
def KeepsKind (s : State) : Action → Prop
  | .move index .spawn => ∀ task, s.tasks[index]? = some task →
      ∀ key, task.request.partition = some key → ∀ other ∈ s.tasks,
        other.running = true → other.request.partition = some key →
          other.path.batch = task.path.batch
  | _ => True

/-- All running executions of a key are `/execute` requests, or all belong to
one batch. -/
def OneKind (s : State) : Prop :=
  ∀ left ∈ s.tasks, ∀ right ∈ s.tasks, left.running = true → right.running = true →
    ∀ key, left.request.partition = some key → right.request.partition = some key →
      left.path.batch = right.path.batch

theorem advance_permitted (cfg : Config Key) (pools : Pools) (task : Task) (move : Move)
    (result : Task × Pools) (hstage : task.stage = .permitted)
    (hrunning : task.running = false)
    (h : advance cfg pools task move = some result) : move = .spawn := by
  cases move with
  | spawn => rfl
  | quota => simp [advance, hstage] at h
  | fail => simp [advance, hstage] at h
  | slot => cases hpath : task.path <;> simp [advance, hstage, hpath] at h
  | permit => cases hpath : task.path <;> simp [advance, hstage, hpath] at h
  | finish => simp [advance, hrunning] at h
  | resume => simp [advance, hstage] at h
  | drop resource => simp [advance, hstage] at h

/-- Whatever runs after a step ran before it with the same request and path,
or is the execution a `spawn` has just started. -/
theorem step_running (cfg : Config Key) (s next : State) (action : Action)
    (hsound : Sound cfg s) (h : step cfg s action = some next) (task : Task)
    (htask : task ∈ next.tasks) (hrunning : task.running = true) :
    (∃ old ∈ s.tasks, old.running = true ∧ old.request = task.request ∧
      old.path = task.path) ∨
    ∃ index old, action = .move index .spawn ∧ s.tasks[index]? = some old ∧
      old.request = task.request ∧ old.path = task.path ∧
      ∀ other ∈ next.tasks, other.running = true → other = task ∨ other ∈ s.tasks := by
  rcases step_cases cfg s next action h with
    ⟨arriving, harriving, htasks, -⟩ |
    ⟨index, move, old, new, rfl, hold, hadvance, htasks⟩ |
    ⟨index, old, rfl, hold, -, -, htasks⟩
  · rw [htasks, List.mem_append] at htask
    rcases htask with hmem | hnew
    · exact .inl ⟨task, hmem, hrunning, rfl, rfl⟩
    · obtain ⟨path, request, rfl⟩ := harriving.new task hnew
      cases hrunning
  · rw [htasks] at htask
    rcases List.mem_or_eq_of_mem_set htask with hmem | rfl
    · exact .inl ⟨task, hmem, hrunning, rfl, rfl⟩
    · have hadvanced := advanced_of_advance cfg s.pools next.pools old task move hadvance
      obtain ⟨hrequest, hpath⟩ := advanced_request cfg s.pools next.pools old task hadvanced
      have hmem := List.mem_of_getElem? hold
      rcases advanced_running cfg s.pools next.pools old task hadvanced hrunning with
        ⟨hstage, -⟩ | ⟨hran, -⟩
      · have hheld := (hsound.held old hmem).stage
        simp only [Task.HeldAtStage, hstage] at hheld
        have hspawn := advance_permitted cfg s.pools old move _ hstage hheld.2.2 hadvance
        subst hspawn
        refine .inr ⟨index, old, rfl, hold, hrequest.symm, hpath.symm, ?_⟩
        intro other hother _
        rw [htasks] at hother
        rcases List.mem_or_eq_of_mem_set hother with hin | heq
        · exact .inr hin
        · exact .inl heq
      · exact .inl ⟨old, hmem, hran, hrequest.symm, hpath.symm⟩
  · rw [htasks] at htask
    rcases List.mem_or_eq_of_mem_set htask with hmem | rfl
    · exact .inl ⟨task, hmem, hrunning, rfl, rfl⟩
    · exact .inl ⟨old, List.mem_of_getElem? hold, hrunning, rfl, rfl⟩

theorem oneKind_step (cfg : Config Key) (s next : State) (action : Action)
    (hsound : Sound cfg s) (hkind : OneKind s) (hguard : KeepsKind s action)
    (h : step cfg s action = some next) : OneKind next := by
  intro left hleft right hright hleftRuns hrightRuns key hleftKey hrightKey
  rcases step_running cfg s next action hsound h left hleft hleftRuns with
    ⟨old, hold, holdRuns, hrequest, hpath⟩ |
    ⟨index, old, rfl, hold, hrequest, hpath, hothers⟩
  · rcases step_running cfg s next action hsound h right hright hrightRuns with
      ⟨old', hold', holdRuns', hrequest', hpath'⟩ |
      ⟨index, old', rfl, hold', hrequest', hpath', -⟩
    · rw [← hpath, ← hpath']
      exact hkind old hold old' hold' holdRuns holdRuns' key (by rw [hrequest, hleftKey])
        (by rw [hrequest', hrightKey])
    · rw [← hpath, ← hpath']
      exact hguard old' hold' key (by rw [hrequest', hrightKey]) old hold holdRuns
        (by rw [hrequest, hleftKey])
  · rcases hothers right hright hrightRuns with rfl | hin
    · rfl
    · rw [← hpath]
      exact (hguard old hold key (by rw [hrequest, hleftKey]) right hin hrightRuns
        hrightKey).symm

def Task.livePhase (batch : Nat) (task : Task) : Nat :=
  if task.path = .phase batch ∧ task.done = false then 1 else 0

def Task.liveItem (batch : Nat) (task : Task) : Nat :=
  if task.path = .item batch ∧ task.done = false then 1 else 0

/-- A lifecycle phase runs alone in its batch. -/
def PhasesAlone (s : State) : Prop :=
  ∀ batch, total (Task.livePhase batch) s.tasks ≤ 1 ∧
    (total (Task.livePhase batch) s.tasks = 0 ∨ total (Task.liveItem batch) s.tasks = 0)

theorem advanced_not_done (cfg : Config Key) (pools pools' : Pools) (task task' : Task)
    (h : Advanced cfg pools task task' pools') : task.done = false := by
  cases h with
  | awaited batch hready hfree =>
      rcases hready with ⟨-, hstage⟩ | ⟨-, hstage⟩
      · simp [Task.done, hstage]
      · simp [Task.done, hstage]
  | _ => simp_all [Task.done]

/-- Changing a live future in place never adds a live one. -/
theorem phasesAlone_set (s next : State) (index : Nat) (task task' : Task)
    (halone : PhasesAlone s) (htask : s.tasks[index]? = some task)
    (htasks : next.tasks = s.tasks.set index task') (hlive : task.done = false)
    (hpath : task'.path = task.path) : PhasesAlone next := by
  intro batch
  have hphases : total (Task.livePhase batch) next.tasks ≤
      total (Task.livePhase batch) s.tasks := by
    have hset := total_set (Task.livePhase batch) s.tasks index task task' htask
    have hle : task'.livePhase batch ≤ task.livePhase batch := by
      simp only [Task.livePhase, hpath, hlive, and_true]
      split <;> split <;> simp_all
    rw [htasks]
    omega
  have hitems : total (Task.liveItem batch) next.tasks ≤
      total (Task.liveItem batch) s.tasks := by
    have hset := total_set (Task.liveItem batch) s.tasks index task task' htask
    have hle : task'.liveItem batch ≤ task.liveItem batch := by
      simp only [Task.liveItem, hpath, hlive, and_true]
      split <;> split <;> simp_all
    rw [htasks]
    omega
  have hbatch := halone batch
  omega

theorem idle_no_live (s : State) (batch : Nat) (hidle : s.idle batch = true) :
    total (Task.livePhase batch) s.tasks = 0 ∧ total (Task.liveItem batch) s.tasks = 0 := by
  have hdone : ∀ task ∈ s.tasks, task.path.batch = some batch → task.done = true := by
    intro task htask hof
    have := List.all_eq_true.mp hidle task htask
    simpa [hof] using this
  constructor
  · rw [total_eq_zero_iff]
    intro task htask
    by_cases hpath : task.path = .phase batch
    · simp [Task.livePhase, hdone task htask (by simp [hpath, Path.batch])]
    · simp [Task.livePhase, hpath]
  · rw [total_eq_zero_iff]
    intro task htask
    by_cases hpath : task.path = .item batch
    · simp [Task.liveItem, hdone task htask (by simp [hpath, Path.batch])]
    · simp [Task.liveItem, hpath]

theorem phasesAlone_append (s next : State) (arriving : List Task)
    (halone : PhasesAlone s) (harriving : Arriving s arriving)
    (htasks : next.tasks = s.tasks ++ arriving) : PhasesAlone next := by
  intro batch
  have hbatch := halone batch
  rw [htasks]
  simp only [total_append]
  cases harriving with
  | none => simpa using hbatch
  | execute request =>
      simpa [Task.livePhase, Task.liveItem, Task.new] using hbatch
  | phase number request hidle =>
      by_cases hsame : number = batch
      · subst hsame
        obtain ⟨hphases, hitems⟩ := idle_no_live s number hidle
        simp [Task.livePhase, Task.liveItem, Task.new, Task.done, hphases, hitems]
      · simpa [Task.livePhase, Task.liveItem, Task.new, hsame] using hbatch
  | items number count request hidle =>
      have hphases : total (Task.livePhase batch)
          (List.replicate count (Task.new (.item number) request)) = 0 := by
        rw [total_eq_zero_iff]
        intro task htask
        rw [List.eq_of_mem_replicate htask]
        simp [Task.livePhase, Task.new]
      by_cases hsame : number = batch
      · subst hsame
        have hidle' := idle_no_live s number hidle
        omega
      · have hitems : total (Task.liveItem batch)
            (List.replicate count (Task.new (.item number) request)) = 0 := by
          rw [total_eq_zero_iff]
          intro task htask
          rw [List.eq_of_mem_replicate htask]
          simp [Task.liveItem, Task.new, hsame]
        omega

theorem phasesAlone_step (cfg : Config Key) (s next : State) (action : Action)
    (halone : PhasesAlone s) (h : step cfg s action = some next) : PhasesAlone next := by
  rcases step_cases cfg s next action h with
    ⟨arriving, harriving, htasks, -⟩ |
    ⟨index, move, task, task', -, htask, hadvance, htasks⟩ |
    ⟨index, task, -, htask, hopen, -, htasks⟩
  · exact phasesAlone_append s next arriving halone harriving htasks
  · have hadvanced := advanced_of_advance cfg s.pools next.pools task task' move hadvance
    exact phasesAlone_set s next index task task' halone htask htasks
      (advanced_not_done cfg s.pools next.pools task task' hadvanced)
      (advanced_request cfg s.pools next.pools task task' hadvanced).2
  · exact phasesAlone_set s next index task _ halone htask htasks
      (by simp [Task.done, hopen]) rfl

theorem Config.batchCeiling_le (cfg : Config Key)
    (hfair : 0 < cfg.maxConcurrentPerPartition) :
    cfg.batchCeiling ≤ cfg.maxConcurrentPerPartition := by
  simp only [Config.batchCeiling, hfair, if_true]
  omega

/-- With fairness on, every key has a bucket of the configured size. -/
theorem Config.bucket_capacity (cfg : Config Key)
    (hfair : 0 < cfg.maxConcurrentPerPartition) :
    cfg.shape = some cfg.resolvedPartitionBuckets ∧
    ∀ key, Permits.bucketFree (bucketFor cfg.hash cfg.resolvedPartitionBuckets key)
      ⟨cfg.bulkheadCapacity, cfg.partitionLimiter⟩ = cfg.maxConcurrentPerPartition := by
  have hcount : 0 < cfg.resolvedPartitionBuckets := by
    unfold Config.resolvedPartitionBuckets
    split
    · assumption
    · decide
  have hlimiter : cfg.partitionLimiter =
      some ⟨List.replicate cfg.resolvedPartitionBuckets cfg.maxConcurrentPerPartition⟩ := by
    unfold Config.partitionLimiter PartitionLimiter.new
    rw [if_neg (by omega)]
  refine ⟨by simp [Config.shape, hlimiter], ?_⟩
  intro key
  have hlt : bucketFor cfg.hash cfg.resolvedPartitionBuckets key <
      cfg.resolvedPartitionBuckets := Nat.mod_lt _ hcount
  simp [Permits.bucketFree, hlimiter, List.getD_eq_getElem?_getD, hlt]

/-- The executions of a key that are counted against a pool of units. -/
theorem runningForKey_le_total (s : State) (key : String) (units : Task → Nat)
    (hunits : ∀ task ∈ s.tasks, task.running = true →
      task.request.partition = some key → 1 ≤ units task) :
    s.runningForKey key ≤ total units s.tasks := by
  refine total_le_total _ _ s.tasks ?_
  intro task htask
  by_cases hcounted : task.running = true ∧ task.request.partition = some key
  · have := hunits task htask hcounted.1 hcounted.2
    simpa [hcounted.1, hcounted.2] using this
  · have hzero : (task.running && task.request.partition == some key) = false := by
      simpa using hcounted
    simp [hzero]

/-- Only `/execute` requests run: each holds the bucket of the key. -/
theorem runningForKey_le_of_executions (cfg : Config Key) (s : State)
    (hfair : 0 < cfg.maxConcurrentPerPartition) (hsound : Sound cfg s)
    (hpermitted : ∀ task ∈ s.tasks, task.running = true → task.Permitted cfg) (key : String)
    (hkind : ∀ task ∈ s.tasks, task.running = true → task.request.partition = some key →
      task.path.batch = none) :
    s.runningForKey key ≤ cfg.maxConcurrentPerPartition := by
  obtain ⟨hshape, hcapacity⟩ := cfg.bucket_capacity hfair
  refine (runningForKey_le_total s key (Task.bucketUnits
    (bucketFor cfg.hash cfg.resolvedPartitionBuckets key)) ?_).trans ?_
  · intro task htask hrunning hkey
    have hexecute : task.path = .execute := by
      have := hkind task htask hrunning hkey
      cases hpath : task.path with
      | execute => rfl
      | item batch => simp [hpath, Path.batch] at this
      | phase batch => simp [hpath, Path.batch] at this
    have hbucket := (hpermitted task htask hrunning).bucket hexecute key _ hkey hshape
    simp [Task.bucketUnits, hbucket]
  · have hle := (hsound.buckets
      (bucketFor cfg.hash cfg.resolvedPartitionBuckets key)).total_le
    rw [hcapacity key] at hle
    exact hle

/-- Only the items or only the phases of one batch run: an item holds a slot of the
batch's gate, and beside a phase nothing runs. -/
theorem runningForKey_le_of_batch (cfg : Config Key) (s : State)
    (hfair : 0 < cfg.maxConcurrentPerPartition) (hsound : Sound cfg s) (hattended : Attended s)
    (hpermitted : ∀ task ∈ s.tasks, task.running = true → task.Permitted cfg)
    (halone : PhasesAlone s) (key : String) (batch : Nat)
    (hkind : ∀ task ∈ s.tasks, task.running = true → task.request.partition = some key →
      task.path.batch = some batch) :
    s.runningForKey key ≤ cfg.maxConcurrentPerPartition := by
  have hlive : ∀ task ∈ s.tasks, task.running = true → task.done = false := by
    intro task htask hrunning
    simp [Task.done, hattended task htask hrunning]
  have hpath : ∀ task ∈ s.tasks, task.running = true → task.request.partition = some key →
      task.path = .item batch ∨ task.path = .phase batch := by
    intro task htask hrunning hkey
    have := hkind task htask hrunning hkey
    cases hpath : task.path with
    | execute => simp [hpath, Path.batch] at this
    | item other => simpa [hpath, Path.batch] using this
    | phase other => simpa [hpath, Path.batch] using this
  obtain ⟨hone, hsplit⟩ := halone batch
  rcases hsplit with hnone | hnone
  · refine (runningForKey_le_total s key (Task.slotUnits batch) ?_).trans
      ((hsound.gates batch).total_le.trans (cfg.batchCeiling_le hfair))
    intro task htask hrunning hkey
    rcases hpath task htask hrunning hkey with hitem | hphase
    · have hslot := (hpermitted task htask hrunning).slot batch hitem
      simp [Task.slotUnits, hitem, hslot]
    · have hzero := (total_eq_zero_iff _ _).mp hnone task htask
      simp [Task.livePhase, hphase, hlive task htask hrunning] at hzero
  · refine (runningForKey_le_total s key (Task.livePhase batch) ?_).trans (hone.trans hfair)
    intro task htask hrunning hkey
    rcases hpath task htask hrunning hkey with hitem | hphase
    · have hzero := (total_eq_zero_iff _ _).mp hnone task htask
      simp [Task.liveItem, hitem, hlive task htask hrunning] at hzero
    · simp [Task.livePhase, hphase, hlive task htask hrunning]

theorem runningForKey_le (cfg : Config Key) (s : State)
    (hfair : 0 < cfg.maxConcurrentPerPartition) (hsound : Sound cfg s)
    (hattended : Attended s) (hkind : OneKind s) (halone : PhasesAlone s) (key : String) :
    s.runningForKey key ≤ cfg.maxConcurrentPerPartition := by
  have hpermitted : ∀ task ∈ s.tasks, task.running = true → task.Permitted cfg := by
    intro task htask hrunning
    have hheld := (hsound.held task htask).stage
    simp only [Task.HeldAtStage, hattended task htask hrunning] at hheld
    exact hheld.2
  by_cases hsome : ∃ task ∈ s.tasks, task.running = true ∧
      task.request.partition = some key
  · obtain ⟨first, hfirst, hfirstRuns, hfirstKey⟩ := hsome
    have hsame : ∀ task ∈ s.tasks, task.running = true →
        task.request.partition = some key → task.path.batch = first.path.batch :=
      fun task htask hrunning hkey => hkind task htask first hfirst hrunning hfirstRuns
        key hkey hfirstKey
    cases hbatch : first.path.batch with
    | none =>
        rw [hbatch] at hsame
        exact runningForKey_le_of_executions cfg s hfair hsound hpermitted key hsame
    | some batch =>
        rw [hbatch] at hsame
        exact runningForKey_le_of_batch cfg s hfair hsound hattended hpermitted halone key batch
          hsame
  · have hzero := runningForKey_le_total s key (fun _ => 0) (by
      intro task htask hrunning hkey
      exact (hsome ⟨task, htask, hrunning, hkey⟩).elim)
    rw [(total_eq_zero_iff (fun _ => 0) s.tasks).mpr fun _ _ => rfl] at hzero
    omega

/-- In every interleaving in which executions of a key run beside their own
kind only, and no future is dropped under its execution, fairness holds. -/
theorem partition_bounded (cfg : Config Key) (hfair : 0 < cfg.maxConcurrentPerPartition)
    (actions : List Action) (s : State)
    (hguard : Guarded (step cfg) (fun s action => KeepsFuture s action ∧
      KeepsKind s action) (State.initial cfg) actions)
    (hrun : run (step cfg) (State.initial cfg) actions = some s) (key : String) :
    s.runningForKey key ≤ cfg.maxConcurrentPerPartition := by
  obtain ⟨hsound, hattended, hkind, halone⟩ := run_invariant (step cfg) _
    (fun s => Sound cfg s ∧ Attended s ∧ OneKind s ∧ PhasesAlone s)
    (fun s action next hinv hkeeps hstep =>
      ⟨sound_step cfg s next action hinv.1 hstep,
        attended_step cfg s next action hinv.2.1 hkeeps.1 hstep,
        oneKind_step cfg s next action hinv.1 hinv.2.2.1 hkeeps.2 hstep,
        phasesAlone_step cfg s next action hinv.2.2.2 hstep⟩)
    (State.initial cfg) s actions
    ⟨sound_initial cfg, (fun task htask => by cases htask),
      (fun task htask => by cases htask), fun batch => ⟨Nat.zero_le 1, .inl rfl⟩⟩
    hguard hrun
  exact runningForKey_le cfg s hfair hsound hattended hkind halone key

/-- Executions start and futures are dropped only while nothing runs. -/
def quietStart (s : State) : Action → Bool
  | .move _ .spawn => s.running == 0
  | .disconnect _ => s.running == 0
  | _ => true

theorem keeps_of_quietStart (s : State) (action : Action)
    (hquiet : quietStart s action = true) :
    KeepsFuture s action ∧ KeepsKind s action := by
  have hidle (hzero : s.running = 0) : ∀ task ∈ s.tasks, task.running = false := by
    intro task htask
    have := (total_eq_zero_iff _ _).mp hzero task htask
    simpa using this
  unfold quietStart at hquiet
  split at hquiet
  · refine ⟨trivial, ?_⟩
    intro task _ key _ other hother hruns
    simp [hidle (by simpa using hquiet) other hother] at hruns
  · refine ⟨?_, trivial⟩
    intro task htask
    exact hidle (by simpa using hquiet) task (List.mem_of_getElem? htask)
  · rename_i hspawn hdisconnect
    constructor
    · cases action with
      | disconnect index => exact (hdisconnect index rfl).elim
      | _ => trivial
    · unfold KeepsKind
      split
      · exact (hspawn _ rfl).elim
      · trivial

/-- Two blocking threads, one execution per partition key, no quota. -/
def fairBox : Config Unit :=
  { smallBox with maxConcurrentExecutions := 2, trusted := none }

/-- A batch with a `before` phase, then its first item. -/
def oneBatch : List Action :=
  [.submit 0 acmeRequest true 2 false, .proceed 0, .move 0 .quota, .move 0 .permit,
    .move 0 .spawn, .move 0 .finish, .move 0 .resume, .move 0 (.drop .global),
    .proceed 0, .move 1 .quota, .move 1 .slot, .move 1 .permit, .move 1 .spawn]

theorem partition_bounded_one_batch :
    ∃ s, run (step fairBox) (State.initial fairBox) oneBatch = some s ∧
      s.runningForKey "acme" = 1 ∧
      s.runningForKey "acme" ≤ fairBox.maxConcurrentPerPartition := by
  obtain ⟨s, hrun⟩ : ∃ s, run (step fairBox) (State.initial fairBox) oneBatch =
      some s := ⟨_, rfl⟩
  have hquiet : tested (step fairBox) quietStart (State.initial fairBox) oneBatch =
      true := by decide
  have hbound := partition_bounded fairBox (by decide) oneBatch s
    (guarded_of_tested _ _ quietStart keeps_of_quietStart _ _ hquiet) hrun "acme"
  have hstate := Option.some.inj hrun
  refine ⟨s, hrun, ?_, hbound⟩
  subst hstate
  decide

/-- An item of a batch starts beside a `/execute` request of the same key: it
takes no permit of the key's bucket. -/
def itemBesideExecute : List Action :=
  [.arrive acmeRequest, .move 0 .quota, .move 0 .permit, .move 0 .spawn,
    .submit 0 acmeRequest false 1 false, .proceed 0, .move 1 .quota, .move 1 .slot,
    .move 1 .permit, .move 1 .spawn]

theorem item_exceeds_partition_share :
    ∃ s, run (step fairBox) (State.initial fairBox) itemBesideExecute = some s ∧
      s.runningForKey "acme" = 2 ∧ fairBox.maxConcurrentPerPartition = 1 := by
  refine ⟨_, rfl, ?_, rfl⟩
  decide

end Runlet.Executions
