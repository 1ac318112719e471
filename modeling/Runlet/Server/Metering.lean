import Runlet.Server.ExecutionAccounting
import Runlet.Server.Telemetry

/-!
The usage and audit events of the executions (`emit_executed` in
`telemetry.rs` over the sink of `events.rs`). The box of `Executions` is run
together with a report for each of its futures: what the engine has returned,
and which events have been handed to the sink. A future hands its two events
one after the other once it has resumed with the result, and each hand-over is
an await point, so a client that leaves can drop it there as well as while the
engine runs. The usage dimensions are a projection of the metadata of the
response.
-/

namespace Runlet.Metering

open EngineErrors Identity JsonText Response Telemetry Transition

variable {Key Meta Metrics Egress Effect LogEntry : Type}

/-! ### Events -/

inductive EventBody (Meta : Type) where
  | usage (outcome : String) (metadata : Meta)
  | audit (decision : String) (reason detail : Option String)

structure Event (Meta : Type) where
  tenant : Option String
  user : Option String
  plan : Option String
  traceId : String
  body : EventBody Meta

def Event.isUsage (event : Event Meta) : Bool :=
  match event.body with
  | .usage _ _ => true
  | .audit _ _ _ => false

def Event.isAllowed (event : Event Meta) : Bool :=
  match event.body with
  | .usage _ _ => false
  | .audit decision _ _ => decision == "allowed"

def identityFields (identity : Option TrustedIdentity) :
    Option String × Option String × Option String :=
  match identity with
  | none => (none, none, none)
  | some id => (id.tenant, id.user, id.plan)

/-- The events of one execution, in the order they are handed over; none when
event emission is disabled. -/
def emitExecuted (events : Bool) (identity : Option TrustedIdentity) (traceId : String)
    (recorded : Recorded Meta) : List (Event Meta) :=
  if events then
    let (tenant, user, plan) := identityFields identity
    [⟨tenant, user, plan, traceId, .usage recorded.outcome recorded.metadata⟩,
      ⟨tenant, user, plan, traceId, .audit "allowed" none none⟩]
  else []

/-- The bounded channel and the counter of events that found it full when
their time was up. -/
structure Sink (Meta : Type) where
  queue : List (Event Meta)
  dropped : Nat

def Sink.record (sink : Sink Meta) (event : Event Meta) (capacity : Bool) : Sink Meta :=
  if capacity then { sink with queue := sink.queue ++ [event] }
  else { sink with dropped := sink.dropped + 1 }

/-! ### Reports -/

inductive Engine (Result : Type) where
  | idle
  | running
  | returned (result : Result)

/-- What is reported of one future's execution. -/
structure Report (Meta Result : Type) where
  engine : Engine Result
  pending : List (Event Meta)
  handed : List (Event Meta)

def Report.fresh {Result : Type} : Report Meta Result := ⟨.idle, [], []⟩

/-- The settings and the metadata the reports are made with; futures are
numbered as in the box. -/
structure Surroundings (Meta Metrics Egress : Type) where
  events : Bool
  reader : Reader
  respCfg : RespCfg
  withMetrics : Meta → Metrics → Egress → Meta
  traceId : Nat → String
  baseMeta : Nat → Meta

/-- What the path of a future accounts its result as. The id of an item is
not part of it. -/
def recordedOn (around : Surroundings Meta Metrics Egress) (index : Nat)
    (task : Executions.Task) (result : ExecResult Metrics Egress Effect LogEntry) :
    Recorded Meta :=
  match task.path with
  | .execute => (buildResponse around.withMetrics around.reader around.respCfg
      task.request.identity (around.baseMeta index) result).1
  | .item _ => (renderExecutedItem around.withMetrics around.reader around.respCfg none
      (around.baseMeta index) result).1
  | .phase _ => (lifecycleOutcome around.withMetrics around.reader around.respCfg
      (around.baseMeta index) result).1

/-- The events a future owes for a result. -/
def owed (around : Surroundings Meta Metrics Egress) (index : Nat) (task : Executions.Task)
    (result : ExecResult Metrics Egress Effect LogEntry) : List (Event Meta) :=
  emitExecuted around.events task.request.identity (around.traceId index)
    (recordedOn around index task result)

/-! ### The metered box -/

structure State (Meta Result : Type) where
  box : Executions.State
  reports : Nat → Report Meta Result
  sink : Sink Meta

def State.initial {Result : Type} (cfg : Executions.Config Key) : State Meta Result where
  box := Executions.State.initial cfg
  reports := fun _ => .fresh
  sink := ⟨[], 0⟩

inductive Action (Result : Type) where
  /-- arrivals, the progress of batches, and the moves before an execution or
  after its report -/
  | box (action : Executions.Action)
  /-- `spawn_blocking` -/
  | spawn (index : Nat)
  /-- the engine returns on its blocking thread -/
  | finish (index : Nat) (result : Result)
  /-- the future resumes with the result -/
  | resume (index : Nat)
  /-- one event is handed to the sink, which has room for it or not -/
  | hand (index : Nat) (capacity : Bool)
  /-- the future is dropped at its await point -/
  | disconnect (index : Nat)

section Step

variable {Result : Type}

def State.setReport (s : State Meta Result) (index : Nat) (report : Report Meta Result) :
    State Meta Result :=
  { s with reports := Function.update s.reports index report }

/-- No future of the batch has events left to hand over. -/
def State.reported (s : State Meta Result) (batch : Nat) : Bool :=
  (List.range s.box.tasks.length).all fun index =>
    (s.box.tasks[index]?.bind (·.path.batch)) ≠ some batch ||
      (s.reports index).pending.isEmpty

def State.admissible (s : State Meta Result) : Executions.Action → Bool
  | .move _ .spawn | .move _ .finish | .move _ .resume | .disconnect _ => false
  | .proceed batch => s.reported batch
  | _ => true

end Step

def step (around : Surroundings Meta Metrics Egress) (cfg : Executions.Config Key)
    (s : State Meta (ExecResult Metrics Egress Effect LogEntry)) :
    Action (ExecResult Metrics Egress Effect LogEntry) →
      Option (State Meta (ExecResult Metrics Egress Effect LogEntry))
  | .box action =>
      if s.admissible action then
        (Executions.step cfg s.box action).map fun box => { s with box := box }
      else none
  | .spawn index =>
      (Executions.step cfg s.box (.move index .spawn)).map fun box =>
        { s with box := box }.setReport index { s.reports index with engine := .running }
  | .finish index result =>
      (Executions.step cfg s.box (.move index .finish)).map fun box =>
        { s with box := box }.setReport index
          { s.reports index with engine := .returned result }
  | .resume index =>
      match s.box.tasks[index]?, (s.reports index).engine with
      | some task, .returned result =>
          (Executions.step cfg s.box (.move index .resume)).map fun box =>
            { s with box := box }.setReport index
              { s.reports index with pending := owed around index task result }
      | _, _ => none
  | .hand index capacity =>
      match (s.reports index).pending with
      | [] => none
      | event :: rest =>
          some ({ s with sink := s.sink.record event capacity }.setReport index
            { s.reports index with
              pending := rest, handed := (s.reports index).handed ++ [event] })
  | .disconnect index =>
      match (s.reports index).pending, s.box.tasks[index]? with
      | [], _ =>
          (Executions.step cfg s.box (.disconnect index)).map fun box =>
            { s with box := box }
      | _ :: _, some task =>
          if s.box.droppable task then
            some (s.setReport index { s.reports index with pending := [] })
          else none
      | _ :: _, none => none

/-! ### What one step does to a future and its report -/

section Local

variable (around : Surroundings Meta Metrics Egress) (index : Nat)

/-- The effect of a step on the future it is about, one rule for each kind. -/
inductive Local (task : Executions.Task)
    (report : Report Meta (ExecResult Metrics Egress Effect LogEntry)) :
    Action (ExecResult Metrics Egress Effect LogEntry) → Executions.Task →
    Report Meta (ExecResult Metrics Egress Effect LogEntry) → Prop where
  | quiet (action : Executions.Action) (task' : Executions.Task)
      (hbefore : task.stage ≠ .executing) (hafter : task'.stage ≠ .executing)
      (hrunning : task'.running = task.running)
      (hclosing : task.stage = .closing → task'.stage = .closing)
      (hrequest : task'.request = task.request ∧ task'.path = task.path) :
      Local task report (.box action) task' report
  | spawned (hstage : task.stage = .permitted) :
      Local task report (.spawn index) { task with stage := .executing, running := true }
        { report with engine := .running }
  | finished (result : ExecResult Metrics Egress Effect LogEntry)
      (hrunning : task.running = true) :
      Local task report (.finish index result) { task with running := false }
        { report with engine := .returned result }
  | resumed (result : ExecResult Metrics Egress Effect LogEntry)
      (hstage : task.stage = .executing) (hrunning : task.running = false)
      (hengine : report.engine = .returned result) :
      Local task report (.resume index) { task with stage := .closing }
        { report with pending := owed around index task result }
  | handed (event : Event Meta) (rest : List (Event Meta)) (capacity : Bool)
      (hpending : report.pending = event :: rest) :
      Local task report (.hand index capacity) task
        { report with pending := rest, handed := report.handed ++ [event] }
  | dropped (hpending : report.pending = []) (hstage : task.stage ≠ .closing) :
      Local task report (.disconnect index) { task with stage := .closing } report
  | abandoned (event : Event Meta) (rest : List (Event Meta))
      (hpending : report.pending = event :: rest) :
      Local task report (.disconnect index) task { report with pending := [] }

/-- A future whose events are on their way: it has not started its execution,
its execution runs or has returned, or it hands over what it owes. -/
inductive OnCourse (task : Executions.Task)
    (report : Report Meta (ExecResult Metrics Egress Effect LogEntry)) : Prop where
  | waiting (hstage : task.stage ≠ .executing) (hrunning : task.running = false)
      (hreport : report = .fresh)
  | executing (hstage : task.stage = .executing) (hrunning : task.running = true)
      (hreport : report = ⟨.running, [], []⟩)
  | returned (result : ExecResult Metrics Egress Effect LogEntry)
      (hstage : task.stage = .executing) (hrunning : task.running = false)
      (hreport : report = ⟨.returned result, [], []⟩)
  | reporting (result : ExecResult Metrics Egress Effect LogEntry)
      (hstage : task.stage = .closing) (hrunning : task.running = false)
      (hengine : report.engine = .returned result)
      (howed : report.handed ++ report.pending = owed around index task result)

/-- A future that was dropped with events still owed. -/
inductive Lost (task : Executions.Task)
    (report : Report Meta (ExecResult Metrics Egress Effect LogEntry)) : Prop where
  | orphaned (hstage : task.stage = .closing) (hrunning : task.running = true)
      (hreport : report = ⟨.running, [], []⟩)
  | abandoned (result : ExecResult Metrics Egress Effect LogEntry)
      (missing : List (Event Meta)) (hmissing : missing ≠ [])
      (hstage : task.stage = .closing) (hrunning : task.running = false)
      (hengine : report.engine = .returned result) (hpending : report.pending = [])
      (howed : report.handed ++ missing = owed around index task result)

end Local

/-- The engine runs or has run. -/
def Report.Executed {Result : Type} (report : Report Meta Result) : Prop :=
  match report.engine with
  | .idle => False
  | _ => True

/-- The execution has started and its second event is not handed over yet. -/
def Report.Owing {Result : Type} (report : Report Meta Result) : Prop :=
  report.Executed ∧ report.handed.length < 2

section Course

variable {around : Surroundings Meta Metrics Egress} {index : Nat}
  {task task' : Executions.Task}
  {report report' : Report Meta (ExecResult Metrics Egress Effect LogEntry)}
  {action : Action (ExecResult Metrics Egress Effect LogEntry)}

theorem owed_congr (hrequest : task'.request = task.request ∧ task'.path = task.path)
    (result : ExecResult Metrics Egress Effect LogEntry) :
    owed around index task' result = owed around index task result := by
  unfold owed recordedOn
  rw [hrequest.1, hrequest.2]

theorem owed_length (hevents : around.events = true)
    (result : ExecResult Metrics Egress Effect LogEntry) :
    (owed around index task result).length = 2 := by
  simp [owed, emitExecuted, hevents]

/-- A step keeps a future on course unless it is dropped while it owes. -/
theorem onCourse_local (hevents : around.events = true)
    (hlocal : Local around index task report action task' report')
    (hcourse : OnCourse around index task report)
    (hkept : action = .disconnect index → ¬ report.Owing) :
    OnCourse around index task' report' := by
  cases hlocal with
  | quiet action task' hbefore hafter hrunning hclosing hrequest =>
      cases hcourse with
      | waiting hstage hidle hreport => exact .waiting hafter (hrunning.trans hidle) hreport
      | executing hstage => exact absurd hstage hbefore
      | returned result hstage => exact absurd hstage hbefore
      | reporting result hstage hidle hengine howed =>
          exact .reporting result (hclosing hstage) (hrunning.trans hidle) hengine
            (howed.trans (owed_congr hrequest result).symm)
  | spawned hstage =>
      cases hcourse with
      | waiting _ _ hreport =>
          subst hreport
          exact .executing rfl rfl rfl
      | executing hexecuting => simp [hstage] at hexecuting
      | returned result hexecuting => simp [hstage] at hexecuting
      | reporting result hclosing => simp [hstage] at hclosing
  | finished result hrunning =>
      cases hcourse with
      | waiting _ hidle => simp [hrunning] at hidle
      | executing hstage _ hreport =>
          subst hreport
          exact .returned result hstage rfl rfl
      | returned _ _ hidle => simp [hrunning] at hidle
      | reporting _ _ hidle => simp [hrunning] at hidle
  | resumed result hstage hrunning hengine =>
      cases hcourse with
      | waiting hbefore => exact absurd hstage hbefore
      | executing _ hbusy => simp [hrunning] at hbusy
      | returned other _ _ hreport =>
          subst hreport
          exact .reporting result rfl hrunning hengine rfl
      | reporting _ hclosing => simp [hstage] at hclosing
  | handed event rest capacity hpending =>
      cases hcourse with
      | waiting _ _ hreport => simp [hreport, Report.fresh] at hpending
      | executing _ _ hreport => simp [hreport] at hpending
      | returned _ _ _ hreport => simp [hreport] at hpending
      | reporting result hstage hrunning hengine howed =>
          refine .reporting result hstage hrunning hengine ?_
          rw [← howed, hpending]
          simp
  | dropped hpending hstage =>
      cases hcourse with
      | waiting _ hidle hreport => exact .waiting (by simp) hidle hreport
      | executing _ _ hreport => exact absurd (by simp [hreport, Report.Owing, Report.Executed]) (hkept rfl)
      | returned _ _ _ hreport => exact absurd (by simp [hreport, Report.Owing, Report.Executed]) (hkept rfl)
      | reporting _ hclosing => exact absurd hclosing hstage
  | abandoned event rest hpending =>
      cases hcourse with
      | waiting _ _ hreport => simp [hreport, Report.fresh] at hpending
      | executing _ _ hreport => simp [hreport] at hpending
      | returned _ _ _ hreport => simp [hreport] at hpending
      | reporting result hstage hrunning hengine howed =>
          have hlength := congrArg List.length howed
          rw [owed_length hevents, hpending] at hlength
          simp only [List.length_append, List.length_cons] at hlength
          exact absurd ⟨by simp [hengine, Report.Executed], by omega⟩ (hkept rfl)

/-- A future that is dropped while it owes is lost. -/
theorem lost_of_disconnect (hevents : around.events = true)
    (hlocal : Local around index task report (.disconnect index) task' report')
    (hcourse : OnCourse around index task report) (howing : report.Owing) :
    Lost around index task' report' := by
  cases hlocal with
  | dropped hpending hstage =>
      cases hcourse with
      | waiting _ _ hreport => simp [hreport, Report.fresh, Report.Owing, Report.Executed] at howing
      | executing _ hrunning hreport => exact .orphaned rfl hrunning hreport
      | returned result _ hrunning hreport =>
          have hlength : (owed around index task result).length = 2 :=
            owed_length hevents result
          refine .abandoned result (owed around index task result) ?_ rfl hrunning
            (by rw [hreport]) hpending (by rw [hreport]; rfl)
          intro hnil
          simp [hnil] at hlength
      | reporting _ hclosing => exact absurd hclosing hstage
  | abandoned event rest hpending =>
      cases hcourse with
      | waiting _ _ hreport => simp [hreport, Report.fresh] at hpending
      | executing _ _ hreport => simp [hreport] at hpending
      | returned _ _ _ hreport => simp [hreport] at hpending
      | reporting result hstage hrunning hengine howed =>
          refine .abandoned result (event :: rest) (by simp) hstage hrunning hengine rfl ?_
          rw [← howed, hpending]

/-- What is lost stays lost: its events are never handed over. -/
theorem lost_local (hevents : around.events = true)
    (hlocal : Local around index task report action task' report')
    (hlost : Lost around index task report) : Lost around index task' report' := by
  cases hlocal with
  | quiet action task' hbefore hafter hrunning hclosing hrequest =>
      cases hlost with
      | orphaned hstage hbusy hreport =>
          exact .orphaned (hclosing hstage) (hrunning.trans hbusy) hreport
      | abandoned result missing hmissing hstage hidle hengine hpending howed =>
          exact .abandoned result missing hmissing (hclosing hstage) (hrunning.trans hidle)
            hengine hpending (howed.trans (owed_congr hrequest result).symm)
  | spawned hstage =>
      cases hlost with
      | orphaned hclosing => simp [hstage] at hclosing
      | abandoned _ _ _ hclosing => simp [hstage] at hclosing
  | finished result hrunning =>
      cases hlost with
      | orphaned hstage _ hreport =>
          have hlength : (owed around index task result).length = 2 :=
            owed_length hevents result
          refine .abandoned result (owed around index task result) ?_ hstage rfl rfl
            (by rw [hreport]) (by rw [hreport]; rfl)
          intro hnil
          simp [hnil] at hlength
      | abandoned _ _ _ _ hidle => simp [hrunning] at hidle
  | resumed result hstage =>
      cases hlost with
      | orphaned hclosing => simp [hstage] at hclosing
      | abandoned _ _ _ hclosing => simp [hstage] at hclosing
  | handed event rest capacity hpending =>
      cases hlost with
      | orphaned _ _ hreport => simp [hreport] at hpending
      | abandoned _ _ _ _ _ _ hnone => simp [hnone] at hpending
  | dropped _ hstage =>
      cases hlost with
      | orphaned hclosing => exact absurd hclosing hstage
      | abandoned _ _ _ hclosing => exact absurd hclosing hstage
  | abandoned event rest hpending =>
      cases hlost with
      | orphaned _ _ hreport => simp [hreport] at hpending
      | abandoned _ _ _ _ _ _ hnone => simp [hnone] at hpending

end Course

/-! ### Runs -/

section Runs

variable (around : Surroundings Meta Metrics Egress) (cfg : Executions.Config Key)
  {s next : State Meta (ExecResult Metrics Egress Effect LogEntry)}

theorem release_stage {pools pools' : Executions.Pools} {task task' : Executions.Task}
    {resource : Executions.Resource} (h : task.release pools resource = some (task', pools')) :
    task'.stage = task.stage ∧ task'.running = task.running := by
  cases resource with
  | guard =>
      simp only [Executions.Task.release] at h
      split at h
      · cases h
        exact ⟨rfl, rfl⟩
      · cases h
  | slot =>
      simp only [Executions.Task.release] at h
      split at h
      · cases h
        exact ⟨rfl, rfl⟩
      · cases h
  | bucket =>
      simp only [Executions.Task.release] at h
      split at h
      · cases h
        exact ⟨rfl, rfl⟩
      · cases h
  | global =>
      simp only [Executions.Task.release] at h
      split at h
      · cases h
        exact ⟨rfl, rfl⟩
      · cases h

/-- A move that neither starts nor ends an execution stays away from it. -/
theorem advance_quiet {pools pools' : Executions.Pools} {task task' : Executions.Task}
    {move : Executions.Move} (hspawn : move ≠ .spawn) (hfinish : move ≠ .finish)
    (hresume : move ≠ .resume)
    (h : Executions.advance cfg pools task move = some (task', pools')) :
    task.stage ≠ .executing ∧ task'.stage ≠ .executing ∧ task'.running = task.running ∧
      (task.stage = .closing → task'.stage = .closing) := by
  cases move with
  | spawn => exact absurd rfl hspawn
  | finish => exact absurd rfl hfinish
  | resume => exact absurd rfl hresume
  | quota =>
      simp only [Executions.advance] at h
      split at h
      · rename_i hstage
        split at h <;> cases h <;> simp [hstage]
      · cases h
  | fail =>
      simp only [Executions.advance] at h
      split at h
      · rename_i hstage
        cases h
        simp [hstage]
      · cases h
  | slot =>
      simp only [Executions.advance] at h
      split at h
      · rename_i hstage
        split at h
        · cases h
          simp [hstage]
        · cases h
      · cases h
  | permit =>
      simp only [Executions.advance, Executions.Task.awaitGlobal] at h
      split at h
      · rename_i hstage
        split at h <;> cases h <;> simp [hstage]
      · rename_i hstage
        split at h
        · cases h
          simp [hstage]
        · cases h
      · rename_i hstage
        split at h
        · cases h
          simp [hstage]
        · cases h
      · cases h
  | drop resource =>
      simp only [Executions.advance] at h
      split at h
      · rename_i hstage
        obtain ⟨hkept, hrunning⟩ := release_stage h
        simp [hkept, hrunning, hstage]
      · cases h

theorem set_same {α : Type} {values : List α} {index : Nat} {value : α}
    (h : values[index]? = some value) : values.set index value = values := by
  obtain ⟨hlt, rfl⟩ := List.getElem?_eq_some_iff.mp h
  exact List.set_getElem_self hlt

theorem box_move {box box' : Executions.State} {index : Nat} {move : Executions.Move}
    (h : Executions.step cfg box (.move index move) = some box') :
    ∃ task task', box.tasks[index]? = some task ∧
      Executions.advance cfg box.pools task move = some (task', box'.pools) ∧
      box'.tasks = box.tasks.set index task' := by
  simp only [Executions.step] at h
  split at h
  · cases h
  · rename_i task htask
    obtain ⟨⟨task', pools'⟩, hadvance, rfl⟩ := Option.map_eq_some_iff.mp h
    exact ⟨task, task', htask, hadvance, rfl⟩

theorem box_disconnect {box box' : Executions.State} {index : Nat}
    (h : Executions.step cfg box (.disconnect index) = some box') :
    ∃ task, box.tasks[index]? = some task ∧ task.stage ≠ .closing ∧
      box'.tasks = box.tasks.set index { task with stage := .closing } := by
  simp only [Executions.step] at h
  split at h
  · cases h
  · rename_i task htask
    split at h
    · rename_i hopen
      cases h
      exact ⟨task, htask, hopen.1, rfl⟩
    · cases h

theorem advance_spawn {pools pools' : Executions.Pools} {task task' : Executions.Task}
    (h : Executions.advance cfg pools task .spawn = some (task', pools')) :
    task.stage = .permitted ∧ task' = { task with stage := .executing, running := true } := by
  simp only [Executions.advance] at h
  split at h
  · rename_i hstage
    cases h
    exact ⟨hstage, rfl⟩
  · cases h

theorem advance_finish {pools pools' : Executions.Pools} {task task' : Executions.Task}
    (h : Executions.advance cfg pools task .finish = some (task', pools')) :
    task.running = true ∧ task' = { task with running := false } := by
  simp only [Executions.advance] at h
  split at h
  · rename_i hrunning
    cases h
    exact ⟨hrunning, rfl⟩
  · cases h

theorem advance_resume {pools pools' : Executions.Pools} {task task' : Executions.Task}
    (h : Executions.advance cfg pools task .resume = some (task', pools')) :
    task.stage = .executing ∧ task.running = false ∧
      task' = { task with stage := .closing } := by
  simp only [Executions.advance] at h
  split at h
  · rename_i hstage hrunning
    cases h
    exact ⟨hstage, hrunning, rfl⟩
  · cases h

/-- A future at an index, and nothing reported where there is none. -/
def Numbered (s : State Meta (ExecResult Metrics Egress Effect LogEntry)) : Prop :=
  ∀ i, s.box.tasks[i]? = none → s.reports i = .fresh

/-- A step starts futures or is about one of them. -/
theorem step_cases {action : Action (ExecResult Metrics Egress Effect LogEntry)}
    (hnumbered : Numbered s) (h : step around cfg s action = some next) :
    (∃ arriving, (∀ task ∈ arriving, ∃ path request, task = Executions.Task.new path request) ∧
      (∃ other, action = .box other) ∧
      next.box.tasks = s.box.tasks ++ arriving ∧ next.reports = s.reports) ∨
    ∃ index task task' report', s.box.tasks[index]? = some task ∧
      next.box.tasks = s.box.tasks.set index task' ∧
      next.reports = Function.update s.reports index report' ∧
      Local around index task (s.reports index) action task' report' := by
  cases action with
  | box action =>
      simp only [step] at h
      split at h
      · rename_i hadmissible
        obtain ⟨box, hbox, rfl⟩ := Option.map_eq_some_iff.mp h
        rcases Executions.step_cases cfg s.box box action hbox with
          ⟨arriving, harriving, htasks, -⟩ |
          ⟨index, move, task, task', rfl, htask, hadvance, htasks⟩ |
          ⟨index, task, rfl, -⟩
        · exact .inl ⟨arriving, fun task htask => harriving.new task htask, ⟨action, rfl⟩,
            htasks, rfl⟩
        · have hother : move ≠ .spawn ∧ move ≠ .finish ∧ move ≠ .resume := by
            refine ⟨?_, ?_, ?_⟩ <;>
              · rintro rfl
                simp [State.admissible] at hadmissible
          obtain ⟨hbefore, hafter, hrunning, hclosing⟩ :=
            advance_quiet cfg hother.1 hother.2.1 hother.2.2 hadvance
          have hrequest := Executions.advanced_request cfg s.box.pools box.pools task task'
            (Executions.advanced_of_advance cfg _ _ _ _ move hadvance)
          exact .inr ⟨index, task, task', s.reports index, htask, htasks, by simp,
            .quiet _ task' hbefore hafter hrunning hclosing hrequest⟩
        · simp [State.admissible] at hadmissible
      · cases h
  | spawn index =>
      simp only [step] at h
      obtain ⟨box, hbox, rfl⟩ := Option.map_eq_some_iff.mp h
      obtain ⟨task, task', htask, hadvance, htasks⟩ := box_move cfg hbox
      obtain ⟨hstage, rfl⟩ := advance_spawn cfg hadvance
      exact .inr ⟨index, task, _, _, htask, htasks, rfl, .spawned hstage⟩
  | finish index result =>
      simp only [step] at h
      obtain ⟨box, hbox, rfl⟩ := Option.map_eq_some_iff.mp h
      obtain ⟨task, task', htask, hadvance, htasks⟩ := box_move cfg hbox
      obtain ⟨hrunning, rfl⟩ := advance_finish cfg hadvance
      exact .inr ⟨index, task, _, _, htask, htasks, rfl, .finished result hrunning⟩
  | resume index =>
      simp only [step] at h
      split at h
      · rename_i found result hfound hengine
        obtain ⟨box, hbox, rfl⟩ := Option.map_eq_some_iff.mp h
        obtain ⟨task, task', htask, hadvance, htasks⟩ := box_move cfg hbox
        cases htask.symm.trans hfound
        obtain ⟨hstage, hrunning, rfl⟩ := advance_resume cfg hadvance
        exact .inr ⟨index, found, _, _, hfound, htasks, rfl,
          .resumed result hstage hrunning hengine⟩
      · cases h
  | hand index capacity =>
      simp only [step] at h
      split at h
      · cases h
      · rename_i event rest hpending
        cases h
        cases htask : s.box.tasks[index]? with
        | none => simp [hnumbered index htask, Report.fresh] at hpending
        | some task =>
            exact .inr ⟨index, task, task, _, htask, (set_same htask).symm, rfl,
              .handed event rest capacity hpending⟩
  | disconnect index =>
      simp only [step] at h
      split at h
      · rename_i hpending
        obtain ⟨box, hbox, rfl⟩ := Option.map_eq_some_iff.mp h
        obtain ⟨task, htask, hstage, htasks⟩ := box_disconnect cfg hbox
        exact .inr ⟨index, task, _, s.reports index, htask, htasks, by simp,
          .dropped hpending hstage⟩
      · rename_i event rest task hpending htask
        split at h
        · cases h
          exact .inr ⟨index, task, task, _, htask, (set_same htask).symm, rfl,
            .abandoned event rest hpending⟩
        · cases h
      · cases h

/-- The future at an index is on course, or there is none yet. -/
def CourseAt (s : State Meta (ExecResult Metrics Egress Effect LogEntry)) (i : Nat) : Prop :=
  (s.box.tasks[i]? = none ∧ s.reports i = .fresh) ∨
    ∃ task, s.box.tasks[i]? = some task ∧ OnCourse around i task (s.reports i)

def LostAt (s : State Meta (ExecResult Metrics Egress Effect LogEntry)) (i : Nat) : Prop :=
  ∃ task, s.box.tasks[i]? = some task ∧ Lost around i task (s.reports i)

theorem numbered_of_linked (hlinked : ∀ i, CourseAt around s i ∨ LostAt around s i) :
    Numbered s := by
  intro i hnone
  rcases hlinked i with (⟨-, hfresh⟩ | ⟨task, htask, -⟩) | ⟨task, htask, -⟩
  · exact hfresh
  · simp [hnone] at htask
  · simp [hnone] at htask

/-- What a step leaves at an index: the same, a new future, or the effect of
the step. -/
theorem step_at {action : Action (ExecResult Metrics Egress Effect LogEntry)}
    (hnumbered : Numbered s) (h : step around cfg s action = some next) (i : Nat) :
    (next.box.tasks[i]? = s.box.tasks[i]? ∧ next.reports i = s.reports i) ∨
    (∃ path request, s.box.tasks[i]? = none ∧
      next.box.tasks[i]? = some (Executions.Task.new path request) ∧
      next.reports i = s.reports i) ∨
    ∃ task task', s.box.tasks[i]? = some task ∧ next.box.tasks[i]? = some task' ∧
      Local around i task (s.reports i) action task' (next.reports i) := by
  rcases step_cases around cfg hnumbered h with
    ⟨arriving, hnew, -, htasks, hreports⟩ |
    ⟨index, task, task', report', htask, htasks, hreports, hlocal⟩
  · rw [htasks, hreports]
    by_cases hi : i < s.box.tasks.length
    · exact .inl ⟨List.getElem?_append_left hi, rfl⟩
    · have hnone : s.box.tasks[i]? = none := List.getElem?_eq_none (by omega)
      rw [List.getElem?_append_right (by omega), hnone]
      cases harrived : arriving[i - s.box.tasks.length]? with
      | none => exact .inl ⟨rfl, rfl⟩
      | some task =>
          obtain ⟨path, request, rfl⟩ := hnew task (List.mem_of_getElem? harrived)
          exact .inr (.inl ⟨path, request, rfl, rfl, rfl⟩)
  · by_cases hindex : index = i
    · subst hindex
      have hlt := (List.getElem?_eq_some_iff.mp htask).1
      refine .inr (.inr ⟨task, task', htask, ?_, ?_⟩)
      · rw [htasks, List.getElem?_set_self hlt]
      · rw [hreports, Function.update_self]
        exact hlocal
    · refine .inl ⟨?_, ?_⟩
      · rw [htasks, List.getElem?_set_ne hindex]
      · rw [hreports, Function.update_of_ne (Ne.symm hindex)]

theorem courseAt_step (hevents : around.events = true)
    {action : Action (ExecResult Metrics Egress Effect LogEntry)} (hnumbered : Numbered s)
    (h : step around cfg s action = some next) (i : Nat) (hcourse : CourseAt around s i)
    (hkept : action = .disconnect i → ¬ (s.reports i).Owing) : CourseAt around next i := by
  rcases step_at around cfg hnumbered h i with
    ⟨htasks, hreports⟩ | ⟨path, request, hnone, hnew, hreports⟩ |
    ⟨task, task', htask, htask', hlocal⟩
  · unfold CourseAt
    rw [htasks, hreports]
    exact hcourse
  · refine .inr ⟨_, hnew, .waiting (by simp [Executions.Task.new]) rfl ?_⟩
    rw [hreports]
    exact hnumbered i hnone
  · rcases hcourse with ⟨hnone, -⟩ | ⟨found, hfound, honcourse⟩
    · simp [htask] at hnone
    · cases htask.symm.trans hfound
      exact .inr ⟨task', htask', onCourse_local hevents hlocal honcourse hkept⟩

theorem lostAt_step (hevents : around.events = true)
    {action : Action (ExecResult Metrics Egress Effect LogEntry)} (hnumbered : Numbered s)
    (h : step around cfg s action = some next) (i : Nat) (hlost : LostAt around s i) :
    LostAt around next i := by
  obtain ⟨found, hfound, hlost⟩ := hlost
  rcases step_at around cfg hnumbered h i with
    ⟨htasks, hreports⟩ | ⟨path, request, hnone, -⟩ | ⟨task, task', htask, htask', hlocal⟩
  · refine ⟨found, htasks.trans hfound, ?_⟩
    rw [hreports]
    exact hlost
  · simp [hfound] at hnone
  · cases htask.symm.trans hfound
    exact ⟨task', htask', lost_local hevents hlocal hlost⟩

/-- A disconnect while events are owed loses them. -/
theorem lostAt_of_disconnect (hevents : around.events = true) (hnumbered : Numbered s)
    (i : Nat) (h : step around cfg s (.disconnect i) = some next)
    (hcourse : CourseAt around s i) (howing : (s.reports i).Owing) :
    LostAt around next i := by
  rcases hcourse with ⟨-, hfresh⟩ | ⟨found, hfound, honcourse⟩
  · simp [hfresh, Report.fresh, Report.Owing, Report.Executed] at howing
  · rcases step_cases around cfg hnumbered h with
      ⟨-, -, ⟨other, hother⟩, -⟩ |
      ⟨index, task, task', report', htask, htasks, hreports, hlocal⟩
    · cases hother
    · have hindex : index = i := by cases hlocal <;> rfl
      subst hindex
      cases htask.symm.trans hfound
      have hlt := (List.getElem?_eq_some_iff.mp htask).1
      refine ⟨task', by rw [htasks, List.getElem?_set_self hlt], ?_⟩
      rw [hreports, Function.update_self]
      exact lost_of_disconnect hevents hlocal honcourse howing

/-- No future is dropped between the start of its execution and its second
event. -/
def Undisturbed (s : State Meta (ExecResult Metrics Egress Effect LogEntry)) :
    Action (ExecResult Metrics Egress Effect LogEntry) → Prop
  | .disconnect i => ¬ (s.reports i).Owing
  | _ => True

theorem undisturbed_disconnect {action : Action (ExecResult Metrics Egress Effect LogEntry)}
    (h : Undisturbed s action) (i : Nat) (haction : action = .disconnect i) :
    ¬ (s.reports i).Owing := by
  subst haction
  exact h

theorem linked_step (hevents : around.events = true)
    {action : Action (ExecResult Metrics Egress Effect LogEntry)}
    (hlinked : ∀ i, CourseAt around s i ∨ LostAt around s i)
    (h : step around cfg s action = some next) :
    ∀ i, CourseAt around next i ∨ LostAt around next i := by
  have hnumbered := numbered_of_linked around hlinked
  intro i
  rcases hlinked i with hcourse | hlost
  · by_cases hdisturbed : action = .disconnect i ∧ (s.reports i).Owing
    · obtain ⟨rfl, howing⟩ := hdisturbed
      exact .inr (lostAt_of_disconnect around cfg hevents hnumbered i h hcourse howing)
    · exact .inl (courseAt_step around cfg hevents hnumbered h i hcourse
        fun haction howing => hdisturbed ⟨haction, howing⟩)
  · exact .inr (lostAt_step around cfg hevents hnumbered h i hlost)

theorem initial_course (i : Nat) :
    CourseAt around (State.initial cfg :
      State Meta (ExecResult Metrics Egress Effect LogEntry)) i :=
  .inl ⟨rfl, rfl⟩

/-- In a run without disturbance every future stays on course. -/
theorem course_run (hevents : around.events = true)
    {actions : List (Action (ExecResult Metrics Egress Effect LogEntry))}
    {final : State Meta (ExecResult Metrics Egress Effect LogEntry)}
    (hguard : Guarded (step around cfg) Undisturbed (State.initial cfg) actions)
    (hrun : run (step around cfg) (State.initial cfg) actions = some final) :
    ∀ i, CourseAt around final i := by
  refine run_invariant (step around cfg) Undisturbed (fun s => ∀ i, CourseAt around s i) ?_
    _ final actions (initial_course around cfg) hguard hrun
  intro s action next hcourse hundisturbed hstep i
  have hnumbered := numbered_of_linked around fun i => .inl (hcourse i)
  exact courseAt_step around cfg hevents hnumbered hstep i (hcourse i)
    (undisturbed_disconnect hundisturbed i)

theorem linked_run (hevents : around.events = true)
    {actions : List (Action (ExecResult Metrics Egress Effect LogEntry))}
    {final : State Meta (ExecResult Metrics Egress Effect LogEntry)}
    (hrun : run (step around cfg) (State.initial cfg) actions = some final) :
    ∀ i, CourseAt around final i ∨ LostAt around final i := by
  refine run_invariant_of_step (step around cfg)
    (fun s => ∀ i, CourseAt around s i ∨ LostAt around s i) ?_ _ final actions
    (fun i => .inl (initial_course around cfg i)) hrun
  intro s action next hlinked hstep
  exact linked_step around cfg hevents hlinked hstep

/-- A disturbed run ends with a future that is lost. -/
theorem lost_of_disturbed (hevents : around.events = true)
    (actions : List (Action (ExecResult Metrics Egress Effect LogEntry)))
    (s final : State Meta (ExecResult Metrics Egress Effect LogEntry))
    (hlinked : ∀ i, CourseAt around s i ∨ LostAt around s i)
    (hguard : ¬ Guarded (step around cfg) Undisturbed s actions)
    (hrun : run (step around cfg) s actions = some final) : ∃ i, LostAt around final i := by
  induction actions generalizing s with
  | nil => exact absurd trivial hguard
  | cons action rest ih =>
      obtain ⟨next, hstep, hrest⟩ := (run_cons_eq_some _ s final action rest).mp hrun
      have hnext := linked_step around cfg hevents hlinked hstep
      by_cases hundisturbed : Undisturbed s action
      · apply ih next hnext ?_ hrest
        intro hguarded
        refine hguard ⟨hundisturbed, ?_⟩
        intro other hother
        cases hstep.symm.trans hother
        exact hguarded
      · have hnumbered := numbered_of_linked around hlinked
        obtain ⟨i, hlost⟩ : ∃ i, LostAt around next i := by
          cases action with
          | disconnect i =>
              have howing : (s.reports i).Owing := not_not.mp hundisturbed
              rcases hlinked i with hcourse | hlost
              · exact ⟨i, lostAt_of_disconnect around cfg hevents hnumbered i hstep hcourse
                  howing⟩
              · exact ⟨i, lostAt_step around cfg hevents hnumbered hstep i hlost⟩
          | box other => exact absurd trivial hundisturbed
          | spawn i => exact absurd trivial hundisturbed
          | finish i result => exact absurd trivial hundisturbed
          | resume i => exact absurd trivial hundisturbed
          | hand i capacity => exact absurd trivial hundisturbed
        refine ⟨i, (run_invariant_of_step (step around cfg)
          (fun s => (∀ j, CourseAt around s j ∨ LostAt around s j) ∧ LostAt around s i) ?_
          next final rest ⟨hnext, hlost⟩ hrest).2⟩
        rintro s action next ⟨hlinked, hlost⟩ hstep
        exact ⟨linked_step around cfg hevents hlinked hstep,
          lostAt_step around cfg hevents (numbered_of_linked around hlinked) hstep i hlost⟩

end Runs

/-! ### Exactly one of each -/

section Metered

variable {around : Surroundings Meta Metrics Egress} {index : Nat} {task : Executions.Task}
  {report : Report Meta (ExecResult Metrics Egress Effect LogEntry)}

/-- One usage event and one allowed audit event were handed to the sink. -/
structure Report.Metered {Result : Type} (report : Report Meta Result) : Prop where
  usage : report.handed.countP Event.isUsage = 1
  audit : report.handed.countP Event.isAllowed = 1

theorem owed_counts (hevents : around.events = true)
    (result : ExecResult Metrics Egress Effect LogEntry) :
    (owed around index task result).countP Event.isUsage = 1 ∧
      (owed around index task result).countP Event.isAllowed = 1 := by
  simp [owed, emitExecuted, hevents, List.countP_cons, Event.isUsage, Event.isAllowed]

/-- Events come in the order usage, audit: without the second there is no
audit event. -/
theorem not_metered_of_missing (hevents : around.events = true)
    (result : ExecResult Metrics Egress Effect LogEntry) (missing : List (Event Meta))
    (hmissing : missing ≠ [])
    (howed : report.handed ++ missing = owed around index task result) :
    ¬ report.Metered := by
  intro hmetered
  have haudit := hmetered.audit
  have hlength := congrArg List.length howed
  rw [owed_length hevents, List.length_append] at hlength
  have hpositive := List.length_pos_iff.mpr hmissing
  cases hhanded : report.handed with
  | nil => simp [hhanded] at haudit
  | cons first rest =>
      rw [hhanded] at hlength howed haudit
      simp only [List.length_cons] at hlength
      have hrest : rest = [] := List.length_eq_zero_iff.mp (by omega)
      subst hrest
      simp only [owed, emitExecuted, hevents, if_true, List.cons_append, List.nil_append,
        List.cons.injEq] at howed
      rw [howed.1] at haudit
      simp [Event.isAllowed] at haudit

theorem not_metered_of_lost (hevents : around.events = true)
    (hlost : Lost around index task report) : report.Executed ∧ ¬ report.Metered := by
  cases hlost with
  | orphaned hstage hrunning hreport =>
      subst hreport
      refine ⟨trivial, ?_⟩
      intro hmetered
      cases hmetered.usage
  | abandoned result missing hmissing hstage hrunning hengine hpending howed =>
      exact ⟨by simp [Report.Executed, hengine],
        not_metered_of_missing hevents result missing hmissing howed⟩

end Metered

section Progress

variable (around : Surroundings Meta Metrics Egress) (cfg : Executions.Config Key)
  {s next : State Meta (ExecResult Metrics Egress Effect LogEntry)}

/-- The steps of the engine and of its future that report an execution. -/
def Action.Reports {Result : Type} (i : Nat) : Action Result → Prop
  | .finish index _ => index = i
  | .resume index => index = i
  | .hand index _ => index = i
  | _ => False

/-- How many of these steps are left. -/
def Report.remaining {Result : Type} (report : Report Meta Result) : Nat :=
  match report.engine with
  | .idle => 0
  | .running => 4
  | .returned _ =>
      if report.pending.isEmpty && report.handed.isEmpty then 3 else report.pending.length

theorem finish_enabled (i : Nat) (task : Executions.Task)
    (result : ExecResult Metrics Egress Effect LogEntry) (htask : s.box.tasks[i]? = some task)
    (hrunning : task.running = true) :
    ∃ next, step around cfg s (.finish i result) = some next ∧
      next.reports i = { s.reports i with engine := .returned result } := by
  obtain ⟨box, hbox⟩ : ∃ box, Executions.step cfg s.box (.move i .finish) = some box := by
    simp [Executions.step, htask, Executions.advance, hrunning]
  refine ⟨{ s with box := box }.setReport i
    { s.reports i with engine := .returned result }, ?_, ?_⟩
  · simp only [step, hbox, Option.map_some]
  · simp [State.setReport]

theorem resume_enabled (i : Nat) (task : Executions.Task)
    (result : ExecResult Metrics Egress Effect LogEntry) (htask : s.box.tasks[i]? = some task)
    (hstage : task.stage = .executing) (hrunning : task.running = false)
    (hengine : (s.reports i).engine = .returned result) :
    ∃ next, step around cfg s (.resume i) = some next ∧
      next.reports i = { s.reports i with pending := owed around i task result } := by
  obtain ⟨box, hbox⟩ : ∃ box, Executions.step cfg s.box (.move i .resume) = some box := by
    simp [Executions.step, htask, Executions.advance, hstage, hrunning]
  refine ⟨{ s with box := box }.setReport i
    { s.reports i with pending := owed around i task result }, ?_, ?_⟩
  · simp only [step, htask, hengine, hbox, Option.map_some]
  · simp [State.setReport]

theorem hand_enabled (i : Nat) (capacity : Bool) (event : Event Meta)
    (rest : List (Event Meta)) (hpending : (s.reports i).pending = event :: rest) :
    ∃ next, step around cfg s (.hand i capacity) = some next ∧
      next.reports i =
        { s.reports i with pending := rest, handed := (s.reports i).handed ++ [event] } := by
  refine ⟨{ s with sink := s.sink.record event capacity }.setReport i
    { s.reports i with pending := rest, handed := (s.reports i).handed ++ [event] }, ?_, ?_⟩
  · simp only [step, hpending]
  · simp [State.setReport]

/-- While a future on course owes events, one of these steps can be taken and
leaves fewer. -/
theorem owing_step (hevents : around.events = true) (i : Nat)
    (hcourse : CourseAt around s i) (howing : (s.reports i).Owing) :
    ∃ action next, Action.Reports i action ∧ step around cfg s action = some next ∧
      (next.reports i).Executed ∧
      (next.reports i).remaining < (s.reports i).remaining := by
  rcases hcourse with ⟨-, hfresh⟩ | ⟨task, htask, honcourse⟩
  · simp [hfresh, Report.fresh, Report.Owing, Report.Executed] at howing
  · cases honcourse with
    | waiting _ _ hreport =>
        simp [hreport, Report.fresh, Report.Owing, Report.Executed] at howing
    | executing hstage hrunning hreport =>
        obtain ⟨next, hstep, hnext⟩ :=
          finish_enabled around cfg i task (.error "") htask hrunning
        refine ⟨.finish i (.error ""), next, rfl, hstep, ?_, ?_⟩
        · simp [hnext, Report.Executed]
        · simp [hnext, hreport, Report.remaining]
    | returned result hstage hrunning hreport =>
        obtain ⟨next, hstep, hnext⟩ :=
          resume_enabled around cfg i task result htask hstage hrunning (by rw [hreport])
        have hlength : (owed around i task result).length = 2 := owed_length hevents result
        have hsome : (owed around i task result).isEmpty = false := by
          cases howed : owed around i task result with
          | nil => simp [howed] at hlength
          | cons event rest => rfl
        refine ⟨.resume i, next, rfl, hstep, ?_, ?_⟩
        · simp [hnext, hreport, Report.Executed]
        · simp [hnext, hreport, Report.remaining, hsome, hlength]
    | reporting result hstage hrunning hengine howed =>
        cases hpending : (s.reports i).pending with
        | nil =>
            have hlength := congrArg List.length howed
            rw [owed_length hevents, hpending, List.append_nil] at hlength
            have hshort := howing.2
            omega
        | cons event rest =>
            obtain ⟨next, hstep, hnext⟩ := hand_enabled around cfg i true event rest hpending
            refine ⟨.hand i true, next, rfl, hstep, ?_, ?_⟩
            · simp [hnext, hengine, Report.Executed]
            · simp [hnext, hengine, hpending, Report.remaining]

theorem remaining_le (hevents : around.events = true) (i : Nat)
    (hcourse : CourseAt around s i) : (s.reports i).remaining ≤ 4 := by
  rcases hcourse with ⟨-, hfresh⟩ | ⟨task, -, honcourse⟩
  · simp [hfresh, Report.fresh, Report.remaining]
  · cases honcourse with
    | waiting _ _ hreport => simp [hreport, Report.fresh, Report.remaining]
    | executing _ _ hreport => simp [hreport, Report.remaining]
    | returned _ _ _ hreport => simp [hreport, Report.remaining]
    | reporting result _ _ hengine howed =>
        have hlength := congrArg List.length howed
        rw [owed_length hevents, List.length_append] at hlength
        simp only [Report.remaining, hengine]
        split
        · omega
        · omega

/-- An execution on course that owes nothing is metered. -/
theorem metered_of_not_owing (hevents : around.events = true) (i : Nat)
    (hcourse : CourseAt around s i) (hexecuted : (s.reports i).Executed)
    (howing : ¬ (s.reports i).Owing) : (s.reports i).Metered := by
  have hlong : 2 ≤ (s.reports i).handed.length := by
    by_contra hshort
    exact howing ⟨hexecuted, by omega⟩
  rcases hcourse with ⟨-, hfresh⟩ | ⟨task, htask, honcourse⟩
  · simp [hfresh, Report.fresh] at hlong
  · cases honcourse with
    | waiting _ _ hreport => simp [hreport, Report.fresh] at hlong
    | executing _ _ hreport => simp [hreport] at hlong
    | returned _ _ _ hreport => simp [hreport] at hlong
    | reporting result hstage hrunning hengine howed =>
        have hlength := congrArg List.length howed
        rw [owed_length hevents, List.length_append] at hlength
        have hpending : (s.reports i).pending = [] := List.length_eq_zero_iff.mp (by omega)
        rw [hpending, List.append_nil] at howed
        obtain ⟨husage, haudit⟩ : (owed around i task result).countP Event.isUsage = 1 ∧
            (owed around i task result).countP Event.isAllowed = 1 :=
          owed_counts hevents result
        exact ⟨by rw [howed, husage], by rw [howed, haudit]⟩

/-- Left to itself, an execution on course is metered after the steps that
remain. -/
theorem metered_after (hevents : around.events = true) (i left : Nat)
    (s : State Meta (ExecResult Metrics Egress Effect LogEntry))
    (hcourse : ∀ j, CourseAt around s j) (hexecuted : (s.reports i).Executed)
    (hleft : (s.reports i).remaining ≤ left) :
    ∃ actions final, actions.length ≤ left ∧ (∀ action ∈ actions, Action.Reports i action) ∧
      run (step around cfg) s actions = some final ∧ (final.reports i).Metered := by
  induction left generalizing s with
  | zero =>
      refine ⟨[], s, Nat.le_refl 0, by simp, rfl, ?_⟩
      apply metered_of_not_owing around hevents i (hcourse i) hexecuted
      intro howing
      obtain ⟨_, _, _, _, _, hless⟩ := owing_step around cfg hevents i (hcourse i) howing
      omega
  | succ left ih =>
      by_cases howing : (s.reports i).Owing
      · obtain ⟨action, next, hreports, hstep, hnext, hless⟩ :=
          owing_step around cfg hevents i (hcourse i) howing
        have hnumbered := numbered_of_linked around fun j => .inl (hcourse j)
        have hkept : ∀ j, CourseAt around next j := by
          intro j
          apply courseAt_step around cfg hevents hnumbered hstep j (hcourse j)
          rintro rfl
          exact absurd hreports id
        obtain ⟨actions, final, hlength, hall, hrun, hmetered⟩ :=
          ih next hkept hnext (by omega)
        refine ⟨action :: actions, final, by simpa using hlength, ?_, ?_, hmetered⟩
        · intro other hother
          rcases List.mem_cons.mp hother with rfl | hrest
          · exact hreports
          · exact hall other hrest
        · exact (run_cons_eq_some _ s final action actions).mpr ⟨next, hstep, hrun⟩
      · exact ⟨[], s, Nat.zero_le _, by simp, rfl,
          metered_of_not_owing around hevents i (hcourse i) hexecuted howing⟩

end Progress

/-! ### Every run -/

section Main

variable (around : Surroundings Meta Metrics Egress) (cfg : Executions.Config Key)

/-- A metered step is a step of the box or leaves it alone. -/
theorem step_box {s next : State Meta (ExecResult Metrics Egress Effect LogEntry)}
    {action : Action (ExecResult Metrics Egress Effect LogEntry)}
    (h : step around cfg s action = some next) :
    next.box = s.box ∨ ∃ move, Executions.step cfg s.box move = some next.box := by
  cases action with
  | box action =>
      simp only [step] at h
      split at h
      · obtain ⟨box, hbox, rfl⟩ := Option.map_eq_some_iff.mp h
        exact .inr ⟨action, hbox⟩
      · cases h
  | spawn index =>
      obtain ⟨box, hbox, rfl⟩ := Option.map_eq_some_iff.mp h
      exact .inr ⟨_, hbox⟩
  | finish index result =>
      obtain ⟨box, hbox, rfl⟩ := Option.map_eq_some_iff.mp h
      exact .inr ⟨_, hbox⟩
  | resume index =>
      simp only [step] at h
      split at h
      · obtain ⟨box, hbox, rfl⟩ := Option.map_eq_some_iff.mp h
        exact .inr ⟨_, hbox⟩
      · cases h
  | hand index capacity =>
      simp only [step] at h
      split at h
      · cases h
      · cases h
        exact .inl rfl
  | disconnect index =>
      simp only [step] at h
      split at h
      · obtain ⟨box, hbox, rfl⟩ := Option.map_eq_some_iff.mp h
        exact .inr ⟨_, hbox⟩
      · split at h
        · cases h
          exact .inl rfl
        · cases h
      · cases h

/-- The box of a metered run is run by its own steps: what holds of every run
of `Executions` holds here. -/
theorem run_box (actions : List (Action (ExecResult Metrics Egress Effect LogEntry)))
    (s final : State Meta (ExecResult Metrics Egress Effect LogEntry))
    (hrun : run (step around cfg) s actions = some final) :
    ∃ moves, run (Executions.step cfg) s.box moves = some final.box := by
  induction actions generalizing s with
  | nil =>
      cases hrun
      exact ⟨[], rfl⟩
  | cons action rest ih =>
      obtain ⟨next, hstep, hrest⟩ := (run_cons_eq_some _ s final action rest).mp hrun
      obtain ⟨moves, hmoves⟩ := ih next hrest
      rcases step_box around cfg hstep with hsame | ⟨move, hmove⟩
      · exact ⟨moves, hsame ▸ hmoves⟩
      · exact ⟨move :: moves, (run_cons_eq_some _ s.box final.box move moves).mpr
          ⟨next.box, hmove, hmoves⟩⟩

/-- No engine runs and nothing is being reported. -/
def Quiet (s : State Meta (ExecResult Metrics Egress Effect LogEntry)) : Prop :=
  ∀ i action, Action.Reports i action → step around cfg s action = none

theorem quiet_of_idle (s : State Meta (ExecResult Metrics Egress Effect LogEntry))
    (htasks : ∀ task ∈ s.box.tasks, task.running = false ∧ task.stage ≠ .executing)
    (hreports : ∀ i, (s.reports i).pending = []) : Quiet around cfg s := by
  have hmove : ∀ i move, move = .finish ∨ move = .resume →
      Executions.step cfg s.box (.move i move) = none := by
    intro i move hmove
    cases hstep : Executions.step cfg s.box (.move i move) with
    | none => rfl
    | some box =>
        obtain ⟨task, task', htask, hadvance, -⟩ := box_move cfg hstep
        obtain ⟨hrunning, hstage⟩ := htasks task (List.mem_of_getElem? htask)
        rcases hmove with rfl | rfl
        · have hbusy := (advance_finish cfg hadvance).1
          simp [hrunning] at hbusy
        · exact absurd (advance_resume cfg hadvance).1 hstage
  intro i action haction
  cases action with
  | box other => exact absurd haction id
  | spawn index => exact absurd haction id
  | disconnect index => exact absurd haction id
  | finish index result => simp [step, hmove index .finish (.inl rfl)]
  | resume index =>
      simp only [step]
      split
      · simp [hmove index .resume (.inr rfl)]
      · rfl
  | hand index capacity => simp [step, hreports index]

theorem handed_at_most_once (hevents : around.events = true)
    (s : State Meta (ExecResult Metrics Egress Effect LogEntry)) (i : Nat)
    (hlinked : CourseAt around s i ∨ LostAt around s i) :
    (s.reports i).handed.countP Event.isUsage ≤ 1 ∧
      (s.reports i).handed.countP Event.isAllowed ≤ 1 := by
  have hfront : ∀ (task : Executions.Task)
      (result : ExecResult Metrics Egress Effect LogEntry) (more : List (Event Meta)),
      (s.reports i).handed ++ more = owed around i task result →
      (s.reports i).handed.countP Event.isUsage ≤ 1 ∧
        (s.reports i).handed.countP Event.isAllowed ≤ 1 := by
    intro task result more howed
    obtain ⟨husage, haudit⟩ : (owed around i task result).countP Event.isUsage = 1 ∧
        (owed around i task result).countP Event.isAllowed = 1 := owed_counts hevents result
    rw [← howed, List.countP_append] at husage haudit
    exact ⟨by omega, by omega⟩
  rcases hlinked with (⟨-, hfresh⟩ | ⟨task, -, honcourse⟩) | ⟨task, -, hlost⟩
  · simp [hfresh, Report.fresh]
  · cases honcourse with
    | waiting _ _ hreport => simp [hreport, Report.fresh]
    | executing _ _ hreport => simp [hreport]
    | returned _ _ _ hreport => simp [hreport]
    | reporting result _ _ _ howed => exact hfront task result _ howed
  · cases hlost with
    | orphaned _ _ hreport => simp [hreport]
    | abandoned result missing _ _ _ _ _ howed => exact hfront task result missing howed

/-- Every run of the box with events enabled, whatever its clients do. No
event is ever handed over twice. Where all has come to rest, every execution
has its usage event and its allowed audit event exactly when no future was
dropped between the start of its execution and its second event; and as long
as none was, every execution gets both within four steps of its own. -/
theorem executions_metered_iff (hevents : around.events = true)
    (actions : List (Action (ExecResult Metrics Egress Effect LogEntry)))
    (final : State Meta (ExecResult Metrics Egress Effect LogEntry))
    (hrun : run (step around cfg) (State.initial cfg) actions = some final) :
    (∀ i, (final.reports i).handed.countP Event.isUsage ≤ 1 ∧
      (final.reports i).handed.countP Event.isAllowed ≤ 1) ∧
    (Quiet around cfg final →
      ((∀ i, (final.reports i).Executed → (final.reports i).Metered) ↔
        Guarded (step around cfg) Undisturbed (State.initial cfg) actions)) ∧
    (Guarded (step around cfg) Undisturbed (State.initial cfg) actions →
      ∀ i, (final.reports i).Executed →
        ∃ more next, more.length ≤ 4 ∧ (∀ action ∈ more, Action.Reports i action) ∧
          run (step around cfg) final more = some next ∧ (next.reports i).Metered) := by
  have hlinked := linked_run around cfg hevents hrun
  refine ⟨fun i => handed_at_most_once around hevents final i (hlinked i), ?_, ?_⟩
  · intro hquiet
    constructor
    · intro hmetered
      by_contra hdisturbed
      obtain ⟨i, task, -, hlost⟩ := lost_of_disturbed around cfg hevents actions _ final
        (fun i => .inl (initial_course around cfg i)) hdisturbed hrun
      obtain ⟨hexecuted, hnot⟩ := not_metered_of_lost hevents hlost
      exact hnot (hmetered i hexecuted)
    · intro hguard i hexecuted
      have hcourse := course_run around cfg hevents hguard hrun i
      apply metered_of_not_owing around hevents i hcourse hexecuted
      intro howing
      obtain ⟨action, next, hreports, hstep, -⟩ :=
        owing_step around cfg hevents i hcourse howing
      rw [hquiet i action hreports] at hstep
      cases hstep
  · intro hguard i hexecuted
    have hcourse := course_run around cfg hevents hguard hrun
    exact metered_after around cfg hevents i 4 final hcourse hexecuted
      (remaining_le around hevents i (hcourse i))

end Main

/-! An open box, one `/execute` request, and the text its handler returns. -/

def sampleAround : Surroundings Unit Unit Unit where
  events := true
  reader := sampleReader
  respCfg := sampleCfg
  withMetrics := fun metadata _ _ => metadata
  traceId := fun _ => "trace"
  baseMeta := fun _ => ()

def openConfig : Executions.Config Unit := ⟨1, 1, 0, 0, none, String.length⟩

def sampleResult : ExecResult Unit Unit Unit Unit :=
  .ok (.ok ⟨.success "\x7b\"data\":1\x7d", [], [], ()⟩, ())

/-- From the arrival to the start of the execution. -/
def started : List (Action (ExecResult Unit Unit Unit Unit)) :=
  [.box (.arrive ⟨none, none⟩), .box (.move 0 .quota), .box (.move 0 .permit), .spawn 0]

theorem quiet_of_single (s : State Unit (ExecResult Unit Unit Unit Unit))
    (task : Executions.Task) (htasks : s.box.tasks = [task]) (hrunning : task.running = false)
    (hstage : task.stage = .closing) (hfirst : (s.reports 0).pending = [])
    (hothers : ∀ i, i ≠ 0 → s.reports i = .fresh) : Quiet sampleAround openConfig s := by
  apply quiet_of_idle
  · intro other hother
    rw [htasks] at hother
    cases List.mem_singleton.mp hother
    exact ⟨hrunning, by simp [hstage]⟩
  · intro i
    by_cases hi : i = 0
    · subst hi
      exact hfirst
    · rw [hothers i hi]
      rfl

/-- The client leaves while the engine runs: the execution completes, and no
event of it is ever handed over. -/
theorem disconnected_execution_is_not_metered :
    ∃ final, run (step sampleAround openConfig) (State.initial openConfig)
        (started ++ [.disconnect 0, .finish 0 sampleResult]) = some final ∧
      Quiet sampleAround openConfig final ∧ (final.reports 0).Executed ∧
      (final.reports 0).handed.length = 0 ∧ ¬ (final.reports 0).Metered := by
  refine ⟨_, rfl, quiet_of_single _ _ rfl rfl rfl rfl ?_, trivial, rfl, ?_⟩
  · intro i hi
    simp [State.setReport, Function.update_of_ne hi, State.initial]
  · intro hmetered
    cases hmetered.usage

/-- Undisturbed, the same execution hands over both. -/
theorem executions_metered_iff_undisturbed :
    ∃ final, run (step sampleAround openConfig) (State.initial openConfig)
        (started ++ [.finish 0 sampleResult, .resume 0, .hand 0 true, .hand 0 true]) =
          some final ∧ (final.reports 0).Metered := by
  have hrun : ∃ final, run (step sampleAround openConfig) (State.initial openConfig)
      (started ++ [.finish 0 sampleResult, .resume 0, .hand 0 true, .hand 0 true]) =
        some final ∧ Quiet sampleAround openConfig final ∧ (final.reports 0).Executed := by
    refine ⟨_, rfl, quiet_of_single _ _ rfl rfl rfl rfl ?_, trivial⟩
    intro i hi
    simp [State.setReport, Function.update_of_ne hi, State.initial]
  obtain ⟨final, hrun, hquiet, hexecuted⟩ := hrun
  have hiff := (executions_metered_iff sampleAround openConfig rfl _ final hrun).2.1 hquiet
  refine ⟨final, hrun, hiff.mpr ?_ 0 hexecuted⟩
  apply guarded_of_mem
  intro action haction s
  simp only [started, List.cons_append, List.nil_append, List.mem_cons, List.not_mem_nil,
    or_false] at haction
  rcases haction with rfl | rfl | rfl | rfl | rfl | rfl | rfl | rfl <;> trivial

end Runlet.Metering
