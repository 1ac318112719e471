import Runlet.Server.Batch

/-!
What an invocation decides. Each handler is reduced to its decision: the inputs
it executes, or the rejection it answers, as its gates give it in their order.
Which executions a trace can hold and how a pipeline ends are read off the
decision, so that later arguments do not go through the gates again.
-/

namespace Runlet.Batch

open Contexts Errors Execute Gates Identity JsonText Response Telemetry

variable {Key S3 Sys Result α : Type}

/-- The pipeline executes what the decision says, or is refused as it says. -/
structure Decides (engine : ExecuteBlocking S3 Sys → Result)
    (p : Pipeline (Event S3 Sys) Rejection Result)
    (decision : Except Rejection (ExecuteBlocking S3 Sys)) : Prop where
  started : ∀ params, .executionStarted params ∈ p.trace ↔ decision = .ok params
  result : p.result = decision.map engine

/-- The sequencing rule, for a part that does not run the engine. -/
theorem decides_bind (engine : ExecuteBlocking S3 Sys → Result)
    (p : Pipeline (Event S3 Sys) Rejection α)
    (next : α → Pipeline (Event S3 Sys) Rejection Result)
    (rest : α → Except Rejection (ExecuteBlocking S3 Sys))
    (hunstarted : ∀ params, .executionStarted params ∉ p.trace)
    (hnext : ∀ value, Decides engine (next value) (rest value)) :
    Decides engine (p >>= next) (p.result >>= rest) := by
  cases hresult : p.result with
  | error rejection =>
      rw [Pipeline.bind_error p next rejection hresult]
      refine ⟨fun params => ?_, rfl⟩
      exact iff_of_false (hunstarted params) (fun h => nomatch h)
  | ok value =>
      rw [Pipeline.bind_ok p next value hresult]
      refine ⟨fun params => ?_, (hnext value).result⟩
      rw [List.mem_append, or_iff_right (hunstarted params)]
      exact (hnext value).started params

theorem decides_gate_bind (engine : ExecuteBlocking S3 Sys → Result)
    (checked : Except Rejection α) (passed : α → Event S3 Sys)
    (next : α → Pipeline (Event S3 Sys) Rejection Result)
    (rest : α → Except Rejection (ExecuteBlocking S3 Sys))
    (hpassed : ∀ value, isStart (passed value) = false)
    (hnext : ∀ value, Decides engine (next value) (rest value)) :
    Decides engine (gate checked passed >>= next) (checked >>= rest) := by
  have hresult : (gate checked passed).result = checked := by
    cases checked with
    | error rejection => rfl
    | ok value => rfl
  have hdecides := decides_bind engine (gate checked passed) next rest ?_ hnext
  · rwa [hresult] at hdecides
  · intro params hmem
    cases checked with
    | error rejection => simp [gate] at hmem
    | ok value =>
        have hstart := hpassed value
        rw [← List.mem_singleton.mp hmem] at hstart
        cases hstart

theorem decides_require_bind (engine : ExecuteBlocking S3 Sys → Result)
    (checked : Except Rejection α) (next : α → Pipeline (Event S3 Sys) Rejection Result)
    (rest : α → Except Rejection (ExecuteBlocking S3 Sys))
    (hnext : ∀ value, Decides engine (next value) (rest value)) :
    Decides engine (require checked >>= next) (checked >>= rest) := by
  have hresult : (require checked : Pipeline (Event S3 Sys) Rejection α).result = checked := by
    cases checked with
    | error rejection => rfl
    | ok value => rfl
  have hdecides := decides_bind engine (require checked) next rest ?_ hnext
  · rwa [hresult] at hdecides
  · intro params hmem
    cases checked with
    | error rejection => simp [require] at hmem
    | ok value => cases hmem

theorem decides_onExit (engine : ExecuteBlocking S3 Sys → Result)
    (p : Pipeline (Event S3 Sys) Rejection Result)
    (decision : Except Rejection (ExecuteBlocking S3 Sys))
    (guards : List Quota.QuotaGuard) (h : Decides engine p decision) :
    Decides engine (p.onExit (guards.map .quotaReleased)) decision := by
  refine ⟨fun params => ?_, h.result⟩
  have hreleased : Event.executionStarted params ∉
      guards.map (Event.quotaReleased : _ → Event S3 Sys) := by
    simp
  simp only [Pipeline.onExit, List.mem_append, or_iff_left hreleased]
  exact h.started params

/-- The execution itself. -/
theorem decides_start (engine : ExecuteBlocking S3 Sys → Result)
    (params : ExecuteBlocking S3 Sys) (rest : List (Event S3 Sys))
    (hrest : ∀ other, .executionStarted other ∉ rest) :
    Decides engine ⟨.executionStarted params :: rest, .ok (engine params)⟩ (.ok params) := by
  refine ⟨fun other => ?_, rfl⟩
  rw [List.mem_cons, or_iff_left (hrest other)]
  simp [eq_comm]

theorem openSession_not_started (state : AppState Key)
    (env : Env Key S3 Sys Result) (identity : Option TrustedIdentity) (io : List String)
    (params : ExecuteBlocking S3 Sys) :
    .executionStarted params ∉ (openSession state env identity io).trace := by
  obtain ⟨_, heq⟩ | ⟨_, opened, _, heq⟩ | ⟨_, err, _, heq⟩ :=
    openSession_cases state env identity io
  · simp [heq]
  · simp [heq]
  · simp [heq]

/-! ### The handlers -/

section Handlers

variable (state : AppState Key) (env : Env Key S3 Sys Result)
  (identity : Option TrustedIdentity) (partition : Option String)

/-- What items and phases share. -/
def gatedDecision (source : ScriptSource) (contextJson : String)
    (config : RequestConfig S3 Sys) : Except Rejection (ExecuteBlocking S3 Sys) := do
  enforceMemberAuthz state.trusted identity config
  let _ ← (enforceQuota state.trusted identity env.inflight).1
  let session ← (openSession state env identity config.io).result
  .ok (itemParams state identity partition session source contextJson config)

theorem runGated_decides (source : ScriptSource) (contextJson : String)
    (config : RequestConfig S3 Sys) :
    Decides env.engine (runGated state env identity partition source contextJson config)
      (gatedDecision state env identity partition source contextJson config) := by
  apply decides_gate_bind _ _ _ _ _ (fun _ => rfl)
  intro _
  apply decides_gate_bind _ _ _ _ _ (fun _ => rfl)
  intro held
  apply decides_onExit
  apply decides_bind _ _ _ _ (openSession_not_started state env identity config.io)
  intro session
  exact decides_start _ _ _ (fun _ h => nomatch h)

def itemDecision (codec : Codec) (item : BatchItem S3 Sys) (shared : Option String) :
    Except Rejection (ExecuteBlocking S3 Sys) := do
  let source ← resolveScript item.script item.key state.registry
  validateInputSizes source.asStr.utf8ByteSize item.context.utf8ByteSize
    state.maxScriptSize state.maxContextSize
  let contextJson ← itemContext codec item.context shared
  gatedDecision state env identity partition source contextJson item.config

theorem runBatchItem_decides (codec : Codec) (item : BatchItem S3 Sys)
    (shared : Option String) :
    Decides env.engine (runBatchItem state env identity partition codec item shared)
      (itemDecision state env identity partition codec item shared) := by
  apply decides_gate_bind _ _ _ _ _ (fun _ => rfl)
  intro source
  apply decides_gate_bind _ _ _ _ _ (fun _ => rfl)
  intro _
  apply decides_require_bind _ _ _ _
  intro contextJson
  exact runGated_decides state env identity partition source contextJson item.config

def phaseDecision (item : BatchItem S3 Sys) (contextJson : String) :
    Except Rejection (ExecuteBlocking S3 Sys) := do
  let source ← resolveScript item.script item.key state.registry
  validateInputSizes source.asStr.utf8ByteSize contextJson.utf8ByteSize
    state.maxScriptSize state.maxContextSize
  gatedDecision state env identity partition source contextJson item.config

theorem runLifecyclePhase_decides (item : BatchItem S3 Sys) (contextJson : String) :
    Decides env.engine (runLifecyclePhase state env identity partition item contextJson)
      (phaseDecision state env identity partition item contextJson) := by
  apply decides_gate_bind _ _ _ _ _ (fun _ => rfl)
  intro source
  apply decides_gate_bind _ _ _ _ _ (fun _ => rfl)
  intro _
  exact runGated_decides state env identity partition source contextJson item.config

/-- The log floor the identity asks for, which items do not read. -/
def withLogFloor (params : ExecuteBlocking S3 Sys) : ExecuteBlocking S3 Sys :=
  { params with logFloor := identity.bind (·.logLevel) }

/-- `/execute` behind the credential, the identity and the body. -/
def requestDecision (request : ExecRequest S3 Sys) :
    Except Rejection (ExecuteBlocking S3 Sys) := do
  enforceMemberAuthz state.trusted identity request.config
  let source ← resolveScript request.script request.key state.registry
  validateInputSizes source.asStr.utf8ByteSize request.context.utf8ByteSize
    state.maxScriptSize state.maxContextSize
  let _ ← (enforceQuota state.trusted identity env.inflight).1
  let session ← (openSession state env identity request.config.io).result
  let _ ← (admitPermits state.hash env.permits partition).1
  .ok (withLogFloor identity
    (itemParams state identity partition session source request.context request.config))

def executeDecision (headers : HeaderMap) (payload : Option (ExecRequest S3 Sys)) :
    Except Rejection (ExecuteBlocking S3 Sys) := do
  enforceAuth state.accessToken headers
  let identity ← (resolveIdentity state.trusted env.cache headers).1
  let request ← parsePayload payload
  requestDecision state env identity
    (resolvePartition identity ((headerPartition headers).or request.partition)) request

theorem runExecute_decides (headers : HeaderMap) (payload : Option (ExecRequest S3 Sys)) :
    Decides env.engine (runExecute state env headers payload)
      (executeDecision state env headers payload) := by
  apply decides_gate_bind _ _ _ _ _ (fun _ => rfl)
  intro _
  apply decides_gate_bind _ _ _ _ _ (fun _ => rfl)
  intro identity
  apply decides_gate_bind _ _ _ _ _ (fun _ => rfl)
  intro request
  apply decides_gate_bind _ _ _ _ _ (fun _ => rfl)
  intro _
  apply decides_gate_bind _ _ _ _ _ (fun _ => rfl)
  intro source
  apply decides_gate_bind _ _ _ _ _ (fun _ => rfl)
  intro _
  apply decides_gate_bind _ _ _ _ _ (fun _ => rfl)
  intro held
  apply decides_onExit
  apply decides_bind _ _ _ _ (openSession_not_started state env identity request.config.io)
  intro session
  apply decides_gate_bind _ _ _ _ _ (fun _ => rfl)
  intro _
  exact decides_start _ _ [.permitsReleased] (by simp)

end Handlers

end Runlet.Batch
