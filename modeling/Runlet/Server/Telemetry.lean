import Runlet.Server.Response

/-!
What becomes of a finished execution on the three paths: the `/execute`
response (`build_response` in `telemetry.rs`), the batch item
(`render_executed_item`) and the before/after phase (`lifecycle_outcome`).
Each of them emits the usage event, counts the outcome and then shapes its
answer, in this order. The log stream and the latency histograms, which no
answer depends on, are left out.
-/

namespace Runlet.Telemetry

open Errors EngineErrors Execute Gates Identity JsonText Response

inductive ExecOutcome where
  | success (jsJson : String)
  | error (err : EngineError)

/-- One run of the engine that produced an outcome. -/
structure Outcome (Metrics Effect LogEntry : Type) where
  result : ExecOutcome
  effects : List Effect
  logs : List LogEntry
  metrics : Metrics

/-- What the blocking task gives back: an outcome or an engine error, with the
drained egress metrics; or the error of joining a task that panicked. -/
abbrev ExecResult (Metrics Egress Effect LogEntry : Type) :=
  Except String (Except EngineError (Outcome Metrics Effect LogEntry) × Egress)

/-- What one execution is accounted as: the outcome label and metadata of its
usage event, and the counter incremented. -/
structure Recorded (Meta : Type) where
  outcome : String
  metadata : Meta
  counter : Counter

section Paths

variable {Meta Metrics Egress Effect LogEntry Answer : Type}
  (withMetrics : Meta → Metrics → Egress → Meta)

def recordError (err : EngineError) (metadata : Meta) : Recorded Meta :=
  ⟨engineErrorOutcome err, metadata, recordEngineError err⟩

/-- The match the three paths share. `onText` and `onError` shape the answer;
an execution without an outcome has no effects and no logs. -/
def settle (onText : String → Meta → List Effect → List LogEntry → Answer)
    (onError : EngineError → Meta → List Effect → List LogEntry → Answer)
    (baseMeta : Meta) :
    ExecResult Metrics Egress Effect LogEntry → Recorded Meta × Answer
  | .ok (.ok exec, egress) =>
      let metadata := withMetrics baseMeta exec.metrics egress
      match exec.result with
      | .success jsJson =>
          (⟨"success", metadata, .success⟩, onText jsJson metadata exec.effects exec.logs)
      | .error err =>
          (recordError err metadata, onError err metadata exec.effects exec.logs)
  | .ok (.error err, _) => (recordError err baseMeta, onError err baseMeta [] [])
  | .error joinErr =>
      let err := EngineError.internal ("task panicked: " ++ joinErr)
      (recordError err baseMeta, onError err baseMeta [] [])

/-- The gateway's choice to mirror captured logs on the response. -/
def capture (identity : Option TrustedIdentity) : Bool := identity.any (·.capture)

def mirror (identity : Option TrustedIdentity) (logs : List LogEntry) :
    Option (List LogEntry) :=
  if capture identity then some logs else none

/-- The `/execute` path. -/
def buildResponse (reader : Reader) (cfg : RespCfg) (identity : Option TrustedIdentity)
    (baseMeta : Meta) (result : ExecResult Metrics Egress Effect LogEntry) :
    Recorded Meta × HttpResponse Meta Effect LogEntry :=
  settle withMetrics
    (fun jsJson metadata effects logs =>
      successResponse reader cfg jsJson metadata effects (mirror identity logs))
    (fun err metadata effects logs =>
      engineErrorResponse cfg err metadata effects (mirror identity logs))
    baseMeta result

/-- A serialized batch item: `{data, error, meta, id?}`. -/
structure ItemEnvelope (Meta : Type) where
  data : String
  error : ErrorMember
  metadata : Meta
  id : Option String

structure RenderedItem (Meta : Type) where
  body : ItemEnvelope Meta
  ok : Bool

def renderErrorItem (error : ErrorEnvelope) (metadata : Meta) (id : Option String) :
    RenderedItem Meta :=
  ⟨⟨"null", .system error, metadata, id⟩, false⟩

def renderEngineErrorItem (cfg : RespCfg) (err : EngineError) (metadata : Meta)
    (id : Option String) : RenderedItem Meta :=
  renderErrorItem (err.intoEnvelope cfg.timeoutRetryable) metadata id

def renderSuccessItem (reader : Reader) (cfg : RespCfg) (jsJson : String) (metadata : Meta)
    (id : Option String) : RenderedItem Meta :=
  match parseEnvelope reader jsJson with
  | some env => ⟨⟨env.data, .handler env.error, metadata, id⟩, true⟩
  | none => renderEngineErrorItem cfg (malformedHandlerResponse reader jsJson) metadata id

/-- The batch item path. -/
def renderExecutedItem (reader : Reader) (cfg : RespCfg) (id : Option String)
    (baseMeta : Meta) (result : ExecResult Metrics Egress Effect LogEntry) :
    Recorded Meta × RenderedItem Meta :=
  settle withMetrics
    (fun jsJson metadata _ _ => renderSuccessItem reader cfg jsJson metadata id)
    (fun err metadata _ _ => renderEngineErrorItem cfg err metadata id)
    baseMeta result

/-- The `data` a phase returned, or its classified error. -/
inductive LifecyclePhase where
  | success (data : String)
  | failure (envelope : ErrorEnvelope)

/-- A text as a raw value of its own; a text that is not JSON becomes null. -/
def rawOrNull (reader : Reader) (text : String) : String :=
  if (reader.read text).isSome then text else "null"

/-- The before/after path. -/
def lifecycleOutcome (reader : Reader) (cfg : RespCfg) (baseMeta : Meta)
    (result : ExecResult Metrics Egress Effect LogEntry) :
    Recorded Meta × LifecyclePhase :=
  settle withMetrics
    (fun jsJson _ _ _ =>
      match parseEnvelope reader jsJson with
      | some env => .success (rawOrNull reader env.data)
      | none => .failure
          ((malformedHandlerResponse reader jsJson).intoEnvelope cfg.timeoutRetryable))
    (fun err _ _ _ => .failure (err.intoEnvelope cfg.timeoutRetryable))
    baseMeta result

end Paths

/-! ### The status of an `/execute` response -/

section Status

variable {Key S3 Sys Meta Metrics Egress Effect LogEntry : Type}
  (reader : Reader) (cfg : RespCfg) (withMetrics : Meta → Metrics → Egress → Meta)

/-- The text the handler returned, when the engine ran and the handler did
return one. -/
def returnedText :
    Except Rejection (ExecResult Metrics Egress Effect LogEntry) → Option String
  | .ok (.ok (.ok exec, _)) =>
      match exec.result with
      | .success jsJson => some jsJson
      | .error _ => none
  | _ => none

/-- The gates that answer with a status of their own, in source order: the
credential, the identity, the body and the member authorization. The others
project theirs. -/
def fixedStatus (state : AppState Key)
    (env : Env Key S3 Sys (ExecResult Metrics Egress Effect LogEntry))
    (headers : HeaderMap) (payload : Option (ExecRequest S3 Sys)) : Option Nat :=
  match enforceAuth state.accessToken headers with
  | .error _ => some 401
  | .ok () =>
      match (resolveIdentity state.trusted env.cache headers).1 with
      | .error _ => some 403
      | .ok identity =>
          match payload with
          | none => some 400
          | some request =>
              match enforceMemberAuthz state.trusted identity request.config with
              | .error _ => some 403
              | .ok () => none

/-- The response of one `/execute` request; `identity` is the resolved one. -/
def executeResponse (state : AppState Key)
    (env : Env Key S3 Sys (ExecResult Metrics Egress Effect LogEntry))
    (identity : Option TrustedIdentity) (headers : HeaderMap)
    (payload : Option (ExecRequest S3 Sys)) (baseMeta : Meta) :
    HttpResponse Meta Effect LogEntry :=
  match (runExecute state env headers payload).result with
  | .error rejection =>
      match fixedStatus state env headers payload with
      | some status =>
          systemErrorResponseWithEffects rejection.envelope status baseMeta [] none
      | none => projectedErrorResponse cfg rejection.envelope baseMeta
  | .ok result => (buildResponse withMetrics reader cfg identity baseMeta result).2

end Status

/-! A box in single-tenant mode whose engine returns a fixed text. -/

def openState : AppState Unit := { sampleState with trusted := none }

def returningEnv (jsJson : String) :
    Env Unit Unit Unit (ExecResult Unit Unit Unit Unit) where
  cache := ⟨[], none⟩
  inflight := fun _ => none
  permits := ⟨1, none⟩
  handshake := fun _ => .ok ()
  engine := fun _ => .ok (.ok ⟨.success jsJson, [], [], ()⟩, ())

def plainRequest : ExecRequest Unit Unit :=
  ⟨some "handler", none, none, "[]", ⟨[], none, none, [], none⟩⟩

/-- An error array, a data object and an array in place of an envelope. -/
def sampleReader : Reader := .ofTable
  [("\x7b\"error\":[true]\x7d", .object [("error", "[true]")]),
    ("[true]", .array ["true"]), ("true", .bool true),
    ("\x7b\"data\":1\x7d", .object [("data", "1")]), ("1", .number "1"),
    ("[1]", .array ["1"])] (by decide +kernel)

def sampleCfg : RespCfg := ⟨false, 5⟩

def systemError : ErrorMember → Option ErrorEnvelope
  | .handler _ => none
  | .system envelope => some envelope

def LifecyclePhase.systemError : LifecyclePhase → Option ErrorEnvelope
  | .success _ => none
  | .failure envelope => some envelope

/-- The account matches the answer: success for the handler's own envelope,
and otherwise what the error that is carried is called. -/
structure Accounted {Meta : Type} (cfg : RespCfg) (recorded : Recorded Meta)
    (carried : Option ErrorEnvelope) : Prop where
  success : (recorded.outcome = "success" ∧ recorded.counter = .success) ↔ carried = none
  error : ∀ envelope, carried = some envelope →
    ∃ err : EngineError, envelope = err.intoEnvelope cfg.timeoutRetryable ∧
      recorded.outcome = engineErrorOutcome err ∧ recorded.counter = recordEngineError err

theorem engineErrorOutcome_ne_success (err : EngineError) :
    engineErrorOutcome err ≠ "success" := by
  cases err <;> simp [engineErrorOutcome]

section Accounts

variable {Meta Metrics Egress Effect LogEntry Answer : Type}
  (reader : Reader) (cfg : RespCfg) (withMetrics : Meta → Metrics → Egress → Meta)

theorem accounted_recordError (err : EngineError) (metadata : Meta) :
    Accounted cfg (recordError err metadata)
      (some (err.intoEnvelope cfg.timeoutRetryable)) := by
  constructor
  · simp [recordError, engineErrorOutcome_ne_success]
  · intro envelope henvelope
    cases henvelope
    exact ⟨err, rfl, rfl, rfl⟩

theorem accounted_success_iff (metadata : Meta) (carried : Option ErrorEnvelope) :
    Accounted cfg ⟨"success", metadata, .success⟩ carried ↔ carried = none := by
  constructor
  · intro h
    exact h.success.mp ⟨rfl, rfl⟩
  · rintro rfl
    exact ⟨by simp, fun _ h => nomatch h⟩

/-- The rule all three paths follow: when errors are answered with their own
envelope, the account matches unless a returned text is answered with an
error. -/
theorem settle_accounted_iff
    (onText : String → Meta → List Effect → List LogEntry → Answer)
    (onError : EngineError → Meta → List Effect → List LogEntry → Answer)
    (carried : Answer → Option ErrorEnvelope)
    (hText : ∀ jsJson metadata effects logs,
      carried (onText jsJson metadata effects logs) = none ↔
        (parseEnvelope reader jsJson).isSome)
    (hError : ∀ err metadata effects logs,
      carried (onError err metadata effects logs) =
        some (err.intoEnvelope cfg.timeoutRetryable))
    (baseMeta : Meta) (result : ExecResult Metrics Egress Effect LogEntry) :
    Accounted cfg (settle withMetrics onText onError baseMeta result).1
        (carried (settle withMetrics onText onError baseMeta result).2) ↔
      ∀ jsJson, returnedText (.ok result) = some jsJson →
        (parseEnvelope reader jsJson).isSome := by
  cases result with
  | error joinErr =>
      simp only [settle, returnedText, hError, accounted_recordError]
      simp
  | ok finished =>
      obtain ⟨executed, egress⟩ := finished
      cases executed with
      | error err =>
          simp only [settle, returnedText, hError, accounted_recordError]
          simp
      | ok exec =>
          simp only [settle, returnedText]
          cases exec.result with
          | error err =>
              simp only [hError, accounted_recordError]
              simp
          | success jsJson =>
              simp only [accounted_success_iff, hText, Option.some.injEq, forall_eq']

/-- On each of the three paths, what is billed and counted matches what is
answered exactly when a returned text, if there is one, is an envelope. -/
theorem accounted_iff (identity : Option TrustedIdentity) (id : Option String)
    (baseMeta : Meta) (result : ExecResult Metrics Egress Effect LogEntry) :
    let envelopes := ∀ jsJson, returnedText (.ok result) = some jsJson →
      (parseEnvelope reader jsJson).isSome
    let response := buildResponse withMetrics reader cfg identity baseMeta result
    let item := renderExecutedItem withMetrics reader cfg id baseMeta result
    let phase := lifecycleOutcome withMetrics reader cfg baseMeta result
    (Accounted cfg response.1 (systemError response.2.error) ↔ envelopes) ∧
      (Accounted cfg item.1 (systemError item.2.body.error) ↔ envelopes) ∧
      (Accounted cfg phase.1 phase.2.systemError ↔ envelopes) := by
  refine ⟨?_, ?_, ?_⟩
  · apply settle_accounted_iff reader cfg withMetrics _ _
      (fun response : HttpResponse Meta Effect LogEntry => systemError response.error)
    · intro jsJson metadata effects logs
      unfold successResponse
      cases parseEnvelope reader jsJson with
      | none => simp [engineErrorResponse_error, systemError]
      | some env => simp [handlerEnvelopeResponse_fields, systemError]
    · intro err metadata effects logs
      simp [engineErrorResponse_error, systemError]
  · apply settle_accounted_iff reader cfg withMetrics _ _
      (fun item : RenderedItem Meta => systemError item.body.error)
    · intro jsJson metadata effects logs
      unfold renderSuccessItem
      cases parseEnvelope reader jsJson with
      | none => simp [renderEngineErrorItem, renderErrorItem, systemError]
      | some env => simp [systemError]
    · intro err metadata effects logs
      rfl
  · apply settle_accounted_iff reader cfg withMetrics _ _ LifecyclePhase.systemError
    · intro jsJson metadata effects logs
      cases parseEnvelope reader jsJson with
      | none => simp [LifecyclePhase.systemError]
      | some env => simp [LifecyclePhase.systemError]
    · intro err metadata effects logs
      rfl

end Accounts

/-- An output that is no envelope: answered as `MALFORMED_RESPONSE`, billed and
counted as a success. -/
theorem malformed_output_is_billed_as_success :
    let executed := buildResponse (fun metadata _ _ => metadata) sampleReader sampleCfg none
      () ((returningEnv "1").engine
        ⟨none, [], .inline "handler", "[]", plainRequest.config, none, none, none, none,
          none, none, none⟩)
    executed.1.outcome = "success" ∧ executed.1.counter = .success ∧
      (systemError executed.2.error).map ErrorEnvelope.code = some "MALFORMED_RESPONSE" ∧
      ¬ Accounted sampleCfg executed.1 (systemError executed.2.error) := by
  refine ⟨rfl, rfl, by decide +kernel, ?_⟩
  intro haccounted
  have hnone := haccounted.success.mp ⟨rfl, rfl⟩
  cases (show some _ = none from hnone)

end Runlet.Telemetry
