import Runlet.Lib.JsonText
import Runlet.Core.EngineErrors
import Runlet.Server.Execute

/-!
Response assembly (`handler/response.rs`) and the status projection
(`status.rs`): from a gate rejection, an engine error or the text a handler
returned to the status line, the `Retry-After` header and the
`{data, error, meta, effects, logs}` body. Metadata, effects and log entries
pass through untouched and are type parameters.
-/

namespace Runlet.Response

open Errors EngineErrors Gates JsonText

/-! ### Status projection -/

structure Projected where
  status : Nat
  retryAfter : Bool
  deriving DecidableEq

def Projected.retry (status : Nat) : Projected := ⟨status, true⟩

def Projected.park (status : Nat) : Projected := ⟨status, false⟩

def oversizeCodes : List String := ["SCRIPT_TOO_LARGE", "CONTEXT_TOO_LARGE"]

/-- The code within the 4xx class; oversize comes before the owner. -/
def parkStatus (owner : ErrorOwner) (code : String) : Nat :=
  if oversizeCodes.contains code then 413
  else
    match owner with
    | .caller => if code = "SCRIPT_NOT_FOUND" then 404 else 400
    | .operator => 409
    | .developer => 422

def project (retryable : Bool) (owner : ErrorOwner) (code : String) : Projected :=
  if retryable then .retry (if code = "INTERNAL" then 500 else 503)
  else .park (parkStatus owner code)

def projectEnvelope (envelope : ErrorEnvelope) : Projected :=
  project envelope.retryable envelope.owner envelope.code

/-! ### The handler's envelope -/

/-- The JS output's `data` and `error`, as the texts it wrote. -/
structure Envelope where
  data : String
  error : String
  deriving DecidableEq

/-- `serde_json::from_str::<Envelope>`; either field defaults to null. -/
def parseEnvelope (reader : Reader) (jsJson : String) : Option Envelope :=
  match structTexts reader ["data", "error"] jsJson with
  | some [data, error] => some ⟨data.getD "null", error.getD "null"⟩
  | _ => none

/-- `serde_json::from_str::<HandlerRetryable>`: the opt-in hint. -/
def parseRetryable (reader : Reader) (error : String) : Option (Option Bool) :=
  match structTexts reader ["retryable"] error with
  | some [none] => some none
  | some [some text] =>
      match reader.read text with
      | some .null => some none
      | some (.bool value) => some (some value)
      | _ => none
  | _ => none

def handlerStatus (reader : Reader) (error : String) : Projected :=
  if Text.trim error = "null" then ⟨200, false⟩
  else if parseRetryable reader error = some (some true) then ⟨503, true⟩
  else ⟨422, false⟩

/-! ### Responses -/

structure RespCfg where
  timeoutRetryable : Bool
  retryAfterSeconds : Nat

/-- The `error` member: a text of the handler's own or a system envelope. -/
inductive ErrorMember where
  | handler (text : String)
  | system (envelope : ErrorEnvelope)

structure HttpResponse (Meta Effect LogEntry : Type) where
  status : Nat
  retryAfter : Option Nat
  data : String
  error : ErrorMember
  metadata : Meta
  effects : List Effect
  logs : Option (List LogEntry)

section Builders

variable {Meta Effect LogEntry : Type}

def addRetryAfter (response : HttpResponse Meta Effect LogEntry) (seconds : Nat) :
    HttpResponse Meta Effect LogEntry :=
  { response with retryAfter := some seconds }

def systemErrorResponseWithEffects (error : ErrorEnvelope) (status : Nat) (metadata : Meta)
    (effects : List Effect) (logs : Option (List LogEntry)) :
    HttpResponse Meta Effect LogEntry :=
  ⟨status, none, "null", .system error, metadata, effects, logs⟩

def projectedErrorResponseWithEffects (cfg : RespCfg) (error : ErrorEnvelope)
    (metadata : Meta) (effects : List Effect) (logs : Option (List LogEntry)) :
    HttpResponse Meta Effect LogEntry :=
  let projected := projectEnvelope error
  let response := systemErrorResponseWithEffects error projected.status metadata effects logs
  if projected.retryAfter then addRetryAfter response cfg.retryAfterSeconds else response

def projectedErrorResponse (cfg : RespCfg) (error : ErrorEnvelope) (metadata : Meta) :
    HttpResponse Meta Effect LogEntry :=
  projectedErrorResponseWithEffects cfg error metadata [] none

def engineErrorResponse (cfg : RespCfg) (err : EngineError) (metadata : Meta)
    (effects : List Effect) (logs : Option (List LogEntry)) :
    HttpResponse Meta Effect LogEntry :=
  projectedErrorResponseWithEffects cfg (err.intoEnvelope cfg.timeoutRetryable) metadata
    effects logs

/-- The handler's own `{data, error}`, at a status read off the error. -/
def handlerEnvelopeResponse (reader : Reader) (cfg : RespCfg) (env : Envelope)
    (metadata : Meta) (effects : List Effect) (logs : Option (List LogEntry)) :
    HttpResponse Meta Effect LogEntry :=
  let projected := handlerStatus reader env.error
  let response : HttpResponse Meta Effect LogEntry :=
    ⟨projected.status, none, env.data, .handler env.error, metadata, effects, logs⟩
  if projected.retryAfter then addRetryAfter response cfg.retryAfterSeconds else response

/-- The error of an output that is no envelope. -/
def malformedHandlerResponse (reader : Reader) (jsJson : String) : EngineError :=
  .malformed ("malformed handler response: " ++ reader.describe jsJson)

def successResponse (reader : Reader) (cfg : RespCfg) (jsJson : String) (metadata : Meta)
    (effects : List Effect) (logs : Option (List LogEntry)) :
    HttpResponse Meta Effect LogEntry :=
  match parseEnvelope reader jsJson with
  | some env => handlerEnvelopeResponse reader cfg env metadata effects logs
  | none =>
      engineErrorResponse cfg (malformedHandlerResponse reader jsJson) metadata effects logs

end Builders

/-! ### Which handler outputs are read as written -/

theorem parkStatus_range (owner : ErrorOwner) (code : String) :
    400 ≤ parkStatus owner code ∧ parkStatus owner code < 500 ∧
      parkStatus owner code ≠ 429 := by
  unfold parkStatus
  split
  · decide
  · cases owner with
    | caller =>
        by_cases hcode : code = "SCRIPT_NOT_FOUND"
        · simp [hcode]
        · simp [hcode]
    | operator => simp
    | developer => simp

section Contracts

variable {Meta Effect LogEntry : Type} (reader : Reader) (cfg : RespCfg)

/-- What an engine error carries, whatever its status. -/
theorem engineErrorResponse_error (err : EngineError) (metadata : Meta)
    (effects : List Effect) (logs : Option (List LogEntry)) :
    (engineErrorResponse cfg err metadata effects logs).error =
      .system (err.intoEnvelope cfg.timeoutRetryable) := by
  simp only [engineErrorResponse, projectedErrorResponseWithEffects]
  split <;> rfl

theorem handlerEnvelopeResponse_fields (env : Envelope) (metadata : Meta)
    (effects : List Effect) (logs : Option (List LogEntry)) :
    (handlerEnvelopeResponse reader cfg env metadata effects logs).error =
        .handler env.error ∧
      (handlerEnvelopeResponse reader cfg env metadata effects logs).data = env.data := by
  simp only [handlerEnvelopeResponse]
  split <;> exact ⟨rfl, rfl⟩

end Contracts

end Runlet.Response
