import Runlet.Core.Classify

/-!
Every engine error of `engine/types.rs`, the envelope each of them becomes
(`into_envelope`), its outcome label and the metrics counter it is recorded
under. The raw causes and stacks reach only the gated debug object, which the
envelope of this model leaves out.
-/

namespace Runlet.EngineErrors

open Errors

inductive EngineError where
  | syntaxError (message : String)
  | scriptNotFound (message : String)
  | moduleNotFound (message : String)
  | handlerNotDefined
  | timeout (limitMs : Nat)
  | memoryLimit
  | malformed (message : String)
  | outputTooLarge (size limit : Nat)
  | internal (raw : String)
  | shuttingDown
  | script (message : String) (stack : Option String)
  | capability (err : Classify.CapabilityErr)

def handlerMissingMsg : String := "script must define a `handler(context)` function"

def memoryMsg : String := "memory limit exceeded"

def runtimeEnvelope (code : String) (retryable : Bool) (owner : ErrorOwner)
    (message : String) : ErrorEnvelope :=
  (ErrorEnvelope.new .runtime .engine code retryable owner).withMessage message

def scriptEnvelope (message : String) : ErrorEnvelope :=
  (ErrorEnvelope.new .script .handler "SCRIPT_ERROR" false .developer).withMessage message

def capabilityMessage : ErrorSource → String
  | .db | .mongo => "database request failed"
  | .mail => "mail delivery failed"
  | .s3 => "object storage request failed"
  | .api => "upstream request failed"
  | .redis => "redis request failed"
  | .amq => "message broker request failed"
  | .auth => "identity request failed"
  | .request | .engine | .handler => "capability request failed"

def capabilityEnvelope (err : Classify.CapabilityErr) : ErrorEnvelope :=
  { (ErrorEnvelope.new .capability err.source err.code err.retryable err.owner).withMessage
      (capabilityMessage err.source) with details := err.details }

/-- `timeoutRetryable` is the operator's choice for the wall-clock limit. -/
def EngineError.intoEnvelope (timeoutRetryable : Bool) : EngineError → ErrorEnvelope
  | .syntaxError message => runtimeEnvelope "SYNTAX_ERROR" false .developer message
  | .scriptNotFound message =>
      (ErrorEnvelope.new .request .request "SCRIPT_NOT_FOUND" false .caller).withMessage message
  | .moduleNotFound message => runtimeEnvelope "MODULE_NOT_FOUND" false .developer message
  | .handlerNotDefined =>
      runtimeEnvelope "HANDLER_NOT_DEFINED" false .developer handlerMissingMsg
  | .timeout limitMs => runtimeEnvelope "TIMEOUT" timeoutRetryable .developer
      ("execution timed out (" ++ toString limitMs ++ "ms limit)")
  | .memoryLimit => runtimeEnvelope "MEMORY_LIMIT" false .developer memoryMsg
  | .malformed message => runtimeEnvelope "MALFORMED_RESPONSE" false .developer message
  | .outputTooLarge size limit => runtimeEnvelope "OUTPUT_TOO_LARGE" false .developer
      ("handler output too large: " ++ toString size ++ " bytes (max " ++ toString limit ++ ")")
  | .internal _ => runtimeEnvelope "INTERNAL" true .operator "internal error"
  | .shuttingDown => runtimeEnvelope "SHUTTING_DOWN" true .operator "service is shutting down"
  | .script message _ => scriptEnvelope message
  | .capability err => capabilityEnvelope err

/-- The label of the usage event and of the request span. -/
def engineErrorOutcome : EngineError → String
  | .syntaxError _ | .scriptNotFound _ | .moduleNotFound _ | .handlerNotDefined
  | .script _ _ => "script_error"
  | .capability _ => "capability_error"
  | .timeout _ => "timeout"
  | .memoryLimit => "memory_limit"
  | .malformed _ | .outputTooLarge _ _ => "malformed_response"
  | .internal _ | .shuttingDown => "internal_error"

/-- The outcome counters of the process-wide metrics. -/
inductive Counter where
  | success
  | scriptError
  | capabilityError
  | timeout
  | memoryLimit
  | malformedResponse
  | internalError
  deriving DecidableEq

/-- The counter `record_engine_error` increments. -/
def recordEngineError : EngineError → Counter
  | .syntaxError _ | .scriptNotFound _ | .moduleNotFound _ | .handlerNotDefined
  | .script _ _ => .scriptError
  | .capability _ => .capabilityError
  | .timeout _ => .timeout
  | .memoryLimit => .memoryLimit
  | .malformed _ | .outputTooLarge _ _ => .malformedResponse
  | .internal _ | .shuttingDown => .internalError

/-- The label under which a counter is exported. -/
def Counter.label : Counter → String
  | .success => "success"
  | .scriptError => "script_error"
  | .capabilityError => "capability_error"
  | .timeout => "timeout"
  | .memoryLimit => "memory_limit"
  | .malformedResponse => "malformed_response"
  | .internalError => "internal_error"

end Runlet.EngineErrors
