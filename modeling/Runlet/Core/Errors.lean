import Mathlib.Data.List.Basic

/-!
The structured-error vocabulary shared by the box and the engine: `errors.rs`
of the wire crate (owners and the `__runlet` tag of a failed egress call) and
`errors.rs` of the core (categories, sources and the response envelope). JSON
texts are carried as the value they denote; a number keeps its literal.
-/

namespace Runlet.Errors

inductive Json where
  | null
  | bool (value : Bool)
  | num (literal : String)
  | str (text : String)
  | arr (items : List Json)
  | obj (fields : List (String × Json))

/-- Who should act on an error. -/
inductive ErrorOwner where
  | caller
  | developer
  | operator
  deriving DecidableEq, Repr

def ErrorOwner.asStr : ErrorOwner → String
  | .caller => "caller"
  | .developer => "developer"
  | .operator => "operator"

def ErrorOwner.parse (value : String) : Option ErrorOwner :=
  match value with
  | "caller" => some .caller
  | "developer" => some .developer
  | "operator" => some .operator
  | _ => none

@[simp] theorem parse_asStr (owner : ErrorOwner) :
    ErrorOwner.parse owner.asStr = some owner := by
  cases owner <;> rfl

/-- The coarse category a client branches on. -/
inductive ErrorCategory where
  | request
  | runtime
  | script
  | capability
  deriving DecidableEq, Repr

inductive ErrorSource where
  | request
  | engine
  | handler
  | db
  | mongo
  | mail
  | s3
  | api
  | redis
  | amq
  | auth
  deriving DecidableEq, Repr

/-- Reads a tag's source back; `none` makes the throw a script error. -/
def ErrorSource.parse (value : String) : Option ErrorSource :=
  match value with
  | "request" => some .request
  | "engine" => some .engine
  | "handler" => some .handler
  | "db" => some .db
  | "mongo" => some .mongo
  | "mail" => some .mail
  | "s3" => some .s3
  | "api" => some .api
  | "redis" => some .redis
  | "amq" => some .amq
  | "auth" => some .auth
  | _ => none

/-- The source texts `ErrorSource.parse` knows. -/
def knownSources : List String :=
  ["request", "engine", "handler", "db", "mongo", "mail", "s3", "api",
    "redis", "amq", "auth"]

theorem source_parse_isSome_iff (value : String) :
    (ErrorSource.parse value).isSome = true ↔ value ∈ knownSources := by
  unfold ErrorSource.parse knownSources
  split <;> simp_all

/-- The `error` object of a system-generated response. The gated `debug`
object is left out: no decision reads it. -/
structure ErrorEnvelope where
  category : ErrorCategory
  source : ErrorSource
  code : String
  message : Option String
  retryable : Bool
  owner : ErrorOwner
  details : Option Json

def ErrorEnvelope.new (category : ErrorCategory) (source : ErrorSource)
    (code : String) (retryable : Bool) (owner : ErrorOwner) : ErrorEnvelope :=
  ⟨category, source, code, none, retryable, owner, none⟩

def ErrorEnvelope.withMessage (envelope : ErrorEnvelope) (message : String) :
    ErrorEnvelope :=
  { envelope with message := some message }

/-- A `request`-category envelope: the caller's fault, never retryable. -/
def requestError (code message : String) : ErrorEnvelope :=
  (ErrorEnvelope.new .request .request code false .caller).withMessage message

end Runlet.Errors
