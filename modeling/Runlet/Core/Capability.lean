import Runlet.Core.Errors
import Runlet.Core.Ssrf

/-!
The egress port and the capability mux: `egress.rs` and the tag of `errors.rs`
in the wire crate, `capability.rs` and the `__io` closure of `channels.rs` in
the core. A call either returns a backend's JSON text verbatim or a rendered
fault tag. Functions that run consumer code answer `none` when that code
panics; the mux turns a panic into a denial.
-/

namespace Runlet.Capability

open Errors Ssrf

/-- A failed egress call, with the fields of the `__runlet` tag. -/
structure EgressError where
  code : String
  message : String
  source : String
  details : Option Json
  retryable : Bool
  owner : ErrorOwner

/-- Not retryable and owned by the operator unless the builder says so. -/
def EgressError.new (source code message : String) : EgressError :=
  ⟨code, message, source, none, false, .operator⟩

def EgressError.markRetryable (err : EgressError) : EgressError :=
  { err with retryable := true }

def EgressError.withOwner (err : EgressError) (owner : ErrorOwner) : EgressError :=
  { err with owner := owner }

/-- The tag as it crosses the engine boundary. -/
structure DynamicFault where
  error : String
  code : String
  retryable : Bool
  owner : ErrorOwner
  source : String
  details : Option Json

def EgressError.toTag (err : EgressError) : DynamicFault :=
  ⟨err.message, err.code, err.retryable, err.owner, err.source, err.details⟩

def dynamicFaultJson (fault : DynamicFault) : Json :=
  .obj ([("error", .str fault.error), ("code", .str fault.code),
    ("retryable", .bool fault.retryable), ("owner", .str fault.owner.asStr),
    ("source", .str fault.source)] ++
    (fault.details.map fun details => ("details", details)).toList)

/-- Name, action and payload to the JSON text or the error; `none` on panic. -/
abbrev Egress := String → String → String → Option (Except EgressError String)

structure Target where
  host : String
  port : Nat

/-- An allowlist and a payload extractor, for script-controlled targets. -/
structure SsrfPolicy where
  allowedHosts : List String
  extractTarget : String → Option (Except String (Option Target))

inductive Trust where
  | operatorSupplied
  | scriptControlled (policy : SsrfPolicy)

structure Route where
  backend : Option Egress
  trust : Trust

structure CapabilityRegistry where
  routes : List (String × Route)
  fallback : Option Egress

/-- What the mux takes from the standard library: case mapping, the IPv6 text
forms and name resolution. -/
structure MuxLib where
  lower : String → String
  v6 : V6Text
  lookup : Lookup

/-- One call as the mux sees it; `fallback` is the per-request egress. -/
structure MuxCall where
  name : String
  action : String
  payload : String
  allowPrivate : Bool
  fallback : Option Egress

inductive FfiResult where
  | verbatim (text : String)
  | tagged (fault : DynamicFault)

def SsrfPolicy.enforce (lib : MuxLib) (policy : SsrfPolicy) (payload : String)
    (allowPrivate : Bool) : Option (Except String Unit) :=
  match policy.extractTarget payload with
  | none => none
  | some (.error err) => some (.error err)
  | some (.ok none) => some (.ok ())
  | some (.ok (some target)) =>
      if !policy.allowedHosts.isEmpty &&
          !(policy.allowedHosts.any fun host => lib.lower host == lib.lower target.host) then
        some (.error ("host '" ++ target.host ++ "' is not in the allowlist"))
      else some (blockPrivateIp lib.v6 lib.lookup target.host target.port allowPrivate)

def ssrfBlock (name message : String) : DynamicFault :=
  ⟨message, "IO_SSRF_BLOCKED", false, .developer, name, none⟩

def egressUnavailable (name : String) : DynamicFault :=
  ⟨"no egress backend is available for this capability", "EGRESS_UNAVAILABLE", true,
    .operator, name, none⟩

def deny (code message : String) (owner : ErrorOwner) (name : String) : DynamicFault :=
  ⟨message, code, false, owner, name, none⟩

def callBackend (backend : Option Egress) (call : MuxCall) : Option FfiResult :=
  match backend with
  | none => some (.tagged (egressUnavailable call.name))
  | some egress =>
      match egress call.name call.action call.payload with
      | none => none
      | some (.ok text) => some (.verbatim text)
      | some (.error err) => some (.tagged err.toTag)

/-- Local backend, then the per-request fallback, then the builder's. -/
def CapabilityRegistry.backendFor (registry : CapabilityRegistry) (call : MuxCall) :
    Option Egress :=
  match registry.routes.lookup call.name with
  | some route => (route.backend.or call.fallback).or registry.fallback
  | none => call.fallback.or registry.fallback

def CapabilityRegistry.dispatchInner (lib : MuxLib) (registry : CapabilityRegistry)
    (call : MuxCall) : Option FfiResult :=
  match registry.routes.lookup call.name with
  | some ⟨_, .scriptControlled policy⟩ =>
      match policy.enforce lib call.payload call.allowPrivate with
      | none => none
      | some (.error message) => some (.tagged (ssrfBlock call.name message))
      | some (.ok ()) => callBackend (registry.backendFor call) call
  | _ => callBackend (registry.backendFor call) call

/-- A panic anywhere below denies the call. -/
def CapabilityRegistry.dispatch (lib : MuxLib) (registry : CapabilityRegistry)
    (call : MuxCall) : FfiResult :=
  (registry.dispatchInner lib call).getD
    (.tagged (deny "IO_ENFORCEMENT_FAILED" "capability enforcement failed" .operator
      call.name))

/-- What the `__io` closure captures for one invocation. -/
structure Mux where
  registry : CapabilityRegistry
  allowed : List String
  maxOps : Nat
  allowPrivate : Bool
  fallback : Option Egress

def notAllowlisted (name : String) : DynamicFault :=
  ⟨"resource is not in the request's io allowlist", "RESOURCE_NOT_FOUND", false,
    .developer, name, none⟩

def opLimit (maxOps : Nat) : DynamicFault :=
  ⟨"too many operations: limit is " ++ toString maxOps ++ " per execution",
    "IO_OP_LIMIT", false, .developer, "engine", none⟩

/-- One `io.call`, with the operation count before and after it. -/
def Mux.ioCall (lib : MuxLib) (mux : Mux) (name action payload : String) (used : Nat) :
    FfiResult × Nat :=
  if !mux.allowed.contains name then (.tagged (notAllowlisted name), used)
  else if used ≥ mux.maxOps then (.tagged (opLimit mux.maxOps), used)
  else
    (mux.registry.dispatch lib
      ⟨name, action, payload, mux.allowPrivate, mux.fallback⟩, used + 1)

/-! ### Where a tag comes from -/

/-- The faults the mux makes itself. -/
inductive MuxFault (name : String) : DynamicFault → Prop where
  | notAllowlisted : MuxFault name (notAllowlisted name)
  | opLimit (maxOps : Nat) : MuxFault name (opLimit maxOps)
  | ssrfBlocked (message : String) : MuxFault name (ssrfBlock name message)
  | unavailable : MuxFault name (egressUnavailable name)
  | enforcementFailed : MuxFault name
      (deny "IO_ENFORCEMENT_FAILED" "capability enforcement failed" .operator name)

theorem callBackend_tagged (backend : Option Egress) (call : MuxCall)
    (fault : DynamicFault) (htag : callBackend backend call = some (.tagged fault)) :
    MuxFault call.name fault ∨
      ∃ egress err, backend = some egress ∧
        egress call.name call.action call.payload = some (.error err) ∧
        fault = err.toTag := by
  unfold callBackend at htag
  cases backend with
  | none =>
      simp only [Option.some.injEq, FfiResult.tagged.injEq] at htag
      exact .inl (htag ▸ .unavailable)
  | some egress =>
      cases hcall : egress call.name call.action call.payload with
      | none => simp [hcall] at htag
      | some answer =>
          cases answer with
          | ok text => simp [hcall] at htag
          | error err =>
              simp only [hcall, Option.some.injEq, FfiResult.tagged.injEq] at htag
              exact .inr ⟨egress, err, rfl, hcall, htag.symm⟩

/-- A tag the mux returns is its own, or the error of the one backend it
called. -/
theorem dispatch_tagged (lib : MuxLib) (registry : CapabilityRegistry) (call : MuxCall)
    (fault : DynamicFault) (htag : registry.dispatch lib call = .tagged fault) :
    MuxFault call.name fault ∨
      ∃ egress err, registry.backendFor call = some egress ∧
        egress call.name call.action call.payload = some (.error err) ∧
        fault = err.toTag := by
  unfold CapabilityRegistry.dispatch at htag
  cases hinner : registry.dispatchInner lib call with
  | none =>
      rw [hinner] at htag
      simp only [Option.getD_none, FfiResult.tagged.injEq] at htag
      exact .inl (htag ▸ .enforcementFailed)
  | some result =>
      rw [hinner] at htag
      simp only [Option.getD_some] at htag
      subst htag
      unfold CapabilityRegistry.dispatchInner at hinner
      split at hinner
      · split at hinner
        · cases hinner
        · simp only [Option.some.injEq, FfiResult.tagged.injEq] at hinner
          exact .inl (hinner ▸ .ssrfBlocked _)
        · exact callBackend_tagged _ call fault hinner
      · exact callBackend_tagged _ call fault hinner

theorem ioCall_tagged (lib : MuxLib) (mux : Mux) (name action payload : String)
    (used : Nat) (fault : DynamicFault)
    (htag : (mux.ioCall lib name action payload used).1 = .tagged fault) :
    MuxFault name fault ∨
      ∃ egress err, mux.registry.backendFor
          ⟨name, action, payload, mux.allowPrivate, mux.fallback⟩ = some egress ∧
        egress name action payload = some (.error err) ∧ fault = err.toTag := by
  unfold Mux.ioCall at htag
  split at htag
  · simp only [FfiResult.tagged.injEq] at htag
    exact .inl (htag ▸ .notAllowlisted)
  · split at htag
    · simp only [FfiResult.tagged.injEq] at htag
      exact .inl (htag ▸ .opLimit _)
    · exact dispatch_tagged lib mux.registry _ fault htag

end Runlet.Capability
