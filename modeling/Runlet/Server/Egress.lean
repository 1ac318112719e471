import Runlet.Core.Classify
import Runlet.Wire.Messages

/-!
The egress of the stock box: box-direct bindings (`local_io.rs`) in front of
an optional broker session (`broker.rs`). What the network did in one call is
a parameter; this module is about the errors the two paths build and how the
engine reads them when a script does not catch them.
-/

namespace Runlet.Egress

open Errors Capability Classify Wire

/-- How one box-direct POST ended. -/
inductive PostOutcome where
  | response (status : Nat) (text : Except String String)
  | failed (err : String)
  | elapsed

/-- How one broker round-trip ended. -/
inductive Roundtrip (Metrics : Type) where
  | answered (response : WireResponse Metrics)
  | ioError (err : String)
  | elapsed

variable {Metrics : Type}

/-- An error tagged to the calling name, retryable and owned by the operator:
`local_error` and `transport_error` are the same function. -/
def taggedError (name code message : String) : EgressError :=
  ((EgressError.new name code message).markRetryable).withOwner .operator

def localError (name code message : String) : EgressError := taggedError name code message

def transportError (source code message : String) : EgressError :=
  taggedError source code message

def callLocal (name : String) (post : PostOutcome) : Except EgressError String :=
  match post with
  | .response status (.ok text) =>
      if 200 ≤ status ∧ status < 300 then .ok text
      else .error (localError name "IO_LOCAL_HTTP"
        ("local endpoint returned HTTP " ++ toString status))
  | .response _ (.error err) =>
      .error (localError name "IO_TRANSPORT" ("box-direct read failed: " ++ err))
  | .failed err =>
      .error (localError name "IO_TRANSPORT" ("box-direct request failed: " ++ err))
  | .elapsed => .error (localError name "IO_TRANSPORT"
      "box-direct call exceeded the execution deadline")

def brokerCall (name : String) (outcome : Roundtrip Metrics) : Except EgressError String :=
  match outcome with
  | .answered (.reply result) => result
  | .answered (.protocolError message) =>
      .error (transportError name "IO_PROTOCOL" message)
  | .answered _ =>
      .error (transportError name "IO_PROTOCOL" "unexpected daemon response")
  | .ioError err => .error (transportError name "IO_TRANSPORT" err)
  | .elapsed => .error (transportError name "IO_TIMEOUT"
      "broker call exceeded the execution deadline")

/-- The per-request egress. `post` and `roundtrip` are the network. -/
structure BoxEgress (Metrics : Type) where
  localUrls : List (String × String)
  post : String → String → String → PostOutcome
  roundtrip : Option (WireCall → Roundtrip Metrics)

/-- A box-direct name resolves locally, anything else goes to the broker. -/
def BoxEgress.call (box : BoxEgress Metrics) (name action payload : String) :
    Except EgressError String :=
  match box.localUrls.lookup name with
  | some url => callLocal name (box.post url action payload)
  | none =>
      match box.roundtrip with
      | none => .error (localError name "EGRESS_UNAVAILABLE"
          "no broker session for a non-local resource")
      | some roundtrip => brokerCall name (roundtrip ⟨name, action, payload⟩)

def BoxEgress.asEgress (box : BoxEgress Metrics) : Egress :=
  fun name action payload => some (box.call name action payload)

/-- Every failure the box makes itself: by the mux, on the box-direct path or
on the broker path. An error the daemon replied with is not one of them. -/
inductive BoxFault (name : String) : DynamicFault → Prop where
  | mux (fault : DynamicFault) (made : MuxFault name fault) : BoxFault name fault
  | localStatus (status : Nat) : BoxFault name (localError name "IO_LOCAL_HTTP"
      ("local endpoint returned HTTP " ++ toString status)).toTag
  | localTransport (message : String) :
      BoxFault name (localError name "IO_TRANSPORT" message).toTag
  | noBroker : BoxFault name (localError name "EGRESS_UNAVAILABLE"
      "no broker session for a non-local resource").toTag
  | brokerProtocol (message : String) :
      BoxFault name (transportError name "IO_PROTOCOL" message).toTag
  | brokerTransport (message : String) :
      BoxFault name (transportError name "IO_TRANSPORT" message).toTag
  | brokerTimeout : BoxFault name (transportError name "IO_TIMEOUT"
      "broker call exceeded the execution deadline").toTag

theorem callLocal_error (name : String) (post : PostOutcome) (err : EgressError)
    (herr : callLocal name post = .error err) : BoxFault name err.toTag := by
  unfold callLocal at herr
  cases post with
  | response status text =>
      cases text with
      | ok body =>
          simp only at herr
          split at herr
          · cases herr
          · exact Except.error.inj herr ▸ .localStatus status
      | error read => exact Except.error.inj herr ▸ .localTransport _
  | failed err => exact Except.error.inj herr ▸ .localTransport _
  | elapsed => exact Except.error.inj herr ▸ .localTransport _

theorem brokerCall_error (name : String) (outcome : Roundtrip Metrics)
    (err : EgressError) (herr : brokerCall name outcome = .error err) :
    BoxFault name err.toTag ∨ outcome = .answered (.reply (.error err)) := by
  unfold brokerCall at herr
  cases outcome with
  | answered response =>
      cases response with
      | reply result =>
          simp only at herr
          exact .inr (by rw [herr])
      | protocolError message =>
          exact .inl (Except.error.inj herr ▸ .brokerProtocol message)
      | ack => exact .inl (Except.error.inj herr ▸ .brokerProtocol _)
      | initError code message => exact .inl (Except.error.inj herr ▸ .brokerProtocol _)
      | metrics drained => exact .inl (Except.error.inj herr ▸ .brokerProtocol _)
  | ioError message => exact .inl (Except.error.inj herr ▸ .brokerTransport message)
  | elapsed => exact .inl (Except.error.inj herr ▸ .brokerTimeout)

/-- The mux of the stock box has no registered capability: the per-request
egress is its only backend. -/
def stockMux (box : Option (BoxEgress Metrics)) (allowed : List String)
    (maxOps : Nat) (allowPrivate : Bool) : Mux :=
  ⟨⟨[], none⟩, allowed, maxOps, allowPrivate, box.map BoxEgress.asEgress⟩

/-- The error a daemon replied with, as a tag. -/
def RelayedError (box : Option (BoxEgress Metrics)) (name action payload : String)
    (fault : DynamicFault) : Prop :=
  ∃ box' roundtrip err, box = some box' ∧ box'.roundtrip = some roundtrip ∧
    roundtrip ⟨name, action, payload⟩ = .answered (.reply (.error err)) ∧ fault = err.toTag

/-- A tag a script can meet is one the box made, or the daemon's own error
relayed from its reply. -/
theorem stock_ioCall_tagged (lib : MuxLib) (box : Option (BoxEgress Metrics))
    (allowed : List String) (maxOps : Nat) (allowPrivate : Bool)
    (name action payload : String) (used : Nat) (fault : DynamicFault)
    (htag : ((stockMux box allowed maxOps allowPrivate).ioCall lib name action payload
      used).1 = .tagged fault) :
    BoxFault name fault ∨ RelayedError box name action payload fault := by
  rcases ioCall_tagged lib _ name action payload used fault htag with
    hmux | ⟨egress, err, hbackend, hcall, hfault⟩
  · exact .inl (.mux fault hmux)
  · have hegress : box.map BoxEgress.asEgress = some egress := by
      simpa [stockMux, CapabilityRegistry.backendFor] using hbackend
    obtain ⟨box', hbox, hasEgress⟩ := Option.map_eq_some_iff.mp hegress
    subst hasEgress
    have herr : box'.call name action payload = .error err := Option.some.inj hcall
    unfold BoxEgress.call at herr
    cases hurl : box'.localUrls.lookup name with
    | some url =>
        rw [hurl] at herr
        exact .inl (hfault ▸ callLocal_error name _ err herr)
    | none =>
        simp only [hurl] at herr
        cases hroundtrip : box'.roundtrip with
        | none =>
            simp only [hroundtrip] at herr
            exact .inl (hfault ▸ Except.error.inj herr ▸ .noBroker)
        | some roundtrip =>
            simp only [hroundtrip] at herr
            rcases brokerCall_error name _ err herr with hmade | hrelayed
            · exact .inl (hfault ▸ hmade)
            · exact .inr ⟨box', roundtrip, err, hbox, hroundtrip, hrelayed, hfault⟩

/-- The source of a failure the box makes is the operator's nickname, the
operation budget apart. -/
theorem BoxFault.source_eq {name : String} {fault : DynamicFault}
    (hfault : BoxFault name fault) :
    (fault.code ≠ "IO_OP_LIMIT" ∧ fault.source = name) ∨
      (fault.code = "IO_OP_LIMIT" ∧ fault.source = "engine") := by
  cases hfault with
  | mux fault made =>
      cases made with
      | opLimit maxOps => exact .inr ⟨rfl, rfl⟩
      | notAllowlisted =>
          exact .inl ⟨show "RESOURCE_NOT_FOUND" ≠ "IO_OP_LIMIT" by decide, rfl⟩
      | ssrfBlocked message =>
          exact .inl ⟨show "IO_SSRF_BLOCKED" ≠ "IO_OP_LIMIT" by decide, rfl⟩
      | unavailable =>
          exact .inl ⟨show "EGRESS_UNAVAILABLE" ≠ "IO_OP_LIMIT" by decide, rfl⟩
      | enforcementFailed =>
          exact .inl ⟨show "IO_ENFORCEMENT_FAILED" ≠ "IO_OP_LIMIT" by decide, rfl⟩
  | localStatus status =>
      exact .inl ⟨show "IO_LOCAL_HTTP" ≠ "IO_OP_LIMIT" by decide, rfl⟩
  | localTransport message =>
      exact .inl ⟨show "IO_TRANSPORT" ≠ "IO_OP_LIMIT" by decide, rfl⟩
  | noBroker => exact .inl ⟨show "EGRESS_UNAVAILABLE" ≠ "IO_OP_LIMIT" by decide, rfl⟩
  | brokerProtocol message =>
      exact .inl ⟨show "IO_PROTOCOL" ≠ "IO_OP_LIMIT" by decide, rfl⟩
  | brokerTransport message =>
      exact .inl ⟨show "IO_TRANSPORT" ≠ "IO_OP_LIMIT" by decide, rfl⟩
  | brokerTimeout => exact .inl ⟨show "IO_TIMEOUT" ≠ "IO_OP_LIMIT" by decide, rfl⟩

/-- Every tag a script can meet is a failure the box made, or the daemon's own error. And
the exact reach of the promise in the doc comments of `local_error` and
`transport_error`: a box-made failure that escapes keeps its code, owner and
retry hint exactly when no timeout was flagged and its nickname is one of the
source words of the engine (the operation budget always names the engine). -/
theorem escaped_failure_iff (numTruthy : String → Bool) (name : String)
    (fault : DynamicFault) :
    (∀ (lib : MuxLib) (box : Option (BoxEgress Metrics)) (allowed : List String)
        (maxOps : Nat) (allowPrivate : Bool) (action payload : String) (used : Nat),
      ((stockMux box allowed maxOps allowPrivate).ioCall lib name action payload used).1 =
        .tagged fault →
      BoxFault name fault ∨ RelayedError box name action payload fault) ∧
    (BoxFault name fault → ∀ (message : String) (tag : Json),
      unwrap numTruthy (dynamicFaultJson fault) = .thrown (.str message) tag →
      ∀ (timedOut : Bool) (limitMs : Nat) (stack : Option String),
        CarriedOver fault (classifyThrow timedOut limitMs
          (.object ⟨some message, stack, some tag⟩)) ↔
        timedOut = false ∧ (name ∈ knownSources ∨ fault.code = "IO_OP_LIMIT")) := by
  constructor
  · intro lib box allowed maxOps allowPrivate action payload used htag
    exact stock_ioCall_tagged lib box allowed maxOps allowPrivate name action payload used fault
      htag
  · intro hfault message tag hthrown timedOut limitMs stack
    rw [unwrap_dynamicFaultJson] at hthrown
    split at hthrown
    · cases hthrown
    · obtain ⟨-, rfl⟩ := Unwrapped.thrown.inj hthrown
      rw [carriedOver_iff]
      rcases hfault.source_eq with ⟨hcode, hsource⟩ | ⟨hcode, hsource⟩
      · simp [hsource, hcode]
      · have hknown : "engine" ∈ knownSources := by decide
        simp [hsource, hcode, hknown]

theorem escaped_failure_redis :
    CarriedOver (transportError "redis" "IO_TRANSPORT" "broken pipe").toTag
      (classifyThrow false 5000 (.object ⟨some "broken pipe", none,
        some (dynamicFaultJson
          (transportError "redis" "IO_TRANSPORT" "broken pipe").toTag)⟩)) :=
  ((@escaped_failure_iff Unit (fun _ => true) "redis" _).2
    (.brokerTransport "broken pipe") "broken pipe" _ (by rw [unwrap_dynamicFaultJson]; rfl)
    false 5000 none).mpr ⟨rfl, .inl (by decide)⟩

/-- A broker timeout on the resource `orders`: built retryable, it escapes as
a script error that is not. -/
theorem escaped_timeout_orders_is_script :
    BoxFault "orders" (transportError "orders" "IO_TIMEOUT"
      "broker call exceeded the execution deadline").toTag ∧
    (transportError "orders" "IO_TIMEOUT"
      "broker call exceeded the execution deadline").retryable = true ∧
    unwrap (fun _ => true) (dynamicFaultJson (transportError "orders" "IO_TIMEOUT"
      "broker call exceeded the execution deadline").toTag) =
      .thrown (.str "broker call exceeded the execution deadline")
        (dynamicFaultJson (transportError "orders" "IO_TIMEOUT"
          "broker call exceeded the execution deadline").toTag) ∧
    classifyThrow false 5000 (.object ⟨some "broker call exceeded the execution deadline",
      none, some (dynamicFaultJson (transportError "orders" "IO_TIMEOUT"
        "broker call exceeded the execution deadline").toTag)⟩) =
      .script "broker call exceeded the execution deadline" none ∧
    (EngineError.script "broker call exceeded the execution deadline" none).retryable
      false = false :=
  ⟨.brokerTimeout, rfl, by rw [unwrap_dynamicFaultJson]; rfl, rfl, rfl⟩

end Runlet.Egress
