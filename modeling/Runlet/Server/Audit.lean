import Runlet.Server.ContextBounds

/-!
The audit events of an invocation: `emit_denied` and `emit_executed` of
`telemetry.rs` with the `AuditBody` of `events.rs`. A gate that refuses writes
its audit reason and its answer separately; a finished execution emits its
usage and `allowed`. An invocation is an `/execute` request, a batch item or a
before/after phase, and what is said here is which of them are audited once
and under the code they answer. The detail of a denial is left out.
-/

namespace Runlet.Audit

open Batch Contexts Errors Execute Gates Identity JsonText Response Telemetry

variable {Key S3 Sys Meta Metrics Egress Effect LogEntry : Type}

/-! ### The events of an invocation -/

inductive AuditBody where
  | allowed
  | denied (reason : String)
  deriving DecidableEq

inductive EventBody (Meta : Type) where
  | usage (outcome : String) (metadata : Meta)
  | audit (body : AuditBody)

def emitDenied : Event S3 Sys → Option (EventBody Meta)
  | .denied reason => some (.audit (.denied reason))
  | _ => none

def emitExecuted (recorded : Recorded Meta) : List (EventBody Meta) :=
  [.usage recorded.outcome recorded.metadata, .audit .allowed]

/-- The denials along a trace and, when there was an execution, the events of
its account. -/
def emittedEvents (trace : List (Event S3 Sys)) (recorded : Option (Recorded Meta)) :
    List (EventBody Meta) :=
  trace.filterMap emitDenied ++ recorded.toList.flatMap emitExecuted

def EventBody.auditBody : EventBody Meta → Option AuditBody
  | .usage _ _ => none
  | .audit body => some body

def audits (events : List (EventBody Meta)) : List AuditBody :=
  events.filterMap EventBody.auditBody

/-- The engine was run. -/
def Ran (trace : List (Event S3 Sys)) : Prop := ∃ params, .executionStarted params ∈ trace

/-- One audit event: `allowed` exactly when the engine was run, and otherwise
`denied` under the error code of the answer. -/
structure Audited (events : List (EventBody Meta)) (ran : Prop) (code : Option String) :
    Prop where
  once : ∃ body, audits events = [body]
  allowed : audits events = [.allowed] ↔ ran
  denied : ¬ ran → ∃ reason, code = some reason ∧ audits events = [.denied reason]

def deniedReason : Event S3 Sys → Option String
  | .denied reason => some reason
  | _ => none

def deniedReasons (trace : List (Event S3 Sys)) : List String := trace.filterMap deniedReason

@[simp] theorem deniedReasons_nil : deniedReasons ([] : List (Event S3 Sys)) = [] := rfl

@[simp] theorem deniedReasons_append (first second : List (Event S3 Sys)) :
    deniedReasons (first ++ second) = deniedReasons first ++ deniedReasons second :=
  List.filterMap_append

@[simp] theorem deniedReasons_map_denied (reasons : List String) :
    deniedReasons (reasons.map (Event.denied : String → Event S3 Sys)) = reasons := by
  induction reasons with
  | nil => rfl
  | cons reason rest ih => exact congrArg (reason :: ·) ih

@[simp] theorem deniedReasons_released (guards : List Quota.QuotaGuard) :
    deniedReasons (guards.map (Event.quotaReleased : _ → Event S3 Sys)) = [] := by
  simp [deniedReasons, List.filterMap_eq_nil_iff, deniedReason]

theorem audits_emittedEvents (trace : List (Event S3 Sys)) (recorded : Option (Recorded Meta)) :
    audits (emittedEvents trace recorded) =
      (deniedReasons trace).map .denied ++ (recorded.map fun _ => .allowed).toList := by
  have hdenials : audits (trace.filterMap emitDenied : List (EventBody Meta)) =
      (deniedReasons trace).map .denied := by
    simp only [audits, deniedReasons, List.filterMap_filterMap, List.map_filterMap]
    congr 1
    funext event
    cases event <;> rfl
  have hexecuted : audits (recorded.toList.flatMap emitExecuted) =
      (recorded.map fun _ => AuditBody.allowed).toList := by
    cases recorded <;> rfl
  rw [← hdenials, ← hexecuted]
  exact List.filterMap_append

/-- An execution is audited when nothing along its trace was denied. -/
theorem audited_executed_iff (trace : List (Event S3 Sys)) (recorded : Recorded Meta)
    (code : Option String) (hran : Ran trace) :
    Audited (emittedEvents trace (some recorded)) (Ran trace) code ↔
      deniedReasons trace = [] := by
  have haudits := audits_emittedEvents trace (some recorded)
  constructor
  · intro h
    obtain ⟨body, hbody⟩ := h.once
    rw [haudits] at hbody
    cases hreasons : deniedReasons trace with
    | nil => rfl
    | cons reason rest => simp [hreasons] at hbody
  · intro hnone
    have hone : audits (emittedEvents trace (some recorded)) = [.allowed] := by
      rw [haudits, hnone]
      rfl
    exact ⟨⟨_, hone⟩, ⟨fun _ => hran, fun _ => hone⟩, fun hnot => absurd hran hnot⟩

/-- A refusal is audited when its one denial is under the code answered. -/
theorem audited_refused_iff (trace : List (Event S3 Sys)) (code : String)
    (hran : ¬ Ran trace) :
    Audited (emittedEvents trace (none : Option (Recorded Meta))) (Ran trace) (some code) ↔
      deniedReasons trace = [code] := by
  have haudits : audits (emittedEvents trace (none : Option (Recorded Meta))) =
      (deniedReasons trace).map .denied := by
    simpa using audits_emittedEvents trace (none : Option (Recorded Meta))
  constructor
  · intro h
    obtain ⟨reason, hreason, hone⟩ := h.denied hran
    cases hreason
    rw [haudits] at hone
    have hinjective : Function.Injective AuditBody.denied := fun _ _ h => AuditBody.denied.inj h
    exact List.map_injective_iff.mpr hinjective hone
  · intro hreasons
    have hone : audits (emittedEvents trace (none : Option (Recorded Meta))) =
        [.denied code] := by
      rw [haudits, hreasons]
      rfl
    refine ⟨⟨_, hone⟩, ?_, fun _ => ⟨code, rfl, hone⟩⟩
    rw [hone]
    exact iff_of_false (fun h => nomatch h) hran

/-! ### Pipelines -/

section Pipelines

variable {α β : Type}

/-- A part of an invocation in front of its execution: it does not run the
engine, and denies nothing when it passes. -/
structure Silent (p : Pipeline (Event S3 Sys) Rejection α) : Prop where
  unstarted : ¬ Ran p.trace
  quiet : ∀ value, p.result = .ok value → deniedReasons p.trace = []

/-- A part up to the execution: it runs the engine exactly when it returns,
and then it has denied nothing. -/
structure Settles (p : Pipeline (Event S3 Sys) Rejection α) : Prop where
  ran_iff : Ran p.trace ↔ ∃ value, p.result = .ok value
  quiet : ∀ value, p.result = .ok value → deniedReasons p.trace = []

/-- A refusal leaves one denial, under the code it answers. -/
def Coded (p : Pipeline (Event S3 Sys) Rejection α) : Prop :=
  ∀ rejection, p.result = .error rejection →
    deniedReasons p.trace = [rejection.envelope.code]

/-- A gate whose audit reason is the code it answers. -/
def OwnCode (checked : Except Rejection α) : Prop :=
  ∀ rejection, checked = .error rejection →
    rejection.auditReason = some rejection.envelope.code

theorem ran_append (first second : List (Event S3 Sys)) :
    Ran (first ++ second) ↔ Ran first ∨ Ran second := by
  simp only [Ran, List.mem_append, exists_or]

theorem Silent.settles_bind {p : Pipeline (Event S3 Sys) Rejection α}
    {next : α → Pipeline (Event S3 Sys) Rejection β} (hsilent : Silent p)
    (hnext : ∀ value, p.result = .ok value → Settles (next value)) :
    Settles (p >>= next) := by
  cases hresult : p.result with
  | error rejection =>
      rw [Pipeline.bind_error p next rejection hresult]
      exact ⟨iff_of_false hsilent.unstarted (fun h => nomatch h), fun _ h => nomatch h⟩
  | ok value =>
      have hsettles := hnext value hresult
      rw [Pipeline.bind_ok p next value hresult]
      constructor
      · rw [ran_append, ← hsettles.ran_iff]
        exact or_iff_right hsilent.unstarted
      · intro finished hfinished
        rw [deniedReasons_append, hsilent.quiet value hresult,
          hsettles.quiet finished hfinished]
        rfl

theorem Silent.coded_bind_iff {p : Pipeline (Event S3 Sys) Rejection α}
    {next : α → Pipeline (Event S3 Sys) Rejection β} (hsilent : Silent p) :
    Coded (p >>= next) ↔ Coded p ∧ ∀ value, p.result = .ok value → Coded (next value) := by
  unfold Coded
  cases hresult : p.result with
  | error rejection =>
      rw [Pipeline.bind_error p next rejection hresult]
      simp
  | ok value =>
      rw [Pipeline.bind_ok p next value hresult]
      simp [hsilent.quiet value hresult]

theorem settles_onExit {p : Pipeline (Event S3 Sys) Rejection α}
    (guards : List Quota.QuotaGuard) (h : Settles p) :
    Settles (p.onExit (guards.map .quotaReleased)) := by
  constructor
  · have hnot : ¬ Ran (guards.map (Event.quotaReleased : _ → Event S3 Sys)) := by
      simp [Ran]
    simp only [Pipeline.onExit, ran_append, or_iff_left hnot]
    exact h.ran_iff
  · intro value hvalue
    simp only [Pipeline.onExit, deniedReasons_append, deniedReasons_released,
      List.append_nil]
    exact h.quiet value hvalue

theorem coded_onExit_iff (p : Pipeline (Event S3 Sys) Rejection α)
    (guards : List Quota.QuotaGuard) :
    Coded (p.onExit (guards.map .quotaReleased)) ↔ Coded p := by
  simp [Coded, Pipeline.onExit]

/-- A refusal as the gates leave it: the denial, when there is one, and the
rejection. -/
theorem refused_silent (rejection : Rejection) :
    Silent (⟨rejection.auditReason.toList.map .denied, .error rejection⟩ :
      Pipeline (Event S3 Sys) Rejection α) := by
  refine ⟨?_, fun _ h => nomatch h⟩
  rintro ⟨params, hmem⟩
  simp at hmem

theorem refused_coded_iff (rejection : Rejection) :
    Coded (⟨rejection.auditReason.toList.map .denied, .error rejection⟩ :
      Pipeline (Event S3 Sys) Rejection α) ↔ OwnCode (.error rejection : Except _ α) := by
  simp only [Coded, OwnCode, Except.error.injEq, forall_eq', deniedReasons_map_denied]
  cases rejection.auditReason with
  | none => simp
  | some reason => simp

theorem gate_silent (checked : Except Rejection α) (passed : α → Event S3 Sys)
    (hpassed : ∀ value, isStart (passed value) = false ∧ deniedReason (passed value) = none) :
    Silent (gate checked passed) := by
  cases checked with
  | error rejection => exact refused_silent rejection
  | ok value =>
      constructor
      · rintro ⟨params, hmem⟩
        have hstart := (hpassed value).1
        rw [← List.mem_singleton.mp hmem] at hstart
        cases hstart
      · intro _ _
        simp [gate, deniedReasons, (hpassed value).2]

theorem gate_coded_iff (checked : Except Rejection α) (passed : α → Event S3 Sys) :
    Coded (gate checked passed) ↔ OwnCode checked := by
  cases checked with
  | error rejection => exact refused_coded_iff rejection
  | ok value => simp [Coded, gate, OwnCode]

/-- The rule every gate of the handlers is used with. -/
theorem coded_gate_bind_iff (checked : Except Rejection α) (passed : α → Event S3 Sys)
    (next : α → Pipeline (Event S3 Sys) Rejection β)
    (hpassed : ∀ value, isStart (passed value) = false ∧ deniedReason (passed value) = none) :
    Coded (gate checked passed >>= next) ↔
      OwnCode checked ∧ ∀ value, checked = .ok value → Coded (next value) := by
  rw [(gate_silent checked passed hpassed).coded_bind_iff, gate_coded_iff]
  cases checked with
  | error rejection => simp [gate]
  | ok value => simp [gate]

theorem settles_gate_bind (checked : Except Rejection α) (passed : α → Event S3 Sys)
    (next : α → Pipeline (Event S3 Sys) Rejection β)
    (hpassed : ∀ value, isStart (passed value) = false ∧ deniedReason (passed value) = none)
    (hnext : ∀ value, Settles (next value)) : Settles (gate checked passed >>= next) :=
  (gate_silent checked passed hpassed).settles_bind fun value _ => hnext value

/-- Where the engine is run, the rest cannot fail. -/
theorem started_settles (params : ExecuteBlocking S3 Sys)
    (next : Unit → Pipeline (Event S3 Sys) Rejection α) (value : α)
    (hresult : (next ()).result = .ok value) (hquiet : deniedReasons (next ()).trace = []) :
    Settles (Pipeline.emit (.executionStarted params) >>= next) := by
  rw [Pipeline.bind_ok _ next () rfl]
  constructor
  · exact iff_of_true ⟨params, List.mem_cons_self⟩ ⟨value, hresult⟩
  · intro _ _
    rw [deniedReasons_append, hquiet]
    rfl

theorem require_silent (checked : Except Rejection α) :
    Silent (require checked : Pipeline (Event S3 Sys) Rejection α) := by
  cases checked with
  | error rejection => exact refused_silent rejection
  | ok value =>
      refine ⟨?_, fun _ _ => rfl⟩
      rintro ⟨params, hmem⟩
      cases hmem

theorem require_coded_iff (checked : Except Rejection α) :
    Coded (require checked : Pipeline (Event S3 Sys) Rejection α) ↔ OwnCode checked := by
  cases checked with
  | error rejection => exact refused_coded_iff rejection
  | ok value => simp [Coded, require, OwnCode, pure]

/-- What a whole invocation emits is as it should be exactly when its refusal,
if it is refused, is audited under its own code. -/
theorem Settles.audited_iff {p : Pipeline (Event S3 Sys) Rejection α} (h : Settles p)
    (record : α → Recorded Meta) (code : Option String)
    (hcode : ∀ rejection, p.result = .error rejection → code = some rejection.envelope.code) :
    Audited (emittedEvents p.trace (p.result.toOption.map record)) (Ran p.trace) code ↔
      Coded p := by
  unfold Coded
  cases hresult : p.result with
  | ok value =>
      simp only [Except.toOption, Option.map_some]
      rw [audited_executed_iff _ _ _ (h.ran_iff.mpr ⟨value, hresult⟩)]
      simp [h.quiet value hresult]
  | error rejection =>
      have hran : ¬ Ran p.trace := by
        rw [h.ran_iff, hresult]
        rintro ⟨value, hvalue⟩
        cases hvalue
      simp only [Except.toOption, Option.map_none, hcode rejection hresult]
      rw [audited_refused_iff _ _ hran]
      simp

end Pipelines

/-! ### The gates -/

theorem ownCode_ok {α : Type} (value : α) : OwnCode (.ok value : Except Rejection α) :=
  fun _ h => nomatch h

theorem ownCode_denyIdentity {α : Type} (code message : String) :
    OwnCode (.error (denyIdentity code message) : Except Rejection α) := by
  intro rejection h
  cases h
  rfl

theorem enforceMemberAuthz_ownCode (trusted : Option (TrustedRuntime Key))
    (identity : Option TrustedIdentity) (config : RequestConfig S3 Sys) :
    OwnCode (enforceMemberAuthz trusted identity config) := by
  unfold enforceMemberAuthz
  split
  · split
    · exact ownCode_ok _
    · exact ownCode_denyIdentity _ _
  · exact ownCode_ok _

theorem enforceQuota_ownCode (trusted : Option (TrustedRuntime Key))
    (identity : Option TrustedIdentity) (table : Quota.Inflight) :
    OwnCode (enforceQuota trusted identity table).1 := by
  unfold enforceQuota
  split
  · split
    · split
      · exact ownCode_ok _
      · intro rejection h
        cases h
        rfl
    · exact ownCode_ok _
  · exact ownCode_ok _

theorem admitClaims_ownCode (headers : HeaderMap) (names : TrustedHeaders)
    (claims : VerifiedClaims) : OwnCode (admitClaims headers names claims) := by
  simp only [admitClaims]
  split
  · exact ownCode_denyIdentity _ _
  · exact ownCode_denyIdentity _ _
  · split
    · exact ownCode_denyIdentity _ _
    · exact ownCode_ok _

theorem resolveIdentityContract_ownCode (trusted : TrustedRuntime Key)
    (verifier : ContractVerifier Key) (cache : KeyCache Key) (headers : HeaderMap) :
    OwnCode (resolveIdentityContract trusted verifier cache headers).1 := by
  unfold resolveIdentityContract
  split
  · exact ownCode_denyIdentity _ _
  · split
    · exact ownCode_denyIdentity _ _
    · exact admitClaims_ownCode _ _ _

theorem resolveIdentityHeaders_ownCode (trusted : TrustedRuntime Key) (headers : HeaderMap) :
    OwnCode (resolveIdentityHeaders trusted headers) := by
  simp only [resolveIdentityHeaders]
  split
  · exact ownCode_denyIdentity _ _
  · split
    · exact ownCode_denyIdentity _ _
    · split
      · exact ownCode_denyIdentity _ _
      · split
        · exact ownCode_denyIdentity _ _
        · exact ownCode_ok _

theorem finishIdentity_ownCode (trusted : TrustedRuntime Key)
    (resolved : Except Rejection TrustedIdentity) (h : OwnCode resolved) :
    OwnCode (finishIdentity trusted resolved) := by
  cases resolved with
  | error rejection =>
      intro other hother
      cases hother
      exact h rejection rfl
  | ok identity =>
      simp only [finishIdentity, enforcePrincipalKindAdmission]
      split
      · rename_i rejection hrejected
        split at hrejected
        · cases hrejected
        · cases hrejected
          exact ownCode_denyIdentity _ _
      · exact ownCode_ok _

/-- Every refusal of an identity is audited under the code it answers. -/
theorem resolveIdentity_ownCode (trusted : Option (TrustedRuntime Key))
    (cache : KeyCache Key) (headers : HeaderMap) :
    OwnCode (resolveIdentity trusted cache headers).1 := by
  unfold resolveIdentity
  split
  · exact ownCode_ok _
  · split
    · exact finishIdentity_ownCode _ _ (resolveIdentityContract_ownCode _ _ _ _)
    · exact finishIdentity_ownCode _ _ (resolveIdentityHeaders_ownCode _ _)

theorem parsePayload_ownCode (payload : Option (ExecRequest S3 Sys)) :
    OwnCode (parsePayload payload) := by
  cases payload with
  | none =>
      intro rejection h
      cases h
      rfl
  | some request => exact ownCode_ok _

theorem itemContext_ownCode (codec : Codec) (context : String) (shared : Option String) :
    OwnCode (itemContext codec context shared) := by
  unfold itemContext
  split
  · exact ownCode_ok _
  · split
    · exact ownCode_ok _
    · intro rejection h
      cases h
      rfl

/-- Naming the script twice or not at all is audited as a script that was not
found. -/
theorem resolveScript_ownCode_iff (script key : Option String)
    (registry : List (String × String)) :
    OwnCode (resolveScript script key registry) ↔ script.isSome ≠ key.isSome := by
  cases script with
  | none =>
      cases key with
      | none => simp [OwnCode, resolveScript, requestError, ErrorEnvelope.new,
          ErrorEnvelope.withMessage]
      | some requested =>
          cases hlookup : registry.lookup requested with
          | none => simp [OwnCode, resolveScript, hlookup, requestError, ErrorEnvelope.new,
              ErrorEnvelope.withMessage]
          | some source => simp [OwnCode, resolveScript, hlookup]
  | some source =>
      cases key with
      | none => simp [OwnCode, resolveScript]
      | some requested => simp [OwnCode, resolveScript, requestError, ErrorEnvelope.new,
          ErrorEnvelope.withMessage]

/-- Both sizes are audited under one reason, which is neither of their codes. -/
theorem validateInputSizes_ownCode_iff (scriptBytes contextBytes maxScript maxContext : Nat) :
    OwnCode (validateInputSizes scriptBytes contextBytes maxScript maxContext) ↔
      scriptBytes ≤ maxScript ∧ contextBytes ≤ maxContext := by
  unfold validateInputSizes
  split
  · rename_i hscript
    have hnot : ¬ (scriptBytes ≤ maxScript ∧ contextBytes ≤ maxContext) := by omega
    simp [OwnCode, requestError, ErrorEnvelope.new, ErrorEnvelope.withMessage, hnot]
  · split
    · rename_i hcontext
      have hnot : ¬ (scriptBytes ≤ maxScript ∧ contextBytes ≤ maxContext) := by omega
      simp [OwnCode, requestError, ErrorEnvelope.new, ErrorEnvelope.withMessage, hnot]
    · have hboth : scriptBytes ≤ maxScript ∧ contextBytes ≤ maxContext := by omega
      simp [OwnCode, hboth]

/-- A shed by the partition is audited as one by the bulkhead. -/
theorem admitPermits_ownCode_iff (hash : String → Nat) (permits : Permits)
    (partition : Option String) :
    OwnCode (admitPermits hash permits partition).1 ↔
      (acquirePermits hash permits partition).1 ≠ .partitionBusy := by
  unfold admitPermits
  split
  · rename_i hacquired
    simp [OwnCode, hacquired]
  · rename_i hacquired
    simp [OwnCode, hacquired, partitionOverloadedEnvelope, ErrorEnvelope.new,
      ErrorEnvelope.withMessage]
  · rename_i hacquired
    simp [OwnCode, hacquired, overloadedEnvelope, ErrorEnvelope.new,
      ErrorEnvelope.withMessage]

/-- Every broker error is audited as an unavailable broker. -/
def isUnavailable : SessionError → Bool
  | .unavailable _ => true
  | .resolve code _ => code == "EGRESS_UNAVAILABLE"
  | .protocol _ => false

theorem sessionErrorEnvelope_code_iff (err : SessionError) :
    (sessionErrorEnvelope err).code = "EGRESS_UNAVAILABLE" ↔ isUnavailable err = true := by
  cases err with
  | unavailable message => simp [sessionErrorEnvelope, isUnavailable, ErrorEnvelope.new,
      ErrorEnvelope.withMessage]
  | resolve code message => simp [sessionErrorEnvelope, isUnavailable, requestError,
      ErrorEnvelope.new, ErrorEnvelope.withMessage]
  | protocol raw => simp [sessionErrorEnvelope, isUnavailable, ErrorEnvelope.new,
      ErrorEnvelope.withMessage]

section Handlers

variable {Result : Type} (state : AppState Key) (env : Env Key S3 Sys Result)
  (identity : Option TrustedIdentity) (partition : Option String)

/-- When the broker is asked for a session and refuses, it is for being
unavailable. -/
def SessionCoded (io : List String) : Prop :=
  ∀ err, brokerNames io state.localResources ≠ [] →
    connectSession state.transport env.handshake (sessionInit state identity io) =
      .error err →
    isUnavailable err = true

theorem openSession_silent (io : List String) : Silent (openSession state env identity io) := by
  refine ⟨?_, ?_⟩
  · rintro ⟨params, hmem⟩
    exact openSession_not_started state env identity io params hmem
  · intro session hsession
    obtain ⟨_, heq⟩ | ⟨_, opened, _, heq⟩ | ⟨_, err, _, heq⟩ :=
      openSession_cases state env identity io
    · rw [heq]
      rfl
    · rw [heq]
      rfl
    · rw [heq] at hsession
      cases hsession

theorem openSession_coded_iff (io : List String) :
    Coded (openSession state env identity io) ↔ SessionCoded state env identity io := by
  unfold Coded SessionCoded
  obtain ⟨hnames, heq⟩ | ⟨_, opened, hconnect, heq⟩ | ⟨hnames, err, hconnect, heq⟩ :=
    openSession_cases state env identity io
  · simp [heq, hnames]
  · simp [heq, hconnect]
  · have hreasons : deniedReasons
        (⟨[.sessionOpened (sessionInit state identity io), .denied "EGRESS_UNAVAILABLE"],
          .error ⟨sessionErrorEnvelope err, some "EGRESS_UNAVAILABLE"⟩⟩ :
          Pipeline (Event S3 Sys) Rejection (Option Wire.WireInit)).trace =
        ["EGRESS_UNAVAILABLE"] := rfl
    simp only [heq, hconnect, hreasons, Except.error.injEq, forall_eq', ne_eq, hnames,
      not_false_eq_true, forall_true_left, ← sessionErrorEnvelope_code_iff]
    simp [eq_comm]

/-- Exactly one of `script` and `key` is there, and the texts are within their
limits. -/
structure InputsCoded (script key : Option String) (context : String) : Prop where
  named : script.isSome ≠ key.isSome
  sized : ∀ source, resolveScript script key state.registry = .ok source →
    source.asStr.utf8ByteSize ≤ state.maxScriptSize ∧
      context.utf8ByteSize ≤ state.maxContextSize

/-- The gates in front of the session pass only with a session that is coded. -/
def GrantedCoded (config : RequestConfig S3 Sys) : Prop :=
  enforceMemberAuthz state.trusted identity config = .ok () →
    (∃ held, (enforceQuota state.trusted identity env.inflight).1 = .ok held) →
    SessionCoded state env identity config.io

theorem runGated_settles (source : ScriptSource) (contextJson : String)
    (config : RequestConfig S3 Sys) :
    Settles (runGated state env identity partition source contextJson config) := by
  apply settles_gate_bind _ _ _ (fun _ => ⟨rfl, rfl⟩)
  intro _
  apply settles_gate_bind _ _ _ (fun _ => ⟨rfl, rfl⟩)
  intro held
  apply settles_onExit
  apply (openSession_silent state env identity config.io).settles_bind
  intro session _
  exact started_settles _ _ _ rfl rfl

theorem runGated_coded_iff (source : ScriptSource) (contextJson : String)
    (config : RequestConfig S3 Sys) :
    Coded (runGated state env identity partition source contextJson config) ↔
      GrantedCoded state env identity config := by
  have hsession : Coded (openSession state env identity config.io >>= fun session => do
      Pipeline.emit (.executionStarted
        (itemParams state identity partition session source contextJson config))
      pure (env.engine
        (itemParams state identity partition session source contextJson config))) ↔
      SessionCoded state env identity config.io := by
    rw [(openSession_silent state env identity config.io).coded_bind_iff,
      openSession_coded_iff]
    apply and_iff_left
    rintro session _ rejection hrejected
    cases hrejected
  unfold runGated batchItemAuthz batchItemQuota
  rw [coded_gate_bind_iff _ _ _ (fun _ => ⟨rfl, rfl⟩)]
  simp only [enforceMemberAuthz_ownCode, true_and]
  constructor
  · rintro h hauthz ⟨held, hheld⟩
    have hquota := (coded_gate_bind_iff _ _ _ (fun _ => ⟨rfl, rfl⟩)).mp (h () hauthz)
    exact hsession.mp ((coded_onExit_iff _ _).mp (hquota.2 held hheld))
  · intro h _ hauthz
    rw [coded_gate_bind_iff _ _ _ (fun _ => ⟨rfl, rfl⟩)]
    refine ⟨enforceQuota_ownCode _ _ _, ?_⟩
    intro held hheld
    exact (coded_onExit_iff _ _).mpr (hsession.mpr (h hauthz ⟨held, hheld⟩))

theorem validateInputSizes_of_le (scriptBytes contextBytes maxScript maxContext : Nat)
    (hscript : scriptBytes ≤ maxScript) (hcontext : contextBytes ≤ maxContext) :
    validateInputSizes scriptBytes contextBytes maxScript maxContext = .ok () := by
  simp [validateInputSizes, Nat.not_lt.mpr hscript, Nat.not_lt.mpr hcontext]

/-- The script and the sizes of an invocation, then the rest. -/
def withInputs {α : Type} (script key : Option String) (context : String)
    (next : ScriptSource → Pipeline (Event S3 Sys) Rejection α) :
    Pipeline (Event S3 Sys) Rejection α := do
  let source ← gate (resolveScript script key state.registry) fun _ => .scriptResolved
  let scriptBytes := source.asStr.utf8ByteSize
  let contextBytes := context.utf8ByteSize
  gate (validateInputSizes scriptBytes contextBytes state.maxScriptSize state.maxContextSize)
    fun _ => .inputSizesChecked scriptBytes contextBytes
  next source

theorem withInputs_settles {α : Type} (script key : Option String) (context : String)
    (next : ScriptSource → Pipeline (Event S3 Sys) Rejection α)
    (hnext : ∀ source, Settles (next source)) :
    Settles (withInputs state script key context next) := by
  apply settles_gate_bind _ _ _ (fun _ => ⟨rfl, rfl⟩)
  intro source
  exact settles_gate_bind _ _ _ (fun _ => ⟨rfl, rfl⟩) fun _ => hnext source

theorem withInputs_coded_iff {α : Type} (script key : Option String) (context : String)
    (next : ScriptSource → Pipeline (Event S3 Sys) Rejection α) :
    Coded (withInputs state script key context next) ↔
      InputsCoded state script key context ∧
        ∀ source, resolveScript script key state.registry = .ok source →
          Coded (next source) := by
  unfold withInputs
  rw [coded_gate_bind_iff _ _ _ (fun _ => ⟨rfl, rfl⟩), resolveScript_ownCode_iff]
  constructor
  · rintro ⟨hnamed, hrest⟩
    have hgates : ∀ source, resolveScript script key state.registry = .ok source →
        (source.asStr.utf8ByteSize ≤ state.maxScriptSize ∧
          context.utf8ByteSize ≤ state.maxContextSize) ∧ Coded (next source) := by
      intro source hsource
      obtain ⟨hown, hcoded⟩ :=
        (coded_gate_bind_iff _ _ _ (fun _ => ⟨rfl, rfl⟩)).mp (hrest source hsource)
      have hsized := (validateInputSizes_ownCode_iff _ _ _ _).mp hown
      exact ⟨hsized, hcoded () (validateInputSizes_of_le _ _ _ _ hsized.1 hsized.2)⟩
    exact ⟨⟨hnamed, fun source hsource => (hgates source hsource).1⟩,
      fun source hsource => (hgates source hsource).2⟩
  · rintro ⟨hinputs, hnext⟩
    refine ⟨hinputs.named, ?_⟩
    intro source hsource
    rw [coded_gate_bind_iff _ _ _ (fun _ => ⟨rfl, rfl⟩), validateInputSizes_ownCode_iff]
    exact ⟨hinputs.sized source hsource, fun _ _ => hnext source hsource⟩

/-- The gates a batch item meets, in order. -/
structure ItemCoded (codec : Codec) (item : BatchItem S3 Sys) (shared : Option String) :
    Prop where
  inputs : InputsCoded state item.script item.key item.context
  granted : (∃ source, resolveScript item.script item.key state.registry = .ok source) →
    (∃ contextJson, itemContext codec item.context shared = .ok contextJson) →
    GrantedCoded state env identity item.config

theorem runBatchItem_settles (codec : Codec) (item : BatchItem S3 Sys)
    (shared : Option String) :
    Settles (runBatchItem state env identity partition codec item shared) := by
  apply withInputs_settles state item.script item.key item.context
  intro source
  apply (require_silent _).settles_bind
  intro contextJson _
  exact runGated_settles state env identity partition source contextJson item.config

theorem runBatchItem_coded_iff (codec : Codec) (item : BatchItem S3 Sys)
    (shared : Option String) :
    Coded (runBatchItem state env identity partition codec item shared) ↔
      ItemCoded state env identity codec item shared := by
  have hrest : ∀ source, Coded (require (itemContext codec item.context shared) >>=
      fun contextJson => runGated state env identity partition source contextJson
        item.config) ↔
      ((∃ contextJson, itemContext codec item.context shared = .ok contextJson) →
        GrantedCoded state env identity item.config) := by
    intro source
    rw [(require_silent _).coded_bind_iff, require_coded_iff]
    simp only [itemContext_ownCode, true_and, runGated_coded_iff]
    cases itemContext codec item.context shared with
    | error rejection => simp [require]
    | ok contextJson => simp [require, pure]
  have hcoded := withInputs_coded_iff state item.script item.key item.context fun source =>
    require (itemContext codec item.context shared) >>= fun contextJson =>
      runGated state env identity partition source contextJson item.config
  simp only [hrest] at hcoded
  refine hcoded.trans ⟨?_, ?_⟩
  · rintro ⟨hinputs, hgranted⟩
    refine ⟨hinputs, ?_⟩
    rintro ⟨source, hsource⟩
    exact hgranted source hsource
  · intro h
    exact ⟨h.inputs, fun source hsource => h.granted ⟨source, hsource⟩⟩

/-- The gates a phase meets, in order. -/
structure PhaseCoded (item : BatchItem S3 Sys) (contextJson : String) : Prop where
  inputs : InputsCoded state item.script item.key contextJson
  granted : (∃ source, resolveScript item.script item.key state.registry = .ok source) →
    GrantedCoded state env identity item.config

theorem runLifecyclePhase_settles (item : BatchItem S3 Sys) (contextJson : String) :
    Settles (runLifecyclePhase state env identity partition item contextJson) := by
  apply withInputs_settles state item.script item.key contextJson
  intro source
  exact runGated_settles state env identity partition source contextJson item.config

theorem runLifecyclePhase_coded_iff (item : BatchItem S3 Sys) (contextJson : String) :
    Coded (runLifecyclePhase state env identity partition item contextJson) ↔
      PhaseCoded state env identity item contextJson := by
  have hcoded := withInputs_coded_iff state item.script item.key contextJson fun source =>
    runGated state env identity partition source contextJson item.config
  simp only [runGated_coded_iff] at hcoded
  refine hcoded.trans ⟨?_, ?_⟩
  · rintro ⟨hinputs, hgranted⟩
    refine ⟨hinputs, ?_⟩
    rintro ⟨source, hsource⟩
    exact hgranted source hsource
  · intro h
    exact ⟨h.inputs, fun source hsource => h.granted ⟨source, hsource⟩⟩

/-- The gates of `/execute` behind the authorization, in order. -/
structure RequestCoded (request : ExecRequest S3 Sys) : Prop where
  inputs : InputsCoded state request.script request.key request.context
  session : (∃ source, resolveScript request.script request.key state.registry = .ok source) →
    (∃ held, (enforceQuota state.trusted identity env.inflight).1 = .ok held) →
    SessionCoded state env identity request.config.io
  permits : (∃ source, resolveScript request.script request.key state.registry = .ok source) →
    (∃ held, (enforceQuota state.trusted identity env.inflight).1 = .ok held) →
    (∃ session, (openSession state env identity request.config.io).result = .ok session) →
    (acquirePermits state.hash env.permits partition).1 ≠ .partitionBusy

theorem runAdmitted_settles (source : ScriptSource) (request : ExecRequest S3 Sys) :
    Settles (runAdmitted state env identity partition source request) := by
  apply (openSession_silent state env identity request.config.io).settles_bind
  intro session _
  apply settles_gate_bind _ _ _ (fun _ => ⟨rfl, rfl⟩)
  intro _
  exact started_settles _ _ _ rfl rfl

theorem runAdmitted_coded_iff (source : ScriptSource) (request : ExecRequest S3 Sys) :
    Coded (runAdmitted state env identity partition source request) ↔
      SessionCoded state env identity request.config.io ∧
        ((∃ session,
            (openSession state env identity request.config.io).result = .ok session) →
          (acquirePermits state.hash env.permits partition).1 ≠ .partitionBusy) := by
  unfold runAdmitted
  rw [(openSession_silent state env identity request.config.io).coded_bind_iff,
    openSession_coded_iff]
  refine and_congr_right fun _ => ⟨?_, ?_⟩
  · rintro h ⟨session, hsession⟩
    have hpermits := (coded_gate_bind_iff _ _ _ (fun _ => ⟨rfl, rfl⟩)).mp (h session hsession)
    exact (admitPermits_ownCode_iff _ _ _).mp hpermits.1
  · intro h session hsession
    rw [coded_gate_bind_iff _ _ _ (fun _ => ⟨rfl, rfl⟩), admitPermits_ownCode_iff]
    refine ⟨h ⟨session, hsession⟩, ?_⟩
    rintro _ _ rejection hrejected
    cases hrejected

theorem runExecute_settles (headers : HeaderMap) (payload : Option (ExecRequest S3 Sys)) :
    Settles (runExecute state env headers payload) := by
  apply settles_gate_bind _ _ _ (fun _ => ⟨rfl, rfl⟩)
  intro _
  apply settles_gate_bind _ _ _ (fun _ => ⟨rfl, rfl⟩)
  intro identity
  apply settles_gate_bind _ _ _ (fun _ => ⟨rfl, rfl⟩)
  intro request
  apply settles_gate_bind _ _ _ (fun _ => ⟨rfl, rfl⟩)
  intro _
  apply withInputs_settles state request.script request.key request.context
  intro source
  apply settles_gate_bind _ _ _ (fun _ => ⟨rfl, rfl⟩)
  intro held
  exact settles_onExit _ (runAdmitted_settles state env identity _ source request)

/-- Which `/execute` requests behind the credential check are refused under
their own code. -/
def ExecuteCoded (headers : HeaderMap) (payload : Option (ExecRequest S3 Sys)) : Prop :=
  ∀ identity request, (resolveIdentity state.trusted env.cache headers).1 = .ok identity →
    payload = some request →
    enforceMemberAuthz state.trusted identity request.config = .ok () →
    RequestCoded state env identity
      (resolvePartition identity ((headerPartition headers).or request.partition)) request

/-- The part behind the authorization. -/
theorem executeInputs_coded_iff (request : ExecRequest S3 Sys) :
    Coded (withInputs state request.script request.key request.context fun source => do
      let held ← gate (enforceQuota state.trusted identity env.inflight).1 .quotaAdmitted
      (runAdmitted state env identity partition source request).onExit
        (held.toList.map .quotaReleased)) ↔
      RequestCoded state env identity partition request := by
  rw [withInputs_coded_iff]
  constructor
  · rintro ⟨hinputs, hrest⟩
    have hadmitted : ∀ source held,
        resolveScript request.script request.key state.registry = .ok source →
        (enforceQuota state.trusted identity env.inflight).1 = .ok held →
        Coded (runAdmitted state env identity partition source request) := by
      intro source held hsource hheld
      have hquota := (coded_gate_bind_iff _ _ _ (fun _ => ⟨rfl, rfl⟩)).mp
        (hrest source hsource)
      exact (coded_onExit_iff _ _).mp (hquota.2 held hheld)
    simp only [runAdmitted_coded_iff] at hadmitted
    refine ⟨hinputs, ?_, ?_⟩
    · rintro ⟨source, hsource⟩ ⟨held, hheld⟩
      exact (hadmitted source held hsource hheld).1
    · rintro ⟨source, hsource⟩ ⟨held, hheld⟩
      exact (hadmitted source held hsource hheld).2
  · intro h
    refine ⟨h.inputs, ?_⟩
    intro source hsource
    rw [coded_gate_bind_iff _ _ _ (fun _ => ⟨rfl, rfl⟩)]
    refine ⟨enforceQuota_ownCode _ _ _, ?_⟩
    intro held hheld
    rw [coded_onExit_iff, runAdmitted_coded_iff]
    exact ⟨h.session ⟨source, hsource⟩ ⟨held, hheld⟩,
      h.permits ⟨source, hsource⟩ ⟨held, hheld⟩⟩

theorem runExecute_coded_iff (headers : HeaderMap) (payload : Option (ExecRequest S3 Sys))
    (hauth : enforceAuth state.accessToken headers = .ok ()) :
    Coded (runExecute state env headers payload) ↔ ExecuteCoded state env headers payload := by
  unfold runExecute
  constructor
  · rintro h identity request hidentity rfl hauthz
    have hcredential := (coded_gate_bind_iff _ _ _ (fun _ => ⟨rfl, rfl⟩)).mp h
    have hidentified := (coded_gate_bind_iff _ _ _ (fun _ => ⟨rfl, rfl⟩)).mp
      (hcredential.2 () hauth)
    have hparsed := (coded_gate_bind_iff _ _ _ (fun _ => ⟨rfl, rfl⟩)).mp
      (hidentified.2 identity hidentity)
    have hauthorized := (coded_gate_bind_iff _ _ _ (fun _ => ⟨rfl, rfl⟩)).mp
      (hparsed.2 request rfl)
    exact (executeInputs_coded_iff state env identity _ request).mp
      (hauthorized.2 () hauthz)
  · intro h
    rw [coded_gate_bind_iff _ _ _ (fun _ => ⟨rfl, rfl⟩)]
    refine ⟨hauth ▸ ownCode_ok (), fun _ _ => ?_⟩
    rw [coded_gate_bind_iff _ _ _ (fun _ => ⟨rfl, rfl⟩)]
    refine ⟨resolveIdentity_ownCode _ _ _, fun identity hidentity => ?_⟩
    rw [coded_gate_bind_iff _ _ _ (fun _ => ⟨rfl, rfl⟩)]
    refine ⟨parsePayload_ownCode payload, fun request hrequest => ?_⟩
    have hpayload : payload = some request := by
      cases payload with
      | none => cases hrequest
      | some sent => cases hrequest; rfl
    rw [coded_gate_bind_iff _ _ _ (fun _ => ⟨rfl, rfl⟩)]
    refine ⟨enforceMemberAuthz_ownCode _ _ _, fun _ hauthz => ?_⟩
    exact (executeInputs_coded_iff state env identity _ request).mpr
      (h identity request hidentity hpayload hauthz)

end Handlers

/-! ### Whole requests -/

def errorCode (error : ErrorMember) : Option String := (systemError error).map (·.code)

section Requests

variable (box : BatchBox Key Meta Metrics Egress)
  (world : BatchWorld Key S3 Sys (ExecResult Metrics Egress Effect LogEntry))
  (env : Env Key S3 Sys (ExecResult Metrics Egress Effect LogEntry))
  (identity : Option TrustedIdentity) (partition : Option String)

/-- One `/execute` request; `identity` is the resolved one. -/
def ExecuteAudited (headers : HeaderMap) (payload : Option (ExecRequest S3 Sys)) : Prop :=
  let run := runExecute box.state env headers payload
  let record := fun result => (buildResponse box.withMetrics box.codec.toReader box.cfg identity
    box.baseMeta result).1
  Audited (emittedEvents run.trace (run.result.toOption.map record)) (Ran run.trace)
    (errorCode (executeResponse box.codec.toReader box.cfg box.withMetrics box.state env
      identity headers payload box.baseMeta).error)

/-- One fanned-out item whose task completes. -/
def ItemAudited (shared : Option String) (index : Nat) (item : BatchItem S3 Sys) : Prop :=
  let run := runItem box world identity partition shared index item
  let record := fun result => (renderExecutedItem box.withMetrics box.codec.toReader box.cfg
    item.id box.baseMeta result).1
  Audited (emittedEvents run.trace (run.result.toOption.map record)) (Ran run.trace)
    (errorCode (renderItem box.codec.toReader box.cfg box.withMetrics item.id box.baseMeta
      run.result).body.error)

def phaseRecord (result : ExecResult Metrics Egress Effect LogEntry) : Recorded Meta :=
  (lifecycleOutcome box.withMetrics box.codec.toReader box.cfg box.baseMeta result).1

/-- The `before` phase, up to its barrier response. -/
def BeforeAudited (item : BatchItem S3 Sys) (seed : Option String) : Prop :=
  let barrier := runBeforePhase box world identity partition (some item) seed
  let phase := runLifecyclePhase box.state world.before identity partition item item.context
  Audited (emittedEvents barrier.1 (phase.result.toOption.map (phaseRecord box)))
    (Ran barrier.1)
    (match barrier.2 with
      | .error envelope => some envelope.code
      | .ok _ => none)

/-- The `after` phase, up to its summary. -/
def AfterAudited (item : BatchItem S3 Sys) (results : List (ItemEnvelope Meta))
    (shared : Option String) : Prop :=
  let reduced := runAfterPhase box world identity partition (some item) results shared
  let executed := (contextWithReserved box.codec item.context
    (afterReserved box results shared)).bind fun contextJson =>
      (runLifecyclePhase box.state world.after identity partition item
        contextJson).result.toOption
  Audited (emittedEvents reduced.1 (executed.map (phaseRecord box))) (Ran reduced.1)
    (reduced.2.2.map (·.code))

theorem executeAudited_iff (headers : HeaderMap) (payload : Option (ExecRequest S3 Sys))
    (hauth : enforceAuth box.state.accessToken headers = .ok ()) :
    ExecuteAudited box env identity headers payload ↔
      ExecuteCoded box.state env headers payload := by
  rw [← runExecute_coded_iff box.state env headers payload hauth]
  apply (runExecute_settles box.state env headers payload).audited_iff
  intro rejection hrejected
  simp only [executeResponse, hrejected]
  split
  · rfl
  · simp only [projectedErrorResponse, projectedErrorResponseWithEffects]
    split <;> rfl

theorem itemAudited_iff (shared : Option String) (index : Nat) (item : BatchItem S3 Sys) :
    ItemAudited box world identity partition shared index item ↔
      ItemCoded box.state (world.item index) identity box.codec item shared := by
  rw [← runBatchItem_coded_iff box.state (world.item index) identity partition]
  apply (runBatchItem_settles box.state (world.item index) identity partition box.codec item
    shared).audited_iff
  intro rejection hrejected
  have hrefused : (runItem box world identity partition shared index item).result =
      .error rejection := hrejected
  rw [hrefused]
  rfl

/-- The gates of `before`, and the room for what it returned. -/
structure BeforeCoded (item : BatchItem S3 Sys) (seed : Option String) : Prop where
  phase : PhaseCoded box.state world.before identity item item.context
  fits : ∀ data json, phaseOutcome box.codec.toReader box.cfg box.withMetrics box.baseMeta
      (runLifecyclePhase box.state world.before identity partition item
        item.context).result = .success data →
    buildSharedContext box.codec seed (some data) = some json →
    json.utf8ByteSize ≤ box.limits.maxSharedBytes

theorem sharedDenial_eq_nil_iff (seed beforeData : Option String) :
    deniedReasons (sharedDenial (shareContext box seed beforeData) : List (Event S3 Sys)) =
        [] ↔
      ∀ json, buildSharedContext box.codec seed beforeData = some json →
        json.utf8ByteSize ≤ box.limits.maxSharedBytes := by
  unfold shareContext
  cases hbuilt : buildSharedContext box.codec seed beforeData with
  | none => simp [sharedDenial]
  | some json =>
      simp only [Option.some.injEq, forall_eq']
      split
      · rename_i hover
        simp [sharedDenial, deniedReasons, deniedReason, hover]
      · rename_i hfits
        simp [sharedDenial, Nat.not_lt.mp hfits]

theorem beforeAudited_iff (item : BatchItem S3 Sys) (seed : Option String) :
    BeforeAudited box world identity partition item seed ↔
      BeforeCoded box world identity partition item seed := by
  have hsettles := runLifecyclePhase_settles box.state world.before identity partition item
    item.context
  have hcoded := runLifecyclePhase_coded_iff box.state world.before identity partition item
    item.context
  simp only [BeforeAudited, runBeforePhase]
  cases houtcome : phaseOutcome box.codec.toReader box.cfg box.withMetrics box.baseMeta
      (runLifecyclePhase box.state world.before identity partition item
        item.context).result with
  | failure envelope =>
      have hcode : ∀ rejection, (runLifecyclePhase box.state world.before identity partition
          item item.context).result = .error rejection →
          some envelope.code = some rejection.envelope.code := by
        intro rejection hrejected
        rw [hrejected] at houtcome
        cases houtcome
        rfl
      rw [hsettles.audited_iff (phaseRecord box) _ hcode, hcoded]
      refine ⟨fun hphase => ⟨hphase, ?_⟩, fun h => h.phase⟩
      intro data json hdata
      cases houtcome.symm.trans hdata
  | success data =>
      cases hresult : (runLifecyclePhase box.state world.before identity partition item
          item.context).result with
      | error rejection =>
          rw [hresult] at houtcome
          cases houtcome
      | ok result =>
          have hphase : PhaseCoded box.state world.before identity item item.context := by
            rw [← hcoded]
            intro rejection hrejected
            cases hresult.symm.trans hrejected
          have hran : Ran ((runLifecyclePhase box.state world.before identity partition item
              item.context).trace ++ sharedDenial (shareContext box seed (some data))) :=
            (ran_append _ _).mpr (.inl (hsettles.ran_iff.mpr ⟨result, hresult⟩))
          simp only [Except.toOption, Option.map_some]
          rw [audited_executed_iff _ _ _ hran, deniedReasons_append,
            hsettles.quiet result hresult, List.nil_append, sharedDenial_eq_nil_iff]
          constructor
          · intro hfits
            refine ⟨hphase, ?_⟩
            intro other json hother
            cases houtcome.symm.trans hother
            exact hfits json
          · intro h json
            exact h.fits data json houtcome

/-- The context of `after` is an object, and its gates. -/
def AfterCoded (item : BatchItem S3 Sys) (results : List (ItemEnvelope Meta))
    (shared : Option String) : Prop :=
  ∃ contextJson, contextWithReserved box.codec item.context
      (afterReserved box results shared) = some contextJson ∧
    PhaseCoded box.state world.after identity item contextJson

theorem afterAudited_iff (item : BatchItem S3 Sys) (results : List (ItemEnvelope Meta))
    (shared : Option String) :
    AfterAudited box world identity partition item results shared ↔
      AfterCoded box world identity item results shared := by
  simp only [AfterAudited, AfterCoded, runAfterPhase]
  cases contextWithReserved box.codec item.context (afterReserved box results shared) with
  | none =>
      simp only [reduceCtorEq, false_and, exists_false, iff_false]
      intro h
      obtain ⟨body, hbody⟩ := h.once
      cases hbody
  | some contextJson =>
      have hsettles := runLifecyclePhase_settles box.state world.after identity partition item
        contextJson
      simp only [Option.some.injEq, exists_eq_left', Option.bind_some]
      rw [← runLifecyclePhase_coded_iff box.state world.after identity partition item
        contextJson]
      cases houtcome : phaseOutcome box.codec.toReader box.cfg box.withMetrics box.baseMeta
          (runLifecyclePhase box.state world.after identity partition item
            contextJson).result with
      | success data =>
          apply hsettles.audited_iff
          intro rejection hrejected
          rw [hrejected] at houtcome
          cases houtcome
      | failure envelope =>
          apply hsettles.audited_iff
          intro rejection hrejected
          rw [hrejected] at houtcome
          cases houtcome
          rfl

/-- Every item and every phase of a batch that got past its batch-level
checks. -/
structure PhasesAudited (request : BatchRequest S3 Sys) : Prop where
  before : ∀ item, request.before = some item →
    BeforeAudited box world identity partition item request.shared
  items : ∀ shared,
    (runBeforePhase box world identity partition request.before request.shared).2 =
      .ok shared →
    ∀ i item, request.items[i]? = some item → world.fate i = .completes →
    ItemAudited box world identity partition shared i item
  after : ∀ shared,
    (runBeforePhase box world identity partition request.before request.shared).2 =
      .ok shared →
    ∀ item, request.after = some item →
    AfterAudited box world identity partition item
      (runItems box world identity partition request.items shared).results shared

/-- What the gates meet in such a batch. -/
structure PhasesCoded (request : BatchRequest S3 Sys) : Prop where
  before : ∀ item, request.before = some item →
    BeforeCoded box world identity partition item request.shared
  items : ∀ shared,
    (runBeforePhase box world identity partition request.before request.shared).2 =
      .ok shared →
    ∀ i item, request.items[i]? = some item → world.fate i = .completes →
    ItemCoded box.state (world.item i) identity box.codec item shared
  after : ∀ shared,
    (runBeforePhase box world identity partition request.before request.shared).2 =
      .ok shared →
    ∀ item, request.after = some item →
    AfterCoded box world identity item
      (runItems box world identity partition request.items shared).results shared

theorem phasesAudited_iff (request : BatchRequest S3 Sys) :
    PhasesAudited box world identity partition request ↔
      PhasesCoded box world identity partition request := by
  constructor
  · intro h
    refine ⟨?_, ?_, ?_⟩
    · intro item hitem
      exact (beforeAudited_iff box world identity partition item _).mp (h.before item hitem)
    · intro shared hshared i item hitem hfate
      exact (itemAudited_iff box world identity partition shared i item).mp
        (h.items shared hshared i item hitem hfate)
    · intro shared hshared item hitem
      exact (afterAudited_iff box world identity partition item _ shared).mp
        (h.after shared hshared item hitem)
  · intro h
    refine ⟨?_, ?_, ?_⟩
    · intro item hitem
      exact (beforeAudited_iff box world identity partition item _).mpr (h.before item hitem)
    · intro shared hshared i item hitem hfate
      exact (itemAudited_iff box world identity partition shared i item).mpr
        (h.items shared hshared i item hitem hfate)
    · intro shared hshared item hitem
      exact (afterAudited_iff box world identity partition item _ shared).mpr
        (h.after shared hshared item hitem)

/-- One `/batch` request; the identity is refused before there is an item or a
phase, and so is a batch over its caps. -/
def BatchAudited (headers : HeaderMap) (payload : Option (BatchRequest S3 Sys)) : Prop :=
  ∀ identity request,
    (resolveIdentity box.state.trusted world.before.cache headers).1 = .ok identity →
    payload = some request → validateBatch box.limits request.items = .ok () →
    PhasesAudited box world identity (resolvePartition identity (headerPartition headers))
      request

def BatchCoded (headers : HeaderMap) (payload : Option (BatchRequest S3 Sys)) : Prop :=
  ∀ identity request,
    (resolveIdentity box.state.trusted world.before.cache headers).1 = .ok identity →
    payload = some request → validateBatch box.limits request.items = .ok () →
    PhasesCoded box world identity (resolvePartition identity (headerPartition headers))
      request

/-- Behind the credential check, whatever the gates, the broker, the engine and
the handlers do: an `/execute` request, and every item and phase of a `/batch`
request, is audited once and as it is answered exactly when it meets no gate
whose audit reason is not its code. -/
theorem audit_contract_iff (headers : HeaderMap) (single : Option (ExecRequest S3 Sys))
    (payload : Option (BatchRequest S3 Sys))
    (hauth : enforceAuth box.state.accessToken headers = .ok ()) :
    (ExecuteAudited box env identity headers single ↔
      ExecuteCoded box.state env headers single) ∧
    (BatchAudited box world headers payload ↔ BatchCoded box world headers payload) := by
  refine ⟨executeAudited_iff box env identity headers single hauth, ?_⟩
  simp only [BatchAudited, BatchCoded, phasesAudited_iff]

end Requests

/-! A box in trusted mode, and a request that names its script twice. -/

def auditedBox : BatchBox Unit Unit Unit Unit :=
  { sampleBox 100 1000 with state := sampleState }

def doublyNamed : ExecRequest Unit Unit := { sampleRequest with key := some "registered" }

theorem doublyNamed_audited_as_not_found :
    let env := returningEnv "\x7b\"data\":1\x7d"
    let run := runExecute auditedBox.state env sampleHeaders (some doublyNamed)
    enforceAuth auditedBox.state.accessToken sampleHeaders = .ok () ∧
      deniedReasons run.trace = ["SCRIPT_NOT_FOUND"] ∧
      (∃ rejection, run.result = .error rejection ∧
        rejection.envelope.code = "SCRIPT_XOR_KEY") ∧
      ∀ identity, ¬ ExecuteAudited auditedBox env identity sampleHeaders (some doublyNamed) := by
  refine ⟨rfl, rfl, ⟨_, rfl, rfl⟩, ?_⟩
  intro identity haudited
  have hcoded := (executeAudited_iff auditedBox _ identity sampleHeaders _ rfl).mp haudited
    _ doublyNamed rfl rfl rfl
  exact hcoded.inputs.named rfl

theorem sampleRequest_coded :
    ExecuteCoded auditedBox.state (returningEnv "\x7b\"data\":1\x7d") sampleHeaders
      (some sampleRequest) := by
  intro identity request hidentity hpayload _
  cases hidentity
  cases hpayload
  refine ⟨⟨by decide, ?_⟩, ?_, fun _ _ _ => by decide⟩
  · intro source hsource
    cases hsource
    decide
  · intro _ _ err _ hrefused
    cases hrefused

theorem sampleBatch_coded :
    BatchCoded auditedBox sampleWorld sampleHeaders (some (sampleBatch none)) := by
  intro identity request hidentity hpayload _
  cases hidentity
  cases hpayload
  refine ⟨fun _ h => (nomatch h), ?_, fun _ _ _ h => (nomatch h)⟩
  intro shared _ i item hitem _
  have hsame : item = sampleItem := by
    have hmem := List.mem_of_getElem? hitem
    exact List.mem_singleton.mp hmem
  subst hsame
  refine ⟨⟨by decide, ?_⟩, ?_⟩
  · intro source hsource
    cases hsource
    decide
  · intro _ _ _ _ err hnames
    exact absurd rfl hnames

theorem audit_contract_sample :
    enforceAuth auditedBox.state.accessToken sampleHeaders = .ok () ∧
      ExecuteAudited auditedBox (returningEnv "\x7b\"data\":1\x7d") none sampleHeaders
        (some sampleRequest) ∧
      BatchAudited auditedBox sampleWorld sampleHeaders (some (sampleBatch none)) := by
  have hiff := audit_contract_iff auditedBox sampleWorld
    (returningEnv "\x7b\"data\":1\x7d") none sampleHeaders (some sampleRequest)
    (some (sampleBatch none)) rfl
  exact ⟨rfl, hiff.1.mpr sampleRequest_coded, hiff.2.mpr sampleBatch_coded⟩

end Runlet.Audit
