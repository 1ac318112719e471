import Runlet.Server.Decisions

/-!
A batch item against the same body sent to `/execute`. The two decisions ask
the same gates, the item in the order script, sizes, authorization and
`/execute` with the authorization in front.
-/

namespace Runlet.Batch

open Contexts Errors Execute Gates Identity JsonText Response Telemetry

variable {Key S3 Sys Result α : Type}

/-! ### The two orders -/

/-- The script and the sizes, which both orders ask next to each other. -/
def checkInputs (state : AppState Key) (script key : Option String) (context : String) :
    Except Rejection ScriptSource := do
  let source ← resolveScript script key state.registry
  validateInputSizes source.asStr.utf8ByteSize context.utf8ByteSize
    state.maxScriptSize state.maxContextSize
  .ok source

/-- The body of an item as an `/execute` request; an item asserts no
partition of its own. -/
def BatchItem.asRequest (item : BatchItem S3 Sys) : ExecRequest S3 Sys :=
  ⟨item.script, item.key, none, item.context, item.config⟩

section Orders

variable (state : AppState Key) (env : Env Key S3 Sys Result)
  (identity : Option TrustedIdentity) (partition : Option String) (codec : Codec)
  (item : BatchItem S3 Sys)

/-- What both orders end with. -/
def grantedDecision (source : ScriptSource) : Except Rejection (ExecuteBlocking S3 Sys) := do
  let _ ← (enforceQuota state.trusted identity env.inflight).1
  let session ← (openSession state env identity item.config.io).result
  .ok (itemParams state identity partition session source item.context item.config)

theorem itemDecision_eq :
    itemDecision state env identity partition codec item none = (do
      let source ← checkInputs state item.script item.key item.context
      enforceMemberAuthz state.trusted identity item.config
      grantedDecision state env identity partition item source) := by
  unfold itemDecision checkInputs
  cases resolveScript item.script item.key state.registry with
  | error rejection => rfl
  | ok source =>
      cases hsizes : validateInputSizes source.asStr.utf8ByteSize item.context.utf8ByteSize
          state.maxScriptSize state.maxContextSize with
      | error rejection => simp [hsizes, bind, Except.bind]
      | ok _ => simp [hsizes, bind, Except.bind, itemContext, gatedDecision, grantedDecision]

/-- A permit that is free changes nothing but the log floor. -/
theorem requestDecision_eq (permit : Option Nat)
    (hcapacity : (admitPermits state.hash env.permits partition).1 = .ok permit) :
    requestDecision state env identity partition item.asRequest = (do
      enforceMemberAuthz state.trusted identity item.config
      let source ← checkInputs state item.script item.key item.context
      (grantedDecision state env identity partition item source).map
        (withLogFloor identity)) := by
  have hgranted : ∀ source : ScriptSource, (do
      let _ ← (enforceQuota state.trusted identity env.inflight).1
      let session ← (openSession state env identity item.config.io).result
      let _ ← (admitPermits state.hash env.permits partition).1
      Except.ok (withLogFloor identity (itemParams state identity partition session source
        item.context item.config))) =
      (grantedDecision state env identity partition item source).map
        (withLogFloor identity) := by
    intro source
    unfold grantedDecision
    rw [hcapacity]
    cases (enforceQuota state.trusted identity env.inflight).1 with
    | error rejection => rfl
    | ok held =>
        cases (openSession state env identity item.config.io).result with
        | error rejection => rfl
        | ok session => rfl
  simp only [requestDecision, BatchItem.asRequest, hgranted, checkInputs, bind_assoc]
  rfl

end Orders

/-- Two checks of which one passes may be asked in either order. -/
theorem bind_comm_of_ok {ε β γ : Type} (first : Except ε α) (second : Except ε β)
    (next : α → β → Except ε γ)
    (hone : (∃ value, first = .ok value) ∨ ∃ value, second = .ok value) :
    (first >>= fun x => second >>= fun y => next x y) =
      (second >>= fun y => first >>= fun x => next x y) := by
  rcases hone with ⟨value, rfl⟩ | ⟨value, rfl⟩
  · cases second with
    | error err => rfl
    | ok other => rfl
  · cases first with
    | error err => rfl
    | ok other => rfl

/-- The error code of a rejection. -/
def refusalCode : Except Rejection α → Option String
  | .error rejection => some rejection.envelope.code
  | .ok _ => none

@[simp] theorem refusalCode_map {β : Type} (f : α → β) (decision : Except Rejection α) :
    refusalCode (decision.map f) = refusalCode decision := by
  cases decision with
  | error rejection => rfl
  | ok value => rfl

theorem enforceMemberAuthz_code (trusted : Option (TrustedRuntime Key))
    (identity : Option TrustedIdentity) (config : RequestConfig S3 Sys)
    (denied : Rejection) (h : enforceMemberAuthz trusted identity config = .error denied) :
    denied.envelope.code = "ENTITLEMENT_REQUIRED" := by
  unfold enforceMemberAuthz at h
  split at h
  · split at h
    · cases h
    · cases h
      rfl
  · cases h

section Parity

variable (state : AppState Key) (env : Env Key S3 Sys Result)
  (identity : Option TrustedIdentity) (partition : Option String) (codec : Codec)
  (item : BatchItem S3 Sys) (permit : Option Nat)

theorem requestDecision_eq_map
    (hcapacity : (admitPermits state.hash env.permits partition).1 = .ok permit)
    (hone : (∃ source, checkInputs state item.script item.key item.context = .ok source) ∨
      ∃ value, enforceMemberAuthz state.trusted identity item.config = .ok value) :
    requestDecision state env identity partition item.asRequest =
      (itemDecision state env identity partition codec item none).map
        (withLogFloor identity) := by
  rw [requestDecision_eq state env identity partition item permit hcapacity,
    itemDecision_eq]
  rw [bind_comm_of_ok _ _ (fun source _ =>
    grantedDecision state env identity partition item source) hone]
  cases enforceMemberAuthz state.trusted identity item.config with
  | error rejection => rfl
  | ok value =>
      cases checkInputs state item.script item.key item.context with
      | error rejection => rfl
      | ok source => rfl

/-- A body that fails both checks is refused by the one that is asked first. -/
theorem decisions_of_both_refused (denied failed : Rejection)
    (hcapacity : (admitPermits state.hash env.permits partition).1 = .ok permit)
    (hdenied : enforceMemberAuthz state.trusted identity item.config = .error denied)
    (hfailed : checkInputs state item.script item.key item.context = .error failed) :
    requestDecision state env identity partition item.asRequest = .error denied ∧
      itemDecision state env identity partition codec item none = .error failed := by
  rw [requestDecision_eq state env identity partition item permit hcapacity,
    itemDecision_eq, hdenied, hfailed]
  exact ⟨rfl, rfl⟩

theorem requestDecision_eq_ok_iff
    (hcapacity : (admitPermits state.hash env.permits partition).1 = .ok permit)
    (params : ExecuteBlocking S3 Sys) :
    requestDecision state env identity partition item.asRequest = .ok params ↔
      ∃ base, itemDecision state env identity partition codec item none = .ok base ∧
        params = withLogFloor identity base := by
  cases hinputs : checkInputs state item.script item.key item.context with
  | ok source =>
      rw [requestDecision_eq_map state env identity partition codec item permit hcapacity
        (.inl ⟨source, hinputs⟩)]
      cases itemDecision state env identity partition codec item none with
      | error rejection => simp [Except.map]
      | ok base => simp [Except.map, eq_comm]
  | error failed =>
      cases hauthz : enforceMemberAuthz state.trusted identity item.config with
      | ok value =>
          rw [requestDecision_eq_map state env identity partition codec item permit hcapacity
            (.inr ⟨value, hauthz⟩)]
          cases itemDecision state env identity partition codec item none with
          | error rejection => simp [Except.map]
          | ok base => simp [Except.map, eq_comm]
      | error denied =>
          obtain ⟨hrequest, hitem⟩ := decisions_of_both_refused state env identity partition
            codec item permit denied failed hcapacity hauthz hinputs
          simp [hrequest, hitem]

/-- For every body, identity and state with a free permit, and without a
shared context: an item is executed exactly when the same body is by
`/execute`, with the same inputs up to the log floor; and both are refused
under one code unless the body fails the authorization and also the script or
size check, when each answers what it asks first. -/
theorem item_parity (headers : HeaderMap)
    (hauth : enforceAuth state.accessToken headers = .ok ())
    (hidentity : (resolveIdentity state.trusted env.cache headers).1 = .ok identity)
    (hcapacity : (admitPermits state.hash env.permits
      (resolvePartition identity (headerPartition headers))).1 = .ok permit) :
    let single := runExecute state env headers (some item.asRequest)
    let batched := runBatchItem state env identity
      (resolvePartition identity (headerPartition headers)) codec item none
    (∀ params, .executionStarted params ∈ single.trace ↔
      ∃ base, .executionStarted base ∈ batched.trace ∧ params = withLogFloor identity base) ∧
    ((∃ source, checkInputs state item.script item.key item.context = .ok source) ∨
        (∃ value, enforceMemberAuthz state.trusted identity item.config = .ok value) →
      refusalCode single.result = refusalCode batched.result) ∧
    ∀ denied failed, enforceMemberAuthz state.trusted identity item.config = .error denied →
      checkInputs state item.script item.key item.context = .error failed →
      refusalCode single.result = some "ENTITLEMENT_REQUIRED" ∧
        refusalCode batched.result = some failed.envelope.code := by
  intro single batched
  have hbatched := runBatchItem_decides state env identity
    (resolvePartition identity (headerPartition headers)) codec item none
  have hsingle := runExecute_decides state env headers (some item.asRequest)
  have hdecision : executeDecision state env headers (some item.asRequest) =
      requestDecision state env identity
        (resolvePartition identity (headerPartition headers)) item.asRequest := by
    simp only [executeDecision, hauth, hidentity]
    exact congrArg (fun caller => requestDecision state env identity
      (resolvePartition identity caller) item.asRequest) Option.or_none
  rw [hdecision] at hsingle
  refine ⟨?_, ?_, ?_⟩
  · intro params
    simp only [single, batched, hsingle.started, hbatched.started]
    exact requestDecision_eq_ok_iff state env identity _ codec item permit hcapacity params
  · intro hone
    simp only [single, batched, hsingle.result, hbatched.result, refusalCode_map]
    rw [requestDecision_eq_map state env identity _ codec item permit hcapacity hone,
      refusalCode_map]
  · intro denied failed hdenied hfailed
    obtain ⟨hrequest, hitem⟩ := decisions_of_both_refused state env identity _ codec item
      permit denied failed hcapacity hdenied hfailed
    simp only [single, batched, hsingle.result, hbatched.result, refusalCode_map, hrequest,
      hitem]
    refine ⟨?_, rfl⟩
    exact congrArg some (enforceMemberAuthz_code _ _ _ denied hdenied)

end Parity

/-- The acting tenant without the entitlement for `orders`. -/
def unentitledHeaders : HeaderMap :=
  [("x-workspace-id", ascii "ws_acme"), ("x-tenant-scope", ascii "acting")]

/-- A script that is not registered, with the gated name `orders`. -/
def unregisteredItem : BatchItem Unit Unit :=
  ⟨none, some "missing", "[]", ⟨[], none, none, ["orders"], none⟩, none⟩

theorem unentitled_unregistered_codes_differ :
    ∃ identity, (resolveIdentity sampleState.trusted sampleEnv.cache unentitledHeaders).1 =
        .ok identity ∧
      (admitPermits sampleState.hash sampleEnv.permits
        (resolvePartition identity (headerPartition unentitledHeaders))).1 = .ok none ∧
      refusalCode (runExecute sampleState sampleEnv unentitledHeaders
        (some unregisteredItem.asRequest)).result = some "ENTITLEMENT_REQUIRED" ∧
      refusalCode (runBatchItem sampleState sampleEnv identity
        (resolvePartition identity (headerPartition unentitledHeaders))
        (sampleBox 15 1000).codec unregisteredItem none).result = some "SCRIPT_NOT_FOUND" :=
  ⟨_, rfl, rfl, rfl, rfl⟩

def gatedItem : BatchItem Unit Unit :=
  ⟨some "handler", none, "[]", sampleRequest.config, none⟩

theorem item_parity_gated :
    ∃ identity base, (resolveIdentity sampleState.trusted sampleEnv.cache sampleHeaders).1 =
        .ok identity ∧
      .executionStarted base ∈ (runBatchItem sampleState sampleEnv identity
        (resolvePartition identity (headerPartition sampleHeaders)) (sampleBox 15 1000).codec
        gatedItem none).trace ∧
      .executionStarted (withLogFloor identity base) ∈
        (runExecute sampleState sampleEnv sampleHeaders (some gatedItem.asRequest)).trace := by
  refine ⟨_, _, rfl, List.mem_of_getElem? (i := 5) rfl, ?_⟩
  refine ((item_parity sampleState sampleEnv _ (sampleBox 15 1000).codec gatedItem none
    sampleHeaders rfl rfl rfl).1 _).mpr ⟨_, ?_, rfl⟩
  exact List.mem_of_getElem? (i := 5) rfl

end Runlet.Batch
