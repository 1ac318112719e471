import Runlet.Core.Errors
import Runlet.Server.Identity
import Runlet.Server.Quota

/-!
The request gates of `gates.rs` and `authz.rs`: the edge credential, identity
resolution in both trusted sub-modes, member authorization, script resolution,
input sizes and the quota. Each gate answers with its value or with the
rejection it sends; a rejection carries the response envelope and the reason
of the `denied` audit event, when the gate emits one.
-/

namespace Runlet.Gates

open Errors Identity Quota Text

structure Rejection where
  envelope : ErrorEnvelope
  auditReason : Option String

/-- Trusted-header mode as resolved at startup. The in-flight table of the
quota is part of the server state, not of this record. -/
structure TrustedRuntime (Key : Type) where
  headers : TrustedHeaders
  capabilityEntitlements : List (String × String)
  allowedPrincipalKinds : List String
  quota : Option PlanLimits
  contract : Option (ContractVerifier Key)

variable {Key : Type}

/-! ### Identity -/

/-- `deny_identity`: the audit event and the rejection share one code. -/
def denyIdentity (code message : String) : Rejection :=
  ⟨requestError code message, some code⟩

/-- An empty allowlist admits every kind, an absent one included. -/
def principalKindAdmitted (allowed : List String) (kind : Option String) : Bool :=
  allowed.isEmpty || kind.any fun actual => allowed.contains actual

def enforcePrincipalKindAdmission (trusted : TrustedRuntime Key)
    (identity : TrustedIdentity) : Option Rejection :=
  if principalKindAdmitted trusted.allowedPrincipalKinds identity.principalKind then none
  else some (denyIdentity "PRINCIPAL_KIND_FORBIDDEN"
    "this box does not admit the caller's principal kind")

/-- The tri-state suspension and the tenant check, after the overlay. -/
def admitClaims (headers : HeaderMap) (names : TrustedHeaders)
    (claims : VerifiedClaims) : Except Rejection TrustedIdentity :=
  let identity := (TrustedIdentity.fromHeaders headers names).applyContract claims
  match claims.suspended with
  | some true => .error (denyIdentity "SUSPENDED_FORBIDDEN"
      "a suspended principal may not execute code")
  | none => .error (denyIdentity "SUSPENDED_UNKNOWN"
      "suspension state is unknown; refusing fail-closed")
  | some false =>
      if identity.tenant.isNone then
        .error (denyIdentity "TENANT_REQUIRED"
          "the identity contract carries no acting workspace")
      else .ok identity

def resolveIdentityContract (trusted : TrustedRuntime Key)
    (verifier : ContractVerifier Key) (cache : KeyCache Key)
    (headers : HeaderMap) :
    Except Rejection TrustedIdentity × KeyCache Key :=
  match headerValue headers trusted.headers.contract with
  | none => (.error (denyIdentity "CONTRACT_MISSING"
      "a verifiable identity contract is required"), cache)
  | some token =>
      match verifier.verify cache token with
      | (.error err, cache) => (.error (denyIdentity err.code err.message), cache)
      | (.ok claims, cache) => (admitClaims headers trusted.headers claims, cache)

/-- The plain trusted-header path, with its acting-scope check. -/
def resolveIdentityHeaders (trusted : TrustedRuntime Key)
    (headers : HeaderMap) : Except Rejection TrustedIdentity :=
  let identity := TrustedIdentity.fromHeaders headers trusted.headers
  if identity.anonymous then
    .error (denyIdentity "ANONYMOUS_FORBIDDEN" "anonymous callers may not execute code")
  else if identity.suspended then
    .error (denyIdentity "SUSPENDED_FORBIDDEN"
      "a suspended principal may not execute code")
  else if identity.tenant.isNone then
    .error (denyIdentity "TENANT_REQUIRED"
      "trusted-header mode requires a tenant identity")
  else if identity.scope ≠ some "acting" then
    .error (denyIdentity "ACTING_SCOPE_REQUIRED"
      "trusted-header mode requires the edge to assert acting-org scope")
  else .ok identity

/-- The principal-kind gate that both trusted paths end with. -/
def finishIdentity (trusted : TrustedRuntime Key) :
    Except Rejection TrustedIdentity → Except Rejection (Option TrustedIdentity)
  | .error rejection => .error rejection
  | .ok identity =>
      match enforcePrincipalKindAdmission trusted identity with
      | some rejection => .error rejection
      | none => .ok (some identity)

/-- `Ok(None)` only in single-tenant mode. -/
def resolveIdentity (trusted : Option (TrustedRuntime Key)) (cache : KeyCache Key)
    (headers : HeaderMap) :
    Except Rejection (Option TrustedIdentity) × KeyCache Key :=
  match trusted with
  | none => (.ok none, cache)
  | some trusted =>
      match trusted.contract with
      | some verifier =>
          match resolveIdentityContract trusted verifier cache headers with
          | (resolved, cache) => (finishIdentity trusted resolved, cache)
      | none => (finishIdentity trusted (resolveIdentityHeaders trusted headers), cache)

/-! ### Credential, authorization, script, sizes and quota -/

/-- `Authorization: Bearer <token>`; the comparison is exact after trimming. -/
def requestAuthorized (headers : HeaderMap) (expected : String) : Bool :=
  match (headers.get "authorization").bind toStr with
  | none => false
  | some value =>
      match value.toList with
      | 'B' :: 'e' :: 'a' :: 'r' :: 'e' :: 'r' :: ' ' :: token =>
          trimChars token == expected.toList
      | 'b' :: 'e' :: 'a' :: 'r' :: 'e' :: 'r' :: ' ' :: token =>
          trimChars token == expected.toList
      | _ => false

def enforceAuth (accessToken : Option String) (headers : HeaderMap) :
    Except Rejection Unit :=
  match accessToken with
  | none => .ok ()
  | some expected =>
      if requestAuthorized headers expected then .ok ()
      else .error ⟨requestError "UNAUTHORIZED" "missing or invalid bearer token", none⟩

def headerPartition (headers : HeaderMap) : Option String :=
  headerValue headers "x-partition-key"

/-- The fairness and cache key: in trusted mode the tenant, and the
caller-asserted source is ignored. -/
def resolvePartition (identity : Option TrustedIdentity)
    (callerAsserted : Option String) : Option String :=
  match identity with
  | none => callerAsserted
  | some identity => identity.tenant

/-- The capability configuration of a request. The contents of the `s3` and
`sys` sections are opaque here: the gates only see whether they are there. -/
structure RequestConfig (S3 Sys : Type) where
  allowedHosts : List String
  s3 : Option S3
  sys : Option Sys
  io : List String
  currency : Option String

variable {S3 Sys : Type}

def requestedCapabilities (config : RequestConfig S3 Sys) : List String :=
  config.io ++ (if config.allowedHosts.isEmpty then [] else ["http"]) ++
    (if config.s3.isSome then ["s3"] else [])

/-- The allowlisted names that are not bound box-direct. -/
def brokerNames (io : List String) (localResources : List (String × String)) :
    List String :=
  io.filter fun name => (localResources.lookup name).isNone

structure CapabilityDenied where
  capability : String
  required : String

/-- The first requested name that is gated and not granted. -/
def firstDenied (map : List (String × String)) (identity : TrustedIdentity) :
    List String → Option CapabilityDenied
  | [] => none
  | kind :: rest =>
      match map.lookup kind with
      | some required =>
          if identity.hasGrant required then firstDenied map identity rest
          else some ⟨kind, required⟩
      | none => firstDenied map identity rest

def authorizeCapabilities (map : List (String × String)) (requested : List String)
    (identity : TrustedIdentity) : Except CapabilityDenied Unit :=
  if map.isEmpty then .ok ()
  else
    match firstDenied map identity requested with
    | some denied => .error denied
    | none => .ok ()

def enforceMemberAuthz (trusted : Option (TrustedRuntime Key))
    (identity : Option TrustedIdentity) (config : RequestConfig S3 Sys) :
    Except Rejection Unit :=
  match trusted, identity with
  | some trusted, some identity =>
      match authorizeCapabilities trusted.capabilityEntitlements
          (requestedCapabilities config) identity with
      | .ok () => .ok ()
      | .error denied => .error (denyIdentity "ENTITLEMENT_REQUIRED"
          ("capability `" ++ denied.capability ++ "` requires entitlement `" ++
            denied.required ++ "`"))
  | _, _ => .ok ()

inductive ScriptSource where
  | inline (source : String)
  | registered (source : String)

def ScriptSource.asStr : ScriptSource → String
  | .inline source => source
  | .registered source => source

/-- Exactly one of `script` and `key`. Both rejections are audited under the
reason `SCRIPT_NOT_FOUND`. -/
def resolveScript (script key : Option String) (registry : List (String × String)) :
    Except Rejection ScriptSource :=
  match script, key with
  | some source, none => .ok (.inline source)
  | none, some requested =>
      match registry.lookup requested with
      | some source => .ok (.registered source)
      | none => .error ⟨requestError "SCRIPT_NOT_FOUND"
          ("no registered script for key `" ++ requested ++ "`"),
          some "SCRIPT_NOT_FOUND"⟩
  | _, _ => .error ⟨requestError "SCRIPT_XOR_KEY"
      "request must include exactly one of `script` or `key`", some "SCRIPT_NOT_FOUND"⟩

def validateInputSizes (scriptBytes contextBytes maxScript maxContext : Nat) :
    Except Rejection Unit :=
  if scriptBytes > maxScript then
    .error ⟨requestError "SCRIPT_TOO_LARGE" ("script too large: " ++
      toString scriptBytes ++ " bytes (max " ++ toString maxScript ++ ")"),
      some "INPUT_TOO_LARGE"⟩
  else if contextBytes > maxContext then
    .error ⟨requestError "CONTEXT_TOO_LARGE" ("context too large: " ++
      toString contextBytes ++ " bytes (max " ++ toString maxContext ++ ")"),
      some "INPUT_TOO_LARGE"⟩
  else .ok ()

def quotaExceededEnvelope (exceeded : QuotaExceeded) : ErrorEnvelope :=
  (ErrorEnvelope.new .runtime .engine "QUOTA_EXCEEDED" true .caller).withMessage
    ("tenant quota exceeded for plan `" ++ exceeded.plan ++ "`: " ++
      toString exceeded.usage ++ " in-flight at limit " ++ toString exceeded.limit)

/-- The guard to hold across the execution, and the table after the admit. -/
def enforceQuota (trusted : Option (TrustedRuntime Key))
    (identity : Option TrustedIdentity) (table : Inflight) :
    Except Rejection (Option QuotaGuard) × Inflight :=
  match trusted, identity with
  | some trusted, some identity =>
      match trusted.quota, identity.tenant with
      | some limits, some tenant =>
          match admitExecution limits table tenant identity.plan with
          | (.ok guard, table) => (.ok (some guard), table)
          | (.error exceeded, table) =>
              (.error ⟨quotaExceededEnvelope exceeded, some "QUOTA_EXCEEDED"⟩, table)
      | _, _ => (.ok none, table)
  | _, _ => (.ok none, table)

/-! ### Permits -/

/-- The free permits of each bucket semaphore. -/
structure PartitionLimiter where
  buckets : List Nat
  deriving DecidableEq

/-- `None` when fairness is disabled. -/
def PartitionLimiter.new (count perPartition : Nat) : Option PartitionLimiter :=
  if perPartition = 0 ∨ count = 0 then none
  else some ⟨List.replicate count perPartition⟩

/-- The stable hash of a key, reduced to a bucket. -/
def bucketFor (hash : String → Nat) (count : Nat) (partition : String) : Nat :=
  hash partition % count

/-- The bucket a permit was taken from, and the limiter without it. -/
def PartitionLimiter.tryAcquire (hash : String → Nat) (limiter : PartitionLimiter)
    (partition : String) : Option (Nat × PartitionLimiter) :=
  let bucket := bucketFor hash limiter.buckets.length partition
  match limiter.buckets[bucket]? with
  | some (free + 1) => some (bucket, ⟨limiter.buckets.set bucket free⟩)
  | _ => none

/-- The free permits of the global bulkhead and of the partition buckets. -/
structure Permits where
  global : Nat
  partition : Option PartitionLimiter
  deriving DecidableEq

inductive Admission where
  | granted (partitionPermit : Option Nat)
  | partitionBusy
  | globalBusy
  deriving DecidableEq

/-- Per-partition first, then the bulkhead; a bulkhead refusal drops the
partition permit it had taken. -/
def acquirePermits (hash : String → Nat) (permits : Permits)
    (partition : Option String) : Admission × Permits :=
  match permits.partition, partition with
  | some limiter, some key =>
      match limiter.tryAcquire hash key with
      | none => (.partitionBusy, permits)
      | some (bucket, rest) =>
          if permits.global = 0 then (.globalBusy, permits)
          else (.granted (some bucket), ⟨permits.global - 1, some rest⟩)
  | _, _ =>
      if permits.global = 0 then (.globalBusy, permits)
      else (.granted none, ⟨permits.global - 1, permits.partition⟩)

def overloadedEnvelope : ErrorEnvelope :=
  (ErrorEnvelope.new .runtime .engine "OVERLOADED" true .operator).withMessage
    "server at capacity, retry shortly"

def partitionOverloadedEnvelope : ErrorEnvelope :=
  (ErrorEnvelope.new .runtime .engine "PARTITION_OVERLOADED" true .caller).withMessage
    "partition concurrency limit reached, retry shortly"

/-- Both sheds are audited as `OVERLOADED`. -/
def admitPermits (hash : String → Nat) (permits : Permits)
    (partition : Option String) : Except Rejection (Option Nat) × Permits :=
  match acquirePermits hash permits partition with
  | (.granted partitionPermit, rest) => (.ok partitionPermit, rest)
  | (.partitionBusy, rest) =>
      (.error ⟨partitionOverloadedEnvelope, some "OVERLOADED"⟩, rest)
  | (.globalBusy, rest) => (.error ⟨overloadedEnvelope, some "OVERLOADED"⟩, rest)

/-! ### What a passed gate says -/

theorem firstDenied_eq_none (map : List (String × String)) (identity : TrustedIdentity)
    (requested : List String) (hnone : firstDenied map identity requested = none)
    (name : String) (hname : name ∈ requested) (required : String)
    (hgated : map.lookup name = some required) :
    identity.hasGrant required = true := by
  induction requested with
  | nil => cases hname
  | cons kind rest ih =>
      unfold firstDenied at hnone
      rcases List.mem_cons.mp hname with rfl | hrest
      · rw [hgated] at hnone
        by_contra hgrant
        simp [hgrant] at hnone
      · cases hlookup : map.lookup kind with
        | none =>
            rw [hlookup] at hnone
            exact ih hnone hrest
        | some other =>
            rw [hlookup] at hnone
            simp only at hnone
            split at hnone
            · exact ih hnone hrest
            · cases hnone

/-- Ungated, or the identity holds the entitlement the gate requires. -/
def Authorized (trusted : TrustedRuntime Key) (identity : TrustedIdentity)
    (name : String) : Prop :=
  ∀ required, trusted.capabilityEntitlements.lookup name = some required →
    identity.hasGrant required = true

theorem enforceMemberAuthz_ok (trusted : TrustedRuntime Key)
    (identity : TrustedIdentity) (config : RequestConfig S3 Sys)
    (hok : enforceMemberAuthz (some trusted) (some identity) config = .ok ()) :
    ∀ name ∈ requestedCapabilities config, Authorized trusted identity name := by
  intro name hname required hgated
  have hnonempty : trusted.capabilityEntitlements.isEmpty = false := by
    cases hmap : trusted.capabilityEntitlements with
    | nil => simp [hmap] at hgated
    | cons entry rest => rfl
  simp only [enforceMemberAuthz, authorizeCapabilities, hnonempty] at hok
  cases hdenied : firstDenied trusted.capabilityEntitlements identity
      (requestedCapabilities config) with
  | none =>
      exact firstDenied_eq_none _ identity _ hdenied name hname required hgated
  | some denied => simp [hdenied] at hok

theorem finishIdentity_ok (trusted : TrustedRuntime Key)
    (resolved : Except Rejection TrustedIdentity) (accepted : Option TrustedIdentity)
    (hok : finishIdentity trusted resolved = .ok accepted) :
    ∃ identity, resolved = .ok identity ∧ accepted = some identity := by
  cases resolved with
  | error rejection => cases hok
  | ok identity =>
      simp only [finishIdentity] at hok
      cases hkind : enforcePrincipalKindAdmission trusted identity with
      | some rejection => simp [hkind] at hok
      | none =>
          rw [hkind] at hok
          exact ⟨identity, rfl, (Except.ok.inj hok).symm⟩

theorem admitClaims_tenant (headers : HeaderMap) (names : TrustedHeaders)
    (claims : VerifiedClaims) (identity : TrustedIdentity)
    (hok : admitClaims headers names claims = .ok identity) :
    ∃ tenant, claims.tenant = some tenant ∧ identity.tenant = some tenant := by
  unfold admitClaims at hok
  cases hsuspended : claims.suspended with
  | none => simp [hsuspended] at hok
  | some suspended =>
      cases suspended with
      | true => simp [hsuspended] at hok
      | false =>
          simp only [hsuspended] at hok
          split at hok
          · cases hok
          · rename_i htenant
            have heq := Except.ok.inj hok
            subst heq
            obtain ⟨tenant, hsome⟩ := Option.ne_none_iff_exists'.mp (by simpa using htenant)
            exact ⟨tenant, hsome, hsome⟩

theorem resolveIdentityHeaders_tenant (trusted : TrustedRuntime Key)
    (headers : HeaderMap) (identity : TrustedIdentity)
    (hok : resolveIdentityHeaders trusted headers = .ok identity) :
    ∃ tenant, headerValue headers trusted.headers.tenant = some tenant ∧
      identity.tenant = some tenant := by
  unfold resolveIdentityHeaders at hok
  simp only at hok
  split at hok
  · cases hok
  · split at hok
    · cases hok
    · split at hok
      · cases hok
      · rename_i htenant
        split at hok
        · cases hok
        · have heq := Except.ok.inj hok
          subst heq
          obtain ⟨tenant, hsome⟩ := Option.ne_none_iff_exists'.mp (by simpa using htenant)
          exact ⟨tenant, hsome, hsome⟩

/-- The request's contract header verifies to these claims. -/
def ContractYields (names : TrustedHeaders) (verifier : ContractVerifier Key)
    (cache : KeyCache Key) (headers : HeaderMap) (claims : VerifiedClaims) : Prop :=
  ∃ token, headerValue headers names.contract = some token ∧
    (verifier.verify cache token).1 = .ok claims

/-- In trusted mode an accepted request has the tenant of its own sub-mode's
source: the tenant header, or the workspace of the verified claims. -/
theorem resolveIdentity_source (trusted : TrustedRuntime Key) (cache : KeyCache Key)
    (headers : HeaderMap) (accepted : Option TrustedIdentity)
    (hok : (resolveIdentity (some trusted) cache headers).1 = .ok accepted) :
    ∃ identity tenant, accepted = some identity ∧ identity.tenant = some tenant ∧
      ((trusted.contract = none ∧
          headerValue headers trusted.headers.tenant = some tenant) ∨
        ∃ verifier claims, trusted.contract = some verifier ∧
          ContractYields trusted.headers verifier cache headers claims ∧
          claims.tenant = some tenant) := by
  unfold resolveIdentity at hok
  cases hcontract : trusted.contract with
  | none =>
      simp only [hcontract] at hok
      obtain ⟨identity, hresolved, haccepted⟩ := finishIdentity_ok trusted _ accepted hok
      obtain ⟨tenant, hheader, htenant⟩ :=
        resolveIdentityHeaders_tenant trusted headers identity hresolved
      exact ⟨identity, tenant, haccepted, htenant, .inl ⟨rfl, hheader⟩⟩
  | some verifier =>
      simp only [hcontract] at hok
      obtain ⟨identity, hresolved, haccepted⟩ := finishIdentity_ok trusted _ accepted hok
      unfold resolveIdentityContract at hresolved
      cases htoken : headerValue headers trusted.headers.contract with
      | none => simp [htoken] at hresolved
      | some token =>
          simp only [htoken] at hresolved
          cases hverify : verifier.verify cache token with
          | mk outcome cache' =>
              cases outcome with
              | error err => simp [hverify] at hresolved
              | ok claims =>
                  simp only [hverify] at hresolved
                  obtain ⟨tenant, hclaims, htenant⟩ :=
                    admitClaims_tenant headers _ claims identity hresolved
                  exact ⟨identity, tenant, haccepted, htenant, .inr ⟨verifier, claims, rfl,
                    ⟨token, htoken, by rw [hverify]⟩, hclaims⟩⟩

/-- In trusted mode an accepted request has an identity with a tenant. -/
theorem resolveIdentity_tenant (trusted : TrustedRuntime Key) (cache : KeyCache Key)
    (headers : HeaderMap) (accepted : Option TrustedIdentity)
    (hok : (resolveIdentity (some trusted) cache headers).1 = .ok accepted) :
    ∃ identity tenant, accepted = some identity ∧ identity.tenant = some tenant := by
  obtain ⟨identity, tenant, haccepted, htenant, -⟩ :=
    resolveIdentity_source trusted cache headers accepted hok
  exact ⟨identity, tenant, haccepted, htenant⟩

theorem validateInputSizes_ok (scriptBytes contextBytes maxScript maxContext : Nat)
    (hok : validateInputSizes scriptBytes contextBytes maxScript maxContext = .ok ()) :
    scriptBytes ≤ maxScript ∧ contextBytes ≤ maxContext := by
  unfold validateInputSizes at hok
  split at hok
  · cases hok
  · split at hok
    · cases hok
    · omega

/-- With a quota configured, a passed quota gate holds the tenant's guard. -/
theorem enforceQuota_holds (trusted : TrustedRuntime Key) (identity : TrustedIdentity)
    (limits : PlanLimits) (tenant : String) (table : Inflight)
    (held : Option QuotaGuard) (hquota : trusted.quota = some limits)
    (htenant : identity.tenant = some tenant)
    (hok : (enforceQuota (some trusted) (some identity) table).1 = .ok held) :
    held = some ⟨tenant⟩ := by
  simp only [enforceQuota, hquota, htenant] at hok
  cases hanswer : admitExecution limits table tenant identity.plan with
  | mk outcome table' =>
      cases outcome with
      | error exceeded => simp [hanswer] at hok
      | ok guard =>
          have hguard := admitExecution_guard limits table tenant identity.plan guard
            (by rw [hanswer])
          simp only [hanswer, hguard] at hok
          exact (Except.ok.inj hok).symm

/-! ### Contract sub-mode as a two-run law -/

/-- The box in contract sub-mode, at a moment with the given verifier. -/
def TrustedRuntime.withContract (trusted : TrustedRuntime Key)
    (verifier : ContractVerifier Key) : TrustedRuntime Key :=
  { trusted with contract := some verifier }

/-- The gateway signals that travel as plain headers. -/
def SameGatewayHeaders (names : TrustedHeaders) (h₁ h₂ : HeaderMap) : Prop :=
  h₁.get names.mode = h₂.get names.mode ∧
  h₁.get names.capture = h₂.get names.capture ∧
  h₁.get names.logLevel = h₂.get names.logLevel

/-- Both rejected with the same envelope and audit reason, or both accepted
with identities that agree on every field but the scope header. -/
def SameOutcome :
    Except Rejection (Option TrustedIdentity) →
    Except Rejection (Option TrustedIdentity) → Prop
  | .error r₁, .error r₂ => r₁ = r₂
  | .ok (some id₁), .ok (some id₂) => { id₁ with scope := id₂.scope } = id₂
  | _, _ => False

/-- Rejected, with this code in the envelope and in the audit event. -/
def DeniedWith (code : String) (outcome : Except Rejection (Option TrustedIdentity)) :
    Prop :=
  ∃ rejection, outcome = .error rejection ∧ rejection.envelope.code = code ∧
    rejection.auditReason = some code

theorem headerValue_congr (h₁ h₂ : HeaderMap) (name : String)
    (heq : h₁.get name = h₂.get name) :
    headerValue h₁ name = headerValue h₂ name := by
  unfold headerValue
  rw [heq]

/-- After the overlay only the gateway signals and the scope still come from
headers. -/
theorem applyContract_agrees (names : TrustedHeaders) (h₁ h₂ : HeaderMap)
    (claims : VerifiedClaims) (hsame : SameGatewayHeaders names h₁ h₂) :
    { (TrustedIdentity.fromHeaders h₁ names).applyContract claims with
      scope := ((TrustedIdentity.fromHeaders h₂ names).applyContract claims).scope } =
    (TrustedIdentity.fromHeaders h₂ names).applyContract claims := by
  obtain ⟨hmode, hcapture, hlevel⟩ := hsame
  have hmodeEq : headerMode h₁ names.mode = headerMode h₂ names.mode := by
    unfold headerMode
    rw [headerValue_congr h₁ h₂ names.mode hmode]
  have hcaptureEq : headerFlag h₁ names.capture = headerFlag h₂ names.capture := by
    unfold headerFlag
    rw [headerValue_congr h₁ h₂ names.capture hcapture]
  have hlevelEq := headerValue_congr h₁ h₂ names.logLevel hlevel
  simp only [TrustedIdentity.applyContract, TrustedIdentity.fromHeaders,
    hmodeEq, hcaptureEq, hlevelEq]

/-- A verified contract decides by its claims alone. -/
theorem resolveIdentity_of_yields (trusted : TrustedRuntime Key)
    (verifier : ContractVerifier Key) (cache : KeyCache Key)
    (headers : HeaderMap) (claims : VerifiedClaims)
    (hyields : ContractYields trusted.headers verifier cache headers claims) :
    (resolveIdentity (some (trusted.withContract verifier)) cache headers).1 =
      finishIdentity trusted (admitClaims headers trusted.headers claims) := by
  obtain ⟨token, htoken, hverify⟩ := hyields
  cases hresult : verifier.verify cache token with
  | mk outcome cache' =>
      rw [hresult] at hverify
      simp only at hverify
      subst hverify
      simp only [resolveIdentity, TrustedRuntime.withContract,
        resolveIdentityContract, htoken, hresult]
      cases admitClaims headers trusted.headers claims <;> rfl

theorem principalKind_denied (trusted : TrustedRuntime Key) (identity : TrustedIdentity)
    (hkind : principalKindAdmitted trusted.allowedPrincipalKinds
      identity.principalKind = false) :
    DeniedWith "PRINCIPAL_KIND_FORBIDDEN" (finishIdentity trusted (.ok identity)) := by
  refine ⟨denyIdentity "PRINCIPAL_KIND_FORBIDDEN"
    "this box does not admit the caller's principal kind", ?_, rfl, rfl⟩
  simp [finishIdentity, enforcePrincipalKindAdmission, hkind]

theorem sameOutcome_of_claims (trusted : TrustedRuntime Key) (h₁ h₂ : HeaderMap)
    (claims : VerifiedClaims)
    (hsame : SameGatewayHeaders trusted.headers h₁ h₂) :
    SameOutcome (finishIdentity trusted (admitClaims h₁ trusted.headers claims))
      (finishIdentity trusted (admitClaims h₂ trusted.headers claims)) := by
  have hagree := applyContract_agrees trusted.headers h₁ h₂ claims hsame
  unfold admitClaims
  cases hsuspended : claims.suspended with
  | none => rfl
  | some suspended =>
      cases suspended with
      | true => rfl
      | false =>
          cases htenant : claims.tenant with
          | none => simp [TrustedIdentity.applyContract, htenant, finishIdentity,
              SameOutcome]
          | some tenant =>
              cases hkind : principalKindAdmitted trusted.allowedPrincipalKinds
                  claims.principalKind with
              | true =>
                  simpa [TrustedIdentity.applyContract, htenant, finishIdentity,
                    enforcePrincipalKindAdmission, hkind, SameOutcome] using hagree
              | false =>
                  simp [TrustedIdentity.applyContract, htenant, finishIdentity,
                    enforcePrincipalKindAdmission, hkind, SameOutcome]

theorem missing_contract_denied (trusted : TrustedRuntime Key)
    (verifier : ContractVerifier Key) (cache : KeyCache Key) (headers : HeaderMap)
    (hmissing : headerValue headers trusted.headers.contract = none) :
    DeniedWith "CONTRACT_MISSING"
      (resolveIdentity (some (trusted.withContract verifier)) cache headers).1 := by
  refine ⟨denyIdentity "CONTRACT_MISSING" "a verifiable identity contract is required",
    ?_, rfl, rfl⟩
  simp [resolveIdentity, TrustedRuntime.withContract, resolveIdentityContract,
    hmissing, finishIdentity]

theorem unverified_contract_denied (trusted : TrustedRuntime Key)
    (verifier : ContractVerifier Key) (cache : KeyCache Key) (headers : HeaderMap)
    (token : String) (err : ContractError)
    (htoken : headerValue headers trusted.headers.contract = some token)
    (hverify : (verifier.verify cache token).1 = .error err) :
    DeniedWith err.code
      (resolveIdentity (some (trusted.withContract verifier)) cache headers).1 := by
  refine ⟨denyIdentity err.code err.message, ?_, rfl, rfl⟩
  cases hresult : verifier.verify cache token with
  | mk outcome cache' =>
      rw [hresult] at hverify
      simp only at hverify
      subst hverify
      simp [resolveIdentity, TrustedRuntime.withContract, resolveIdentityContract,
        htoken, hresult, finishIdentity]

theorem claims_denied (trusted : TrustedRuntime Key) (headers : HeaderMap)
    (claims : VerifiedClaims) :
    (claims.suspended = some true → DeniedWith "SUSPENDED_FORBIDDEN"
      (finishIdentity trusted (admitClaims headers trusted.headers claims))) ∧
    (claims.suspended = none → DeniedWith "SUSPENDED_UNKNOWN"
      (finishIdentity trusted (admitClaims headers trusted.headers claims))) ∧
    (claims.suspended = some false → claims.tenant = none →
      DeniedWith "TENANT_REQUIRED"
        (finishIdentity trusted (admitClaims headers trusted.headers claims))) ∧
    (claims.suspended = some false → claims.tenant ≠ none →
      principalKindAdmitted trusted.allowedPrincipalKinds claims.principalKind = false →
      DeniedWith "PRINCIPAL_KIND_FORBIDDEN"
        (finishIdentity trusted (admitClaims headers trusted.headers claims))) := by
  refine ⟨?_, ?_, ?_, ?_⟩
  · intro hsuspended
    simp only [admitClaims, hsuspended]
    exact ⟨_, rfl, rfl, rfl⟩
  · intro hsuspended
    simp only [admitClaims, hsuspended]
    exact ⟨_, rfl, rfl, rfl⟩
  · intro hsuspended htenant
    simp only [admitClaims, hsuspended, TrustedIdentity.applyContract, htenant]
    exact ⟨_, rfl, rfl, rfl⟩
  · intro hsuspended htenant hkind
    have hnone : claims.tenant.isNone = false := by
      simpa [Option.isSome_iff_ne_none] using htenant
    simp only [admitClaims, hsuspended, TrustedIdentity.applyContract, hnone]
    exact principalKind_denied trusted _ hkind

theorem claims_never_accepted (trusted : TrustedRuntime Key) (headers : HeaderMap)
    (claims : VerifiedClaims)
    (hunfit : claims.suspended ≠ some false ∨ claims.tenant = none ∨
      principalKindAdmitted trusted.allowedPrincipalKinds claims.principalKind = false) :
    ∃ code, DeniedWith code
      (finishIdentity trusted (admitClaims headers trusted.headers claims)) := by
  obtain ⟨hsuspended, hunknown, htenant, hkind⟩ := claims_denied trusted headers claims
  cases hstate : claims.suspended with
  | none => exact ⟨_, hunknown hstate⟩
  | some suspended =>
      cases suspended with
      | true => exact ⟨_, hsuspended hstate⟩
      | false =>
          by_cases hnone : claims.tenant = none
          · exact ⟨_, htenant hstate hnone⟩
          · have hforbidden : principalKindAdmitted trusted.allowedPrincipalKinds
                claims.principalKind = false := by
              simpa [hstate, hnone] using hunfit
            exact ⟨_, hkind hstate hnone hforbidden⟩

/-- Contract sub-mode never reads a sensitive field from a header: two
requests with the same verified claims resolve alike, at any two moments of
the box, and every contract that does not vouch for an active, tenant-bound
principal of an admitted kind is refused. -/
theorem contract_identity_law (trusted : TrustedRuntime Key)
    (v₁ v₂ : ContractVerifier Key) (cache₁ cache₂ : KeyCache Key)
    (h₁ h₂ : HeaderMap) :
    (∀ claims, ContractYields trusted.headers v₁ cache₁ h₁ claims →
      ContractYields trusted.headers v₂ cache₂ h₂ claims →
      SameGatewayHeaders trusted.headers h₁ h₂ →
      SameOutcome (resolveIdentity (some (trusted.withContract v₁)) cache₁ h₁).1
        (resolveIdentity (some (trusted.withContract v₂)) cache₂ h₂).1) ∧
    (headerValue h₁ trusted.headers.contract = none →
      DeniedWith "CONTRACT_MISSING"
        (resolveIdentity (some (trusted.withContract v₁)) cache₁ h₁).1) ∧
    (∀ token err, headerValue h₁ trusted.headers.contract = some token →
      (v₁.verify cache₁ token).1 = .error err →
      DeniedWith err.code
        (resolveIdentity (some (trusted.withContract v₁)) cache₁ h₁).1) ∧
    (∀ claims, ContractYields trusted.headers v₁ cache₁ h₁ claims →
      (claims.suspended ≠ some false ∨ claims.tenant = none ∨
        principalKindAdmitted trusted.allowedPrincipalKinds
          claims.principalKind = false →
        ∃ code, DeniedWith code
          (resolveIdentity (some (trusted.withContract v₁)) cache₁ h₁).1) ∧
      (claims.suspended = some true → DeniedWith "SUSPENDED_FORBIDDEN"
        (resolveIdentity (some (trusted.withContract v₁)) cache₁ h₁).1) ∧
      (claims.suspended = none → DeniedWith "SUSPENDED_UNKNOWN"
        (resolveIdentity (some (trusted.withContract v₁)) cache₁ h₁).1) ∧
      (claims.suspended = some false → claims.tenant = none →
        DeniedWith "TENANT_REQUIRED"
          (resolveIdentity (some (trusted.withContract v₁)) cache₁ h₁).1) ∧
      (claims.suspended = some false → claims.tenant ≠ none →
        principalKindAdmitted trusted.allowedPrincipalKinds
          claims.principalKind = false →
        DeniedWith "PRINCIPAL_KIND_FORBIDDEN"
          (resolveIdentity (some (trusted.withContract v₁)) cache₁ h₁).1)) := by
  refine ⟨?_, missing_contract_denied trusted v₁ cache₁ h₁,
    unverified_contract_denied trusted v₁ cache₁ h₁, ?_⟩
  · intro claims hyields₁ hyields₂ hsame
    rw [resolveIdentity_of_yields trusted v₁ cache₁ h₁ claims hyields₁,
      resolveIdentity_of_yields trusted v₂ cache₂ h₂ claims hyields₂]
    exact sameOutcome_of_claims trusted h₁ h₂ claims hsame
  · intro claims hyields
    rw [resolveIdentity_of_yields trusted v₁ cache₁ h₁ claims hyields]
    exact ⟨claims_never_accepted trusted h₁ claims, claims_denied trusted h₁ claims⟩

def sampleNames : TrustedHeaders where
  tenant := "x-workspace-id"
  user := "x-user-id"
  roles := "x-user-roles"
  entitlements := "x-user-entitlements"
  suspended := "x-user-suspended"
  anonymous := "x-auth-anonymous"
  plan := "x-workspace-plan"
  scope := "x-tenant-scope"
  mode := "x-runlet-mode"
  capture := "x-runlet-capture"
  logLevel := "x-runlet-log-level"
  contract := "x-identity-contract"

def sampleTrusted : TrustedRuntime Unit where
  headers := sampleNames
  capabilityEntitlements := [("orders", "db")]
  allowedPrincipalKinds := ["user"]
  quota := none
  contract := none

def sampleClaims : Claims where
  sub := some "u_42"
  workspaceId := some "ws_acme"
  principalKind := some "user"
  onBehalfOf := none
  roles := ["member"]
  entitlements := none
  suspended := some false
  plan := some "pro"
  ctr := "1"

/-- Knows one key and one token. -/
def sampleVerifier : ContractVerifier Unit where
  decodeHeader := fun token => if token = "tok" then some (some "k1") else none
  decode := fun token _ => if token = "tok" then some sampleClaims else none
  fetchKeys := some [("k1", ())]
  supportedCtr := ["1"]
  minRefresh := 60
  now := 100

/-- A forged tenant and role beside a valid contract change nothing. -/
theorem contract_identity_law_sample :
    SameOutcome
      (resolveIdentity (some (sampleTrusted.withContract sampleVerifier)) ⟨[], none⟩
        [("x-identity-contract", [116, 111, 107]), ("x-workspace-id", [101, 118]),
          ("x-user-roles", [97, 100, 109, 105, 110])]).1
      (resolveIdentity (some (sampleTrusted.withContract sampleVerifier))
        ⟨[("k1", ())], some 90⟩ [("x-identity-contract", [116, 111, 107])]).1 :=
  (contract_identity_law sampleTrusted sampleVerifier sampleVerifier ⟨[], none⟩
    ⟨[("k1", ())], some 90⟩ _ _).1 sampleClaims.intoVerified
    ⟨"tok", by decide, by rfl⟩ ⟨"tok", by decide, by rfl⟩
    ⟨by decide, by decide, by decide⟩

end Runlet.Gates
