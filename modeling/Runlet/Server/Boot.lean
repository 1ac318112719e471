import Runlet.Core.LocalEgress
import Runlet.Server.Contexts
import Runlet.Server.Execute

/-!
From the configuration to the running box: the environment overrides and the startup
guards of `config/guards.rs`, the wiring of `main`, and what both mean for a request. The
guards look at the configuration only, the gates at the request only; what holds of an
execution needs the two together.
-/

namespace Runlet.Boot

open Contexts Errors Execute Gates Http Identity Quota Ssrf Text

/-! ### The configuration -/

structure ContractConfig where
  enabled : Bool
  jwksUrl : String
  issuer : String
  audience : String
  supportedCtr : List String
  leewaySecs : Nat
  minRefreshSecs : Nat

structure QuotaConfig where
  enabled : Bool
  plans : PlanLimits

structure TrustedConfig where
  enabled : Bool
  assertNetworkIsolation : Bool
  headers : TrustedHeaders
  capabilityEntitlements : List (String × String)
  allowedPrincipalKinds : List String
  quota : QuotaConfig
  contract : ContractConfig

structure Config where
  debug : Bool
  host : IpAddr
  engine : EngineConfig
  maxScriptSize : Nat
  timeoutMs : Nat
  allowWildcardHosts : Bool
  accessToken : Option String
  allowUnauthenticated : Bool
  localResources : List (String × String)
  trusted : TrustedConfig
  defaultCurrency : Option String

def isTruthy (raw : String) : Bool :=
  ["1", "true", "yes", "on"].contains (toAsciiLowercase (trim raw))

/-- `RUNLET_ACCESS_TOKEN` and `RUNLET_ALLOW_UNAUTHENTICATED` over the file. -/
def Config.applyAuthOverrides (config : Config) (accessToken allow : Option String) : Config :=
  { config with
    accessToken := (accessToken.filter fun token => token ≠ "").or config.accessToken
    allowUnauthenticated := config.allowUnauthenticated || allow.any isTruthy }

/-- `Config::load`, once the file is read. -/
def Config.load (file : Config) (accessToken allow : Option String) : Except String Config :=
  match file.engine.resolveLimits with
  | none => .error ("max_context_size (" ++ toString file.engine.maxContextSize ++
      " bytes) exceeds the parse ceiling memory_limit/" ++ toString parseHeapFactor ++ " (" ++
      toString (file.engine.memoryLimit / parseHeapFactor) ++ " bytes): a context that large " ++
      "cannot be parsed within the " ++ toString file.engine.memoryLimit ++ "-byte memory " ++
      "limit and would fail at runtime. Lower it to <= " ++
      toString (file.engine.memoryLimit / parseHeapFactor) ++ " bytes, omit it to auto-derive " ++
      "memory_limit/" ++ toString contextLimitDivisor ++ ", or raise memory_limit.")
  | some engine => .ok { file.applyAuthOverrides accessToken allow with engine := engine }

/-! ### The guards -/

/-- `IpAddr::is_loopback`: an IPv4-mapped loopback address is none. -/
def isLoopback : IpAddr → Bool
  | .v4 ip => ip.a == 127
  | .v6 ip => ip == Ipv6Addr.localhost

def ensure (holds : Bool) (refusal : String) : Except String Unit :=
  if holds then .ok () else .error refusal

@[simp] theorem ensure_eq_ok {holds : Bool} {refusal : String} :
    ensure holds refusal = .ok () ↔ holds = true := by
  cases holds <;> simp [ensure]

theorem andThen_eq_ok {first second : Except String Unit} :
    (first >>= fun _ => second) = .ok () ↔ first = .ok () ∧ second = .ok () := by
  cases first with
  | error err =>
      constructor
      · intro h
        cases h
      · rintro ⟨h, -⟩
        cases h
  | ok _ => exact ⟨fun h => ⟨rfl, h⟩, fun h => h.2⟩

section Guards

variable (net : NetLib) (lookup : Lookup)

def Config.checkTrustedIsolation (config : Config) (exposed : Bool) : Except String Unit :=
  ensure (!(config.trusted.enabled && exposed && !config.trusted.assertNetworkIsolation))
    ("refusing to start: trusted-header mode is enabled on " ++ fmtIp net.v6 config.host ++
      " (non-loopback) but `trusted.assert_network_isolation` is unset. The box then trusts " ++
      "`x-*` identity headers blindly, so it must be reachable only through the edge (enforce " ++
      "with a NetworkPolicy). Bind loopback, or set `trusted.assert_network_isolation: true` " ++
      "once the isolation is in place.")

def Config.checkSsrfRelaxation (config : Config) (exposed : Bool) : Except String Unit :=
  let which :=
    if config.debug then "`debug` (relaxes the private-IP SSRF block)"
    else "`engine.allow_wildcard_hosts` (permits a `*` host allowlist)"
  ensure (!((config.debug || config.allowWildcardHosts) && exposed &&
      !config.trusted.assertNetworkIsolation))
    ("refusing to start: " ++ which ++ " is active on " ++ fmtIp net.v6 config.host ++
      " (non-loopback) but `trusted.assert_network_isolation` is unset. That relaxation leaves " ++
      "the IP classifier as the sole SSRF defense, so the bind must be reachable only through " ++
      "a trusted edge (enforce with a NetworkPolicy). Bind loopback, drop the relaxation, or " ++
      "set `trusted.assert_network_isolation: true` once egress is firewalled at the infra layer.")

/-- The source walks a map: any order refuses the same configurations. -/
def checkBindings : List (String × String) → Except String Unit
  | [] => .ok ()
  | (name, url) :: rest =>
      match checkLocalEgressUrl net lookup url with
      | .error err => .error ("refusing to start: box-direct local resource '" ++ name ++
          "' -> '" ++ url ++ "' is invalid: " ++ err ++ ". A box-direct binding must be a " ++
          "loopback/private (co-located) http(s) endpoint; a remote target must go through a " ++
          "broker.")
      | .ok () => checkBindings rest

def Config.checkLocalResources (config : Config) : Except String Unit :=
  checkBindings net lookup config.localResources

def ContractConfig.missing (contract : ContractConfig) : Option String :=
  if trim contract.jwksUrl = "" then some "jwks_url"
  else if trim contract.issuer = "" then some "issuer"
  else if trim contract.audience = "" then some "audience"
  else none

def Config.checkContractConfig (config : Config) : Except String Unit :=
  if !config.trusted.contract.enabled then .ok ()
  else
    match config.trusted.contract.missing with
    | some field => .error ("refusing to start: `trusted.contract.enabled` is set but " ++
        "`trusted.contract." ++ field ++ "` is empty. Signed-contract verification requires a " ++
        "JWKS source, the expected issuer, and this box's audience (pool name) — set all three, " ++
        "or disable the sub-mode to fall back to the plain trusted-header path.")
    | none => .ok ()

def validPrincipalKinds : List String := ["user", "apikey", "service"]

def unknownKind (allowed : List String) : Option String :=
  allowed.find? fun kind => !validPrincipalKinds.contains kind

def Config.checkPrincipalKindAdmission (config : Config) : Except String Unit :=
  let allowed := config.trusted.allowedPrincipalKinds
  if allowed.isEmpty then .ok ()
  else if !config.trusted.contract.enabled then
    .error ("refusing to start: `trusted.allowed_principal_kinds` is non-empty but " ++
      "`trusted.contract.enabled` is false. Principal kind is populated only by a verified " ++
      "signed contract, so without the contract sub-mode every request would be denied. Enable " ++
      "`trusted.contract`, or clear the allowlist to admit all kinds.")
  else
    match unknownKind allowed with
    | some bad => .error ("refusing to start: `trusted.allowed_principal_kinds` names unknown " ++
        "kind `" ++ bad ++ "`. Valid kinds are [\"user\", \"apikey\", \"service\"]; a verified " ++
        "contract never asserts any other value, so this entry would only ever fail closed.")
    | none => .ok ()

def Config.checkExposure (config : Config) : Except String Unit := do
  let exposed := !isLoopback config.host
  ensure (!(exposed && config.accessToken.isNone && !config.allowUnauthenticated))
    ("refusing to start: binding " ++ fmtIp net.v6 config.host ++ " (non-loopback) with no " ++
      "`access_token` and `allow_unauthenticated` unset. /execute runs caller-supplied code " ++
      "with caller-supplied credentials, so an unauthenticated reachable port is a full " ++
      "compromise. Set a token (`access_token` in config, or `RUNLET_ACCESS_TOKEN=<secret>` in " ++
      "the environment), bind loopback, or opt out with `allow_unauthenticated: true` (or " ++
      "`RUNLET_ALLOW_UNAUTHENTICATED=1`) if auth is terminated upstream.")
  config.checkTrustedIsolation net exposed
  config.checkSsrfRelaxation net exposed
  config.checkLocalResources net lookup
  config.checkContractConfig
  config.checkPrincipalKindAdmission

/-! ### What the guards let through -/

/-- What a configuration that starts is known to have. -/
structure Config.Guarded (config : Config) : Prop where
  gated : isLoopback config.host = true ∨ config.accessToken.isSome = true ∨
    config.allowUnauthenticated = true
  isolated : isLoopback config.host = true ∨ config.trusted.assertNetworkIsolation = true ∨
    config.trusted.enabled = false ∧ config.debug = false ∧ config.allowWildcardHosts = false
  colocated : ∀ entry ∈ config.localResources, checkLocalEgressUrl net lookup entry.2 = .ok ()
  addressed : config.trusted.contract.enabled = true → config.trusted.contract.missing = none
  kinds : config.trusted.allowedPrincipalKinds ≠ [] → config.trusted.contract.enabled = true ∧
    ∀ kind ∈ config.trusted.allowedPrincipalKinds, kind ∈ validPrincipalKinds

variable {net lookup}

theorem checkBindings_eq_ok {bindings : List (String × String)} :
    checkBindings net lookup bindings = .ok () ↔
      ∀ entry ∈ bindings, checkLocalEgressUrl net lookup entry.2 = .ok () := by
  induction bindings with
  | nil => simp [checkBindings]
  | cons entry rest ih =>
      rw [checkBindings, List.forall_mem_cons]
      cases hcheck : checkLocalEgressUrl net lookup entry.2 with
      | error err => simp
      | ok _ => simpa using ih

theorem checkContractConfig_eq_ok {config : Config} :
    config.checkContractConfig = .ok () ↔
      (config.trusted.contract.enabled = true → config.trusted.contract.missing = none) := by
  unfold Config.checkContractConfig
  cases config.trusted.contract.enabled with
  | false => simp
  | true => cases config.trusted.contract.missing <;> simp

theorem unknownKind_eq_none {allowed : List String} :
    unknownKind allowed = none ↔ ∀ kind ∈ allowed, kind ∈ validPrincipalKinds := by
  simp only [unknownKind, List.find?_eq_none, Bool.not_eq_true', Bool.not_eq_false,
    List.contains_iff_mem]

theorem checkPrincipalKindAdmission_eq_ok {config : Config} :
    config.checkPrincipalKindAdmission = .ok () ↔
      (config.trusted.allowedPrincipalKinds ≠ [] → config.trusted.contract.enabled = true ∧
        ∀ kind ∈ config.trusted.allowedPrincipalKinds, kind ∈ validPrincipalKinds) := by
  simp only [Config.checkPrincipalKindAdmission, ← unknownKind_eq_none]
  cases hallowed : config.trusted.allowedPrincipalKinds with
  | nil => simp
  | cons first rest =>
      cases config.trusted.contract.enabled with
      | false => simp
      | true => cases unknownKind (first :: rest) <;> simp

theorem checkExposure_eq_ok {config : Config} :
    config.checkExposure net lookup = .ok () ↔ config.Guarded net lookup := by
  have hgated : (!(!isLoopback config.host && config.accessToken.isNone &&
      !config.allowUnauthenticated)) = true ↔ isLoopback config.host = true ∨
        config.accessToken.isSome = true ∨ config.allowUnauthenticated = true := by
    cases isLoopback config.host <;> cases config.accessToken <;>
      cases config.allowUnauthenticated <;> simp
  have hisolated : (!(config.trusted.enabled && !isLoopback config.host &&
        !config.trusted.assertNetworkIsolation)) = true ∧
      (!((config.debug || config.allowWildcardHosts) && !isLoopback config.host &&
        !config.trusted.assertNetworkIsolation)) = true ↔ isLoopback config.host = true ∨
          config.trusted.assertNetworkIsolation = true ∨ config.trusted.enabled = false ∧
            config.debug = false ∧ config.allowWildcardHosts = false := by
    cases isLoopback config.host <;> cases config.trusted.assertNetworkIsolation <;> simp
  simp only [Config.checkExposure, andThen_eq_ok, Config.checkTrustedIsolation,
    Config.checkSsrfRelaxation, Config.checkLocalResources, ensure_eq_ok, checkBindings_eq_ok,
    checkContractConfig_eq_ok, checkPrincipalKindAdmission_eq_ok, hgated]
  constructor
  · rintro ⟨hopen, htrusted, hrelaxed, hlocal, hcontract, hkinds⟩
    exact ⟨hopen, hisolated.mp ⟨htrusted, hrelaxed⟩, hlocal, hcontract, hkinds⟩
  · rintro ⟨hopen, hkept, hlocal, hcontract, hkinds⟩
    obtain ⟨htrusted, hrelaxed⟩ := hisolated.mpr hkept
    exact ⟨hopen, htrusted, hrelaxed, hlocal, hcontract, hkinds⟩

end Guards

/-! ### The wiring -/

/-- The JWT library, the JWKS endpoint and the clock (in nanoseconds), as one request meets
them. -/
structure Jwt (Key : Type) where
  decodeHeader : String → Option (Option String)
  decode : (issuer audience : String) → (leewaySecs : Nat) → String → Key → Option Claims
  fetchKeys : (jwksUrl : String) → Option (List (String × Key))
  now : Nat

variable {Key S3 Sys Outcome : Type}

/-- `ContractVerifier::new` -/
def ContractConfig.verifier (contract : ContractConfig) (jwt : Jwt Key) : ContractVerifier Key where
  decodeHeader := jwt.decodeHeader
  decode := jwt.decode contract.issuer contract.audience contract.leewaySecs
  fetchKeys := jwt.fetchKeys contract.jwksUrl
  supportedCtr := contract.supportedCtr
  minRefresh := contract.minRefreshSecs * 1000000000
  now := jwt.now

def Config.trustedRuntime (config : Config) (jwt : Jwt Key) : Option (TrustedRuntime Key) :=
  if config.trusted.enabled then
    some
      { headers := config.trusted.headers
        capabilityEntitlements := config.trusted.capabilityEntitlements
        allowedPrincipalKinds := config.trusted.allowedPrincipalKinds
        quota := if config.trusted.quota.enabled then some config.trusted.quota.plans else none
        contract :=
          if config.trusted.contract.enabled then some (config.trusted.contract.verifier jwt)
          else none }
  else none

/-- The state `main` serves requests with. What it loads or builds elsewhere is given: the
script registry and the broker transport. -/
def Config.appState (config : Config) (jwt : Jwt Key) (registry : List (String × String))
    (transport : BrokerTransport) (hash : String → Nat) : AppState Key where
  accessToken := config.accessToken
  trusted := config.trustedRuntime jwt
  registry := registry
  maxScriptSize := config.maxScriptSize
  maxContextSize := config.engine.maxContextSize
  timeoutMs := config.timeoutMs
  localResources := config.localResources
  transport := transport
  host := ⟨[], false⟩
  defaultCurrency := config.defaultCurrency
  hash := hash

/-! ### What an execution has behind it -/

/-- The request carries the token. -/
def Presents (headers : HeaderMap) (expected : String) : Prop :=
  ∃ bytes value scheme token, headers.get "authorization" = some bytes ∧
    toStr bytes = some value ∧ scheme ∈ ["Bearer ", "bearer "] ∧ value = scheme ++ token ∧
    trim token = expected

theorem presents_of_authorized {headers : HeaderMap} {expected : String}
    (h : requestAuthorized headers expected = true) : Presents headers expected := by
  unfold requestAuthorized at h
  split at h
  · cases h
  · next value hvalue =>
      obtain ⟨bytes, hbytes, htext⟩ := Option.bind_eq_some_iff.mp hvalue
      split at h
      · next token htoken =>
          refine ⟨bytes, value, "Bearer ", String.ofList token, hbytes, htext, by simp, ?_, ?_⟩
          · apply String.toList_injective
            simp [htoken]
          · rw [trim, String.toList_ofList, beq_iff_eq.mp h, String.ofList_toList]
      · next token htoken =>
          refine ⟨bytes, value, "bearer ", String.ofList token, hbytes, htext, by simp, ?_, ?_⟩
          · apply String.toList_injective
            simp [htoken]
          · rw [trim, String.toList_ofList, beq_iff_eq.mp h, String.ofList_toList]
      · cases h

/-- What an execution starts with, whatever the configuration. -/
structure Started (state : AppState Key) (env : Env Key S3 Sys Outcome) (headers : HeaderMap)
    (params : ExecuteBlocking S3 Sys) : Prop where
  authorized : enforceAuth state.accessToken headers = .ok ()
  identified : ∃ identity, (resolveIdentity state.trusted env.cache headers).1 = .ok identity ∧
    params.principalKind = identity.bind (·.principalKind)
  bindings : params.localResources = state.localResources
  context : params.contextJson.utf8ByteSize ≤ state.maxContextSize

def StartRule (state : AppState Key) (env : Env Key S3 Sys Outcome) (headers : HeaderMap)
    (_ : List (Event S3 Sys)) : Event S3 Sys → Prop
  | .executionStarted params => Started state env headers params
  | _ => True

theorem openSession_started (state : AppState Key) (env : Env Key S3 Sys Outcome)
    (headers : HeaderMap) (hist : List (Event S3 Sys)) (identity : Option TrustedIdentity)
    (io : List String) :
    Pipeline.Ordered (StartRule state env headers) hist (openSession state env identity io) := by
  apply Pipeline.ordered_of_forall
  intro event hevent before
  obtain ⟨_, heq⟩ | ⟨_, opened, _, heq⟩ | ⟨_, err, _, heq⟩ := openSession_cases state env identity io
  · rw [heq] at hevent
    cases hevent
  · rw [heq, List.mem_singleton] at hevent
    rw [hevent]
    trivial
  · rw [heq] at hevent
    rcases List.mem_cons.mp hevent with rfl | hlast
    · trivial
    · rw [List.mem_singleton.mp hlast]
      trivial

/-- An execution starts only behind the credential and the identity gate. -/
theorem runExecute_started (state : AppState Key) (env : Env Key S3 Sys Outcome)
    (headers : HeaderMap) (payload : Option (ExecRequest S3 Sys)) :
    Pipeline.Ordered (StartRule state env headers) [] (runExecute state env headers payload) := by
  unfold runExecute
  refine ordered_gate_bind _ _ _ _ _ (fun _ _ => trivial) (fun _ _ => trivial) ?_
  intro _ hauthorized
  refine ordered_gate_bind _ _ _ _ _ (fun _ _ => trivial) (fun _ _ => trivial) ?_
  intro identity hidentity
  refine ordered_gate_bind _ _ _ _ _ (fun _ _ => trivial) (fun _ _ => trivial) ?_
  intro request _
  refine ordered_gate_bind _ _ _ _ _ (fun _ _ => trivial) (fun _ _ => trivial) ?_
  intro _ _
  refine ordered_gate_bind _ _ _ _ _ (fun _ _ => trivial) (fun _ _ => trivial) ?_
  intro source _
  refine ordered_gate_bind _ _ _ _ _ (fun _ _ => trivial) (fun _ _ => trivial) ?_
  intro _ hsizes
  refine ordered_gate_bind _ _ _ _ _ (fun _ _ => trivial) (fun _ _ => trivial) ?_
  intro held _
  refine Pipeline.ordered_onExit _ _ _ _ ?_ ?_
  · unfold runAdmitted
    refine Pipeline.ordered_bind _ _ _ _ (openSession_started state env headers _ _ _) ?_
    intro session _
    refine ordered_gate_bind _ _ _ _ _ (fun _ _ => trivial) (fun _ _ => trivial) ?_
    intro _ _
    refine Pipeline.ordered_bind _ _ _ _ (Pipeline.ordered_emit _ _ _ ?_) ?_
    · exact ⟨hauthorized, ⟨identity, hidentity, rfl⟩, rfl,
        (validateInputSizes_ok _ _ _ _ hsizes).2⟩
    · intro _ _
      refine Pipeline.ordered_bind _ _ _ _ (Pipeline.ordered_emit _ _ _ trivial) ?_
      intro _ _
      exact Pipeline.ordered_pure _ _ _
  · intro before last rest hlast
    have hmem : last ∈ held.toList.map (Event.quotaReleased : QuotaGuard → Event S3 Sys) := by
      rw [hlast]
      simp
    obtain ⟨guard, _, rfl⟩ := List.mem_map.mp hmem
    trivial

/-- The token the operator gave, in the environment or in the file. -/
def operatorToken (file : Config) (accessToken : Option String) : Option String :=
  (accessToken.filter fun token => token ≠ "").or file.accessToken

/-- What an execution on a started box has behind it, in terms of the file and the
environment it was started with. -/
structure Admitted (net : NetLib) (lookup : Lookup) (file : Config)
    (accessToken allow : Option String) (jwt : Jwt Key) (env : Env Key S3 Sys Outcome)
    (headers : HeaderMap) (params : ExecuteBlocking S3 Sys) : Prop where
  credential : ∀ expected, operatorToken file accessToken = some expected →
    Presents headers expected
  gated : operatorToken file accessToken = none → isLoopback file.host = true ∨
    file.allowUnauthenticated = true ∨ ∃ raw, allow = some raw ∧ isTruthy raw = true
  isolated : isLoopback file.host = true ∨ file.trusted.assertNetworkIsolation = true ∨
    file.trusted.enabled = false ∧ file.debug = false ∧ file.allowWildcardHosts = false
  kind : file.trusted.enabled = true → file.trusted.allowedPrincipalKinds ≠ [] →
    ∃ kind ∈ file.trusted.allowedPrincipalKinds, kind ∈ validPrincipalKinds ∧
      params.principalKind = some kind ∧
      ∃ claims, ContractYields file.trusted.headers (file.trusted.contract.verifier jwt)
        env.cache headers claims ∧ claims.principalKind = some kind
  colocated : ∀ entry ∈ params.localResources, checkLocalEgressUrl net lookup entry.2 = .ok ()
  parsable : params.contextJson.utf8ByteSize ≤ file.engine.memoryLimit / parseHeapFactor

/-- The configuration the box starts with, by the file and the environment. -/
structure Loaded (file : Config) (accessToken allow : Option String) (config : Config) : Prop where
  token : config.accessToken = operatorToken file accessToken
  waived : config.allowUnauthenticated = (file.allowUnauthenticated || allow.any isTruthy)
  host : config.host = file.host
  debug : config.debug = file.debug
  wildcard : config.allowWildcardHosts = file.allowWildcardHosts
  trusted : config.trusted = file.trusted
  context : config.engine.maxContextSize ≤ file.engine.memoryLimit / parseHeapFactor

theorem resolveLimits_memory {config resolved : EngineConfig}
    (h : config.resolveLimits = some resolved) : resolved.memoryLimit = config.memoryLimit := by
  unfold EngineConfig.resolveLimits at h
  simp only [Option.ite_none_left_eq_some, Option.some.injEq] at h
  rw [← h.2]
  split <;> rfl

theorem loaded_of_load {file config : Config} {accessToken allow : Option String}
    (h : file.load accessToken allow = .ok config) : Loaded file accessToken allow config := by
  unfold Config.load at h
  cases hlimits : file.engine.resolveLimits with
  | none => simp [hlimits] at h
  | some engine =>
      simp only [hlimits, Except.ok.injEq] at h
      subst h
      refine ⟨rfl, rfl, rfl, rfl, rfl, rfl, ?_⟩
      rw [← resolveLimits_memory hlimits]
      exact resolveLimits_ceiling _ _ hlimits

theorem admitClaims_kind {headers : HeaderMap} {names : TrustedHeaders} {claims : VerifiedClaims}
    {identity : TrustedIdentity} (hok : admitClaims headers names claims = .ok identity) :
    identity.principalKind = claims.principalKind := by
  unfold admitClaims at hok
  cases hsuspended : claims.suspended with
  | none => simp [hsuspended] at hok
  | some suspended =>
      cases suspended with
      | true => simp [hsuspended] at hok
      | false =>
          simp only [hsuspended] at hok
          split at hok
          · cases hok
          · rw [← Except.ok.inj hok]
            rfl

/-- The kind of an accepted principal is the one its contract was verified with, and on the
allowlist where there is one. -/
theorem resolveIdentity_kind {trusted : TrustedRuntime Key} {verifier : ContractVerifier Key}
    {cache : KeyCache Key} {headers : HeaderMap} {accepted : Option TrustedIdentity}
    (hcontract : trusted.contract = some verifier) (hlisted : trusted.allowedPrincipalKinds ≠ [])
    (hok : (resolveIdentity (some trusted) cache headers).1 = .ok accepted) :
    ∃ kind ∈ trusted.allowedPrincipalKinds,
      accepted.bind (·.principalKind) = some kind ∧
      ∃ claims, ContractYields trusted.headers verifier cache headers claims ∧
        claims.principalKind = some kind := by
  simp only [resolveIdentity, hcontract] at hok
  unfold resolveIdentityContract at hok
  cases htoken : headerValue headers trusted.headers.contract with
  | none => simp [htoken, finishIdentity] at hok
  | some token =>
      simp only [htoken] at hok
      cases hverify : verifier.verify cache token with
      | mk verified after =>
          cases verified with
          | error err => simp [hverify, finishIdentity] at hok
          | ok claims =>
              simp only [hverify] at hok
              cases hadmission : admitClaims headers trusted.headers claims with
              | error rejection => simp [hadmission, finishIdentity] at hok
              | ok identity =>
                  have hkind := admitClaims_kind hadmission
                  have hempty : trusted.allowedPrincipalKinds.isEmpty = false := by
                    simpa using hlisted
                  simp only [hadmission, finishIdentity, enforcePrincipalKindAdmission,
                    principalKindAdmitted, hempty, Bool.false_or, hkind] at hok
                  cases hclaimed : claims.principalKind with
                  | none => simp [hclaimed] at hok
                  | some kind =>
                      by_cases hmem : kind ∈ trusted.allowedPrincipalKinds
                      · simp only [hclaimed, Option.any_some, List.contains_iff_mem.mpr hmem,
                          if_true, Except.ok.injEq] at hok
                        refine ⟨kind, hmem, ?_, claims, ⟨token, htoken, by rw [hverify]⟩, hclaimed⟩
                        rw [← hok, Option.bind_some, hkind, hclaimed]
                      · simp [hclaimed, hmem] at hok

/-- Nothing executes on a box that was started, whatever the request and its surroundings,
unless the operator's token came with it or was waived, the relaxations that need an isolated
network have it, the principal is of a listed kind by its own verified contract, and the
bindings it gets and its context are within the bounds of the guards. -/
theorem execution_admitted {net : NetLib} {lookup : Lookup} {file config : Config}
    {accessToken allow : Option String} {jwt : Jwt Key} {registry : List (String × String)}
    {transport : BrokerTransport} {hash : String → Nat} {env : Env Key S3 Sys Outcome}
    {headers : HeaderMap} {payload : Option (ExecRequest S3 Sys)}
    {params : ExecuteBlocking S3 Sys} (hload : file.load accessToken allow = .ok config)
    (hguards : config.checkExposure net lookup = .ok ())
    (hstart : .executionStarted params ∈
      (runExecute (config.appState jwt registry transport hash) env headers payload).trace) :
    Admitted net lookup file accessToken allow jwt env headers params := by
  have hloaded := loaded_of_load hload
  obtain ⟨hgated, hisolated, hcolocated, -, hkinds⟩ := checkExposure_eq_ok.mp hguards
  obtain ⟨before, rest, htrace⟩ := List.append_of_mem hstart
  obtain ⟨hauthorized, ⟨identity, hidentity, hprincipal⟩, hbindings, hcontext⟩ :=
    runExecute_started _ env headers payload before (.executionStarted params) rest htrace
  rw [hloaded.host] at hgated hisolated
  rw [hloaded.trusted] at hisolated hkinds
  refine ⟨?_, ?_, ?_, ?_, ?_, hcontext.trans hloaded.context⟩
  · intro expected htoken
    simp only [Config.appState, hloaded.token, htoken, enforceAuth] at hauthorized
    split at hauthorized
    · next hpresent => exact presents_of_authorized hpresent
    · cases hauthorized
  · intro hnone
    rcases hgated with hloopback | htoken | hwaived
    · exact .inl hloopback
    · rw [hloaded.token, hnone] at htoken
      cases htoken
    · rw [hloaded.waived, Bool.or_eq_true, Option.any_eq_true] at hwaived
      exact .inr hwaived
  · rwa [hloaded.debug, hloaded.wildcard] at hisolated
  · intro henabled hlisted
    obtain ⟨hcontract, hvalid⟩ := hkinds hlisted
    simp only [Config.appState, Config.trustedRuntime, hloaded.trusted, henabled, hcontract,
      if_true] at hidentity
    obtain ⟨kind, hmem, hkind, hclaims⟩ := resolveIdentity_kind rfl hlisted hidentity
    exact ⟨kind, hmem, hvalid kind hmem, hprincipal.trans hkind, hclaims⟩
  · rw [hbindings]
    exact hcolocated

/-- The allowlist of principal kinds is in force exactly in trusted mode: the guards ask
for the contract sub-mode only, and that is not read with trusted mode off. -/
theorem allowlist_enforced_iff {net : NetLib} {lookup : Lookup} {config : Config}
    (hguards : config.checkExposure net lookup = .ok ())
    (hlisted : config.trusted.allowedPrincipalKinds ≠ []) (jwt : Jwt Key) :
    (∀ cache headers accepted,
      (resolveIdentity (config.trustedRuntime jwt) cache headers).1 = .ok accepted →
        ∃ kind ∈ config.trusted.allowedPrincipalKinds,
          accepted.bind (·.principalKind) = some kind) ↔
      config.trusted.enabled = true := by
  constructor
  · intro hall
    by_contra hoff
    have hnone : config.trustedRuntime jwt = none := if_neg hoff
    obtain ⟨kind, _, hkind⟩ := hall ⟨[], none⟩ [] none (by rw [hnone]; rfl)
    cases hkind
  · intro henabled cache headers accepted hok
    obtain ⟨hcontract, -⟩ := (checkExposure_eq_ok.mp hguards).kinds hlisted
    simp only [Config.trustedRuntime, henabled, hcontract, if_true] at hok
    obtain ⟨kind, hmem, hkind, -⟩ := resolveIdentity_kind rfl hlisted hok
    exact ⟨kind, hmem, hkind⟩

/-! ### A box on all interfaces -/

/-- Bound to every address, with the kinds of the contract restricted. -/
def sampleConfig : Config where
  debug := false
  host := .v4 ⟨0, 0, 0, 0⟩
  engine := ⟨1024, 0⟩
  maxScriptSize := 100
  timeoutMs := 5000
  allowWildcardHosts := false
  accessToken := some "old"
  allowUnauthenticated := false
  localResources := [("orders", "http://127.0.0.1:9000/")]
  trusted :=
    { enabled := true
      assertNetworkIsolation := true
      headers := sampleNames
      capabilityEntitlements := []
      allowedPrincipalKinds := ["service"]
      quota := ⟨false, sampleLimits⟩
      contract := ⟨true, "http://id/jwks", "id", "pool", ["v1"], 60, 30⟩ }
  defaultCurrency := none

/-- One key, and a contract of a service. -/
def sampleJwt : Jwt Unit where
  decodeHeader _ := some (some "k1")
  decode _ _ _ _ _ := some
    { sub := none
      workspaceId := some "ws_acme"
      principalKind := some "service"
      onBehalfOf := none
      roles := []
      entitlements := none
      suspended := some false
      plan := none
      ctr := "v1" }
  fetchKeys _ := some [("k1", ())]
  now := 0

def bearerHeaders : HeaderMap :=
  [("authorization", ascii "Bearer s3cret"), ("x-identity-contract", ascii "token")]

def inlineRequest : ExecRequest Unit Unit where
  script := some "handler"
  key := none
  partition := none
  context := "[]"
  config := ⟨[], none, none, [], none⟩

/-- With a token from the environment. -/
def startedConfig : Config :=
  { sampleConfig.applyAuthOverrides (some "s3cret") none with engine := ⟨1024, 128⟩ }

def startedEvents : List (Event Unit Unit) :=
  (runExecute (startedConfig.appState sampleJwt [] .none String.length) sampleEnv bearerHeaders
    (some inlineRequest)).trace

theorem execution_admitted_sample : ∃ params,
    Event.executionStarted params ∈ startedEvents ∧
    Admitted bindingNet localhostLookup sampleConfig (some "s3cret") none sampleJwt sampleEnv
      bearerHeaders params := by
  have hload : sampleConfig.load (some "s3cret") none = .ok startedConfig := rfl
  have hguards : startedConfig.checkExposure bindingNet localhostLookup = .ok () := by decide
  have hstart : startedEvents[8]? = some (.executionStarted _) := rfl
  exact ⟨_, List.mem_of_getElem? hstart,
    execution_admitted hload hguards (List.mem_of_getElem? hstart)⟩

theorem allowlist_enforced_iff_sample :
    (∀ cache headers accepted,
      (resolveIdentity (sampleConfig.trustedRuntime sampleJwt) cache headers).1 = .ok accepted →
        ∃ kind ∈ ["service"], accepted.bind (·.principalKind) = some kind) ↔ true = true := by
  have hguards : sampleConfig.checkExposure bindingNet localhostLookup = .ok () := rfl
  exact allowlist_enforced_iff hguards (by decide) sampleJwt

end Runlet.Boot
