import Runlet.Lib.Pipeline
import Runlet.Wire.Messages
import Runlet.Server.Gates

/-!
The `/execute` pipeline of `handler/mod.rs`, in source order: credential,
identity, body, authorization, script, sizes, quota, broker session, permits,
execution. Everything the request future meets at an await point and does not
decide itself (the key cache, the quota table, the free permits, the broker's
answer, the engine's result) is taken from `Env`, so that every interleaving
with other requests is one choice of it.
-/

namespace Runlet.Execute

open Errors Identity Quota Gates Wire

def wireInit (resources : List String) (timeoutMs : Nat)
    (tenant actor principalKind onBehalfOf : Option String) : WireInit :=
  ⟨resources, timeoutMs, tenant, actor, principalKind, onBehalfOf, none⟩

inductive SessionError where
  | unavailable (message : String)
  | resolve (code message : String)
  | protocol (raw : String)

def sessionErrorEnvelope : SessionError → ErrorEnvelope
  | .resolve code message => requestError code message
  | .unavailable message =>
      (ErrorEnvelope.new .runtime .engine "EGRESS_UNAVAILABLE" true .operator).withMessage
        message
  | .protocol _ =>
      (ErrorEnvelope.new .runtime .engine "EGRESS_PROTOCOL" false .operator).withMessage
        "egress protocol error"

/-- How the box reaches the broker; the QUIC path reads its auth token at
connect time. -/
inductive BrokerTransport where
  | none
  | uds
  | quic (token : Except String (Option String))

/-- The init message as sent on the opened session, or the connect error. -/
def connectSession (transport : BrokerTransport)
    (handshake : WireInit → Except SessionError Unit) (init : WireInit) :
    Except SessionError WireInit :=
  match transport with
  | .none => .error (.unavailable "no egress broker configured")
  | .uds => (handshake init).map fun _ => init
  | .quic (.error err) => .error (.unavailable ("auth token unreadable: " ++ err))
  | .quic (.ok token) =>
      let authed := { init with token := token }
      (handshake authed).map fun _ => authed

structure ExecRequest (S3 Sys : Type) where
  script : Option String
  key : Option String
  partition : Option String
  context : String
  config : RequestConfig S3 Sys

/-- The names of the registered capability definitions of the logic host and
whether a builder fallback is wired. -/
structure LogicHost where
  defs : List String
  fallback : Bool

def LogicHost.isActive (host : LogicHost) : Bool :=
  !host.defs.isEmpty || host.fallback

structure AppState (Key : Type) where
  accessToken : Option String
  trusted : Option (TrustedRuntime Key)
  registry : List (String × String)
  maxScriptSize : Nat
  maxContextSize : Nat
  timeoutMs : Nat
  localResources : List (String × String)
  transport : BrokerTransport
  host : LogicHost
  defaultCurrency : Option String
  hash : String → Nat

/-- The inputs of the blocking execution. The session is named by the init
message it was opened with. -/
structure ExecuteBlocking (S3 Sys : Type) where
  session : Option WireInit
  localResources : List (String × String)
  source : ScriptSource
  contextJson : String
  config : RequestConfig S3 Sys
  cacheNs : Option String
  logFloor : Option LogLevel
  defaultCurrency : Option String
  tenant : Option String
  actor : Option String
  principalKind : Option String
  onBehalfOf : Option String

/-- What the surroundings answer while one request runs. -/
structure Env (Key S3 Sys Outcome : Type) where
  cache : KeyCache Key
  inflight : Inflight
  permits : Permits
  handshake : WireInit → Except SessionError Unit
  engine : ExecuteBlocking S3 Sys → Outcome

/-- The io names, the `http` client and the `s3` client the engine injects
for this invocation: the mux answers only listed names, and is there only when
there is a registry or an egress port. -/
def scriptReaches {S3 Sys : Type} (host : LogicHost)
    (params : ExecuteBlocking S3 Sys) : List String :=
  (if host.isActive || !params.config.io.isEmpty then params.config.io else []) ++
  (host.defs.filter fun name => params.config.io.contains name) ++
  (if params.config.allowedHosts.isEmpty then [] else ["http"]) ++
  (if params.config.s3.isSome then ["s3"] else [])

inductive Event (S3 Sys : Type) where
  | denied (reason : String)
  | credentialChecked
  | identityAccepted (identity : Option TrustedIdentity)
  | bodyParsed
  | capabilitiesAuthorized (names : List String)
  | scriptResolved
  | inputSizesChecked (scriptBytes contextBytes : Nat)
  | quotaAdmitted (held : Option QuotaGuard)
  | sessionOpened (init : WireInit)
  | permitsAcquired (partition : Option String)
  | executionStarted (params : ExecuteBlocking S3 Sys)
  | permitsReleased
  | quotaReleased (guard : QuotaGuard)

variable {Key S3 Sys Outcome α : Type}

/-- A gate that passes records so with its value; one that refuses leaves its
audit event and ends the request. -/
def gate (checked : Except Rejection α) (passed : α → Event S3 Sys) :
    Pipeline (Event S3 Sys) Rejection α :=
  match checked with
  | .ok value => ⟨[passed value], .ok value⟩
  | .error rejection => ⟨rejection.auditReason.toList.map .denied, .error rejection⟩

def parsePayload (payload : Option (ExecRequest S3 Sys)) :
    Except Rejection (ExecRequest S3 Sys) :=
  match payload with
  | some request => .ok request
  | none => .error ⟨requestError "MALFORMED_REQUEST"
      "request body is not valid for /execute", some "MALFORMED_REQUEST"⟩

/-- Opens a broker session only for names that are not bound box-direct. -/
def openSession (state : AppState Key) (env : Env Key S3 Sys Outcome)
    (identity : Option TrustedIdentity) (io : List String) :
    Pipeline (Event S3 Sys) Rejection (Option WireInit) :=
  if (brokerNames io state.localResources).isEmpty then pure none
  else do
    let init := wireInit (brokerNames io state.localResources) state.timeoutMs
      (identity.bind (·.tenant)) (identity.bind (·.user))
      (identity.bind (·.principalKind)) (identity.bind (·.onBehalfOf))
    Pipeline.emit (.sessionOpened init)
    match connectSession state.transport env.handshake init with
    | .ok opened => pure (some opened)
    | .error err => ⟨[.denied "EGRESS_UNAVAILABLE"],
        .error ⟨sessionErrorEnvelope err, some "EGRESS_UNAVAILABLE"⟩⟩

/-- From the admitted quota to the engine's result. -/
def runAdmitted (state : AppState Key) (env : Env Key S3 Sys Outcome)
    (identity : Option TrustedIdentity) (partition : Option String)
    (source : ScriptSource) (request : ExecRequest S3 Sys) :
    Pipeline (Event S3 Sys) Rejection Outcome := do
  let session ← openSession state env identity request.config.io
  let _ ← gate (admitPermits state.hash env.permits partition).1
    fun _ => .permitsAcquired partition
  let params : ExecuteBlocking S3 Sys :=
    { session := session
      localResources := state.localResources
      source := source
      contextJson := request.context
      config := request.config
      cacheNs := partition
      logFloor := identity.bind (·.logLevel)
      defaultCurrency := state.defaultCurrency
      tenant := identity.bind (·.tenant)
      actor := identity.bind (·.user)
      principalKind := identity.bind (·.principalKind)
      onBehalfOf := identity.bind (·.onBehalfOf) }
  Pipeline.emit (.executionStarted params)
  let outcome := env.engine params
  Pipeline.emit .permitsReleased
  pure outcome

def runExecute (state : AppState Key) (env : Env Key S3 Sys Outcome)
    (headers : HeaderMap) (payload : Option (ExecRequest S3 Sys)) :
    Pipeline (Event S3 Sys) Rejection Outcome := do
  gate (enforceAuth state.accessToken headers) fun _ => .credentialChecked
  let identity ← gate (resolveIdentity state.trusted env.cache headers).1 .identityAccepted
  let request ← gate (parsePayload payload) fun _ => .bodyParsed
  let partition := resolvePartition identity
    ((headerPartition headers).or request.partition)
  gate (enforceMemberAuthz state.trusted identity request.config)
    fun _ => .capabilitiesAuthorized (requestedCapabilities request.config)
  let source ← gate (resolveScript request.script request.key state.registry)
    fun _ => .scriptResolved
  let scriptBytes := source.asStr.utf8ByteSize
  let contextBytes := request.context.utf8ByteSize
  gate (validateInputSizes scriptBytes contextBytes state.maxScriptSize state.maxContextSize)
    fun _ => .inputSizesChecked scriptBytes contextBytes
  let held ← gate (enforceQuota state.trusted identity env.inflight).1 .quotaAdmitted
  (runAdmitted state env identity partition source request).onExit
    (held.toList.map .quotaReleased)

/-! ### What happened before any work -/

/-- Everything a trusted request has passed by the time work starts for it.
`hist` is the part of the trace before that moment. -/
structure Cleared (state : AppState Key) (trusted : TrustedRuntime Key)
    (env : Env Key S3 Sys Outcome) (headers : HeaderMap)
    (hist : List (Event S3 Sys)) (identity : TrustedIdentity) (tenant : String)
    (names : List String) : Prop where
  resolved : (resolveIdentity (some trusted) env.cache headers).1 = .ok (some identity)
  accepted : .identityAccepted (some identity) ∈ hist
  tenantOf : identity.tenant = some tenant
  authorized : .capabilitiesAuthorized names ∈ hist
  granted : ∀ name ∈ names, Authorized trusted identity name
  sized : ∃ scriptBytes contextBytes,
    .inputSizesChecked scriptBytes contextBytes ∈ hist ∧
      scriptBytes ≤ state.maxScriptSize ∧ contextBytes ≤ state.maxContextSize
  quotaHeld : trusted.quota.isSome = true → .quotaAdmitted (some ⟨tenant⟩) ∈ hist
  unreleased : ∀ guard, .quotaReleased guard ∉ hist

/-- The rule of the pipeline in trusted mode. A session and an execution both
need a cleared request; both use the trusted tenant, and neither reaches a
name that was not authorized. -/
def TrustedRule (state : AppState Key) (trusted : TrustedRuntime Key)
    (env : Env Key S3 Sys Outcome) (headers : HeaderMap)
    (hist : List (Event S3 Sys)) : Event S3 Sys → Prop
  | .sessionOpened init => ∃ identity tenant names,
      Cleared state trusted env headers hist identity tenant names ∧
      init.tenant = some tenant ∧
      ∀ name ∈ init.resources, name ∈ names
  | .executionStarted params => ∃ identity tenant names,
      Cleared state trusted env headers hist identity tenant names ∧
      .permitsAcquired (some tenant) ∈ hist ∧
      params.cacheNs = some tenant ∧ params.tenant = some tenant ∧
      (∀ init, params.session = some init → init.tenant = some tenant ∧
        ∀ name ∈ init.resources, name ∈ names) ∧
      (∀ name ∈ scriptReaches state.host params, name ∈ names) ∧
      params.source.asStr.utf8ByteSize ≤ state.maxScriptSize ∧
      params.contextJson.utf8ByteSize ≤ state.maxContextSize
  | _ => True

/-- A later moment of the same request keeps its clearance, as long as the
guard has not been released in between. -/
theorem Cleared.extend {state : AppState Key} {trusted : TrustedRuntime Key}
    {env : Env Key S3 Sys Outcome} {headers : HeaderMap}
    {hist : List (Event S3 Sys)} {identity : TrustedIdentity} {tenant : String}
    {names : List String} (more : List (Event S3 Sys))
    (hcleared : Cleared state trusted env headers hist identity tenant names)
    (hmore : ∀ guard, .quotaReleased guard ∉ more) :
    Cleared state trusted env headers (hist ++ more) identity tenant names where
  resolved := hcleared.resolved
  accepted := List.mem_append_left _ hcleared.accepted
  tenantOf := hcleared.tenantOf
  authorized := List.mem_append_left _ hcleared.authorized
  granted := hcleared.granted
  sized := by
    obtain ⟨scriptBytes, contextBytes, hmem, hle⟩ := hcleared.sized
    exact ⟨scriptBytes, contextBytes, List.mem_append_left _ hmem, hle⟩
  quotaHeld := fun hquota => List.mem_append_left _ (hcleared.quotaHeld hquota)
  unreleased := by
    intro guard hmem
    rcases List.mem_append.mp hmem with hold | hnew
    · exact hcleared.unreleased guard hold
    · exact hmore guard hnew

/-- A gate in front of the rest: the rest only runs on the gate's value, with
the gate's event in its history. -/
theorem ordered_gate_bind {β : Type}
    (rule : List (Event S3 Sys) → Event S3 Sys → Prop)
    (hist : List (Event S3 Sys)) (checked : Except Rejection α)
    (passed : α → Event S3 Sys)
    (next : α → Pipeline (Event S3 Sys) Rejection β)
    (hdenied : ∀ before reason, rule before (.denied reason))
    (hpassed : ∀ before value, rule before (passed value))
    (hnext : ∀ value, checked = .ok value →
      Pipeline.Ordered rule (hist ++ [passed value]) (next value)) :
    Pipeline.Ordered rule hist (gate checked passed >>= next) := by
  cases checked with
  | error rejection =>
      refine Pipeline.ordered_bind rule hist _ next ?_ ?_
      · apply Pipeline.ordered_of_forall
        intro event hevent before
        obtain ⟨reason, _, rfl⟩ := List.mem_map.mp hevent
        exact hdenied before reason
      · intro value hresult
        cases hresult
  | ok value =>
      refine Pipeline.ordered_bind rule hist _ next ?_ ?_
      · apply Pipeline.ordered_of_forall
        intro event hevent before
        have hsingle : event = passed value := by simpa [gate] using hevent
        exact hsingle ▸ hpassed before value
      · intro value' hresult
        have heq : value = value' := Except.ok.inj hresult
        subst heq
        exact hnext value rfl

theorem brokerNames_subset (io : List String) (localResources : List (String × String))
    (name : String) (hname : name ∈ brokerNames io localResources) : name ∈ io :=
  (List.mem_filter.mp hname).1

theorem scriptReaches_subset (host : LogicHost) (params : ExecuteBlocking S3 Sys)
    (name : String) (hname : name ∈ scriptReaches host params) :
    name ∈ requestedCapabilities params.config := by
  simp only [scriptReaches, List.mem_append, List.mem_filter] at hname
  simp only [requestedCapabilities, List.mem_append]
  rcases hname with ((hmux | hdef) | hhttp) | hs3
  · split at hmux
    · exact .inl (.inl hmux)
    · cases hmux
  · exact .inl (.inl (by simpa using hdef.2))
  · exact .inl (.inr hhttp)
  · exact .inr hs3

/-- The session the broker is asked for carries the tenant it was opened
with, whatever token the transport attached. -/
theorem connectSession_init (transport : BrokerTransport)
    (handshake : WireInit → Except SessionError Unit) (init opened : WireInit)
    (hok : connectSession transport handshake init = .ok opened) :
    opened.tenant = init.tenant ∧ opened.resources = init.resources := by
  unfold connectSession at hok
  split at hok
  · cases hok
  · cases hshake : handshake init with
    | error err => simp [hshake, Except.map] at hok
    | ok _ =>
        simp only [hshake, Except.map, Except.ok.injEq] at hok
        exact hok ▸ ⟨rfl, rfl⟩
  · cases hok
  · rename_i token
    cases hshake : handshake { init with token := token } with
    | error err => simp [hshake, Except.map] at hok
    | ok _ =>
        simp only [hshake, Except.map, Except.ok.injEq] at hok
        exact hok ▸ ⟨rfl, rfl⟩

/-- The init message of a session for these names. -/
def sessionInit (state : AppState Key) (identity : Option TrustedIdentity)
    (io : List String) : WireInit :=
  wireInit (brokerNames io state.localResources) state.timeoutMs
    (identity.bind (·.tenant)) (identity.bind (·.user))
    (identity.bind (·.principalKind)) (identity.bind (·.onBehalfOf))

/-- All that opening a session can do: nothing to ask for, an opened session,
or a refusal that is audited as an unavailable broker. -/
theorem openSession_cases (state : AppState Key) (env : Env Key S3 Sys Outcome)
    (identity : Option TrustedIdentity) (io : List String) :
    (brokerNames io state.localResources = [] ∧
      openSession state env identity io = ⟨[], .ok none⟩) ∨
    (brokerNames io state.localResources ≠ [] ∧ ∃ opened,
      connectSession state.transport env.handshake (sessionInit state identity io) =
        .ok opened ∧
      openSession state env identity io =
        ⟨[.sessionOpened (sessionInit state identity io)], .ok (some opened)⟩) ∨
    brokerNames io state.localResources ≠ [] ∧ ∃ err,
      connectSession state.transport env.handshake (sessionInit state identity io) =
        .error err ∧
      openSession state env identity io =
        ⟨[.sessionOpened (sessionInit state identity io), .denied "EGRESS_UNAVAILABLE"],
          .error ⟨sessionErrorEnvelope err, some "EGRESS_UNAVAILABLE"⟩⟩ := by
  unfold openSession
  by_cases hempty : (brokerNames io state.localResources).isEmpty = true
  · rw [if_pos hempty]
    exact .inl ⟨List.isEmpty_iff.mp hempty, rfl⟩
  · have hasked : brokerNames io state.localResources ≠ [] := by
      simpa using hempty
    rw [if_neg hempty]
    cases hconnect : connectSession state.transport env.handshake
        (sessionInit state identity io) with
    | ok opened =>
        refine .inr (.inl ⟨hasked, opened, rfl, ?_⟩)
        simp only [sessionInit] at hconnect
        simp only [hconnect]
        rfl
    | error err =>
        refine .inr (.inr ⟨hasked, err, rfl, ?_⟩)
        simp only [sessionInit] at hconnect
        simp only [hconnect]
        rfl

theorem openSession_spec (state : AppState Key) (trusted : TrustedRuntime Key)
    (env : Env Key S3 Sys Outcome) (headers : HeaderMap)
    (hist : List (Event S3 Sys)) (identity : TrustedIdentity) (tenant : String)
    (names io : List String)
    (hcleared : Cleared state trusted env headers hist identity tenant names)
    (hio : ∀ name ∈ io, name ∈ names) :
    Pipeline.Ordered (TrustedRule state trusted env headers) hist
      (openSession state env (some identity) io) ∧
    (∀ guard, .quotaReleased guard ∉ (openSession state env (some identity) io).trace) ∧
    ∀ session, (openSession state env (some identity) io).result = .ok session →
      ∀ init, session = some init → init.tenant = some tenant ∧
        ∀ name ∈ init.resources, name ∈ names := by
  have hinit : (sessionInit state (some identity) io).tenant = some tenant ∧
      ∀ name ∈ (sessionInit state (some identity) io).resources, name ∈ names :=
    ⟨hcleared.tenantOf, fun name hname => hio name (brokerNames_subset io _ name hname)⟩
  have hopens : Pipeline.Ordered (TrustedRule state trusted env headers) hist
      (Pipeline.emit (.sessionOpened (sessionInit state (some identity) io)) :
        Pipeline (Event S3 Sys) Rejection Unit) :=
    Pipeline.ordered_emit _ _ _ ⟨identity, tenant, names, hcleared, hinit⟩
  have hdenies : ∀ past, Pipeline.Ordered (TrustedRule state trusted env headers) past
      (Pipeline.emit (.denied "EGRESS_UNAVAILABLE") :
        Pipeline (Event S3 Sys) Rejection Unit) :=
    fun past => Pipeline.ordered_emit _ _ _ trivial
  obtain ⟨_, heq⟩ | ⟨_, opened, hconnect, heq⟩ | ⟨_, err, _, heq⟩ :=
    openSession_cases state env (some identity) io
  · rw [heq]
    refine ⟨Pipeline.ordered_pure _ _ _, by simp, ?_⟩
    rintro session hresult init rfl
    cases hresult
  · obtain ⟨htenant, hresources⟩ := connectSession_init _ _ _ _ hconnect
    rw [heq]
    refine ⟨hopens, by simp, ?_⟩
    rintro session hresult init rfl
    cases hresult
    rw [htenant, hresources]
    exact hinit
  · rw [heq]
    refine ⟨?_, by simp, ?_⟩
    · intro before event rest htrace
      exact Pipeline.ordered_append (TrustedRule state trusted env headers) hist
        [.sessionOpened (sessionInit state (some identity) io)]
        [.denied "EGRESS_UNAVAILABLE"] hopens (hdenies _) before rest event htrace
    · intro session hresult
      cases hresult

theorem runAdmitted_ordered (state : AppState Key) (trusted : TrustedRuntime Key)
    (env : Env Key S3 Sys Outcome) (headers : HeaderMap)
    (hist : List (Event S3 Sys)) (identity : TrustedIdentity) (tenant : String)
    (source : ScriptSource) (request : ExecRequest S3 Sys)
    (hcleared : Cleared state trusted env headers hist identity tenant
      (requestedCapabilities request.config))
    (hscript : source.asStr.utf8ByteSize ≤ state.maxScriptSize)
    (hcontext : request.context.utf8ByteSize ≤ state.maxContextSize) :
    Pipeline.Ordered (TrustedRule state trusted env headers) hist
      (runAdmitted state env (some identity) (some tenant) source request) := by
  have hio : ∀ name ∈ request.config.io, name ∈ requestedCapabilities request.config :=
    fun name hname => by simp [requestedCapabilities, hname]
  obtain ⟨hordered, hunreleased, hsession⟩ := openSession_spec state trusted env
    headers hist identity tenant _ request.config.io hcleared hio
  unfold runAdmitted
  refine Pipeline.ordered_bind _ _ _ _ hordered ?_
  intro session hopened
  refine ordered_gate_bind _ _ _ _ _ (fun _ _ => trivial) (fun _ _ => trivial) ?_
  intro partitionPermit _
  have hcleared' := (hcleared.extend _ hunreleased).extend
    [.permitsAcquired (some tenant)] (by simp)
  refine Pipeline.ordered_bind _ _ _ _ (Pipeline.ordered_emit _ _ _ ?_) ?_
  · refine ⟨identity, tenant, _, hcleared', by simp, rfl, hcleared.tenantOf,
      hsession session hopened, ?_, hscript, hcontext⟩
    intro name hname
    exact scriptReaches_subset state.host _ name hname
  · intro _ _
    refine Pipeline.ordered_bind _ _ _ _ (Pipeline.ordered_emit _ _ _ trivial) ?_
    intro _ _
    exact Pipeline.ordered_pure _ _ _

/-- Whatever the headers, the body and the surroundings are: in trusted mode
`run_execute` opens a session or starts an execution only for a request that
every gate has cleared, on the trusted tenant, for authorized names. -/
theorem runExecute_trusted (state : AppState Key) (trusted : TrustedRuntime Key)
    (htrusted : state.trusted = some trusted) (env : Env Key S3 Sys Outcome)
    (headers : HeaderMap) (payload : Option (ExecRequest S3 Sys))
    (before rest : List (Event S3 Sys)) (event : Event S3 Sys)
    (htrace : (runExecute state env headers payload).trace = before ++ event :: rest) :
    TrustedRule state trusted env headers before event := by
  have hordered : Pipeline.Ordered (TrustedRule state trusted env headers) []
      (runExecute state env headers payload) := by
    unfold runExecute
    refine ordered_gate_bind _ _ _ _ _ (fun _ _ => trivial) (fun _ _ => trivial) ?_
    intro _ _
    refine ordered_gate_bind _ _ _ _ _ (fun _ _ => trivial) (fun _ _ => trivial) ?_
    intro accepted hresolved
    rw [htrusted] at hresolved
    obtain ⟨identity, tenant, rfl, htenant⟩ :=
      resolveIdentity_tenant trusted env.cache headers accepted hresolved
    refine ordered_gate_bind _ _ _ _ _ (fun _ _ => trivial) (fun _ _ => trivial) ?_
    intro request _
    refine ordered_gate_bind _ _ _ _ _ (fun _ _ => trivial) (fun _ _ => trivial) ?_
    intro _ hauthz
    rw [htrusted] at hauthz
    refine ordered_gate_bind _ _ _ _ _ (fun _ _ => trivial) (fun _ _ => trivial) ?_
    intro source _
    refine ordered_gate_bind _ _ _ _ _ (fun _ _ => trivial) (fun _ _ => trivial) ?_
    intro _ hsizes
    obtain ⟨hscript, hcontext⟩ := validateInputSizes_ok _ _ _ _ hsizes
    refine ordered_gate_bind _ _ _ _ _ (fun _ _ => trivial) (fun _ _ => trivial) ?_
    intro held hheld
    rw [htrusted] at hheld
    have hpartition : resolvePartition (some identity)
        ((headerPartition headers).or request.partition) = some tenant := htenant
    rw [hpartition]
    refine Pipeline.ordered_onExit _ _ _ _ ?_ ?_
    · refine runAdmitted_ordered state trusted env headers _ identity tenant source
        request ?_ hscript hcontext
      refine ⟨hresolved, by simp, htenant, by simp,
        enforceMemberAuthz_ok trusted identity request.config hauthz,
        ⟨_, _, by simp, hscript, hcontext⟩, ?_, by simp⟩
      intro hquota
      obtain ⟨limits, hlimits⟩ := Option.isSome_iff_exists.mp hquota
      have hguard := enforceQuota_holds trusted identity limits tenant env.inflight
        held hlimits htenant hheld
      simp [hguard]
    · intro beforeLast last restLast hlast
      have hmem : last ∈ 
          held.toList.map (Event.quotaReleased : QuotaGuard → Event S3 Sys) := by
        rw [hlast]
        simp
      obtain ⟨guard, _, rfl⟩ := List.mem_map.mp hmem
      trivial
  simpa using hordered before event rest htrace

def ascii (text : String) : List UInt8 :=
  text.toList.map fun c => UInt8.ofNat c.toNat

/-- A box in plain trusted mode with a quota of one and a gated name. -/
def sampleState : AppState Unit where
  accessToken := none
  trusted := some
    { headers := sampleNames
      capabilityEntitlements := [("orders", "db")]
      allowedPrincipalKinds := []
      quota := some sampleLimits
      contract := none }
  registry := []
  maxScriptSize := 100
  maxContextSize := 100
  timeoutMs := 5000
  localResources := []
  transport := .uds
  host := ⟨[], false⟩
  defaultCurrency := none
  hash := String.length

def sampleEnv : Env Unit Unit Unit Unit where
  cache := ⟨[], none⟩
  inflight := fun _ => none
  permits := ⟨1, none⟩
  handshake := fun _ => .ok ()
  engine := fun _ => ()

/-- Asserts another partition in a header and in the body. -/
def sampleHeaders : HeaderMap :=
  [("x-workspace-id", ascii "ws_acme"), ("x-tenant-scope", ascii "acting"),
    ("x-user-entitlements", ascii "db"), ("x-partition-key", ascii "ws_other")]

def sampleRequest : ExecRequest Unit Unit where
  script := some "handler"
  key := none
  partition := some "ws_other"
  context := "[]"
  config := ⟨[], none, none, ["orders"], none⟩

theorem runExecute_trusted_sample :
    ∃ trusted before params rest,
      sampleState.trusted = some trusted ∧
      (runExecute sampleState sampleEnv sampleHeaders (some sampleRequest)).trace =
        before ++ .executionStarted params :: rest ∧
      params.cacheNs = some "ws_acme" ∧
      TrustedRule sampleState trusted sampleEnv sampleHeaders before
        (.executionStarted params) := by
  let trace := (runExecute sampleState sampleEnv sampleHeaders (some sampleRequest)).trace
  refine ⟨_, trace.take 9, _, trace.drop 10, rfl, rfl, rfl, ?_⟩
  exact runExecute_trusted sampleState _ rfl sampleEnv sampleHeaders
    (some sampleRequest) (trace.take 9) (trace.drop 10) _ rfl

end Runlet.Execute
