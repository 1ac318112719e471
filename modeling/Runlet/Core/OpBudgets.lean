import Runlet.Lib.Budget
import Runlet.Core.Http
import Runlet.Core.S3Requests
import Runlet.Core.MuxRuns

/-!
The operations of one execution over its three native bridges: `__http`,
`__s3` and `__io`. Each bridge compares `max_ops` with a counter of its own:
the metrics `http.rs` recorded, the metrics `s3.rs` recorded, and the calls
`inject_mux` counted. An operation is performed when a request leaves the
process through the HTTP or the S3 client, or when a backend of the mux is
entered.
-/

namespace Runlet.OpBudgets

open Errors Capability Http Ssrf S3

structure HttpMetric where
  method : String
  host : String
  status : Nat
  requestBytes : Nat
  responseBytes : Nat

inductive HttpOp where
  | request (method url : String)
  | record (metric : HttpMetric)

/-- What the client makes of a request: refused before anything is sent, or
sent, with its outcome. -/
inductive HttpAttempt where
  | refused (fault : DynamicFault)
  | sent (outcome : Except DynamicFault (Nat × Nat × Json))

/-- One `http` call, and the outside world at that moment. -/
structure HttpCall where
  net : NetLib
  lookup : Lookup
  method : String
  url : String
  body : String
  attempt : HttpAttempt

structure HttpAccess where
  allowedHosts : List String
  maxOps : Nat
  allowPrivate : Bool
  wildcardAllowed : Bool

def inbandError (code message : String) : DynamicFault :=
  ⟨message, code, false, .developer, "api", none⟩

def extractHost (net : NetLib) (url : String) : String :=
  match net.parseUrl url with
  | .error _ => "unknown"
  | .ok parsed => (parsed.host.map (Host.str net)).getD "unknown"

/-- The closure of `inject_http`: past the limit, every path records once. -/
def HttpAccess.httpCall (access : HttpAccess) (call : HttpCall) (used : Nat) :
    Pipeline HttpOp DynamicFault Json :=
  if used ≥ access.maxOps then
    ⟨[], .error (inbandError "HTTP_OP_LIMIT" (tooManyOperations access.maxOps))⟩
  else
    let metric (host : String) (status responseBytes : Nat) : HttpMetric :=
      ⟨call.method, host, status, call.body.utf8ByteSize, responseBytes⟩
    match validateUrl call.net call.lookup call.url access.allowedHosts access.allowPrivate
        access.wildcardAllowed with
    | .error err =>
        ⟨[.record (metric (extractHost call.net call.url) 0 0)],
          .error (inbandError "HTTP_SSRF_BLOCKED" err)⟩
    | .ok host =>
        match call.attempt with
        | .refused fault => ⟨[.record (metric host 0 0)], .error fault⟩
        | .sent (.error fault) =>
            ⟨[.request call.method call.url, .record (metric host 0 0)], .error fault⟩
        | .sent (.ok (status, responseBytes, json)) =>
            ⟨[.request call.method call.url, .record (metric host status responseBytes)],
              .ok json⟩

def httpRequests (trace : List HttpOp) : Nat :=
  trace.countP fun op => match op with
    | .request _ _ => true
    | .record _ => false

def httpRecords (trace : List HttpOp) : Nat :=
  trace.countP fun op => match op with
    | .request _ _ => false
    | .record _ => true

/-! ### The three bridges together -/

inductive Bridge where
  | http
  | s3
  | io
  deriving DecidableEq

inductive ScriptCall where
  | http (call : HttpCall)
  | s3 (call : S3Call)
  | io (call : IoCall)

def ScriptCall.bridge : ScriptCall → Bridge
  | .http _ => .http
  | .s3 _ => .s3
  | .io _ => .io

/-- The bridges of an execution, all built with the same limit. -/
structure Bridges where
  maxOps : Nat
  allowedHosts : List String
  wildcardAllowed : Bool
  s3 : S3Config
  allowDelete : Bool
  enabledIo : List String
  allowPrivate : Bool

def Bridges.httpAccess (bridges : Bridges) : HttpAccess :=
  ⟨bridges.allowedHosts, bridges.maxOps, bridges.allowPrivate, bridges.wildcardAllowed⟩

def Bridges.s3Access (bridges : Bridges) : S3Access :=
  ⟨bridges.s3, bridges.allowDelete, bridges.allowPrivate, bridges.maxOps⟩

def Bridges.ioAccess (bridges : Bridges) : IoAccess :=
  ⟨bridges.enabledIo, bridges.maxOps, bridges.allowPrivate⟩

/-- The operations a call performs, and by how much its counter goes up. -/
def Bridges.effect (bridges : Bridges) (call : ScriptCall) (used : Nat) : Nat × Nat :=
  match call with
  | .http call =>
      let trace := (bridges.httpAccess.httpCall call used).trace
      (httpRequests trace, httpRecords trace)
  | .s3 call =>
      let trace := (bridges.s3Access.s3Call call used).trace
      (requests trace, records trace)
  | .io call =>
      let done := bridges.ioAccess.ioCallTraced call used
      (done.invoked.length, done.usedAfter - done.used)

def Bridges.meter (bridges : Bridges) : Budget.Meter ScriptCall Bridge :=
  ⟨bridges.maxOps, ScriptCall.bridge, bridges.effect⟩

/-- The operations of a whole execution. -/
def Bridges.performed (bridges : Bridges) (calls : List ScriptCall) : Nat :=
  (bridges.meter.runFrom Budget.Account.empty calls).performed

/-- The call gets past every check other than the budget and something goes
out. -/
def Bridges.Outbound (bridges : Bridges) : ScriptCall → Prop
  | .http call => (∃ host, validateUrl call.net call.lookup call.url bridges.allowedHosts
      bridges.allowPrivate bridges.wildcardAllowed = .ok host) ∧
      ∃ outcome, call.attempt = .sent outcome
  | .s3 call => call.Sends bridges.s3Access
  | .io call => call.name ∈ bridges.enabledIo ∧
      call.registry.policyVerdict call.lib (bridges.ioAccess.muxCall call) = some (.ok ()) ∧
      (call.registry.backendFor (bridges.ioAccess.muxCall call)).isSome = true

/-- An S3 call that sends a request and does not record it. -/
def Bridges.Unrecorded (bridges : Bridges) : ScriptCall → Prop
  | .s3 call => call.Unrecorded bridges.s3Access
  | _ => False

/-! ### What each bridge does to its counter -/

/-- A bridge whose counter has reached the limit neither performs nor
counts. -/
theorem effect_full (bridges : Bridges) (call : ScriptCall) (used : Nat)
    (hfull : bridges.maxOps ≤ used) : bridges.effect call used = (0, 0) := by
  cases call with
  | http call =>
      have hge : used ≥ bridges.httpAccess.maxOps := hfull
      simp [Bridges.effect, HttpAccess.httpCall, hge, httpRequests, httpRecords]
  | s3 call => simp [Bridges.effect, s3Call_full bridges.s3Access call used hfull, requests, records]
  | io call =>
      obtain ⟨hused, hinvoked, hafter⟩ := ioCallTraced_spec bridges.ioAccess call used
      have hspent : ¬ used < bridges.ioAccess.maxOps := Nat.not_lt.mpr hfull
      have hreaches : ¬ bridges.ioAccess.Reaches call used := fun h => hspent h.2.1
      simp [Bridges.effect, hused, hinvoked, hafter, hreaches, hspent]

/-- A call with budget left: its counter stays within the limit, it performs
something exactly when it goes out, it never counts more than it performs then,
and it counts everything it performs unless it leaves a request unrecorded. -/
structure Metered (bridges : Bridges) (call : ScriptCall) (used : Nat) : Prop where
  bounded : used + (bridges.effect call used).2 ≤ bridges.maxOps
  sends : 0 < (bridges.effect call used).1 ↔ bridges.Outbound call
  least : bridges.Outbound call → (bridges.effect call used).2 ≤ (bridges.effect call used).1
  recorded : ¬ bridges.Unrecorded call →
    (bridges.effect call used).1 ≤ (bridges.effect call used).2

theorem httpCall_counts (bridges : Bridges) (call : HttpCall) (used : Nat)
    (hfree : used < bridges.maxOps) :
    httpRecords (bridges.httpAccess.httpCall call used).trace = 1 ∧
      (httpRequests (bridges.httpAccess.httpCall call used).trace = 1 ∧
          bridges.Outbound (.http call) ∨
        httpRequests (bridges.httpAccess.httpCall call used).trace = 0 ∧
          ¬ bridges.Outbound (.http call)) := by
  have hnot : ¬ used ≥ bridges.httpAccess.maxOps := Nat.not_le.mpr hfree
  unfold HttpAccess.httpCall
  rw [if_neg hnot]
  simp only [Bridges.httpAccess, Bridges.Outbound]
  cases validateUrl call.net call.lookup call.url bridges.allowedHosts bridges.allowPrivate
      bridges.wildcardAllowed with
  | error err => exact ⟨rfl, .inr ⟨rfl, fun h => nomatch h.1⟩⟩
  | ok host =>
      cases call.attempt with
      | refused fault => exact ⟨rfl, .inr ⟨rfl, fun h => nomatch h.2⟩⟩
      | sent outcome =>
          cases outcome with
          | error fault => exact ⟨rfl, .inl ⟨rfl, ⟨host, rfl⟩, _, rfl⟩⟩
          | ok answer => exact ⟨rfl, .inl ⟨rfl, ⟨host, rfl⟩, _, rfl⟩⟩

theorem http_metered (bridges : Bridges) (call : HttpCall) (used : Nat)
    (hfree : used < bridges.maxOps) : Metered bridges (.http call) used := by
  have heffect : (bridges.effect (.http call) used).2 = 1 ∧
      ((bridges.effect (.http call) used).1 = 1 ∧ bridges.Outbound (.http call) ∨
        (bridges.effect (.http call) used).1 = 0 ∧ ¬ bridges.Outbound (.http call)) :=
    httpCall_counts bridges call used hfree
  obtain ⟨hcount, ⟨hone, hout⟩ | ⟨hzero, hout⟩⟩ := heffect
  · refine ⟨by omega, ?_, fun _ => by omega, fun _ => by omega⟩
    exact ⟨fun _ => hout, fun _ => by omega⟩
  · refine ⟨by omega, ?_, fun h => absurd h hout, fun _ => by omega⟩
    exact ⟨fun h => by omega, fun h => absurd h hout⟩

theorem io_metered (bridges : Bridges) (call : IoCall) (used : Nat)
    (hfree : used < bridges.maxOps) : Metered bridges (.io call) used := by
  obtain ⟨hused, hinvoked, hafter⟩ := ioCallTraced_spec bridges.ioAccess call used
  have hreaches : bridges.ioAccess.Reaches call used ↔ bridges.Outbound (.io call) := by
    constructor
    · exact fun ⟨hname, _, hrest⟩ => ⟨hname, hrest⟩
    · exact fun ⟨hname, hrest⟩ => ⟨hname, hfree, hrest⟩
  have hcount : (bridges.effect (.io call) used).2 =
      if call.name ∈ bridges.enabledIo then 1 else 0 := by
    have hcond : (call.name ∈ bridges.ioAccess.allowed ∧ used < bridges.ioAccess.maxOps) ↔
        call.name ∈ bridges.enabledIo := and_iff_left hfree
    simp only [Bridges.effect, hused, hafter, hcond]
    split <;> omega
  by_cases hout : bridges.Outbound (.io call)
  · have hone : (bridges.effect (.io call) used).1 = 1 := by
      simp only [Bridges.effect, hinvoked, if_pos (hreaches.mpr hout), List.length_singleton]
    rw [if_pos hout.1] at hcount
    refine ⟨by omega, ?_, fun _ => by omega, fun _ => by omega⟩
    exact ⟨fun _ => hout, fun _ => by omega⟩
  · have hzero : (bridges.effect (.io call) used).1 = 0 := by
      simp only [Bridges.effect, hinvoked, if_neg (fun h => hout (hreaches.mp h)),
        List.length_nil]
    have hle : (bridges.effect (.io call) used).2 ≤ 1 := by
      rw [hcount]
      split <;> omega
    refine ⟨by omega, ?_, fun h => absurd h hout, fun _ => by omega⟩
    exact ⟨fun h => by omega, fun h => absurd h hout⟩

theorem metered (bridges : Bridges) (call : ScriptCall) (used : Nat)
    (hfree : used < bridges.maxOps) : Metered bridges call used := by
  cases call with
  | http call => exact http_metered bridges call used hfree
  | s3 call =>
      obtain ⟨hbounded, hsends, hleast, hrecorded⟩ :=
        s3Call_accounted bridges.s3Access call used hfree
      exact ⟨hbounded, hsends, hleast, hrecorded⟩
  | io call => exact io_metered bridges call used hfree

theorem meter_lawful (bridges : Bridges) :
    bridges.meter.Lawful bridges.Outbound bridges.Unrecorded where
  full := effect_full bridges
  bounded := fun call used hfree => (metered bridges call used hfree).bounded
  idle := by
    intro call used hidle
    by_cases hfree : used < bridges.maxOps
    · exact Nat.eq_zero_of_not_pos fun h => hidle ((metered bridges call used hfree).sends.mp h)
    · exact congrArg Prod.fst (effect_full bridges call used (Nat.not_lt.mp hfree))
  busy := by
    intro call used hactive hfree
    have hmetered := metered bridges call used hfree
    exact ⟨hmetered.sends.mpr hactive, hmetered.least hactive⟩
  recorded := by
    intro call used hrecorded
    by_cases hfree : used < bridges.maxOps
    · exact (metered bridges call used hfree).recorded hrecorded
    · have hnone : bridges.meter.effect call used = (0, 0) :=
        effect_full bridges call used (Nat.not_lt.mp hfree)
      rw [hnone]
  leaked := by
    intro call hunrecorded hmax
    cases call with
    | http call => exact hunrecorded.elim
    | s3 call => exact s3Call_unrecorded bridges.s3Access call hunrecorded hmax
    | io call => exact hunrecorded.elim

/-- For every repertoire of calls a script can make, with any behaviour of the
outside world: the operations of every execution stay within `max_ops` exactly
when `max_ops` is zero, or all calls of the repertoire that go out use the same
bridge and no S3 call of it leaves a request unrecorded. -/
theorem performed_le_maxOps_iff (bridges : Bridges) (repertoire : ScriptCall → Prop) :
    (∀ calls : List ScriptCall, (∀ call ∈ calls, repertoire call) →
      bridges.performed calls ≤ bridges.maxOps) ↔
    bridges.maxOps = 0 ∨
      ((∀ left right, repertoire left → repertoire right → bridges.Outbound left →
        bridges.Outbound right → left.bridge = right.bridge) ∧
      ∀ call, repertoire call → ¬ bridges.Unrecorded call) :=
  Budget.performed_le_iff (meter_lawful bridges) repertoire

/-- A limit of one operation, one listed host and one listed resource. -/
def oneOperation : Bridges :=
  ⟨1, ["8.8.8.8"], false, ⟨"https://s3.example.com", "bucket", true⟩, false, ["db"], false⟩

def publicGet : HttpCall :=
  ⟨sampleNet, noAnswer, "GET", "http://8.8.8.8/", "", .sent (.ok (200, 2, .str "ok"))⟩

def dbQuery : IoCall :=
  ⟨⟨id, ⟨fun _ => "::", fun _ => none⟩, noAnswer⟩, ⟨[], none⟩,
    some fun _ _ _ => some (.ok "[]"), "db", "query", "[]"⟩

/-- A GET and a query both go out under a limit of one. -/
theorem two_bridges_exceed_maxOps :
    oneOperation.performed [.http publicGet, .io dbQuery] = 2 ∧
      ¬ ∀ (bridges : Bridges) (calls : List ScriptCall),
        bridges.performed calls ≤ bridges.maxOps := by
  have htwo : oneOperation.performed [.http publicGet, .io dbQuery] = 2 := by decide +kernel
  refine ⟨htwo, ?_⟩
  intro hall
  have hle := hall oneOperation [.http publicGet, .io dbQuery]
  rw [htwo] at hle
  exact absurd hle (by decide)

end Runlet.OpBudgets
