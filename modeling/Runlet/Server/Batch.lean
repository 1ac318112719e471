import Mathlib.Data.List.Perm.Basic
import Mathlib.Data.List.Range
import Runlet.Server.Contexts
import Runlet.Server.Telemetry

/-!
The `/batch` pipeline: batch-level caps, the `before` barrier, the concurrent
fan-out of the items, the byte cap on the results and the `after` reduce
(`handler/batch.rs`, `batch_items.rs` and `lifecycle.rs`). Each invocation is
a pipeline of its own with its own surroundings, so that every interleaving of
the item tasks is one choice of these; the order in which finished tasks are
joined and the tasks that never finish are chosen by `BatchWorld`. Rendering
an item to JSON cannot fail on its plain fields, and `size` stands for the
length of the text.
-/

namespace Runlet.Batch

open Contexts Errors Execute Gates Identity JsonText Response Telemetry

structure BatchItem (S3 Sys : Type) where
  script : Option String
  key : Option String
  context : String
  config : RequestConfig S3 Sys
  id : Option String

structure BatchRequest (S3 Sys : Type) where
  items : List (BatchItem S3 Sys)
  before : Option (BatchItem S3 Sys)
  shared : Option String
  after : Option (BatchItem S3 Sys)

structure BatchLimits where
  maxItems : Nat
  maxInputBytes : Nat
  maxSharedBytes : Nat
  maxResponseBytes : Nat

variable {Key S3 Sys Meta Metrics Egress Effect LogEntry : Type}

/-! ### One invocation -/

/-- A check without an event of its own. -/
def require {α : Type} (checked : Except Rejection α) :
    Pipeline (Event S3 Sys) Rejection α :=
  match checked with
  | .ok value => pure value
  | .error rejection => ⟨rejection.auditReason.toList.map .denied, .error rejection⟩

/-- The context an item is run with: its own, or its own with the shared one
under the reserved key. -/
def itemContext (codec : Codec) (context : String) (shared : Option String) :
    Except Rejection String :=
  match shared with
  | none => .ok context
  | some shared =>
      match contextWithReserved codec context [("shared", shared)] with
      | some merged => .ok merged
      | none => .error ⟨requestError "INVALID_CONTEXT"
          "item context must be a JSON object when the batch supplies a shared context",
          some "INVALID_CONTEXT"⟩

/-- The inputs of the blocking execution of an item or a phase. -/
def itemParams (state : AppState Key) (identity : Option TrustedIdentity)
    (partition : Option String) (session : Option Wire.WireInit) (source : ScriptSource)
    (contextJson : String) (config : RequestConfig S3 Sys) : ExecuteBlocking S3 Sys where
  session := session
  localResources := state.localResources
  source := source
  contextJson := contextJson
  config := config
  cacheNs := partition
  logFloor := none
  defaultCurrency := state.defaultCurrency
  tenant := identity.bind (·.tenant)
  actor := identity.bind (·.user)
  principalKind := identity.bind (·.principalKind)
  onBehalfOf := identity.bind (·.onBehalfOf)

section Invocation

variable {Result : Type} (state : AppState Key) (env : Env Key S3 Sys Result)
  (identity : Option TrustedIdentity) (partition : Option String)

/-- The check of `enforce_member_authz`, made again for every item and phase. -/
def batchItemAuthz (config : RequestConfig S3 Sys) : Except Rejection Unit :=
  enforceMemberAuthz state.trusted identity config

/-- The debit of `enforce_quota`: a batch costs one unit for each item and
phase. -/
def batchItemQuota : Except Rejection (Option Quota.QuotaGuard) :=
  (enforceQuota state.trusted identity env.inflight).1

/-- From the authorization to the engine's result, as items and phases share
it. The slot and the bulkhead permit are queued for and always granted. -/
def runGated (source : ScriptSource) (contextJson : String)
    (config : RequestConfig S3 Sys) : Pipeline (Event S3 Sys) Rejection Result := do
  gate (batchItemAuthz state identity config)
    fun _ => .capabilitiesAuthorized (requestedCapabilities config)
  let held ← gate (batchItemQuota state env identity) .quotaAdmitted
  let execution := do
    let session ← openSession state env identity config.io
    let params := itemParams state identity partition session source contextJson config
    Pipeline.emit (.executionStarted params)
    pure (env.engine params)
  Pipeline.onExit execution (held.toList.map .quotaReleased)

/-- The size check looks at the item's own context, before the merge. -/
def runBatchItem (codec : Codec) (item : BatchItem S3 Sys) (shared : Option String) :
    Pipeline (Event S3 Sys) Rejection Result := do
  let source ← gate (resolveScript item.script item.key state.registry)
    fun _ => .scriptResolved
  let scriptBytes := source.asStr.utf8ByteSize
  let contextBytes := item.context.utf8ByteSize
  gate (validateInputSizes scriptBytes contextBytes state.maxScriptSize state.maxContextSize)
    fun _ => .inputSizesChecked scriptBytes contextBytes
  let contextJson ← require (itemContext codec item.context shared)
  runGated state env identity partition source contextJson item.config

/-- A phase is given its context already merged. -/
def runLifecyclePhase (item : BatchItem S3 Sys) (contextJson : String) :
    Pipeline (Event S3 Sys) Rejection Result := do
  let source ← gate (resolveScript item.script item.key state.registry)
    fun _ => .scriptResolved
  let scriptBytes := source.asStr.utf8ByteSize
  let contextBytes := contextJson.utf8ByteSize
  gate (validateInputSizes scriptBytes contextBytes state.maxScriptSize state.maxContextSize)
    fun _ => .inputSizesChecked scriptBytes contextBytes
  runGated state env identity partition source contextJson item.config

end Invocation

/-! ### Results -/

section Results

variable (reader : Reader) (cfg : RespCfg) (withMetrics : Meta → Metrics → Egress → Meta)

def renderItem (id : Option String) (baseMeta : Meta) :
    Except Rejection (ExecResult Metrics Egress Effect LogEntry) → RenderedItem Meta
  | .error rejection => renderErrorItem rejection.envelope baseMeta id
  | .ok result => (renderExecutedItem withMetrics reader cfg id baseMeta result).2

def phaseOutcome (baseMeta : Meta) :
    Except Rejection (ExecResult Metrics Egress Effect LogEntry) → LifecyclePhase
  | .error rejection => .failure rejection.envelope
  | .ok result => (lifecycleOutcome withMetrics reader cfg baseMeta result).2

end Results

/-- A slot whose task never completed. -/
def internalErrorItem (emptyMeta : Meta) : RenderedItem Meta :=
  renderErrorItem ((ErrorEnvelope.new .runtime .engine "INTERNAL_ERROR" true
    .operator).withMessage "batch item did not complete") emptyMeta none

/-- An item whose bytes do not fit any more. -/
def truncatedItem (emptyMeta : Meta) : RenderedItem Meta :=
  renderErrorItem ((ErrorEnvelope.new .runtime .engine "BATCH_RESPONSE_TRUNCATED" false
    .operator).withMessage "item output omitted: batch response size limit reached")
    emptyMeta none

/-- One joined task: a finished one fills its slot. -/
def joinTask {α : Type} (finished : Nat → Option α) (slots : List (Option α))
    (index : Nat) : List (Option α) :=
  match finished index with
  | some rendered => slots.set index (some rendered)
  | none => slots

def fanOutItems {α : Type} (count : Nat) (order : List Nat) (finished : Nat → Option α) :
    List (Option α) :=
  order.foldl (joinTask finished) (List.replicate count none)

structure Rendered (Meta : Type) where
  results : List (ItemEnvelope Meta)
  ok : Nat
  failed : Nat

/-- Adds one item in front and counts it. -/
def Rendered.push (item : RenderedItem Meta) (rest : Rendered Meta) : Rendered Meta :=
  ⟨item.body :: rest.results, rest.ok + item.ok.toNat, rest.failed + (!item.ok).toNat⟩

/-- The results under the byte cap; `used` is the running total. -/
def renderSlots (size : RenderedItem Meta → Nat) (maxResponseBytes : Nat) (emptyMeta : Meta)
    (used : Nat) : List (Option (RenderedItem Meta)) → Rendered Meta
  | [] => ⟨[], 0, 0⟩
  | slot :: rest =>
      let rendered := slot.getD (internalErrorItem emptyMeta)
      let projected := used + size rendered
      if projected > maxResponseBytes then
        let truncated := truncatedItem emptyMeta
        (renderSlots size maxResponseBytes emptyMeta (used + size truncated) rest).push
          truncated
      else
        (renderSlots size maxResponseBytes emptyMeta projected rest).push rendered

/-! ### The whole batch -/

/-- What becomes of an item's task: it completes, or it is lost (a panic or an
abort outside the engine) before or after its execution has started. -/
inductive Fate where
  | completes
  | lostBeforeStart
  | lostAfterStart
  deriving DecidableEq

/-- The surroundings of one batch: those of each invocation, the fate of each
item's task, and the order in which the tasks are joined. -/
structure BatchWorld (Key S3 Sys Result : Type) where
  before : Env Key S3 Sys Result
  item : Nat → Env Key S3 Sys Result
  after : Env Key S3 Sys Result
  fate : Nat → Fate
  order : Nat → List Nat
  order_perm : ∀ count, (order count).Perm (List.range count)

/-- The box a batch runs on: its state and limits, the JSON library, the
metadata of an invocation, and the texts and sizes of rendered items. -/
structure BatchBox (Key Meta Metrics Egress : Type) where
  state : AppState Key
  limits : BatchLimits
  cfg : RespCfg
  codec : Codec
  withMetrics : Meta → Metrics → Egress → Meta
  size : RenderedItem Meta → Nat
  writeResults : List (ItemEnvelope Meta) → String
  baseMeta : Meta
  emptyMeta : Meta

structure BatchResponse (Meta : Type) where
  results : List (ItemEnvelope Meta)
  summary : Option String
  summaryError : Option ErrorEnvelope
  items : Nat
  ok : Nat
  failed : Nat

/-- What a batch did, phase by phase, and its response or the envelope of its
batch-level failure. -/
structure BatchRun (S3 Sys Meta : Type) where
  beforeTrace : List (Event S3 Sys)
  itemTraces : List (List (Event S3 Sys))
  afterTrace : List (Event S3 Sys)
  response : Except ErrorEnvelope (BatchResponse Meta)

def BatchRun.refused (trace : List (Event S3 Sys)) (envelope : ErrorEnvelope) :
    BatchRun S3 Sys Meta :=
  ⟨trace, [], [], .error envelope⟩

def batchItemInputBytes (item : BatchItem S3 Sys) : Nat :=
  (item.script.map String.utf8ByteSize).getD 0 + item.context.utf8ByteSize

def validateBatch (limits : BatchLimits) (items : List (BatchItem S3 Sys)) :
    Except Rejection Unit :=
  let combined := items.foldl (fun total item => total + batchItemInputBytes item) 0
  if items.isEmpty then
    .error (denyIdentity "EMPTY_BATCH" "batch must contain at least one item")
  else if items.length > limits.maxItems then
    .error (denyIdentity "BATCH_TOO_LARGE" ("batch has " ++ toString items.length ++
      " items, exceeding the limit of " ++ toString limits.maxItems))
  else if combined > limits.maxInputBytes then
    .error (denyIdentity "BATCH_INPUT_TOO_LARGE" ("combined input " ++ toString combined ++
      " bytes exceeds the limit of " ++ toString limits.maxInputBytes))
  else .ok ()

def isStart : Event S3 Sys → Bool
  | .executionStarted _ => true
  | _ => false

/-- The part of an item's trace that its fate lets happen. -/
def Fate.cut (fate : Fate) (trace : List (Event S3 Sys)) : List (Event S3 Sys) :=
  match fate with
  | .lostBeforeStart => trace.takeWhile fun event => !isStart event
  | _ => trace

section Run

variable (box : BatchBox Key Meta Metrics Egress)
  (world : BatchWorld Key S3 Sys (ExecResult Metrics Egress Effect LogEntry))
  (identity : Option TrustedIdentity) (partition : Option String)

/-- The shared context out of the seed and the `before` data, under its cap. -/
def shareContext (seed beforeData : Option String) : Except ErrorEnvelope (Option String) :=
  match buildSharedContext box.codec seed beforeData with
  | none => .ok none
  | some json =>
      if json.utf8ByteSize > box.limits.maxSharedBytes then
        .error (requestError "SHARED_CONTEXT_TOO_LARGE" ("shared context " ++
          toString json.utf8ByteSize ++ " bytes exceeds the limit of " ++
          toString box.limits.maxSharedBytes))
      else .ok (some json)

/-- The audit event of a shared context over its cap. -/
def sharedDenial (built : Except ErrorEnvelope (Option String)) : List (Event S3 Sys) :=
  match built with
  | .error _ => [.denied "SHARED_CONTEXT_TOO_LARGE"]
  | .ok _ => []

/-- The barrier: its trace and the shared context, or the failure that ends
the batch. -/
def runBeforePhase (before : Option (BatchItem S3 Sys)) (seed : Option String) :
    List (Event S3 Sys) × Except ErrorEnvelope (Option String) :=
  match before with
  | none =>
      let built := shareContext box seed none
      (sharedDenial built, built)
  | some item =>
      let phase := runLifecyclePhase box.state world.before identity partition item item.context
      match phaseOutcome box.codec.toReader box.cfg box.withMetrics box.baseMeta
          phase.result with
      | .failure envelope => (phase.trace, .error envelope)
      | .success data =>
          let built := shareContext box seed (some data)
          (phase.trace ++ sharedDenial built, built)

def runItem (shared : Option String) (index : Nat) (item : BatchItem S3 Sys) :
    Pipeline (Event S3 Sys) Rejection (ExecResult Metrics Egress Effect LogEntry) :=
  runBatchItem box.state (world.item index) identity partition box.codec item shared

/-- What the task of an item hands to the join, if it completes. -/
def finishedItem (items : List (BatchItem S3 Sys)) (shared : Option String) (index : Nat) :
    Option (RenderedItem Meta) :=
  match items[index]?, world.fate index with
  | some item, .completes => some (renderItem box.codec.toReader box.cfg box.withMetrics
      item.id box.baseMeta (runItem box world identity partition shared index item).result)
  | _, _ => none

/-- The results of the fan-out, joined in the world's order. -/
def runItems (items : List (BatchItem S3 Sys)) (shared : Option String) : Rendered Meta :=
  renderSlots box.size box.limits.maxResponseBytes box.emptyMeta 0
    (fanOutItems items.length (world.order items.length)
      (finishedItem box world identity partition items shared))

/-- The reserved keys of the `after` context. -/
def afterReserved (results : List (ItemEnvelope Meta)) (shared : Option String) :
    List (String × String) :=
  ("results", box.writeResults results) :: (shared.map fun text => ("shared", text)).toList

/-- The reduce: its trace, the summary and the summary's error. -/
def runAfterPhase (after : Option (BatchItem S3 Sys)) (results : List (ItemEnvelope Meta))
    (shared : Option String) :
    List (Event S3 Sys) × Option String × Option ErrorEnvelope :=
  match after with
  | none => ([], none, none)
  | some item =>
      match contextWithReserved box.codec item.context
          (afterReserved box results shared) with
      | none => ([], none, some (requestError "INVALID_CONTEXT"
          "after context must be a JSON object"))
      | some contextJson =>
          let phase :=
            runLifecyclePhase box.state world.after identity partition item contextJson
          match phaseOutcome box.codec.toReader box.cfg box.withMetrics box.baseMeta
              phase.result with
          | .success data => (phase.trace, some data, none)
          | .failure envelope => (phase.trace, none, some envelope)

/-- From the parsed request on. -/
def runPhases (request : BatchRequest S3 Sys) : BatchRun S3 Sys Meta :=
  match validateBatch box.limits request.items with
  | .error rejection =>
      .refused (rejection.auditReason.toList.map .denied) rejection.envelope
  | .ok () =>
      match runBeforePhase box world identity partition request.before request.shared with
      | (trace, .error envelope) => .refused trace envelope
      | (trace, .ok shared) =>
          let rendered := runItems box world identity partition request.items shared
          let reduced := runAfterPhase box world identity partition request.after
            rendered.results shared
          { beforeTrace := trace
            itemTraces := request.items.mapIdx fun index item =>
              (world.fate index).cut
                (runItem box world identity partition shared index item).trace
            afterTrace := reduced.1
            response := .ok
              { results := rendered.results
                summary := reduced.2.1
                summaryError := reduced.2.2
                items := request.items.length
                ok := rendered.ok
                failed := rendered.failed } }

end Run

/-- One `/batch` request: credential, identity, body, then the phases. -/
def runBatch (box : BatchBox Key Meta Metrics Egress)
    (world : BatchWorld Key S3 Sys (ExecResult Metrics Egress Effect LogEntry))
    (headers : HeaderMap) (payload : Option (BatchRequest S3 Sys)) :
    BatchRun S3 Sys Meta :=
  match enforceAuth box.state.accessToken headers with
  | .error rejection => .refused [] rejection.envelope
  | .ok () =>
      match (resolveIdentity box.state.trusted world.before.cache headers).1 with
      | .error rejection =>
          .refused (rejection.auditReason.toList.map .denied) rejection.envelope
      | .ok identity =>
          match payload with
          | none => .refused [.denied "MALFORMED_REQUEST"]
              (requestError "MALFORMED_REQUEST" "request body is not valid for /batch")
          | some request =>
              runPhases box world identity
                (resolvePartition identity (headerPartition headers)) request

/-- The request passed the checks in front of its fan-out, with this identity,
partition and shared context. -/
structure FannedOut (box : BatchBox Key Meta Metrics Egress)
    (world : BatchWorld Key S3 Sys (ExecResult Metrics Egress Effect LogEntry))
    (headers : HeaderMap) (request : BatchRequest S3 Sys)
    (identity : Option TrustedIdentity) (partition shared : Option String) : Prop where
  auth : enforceAuth box.state.accessToken headers = .ok ()
  identified : (resolveIdentity box.state.trusted world.before.cache headers).1 = .ok identity
  partitioned : resolvePartition identity (headerPartition headers) = partition
  valid : validateBatch box.limits request.items = .ok ()
  shares : (runBeforePhase box world identity partition request.before request.shared).2 =
    .ok shared

section FannedOut

variable {box : BatchBox Key Meta Metrics Egress}
  {world : BatchWorld Key S3 Sys (ExecResult Metrics Egress Effect LogEntry)}
  {headers : HeaderMap} {request : BatchRequest S3 Sys}
  {identity : Option TrustedIdentity} {partition shared : Option String}

/-- What such a request runs, phase by phase. -/
theorem FannedOut.run_eq
    (h : FannedOut box world headers request identity partition shared) :
    let rendered := runItems box world identity partition request.items shared
    let reduced := runAfterPhase box world identity partition request.after
      rendered.results shared
    runBatch box world headers (some request) =
      { beforeTrace :=
          (runBeforePhase box world identity partition request.before request.shared).1
        itemTraces := request.items.mapIdx fun index item =>
          (world.fate index).cut
            (runItem box world identity partition shared index item).trace
        afterTrace := reduced.1
        response := .ok
          { results := rendered.results
            summary := reduced.2.1
            summaryError := reduced.2.2
            items := request.items.length
            ok := rendered.ok
            failed := rendered.failed } } := by
  have hbefore : runBeforePhase box world identity partition request.before request.shared =
      ((runBeforePhase box world identity partition request.before request.shared).1,
        .ok shared) := by
    rw [← h.shares]
  simp only [runBatch, h.auth, h.identified, h.partitioned, runPhases, h.valid]
  rw [hbefore]

theorem FannedOut.response
    (h : FannedOut box world headers request identity partition shared) :
    ∃ response, (runBatch box world headers (some request)).response = .ok response ∧
      response.results =
        (runItems box world identity partition request.items shared).results ∧
      response.items = request.items.length ∧
      response.ok = (runItems box world identity partition request.items shared).ok ∧
      response.failed =
        (runItems box world identity partition request.items shared).failed := by
  rw [h.run_eq]
  exact ⟨_, rfl, rfl, rfl, rfl, rfl⟩

end FannedOut

/-- Every other request ran at most its `before` phase and is refused. -/
theorem runBatch_refused_or (box : BatchBox Key Meta Metrics Egress)
    (world : BatchWorld Key S3 Sys (ExecResult Metrics Egress Effect LogEntry))
    (headers : HeaderMap) (payload : Option (BatchRequest S3 Sys)) :
    (∃ request identity partition shared, payload = some request ∧
      FannedOut box world headers request identity partition shared) ∨
    (∃ (reasons : List String) (envelope : ErrorEnvelope), runBatch box world headers payload =
      .refused (reasons.map .denied) envelope) ∨
    ∃ request identity partition envelope, payload = some request ∧
      runBatch box world headers payload = .refused
        (runBeforePhase box world identity partition request.before request.shared).1
        envelope := by
  unfold runBatch
  cases hauth : enforceAuth box.state.accessToken headers with
  | error rejection => exact .inr (.inl ⟨[], _, rfl⟩)
  | ok checked =>
      cases hidentity : (resolveIdentity box.state.trusted world.before.cache headers).1 with
      | error rejection => exact .inr (.inl ⟨_, _, rfl⟩)
      | ok identity =>
          cases payload with
          | none => exact .inr (.inl ⟨["MALFORMED_REQUEST"], _, rfl⟩)
          | some request =>
              simp only [runPhases]
              cases hvalid : validateBatch box.limits request.items with
              | error rejection => exact .inr (.inl ⟨_, _, rfl⟩)
              | ok validated =>
                  cases hbefore : runBeforePhase box world identity
                      (resolvePartition identity (headerPartition headers)) request.before
                      request.shared with
                  | mk trace built =>
                      cases built with
                      | error envelope =>
                          refine .inr (.inr ⟨request, identity,
                            resolvePartition identity (headerPartition headers), envelope,
                            rfl, ?_⟩)
                          rw [hbefore]
                      | ok shared =>
                          exact .inl ⟨request, identity, _, shared, rfl,
                            ⟨hauth, hidentity, rfl, hvalid, by rw [hbefore]⟩⟩

/-! A single-tenant box that counts an item's data and 200 bytes for the rest
of it, and batches whose handler returns a data object. -/

def sampleBox (maxContextSize maxResponseBytes : Nat) : BatchBox Unit Unit Unit Unit where
  state := { openState with maxContextSize := maxContextSize }
  limits := ⟨10, 1000, 1000, maxResponseBytes⟩
  cfg := sampleCfg
  codec := ⟨sampleReader, fun name => "\"" ++ name ++ "\""⟩
  withMetrics := fun metadata _ _ => metadata
  size := fun item => item.body.data.utf8ByteSize + 200
  writeResults := fun _ => "[1]"
  baseMeta := ()
  emptyMeta := ()

def sampleWorld : BatchWorld Unit Unit Unit (ExecResult Unit Unit Unit Unit) where
  before := returningEnv "\x7b\"data\":1\x7d"
  item := fun _ => returningEnv "\x7b\"data\":1\x7d"
  after := returningEnv "\x7b\"data\":1\x7d"
  fate := fun _ => .completes
  order := List.range
  order_perm := fun _ => .refl _

def sampleItem : BatchItem Unit Unit :=
  ⟨some "handler", none, "\x7b\"data\":1\x7d", ⟨[], none, none, [], none⟩, some "a"⟩

def sampleBatch (shared : Option String) : BatchRequest Unit Unit :=
  ⟨[sampleItem], none, shared, none⟩

theorem sampleBatch_fannedOut (maxContextSize maxResponseBytes : Nat) :
    FannedOut (sampleBox maxContextSize maxResponseBytes) sampleWorld [] (sampleBatch none)
      none none none := by
  exact ⟨rfl, rfl, rfl, by rfl, rfl⟩

end Runlet.Batch
