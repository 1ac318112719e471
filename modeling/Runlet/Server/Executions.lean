import Mathlib.Logic.Function.Basic
import Runlet.Lib.Ledger
import Runlet.Lib.Transition
import Runlet.Server.Gates

/-!
Every execution the box runs, whichever way it came in: a `/execute` request,
an item of a `/batch` fan-out, or a `before`/`after` phase of a batch. The
request futures and the blocking closures they start are separate: a future
holds the quota guard and the permits, its closure runs on a blocking thread,
and a client that disconnects drops the future only. Futures interleave at
their await points in any order, and a future that ends gives back what it
holds one piece at a time.
-/

namespace Runlet.Executions

open Errors Gates Identity Ledger Quota Transition

variable {Key : Type}

/-! ### Configuration -/

/-- The limits `main` resolves at startup; `hash` is the hasher of the buckets. -/
structure Config (Key : Type) where
  maxConcurrentExecutions : Nat
  poolSize : Nat
  maxConcurrentPerPartition : Nat
  partitionBuckets : Nat
  trusted : Option (TrustedRuntime Key)
  hash : String → Nat

def autoConcurrencyFactor : Nat := 16

def defaultPartitionBuckets : Nat := 256

/-- `resolved_max_concurrent`: the capacity of the bulkhead. -/
def Config.bulkheadCapacity (cfg : Config Key) : Nat :=
  if cfg.maxConcurrentExecutions > 0 then cfg.maxConcurrentExecutions
  else
    let auto := min (cfg.poolSize * autoConcurrencyFactor) u64Max
    if auto > 0 then auto else 1

def Config.resolvedPartitionBuckets (cfg : Config Key) : Nat :=
  if cfg.partitionBuckets > 0 then cfg.partitionBuckets else defaultPartitionBuckets

/-- The fan-out width of one batch. -/
def Config.batchCeiling (cfg : Config Key) : Nat :=
  let ceiling :=
    if cfg.maxConcurrentPerPartition > 0 then cfg.maxConcurrentPerPartition
    else cfg.bulkheadCapacity
  max (min ceiling cfg.bulkheadCapacity) 1

def Config.partitionLimiter (cfg : Config Key) : Option PartitionLimiter :=
  PartitionLimiter.new cfg.resolvedPartitionBuckets cfg.maxConcurrentPerPartition

/-! ### Futures -/

/-- What a request brings past its identity and script gates: the fairness
key and the trusted identity. -/
structure Request where
  partition : Option String
  identity : Option TrustedIdentity
  deriving DecidableEq

def Request.tenant (request : Request) : Option String :=
  request.identity.bind (·.tenant)

def Request.plan (request : Request) : Option String :=
  request.identity.bind (·.plan)

/-- Which pipeline the future runs; batches are numbered. -/
inductive Path where
  | execute
  | item (batch : Nat)
  | phase (batch : Nat)
  deriving DecidableEq

def Path.batch : Path → Option Nat
  | .execute => none
  | .item batch => some batch
  | .phase batch => some batch

/-- Where the future stands. A closing future has returned or was dropped. -/
inductive Stage where
  | arrived
  | metered
  | slotted
  | permitted
  | executing
  | closing
  deriving DecidableEq

/-- One future, what it holds, and whether its blocking closure runs. -/
structure Task where
  path : Path
  request : Request
  stage : Stage
  running : Bool
  guard : Option QuotaGuard
  slot : Bool
  bucket : Option Nat
  global : Bool
  deriving DecidableEq

def Task.new (path : Path) (request : Request) : Task where
  path := path
  request := request
  stage := .arrived
  running := false
  guard := none
  slot := false
  bucket := none
  global := false

/-- The future is gone, with everything it held. -/
def Task.done (task : Task) : Bool :=
  task.stage = .closing && !task.running && task.guard.isNone && !task.slot &&
    task.bucket.isNone && !task.global

/-! ### Shared resources -/

/-- The free permits, the fair-share gate of each batch, and the quota table. -/
structure Pools where
  permits : Permits
  gates : Nat → Nat
  inflight : Inflight

def PartitionLimiter.release (limiter : PartitionLimiter) (bucket : Nat) :
    PartitionLimiter :=
  ⟨limiter.buckets.modify bucket (· + 1)⟩

/-- `batch_item_quota`: the same debit, with the envelope as its error. -/
def batchItemQuota (trusted : Option (TrustedRuntime Key))
    (identity : Option TrustedIdentity) (table : Inflight) :
    Except ErrorEnvelope (Option QuotaGuard) × Inflight :=
  match enforceQuota trusted identity table with
  | (.ok guard, table) => (.ok guard, table)
  | (.error rejection, table) => (.error rejection.envelope, table)

/-- The guard a future gets, if it is let through. -/
def Task.debit (cfg : Config Key) (task : Task) (table : Inflight) :
    Option (Option QuotaGuard) × Inflight :=
  match task.path with
  | .execute =>
      match enforceQuota cfg.trusted task.request.identity table with
      | (.ok guard, table) => (some guard, table)
      | (.error _, table) => (none, table)
  | .item _ | .phase _ =>
      match batchItemQuota cfg.trusted task.request.identity table with
      | (.ok guard, table) => (some guard, table)
      | (.error _, table) => (none, table)

/-- The permits a future can hold, each released when it is dropped. -/
inductive Resource where
  | guard
  | slot
  | bucket
  | global
  deriving DecidableEq

/-- Dropping one piece of what the future holds. -/
def Task.release (task : Task) (pools : Pools) : Resource → Option (Task × Pools)
  | .guard =>
      match task.guard with
      | some guard => some ({ task with guard := none },
          { pools with inflight := guard.drop pools.inflight })
      | none => none
  | .slot =>
      match task.path, task.slot with
      | .item batch, true => some ({ task with slot := false },
          { pools with gates :=
              Function.update pools.gates batch (pools.gates batch + 1) })
      | _, _ => none
  | .bucket =>
      match task.bucket, pools.permits.partition with
      | some bucket, some limiter => some ({ task with bucket := none },
          { pools with permits :=
              ⟨pools.permits.global,
                some (PartitionLimiter.release limiter bucket)⟩ })
      | _, _ => none
  | .global =>
      match task.global with
      | true => some ({ task with global := false },
          { pools with permits :=
              ⟨pools.permits.global + 1, pools.permits.partition⟩ })
      | false => none

/-! ### One future, step by step -/

inductive Move where
  /-- the quota gate -/
  | quota
  /-- the broker session could not be opened -/
  | fail
  /-- a place under the batch's own ceiling -/
  | slot
  /-- the permits for the blocking thread -/
  | permit
  /-- `spawn_blocking` -/
  | spawn
  /-- the closure returns -/
  | finish
  /-- the future resumes with the closure's result -/
  | resume
  | drop (resource : Resource)
  deriving DecidableEq

/-- The bulkhead permit of an item or a phase, which waits for a free one. -/
def Task.awaitGlobal (task : Task) (pools : Pools) : Option (Task × Pools) :=
  if 0 < pools.permits.global then
    some ({ task with stage := .permitted, global := true },
      { pools with permits := ⟨pools.permits.global - 1, pools.permits.partition⟩ })
  else none

/-- One move of a future; `none` where it cannot make it now. A `/execute`
request takes its permits or is shed at once, items and phases wait. -/
def advance (cfg : Config Key) (pools : Pools) (task : Task) :
    Move → Option (Task × Pools)
  | .quota =>
      match task.stage with
      | .arrived =>
          match task.debit cfg pools.inflight with
          | (some guard, table) => some ({ task with stage := .metered, guard := guard },
              { pools with inflight := table })
          | (none, table) => some ({ task with stage := .closing },
              { pools with inflight := table })
      | _ => none
  | .fail =>
      match task.stage with
      | .metered => some ({ task with stage := .closing }, pools)
      | _ => none
  | .slot =>
      match task.path, task.stage with
      | .item batch, .metered =>
          if 0 < pools.gates batch then
            some ({ task with stage := .slotted, slot := true },
              { pools with gates :=
                  Function.update pools.gates batch (pools.gates batch - 1) })
          else none
      | _, _ => none
  | .permit =>
      match task.path, task.stage with
      | .execute, .metered =>
          match admitPermits cfg.hash pools.permits task.request.partition with
          | (.ok bucket, rest) =>
              some ({ task with stage := .permitted, bucket := bucket, global := true },
                { pools with permits := rest })
          | (.error _, rest) => some ({ task with stage := .closing },
              { pools with permits := rest })
      | .item _, .slotted => task.awaitGlobal pools
      | .phase _, .metered => task.awaitGlobal pools
      | _, _ => none
  | .spawn =>
      match task.stage with
      | .permitted => some ({ task with stage := .executing, running := true }, pools)
      | _ => none
  | .finish =>
      match task.running with
      | true => some ({ task with running := false }, pools)
      | false => none
  | .resume =>
      match task.stage, task.running with
      | .executing, false => some ({ task with stage := .closing }, pools)
      | _, _ => none
  | .drop resource =>
      match task.stage with
      | .closing => task.release pools resource
      | _ => none

/-! ### The box -/

/-- How far a batch has come. A batch that has answered or whose client has
left is over. -/
inductive BatchStage where
  | received
  | before
  | fanOut
  | after
  | over
  deriving DecidableEq

structure Batch where
  request : Request
  before : Bool
  items : Nat
  after : Bool
  stage : BatchStage

structure State where
  tasks : List Task
  pools : Pools
  batches : Nat → Option Batch

def State.initial (cfg : Config Key) : State where
  tasks := []
  pools :=
    { permits := ⟨cfg.bulkheadCapacity, cfg.partitionLimiter⟩
      gates := fun _ => cfg.batchCeiling
      inflight := fun _ => none }
  batches := fun _ => none

/-- Nothing of the batch is in progress: its phases and items have returned. -/
def State.idle (s : State) (batch : Nat) : Bool :=
  s.tasks.all fun task => task.path.batch ≠ some batch || task.done

inductive Action where
  /-- a `/execute` request that has passed the gates before its quota -/
  | arrive (request : Request)
  /-- a `/batch` request that has passed its batch-level gates -/
  | submit (batch : Nat) (request : Request) (before : Bool) (items : Nat)
      (after : Bool)
  /-- the next phase of a batch begins -/
  | proceed (batch : Nat)
  /-- a batch ends, or its client disconnects -/
  | conclude (batch : Nat)
  | move (task : Nat) (move : Move)
  /-- a future is dropped at its await point -/
  | disconnect (task : Nat)

/-- The futures a batch starts next, and the stage it is in then. -/
def Batch.next (number : Nat) (batch : Batch) : Option (List Task × BatchStage) :=
  let phase := [Task.new (.phase number) batch.request]
  let items := List.replicate batch.items (Task.new (.item number) batch.request)
  match batch.stage with
  | .received => if batch.before then some (phase, .before) else some (items, .fanOut)
  | .before => some (items, .fanOut)
  | .fanOut => if batch.after then some (phase, .after) else some ([], .over)
  | .after => some ([], .over)
  | .over => none

/-- A future can be dropped by its own client only: items and phases go with
their batch. -/
def State.droppable (s : State) (task : Task) : Bool :=
  match task.path.batch with
  | none => true
  | some batch =>
      match s.batches batch with
      | some known => known.stage = .over
      | none => false

def State.setBatch (s : State) (number : Nat) (batch : Batch) : State :=
  { s with batches := Function.update s.batches number (some batch) }

def step (cfg : Config Key) (s : State) : Action → Option State
  | .arrive request =>
      some { s with tasks := s.tasks ++ [Task.new .execute request] }
  | .submit number request before items after =>
      match s.batches number with
      | none => some (s.setBatch number ⟨request, before, items, after, .received⟩)
      | some _ => none
  | .proceed number =>
      match s.batches number with
      | none => none
      | some batch =>
          if s.idle number then
            (batch.next number).map fun (tasks, stage) =>
              { s.setBatch number { batch with stage := stage } with
                tasks := s.tasks ++ tasks }
          else none
  | .conclude number =>
      (s.batches number).map fun batch =>
        s.setBatch number { batch with stage := .over }
  | .move index move =>
      match s.tasks[index]? with
      | none => none
      | some task =>
          (advance cfg s.pools task move).map fun (task', pools') =>
            { s with tasks := s.tasks.set index task', pools := pools' }
  | .disconnect index =>
      match s.tasks[index]? with
      | none => none
      | some task =>
          if task.stage ≠ .closing ∧ s.droppable task then
            some { s with tasks := s.tasks.set index { task with stage := .closing } }
          else none

/-- The executions running on blocking threads. -/
def State.running (s : State) : Nat :=
  total (fun task => task.running.toNat) s.tasks

/-- The executions running for one partition key. -/
def State.runningForKey (s : State) (key : String) : Nat :=
  total (fun task =>
    (task.running && task.request.partition == some key).toNat) s.tasks

/-- The executions running for one tenant. -/
def State.runningForTenant (s : State) (tenant : String) : Nat :=
  total (fun task =>
    (task.running && task.request.tenant == some tenant).toNat) s.tasks

end Runlet.Executions
