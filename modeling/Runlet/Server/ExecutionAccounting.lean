import Runlet.Server.Executions

/-!
Accounting of the shared pools. Every future exchanges units with the
bulkhead, its bucket, the gate of its batch and the quota table, so free and
held units together stay constant over every interleaving.
-/

namespace Runlet.Executions

open Errors Gates Identity Ledger Quota Transition

variable {Key : Type}

/-! ### Inversion of one move -/

/-- The moves of a future, one rule for each outcome. -/
inductive Advanced (cfg : Config Key) (pools : Pools) (task : Task) :
    Task → Pools → Prop where
  | metered (guard : Option QuotaGuard) (table : Inflight)
      (hstage : task.stage = .arrived)
      (hdebit : task.debit cfg pools.inflight = (some guard, table)) :
      Advanced cfg pools task { task with stage := .metered, guard := guard }
        { pools with inflight := table }
  | refused (table : Inflight) (hstage : task.stage = .arrived)
      (hdebit : task.debit cfg pools.inflight = (none, table)) :
      Advanced cfg pools task { task with stage := .closing }
        { pools with inflight := table }
  | failed (hstage : task.stage = .metered) :
      Advanced cfg pools task { task with stage := .closing } pools
  | slotted (batch : Nat) (hpath : task.path = .item batch)
      (hstage : task.stage = .metered) (hfree : 0 < pools.gates batch) :
      Advanced cfg pools task { task with stage := .slotted, slot := true }
        { pools with gates :=
            Function.update pools.gates batch (pools.gates batch - 1) }
  | granted (bucket : Option Nat) (rest : Permits) (hpath : task.path = .execute)
      (hstage : task.stage = .metered)
      (hgrant : acquirePermits cfg.hash pools.permits task.request.partition =
        (.granted bucket, rest)) :
      Advanced cfg pools task
        { task with stage := .permitted, bucket := bucket, global := true }
        { pools with permits := rest }
  | shed (hpath : task.path = .execute) (hstage : task.stage = .metered) :
      Advanced cfg pools task { task with stage := .closing } pools
  | awaited (batch : Nat)
      (hready : task.path = .item batch ∧ task.stage = .slotted ∨
        task.path = .phase batch ∧ task.stage = .metered)
      (hfree : 0 < pools.permits.global) :
      Advanced cfg pools task { task with stage := .permitted, global := true }
        { pools with permits := ⟨pools.permits.global - 1, pools.permits.partition⟩ }
  | spawned (hstage : task.stage = .permitted) :
      Advanced cfg pools task { task with stage := .executing, running := true } pools
  | finished (hrunning : task.running = true) :
      Advanced cfg pools task { task with running := false } pools
  | resumed (hstage : task.stage = .executing) (hrunning : task.running = false) :
      Advanced cfg pools task { task with stage := .closing } pools
  | droppedGuard (guard : QuotaGuard) (hstage : task.stage = .closing)
      (hguard : task.guard = some guard) :
      Advanced cfg pools task { task with guard := none }
        { pools with inflight := guard.drop pools.inflight }
  | droppedSlot (batch : Nat) (hstage : task.stage = .closing)
      (hpath : task.path = .item batch) (hslot : task.slot = true) :
      Advanced cfg pools task { task with slot := false }
        { pools with gates :=
            Function.update pools.gates batch (pools.gates batch + 1) }
  | droppedBucket (bucket : Nat) (limiter : PartitionLimiter)
      (hstage : task.stage = .closing) (hbucket : task.bucket = some bucket)
      (hlimiter : pools.permits.partition = some limiter) :
      Advanced cfg pools task { task with bucket := none }
        { pools with permits := ⟨pools.permits.global,
            some (PartitionLimiter.release limiter bucket)⟩ }
  | droppedGlobal (hstage : task.stage = .closing) (hglobal : task.global = true) :
      Advanced cfg pools task { task with global := false }
        { pools with permits := ⟨pools.permits.global + 1, pools.permits.partition⟩ }

theorem admitPermits_shed (hash : String → Nat) (permits rest : Permits)
    (partition : Option String) (rejection : Rejection)
    (hshed : admitPermits hash permits partition = (.error rejection, rest)) :
    rest = permits := by
  unfold admitPermits acquirePermits at hshed
  grind

theorem admitPermits_granted (hash : String → Nat) (permits rest : Permits)
    (partition : Option String) (bucket : Option Nat)
    (hok : admitPermits hash permits partition = (.ok bucket, rest)) :
    acquirePermits hash permits partition = (.granted bucket, rest) := by
  unfold admitPermits at hok
  split at hok
  · rename_i granted rest' heq
    simp only [Prod.mk.injEq, Except.ok.injEq] at hok
    rw [heq, hok.1, hok.2]
  · simp at hok
  · simp at hok

theorem advanced_of_release (cfg : Config Key) (pools pools' : Pools) (task task' : Task)
    (resource : Resource) (hstage : task.stage = .closing)
    (h : task.release pools resource = some (task', pools')) :
    Advanced cfg pools task task' pools' := by
  cases resource with
  | guard =>
      simp only [Task.release] at h
      split at h
      · cases h
        exact .droppedGuard _ hstage ‹_›
      · cases h
  | slot =>
      simp only [Task.release] at h
      split at h
      · cases h
        exact .droppedSlot _ hstage ‹_› ‹_›
      · cases h
  | bucket =>
      simp only [Task.release] at h
      split at h
      · cases h
        exact .droppedBucket _ _ hstage ‹_› ‹_›
      · cases h
  | global =>
      simp only [Task.release] at h
      split at h
      · cases h
        exact .droppedGlobal hstage ‹_›
      · cases h

theorem advanced_of_awaitGlobal (cfg : Config Key) (pools pools' : Pools)
    (task task' : Task) (batch : Nat)
    (hready : task.path = .item batch ∧ task.stage = .slotted ∨
      task.path = .phase batch ∧ task.stage = .metered)
    (h : task.awaitGlobal pools = some (task', pools')) :
    Advanced cfg pools task task' pools' := by
  unfold Task.awaitGlobal at h
  split at h
  · cases h
    exact .awaited batch hready ‹_›
  · cases h

theorem advanced_of_advance (cfg : Config Key) (pools pools' : Pools) (task task' : Task)
    (move : Move) (h : advance cfg pools task move = some (task', pools')) :
    Advanced cfg pools task task' pools' := by
  cases move with
  | quota =>
      simp only [advance] at h
      split at h
      · rename_i hstage
        split at h
        · cases h
          exact .metered _ _ hstage ‹_›
        · cases h
          exact .refused _ hstage ‹_›
      · cases h
  | fail =>
      simp only [advance] at h
      split at h
      · cases h
        exact .failed ‹_›
      · cases h
  | slot =>
      simp only [advance] at h
      split at h
      · split at h
        · cases h
          exact .slotted _ ‹_› ‹_› ‹_›
        · cases h
      · cases h
  | permit =>
      simp only [advance] at h
      split at h
      · rename_i hpath hstage
        split at h
        · rename_i bucket rest hok
          cases h
          exact .granted bucket rest hpath hstage
            (admitPermits_granted cfg.hash pools.permits rest _ bucket hok)
        · rename_i rejection rest hshed
          cases h
          cases admitPermits_shed cfg.hash pools.permits rest _ rejection hshed
          exact .shed hpath hstage
      · exact advanced_of_awaitGlobal cfg pools pools' task task' _ (.inl ⟨‹_›, ‹_›⟩) h
      · exact advanced_of_awaitGlobal cfg pools pools' task task' _ (.inr ⟨‹_›, ‹_›⟩) h
      · cases h
  | spawn =>
      simp only [advance] at h
      split at h
      · cases h
        exact .spawned ‹_›
      · cases h
  | finish =>
      simp only [advance] at h
      split at h
      · cases h
        exact .finished ‹_›
      · cases h
  | resume =>
      simp only [advance] at h
      split at h
      · cases h
        exact .resumed ‹_› ‹_›
      · cases h
  | drop resource =>
      simp only [advance] at h
      split at h
      · exact advanced_of_release cfg pools pools' task task' resource ‹_› h
      · cases h

/-! ### What a future holds at each stage -/

/-- The number of buckets, when fairness is on. -/
def Permits.shape (permits : Permits) : Option Nat :=
  permits.partition.map fun limiter => limiter.buckets.length

def Config.shape (cfg : Config Key) : Option Nat :=
  cfg.partitionLimiter.map fun limiter => limiter.buckets.length

/-- Behind the quota gate: a tenant under a quota holds its guard. -/
def Task.Debited (cfg : Config Key) (task : Task) : Prop :=
  ∀ trusted limits tenant, cfg.trusted = some trusted → trusted.quota = some limits →
    task.request.tenant = some tenant → task.guard = some ⟨tenant⟩

/-- Behind the permits: every path holds the bulkhead, a `/execute` request
its bucket, an item its slot. -/
structure Task.Permitted (cfg : Config Key) (task : Task) : Prop where
  global : task.global = true
  slot : ∀ batch, task.path = .item batch → task.slot = true
  bucket : task.path = .execute → ∀ key count, task.request.partition = some key →
    cfg.shape = some count → task.bucket = some (bucketFor cfg.hash count key)

/-- Nothing is held before it is taken, and nothing is given back before the
future closes. -/
def Task.HeldAtStage (cfg : Config Key) (task : Task) : Prop :=
  match task.stage with
  | .arrived => task.guard = none ∧ task.slot = false ∧ task.bucket = none ∧
      task.global = false ∧ task.running = false
  | .metered => task.Debited cfg ∧ task.slot = false ∧ task.bucket = none ∧
      task.global = false ∧ task.running = false
  | .slotted => task.Debited cfg ∧ task.slot = true ∧ task.bucket = none ∧
      task.global = false ∧ task.running = false
  | .permitted => task.Debited cfg ∧ task.Permitted cfg ∧ task.running = false
  | .executing => task.Debited cfg ∧ task.Permitted cfg
  | .closing => True

structure Task.WellHeld (cfg : Config Key) (task : Task) : Prop where
  stage : task.HeldAtStage cfg
  guard : ∀ guard, task.guard = some guard → task.request.tenant = some guard.tenant
  bucket : ∀ bucket, task.bucket = some bucket →
    ∃ count, cfg.shape = some count ∧ bucket < count

theorem new_wellHeld (cfg : Config Key) (path : Path) (request : Request) :
    (Task.new path request).WellHeld cfg := by
  refine ⟨⟨rfl, rfl, rfl, rfl, rfl⟩, ?_, ?_⟩
  · intro guard hguard
    cases hguard
  · intro bucket hbucket
    cases hbucket

/-- Both debits are the quota gate of the identity. -/
theorem debit_eq (cfg : Config Key) (task : Task) (table : Inflight) :
    task.debit cfg table =
      match enforceQuota cfg.trusted task.request.identity table with
      | (.ok guard, table) => (some guard, table)
      | (.error _, table) => (none, table) := by
  unfold Task.debit batchItemQuota
  cases enforceQuota cfg.trusted task.request.identity table with
  | mk outcome table' =>
      cases task.path <;> cases outcome <;> rfl

/-- A debit is an admit of the request's tenant, or none where no quota
applies. -/
theorem debit_cases (cfg : Config Key) (task : Task) (table table' : Inflight)
    (outcome : Option (Option QuotaGuard))
    (h : task.debit cfg table = (outcome, table')) :
    (∃ trusted limits tenant, cfg.trusted = some trusted ∧
      trusted.quota = some limits ∧ task.request.tenant = some tenant ∧
      (admitExecution limits table tenant task.request.plan).2 = table' ∧
      ((∃ guard, (admitExecution limits table tenant task.request.plan).1 =
          .ok guard ∧ outcome = some (some guard)) ∨
        ∃ detail, (admitExecution limits table tenant task.request.plan).1 =
          .error detail ∧ outcome = none)) ∨
    ((∀ trusted limits tenant, cfg.trusted = some trusted →
        trusted.quota = some limits → task.request.tenant = some tenant → False) ∧
      outcome = some none ∧ table' = table) := by
  rw [debit_eq] at h
  unfold enforceQuota at h
  cases htrusted : cfg.trusted with
  | none =>
      simp only [htrusted] at h
      cases h
      exact .inr ⟨fun _ _ _ h => (by cases h), rfl, rfl⟩
  | some trusted =>
      cases hidentity : task.request.identity with
      | none =>
          simp only [htrusted, hidentity] at h
          cases h
          exact .inr ⟨fun _ _ _ _ _ h => (by simp [Request.tenant, hidentity] at h),
            rfl, rfl⟩
      | some identity =>
          have htenant : task.request.tenant = identity.tenant := by
            simp [Request.tenant, hidentity]
          have hplan : task.request.plan = identity.plan := by
            simp [Request.plan, hidentity]
          cases hquota : trusted.quota with
          | none =>
              simp only [htrusted, hidentity, hquota] at h
              cases h
              refine .inr ⟨?_, rfl, rfl⟩
              intro trusted' limits tenant heq hlimits
              cases heq
              simp [hquota] at hlimits
          | some limits =>
              cases hnamed : identity.tenant with
              | none =>
                  simp only [htrusted, hidentity, hquota, hnamed] at h
                  cases h
                  refine .inr ⟨?_, rfl, rfl⟩
                  intro trusted' limits' tenant _ _ h
                  simp [htenant, hnamed] at h
              | some tenant =>
                  refine .inl ⟨trusted, limits, tenant, rfl, hquota,
                    by rw [htenant, hnamed], ?_⟩
                  rw [hplan]
                  simp only [htrusted, hidentity, hquota, hnamed] at h
                  cases hanswer : admitExecution limits table tenant identity.plan with
                  | mk answer after =>
                      cases answer with
                      | ok guard =>
                          simp only [hanswer] at h
                          cases h
                          exact ⟨rfl, .inl ⟨guard, rfl, rfl⟩⟩
                      | error detail =>
                          simp only [hanswer] at h
                          cases h
                          exact ⟨rfl, .inr ⟨detail, rfl, rfl⟩⟩

theorem acquirePermits_granted (hash : String → Nat) (permits rest : Permits)
    (partition : Option String) (bucket : Option Nat)
    (h : acquirePermits hash permits partition = (.granted bucket, rest)) :
    0 < permits.global ∧ rest.global = permits.global - 1 ∧
    ((bucket = none ∧ rest.partition = permits.partition ∧
        (permits.partition = none ∨ partition = none)) ∨
      ∃ limiter key index free, permits.partition = some limiter ∧
        partition = some key ∧ bucket = some index ∧
        index = bucketFor hash limiter.buckets.length key ∧
        limiter.buckets[index]? = some (free + 1) ∧
        rest.partition = some ⟨limiter.buckets.set index free⟩) := by
  have hplain : (permits.partition = none ∨ partition = none) →
      acquirePermits hash permits partition =
        if permits.global = 0 then (.globalBusy, permits)
        else (.granted none, ⟨permits.global - 1, permits.partition⟩) := by
    rintro (hnone | rfl)
    · simp [acquirePermits, hnone]
    · simp [acquirePermits]
  by_cases hoff : permits.partition = none ∨ partition = none
  · rw [hplain hoff] at h
    split at h
    · cases h
    · cases h
      exact ⟨by omega, rfl, .inl ⟨rfl, rfl, hoff⟩⟩
  · rw [not_or] at hoff
    obtain ⟨limiter, hlimiter⟩ := Option.ne_none_iff_exists'.mp hoff.1
    obtain ⟨key, rfl⟩ := Option.ne_none_iff_exists'.mp hoff.2
    simp only [acquirePermits, hlimiter, PartitionLimiter.tryAcquire] at h
    cases hbucket : limiter.buckets[bucketFor hash limiter.buckets.length key]? with
    | none => simp [hbucket] at h
    | some count =>
        cases count with
        | zero => simp [hbucket] at h
        | succ free =>
            simp only [hbucket] at h
            split at h
            · cases h
            · cases h
              exact ⟨by omega, rfl, .inr ⟨limiter, key, _, free, hlimiter, rfl, rfl, rfl,
                hbucket, rfl⟩⟩

/-- What the quota gate hands out is a guard of the request's tenant, and one when a
quota applies to it. -/
theorem debit_guard (cfg : Config Key) (task : Task) (table table' : Inflight)
    (guard : Option QuotaGuard) (hdebit : task.debit cfg table = (some guard, table')) :
    (∀ trusted limits tenant, cfg.trusted = some trusted → trusted.quota = some limits →
      task.request.tenant = some tenant → guard = some ⟨tenant⟩) ∧
    ∀ held, guard = some held → task.request.tenant = some held.tenant := by
  rcases debit_cases cfg task table table' (some guard) hdebit with
    ⟨trusted, limits, tenant, htrusted, hquota, htenant, -, hanswer⟩ | ⟨hfree, hout, -⟩
  · rcases hanswer with ⟨held, hok, hout⟩ | ⟨_, _, hout⟩
    · have heq := admitExecution_guard limits table tenant _ held hok
      cases Option.some.inj hout
      subst heq
      refine ⟨?_, ?_⟩
      · intro trusted' limits' tenant' _ _ htenant'
        rw [htenant] at htenant'
        cases htenant'
        rfl
      · intro guard hheld
        cases hheld
        exact htenant
    · cases hout
  · cases Option.some.inj hout
    refine ⟨?_, ?_⟩
    · intro trusted limits tenant htrusted hquota htenant
      exact (hfree trusted limits tenant htrusted hquota htenant).elim
    · intro held hheld
      cases hheld

/-- The bucket of a grant is the one the key hashes to, and one of the configured ones. -/
theorem granted_bucket (cfg : Config Key) (permits rest : Permits) (partition : Option String)
    (bucket : Option Nat) (hshape : Permits.shape permits = cfg.shape)
    (hgrant : acquirePermits cfg.hash permits partition = (.granted bucket, rest)) :
    (∀ key count, partition = some key → cfg.shape = some count →
      bucket = some (bucketFor cfg.hash count key)) ∧
    ∀ index, bucket = some index → ∃ count, cfg.shape = some count ∧ index < count := by
  obtain ⟨-, -, hbuckets⟩ := acquirePermits_granted cfg.hash permits rest partition bucket hgrant
  rcases hbuckets with
    ⟨hnone, -, hoff⟩ | ⟨limiter, key, index, free, hlimiter, hkey, hindex, hfor, hfree, -⟩
  · refine ⟨?_, ?_⟩
    · intro key count hkey hcount
      rcases hoff with hoff | hoff
      · simp [← hshape, Permits.shape, hoff] at hcount
      · simp [hoff] at hkey
    · intro index hindex
      simp [hnone] at hindex
  · have hlength : cfg.shape = some limiter.buckets.length := by
      simp [← hshape, Permits.shape, hlimiter]
    refine ⟨?_, ?_⟩
    · intro key' count hkey' hcount
      rw [hkey] at hkey'
      cases hkey'
      rw [hlength] at hcount
      cases hcount
      rw [hindex, hfor]
    · intro index' hindex'
      rw [hindex] at hindex'
      cases hindex'
      exact ⟨_, hlength, (List.getElem?_eq_some_iff.mp hfree).1⟩

/-- A move keeps what the future holds in step with its stage. -/
theorem advanced_wellHeld (cfg : Config Key) (pools pools' : Pools) (task task' : Task)
    (hheld : task.WellHeld cfg) (hshape : Permits.shape pools.permits = cfg.shape)
    (h : Advanced cfg pools task task' pools') : task'.WellHeld cfg := by
  obtain ⟨hstaged, hguard, hbucket⟩ := hheld
  unfold Task.HeldAtStage at hstaged
  cases h with
  | metered guard table hstage hdebit =>
      simp only [hstage] at hstaged
      obtain ⟨-, hslot, hnone, hglobal, hrunning⟩ := hstaged
      obtain ⟨hdebited, htenant⟩ := debit_guard cfg task pools.inflight table guard hdebit
      exact ⟨⟨hdebited, hslot, hnone, hglobal, hrunning⟩, htenant, hbucket⟩
  | refused table hstage hdebit => exact ⟨trivial, hguard, hbucket⟩
  | failed hstage => exact ⟨trivial, hguard, hbucket⟩
  | slotted batch hpath hstage hfree =>
      simp only [hstage] at hstaged
      obtain ⟨hdebited, -, hnone, hglobal, hrunning⟩ := hstaged
      exact ⟨⟨hdebited, rfl, hnone, hglobal, hrunning⟩, hguard, hbucket⟩
  | granted bucket rest hpath hstage hgrant =>
      simp only [hstage] at hstaged
      obtain ⟨hdebited, -, -, -, hrunning⟩ := hstaged
      obtain ⟨hkeyed, hbounded⟩ :=
        granted_bucket cfg pools.permits rest _ bucket hshape hgrant
      refine ⟨⟨hdebited, ⟨rfl, ?_, fun _ => hkeyed⟩, hrunning⟩, hguard, hbounded⟩
      intro batch hitem
      simp [hpath] at hitem
  | shed hpath hstage => exact ⟨trivial, hguard, hbucket⟩
  | awaited batch hready hfree =>
      rcases hready with ⟨hpath, hstage⟩ | ⟨hpath, hstage⟩
      · simp only [hstage] at hstaged
        obtain ⟨hdebited, hslot, -, -, hrunning⟩ := hstaged
        refine ⟨⟨hdebited, ⟨rfl, fun _ _ => hslot, ?_⟩, hrunning⟩, hguard, hbucket⟩
        intro hexecute
        simp [hpath] at hexecute
      · simp only [hstage] at hstaged
        obtain ⟨hdebited, -, -, -, hrunning⟩ := hstaged
        refine ⟨⟨hdebited, ⟨rfl, ?_, ?_⟩, hrunning⟩, hguard, hbucket⟩
        · intro batch hitem
          simp [hpath] at hitem
        · intro hexecute
          simp [hpath] at hexecute
  | spawned hstage =>
      simp only [hstage] at hstaged
      exact ⟨⟨hstaged.1, ⟨hstaged.2.1.global, hstaged.2.1.slot, hstaged.2.1.bucket⟩⟩,
        hguard, hbucket⟩
  | finished hrunning =>
      refine ⟨?_, hguard, hbucket⟩
      unfold Task.HeldAtStage
      cases hstage : task.stage with
      | executing =>
          simp only [hstage] at hstaged
          exact ⟨hstaged.1,
            ⟨hstaged.2.global, hstaged.2.slot, hstaged.2.bucket⟩⟩
      | closing => trivial
      | permitted => simp [hstage, hrunning] at hstaged
      | arrived => simp [hstage, hrunning] at hstaged
      | metered => simp [hstage, hrunning] at hstaged
      | slotted => simp [hstage, hrunning] at hstaged
  | resumed hstage hrunning => exact ⟨trivial, hguard, hbucket⟩
  | droppedGuard guard hstage hheld =>
      refine ⟨by simp [Task.HeldAtStage, hstage], ?_, hbucket⟩
      intro guard hheld
      cases hheld
  | droppedSlot batch hstage hpath hslot =>
      exact ⟨by simp [Task.HeldAtStage, hstage], hguard, hbucket⟩
  | droppedBucket bucket limiter hstage hheld hlimiter =>
      refine ⟨by simp [Task.HeldAtStage, hstage], hguard, ?_⟩
      intro bucket hheld
      cases hheld
  | droppedGlobal hstage hglobal =>
      exact ⟨by simp [Task.HeldAtStage, hstage], hguard, hbucket⟩

/-! ### Units -/

def Task.globalUnits (task : Task) : Nat := if task.global then 1 else 0

def Task.slotUnits (batch : Nat) (task : Task) : Nat :=
  if task.path = .item batch ∧ task.slot = true then 1 else 0

def Task.bucketUnits (bucket : Nat) (task : Task) : Nat :=
  if task.bucket = some bucket then 1 else 0

def Task.guardUnits (tenant : String) (task : Task) : Nat :=
  if task.guard = some ⟨tenant⟩ then 1 else 0

def Permits.bucketFree (bucket : Nat) (permits : Permits) : Nat :=
  match permits.partition with
  | none => 0
  | some limiter => limiter.buckets.getD bucket 0

/-- What a future gains a pool loses, for every pool. The quota table follows
whatever the other futures hold. -/
structure Exchange (pools pools' : Pools) (task task' : Task) : Prop where
  global : pools'.permits.global + task'.globalUnits =
    pools.permits.global + task.globalUnits
  gate : ∀ batch, pools'.gates batch + task'.slotUnits batch =
    pools.gates batch + task.slotUnits batch
  shape : Permits.shape pools'.permits = Permits.shape pools.permits
  bucket : ∀ index, Permits.bucketFree index pools'.permits + task'.bucketUnits index =
    Permits.bucketFree index pools.permits + task.bucketUnits index
  counts : ∀ live live' : String → Nat, Counts pools.inflight live →
    (∀ tenant, task.guardUnits tenant ≤ live tenant) →
    (∀ tenant, live' tenant + task.guardUnits tenant =
      live tenant + task'.guardUnits tenant) → Counts pools'.inflight live'

theorem counts_of_same (table : Inflight) (live live' : String → Nat) (task task' : Task)
    (hcounts : Counts table live) (hguard : task'.guard = task.guard)
    (hlive : ∀ tenant, live' tenant + task.guardUnits tenant =
      live tenant + task'.guardUnits tenant) : Counts table live' := by
  intro tenant
  have h := hlive tenant
  simp only [Task.guardUnits, hguard] at h
  rw [hcounts tenant, show live' tenant = live tenant by omega]

/-- With the guard kept the table has nothing to follow. -/
theorem exchange_of_guard (pools pools' : Pools) (task task' : Task)
    (hguard : task'.guard = task.guard) (htable : pools'.inflight = pools.inflight)
    (hglobal : pools'.permits.global + task'.globalUnits =
      pools.permits.global + task.globalUnits)
    (hgate : ∀ batch, pools'.gates batch + task'.slotUnits batch =
      pools.gates batch + task.slotUnits batch)
    (hshape : Permits.shape pools'.permits = Permits.shape pools.permits)
    (hbucket : ∀ index, Permits.bucketFree index pools'.permits + task'.bucketUnits index =
      Permits.bucketFree index pools.permits + task.bucketUnits index) :
    Exchange pools pools' task task' where
  global := hglobal
  gate := hgate
  shape := hshape
  bucket := hbucket
  counts := by
    intro live live' hcounts _ hlive
    rw [htable]
    exact counts_of_same pools.inflight live live' task task' hcounts hguard hlive

/-- A change of stage alone exchanges nothing. -/
theorem exchange_of_held (pools : Pools) (task task' : Task)
    (hpath : task'.path = task.path) (hguard : task'.guard = task.guard)
    (hslot : task'.slot = task.slot) (hbucket : task'.bucket = task.bucket)
    (hglobal : task'.global = task.global) : Exchange pools pools task task' := by
  apply exchange_of_guard pools pools task task' hguard rfl
  · simp [Task.globalUnits, hglobal]
  · simp [Task.slotUnits, hpath, hslot]
  · rfl
  · simp [Task.bucketUnits, hbucket]

/-- The quota gate turns a free unit of the tenant into a guard, or changes
nothing. -/
theorem debit_counts (cfg : Config Key) (task : Task) (table table' : Inflight)
    (outcome : Option (Option QuotaGuard))
    (hdebit : task.debit cfg table = (outcome, table')) (live live' : String → Nat)
    (hcounts : Counts table live)
    (hlive : ∀ tenant, live' tenant = live tenant +
      if outcome = some (some ⟨tenant⟩) then 1 else 0) : Counts table' live' := by
  rcases debit_cases cfg task table table' outcome hdebit with
    ⟨trusted, limits, tenant, -, -, -, htable, hanswer⟩ | ⟨-, hout, htable⟩
  · rcases hanswer with ⟨guard, hok, hout⟩ | ⟨detail, herror, hout⟩
    · have heq := admitExecution_guard limits table tenant _ guard hok
      have hnext := admitExecution_counts limits table live hcounts tenant
        task.request.plan guard hok
      have hupdate : live' = Function.update live tenant (live tenant + 1) := by
        funext other
        rw [hlive other, hout, heq]
        by_cases hother : other = tenant
        · subst hother
          simp
        · have hne : tenant ≠ other := fun h => hother h.symm
          simp [hother, hne]
      rw [hupdate, ← htable]
      exact hnext
    · have hsame := admitExecution_refused limits table tenant task.request.plan
        detail herror
      have hequal : live' = live := by
        funext other
        simp [hlive other, hout]
      rw [hequal, ← htable, hsame]
      exact hcounts
  · have hequal : live' = live := by
      funext other
      simp [hlive other, hout]
    rw [hequal, htable]
    exact hcounts

/-- Past the quota gate a future without a guard holds what the gate handed out. -/
theorem exchange_of_debit (cfg : Config Key) (pools : Pools) (task task' : Task)
    (table : Inflight) (outcome : Option (Option QuotaGuard))
    (hdebit : task.debit cfg pools.inflight = (outcome, table)) (hnone : task.guard = none)
    (hguard : task'.guard = outcome.join) (hpath : task'.path = task.path)
    (hslot : task'.slot = task.slot) (hbucket : task'.bucket = task.bucket)
    (hglobal : task'.global = task.global) :
    Exchange pools { pools with inflight := table } task task' where
  global := by simp [Task.globalUnits, hglobal]
  gate := by simp [Task.slotUnits, hpath, hslot]
  shape := rfl
  bucket := by simp [Task.bucketUnits, hbucket]
  counts := by
    intro live live' hcounts _ hlive
    apply debit_counts cfg task pools.inflight table outcome hdebit live live' hcounts
    intro tenant
    have hunits := hlive tenant
    simpa [Task.guardUnits, hnone, hguard, Option.join_eq_some_iff] using hunits

/-- A grant takes one unit out of the bucket it names, and leaves the others alone. -/
theorem granted_free (hash : String → Nat) (permits rest : Permits) (partition : Option String)
    (bucket : Option Nat) (hgrant : acquirePermits hash permits partition = (.granted bucket, rest)) :
    Permits.shape rest = Permits.shape permits ∧
    ∀ index, Permits.bucketFree index rest + (if bucket = some index then 1 else 0) =
      Permits.bucketFree index permits := by
  obtain ⟨-, -, hbuckets⟩ := acquirePermits_granted hash permits rest partition bucket hgrant
  rcases hbuckets with
    ⟨hno, hsame, -⟩ | ⟨limiter, key, taken, free, hlimiter, -, htaken, -, hfree, hset⟩
  · simp [Permits.shape, Permits.bucketFree, hsame, hno]
  · refine ⟨by simp [Permits.shape, hlimiter, hset], ?_⟩
    intro index
    obtain ⟨hlt, hvalue⟩ := List.getElem?_eq_some_iff.mp hfree
    by_cases hindex : taken = index
    · subst hindex
      simp [Permits.bucketFree, hlimiter, hset, htaken, List.getD_eq_getElem?_getD, hlt, hvalue]
    · simp [Permits.bucketFree, hlimiter, hset, htaken, List.getD_eq_getElem?_getD, hindex]

/-- A release puts one unit into its bucket. -/
theorem release_free (permits : Permits) (limiter : PartitionLimiter) (bucket : Nat)
    (hlimiter : permits.partition = some limiter) (hlt : bucket < limiter.buckets.length)
    (index : Nat) :
    Permits.bucketFree index ⟨permits.global, some (PartitionLimiter.release limiter bucket)⟩ =
      Permits.bucketFree index permits + if bucket = index then 1 else 0 := by
  by_cases hindex : bucket = index
  · subst hindex
    simp [Permits.bucketFree, hlimiter, PartitionLimiter.release, List.getD_eq_getElem?_getD, hlt]
  · simp [Permits.bucketFree, hlimiter, PartitionLimiter.release, List.getD_eq_getElem?_getD, hindex]

/-- A dropped guard takes one unit of its tenant out of the table. -/
theorem dropped_counts (table : Inflight) (guard : QuotaGuard) (live live' : String → Nat)
    (hcounts : Counts table live)
    (hle : ∀ tenant, (if some guard = some ⟨tenant⟩ then 1 else 0) ≤ live tenant)
    (hlive : ∀ tenant, live' tenant + (if some guard = some ⟨tenant⟩ then 1 else 0) =
      live tenant) : Counts (guard.drop table) live' := by
  have hpos : 0 < live guard.tenant := by
    have hown := hle guard.tenant
    rw [if_pos rfl] at hown
    omega
  have hupdate : live' = Function.update live guard.tenant (live guard.tenant - 1) := by
    funext tenant
    have hunits := hlive tenant
    by_cases htenant : tenant = guard.tenant
    · subst htenant
      rw [if_pos rfl] at hunits
      rw [Function.update_self]
      omega
    · rw [if_neg fun heq => htenant (congrArg QuotaGuard.tenant (Option.some.inj heq)).symm]
        at hunits
      rw [Function.update_of_ne htenant]
      omega
  rw [hupdate]
  exact drop_counts table live hcounts guard hpos

theorem advanced_exchange (cfg : Config Key) (pools pools' : Pools) (task task' : Task)
    (hheld : task.WellHeld cfg) (hshape : Permits.shape pools.permits = cfg.shape)
    (h : Advanced cfg pools task task' pools') : Exchange pools pools' task task' := by
  obtain ⟨hstaged, hguard, hbucket⟩ := hheld
  unfold Task.HeldAtStage at hstaged
  cases h with
  | metered guard table hstage hdebit =>
      simp only [hstage] at hstaged
      exact exchange_of_debit cfg pools task _ table (some guard) hdebit hstaged.1 rfl rfl rfl
        rfl rfl
  | refused table hstage hdebit =>
      simp only [hstage] at hstaged
      exact exchange_of_debit cfg pools task _ table none hdebit hstaged.1 hstaged.1 rfl rfl
        rfl rfl
  | failed hstage => exact exchange_of_held pools task _ rfl rfl rfl rfl rfl
  | slotted batch hpath hstage hfree =>
      simp only [hstage] at hstaged
      refine exchange_of_guard pools _ task _ rfl rfl rfl ?_ rfl (fun _ => rfl)
      intro other
      by_cases hother : other = batch
      · subst hother
        simp [Task.slotUnits, hpath, hstaged.2.1]
        omega
      · have hne : batch ≠ other := fun h => hother h.symm
        simp [Task.slotUnits, hpath, hother, hne]
  | granted bucket rest hpath hstage hgrant =>
      simp only [hstage] at hstaged
      obtain ⟨-, -, hnone, hglobal, -⟩ := hstaged
      obtain ⟨hpos, hrest, -⟩ :=
        acquirePermits_granted cfg.hash pools.permits rest _ bucket hgrant
      obtain ⟨hsame, hfree⟩ := granted_free cfg.hash pools.permits rest _ bucket hgrant
      refine exchange_of_guard pools _ task _ rfl rfl ?_ (fun _ => rfl) hsame ?_
      · simp [Task.globalUnits, hglobal, hrest, Nat.sub_add_cancel hpos]
      · intro index
        simp [Task.bucketUnits, hnone, hfree index]
  | shed hpath hstage => exact exchange_of_held pools task _ rfl rfl rfl rfl rfl
  | awaited batch hready hfree =>
      have hglobal : task.global = false := by
        rcases hready with ⟨-, hstage⟩ | ⟨-, hstage⟩
        · simp only [hstage] at hstaged
          exact hstaged.2.2.2.1
        · simp only [hstage] at hstaged
          exact hstaged.2.2.2.1
      refine exchange_of_guard pools _ task _ rfl rfl ?_ (fun _ => rfl) rfl (fun _ => rfl)
      simp [Task.globalUnits, hglobal]
      omega
  | spawned hstage => exact exchange_of_held pools task _ rfl rfl rfl rfl rfl
  | finished hrunning => exact exchange_of_held pools task _ rfl rfl rfl rfl rfl
  | resumed hstage hrunning => exact exchange_of_held pools task _ rfl rfl rfl rfl rfl
  | droppedGuard guard hstage hheld =>
      refine ⟨rfl, fun _ => rfl, rfl, fun _ => rfl, ?_⟩
      intro live live' hcounts hle hlive
      simp only [Task.guardUnits, hheld, reduceCtorEq, if_false, Nat.add_zero] at hle hlive
      exact dropped_counts pools.inflight guard live live' hcounts hle hlive
  | droppedSlot batch hstage hpath hslot =>
      refine exchange_of_guard pools _ task _ rfl rfl rfl ?_ rfl (fun _ => rfl)
      intro other
      by_cases hother : other = batch
      · subst hother
        simp [Task.slotUnits, hpath, hslot]
      · have hne : batch ≠ other := fun h => hother h.symm
        simp [Task.slotUnits, hpath, hother, hne]
  | droppedBucket bucket limiter hstage hheld hlimiter =>
      obtain ⟨count, hcount, hlt⟩ := hbucket bucket hheld
      have hlength : bucket < limiter.buckets.length := by
        have : limiter.buckets.length = count := by
          simpa [← hshape, Permits.shape, hlimiter] using hcount
        omega
      refine exchange_of_guard pools _ task _ rfl rfl rfl (fun _ => rfl) ?_ ?_
      · simp [Permits.shape, hlimiter, PartitionLimiter.release]
      · intro index
        have hfree := release_free pools.permits limiter bucket hlimiter hlength index
        simp [Task.bucketUnits, hheld, hfree]
  | droppedGlobal hstage hglobal =>
      refine exchange_of_guard pools _ task _ rfl rfl ?_ (fun _ => rfl) rfl (fun _ => rfl)
      simp [Task.globalUnits, hglobal]

/-! ### One step of the box -/

/-- The futures an action can start. -/
inductive Arriving (s : State) : List Task → Prop where
  | none : Arriving s []
  | execute (request : Request) : Arriving s [Task.new .execute request]
  | phase (batch : Nat) (request : Request) (hidle : s.idle batch = true) :
      Arriving s [Task.new (.phase batch) request]
  | items (batch count : Nat) (request : Request) (hidle : s.idle batch = true) :
      Arriving s (List.replicate count (Task.new (.item batch) request))

theorem Arriving.new {s : State} {arriving : List Task} (h : Arriving s arriving)
    (task : Task) (htask : task ∈ arriving) :
    ∃ path request, task = Task.new path request := by
  cases h with
  | none => cases htask
  | execute request => exact ⟨_, _, List.mem_singleton.mp htask⟩
  | phase batch request hidle => exact ⟨_, _, List.mem_singleton.mp htask⟩
  | items batch count request hidle => exact ⟨_, _, List.eq_of_mem_replicate htask⟩

theorem arriving_of_next (s : State) (number : Nat) (batch : Batch) (tasks : List Task)
    (stage : BatchStage) (hidle : s.idle number = true)
    (h : batch.next number = some (tasks, stage)) : Arriving s tasks := by
  unfold Batch.next at h
  simp only at h
  split at h
  · split at h
    · cases h
      exact .phase number batch.request hidle
    · cases h
      exact .items number batch.items batch.request hidle
  · cases h
    exact .items number batch.items batch.request hidle
  · split at h
    · cases h
      exact .phase number batch.request hidle
    · cases h
      exact .none
  · cases h
    exact .none
  · cases h

/-- An action starts futures, moves one, or drops one. -/
theorem step_cases (cfg : Config Key) (s next : State) (action : Action)
    (h : step cfg s action = some next) :
    (∃ arriving, Arriving s arriving ∧ next.tasks = s.tasks ++ arriving ∧
      next.pools = s.pools) ∨
    (∃ index move task task', action = .move index move ∧
      s.tasks[index]? = some task ∧
      advance cfg s.pools task move = some (task', next.pools) ∧
      next.tasks = s.tasks.set index task') ∨
    (∃ index task, action = .disconnect index ∧ s.tasks[index]? = some task ∧
      task.stage ≠ .closing ∧ next.pools = s.pools ∧
      next.tasks = s.tasks.set index { task with stage := .closing }) := by
  cases action with
  | arrive request =>
      cases h
      exact .inl ⟨_, .execute request, rfl, rfl⟩
  | submit number request before items after =>
      simp only [step] at h
      split at h
      · cases h
        exact .inl ⟨[], .none, by simp [State.setBatch], rfl⟩
      · cases h
  | proceed number =>
      simp only [step] at h
      split at h
      · cases h
      · rename_i batch hbatch
        split at h
        · rename_i hidle
          obtain ⟨⟨tasks, stage⟩, hnext, rfl⟩ := Option.map_eq_some_iff.mp h
          exact .inl ⟨tasks, arriving_of_next s number batch tasks stage hidle hnext,
            rfl, rfl⟩
        · cases h
  | conclude number =>
      simp only [step] at h
      obtain ⟨batch, -, rfl⟩ := Option.map_eq_some_iff.mp h
      exact .inl ⟨[], .none, by simp [State.setBatch], rfl⟩
  | move index move =>
      simp only [step] at h
      split at h
      · cases h
      · rename_i task htask
        obtain ⟨⟨task', pools'⟩, hadvance, rfl⟩ := Option.map_eq_some_iff.mp h
        exact .inr (.inl ⟨index, move, task, task', rfl, htask, hadvance, rfl⟩)
  | disconnect index =>
      simp only [step] at h
      split at h
      · cases h
      · rename_i task htask
        split at h
        · rename_i hopen
          cases h
          exact .inr (.inr ⟨index, task, rfl, htask, hopen.1, rfl, rfl⟩)
        · cases h

/-! ### Accounting over every interleaving -/

/-- The guards alive for a tenant. -/
def State.guards (s : State) (tenant : String) : Nat :=
  total (Task.guardUnits tenant) s.tasks

/-- Nothing is lost or made up in any pool, and no tenant has more guards than
the largest limit its requests brought. -/
structure Sound (cfg : Config Key) (s : State) : Prop where
  held : ∀ task ∈ s.tasks, task.WellHeld cfg
  shape : Permits.shape s.pools.permits = cfg.shape
  global : Conserved (fun pools => pools.permits.global) Task.globalUnits
    cfg.bulkheadCapacity s.pools s.tasks
  gates : ∀ batch, Conserved (fun pools => pools.gates batch) (Task.slotUnits batch)
    cfg.batchCeiling s.pools s.tasks
  buckets : ∀ index, Conserved (fun pools => Permits.bucketFree index pools.permits)
    (Task.bucketUnits index)
    (Permits.bucketFree index ⟨cfg.bulkheadCapacity, cfg.partitionLimiter⟩)
    s.pools s.tasks
  counts : Counts s.pools.inflight s.guards
  plans : ∀ trusted limits, cfg.trusted = some trusted → trusted.quota = some limits →
    ∀ tenant bound, (∀ task ∈ s.tasks, task.request.tenant = some tenant →
      limits.limitFor task.request.plan ≤ bound) → s.guards tenant ≤ bound

theorem sound_initial (cfg : Config Key) : Sound cfg (State.initial cfg) := by
  refine ⟨?_, rfl, rfl, fun _ => rfl, fun _ => rfl, fun _ => rfl, ?_⟩
  · intro task htask
    cases htask
  · intro _ _ _ _ tenant bound _
    exact Nat.zero_le bound

/-- A move never raises the guards of a tenant above the limit it was admitted
under. -/
theorem advanced_guards (cfg : Config Key) (pools pools' : Pools) (task task' : Task)
    (hheld : task.WellHeld cfg) (h : Advanced cfg pools task task' pools')
    (trusted : TrustedRuntime Key) (limits : PlanLimits)
    (htrusted : cfg.trusted = some trusted) (hquota : trusted.quota = some limits)
    (live : String → Nat) (hcounts : Counts pools.inflight live) (tenant : String) :
    task'.guardUnits tenant ≤ task.guardUnits tenant ∨
    task.guardUnits tenant = 0 ∧ task'.guardUnits tenant = 1 ∧
      task.request.tenant = some tenant ∧
      live tenant < limits.limitFor task.request.plan := by
  cases h with
  | metered guard table hstage hdebit =>
      have hnone : task.guard = none := by
        have := hheld.stage
        simp only [Task.HeldAtStage, hstage] at this
        exact this.1
      rcases debit_cases cfg task pools.inflight table (some guard) hdebit with
        ⟨trusted', limits', tenant', htrusted', hquota', htenant, -, hanswer⟩ |
        ⟨-, hout, -⟩
      · rw [htrusted] at htrusted'
        cases htrusted'
        rw [hquota] at hquota'
        cases hquota'
        rcases hanswer with ⟨held, hok, hout⟩ | ⟨_, _, hout⟩
        · cases Option.some.inj hout
          have heq := admitExecution_guard limits pools.inflight tenant' _ held hok
          have hlt := (admitExecution_ok_iff limits pools.inflight live hcounts tenant'
            task.request.plan).mp ⟨held, hok⟩
          subst heq
          by_cases hsame : tenant' = tenant
          · subst hsame
            exact .inr ⟨by simp [Task.guardUnits, hnone], by simp [Task.guardUnits],
              htenant, hlt⟩
          · exact .inl (by simp [Task.guardUnits, hsame])
        · cases hout
      · cases Option.some.inj hout
        exact .inl (by simp [Task.guardUnits])
  | refused table hstage hdebit => exact .inl le_rfl
  | failed hstage => exact .inl le_rfl
  | slotted batch hpath hstage hfree => exact .inl le_rfl
  | granted bucket rest hpath hstage hgrant => exact .inl le_rfl
  | shed hpath hstage => exact .inl le_rfl
  | awaited batch hready hfree => exact .inl le_rfl
  | spawned hstage => exact .inl le_rfl
  | finished hrunning => exact .inl le_rfl
  | resumed hstage hrunning => exact .inl le_rfl
  | droppedGuard guard hstage hguard => exact .inl (by simp [Task.guardUnits])
  | droppedSlot batch hstage hpath hslot => exact .inl le_rfl
  | droppedBucket bucket limiter hstage hbucket hlimiter => exact .inl le_rfl
  | droppedGlobal hstage hglobal => exact .inl le_rfl

theorem advanced_request (cfg : Config Key) (pools pools' : Pools) (task task' : Task)
    (h : Advanced cfg pools task task' pools') :
    task'.request = task.request ∧ task'.path = task.path := by
  cases h <;> exact ⟨rfl, rfl⟩

theorem sound_append (cfg : Config Key) (s next : State) (arriving : List Task)
    (hsound : Sound cfg s) (harriving : Arriving s arriving)
    (htasks : next.tasks = s.tasks ++ arriving) (hpools : next.pools = s.pools) :
    Sound cfg next := by
  have hempty (units : Task → Nat) (hunits : ∀ path request,
      units (Task.new path request) = 0) : ∀ task ∈ arriving, units task = 0 := by
    intro task htask
    obtain ⟨path, request, rfl⟩ := harriving.new task htask
    exact hunits path request
  have hguards : next.guards = s.guards := by
    funext tenant
    have hzero := (total_eq_zero_iff (Task.guardUnits tenant) arriving).mpr
      (hempty _ fun path request => by simp [Task.guardUnits, Task.new])
    simp only [State.guards, htasks, total_append, hzero, Nat.add_zero]
  refine ⟨?_, by rw [hpools]; exact hsound.shape, ?_, ?_, ?_, ?_, ?_⟩
  · intro task htask
    rw [htasks, List.mem_append] at htask
    rcases htask with hold | hnew
    · exact hsound.held task hold
    · obtain ⟨path, request, rfl⟩ := harriving.new task hnew
      exact new_wellHeld cfg path request
  · rw [htasks, hpools]
    exact hsound.global.append arriving
      (hempty _ fun path request => by simp [Task.globalUnits, Task.new])
  · intro batch
    rw [htasks, hpools]
    exact (hsound.gates batch).append arriving
      (hempty _ fun path request => by simp [Task.slotUnits, Task.new])
  · intro index
    rw [htasks, hpools]
    exact (hsound.buckets index).append arriving
      (hempty _ fun path request => by simp [Task.bucketUnits, Task.new])
  · rw [hpools, hguards]
    exact hsound.counts
  · intro trusted limits htrusted hquota tenant bound hbound
    rw [hguards]
    refine hsound.plans trusted limits htrusted hquota tenant bound ?_
    intro task htask
    exact hbound task (by rw [htasks]; exact List.mem_append_left _ htask)

/-- The requests of the old list are the requests of the new one. -/
theorem forall_request_of_set (tasks : List Task) (index : Nat) (task task' : Task)
    (htask : tasks[index]? = some task) (hrequest : task'.request = task.request)
    (P : Request → Prop) (hall : ∀ other ∈ tasks.set index task', P other.request) :
    ∀ other ∈ tasks, P other.request := by
  intro other hother
  obtain ⟨i, hi⟩ := List.mem_iff_getElem?.mp hother
  by_cases hindex : index = i
  · subst hindex
    rw [htask] at hi
    cases hi
    rw [← hrequest]
    exact hall task' (List.mem_set (List.getElem?_eq_some_iff.mp htask).1 task')
  · exact hall other (List.mem_iff_getElem?.mpr ⟨i, by rw [List.getElem?_set_ne hindex, hi]⟩)

theorem sound_set (cfg : Config Key) (s next : State) (index : Nat) (task task' : Task)
    (hsound : Sound cfg s) (htask : s.tasks[index]? = some task)
    (htasks : next.tasks = s.tasks.set index task')
    (hexchange : Exchange s.pools next.pools task task') (hheld : task'.WellHeld cfg)
    (hrequest : task'.request = task.request)
    (hguards : ∀ trusted limits, cfg.trusted = some trusted →
      trusted.quota = some limits → ∀ tenant,
      task'.guardUnits tenant ≤ task.guardUnits tenant ∨
      task.guardUnits tenant = 0 ∧ task'.guardUnits tenant = 1 ∧
        task.request.tenant = some tenant ∧
        s.guards tenant < limits.limitFor task.request.plan) : Sound cfg next := by
  have hmem : task ∈ s.tasks := List.mem_of_getElem? htask
  have hlive (tenant : String) : next.guards tenant + task.guardUnits tenant =
      s.guards tenant + task'.guardUnits tenant := by
    simp only [State.guards, htasks]
    exact total_set (Task.guardUnits tenant) s.tasks index task task' htask
  refine ⟨?_, by rw [hexchange.shape]; exact hsound.shape, ?_, ?_, ?_, ?_, ?_⟩
  · intro other hother
    rw [htasks] at hother
    rcases List.mem_or_eq_of_mem_set hother with hold | rfl
    · exact hsound.held other hold
    · exact hheld
  · rw [htasks]
    exact hsound.global.set index task task' next.pools htask hexchange.global
  · intro batch
    rw [htasks]
    exact (hsound.gates batch).set index task task' next.pools htask
      (hexchange.gate batch)
  · intro bucket
    rw [htasks]
    exact (hsound.buckets bucket).set index task task' next.pools htask
      (hexchange.bucket bucket)
  · refine hexchange.counts s.guards next.guards hsound.counts ?_ hlive
    intro tenant
    exact le_total (Task.guardUnits tenant) s.tasks task hmem
  · intro trusted limits htrusted hquota tenant bound hbound
    rw [htasks] at hbound
    have hold := forall_request_of_set s.tasks index task task' htask hrequest
      (fun request => request.tenant = some tenant →
        limits.limitFor request.plan ≤ bound) hbound
    have hbefore := hsound.plans trusted limits htrusted hquota tenant bound hold
    have hsum := hlive tenant
    rcases hguards trusted limits htrusted hquota tenant with hle | ⟨hzero, hone, hnamed, hlt⟩
    · omega
    · have hlimit := hold task hmem hnamed
      omega

theorem sound_step (cfg : Config Key) (s next : State) (action : Action)
    (hsound : Sound cfg s) (h : step cfg s action = some next) : Sound cfg next := by
  rcases step_cases cfg s next action h with
    ⟨arriving, harriving, htasks, hpools⟩ |
    ⟨index, move, task, task', -, htask, hadvance, htasks⟩ |
    ⟨index, task, -, htask, -, hpools, htasks⟩
  · exact sound_append cfg s next arriving hsound harriving htasks hpools
  · have hmem : task ∈ s.tasks := List.mem_of_getElem? htask
    have hheld := hsound.held task hmem
    have hadvanced := advanced_of_advance cfg s.pools next.pools task task' move hadvance
    refine sound_set cfg s next index task task' hsound htask htasks
      (advanced_exchange cfg s.pools next.pools task task' hheld hsound.shape hadvanced)
      (advanced_wellHeld cfg s.pools next.pools task task' hheld hsound.shape hadvanced)
      (advanced_request cfg s.pools next.pools task task' hadvanced).1 ?_
    intro trusted limits htrusted hquota tenant
    exact advanced_guards cfg s.pools next.pools task task' hheld hadvanced trusted limits
      htrusted hquota s.guards hsound.counts tenant
  · have hmem : task ∈ s.tasks := List.mem_of_getElem? htask
    have hheld := hsound.held task hmem
    refine sound_set cfg s next index task _ hsound htask htasks ?_
      ⟨trivial, hheld.guard, hheld.bucket⟩ rfl (fun _ _ _ _ _ => .inl le_rfl)
    rw [hpools]
    exact exchange_of_held s.pools task _ rfl rfl rfl rfl rfl

end Runlet.Executions
