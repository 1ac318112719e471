import Runlet.Server.Decisions

/-!
The size of the context an execution is given, on every route: `/execute`,
the batch items and the before/after phases. The gate of an item looks at the
caller's own context and the shared context is merged in after it, so the items
are where the bound depends on the request.
-/

namespace Runlet.Batch

open Contexts Errors Execute Gates Identity JsonText Response Telemetry

variable {Key S3 Sys Meta Metrics Egress Effect LogEntry : Type}

/-! ### What a trace can start -/

section Invocation

variable {Result : Type} (state : AppState Key) (env : Env Key S3 Sys Result)
  (identity : Option TrustedIdentity) (partition : Option String)

/-- The gates behind the context: capabilities, quota and session. -/
structure Granted (config : RequestConfig S3 Sys) : Prop where
  authorized : enforceMemberAuthz state.trusted identity config = .ok ()
  admitted : ∃ held, (enforceQuota state.trusted identity env.inflight).1 = .ok held
  connected : ∃ session, (openSession state env identity config.io).result = .ok session

theorem gatedDecision_eq_ok_iff (source : ScriptSource) (contextJson : String)
    (config : RequestConfig S3 Sys) (params : ExecuteBlocking S3 Sys) :
    gatedDecision state env identity partition source contextJson config = .ok params ↔
      Granted state env identity config ∧ ∃ session,
        (openSession state env identity config.io).result = .ok session ∧
        params = itemParams state identity partition session source contextJson config := by
  simp only [gatedDecision, bind_eq_ok_iff, Except.ok.injEq]
  constructor
  · rintro ⟨_, hauthz, held, hheld, session, hsession, rfl⟩
    exact ⟨⟨hauthz, ⟨held, hheld⟩, ⟨session, hsession⟩⟩, session, hsession, rfl⟩
  · rintro ⟨hgranted, session, hsession, rfl⟩
    obtain ⟨held, hheld⟩ := hgranted.admitted
    exact ⟨(), hgranted.authorized, held, hheld, session, hsession, rfl⟩

/-- The gates of a batch item: script, sizes of the texts as sent, and those
behind the context. -/
structure PassesGates (item : BatchItem S3 Sys) : Prop where
  sized : ∃ source, resolveScript item.script item.key state.registry = .ok source ∧
    validateInputSizes source.asStr.utf8ByteSize item.context.utf8ByteSize
      state.maxScriptSize state.maxContextSize = .ok ()
  granted : Granted state env identity item.config

/-- An item is executed with a context exactly when it passes its gates and
this is the context built for it. -/
theorem runBatchItem_started_iff (codec : Codec) (item : BatchItem S3 Sys)
    (shared : Option String) (contextJson : String) :
    (∃ params : ExecuteBlocking S3 Sys, params.contextJson = contextJson ∧
      .executionStarted params ∈
        (runBatchItem state env identity partition codec item shared).trace) ↔
      PassesGates state env identity item ∧
        itemContext codec item.context shared = .ok contextJson := by
  simp only [(runBatchItem_decides state env identity partition codec item shared).started,
    itemDecision, bind_eq_ok_iff, gatedDecision_eq_ok_iff]
  constructor
  · rintro ⟨params, hcontext, source, hsource, _, hsizes, built, hbuilt, hgranted, session,
      _, rfl⟩
    cases hcontext
    exact ⟨⟨⟨source, hsource, hsizes⟩, hgranted⟩, hbuilt⟩
  · rintro ⟨⟨⟨source, hsource, hsizes⟩, hgranted⟩, hbuilt⟩
    obtain ⟨session, hsession⟩ := hgranted.connected
    exact ⟨_, rfl, source, hsource, (), hsizes, contextJson, hbuilt, hgranted, session,
      hsession, rfl⟩

/-- So every context an item is executed with is the one built for it. -/
theorem runBatchItem_context (codec : Codec) (item : BatchItem S3 Sys) (shared : Option String)
    (params : ExecuteBlocking S3 Sys)
    (hstarted : .executionStarted params ∈
      (runBatchItem state env identity partition codec item shared).trace) :
    itemContext codec item.context shared = .ok params.contextJson :=
  ((runBatchItem_started_iff state env identity partition codec item shared
    params.contextJson).mp ⟨params, rfl, hstarted⟩).2

/-- A phase is executed with the text it is given, which is the one checked. -/
theorem runLifecyclePhase_started (item : BatchItem S3 Sys) (contextJson : String)
    (params : ExecuteBlocking S3 Sys)
    (hstarted : .executionStarted params ∈
      (runLifecyclePhase state env identity partition item contextJson).trace) :
    params.contextJson = contextJson ∧
      params.contextJson.utf8ByteSize ≤ state.maxContextSize := by
  rw [(runLifecyclePhase_decides state env identity partition item contextJson).started]
    at hstarted
  simp only [phaseDecision, bind_eq_ok_iff, gatedDecision_eq_ok_iff] at hstarted
  obtain ⟨source, _, _, hsizes, _, session, _, rfl⟩ := hstarted
  exact ⟨rfl, (validateInputSizes_ok _ _ _ _ hsizes).2⟩

/-- An `/execute` request is checked so too. -/
theorem runExecute_started (headers : HeaderMap) (payload : Option (ExecRequest S3 Sys))
    (params : ExecuteBlocking S3 Sys)
    (hstarted : .executionStarted params ∈ (runExecute state env headers payload).trace) :
    params.contextJson.utf8ByteSize ≤ state.maxContextSize := by
  rw [(runExecute_decides state env headers payload).started] at hstarted
  simp only [executeDecision, requestDecision, bind_eq_ok_iff, Except.ok.injEq] at hstarted
  obtain ⟨_, _, identity, _, request, _, _, _, source, _, _, hsizes, _, _, session, _, _, _,
    rfl⟩ := hstarted
  exact (validateInputSizes_ok _ _ _ _ hsizes).2

end Invocation

/-! ### Whole requests -/

/-- The bound on the context of an execution, and what it means for the heap
under any configuration that was accepted. -/
structure WithinLimits (state : AppState Key) (params : ExecuteBlocking S3 Sys) : Prop where
  context : params.contextJson.utf8ByteSize ≤ state.maxContextSize
  heap : ∀ config resolved : EngineConfig, config.resolveLimits = some resolved →
    state.maxContextSize = resolved.maxContextSize →
    params.contextJson.utf8ByteSize ≤ resolved.memoryLimit / parseHeapFactor

theorem withinLimits_iff (state : AppState Key) (params : ExecuteBlocking S3 Sys) :
    WithinLimits state params ↔ params.contextJson.utf8ByteSize ≤ state.maxContextSize := by
  constructor
  · intro h
    exact h.context
  · intro hcontext
    refine ⟨hcontext, ?_⟩
    intro config resolved hresolved hstate
    have hceiling := resolveLimits_ceiling config resolved hresolved
    omega

/-- An execution on behalf of a batch: of a phase or of an item. -/
def BatchRun.Started (run : BatchRun S3 Sys Meta) (params : ExecuteBlocking S3 Sys) : Prop :=
  .executionStarted params ∈ run.beforeTrace ∨
    (∃ trace ∈ run.itemTraces, .executionStarted params ∈ trace) ∨
    .executionStarted params ∈ run.afterTrace

theorem mem_cut_iff (fate : Fate) (trace : List (Event S3 Sys))
    (params : ExecuteBlocking S3 Sys) :
    .executionStarted params ∈ fate.cut trace ↔
      fate ≠ .lostBeforeStart ∧ .executionStarted params ∈ trace := by
  cases fate with
  | completes => simp [Fate.cut]
  | lostAfterStart => simp [Fate.cut]
  | lostBeforeStart =>
      simp only [Fate.cut, ne_eq, not_true_eq_false, false_and, iff_false]
      intro hmem
      have hstart := List.all_eq_true.mp List.all_takeWhile _ hmem
      cases hstart

section Phases

variable (box : BatchBox Key Meta Metrics Egress)
  (world : BatchWorld Key S3 Sys (ExecResult Metrics Egress Effect LogEntry))
  (identity : Option TrustedIdentity) (partition : Option String)

theorem sharedDenial_not_started (built : Except ErrorEnvelope (Option String))
    (params : ExecuteBlocking S3 Sys) :
    .executionStarted params ∉ sharedDenial built := by
  cases built with
  | error envelope => simp [sharedDenial]
  | ok shared => simp [sharedDenial]

theorem runBeforePhase_started (before : Option (BatchItem S3 Sys)) (seed : Option String)
    (params : ExecuteBlocking S3 Sys)
    (hstarted : .executionStarted params ∈
      (runBeforePhase box world identity partition before seed).1) :
    params.contextJson.utf8ByteSize ≤ box.state.maxContextSize := by
  cases before with
  | none => exact absurd hstarted (sharedDenial_not_started _ params)
  | some item =>
      refine (runLifecyclePhase_started box.state world.before identity partition item
        item.context params ?_).2
      simp only [runBeforePhase] at hstarted
      split at hstarted
      · exact hstarted
      · exact (List.mem_append.mp hstarted).resolve_right (sharedDenial_not_started _ params)

/-- `after` is executed with the merge of its own context and the reserved
keys, checked as a whole. -/
theorem runAfterPhase_started (after : Option (BatchItem S3 Sys))
    (results : List (ItemEnvelope Meta)) (shared : Option String)
    (params : ExecuteBlocking S3 Sys)
    (hstarted : .executionStarted params ∈
      (runAfterPhase box world identity partition after results shared).1) :
    (∃ item, after = some item ∧ contextWithReserved box.codec item.context
      (afterReserved box results shared) = some params.contextJson) ∧
      params.contextJson.utf8ByteSize ≤ box.state.maxContextSize := by
  cases after with
  | none => cases hstarted
  | some item =>
      simp only [runAfterPhase] at hstarted
      cases hmerged : contextWithReserved box.codec item.context
          (afterReserved box results shared) with
      | none => simp [hmerged] at hstarted
      | some contextJson =>
          simp only [hmerged] at hstarted
          have hphase : .executionStarted params ∈
              (runLifecyclePhase box.state world.after identity partition item
                contextJson).trace := by
            split at hstarted
            · exact hstarted
            · exact hstarted
          obtain ⟨hcontext, hsize⟩ := runLifecyclePhase_started box.state world.after identity
            partition item contextJson params hphase
          exact ⟨⟨item, rfl, hcontext ▸ hmerged⟩, hsize⟩

/-- For every item that is executed with a shared context, the members of its
own context and the shared one together stay within the limit. -/
def MergedWithin (items : List (BatchItem S3 Sys)) (shared : Option String) : Prop :=
  ∀ i item text members, items[i]? = some item → world.fate i ≠ .lostBeforeStart →
    PassesGates box.state (world.item i) identity item → shared = some text →
    box.codec.read item.context = some (.object members) → (box.codec.read text).isSome →
    mergedSize box.codec members "shared" text ≤ box.state.maxContextSize

theorem itemContext_eq_ok_iff (codec : Codec) (context : String) (shared : Option String)
    (contextJson : String) :
    itemContext codec context shared = .ok contextJson ↔
      (shared = none ∧ context = contextJson) ∨
        ∃ text, shared = some text ∧
          contextWithReserved codec context [("shared", text)] = some contextJson := by
  unfold itemContext
  cases shared with
  | none => simp
  | some text =>
      cases hmerged : contextWithReserved codec context [("shared", text)] with
      | none => simp [hmerged]
      | some merged => simp [hmerged]

/-- The executions of the items are within the limit exactly when the merges
are: one without a shared context is executed with the text that was
checked. -/
theorem items_within_iff (items : List (BatchItem S3 Sys)) (shared : Option String) :
    (∀ trace ∈ items.mapIdx (fun index item => (world.fate index).cut
        (runItem box world identity partition shared index item).trace),
      ∀ params, .executionStarted params ∈ trace →
        params.contextJson.utf8ByteSize ≤ box.state.maxContextSize) ↔
      MergedWithin box world identity items shared := by
  constructor
  · intro hwithin i item text members hitem hfate hgates hshared hread htext
    obtain ⟨merged, hmerged, hsize⟩ := contextWithReserved_size box.codec item.context "shared"
      text members hread htext
    have hcontext : itemContext box.codec item.context shared = .ok merged :=
      (itemContext_eq_ok_iff _ _ _ _).mpr (.inr ⟨text, hshared, hmerged⟩)
    obtain ⟨params, hparams, hstarted⟩ := (runBatchItem_started_iff box.state (world.item i)
      identity partition box.codec item shared merged).mpr ⟨hgates, hcontext⟩
    have htrace : (world.fate i).cut
        (runItem box world identity partition shared i item).trace ∈
        items.mapIdx (fun index item => (world.fate index).cut
          (runItem box world identity partition shared index item).trace) := by
      apply List.mem_of_getElem? (i := i)
      simp [hitem]
    rw [← hsize, ← hparams]
    exact hwithin _ htrace params ((mem_cut_iff _ _ _).mpr ⟨hfate, hstarted⟩)
  · intro hmerged trace htrace params hstarted
    obtain ⟨i, hi⟩ := List.mem_iff_getElem?.mp htrace
    rw [List.getElem?_mapIdx] at hi
    obtain ⟨item, hitem, hcut⟩ := Option.map_eq_some_iff.mp hi
    rw [← hcut] at hstarted
    obtain ⟨hfate, hstarted⟩ := (mem_cut_iff _ _ _).mp hstarted
    obtain ⟨hgates, hcontext⟩ := (runBatchItem_started_iff box.state (world.item i) identity
      partition box.codec item shared params.contextJson).mp ⟨params, rfl, hstarted⟩
    rcases (itemContext_eq_ok_iff _ _ _ _).mp hcontext with
      ⟨_, hsame⟩ | ⟨text, hshared, hmergedText⟩
    · obtain ⟨source, _, hsizes⟩ := hgates.sized
      rw [← hsame]
      exact (validateInputSizes_ok _ _ _ _ hsizes).2
    · obtain ⟨⟨members, hread⟩, htext⟩ := contextWithReserved_some box.codec item.context
        "shared" text _ hmergedText
      obtain ⟨built, hbuilt, hsize⟩ := contextWithReserved_size box.codec item.context "shared"
        text members hread htext
      cases hmergedText.symm.trans hbuilt
      rw [hsize]
      exact hmerged i item text members hitem hfate hgates hshared hread htext

end Phases

/-- Every execution for an `/execute` request is within the limits; for a
`/batch` request they all are exactly when the contexts of its items leave
room for the shared one. -/
theorem contexts_within_iff (box : BatchBox Key Meta Metrics Egress)
    (world : BatchWorld Key S3 Sys (ExecResult Metrics Egress Effect LogEntry))
    (env : Env Key S3 Sys (ExecResult Metrics Egress Effect LogEntry))
    (headers : HeaderMap) (single : Option (ExecRequest S3 Sys))
    (payload : Option (BatchRequest S3 Sys)) :
    (∀ params, .executionStarted params ∈ (runExecute box.state env headers single).trace →
      WithinLimits box.state params) ∧
    ((∀ params, (runBatch box world headers payload).Started params →
        WithinLimits box.state params) ↔
      ∀ request identity partition shared, payload = some request →
        FannedOut box world headers request identity partition shared →
        MergedWithin box world identity request.items shared) := by
  constructor
  · intro params hstarted
    rw [withinLimits_iff]
    exact runExecute_started box.state env headers single params hstarted
  constructor
  · rintro hwithin request identity partition shared rfl hreached
    apply (items_within_iff box world identity partition request.items shared).mp
    intro trace htrace params hstarted
    rw [← withinLimits_iff]
    apply hwithin params
    rw [hreached.run_eq]
    exact .inr (.inl ⟨trace, htrace, hstarted⟩)
  · intro hmerged params hstarted
    rw [withinLimits_iff]
    rcases runBatch_refused_or box world headers payload with
      ⟨request, identity, partition, shared, rfl, hreached⟩ | ⟨reasons, envelope, hrefused⟩ |
        ⟨request, identity, partition, envelope, _, hrefused⟩
    · rw [hreached.run_eq] at hstarted
      rcases hstarted with hbefore | ⟨trace, htrace, hitem⟩ | hafter
      · exact runBeforePhase_started box world identity partition _ _ params hbefore
      · exact (items_within_iff box world identity partition request.items shared).mpr
          (hmerged request identity partition shared rfl hreached) trace htrace params hitem
      · exact (runAfterPhase_started box world identity partition _ _ _ params hafter).2
    · rw [hrefused] at hstarted
      simp [BatchRun.Started, BatchRun.refused] at hstarted
    · rw [hrefused] at hstarted
      rcases hstarted with hbefore | ⟨trace, htrace, _⟩ | hafter
      · exact runBeforePhase_started box world identity partition _ _ params hbefore
      · cases htrace
      · cases hafter

/-- A context of 10 bytes under a limit of 15, executed with the 21 bytes it
has after the merge. -/
theorem merged_context_exceeds_limit :
    ∃ params, (runBatch (sampleBox 15 1000) sampleWorld []
        (some (sampleBatch (some "1")))).Started params ∧
      params.contextJson = "\x7b\"data\":1,\"shared\":1\x7d" ∧
      ¬ WithinLimits (sampleBox 15 1000).state params := by
  have hreached : FannedOut (sampleBox 15 1000) sampleWorld [] (sampleBatch (some "1")) none
      none (some "1") := ⟨rfl, rfl, rfl, by rfl, by rfl⟩
  have hgates : PassesGates (sampleBox 15 1000).state (sampleWorld.item 0) none sampleItem :=
    ⟨⟨.inline "handler", by rfl, by rfl⟩, ⟨by rfl, ⟨none, by rfl⟩, ⟨none, by rfl⟩⟩⟩
  have hcontext : itemContext (sampleBox 15 1000).codec sampleItem.context (some "1") =
      .ok "\x7b\"data\":1,\"shared\":1\x7d" := by rfl
  obtain ⟨params, hparams, hstarted⟩ := (runBatchItem_started_iff (sampleBox 15 1000).state
    (sampleWorld.item 0) none none (sampleBox 15 1000).codec sampleItem (some "1") _).mpr
    ⟨hgates, hcontext⟩
  refine ⟨params, ?_, hparams, ?_⟩
  · rw [hreached.run_eq]
    exact .inr (.inl ⟨_, List.mem_singleton.mpr rfl, hstarted⟩)
  · intro hwithin
    have hbound := hwithin.context
    rw [hparams] at hbound
    exact absurd hbound (by decide)

end Runlet.Batch
