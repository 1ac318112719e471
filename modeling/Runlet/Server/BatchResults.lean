import Runlet.Server.Batch

/-!
The results of a batch against its items. Whatever the order in which the
tasks are joined, slot `i` holds what the task of item `i` handed over; the
renderer then answers each slot once, with the slot's own envelope or with one
of the two synthetic ones. These two carry no id, so the ids survive exactly
when no item that has one is answered by them.
-/

namespace Runlet.Batch

open Contexts Errors Execute Gates Identity JsonText Response Telemetry

variable {Key S3 Sys Meta Metrics Egress Effect LogEntry : Type}

/-! ### The join -/

theorem joinTask_getElem? {α : Type} (finished : Nat → Option α) (slots : List (Option α))
    (index i : Nat) :
    (joinTask finished slots index)[i]? =
      if index = i then slots[i]?.map fun old => (finished i).or old else slots[i]? := by
  unfold joinTask
  by_cases hindex : index = i
  · subst hindex
    cases hfinished : finished index with
    | none => simp
    | some rendered =>
        simp only [if_true, List.getElem?_set_self']
        cases slots[index]? <;> rfl
  · cases finished index with
    | none => simp [hindex]
    | some rendered => simp [hindex]

/-- What any run of joins leaves in a slot: the output of its own task, if it
was among those joined and finished. -/
theorem foldl_joinTask {α : Type} (finished : Nat → Option α) (order : List Nat)
    (slots : List (Option α)) (i : Nat) :
    (order.foldl (joinTask finished) slots)[i]? =
      if i ∈ order then slots[i]?.map fun old => (finished i).or old else slots[i]? := by
  induction order generalizing slots with
  | nil => simp
  | cons index rest ih =>
      rw [List.foldl_cons, ih, joinTask_getElem?]
      by_cases hindex : index = i
      · subst hindex
        cases slots[index]? with
        | none => simp
        | some old => cases finished index <;> simp
      · have hne : ¬ i = index := fun h => hindex h.symm
        simp [hindex, hne]

/-- Every join order gives the same slots. -/
theorem fanOutItems_getElem? {α : Type} (count : Nat) (order : List Nat)
    (finished : Nat → Option α) (horder : order.Perm (List.range count)) (i : Nat) :
    (fanOutItems count order finished)[i]? = if i < count then some (finished i) else none := by
  have hmem : i ∈ order ↔ i < count := horder.mem_iff.trans List.mem_range
  unfold fanOutItems
  rw [foldl_joinTask]
  by_cases hi : i < count
  · simp [hmem, hi]
  · simp [hmem, hi]

theorem fanOutItems_eq {α : Type} (count : Nat) (order : List Nat)
    (finished : Nat → Option α) (horder : order.Perm (List.range count)) :
    fanOutItems count order finished = (List.range count).map finished := by
  apply List.ext_getElem?
  intro i
  rw [fanOutItems_getElem? count order finished horder, List.getElem?_map]
  by_cases hi : i < count
  · simp [hi]
  · simp [hi]

/-! ### The renderer -/

section Slots

variable (size : RenderedItem Meta → Nat) (maxResponseBytes : Nat) (emptyMeta : Meta)

/-- The running total after one more slot. -/
def charge (used : Nat) (slot : Option (RenderedItem Meta)) : Nat :=
  let bytes := size (slot.getD (internalErrorItem emptyMeta))
  if used + bytes > maxResponseBytes then used + size (truncatedItem emptyMeta)
  else used + bytes

/-- The running total in front of slot `i`, out of the sizes of the slots
before it. -/
def usedBefore (used : Nat) (slots : List (Option (RenderedItem Meta))) (i : Nat) : Nat :=
  (slots.take i).foldl (charge size maxResponseBytes emptyMeta) used

/-- What the renderer answers for a slot at a running total. -/
def answer (used : Nat) (slot : Option (RenderedItem Meta)) : RenderedItem Meta :=
  let rendered := slot.getD (internalErrorItem emptyMeta)
  if used + size rendered > maxResponseBytes then truncatedItem emptyMeta else rendered

theorem renderSlots_cons (used : Nat) (slot : Option (RenderedItem Meta))
    (rest : List (Option (RenderedItem Meta))) :
    renderSlots size maxResponseBytes emptyMeta used (slot :: rest) =
      (renderSlots size maxResponseBytes emptyMeta
        (charge size maxResponseBytes emptyMeta used slot) rest).push
        (answer size maxResponseBytes emptyMeta used slot) := by
  simp only [renderSlots, charge, answer]
  split <;> rfl

/-- One answer a slot, each counted once. -/
theorem renderSlots_counts (used : Nat) (slots : List (Option (RenderedItem Meta))) :
    (renderSlots size maxResponseBytes emptyMeta used slots).results.length = slots.length ∧
      (renderSlots size maxResponseBytes emptyMeta used slots).ok +
        (renderSlots size maxResponseBytes emptyMeta used slots).failed = slots.length := by
  induction slots generalizing used with
  | nil => simp [renderSlots]
  | cons slot rest ih =>
      obtain ⟨hlength, hcount⟩ := ih (charge size maxResponseBytes emptyMeta used slot)
      rw [renderSlots_cons]
      constructor
      · simp [Rendered.push, hlength]
      · cases hok : (answer size maxResponseBytes emptyMeta used slot).ok <;>
          simp [Rendered.push, hok] <;> omega

theorem renderSlots_getElem? (used : Nat) (slots : List (Option (RenderedItem Meta)))
    (i : Nat) :
    (renderSlots size maxResponseBytes emptyMeta used slots).results[i]? =
      slots[i]?.map fun slot => (answer size maxResponseBytes emptyMeta
        (usedBefore size maxResponseBytes emptyMeta used slots i) slot).body := by
  induction slots generalizing used i with
  | nil => simp [renderSlots]
  | cons slot rest ih =>
      rw [renderSlots_cons]
      cases i with
      | zero => simp [Rendered.push, usedBefore]
      | succ i =>
          have hrest := ih (charge size maxResponseBytes emptyMeta used slot) i
          simpa [Rendered.push, usedBefore] using hrest

end Slots

/-! ### Items and their results -/

section Correlation

variable (size : RenderedItem Meta → Nat) (maxResponseBytes : Nat) (emptyMeta : Meta)
  (own : Nat → Option (RenderedItem Meta)) (count : Nat)

/-- The result of item `i` fits behind those of the items before it. -/
def Fits (i : Nat) : Prop :=
  usedBefore size maxResponseBytes emptyMeta 0 ((List.range count).map own) i +
    size ((own i).getD (internalErrorItem emptyMeta)) ≤ maxResponseBytes

/-- The kinds of result of item `i`: what its task handed over, the internal
error of a task that did not complete, and the envelope of the byte cap. -/
inductive OutcomeOf (i : Nat) : ItemEnvelope Meta → Prop
  | rendered (item : RenderedItem Meta) (howner : own i = some item)
      (hfits : Fits size maxResponseBytes emptyMeta own count i) : OutcomeOf i item.body
  | lost (howner : own i = none)
      (hfits : Fits size maxResponseBytes emptyMeta own count i) :
      OutcomeOf i (internalErrorItem emptyMeta).body
  | truncated (hfits : ¬ Fits size maxResponseBytes emptyMeta own count i) :
      OutcomeOf i (truncatedItem emptyMeta).body

theorem answer_outcome (i : Nat) :
    OutcomeOf size maxResponseBytes emptyMeta own count i
      (answer size maxResponseBytes emptyMeta
        (usedBefore size maxResponseBytes emptyMeta 0 ((List.range count).map own) i)
        (own i)).body := by
  simp only [answer]
  split
  · rename_i hover
    apply OutcomeOf.truncated
    unfold Fits
    omega
  · rename_i hover
    have hfits : Fits size maxResponseBytes emptyMeta own count i := by
      unfold Fits
      omega
    cases howner : own i with
    | none => exact .lost howner hfits
    | some item => exact .rendered item howner hfits

end Correlation

/-- The results of a batch belong to its items: one each, in order, all of
them counted, and each with the id the client gave its item. -/
structure Correlated (box : BatchBox Key Meta Metrics Egress)
    (items : List (BatchItem S3 Sys)) (own : Nat → Option (RenderedItem Meta))
    (response : BatchResponse Meta) : Prop where
  one_each : response.results.length = items.length
  counted : response.items = items.length ∧ response.ok + response.failed = items.length
  outcome : ∀ i body, response.results[i]? = some body →
    OutcomeOf box.size box.limits.maxResponseBytes box.emptyMeta own items.length i body
  id : ∀ (i : Nat) (item : BatchItem S3 Sys) (body : ItemEnvelope Meta),
    items[i]? = some item → response.results[i]? = some body → body.id = item.id

section Ids

variable (box : BatchBox Key Meta Metrics Egress)
  (world : BatchWorld Key S3 Sys (ExecResult Metrics Egress Effect LogEntry))
  (identity : Option TrustedIdentity) (partition : Option String)

theorem renderExecutedItem_id (reader : Reader) (cfg : RespCfg)
    (withMetrics : Meta → Metrics → Egress → Meta) (id : Option String) (baseMeta : Meta)
    (result : ExecResult Metrics Egress Effect LogEntry) :
    (renderExecutedItem withMetrics reader cfg id baseMeta result).2.body.id = id := by
  unfold renderExecutedItem settle
  split
  · simp only
    split
    · simp only [renderSuccessItem]
      split <;> rfl
    · rfl
  · rfl
  · rfl

/-- Whatever became of an item, its own rendering names it. -/
theorem renderItem_id (reader : Reader) (cfg : RespCfg)
    (withMetrics : Meta → Metrics → Egress → Meta) (id : Option String) (baseMeta : Meta)
    (result : Except Rejection (ExecResult Metrics Egress Effect LogEntry)) :
    (renderItem reader cfg withMetrics id baseMeta result).body.id = id := by
  cases result with
  | error rejection => rfl
  | ok executed =>
      exact renderExecutedItem_id reader cfg withMetrics id baseMeta executed

theorem finishedItem_id (items : List (BatchItem S3 Sys)) (shared : Option String)
    (index : Nat) (item : BatchItem S3 Sys) (rendered : RenderedItem Meta)
    (hitem : items[index]? = some item)
    (hfinished : finishedItem box world identity partition items shared index =
      some rendered) : rendered.body.id = item.id := by
  unfold finishedItem at hfinished
  rw [hitem] at hfinished
  cases hfate : world.fate index with
  | completes =>
      simp only [hfate, Option.some.injEq] at hfinished
      rw [← hfinished]
      exact renderItem_id _ _ _ _ _ _
  | lostBeforeStart => simp [hfate] at hfinished
  | lostAfterStart => simp [hfate] at hfinished

theorem finishedItem_isSome_iff (items : List (BatchItem S3 Sys)) (shared : Option String)
    (index : Nat) (item : BatchItem S3 Sys) (hitem : items[index]? = some item) :
    (finishedItem box world identity partition items shared index).isSome ↔
      world.fate index = .completes := by
  unfold finishedItem
  rw [hitem]
  cases world.fate index <;> simp

/-- A result without an id is right for an item without one only. -/
theorem none_eq_id_iff (id : Option String) (delivered : Prop) (hnot : ¬ delivered) :
    none = id ↔ (id ≠ none → delivered) := by
  constructor
  · rintro rfl hne
    exact absurd rfl hne
  · intro h
    by_contra hne
    exact hnot (h fun hid => hne hid.symm)

/-- The result of an item has its id exactly when there is none to carry, or
the task completed and its rendering fits. -/
theorem outcome_id_iff (items : List (BatchItem S3 Sys)) (shared : Option String)
    (index : Nat) (item : BatchItem S3 Sys) (body : ItemEnvelope Meta)
    (hitem : items[index]? = some item)
    (houtcome : OutcomeOf box.size box.limits.maxResponseBytes box.emptyMeta
      (finishedItem box world identity partition items shared) items.length index body) :
    body.id = item.id ↔ (item.id ≠ none → world.fate index = .completes ∧
      Fits box.size box.limits.maxResponseBytes box.emptyMeta
        (finishedItem box world identity partition items shared) items.length index) := by
  have hsome := finishedItem_isSome_iff box world identity partition items shared index item
    hitem
  cases houtcome with
  | rendered rendered howner hfits =>
      have hid := finishedItem_id box world identity partition items shared index item
        rendered hitem howner
      have hfate := hsome.mp (by rw [howner]; rfl)
      exact ⟨fun _ _ => ⟨hfate, hfits⟩, fun _ => hid⟩
  | lost howner hfits =>
      have hfate : ¬ world.fate index = .completes := by
        intro h
        have := hsome.mpr h
        rw [howner] at this
        cases this
      apply none_eq_id_iff
      intro hdelivered
      exact hfate hdelivered.1
  | truncated hfits =>
      apply none_eq_id_iff
      intro hdelivered
      exact hfits hdelivered.2

theorem runItems_getElem? (items : List (BatchItem S3 Sys)) (shared : Option String)
    (i : Nat) (body : ItemEnvelope Meta)
    (hbody : (runItems box world identity partition items shared).results[i]? = some body) :
    OutcomeOf box.size box.limits.maxResponseBytes box.emptyMeta
      (finishedItem box world identity partition items shared) items.length i body := by
  unfold runItems at hbody
  rw [renderSlots_getElem?, fanOutItems_eq _ _ _ (world.order_perm items.length),
    List.getElem?_map] at hbody
  by_cases hi : i < items.length
  · simp only [List.getElem?_range hi, Option.map_some, Option.some.injEq] at hbody
    rw [← hbody]
    exact answer_outcome _ _ _ _ _ i
  · simp [hi] at hbody

theorem runItems_counts (items : List (BatchItem S3 Sys)) (shared : Option String) :
    (runItems box world identity partition items shared).results.length = items.length ∧
      (runItems box world identity partition items shared).ok +
        (runItems box world identity partition items shared).failed = items.length := by
  unfold runItems
  have h := renderSlots_counts box.size box.limits.maxResponseBytes box.emptyMeta 0
    (fanOutItems items.length (world.order items.length)
      (finishedItem box world identity partition items shared))
  rw [fanOutItems_eq _ _ _ (world.order_perm items.length)] at h ⊢
  simpa using h

end Ids

/-- For every batch that reaches its fan-out, every outcome of its tasks and
every order of joining them: the batch is answered, and its results correlate
with its items exactly when every item that has an id completes and fits. -/
theorem batch_correlated_iff (box : BatchBox Key Meta Metrics Egress)
    (world : BatchWorld Key S3 Sys (ExecResult Metrics Egress Effect LogEntry))
    (headers : HeaderMap) (request : BatchRequest S3 Sys)
    (identity : Option TrustedIdentity) (partition shared : Option String)
    (hreached : FannedOut box world headers request identity partition shared) :
    ∃ response, (runBatch box world headers (some request)).response = .ok response ∧
      (Correlated box request.items
          (finishedItem box world identity partition request.items shared) response ↔
        ∀ i item, request.items[i]? = some item → item.id ≠ none →
          world.fate i = .completes ∧
            Fits box.size box.limits.maxResponseBytes box.emptyMeta
              (finishedItem box world identity partition request.items shared)
              request.items.length i) := by
  obtain ⟨response, hresponse, hresults, hitems, hok, hfailed⟩ := hreached.response
  obtain ⟨hlength, hcounted⟩ := runItems_counts box world identity partition request.items
    shared
  refine ⟨response, hresponse, ?_⟩
  have houtcome : ∀ i body, response.results[i]? = some body →
      OutcomeOf box.size box.limits.maxResponseBytes box.emptyMeta
        (finishedItem box world identity partition request.items shared)
        request.items.length i body := by
    intro i body hbody
    rw [hresults] at hbody
    exact runItems_getElem? box world identity partition request.items shared i body hbody
  constructor
  · intro hcorrelated i item hitem
    have hi : i < response.results.length := by
      rw [hcorrelated.one_each]
      exact (List.getElem?_eq_some_iff.mp hitem).1
    have hbody := List.getElem?_eq_getElem hi
    apply (outcome_id_iff box world identity partition request.items shared i item _ hitem
      (houtcome i _ hbody)).mp
    exact hcorrelated.id i item _ hitem hbody
  · intro hdelivered
    refine ⟨hresults ▸ hlength, ⟨hitems, ?_⟩, houtcome, ?_⟩
    · rw [hok, hfailed]
      exact hcounted
    · intro i item body hitem hbody
      apply (outcome_id_iff box world identity partition request.items shared i item body
        hitem (houtcome i body hbody)).mpr
      exact hdelivered i item hitem

/-- Under a cap of 100 bytes the only item is truncated, and its id is gone. -/
theorem truncated_item_loses_id :
    (sampleBatch none).items.map BatchItem.id = [some "a"] ∧
      ∃ response, (runBatch (sampleBox 100 100) sampleWorld []
          (some (sampleBatch none))).response = .ok response ∧
        response.results.map ItemEnvelope.id = [none] ∧
        ¬ Correlated (sampleBox 100 100) (sampleBatch none).items
          (finishedItem (sampleBox 100 100) sampleWorld none none
            (sampleBatch none).items none) response := by
  refine ⟨rfl, ?_⟩
  obtain ⟨response, hresponse, hresults, -⟩ := (sampleBatch_fannedOut 100 100).response
  have hids : response.results.map ItemEnvelope.id = [none] := by
    rw [hresults]
    decide +kernel
  refine ⟨response, hresponse, hids, ?_⟩
  intro hcorrelated
  cases hbodies : response.results with
  | nil => simp [hbodies] at hids
  | cons body rest =>
      have hid := hcorrelated.id 0 sampleItem body rfl (by rw [hbodies]; rfl)
      rw [hbodies, List.map_cons, hid] at hids
      cases hids

theorem batch_correlated_iff_fits :
    ∃ response, (runBatch (sampleBox 100 1000) sampleWorld []
        (some (sampleBatch none))).response = .ok response ∧
      Correlated (sampleBox 100 1000) (sampleBatch none).items
        (finishedItem (sampleBox 100 1000) sampleWorld none none
          (sampleBatch none).items none) response := by
  obtain ⟨response, hresponse, hiff⟩ := batch_correlated_iff (sampleBox 100 1000) sampleWorld
    [] (sampleBatch none) none none none (sampleBatch_fannedOut 100 1000)
  refine ⟨response, hresponse, hiff.mpr ?_⟩
  intro i item hitem _
  cases i with
  | zero =>
      refine ⟨rfl, ?_⟩
      unfold Fits
      decide +kernel
  | succ i => cases hitem

end Runlet.Batch
