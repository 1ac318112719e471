import Runlet.Server.BatchResults

/-!
The byte cap of a batch response against what `render_slots` returns. The
serializer is a parameter: `write` is the text of one item, so the size of an
item is the length of that text. An item that does not fit is replaced by the
truncation envelope, whose own size is added without another look at the cap.
-/

namespace Runlet.Batch

open Errors Response Telemetry

variable {Meta : Type} (write : ItemEnvelope Meta → String)

/-- `RenderedItem::bytes`. -/
def itemBytes (item : RenderedItem Meta) : Nat := (write item.body).utf8ByteSize

def totalBytes (results : List (ItemEnvelope Meta)) : Nat :=
  (results.map fun body => (write body).utf8ByteSize).sum

variable (maxResponseBytes : Nat) (emptyMeta : Meta)

/-- What a slot holds before the cap is looked at. -/
def slotItem (slot : Option (RenderedItem Meta)) : RenderedItem Meta :=
  slot.getD (internalErrorItem emptyMeta)

/-- The texts of the results stay within the cap, and an item's own rendering
is missing only where it would not have fitted behind the results before it. -/
structure Capped (slots : List (Option (RenderedItem Meta))) : Prop where
  total : totalBytes write
    (renderSlots (itemBytes write) maxResponseBytes emptyMeta 0 slots).results ≤ maxResponseBytes
  replaced : ∀ i slot, slots[i]? = some slot →
    (renderSlots (itemBytes write) maxResponseBytes emptyMeta 0 slots).results[i]? ≠
      some (slotItem emptyMeta slot).body →
    maxResponseBytes < totalBytes write
      ((renderSlots (itemBytes write) maxResponseBytes emptyMeta 0 slots).results.take i) +
        itemBytes write (slotItem emptyMeta slot)

/-- Wherever an item does not fit behind what stands before it, the truncation
envelope does. -/
def EnvelopeFits (used : Nat) (slots : List (Option (RenderedItem Meta))) : Prop :=
  ∀ i slot, slots[i]? = some slot →
    maxResponseBytes < usedBefore (itemBytes write) maxResponseBytes emptyMeta used slots i +
      itemBytes write (slotItem emptyMeta slot) →
    usedBefore (itemBytes write) maxResponseBytes emptyMeta used slots i +
      itemBytes write (truncatedItem emptyMeta) ≤ maxResponseBytes

/-- The running total is the length of what was returned so far. -/
theorem usedBefore_eq_total (used : Nat) (slots : List (Option (RenderedItem Meta))) (i : Nat) :
    usedBefore (itemBytes write) maxResponseBytes emptyMeta used slots i =
      used + totalBytes write ((renderSlots (itemBytes write) maxResponseBytes emptyMeta used
        slots).results.take i) := by
  induction slots generalizing used i with
  | nil => simp [usedBefore, renderSlots, totalBytes]
  | cons slot rest ih =>
      cases i with
      | zero => simp [usedBefore, totalBytes]
      | succ i =>
          have hrest := ih (charge (itemBytes write) maxResponseBytes emptyMeta used slot) i
          have hcharge : charge (itemBytes write) maxResponseBytes emptyMeta used slot =
              used + itemBytes write
                (answer (itemBytes write) maxResponseBytes emptyMeta used slot) := by
            simp only [charge, answer]
            split <;> rfl
          rw [renderSlots_cons]
          simp only [usedBefore, List.take_succ_cons, List.foldl_cons, Rendered.push, totalBytes,
            List.map_cons, List.sum_cons] at hrest ⊢
          rw [hrest, hcharge]
          simp only [itemBytes]
          omega

theorem total_eq_usedBefore (slots : List (Option (RenderedItem Meta))) :
    totalBytes write (renderSlots (itemBytes write) maxResponseBytes emptyMeta 0 slots).results =
      slots.foldl (charge (itemBytes write) maxResponseBytes emptyMeta) 0 := by
  have hlength := (renderSlots_counts (itemBytes write) maxResponseBytes emptyMeta 0 slots).1
  have hall := usedBefore_eq_total write maxResponseBytes emptyMeta 0 slots slots.length
  rw [List.take_of_length_le (by omega), Nat.zero_add] at hall
  rw [← hall, usedBefore, List.take_length]

/-- One slot keeps the total within the cap exactly when it was within it and
the item or the envelope fits. -/
theorem charge_le_iff (used : Nat) (slot : Option (RenderedItem Meta)) :
    charge (itemBytes write) maxResponseBytes emptyMeta used slot ≤ maxResponseBytes ↔
      used ≤ maxResponseBytes ∧
        (maxResponseBytes < used + itemBytes write (slotItem emptyMeta slot) →
          used + itemBytes write (truncatedItem emptyMeta) ≤ maxResponseBytes) := by
  simp only [charge, slotItem]
  split <;> omega

/-- The totals of a whole run. -/
theorem foldl_charge_le_iff (used : Nat) (slots : List (Option (RenderedItem Meta))) :
    slots.foldl (charge (itemBytes write) maxResponseBytes emptyMeta) used ≤ maxResponseBytes ↔
      used ≤ maxResponseBytes ∧ EnvelopeFits write maxResponseBytes emptyMeta used slots := by
  induction slots generalizing used with
  | nil => simp [EnvelopeFits]
  | cons slot rest ih =>
      rw [List.foldl_cons, ih, charge_le_iff]
      constructor
      · rintro ⟨⟨hused, hslot⟩, hrest⟩
        refine ⟨hused, ?_⟩
        intro i other hother hover
        cases i with
        | zero =>
            cases Option.some.inj hother
            exact hslot hover
        | succ i => exact hrest i other hother hover
      · rintro ⟨hused, hfits⟩
        refine ⟨⟨hused, hfits 0 slot rfl⟩, ?_⟩
        intro i other hother hover
        exact hfits (i + 1) other hother hover

/-- For every serializer, every cap and all slots: the results stay within the
cap, and items are replaced only for its sake, exactly when the envelope fits
wherever it is needed. -/
theorem renderSlots_capped_iff (slots : List (Option (RenderedItem Meta))) :
    Capped write maxResponseBytes emptyMeta slots ↔
      EnvelopeFits write maxResponseBytes emptyMeta 0 slots := by
  have htotal := foldl_charge_le_iff write maxResponseBytes emptyMeta 0 slots
  rw [← total_eq_usedBefore] at htotal
  constructor
  · intro hcapped
    exact (htotal.mp hcapped.total).2
  · intro hfits
    refine ⟨htotal.mpr ⟨Nat.zero_le _, hfits⟩, ?_⟩
    intro i slot hslot hreplaced
    have hused := usedBefore_eq_total write maxResponseBytes emptyMeta 0 slots i
    rw [Nat.zero_add] at hused
    rw [← hused]
    by_contra hkept
    apply hreplaced
    rw [renderSlots_getElem?, hslot]
    simp only [Option.map_some, answer, slotItem] at hkept ⊢
    rw [if_neg hkept]

/-! A serializer for texts that need no escaping; the metadata is the trace id
of an invocation with nothing to report. -/

def writeCategory : ErrorCategory → String
  | .request => "request"
  | .runtime => "runtime"
  | .script => "script"
  | .capability => "capability"

def writeSource : ErrorSource → String
  | .request => "request"
  | .engine => "engine"
  | .handler => "handler"
  | .db => "db"
  | .mongo => "mongo"
  | .mail => "mail"
  | .s3 => "s3"
  | .api => "api"
  | .redis => "redis"
  | .amq => "amq"
  | .auth => "auth"

def writeError : ErrorMember → String
  | .handler text => text
  | .system envelope =>
      "\x7b\"type\":\"" ++ writeCategory envelope.category ++ "\",\"source\":\"" ++
        writeSource envelope.source ++ "\",\"code\":\"" ++ envelope.code ++ "\"" ++
        (envelope.message.elim "" fun message => ",\"message\":\"" ++ message ++ "\"") ++
        ",\"retryable\":" ++ (if envelope.retryable then "true" else "false") ++
        ",\"owner\":\"" ++ envelope.owner.asStr ++ "\"\x7d"

def writeItem (item : ItemEnvelope String) : String :=
  "\x7b\"data\":" ++ item.data ++ ",\"error\":" ++ writeError item.error ++
    ",\"meta\":\x7b\"trace_id\":\"" ++ item.metadata ++
    "\",\"script_bytes\":0,\"context_bytes\":0,\"total_input_bytes\":0," ++
    "\"exec_time_us\":0,\"io\":\x7b\x7d\x7d" ++
    (item.id.elim "" fun id => ",\"id\":\"" ++ id ++ "\"") ++ "\x7d"

/-- One item whose task was lost, under a cap of 100 bytes: the answer alone
is longer than the cap. -/
theorem envelope_exceeds_cap :
    totalBytes writeItem (renderSlots (itemBytes writeItem) 100 "t-1" 0 [none]).results = 304 ∧
      ¬ Capped writeItem 100 "t-1" [none] := by
  have htotal : totalBytes writeItem
      (renderSlots (itemBytes writeItem) 100 "t-1" 0 [none]).results = 304 := by
    decide +kernel
  refine ⟨htotal, ?_⟩
  intro hcapped
  have := hcapped.total
  omega

end Runlet.Batch
