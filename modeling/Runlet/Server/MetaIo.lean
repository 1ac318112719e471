import Runlet.Lib.Merge
import Runlet.Core.Errors

/-!
The operation metrics of one execution on their way into `meta.io` and out
again as billed counts (`with_metrics`, `insert_io` and `io_count` in
`response.rs`, `emit_executed` in `telemetry.rs`). The engine reports `http` and
`s3`, the broker six kinds of its own, and the box-direct calls come under the
names the operator chose. A metric is written as a JSON object; a duration is
an unsigned 128-bit number of microseconds, and a JSON value takes numbers of
64 bits.
-/

namespace Runlet.MetaIo

open Errors Merge

/-- A metric as a JSON object, with the one number that may not fit. -/
structure Rendered where
  value : Json
  durationUs : Nat

def Rendered.Fits (metric : Rendered) : Prop := metric.durationUs < 2 ^ 64

instance (metric : Rendered) : Decidable metric.Fits := inferInstanceAs (Decidable (_ < _))

def num (value : Nat) : Json := .num (toString value)

def object (fields : List (String × Json)) (durationUs : Nat) : Rendered :=
  ⟨.obj fields, durationUs⟩

structure HttpMetric where
  method : String
  host : String
  status : Nat
  requestBytes : Nat
  responseBytes : Nat
  durationUs : Nat

def HttpMetric.rendered (m : HttpMetric) : Rendered :=
  object [("method", .str m.method), ("host", .str m.host), ("status", num m.status),
    ("request_bytes", num m.requestBytes), ("response_bytes", num m.responseBytes),
    ("duration_us", num m.durationUs)] m.durationUs

structure S3Metric where
  action : String
  method : String
  durationUs : Nat
  expires : Nat
  bytes : Option Nat
  objects : Option Nat

def optional (name : String) : Option Nat → List (String × Json)
  | none => []
  | some value => [(name, num value)]

def S3Metric.rendered (m : S3Metric) : Rendered :=
  object ([("action", .str m.action), ("method", .str m.method),
    ("duration_us", num m.durationUs), ("expires", num m.expires)] ++
      optional "bytes" m.bytes ++ optional "objects" m.objects) m.durationUs

structure DbMetric where
  action : String
  durationUs : Nat
  rowsReturned : Nat
  rowsAffected : Nat
  truncated : Bool

def DbMetric.rendered (m : DbMetric) : Rendered :=
  object [("action", .str m.action), ("duration_us", num m.durationUs),
    ("rows_returned", num m.rowsReturned), ("rows_affected", num m.rowsAffected),
    ("truncated", .bool m.truncated)] m.durationUs

structure MongoMetric where
  action : String
  durationUs : Nat
  docsReturned : Nat
  docsAffected : Nat
  truncated : Bool

def MongoMetric.rendered (m : MongoMetric) : Rendered :=
  object [("action", .str m.action), ("duration_us", num m.durationUs),
    ("docs_returned", num m.docsReturned), ("docs_affected", num m.docsAffected),
    ("truncated", .bool m.truncated)] m.durationUs

structure MailMetric where
  action : String
  durationUs : Nat
  recipients : Nat
  bytes : Nat
  accepted : Bool

def MailMetric.rendered (m : MailMetric) : Rendered :=
  object [("action", .str m.action), ("duration_us", num m.durationUs),
    ("recipients", num m.recipients), ("bytes", num m.bytes), ("accepted", .bool m.accepted)]
    m.durationUs

structure RedisMetric where
  action : String
  durationUs : Nat
  bytes : Nat
  hit : Bool

def RedisMetric.rendered (m : RedisMetric) : Rendered :=
  object [("action", .str m.action), ("duration_us", num m.durationUs), ("bytes", num m.bytes),
    ("hit", .bool m.hit)] m.durationUs

structure AmqMetric where
  action : String
  durationUs : Nat
  messages : Nat
  bytes : Nat
  published : Bool

def AmqMetric.rendered (m : AmqMetric) : Rendered :=
  object [("action", .str m.action), ("duration_us", num m.durationUs),
    ("messages", num m.messages), ("bytes", num m.bytes), ("published", .bool m.published)]
    m.durationUs

structure AuthMetric where
  action : String
  host : String
  status : Nat
  durationUs : Nat

def AuthMetric.rendered (m : AuthMetric) : Rendered :=
  object [("action", .str m.action), ("host", .str m.host), ("status", num m.status),
    ("duration_us", num m.durationUs)] m.durationUs

structure LocalIoMetric where
  action : String
  durationUs : Nat
  requestBytes : Nat
  status : Nat

def LocalIoMetric.rendered (m : LocalIoMetric) : Rendered :=
  object [("action", .str m.action), ("duration_us", num m.durationUs),
    ("request_bytes", num m.requestBytes), ("status", num m.status)] m.durationUs

structure ExecMetrics where
  http : List HttpMetric
  s3 : List S3Metric

structure BackendMetrics where
  db : List DbMetric
  mongo : List MongoMetric
  mail : List MailMetric
  redis : List RedisMetric
  amq : List AmqMetric
  auth : List AuthMetric

/-- The broker's metrics by kind and the box-direct ones by name. -/
structure EgressMetrics where
  backend : BackendMetrics
  boxDirect : AList fun _ : String => List LocalIoMetric

structure Metadata where
  traceId : String
  key : Option String
  partition : Option String
  scriptBytes : Nat
  contextBytes : Nat
  totalInputBytes : Nat
  execTimeUs : Nat
  io : Table String Json

def Metadata.new (traceId : String) (scriptBytes contextBytes execTimeUs : Nat) : Metadata :=
  ⟨traceId, none, none, scriptBytes, contextBytes, scriptBytes + contextBytes, execTimeUs, ∅⟩

/-- `serde_json::to_value` of a list of metrics. -/
def toValue (metrics : List Rendered) : Option (List Json) :=
  if ∀ metric ∈ metrics, metric.Fits then some (metrics.map Rendered.value) else none

def insertIo (io : Table String Json) (name : String) (metrics : List Rendered) :
    Table String Json :=
  if metrics.isEmpty then io
  else
    match toValue metrics with
    | some values => io.insert name values
    | none => io

def ioCount (io : Table String Json) (name : String) : Nat :=
  match io.lookup name with
  | some values => values.length
  | none => 0

def Metadata.withMetrics (self : Metadata) (metrics : ExecMetrics) (egress : EgressMetrics) :
    Metadata :=
  let io := insertIo self.io "http" (metrics.http.map HttpMetric.rendered)
  let io := insertIo io "s3" (metrics.s3.map S3Metric.rendered)
  let io := insertIo io "db" (egress.backend.db.map DbMetric.rendered)
  let io := insertIo io "mongo" (egress.backend.mongo.map MongoMetric.rendered)
  let io := insertIo io "mail" (egress.backend.mail.map MailMetric.rendered)
  let io := insertIo io "redis" (egress.backend.redis.map RedisMetric.rendered)
  let io := insertIo io "amq" (egress.backend.amq.map AmqMetric.rendered)
  let io := insertIo io "auth" (egress.backend.auth.map AuthMetric.rendered)
  let io := egress.boxDirect.entries.foldl
    (fun io entry => insertIo io entry.1 (entry.2.map LocalIoMetric.rendered)) io
  { self with io := io }

structure CapabilityOps where
  db : Nat
  mongo : Nat
  http : Nat
  mail : Nat
  s3 : Nat
  redis : Nat
  amq : Nat
  auth : Nat

/-- The counts of the usage event of `emit_executed`. -/
def capabilityOps (self : Metadata) : CapabilityOps where
  db := ioCount self.io "db"
  mongo := ioCount self.io "mongo"
  http := ioCount self.io "http"
  mail := ioCount self.io "mail"
  s3 := ioCount self.io "s3"
  redis := ioCount self.io "redis"
  amq := ioCount self.io "amq"
  auth := ioCount self.io "auth"

structure UsageBody where
  outcome : String
  execTimeUs : Nat
  inputBytes : Nat
  ops : CapabilityOps

def usageBody (self : Metadata) (outcome : String) : UsageBody :=
  ⟨outcome, self.execTimeUs, self.totalInputBytes, capabilityOps self⟩

/-! ### What was recorded, and what arrives -/

/-- The engine's and the broker's metrics under the names of their
capabilities. -/
def capabilityEntries (metrics : ExecMetrics) (egress : EgressMetrics) :
    List (String × List Rendered) :=
  [("http", metrics.http.map HttpMetric.rendered), ("s3", metrics.s3.map S3Metric.rendered),
    ("db", egress.backend.db.map DbMetric.rendered),
    ("mongo", egress.backend.mongo.map MongoMetric.rendered),
    ("mail", egress.backend.mail.map MailMetric.rendered),
    ("redis", egress.backend.redis.map RedisMetric.rendered),
    ("amq", egress.backend.amq.map AmqMetric.rendered),
    ("auth", egress.backend.auth.map AuthMetric.rendered)]

def boxDirectEntries (egress : EgressMetrics) : List (String × List Rendered) :=
  egress.boxDirect.entries.map fun entry => (entry.1, entry.2.map LocalIoMetric.rendered)

def allEntries (metrics : ExecMetrics) (egress : EgressMetrics) : List (String × List Rendered) :=
  capabilityEntries metrics egress ++ boxDirectEntries egress

/-- Every operation that was recorded, by any of the three. -/
def recorded (metrics : ExecMetrics) (egress : EgressMetrics) : List Rendered :=
  given (allEntries metrics egress)

/-- The operations the engine and the broker recorded for each capability. -/
def recordedOps (metrics : ExecMetrics) (egress : EgressMetrics) : CapabilityOps where
  db := egress.backend.db.length
  mongo := egress.backend.mongo.length
  http := metrics.http.length
  mail := egress.backend.mail.length
  s3 := metrics.s3.length
  redis := egress.backend.redis.length
  amq := egress.backend.amq.length
  auth := egress.backend.auth.length

/-- Nothing is lost on the way and nothing is counted for another. -/
structure Lossless (fresh : Metadata) (metrics : ExecMetrics) (egress : EgressMetrics) : Prop where
  operations : (items (fresh.withMetrics metrics egress).io).Perm
    ((recorded metrics egress).map Rendered.value)
  counts : ∀ outcome, (usageBody (fresh.withMetrics metrics egress) outcome).ops =
    recordedOps metrics egress

def capabilityNames : List String :=
  ["http", "s3", "db", "mongo", "mail", "redis", "amq", "auth"]

/-- What `to_value` leaves of a list: all of it, or nothing. -/
def written (metrics : List Rendered) : List Json := (toValue metrics).getD []

theorem written_length_le (metrics : List Rendered) :
    (written metrics).length ≤ metrics.length ∧
      ((written metrics).length = metrics.length → ∀ metric ∈ metrics, metric.Fits) := by
  unfold written toValue
  split
  · rename_i hfits
    exact ⟨by simp, fun _ => hfits⟩
  · refine ⟨Nat.zero_le _, fun heq => ?_⟩
    have hnil : metrics = [] := List.length_eq_zero_iff.mp heq.symm
    simp [hnil]

theorem written_of_fits (metrics : List Rendered) (h : ∀ metric ∈ metrics, metric.Fits) :
    written metrics = metrics.map Rendered.value := by
  simp [written, toValue, if_pos h]

theorem insertIo_eq_put (io : Table String Json) (name : String) (metrics : List Rendered) :
    insertIo io name metrics = put io name (written metrics) := by
  cases metrics with
  | nil => rfl
  | cons first rest =>
      simp only [insertIo, List.isEmpty_cons, Bool.false_eq_true, if_false, written, toValue]
      split
      · rename_i values hvalues
        rw [hvalues]
        split at hvalues
        · cases hvalues
          rfl
        · cases hvalues
      · rename_i hvalues
        rw [hvalues]
        rfl

/-- The entries as they are written. -/
def writtenEntries (entries : List (String × List Rendered)) : List (String × List Json) :=
  entries.map fun entry => (entry.1, written entry.2)

theorem withMetrics_io (self : Metadata) (metrics : ExecMetrics) (egress : EgressMetrics) :
    (self.withMetrics metrics egress).io =
      putAll self.io (writtenEntries (allEntries metrics egress)) := by
  have hlocal (io : Table String Json) : egress.boxDirect.entries.foldl
      (fun io entry => insertIo io entry.1 (entry.2.map LocalIoMetric.rendered)) io =
      putAll io (writtenEntries (boxDirectEntries egress)) := by
    simp only [insertIo_eq_put, putAll, writtenEntries, boxDirectEntries, List.map_map,
      List.foldl_map, Function.comp_apply]
  have hsplit : putAll self.io (writtenEntries (allEntries metrics egress)) =
      putAll (putAll self.io (writtenEntries (capabilityEntries metrics egress)))
        (writtenEntries (boxDirectEntries egress)) := by
    simp only [putAll, writtenEntries, allEntries, List.map_append, List.foldl_append]
  rw [hsplit]
  simp only [Metadata.withMetrics, hlocal]
  simp only [insertIo_eq_put]
  rfl

theorem given_written_length (entries : List (String × List Rendered)) :
    (given (writtenEntries entries)).length ≤ (given entries).length ∧
      ((given (writtenEntries entries)).length = (given entries).length →
        ∀ metric ∈ given entries, metric.Fits) := by
  induction entries with
  | nil => simp [given, writtenEntries]
  | cons entry rest ih =>
      obtain ⟨hle, hfits⟩ := written_length_le entry.2
      obtain ⟨hrestLe, hrestFits⟩ := ih
      simp only [given, writtenEntries, List.map_cons, List.flatMap_cons, List.length_append]
        at hrestLe hrestFits ⊢
      refine ⟨by omega, ?_⟩
      intro heq metric hmem
      rcases List.mem_append.mp hmem with hmem | hmem
      · exact hfits (by omega) metric hmem
      · exact hrestFits (by omega) metric hmem

/-- When everything fits, the values that are written are the recorded ones. -/
theorem given_written_of_fits (entries : List (String × List Rendered))
    (h : ∀ metric ∈ given entries, metric.Fits) :
    given (writtenEntries entries) = (given entries).map Rendered.value := by
  induction entries with
  | nil => rfl
  | cons entry rest ih =>
      simp only [given, writtenEntries, List.map_cons, List.flatMap_cons, List.map_append]
        at ih h ⊢
      rw [written_of_fits entry.2 fun metric hmem => h metric (List.mem_append_left _ hmem)]
      rw [ih fun metric hmem => h metric (List.mem_append_right _ hmem)]

/-- The eight counts at once. -/
theorem counts_iff (self : Metadata) (metrics : ExecMetrics) (egress : EgressMetrics) :
    capabilityOps self = recordedOps metrics egress ↔
      ∀ entry ∈ capabilityEntries metrics egress,
        ioCount self.io entry.1 = entry.2.length := by
  simp only [capabilityOps, recordedOps, CapabilityOps.mk.injEq, capabilityEntries,
    List.forall_mem_cons, List.length_map, List.not_mem_nil, false_implies, implies_true,
    and_true]
  constructor
  · rintro ⟨hdb, hmongo, hhttp, hmail, hs3, hredis, hamq, hauth⟩
    exact ⟨hhttp, hs3, hdb, hmongo, hmail, hredis, hamq, hauth⟩
  · rintro ⟨hhttp, hs3, hdb, hmongo, hmail, hredis, hamq, hauth⟩
    exact ⟨hdb, hmongo, hhttp, hmail, hs3, hredis, hamq, hauth⟩

theorem capabilityEntries_names (metrics : ExecMetrics) (egress : EgressMetrics) :
    (capabilityEntries metrics egress).map Prod.fst = capabilityNames := rfl

/-- No operation was made through a box-direct resource with the name of a
capability. -/
def OwnNames (egress : EgressMetrics) : Prop :=
  ∀ name ∈ capabilityNames, ∀ ops, egress.boxDirect.lookup name = some ops → ops = []

theorem mem_boxDirectEntries (egress : EgressMetrics) (entry : String × List Rendered) :
    entry ∈ boxDirectEntries egress ↔ ∃ ops, egress.boxDirect.lookup entry.1 = some ops ∧
      entry.2 = ops.map LocalIoMetric.rendered := by
  simp only [boxDirectEntries, List.mem_map]
  constructor
  · rintro ⟨stored, hstored, rfl⟩
    exact ⟨stored.2, AList.mem_lookup_iff.mpr hstored, rfl⟩
  · rintro ⟨ops, hlookup, hops⟩
    exact ⟨⟨entry.1, ops⟩, AList.mem_lookup_iff.mp hlookup, by rw [← hops]⟩

theorem boxDirectEntries_nodup (egress : EgressMetrics) :
    ((boxDirectEntries egress).map Prod.fst).Nodup := by
  have hkeys : (boxDirectEntries egress).map Prod.fst = egress.boxDirect.keys := by
    simp [boxDirectEntries, AList.keys, List.keys, Function.comp_def]
  rw [hkeys]
  exact AList.keys_nodup _

/-- A name of a capability stands for one entry of its own. -/
theorem capabilityEntries_unique (metrics : ExecMetrics) (egress : EgressMetrics)
    (left right : String × List Rendered) (hleft : left ∈ capabilityEntries metrics egress)
    (hright : right ∈ capabilityEntries metrics egress) (hname : left.1 = right.1) :
    left = right := by
  have hnodup : ((capabilityEntries metrics egress).map Prod.fst).Nodup := by
    rw [capabilityEntries_names]
    decide
  exact List.inj_on_of_nodup_map hnodup hleft hright hname

theorem written_ne_nil (metrics : List Rendered) (h : ∀ metric ∈ metrics, metric.Fits)
    (hne : metrics ≠ []) : written metrics ≠ [] := by
  rw [written_of_fits metrics h]
  simpa using hne

theorem writtenEntries_names (entries : List (String × List Rendered)) :
    (writtenEntries entries).map Prod.fst = entries.map Prod.fst := by
  simp [writtenEntries, Function.comp_def]

theorem mem_writtenEntries (entries : List (String × List Rendered))
    (entry : String × List Rendered) (h : entry ∈ entries) :
    (entry.1, written entry.2) ∈ writtenEntries entries :=
  List.mem_map_of_mem h

theorem writtenEntries_append (metrics : ExecMetrics) (egress : EgressMetrics) :
    writtenEntries (allEntries metrics egress) =
      writtenEntries (capabilityEntries metrics egress) ++
        writtenEntries (boxDirectEntries egress) := by
  simp only [allEntries, writtenEntries, List.map_append]

/-- Without a shared name every list goes to a place of its own. -/
theorem distinct_of_ownNames (metrics : ExecMetrics) (egress : EgressMetrics)
    (hown : OwnNames egress) : Distinct (writtenEntries (allEntries metrics egress)) := by
  rw [writtenEntries_append, distinct_append]
  refine ⟨distinct_of_nodup _ ?_, distinct_of_nodup _ ?_, ?_⟩
  · rw [writtenEntries_names, capabilityEntries_names]
    decide
  · rw [writtenEntries_names]
    exact boxDirectEntries_nodup egress
  · intro left hleft right hright _ hright' heq
    obtain ⟨capability, hcapability, rfl⟩ := List.mem_map.mp hleft
    obtain ⟨entry, hentry, rfl⟩ := List.mem_map.mp hright
    obtain ⟨ops, hlookup, hops⟩ := (mem_boxDirectEntries egress entry).mp hentry
    have hname : entry.1 ∈ capabilityNames := by
      rw [← capabilityEntries_names metrics egress]
      exact List.mem_map.mpr ⟨capability, hcapability, heq.symm⟩
    have hnone := hown entry.1 hname ops hlookup
    apply hright'
    simp [hops, hnone, written, toValue]

/-- With names of their own and durations that fit, the counts are right. -/
theorem counts_of_ownNames (metrics : ExecMetrics) (egress : EgressMetrics)
    (hown : OwnNames egress) (hfits : ∀ metric ∈ recorded metrics egress, metric.Fits)
    (entry : String × List Rendered) (hentry : entry ∈ capabilityEntries metrics egress) :
    ioCount (putAll ∅ (writtenEntries (allEntries metrics egress))) entry.1 =
      entry.2.length := by
  have hall : entry ∈ allEntries metrics egress := List.mem_append_left _ hentry
  have hwritten : written entry.2 = entry.2.map Rendered.value :=
    written_of_fits entry.2 fun metric hmem =>
      hfits metric (List.mem_flatMap.mpr ⟨entry, hall, hmem⟩)
  unfold ioCount
  by_cases hempty : entry.2 = []
  · rw [putAll_lookup_ne ∅ _ entry.1, AList.lookup_empty, hempty]
    · rfl
    intro stored hstored hne heq
    obtain ⟨other, hother, rfl⟩ := List.mem_map.mp hstored
    rcases List.mem_append.mp hother with hother | hother
    · have hsame := capabilityEntries_unique metrics egress entry other hentry hother heq
      rw [← hsame, hwritten, hempty] at hne
      exact hne rfl
    · obtain ⟨ops, hlookup, hops⟩ := (mem_boxDirectEntries egress other).mp hother
      have hname : other.1 ∈ capabilityNames := by
        rw [← capabilityEntries_names metrics egress]
        exact List.mem_map.mpr ⟨entry, hentry, heq⟩
      have hnone := hown other.1 hname ops hlookup
      apply hne
      simp [hops, hnone, written, toValue]
  · have hne : written entry.2 ≠ [] := by
      rw [hwritten]
      simpa using hempty
    rw [putAll_lookup ∅ _ (distinct_of_ownNames metrics egress hown) entry.1 _ hne
      (mem_writtenEntries _ entry hall)]
    simp [hwritten]

/-- For all metrics and all names of local resources: `meta.io` and the counts
taken from it are exact if and only if every duration fits a JSON number and no
operation was made through a local resource that has the name of a
capability. -/
theorem lossless_iff (traceId : String) (scriptBytes contextBytes execTimeUs : Nat)
    (metrics : ExecMetrics) (egress : EgressMetrics) :
    Lossless (.new traceId scriptBytes contextBytes execTimeUs) metrics egress ↔
      (∀ metric ∈ recorded metrics egress, metric.Fits) ∧ OwnNames egress := by
  have hio (self : Metadata) (hself : self.io = ∅) : (self.withMetrics metrics egress).io =
      putAll ∅ (writtenEntries (allEntries metrics egress)) := by
    rw [withMetrics_io, hself]
  constructor
  · rintro ⟨hperm, hcounts⟩
    have hlength := hperm.length_eq
    rw [hio _ rfl, List.length_map] at hlength
    obtain ⟨hle, hfree⟩ := putAll_length (∅ : Table String Json)
      (writtenEntries (allEntries metrics egress)) (fun entry hentry => nomatch hentry)
    obtain ⟨hgivenLe, hgivenFits⟩ := given_written_length (allEntries metrics egress)
    have hnone : (items (∅ : Table String Json)).length = 0 := rfl
    have hfits : ∀ metric ∈ recorded metrics egress, metric.Fits :=
      hgivenFits (by unfold recorded at hlength; omega)
    have hdistinct := (hfree (by unfold recorded at hlength; omega)).1
    refine ⟨hfits, ?_⟩
    intro name hname ops hlookup
    by_contra hops
    have hbox : (name, ops.map LocalIoMetric.rendered) ∈ boxDirectEntries egress :=
      (mem_boxDirectEntries egress _).mpr ⟨ops, hlookup, rfl⟩
    have hlocal : (name, ops.map LocalIoMetric.rendered) ∈ allEntries metrics egress :=
      List.mem_append_right _ hbox
    have hfitsLocal : ∀ metric ∈ ops.map LocalIoMetric.rendered, metric.Fits :=
      fun metric hmem => hfits metric (List.mem_flatMap.mpr ⟨_, hlocal, hmem⟩)
    have hlocalNe := written_ne_nil _ hfitsLocal (by simpa using hops)
    rw [← capabilityEntries_names metrics egress] at hname
    obtain ⟨entry, hentry, hentryName⟩ := List.mem_map.mp hname
    have hcount := (counts_iff _ metrics egress).mp (hcounts "success") entry hentry
    rw [hio _ rfl, hentryName] at hcount
    unfold ioCount at hcount
    rw [putAll_lookup ∅ _ hdistinct name _ hlocalNe (mem_writtenEntries _ _ hlocal)] at hcount
    -- the count is not zero, so the capability has an entry of its own under this name
    have hentryNe : entry.2 ≠ [] := by
      intro hempty
      rw [hempty] at hcount
      exact hlocalNe (List.length_eq_zero_iff.mp hcount)
    have hfitsEntry : ∀ metric ∈ entry.2, metric.Fits := fun metric hmem =>
      hfits metric (List.mem_flatMap.mpr ⟨entry, List.mem_append_left _ hentry, hmem⟩)
    rw [writtenEntries_append, distinct_append] at hdistinct
    exact hdistinct.2.2 _ (mem_writtenEntries _ entry hentry) _ (mem_writtenEntries _ _ hbox)
      (written_ne_nil _ hfitsEntry hentryNe) hlocalNe hentryName.symm
  · rintro ⟨hfits, hown⟩
    refine ⟨?_, ?_⟩
    · rw [hio _ rfl]
      have hdistinct := distinct_of_ownNames metrics egress hown
      have hperm := putAll_perm (∅ : Table String Json)
        (writtenEntries (allEntries metrics egress))
        ⟨hdistinct, fun entry _ _ => AList.notMem_empty entry.1⟩
      rw [given_written_of_fits _ hfits] at hperm
      exact hperm
    · intro outcome
      refine (counts_iff _ metrics egress).mpr ?_
      intro entry hentry
      rw [hio _ rfl]
      exact counts_of_ownNames metrics egress hown hfits entry hentry

/-- One query of the broker and one call of a local resource called `db`. -/
def brokerQuery : ExecMetrics × EgressMetrics :=
  (⟨[], []⟩,
    ⟨⟨[⟨"query", 900, 3, 0, false⟩], [], [], [], [], []⟩,
      AList.singleton "db" [⟨"query", 400, 64, 200⟩]⟩)

/-- Two operations were recorded and one is reported. -/
theorem local_db_replaces_broker_db :
    (recorded brokerQuery.1 brokerQuery.2).length = 2 ∧
      (items ((Metadata.new "t" 0 0 0).withMetrics brokerQuery.1 brokerQuery.2).io).length = 1 ∧
      ¬ Lossless (.new "t" 0 0 0) brokerQuery.1 brokerQuery.2 := by
  have hone : (items ((Metadata.new "t" 0 0 0).withMetrics brokerQuery.1
      brokerQuery.2).io).length = 1 := by
    decide +kernel
  have htwo : (recorded brokerQuery.1 brokerQuery.2).length = 2 := by decide +kernel
  refine ⟨htwo, hone, ?_⟩
  intro hlossless
  have hlength := hlossless.operations.length_eq
  rw [hone, List.length_map, htwo] at hlength
  exact absurd hlength (by decide)

end Runlet.MetaIo
