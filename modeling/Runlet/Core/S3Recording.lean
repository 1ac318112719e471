import Runlet.Core.S3Requests

/-!
The requests of one execution against the operations recorded for it. The
closure of `inject_s3` compares `max_ops` with the number of records, so the
limit bounds the requests as long as each of them is recorded. `usage` records
a page after it has read it and `delete` records an answer, so a page that
cannot be read and a request that fails leave no record.
-/

namespace Runlet.S3

/-- Every request of a trace is followed by its one record; the actions that
only sign leave a record without a request. -/
inductive RecordedOnce : List Op → Prop
  | nil : RecordedOnce []
  | sent (url action : String) (page : Option (Nat × Nat)) (rest : List Op)
      (haction : action = "usage" ∨ action = "delete") (hrest : RecordedOnce rest) :
      RecordedOnce (.request url :: .record action page :: rest)
  | signed (action : String) (rest : List Op)
      (haction : action ≠ "usage" ∧ action ≠ "delete") (hrest : RecordedOnce rest) :
      RecordedOnce (.record action none :: rest)

/-- The traces of the calls of one execution; the closure is given the number
of records so far. -/
def S3Access.execution (access : S3Access) : Nat → List S3Call → List (List Op)
  | _, [] => []
  | used, call :: rest =>
      let trace := (access.s3Call call used).trace
      trace :: access.execution (used + records trace) rest

/-- The records in front of call `i`. -/
def S3Access.usedBefore (access : S3Access) (calls : List S3Call) (i : Nat) : Nat :=
  records (access.execution 0 (calls.take i)).flatten

/-- The call gets through with budget left and sends a request that is not
recorded: a `usage` asks for a page it cannot read, or the request of a
`delete` fails. -/
def S3Call.LeavesOut (access : S3Access) (used : Nat) (call : S3Call) : Prop :=
  used < access.maxOps ∧
    ((call.action = "usage" ∧ ∃ target,
        usageTarget access call.outside call.payload = .ok target ∧
        unreadPage call.outside target (access.maxOps - used) 0 none 0 0 = true) ∨
      (call.action = "delete" ∧ ∃ key url err,
        deleteTarget access call.outside call.payload = .ok (key, url) ∧
        call.outside.send 0 url = .failed err))

theorem records_append (front rest : List Op) :
    records (front ++ rest) = records front + records rest := by
  simp [records, List.countP_append]

theorem requests_append (front rest : List Op) :
    requests (front ++ rest) = requests front + requests rest := by
  simp [requests, List.countP_append]

theorem RecordedOnce.requests_le {trace : List Op} (h : RecordedOnce trace) :
    requests trace ≤ records trace := by
  induction h with
  | nil => exact Nat.le_refl _
  | sent url action page rest haction hrest ih =>
      simp only [requests_request, requests_record, records_request, records_record]
      omega
  | signed action rest haction hrest ih =>
      simp only [requests_record, records_record]
      omega

/-! ### One call -/

/-- As long as every page can be read, each is requested and then recorded. -/
theorem usageLoop_recorded (outside : Outside) (target : ListTarget)
    (maxOps left page : Nat) (token : Option String) (bytes objects : Nat)
    (hread : unreadPage outside target left page token bytes objects = false) :
    RecordedOnce (usageLoop outside target maxOps left page token bytes objects).trace := by
  induction left generalizing page token bytes objects with
  | zero => exact .nil
  | succ left ih =>
      simp only [unreadPage] at hread
      simp only [usageLoop, fetchListPage]
      cases hurl : outside.listUrl target page token with
      | error err => exact .nil
      | ok url =>
          rw [hurl] at hread
          simp only at hread ⊢
          cases hpage : readListPage (outside.send page url) with
          | error err => simp [hpage] at hread
          | ok read =>
              obtain ⟨pageBytes, pageObjects, next⟩ := read
              rw [hpage] at hread
              simp only at hread ⊢
              have hone : RecordedOnce [Op.request url,
                  .record "usage" (some (pageBytes, pageObjects))] :=
                .sent url "usage" _ [] (.inl rfl) .nil
              by_cases hbytes : bytes + pageBytes > 18446744073709551615
              · rw [if_pos hbytes]
                exact hone
              rw [if_neg hbytes]
              by_cases hobjects : objects + pageObjects > 18446744073709551615
              · rw [if_pos hobjects]
                exact hone
              rw [if_neg hobjects]
              rw [if_neg (not_or.mpr ⟨hbytes, hobjects⟩)] at hread
              cases next with
              | none => exact hone
              | some token =>
                  exact .sent url "usage" _ _ (.inl rfl) (ih _ _ _ _ hread)

/-- With the whole budget such a call leaves a request out as well. -/
theorem leavesOut_unrecorded (access : S3Access) (call : S3Call) (used : Nat)
    (hleaves : call.LeavesOut access used) : call.Unrecorded access := by
  obtain ⟨hfree, ⟨haction, target, htarget, hunread⟩ | hdelete⟩ := hleaves
  · have hmono := unreadPage_mono call.outside target _ used 0 none 0 0 hunread
    rw [Nat.sub_add_cancel (Nat.le_of_lt hfree)] at hmono
    exact .inl ⟨haction, target, htarget, hmono⟩
  · exact .inr hdelete

/-- A call records each of its requests exactly when it leaves none out. -/
theorem s3Call_recorded_iff (access : S3Access) (call : S3Call) (used : Nat) :
    RecordedOnce (access.s3Call call used).trace ↔ ¬ call.LeavesOut access used := by
  by_cases hfree : used < access.maxOps
  · rcases s3Call_cases access call used hfree with
      ⟨haction, target, htarget, htrace⟩ | ⟨haction, key, url, htarget, htrace⟩ |
        ⟨-, hunrecorded, hquiet⟩
    · rw [htrace]
      have hcounts := (usageLoop_counts call.outside target access.maxOps
        (access.maxOps - used) 0 none 0 0).1
      cases hunread : unreadPage call.outside target (access.maxOps - used) 0 none 0 0 with
      | false =>
          have hrecorded := usageLoop_recorded call.outside target access.maxOps
            (access.maxOps - used) 0 none 0 0 hunread
          simp [hrecorded, S3Call.LeavesOut, haction, htarget, hunread]
      | true =>
          rw [hunread] at hcounts
          have hleaves : call.LeavesOut access used :=
            ⟨hfree, .inl ⟨haction, target, htarget, hunread⟩⟩
          simp only [hleaves, not_true_eq_false, iff_false]
          intro hrecorded
          have hle := hrecorded.requests_le
          rw [hcounts] at hle
          exact absurd hle (Nat.not_succ_le_self _)
    · rw [htrace]
      cases hsend : call.outside.send 0 url with
      | failed err =>
          have hleaves : call.LeavesOut access used :=
            ⟨hfree, .inr ⟨haction, key, url, err, htarget, hsend⟩⟩
          simp only [hleaves, not_true_eq_false, iff_false]
          intro hrecorded
          cases hrecorded
      | answered status body =>
          have hrecorded : RecordedOnce [Op.request url, .record "delete" none] :=
            .sent url "delete" none [] (.inr rfl) .nil
          simp [hrecorded, S3Call.LeavesOut, haction, htarget, hsend]
    · have hnot : ¬ call.LeavesOut access used :=
        fun h => hunrecorded (leavesOut_unrecorded access call used h)
      simp only [hnot, not_false_eq_true, iff_true]
      rcases hquiet with hnone | ⟨husage, hdelete, hone⟩
      · rw [hnone]
        exact .nil
      · rw [hone]
        exact .signed call.action [] ⟨husage, hdelete⟩ .nil
  · have hnot : ¬ call.LeavesOut access used := fun h => hfree h.1
    rw [s3Call_full access call used (Nat.not_lt.mp hfree)]
    exact ⟨fun _ => hnot, fun _ => .nil⟩

/-! ### A whole execution -/

/-- The counter never passes the limit. -/
theorem execution_records_le (access : S3Access) (used : Nat) (calls : List S3Call)
    (hused : used ≤ access.maxOps) :
    used + records (access.execution used calls).flatten ≤ access.maxOps := by
  induction calls generalizing used with
  | nil => exact hused
  | cons call rest ih =>
      have hcall : used + records (access.s3Call call used).trace ≤ access.maxOps := by
        by_cases hfree : used < access.maxOps
        · exact (s3Call_accounted access call used hfree).bounded
        · rw [s3Call_full access call used (Nat.not_lt.mp hfree)]
          exact hused
      have hrest := ih _ hcall
      simp only [S3Access.execution, List.flatten_cons, records_append]
      omega

theorem execution_requests_le (access : S3Access) (used : Nat) (calls : List S3Call)
    (hrecorded : ∀ trace ∈ access.execution used calls, RecordedOnce trace) :
    requests (access.execution used calls).flatten ≤
      records (access.execution used calls).flatten := by
  induction calls generalizing used with
  | nil => exact Nat.le_refl _
  | cons call rest ih =>
      have hcall := (hrecorded _ List.mem_cons_self).requests_le
      have hrest := ih _ fun trace htrace => hrecorded trace (List.mem_cons_of_mem _ htrace)
      simp only [S3Access.execution, List.flatten_cons, records_append, requests_append]
      omega

theorem execution_recorded_iff (access : S3Access) (used : Nat) (calls : List S3Call) :
    (∀ trace ∈ access.execution used calls, RecordedOnce trace) ↔
      ∀ (i : Nat) (call : S3Call), calls[i]? = some call →
        ¬ call.LeavesOut access (used + records (access.execution used (calls.take i)).flatten) := by
  induction calls generalizing used with
  | nil => simp [S3Access.execution]
  | cons call rest ih =>
      simp only [S3Access.execution, List.forall_mem_cons, ih, s3Call_recorded_iff]
      constructor
      · rintro ⟨hcall, hrest⟩ i other hother
        cases i with
        | zero =>
            cases Option.some.inj hother
            simpa [S3Access.execution, records] using hcall
        | succ i =>
            have h := hrest i other hother
            simp only [List.take_succ_cons, S3Access.execution, List.flatten_cons,
              records_append]
            rwa [← Nat.add_assoc]
      · intro hall
        constructor
        · simpa [S3Access.execution, records] using hall 0 call rfl
        · intro i other hother
          have h := hall (i + 1) other hother
          simp only [List.take_succ_cons, S3Access.execution, List.flatten_cons,
            records_append] at h
          rwa [← Nat.add_assoc] at h

/-- For every sequence of calls of an execution and every behaviour of the
store: each request is recorded as exactly one operation, and the requests stay
within `max_ops`, exactly when no call leaves a request out. -/
theorem requests_recorded_iff (access : S3Access) (calls : List S3Call) :
    ((∀ trace ∈ access.execution 0 calls, RecordedOnce trace) ∧
      requests (access.execution 0 calls).flatten ≤ access.maxOps) ↔
    ∀ (i : Nat) (call : S3Call), calls[i]? = some call →
      ¬ call.LeavesOut access (access.usedBefore calls i) := by
  have hiff := execution_recorded_iff access 0 calls
  simp only [Nat.zero_add] at hiff
  constructor
  · rintro ⟨hrecorded, -⟩
    exact hiff.mp hrecorded
  · intro hnone
    have hrecorded := hiff.mpr hnone
    refine ⟨hrecorded, ?_⟩
    have hrequests := execution_requests_le access 0 calls hrecorded
    have hrecords := execution_records_le access 0 calls (Nat.zero_le _)
    omega

/-- A store nobody listens at. -/
def refusingStore : Outside where
  v6 := stdV6 fun _ => ""
  lookup := unresolved
  usagePayload := fun _ => .ok "user-a/"
  deletePayload := fun _ => .ok "a.txt"
  client := .ok ()
  listUrl := fun _ _ _ => .ok "http://192.0.2.7/bucket?list-type=2"
  deleteUrl := fun _ _ _ => .ok "http://192.0.2.7/bucket/a.txt"
  send := fun _ _ => .failed "connection refused"
  presign := fun _ => .error (s3Signing "s3 sign_url requires a non-empty key")
  presignPost := fun _ => .error (s3Signing "s3 upload_form requires a non-empty key")

def oneOpAccess : S3Access := ⟨⟨"http://192.0.2.7", "bucket", true⟩, true, false, 1⟩

/-- Two deletes and a listing go out under a limit of one operation, and none
of them is recorded. -/
theorem failed_requests_unrecorded :
    requests (oneOpAccess.execution 0 [⟨refusingStore, "delete", ""⟩,
        ⟨refusingStore, "delete", ""⟩, ⟨refusingStore, "usage", ""⟩]).flatten = 3 ∧
      records (oneOpAccess.execution 0 [⟨refusingStore, "delete", ""⟩,
        ⟨refusingStore, "delete", ""⟩, ⟨refusingStore, "usage", ""⟩]).flatten = 0 ∧
      ¬ ((∀ trace ∈ oneOpAccess.execution 0 [⟨refusingStore, "delete", ""⟩,
          ⟨refusingStore, "delete", ""⟩, ⟨refusingStore, "usage", ""⟩], RecordedOnce trace) ∧
        requests (oneOpAccess.execution 0 [⟨refusingStore, "delete", ""⟩,
          ⟨refusingStore, "delete", ""⟩, ⟨refusingStore, "usage", ""⟩]).flatten ≤
            oneOpAccess.maxOps) := by
  have hthree : requests (oneOpAccess.execution 0 [⟨refusingStore, "delete", ""⟩,
      ⟨refusingStore, "delete", ""⟩, ⟨refusingStore, "usage", ""⟩]).flatten = 3 := by
    decide +kernel
  refine ⟨hthree, by decide +kernel, ?_⟩
  rintro ⟨-, hle⟩
  rw [hthree] at hle
  exact absurd hle (by decide)

end Runlet.S3
