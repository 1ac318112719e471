import Runlet.Lib.Text
import Runlet.Lib.Pipeline
import Runlet.Core.Capability
import Runlet.Core.S3

/-!
The operations of the `s3` capability that talk to the store (`do_usage`,
`fetch_list_page` and `do_delete` in `s3.rs`) behind the closure `inject_s3`
installs. Every request that goes out and every metric that is recorded stands
in the trace of a call. Payload decoding, URL signing, the client and the store
are parameters; the store may answer every request differently.
-/

namespace Runlet.S3

open Text Ssrf Errors Capability

inductive Op where
  | request (url : String)
  | record (action : String) (page : Option (Nat × Nat))
  deriving DecidableEq

def Op.isRequest : Op → Bool
  | .request _ => true
  | .record _ _ => false

def Op.isRecord : Op → Bool
  | .request _ => false
  | .record _ _ => true

/-- What becomes of a request that was sent. -/
inductive Sent where
  | failed (err : String)
  | answered (status : Nat) (body : Except String String)

structure ListTarget where
  scheme : String
  host : String
  keyPrefix : String

/-- The outside of one call. A listing URL is signed anew for every page and
the store is asked page by page. -/
structure Outside where
  v6 : V6Text
  lookup : Lookup
  usagePayload : String → Except String String
  deletePayload : String → Except String String
  client : Except String Unit
  listUrl : ListTarget → Nat → Option String → Except String String
  deleteUrl : String → String → String → Except String String
  send : Nat → String → Sent
  presign : String → Except DynamicFault Json
  presignPost : String → Except DynamicFault Json

/-- The captures of the closure. -/
structure S3Access where
  config : S3Config
  allowDelete : Bool
  allowPrivate : Bool
  maxOps : Nat

def s3Signing (message : String) : DynamicFault :=
  ⟨message, "S3_ERROR", false, .developer, "s3", none⟩

def s3Upstream (message : String) : DynamicFault :=
  ⟨message, "S3_UPSTREAM", true, .operator, "s3", none⟩

def s3UpstreamStatus (message : String) (status : Nat) : DynamicFault :=
  ⟨message, "S3_UPSTREAM", true, .operator, "s3",
    some (.obj [("http_status", .num (toString status))])⟩

def s3Forbidden (message : String) : DynamicFault :=
  ⟨message, "S3_FORBIDDEN", false, .operator, "s3", none⟩

def tooManyOperations (maxOps : Nat) : String :=
  "too many operations: limit is " ++ toString maxOps ++ " per execution"

def s3OpLimit (maxOps : Nat) : DynamicFault :=
  ⟨tooManyOperations maxOps, "S3_OP_LIMIT", false, .developer, "s3", none⟩

/-! ### One list page -/

def sumSegments : List String → Nat → Nat → Except String (Nat × Nat)
  | [], total, count => .ok (total, count)
  | segment :: rest, total, count =>
      let raw := trim ((splitStr "</Size>" segment).head?.getD "")
      match parseUnsigned 18446744073709551615 raw with
      | none => .error ("malformed S3 <Size> value: " ++ raw)
      | some value =>
          if total + value > 18446744073709551615 then .error "size sum overflow"
          else if count + 1 > 18446744073709551615 then .error "object count overflow"
          else sumSegments rest (total + value) (count + 1)

def sumSizes (xml : String) : Except String (Nat × Nat) :=
  sumSegments ((splitStr "<Size>" xml).drop 1) 0 0

def extractTag (xml opening closing : String) : Option String :=
  ((splitStr opening xml).drop 1).head?.map fun rest =>
    trim ((splitStr closing rest).head?.getD "")

def isSuccess (status : Nat) : Bool := 200 ≤ status && status < 300

def firstChars (count : Nat) (text : String) : String := String.ofList (text.toList.take count)

/-- The reading half of `fetch_list_page`. -/
def readListPage : Sent → Except String (Nat × Nat × Option String)
  | .failed err => .error ("s3 list request failed: " ++ err)
  | .answered _ (.error err) => .error ("s3 list read failed: " ++ err)
  | .answered status (.ok body) =>
      if !isSuccess status then
        .error ("s3 list returned HTTP " ++ toString status ++ ": " ++ firstChars 200 body)
      else
        match sumSizes body with
        | .error err => .error err
        | .ok (bytes, objects) =>
            .ok (bytes, objects,
              (extractTag body "<NextContinuationToken>" "</NextContinuationToken>").filter
                (· ≠ ""))

def fetchListPage (outside : Outside) (target : ListTarget) (page : Nat)
    (token : Option String) : Pipeline Op String (Nat × Nat × Option String) :=
  match outside.listUrl target page token with
  | .error err => ⟨[], .error err⟩
  | .ok url => ⟨[.request url], readListPage (outside.send page url)⟩

/-! ### Usage and delete -/

/-- The loop of `do_usage`; its first argument is the number of records up to
the limit, so that none left is the check that fails. -/
def usageLoop (outside : Outside) (target : ListTarget) (maxOps : Nat) :
    Nat → Nat → Option String → Nat → Nat → Pipeline Op DynamicFault (Nat × Nat)
  | 0, _, _, _, _ => ⟨[], .error (s3OpLimit maxOps)⟩
  | left + 1, page, token, bytes, objects =>
      let fetched := fetchListPage outside target page token
      match fetched.result with
      | .error err => ⟨fetched.trace, .error (s3Upstream err)⟩
      | .ok (pageBytes, pageObjects, next) =>
          let done := fetched.trace ++ [.record "usage" (some (pageBytes, pageObjects))]
          if bytes + pageBytes > 18446744073709551615 then
            ⟨done, .error (s3Signing "usage byte total overflow")⟩
          else if objects + pageObjects > 18446744073709551615 then
            ⟨done, .error (s3Signing "usage object total overflow")⟩
          else
            match next with
            | none => ⟨done, .ok (bytes + pageBytes, objects + pageObjects)⟩
            | some token =>
                let rest := usageLoop outside target maxOps left (page + 1) (some token)
                  (bytes + pageBytes) (objects + pageObjects)
                ⟨done ++ rest.trace, rest.result⟩

/-- What stands before the first page: the payload, the host and the client. -/
def usageTarget (access : S3Access) (outside : Outside) (payload : String) :
    Except DynamicFault ListTarget :=
  match outside.usagePayload payload with
  | .error err => .error (s3Signing ("invalid s3 payload: " ++ err))
  | .ok keyPrefix =>
      match resolveHost outside.v6 outside.lookup access.config access.allowPrivate with
      | .error err => .error (s3Signing err)
      | .ok (scheme, host) =>
          match outside.client with
          | .error err => .error (s3Signing ("failed to build s3 client: " ++ err))
          | .ok () => .ok ⟨scheme, host, keyPrefix⟩

def usageResponse (keyPrefix : String) (bytes objects : Nat) : Json :=
  .obj [("prefix", .str keyPrefix), ("bytes", .num (toString bytes)),
    ("objects", .num (toString objects))]

def doUsage (access : S3Access) (outside : Outside) (payload : String) (used : Nat) :
    Pipeline Op DynamicFault Json :=
  match usageTarget access outside payload with
  | .error fault => ⟨[], .error fault⟩
  | .ok target =>
      let pages := usageLoop outside target access.maxOps (access.maxOps - used) 0 none 0 0
      ⟨pages.trace, pages.result.map fun total =>
        usageResponse target.keyPrefix total.1 total.2⟩

/-- What stands before the request: the permission, the payload, the host, the
URL and the client. -/
def deleteTarget (access : S3Access) (outside : Outside) (payload : String) :
    Except DynamicFault (String × String) :=
  if !access.allowDelete then
    .error (s3Forbidden "s3 delete is disabled (set config.s3.allow_delete = true to enable)")
  else
    match outside.deletePayload payload with
    | .error err => .error (s3Signing ("invalid s3 payload: " ++ err))
    | .ok key =>
        if trim key = "" then .error (s3Signing "s3 delete requires a non-empty key")
        else
          match resolveHost outside.v6 outside.lookup access.config access.allowPrivate with
          | .error err => .error (s3Signing err)
          | .ok (scheme, host) =>
              match outside.deleteUrl scheme host key with
              | .error err => .error (s3Signing err)
              | .ok url =>
                  match outside.client with
                  | .error err => .error (s3Signing ("failed to build s3 client: " ++ err))
                  | .ok () => .ok (key, url)

/-- A request that fails is not recorded; one that is answered is. -/
def doDelete (access : S3Access) (outside : Outside) (payload : String) :
    Pipeline Op DynamicFault Json :=
  match deleteTarget access outside payload with
  | .error fault => ⟨[], .error fault⟩
  | .ok (key, url) =>
      match outside.send 0 url with
      | .failed err =>
          ⟨[.request url], .error (s3Upstream ("s3 delete request failed: " ++ err))⟩
      | .answered status body =>
          ⟨[.request url, .record "delete" none],
            if isSuccess status then
              .ok (.obj [("key", .str key), ("deleted", .bool true)])
            else
              match body with
              | .error err => .error (s3Upstream ("s3 delete read failed: " ++ err))
              | .ok text => .error (s3UpstreamStatus ("s3 delete returned HTTP " ++
                  toString status ++ ": " ++ firstChars 200 text) status)⟩

/-- One `s3` call, and the outside world at that moment. -/
structure S3Call where
  outside : Outside
  action : String
  payload : String

/-- The actions that only sign. -/
def presignDispatch (call : S3Call) : Except DynamicFault Json :=
  match call.action with
  | "presign" => call.outside.presign call.payload
  | "presign_post" => call.outside.presignPost call.payload
  | other => .error (s3Signing ("unknown s3 action: " ++ other))

/-- The closure of `inject_s3`, with the number of metrics recorded so far. -/
def S3Access.s3Call (access : S3Access) (call : S3Call) (used : Nat) :
    Pipeline Op DynamicFault Json :=
  if used ≥ access.maxOps then ⟨[], .error (s3OpLimit access.maxOps)⟩
  else if call.action = "usage" then doUsage access call.outside call.payload used
  else if call.action = "delete" then doDelete access call.outside call.payload
  else ⟨[.record call.action none], presignDispatch call⟩

/-! ### Requests against records -/

def requests (trace : List Op) : Nat := trace.countP Op.isRequest

def records (trace : List Op) : Nat := trace.countP Op.isRecord

@[simp] theorem requests_request (url : String) (rest : List Op) :
    requests (.request url :: rest) = requests rest + 1 :=
  List.countP_cons_of_pos rfl

@[simp] theorem requests_record (action : String) (page : Option (Nat × Nat)) (rest : List Op) :
    requests (.record action page :: rest) = requests rest := rfl

@[simp] theorem records_request (url : String) (rest : List Op) :
    records (.request url :: rest) = records rest := rfl

@[simp] theorem records_record (action : String) (page : Option (Nat × Nat)) (rest : List Op) :
    records (.record action page :: rest) = records rest + 1 :=
  List.countP_cons_of_pos rfl

/-- One of the first `left` pages the loop asks for is requested and cannot be
read. -/
def unreadPage (outside : Outside) (target : ListTarget) :
    Nat → Nat → Option String → Nat → Nat → Bool
  | 0, _, _, _, _ => false
  | left + 1, page, token, bytes, objects =>
      match outside.listUrl target page token with
      | .error _ => false
      | .ok url =>
          match readListPage (outside.send page url) with
          | .error _ => true
          | .ok (pageBytes, pageObjects, next) =>
              if bytes + pageBytes > 18446744073709551615 ∨
                  objects + pageObjects > 18446744073709551615 then false
              else
                match next with
                | none => false
                | some token => unreadPage outside target left (page + 1) (some token)
                    (bytes + pageBytes) (objects + pageObjects)

/-- The loop sends one request for every page it records, and one more for a
page it cannot read. -/
theorem usageLoop_counts (outside : Outside) (target : ListTarget)
    (maxOps left page : Nat) (token : Option String) (bytes objects : Nat) :
    requests (usageLoop outside target maxOps left page token bytes objects).trace =
      records (usageLoop outside target maxOps left page token bytes objects).trace +
        (unreadPage outside target left page token bytes objects).toNat ∧
    requests (usageLoop outside target maxOps left page token bytes objects).trace ≤ left := by
  induction left generalizing page token bytes objects with
  | zero => exact ⟨rfl, Nat.le_refl _⟩
  | succ left ih =>
      simp only [usageLoop, unreadPage, fetchListPage]
      cases outside.listUrl target page token with
      | error err => exact ⟨rfl, Nat.zero_le _⟩
      | ok url =>
          simp only
          cases readListPage (outside.send page url) with
          | error err => exact ⟨rfl, Nat.succ_le_succ (Nat.zero_le _)⟩
          | ok read =>
              obtain ⟨pageBytes, pageObjects, next⟩ := read
              simp only
              by_cases hbytes : bytes + pageBytes > 18446744073709551615
              · rw [if_pos hbytes, if_pos (Or.inl hbytes)]
                exact ⟨rfl, Nat.succ_le_succ (Nat.zero_le _)⟩
              rw [if_neg hbytes]
              by_cases hobjects : objects + pageObjects > 18446744073709551615
              · rw [if_pos hobjects, if_pos (Or.inr hobjects)]
                exact ⟨rfl, Nat.succ_le_succ (Nat.zero_le _)⟩
              rw [if_neg hobjects, if_neg (not_or.mpr ⟨hbytes, hobjects⟩)]
              cases next with
              | none => exact ⟨rfl, Nat.succ_le_succ (Nat.zero_le _)⟩
              | some token =>
                  obtain ⟨heq, hle⟩ := ih (page + 1) (some token) (bytes + pageBytes)
                    (objects + pageObjects)
                  simp only [List.cons_append, List.nil_append, requests_request,
                    requests_record, records_request, records_record]
                  omega

/-- The loop sends something exactly when it has room and a URL for its first
page. -/
theorem usageLoop_sends (outside : Outside) (target : ListTarget)
    (maxOps left page : Nat) (token : Option String) (bytes objects : Nat) :
    0 < requests (usageLoop outside target maxOps left page token bytes objects).trace ↔
      0 < left ∧ ∃ url, outside.listUrl target page token = .ok url := by
  cases left with
  | zero => simp [usageLoop, requests]
  | succ left =>
      simp only [usageLoop, fetchListPage]
      cases outside.listUrl target page token with
      | error err => simp [requests]
      | ok url =>
          simp only [Nat.succ_pos, true_and, Except.ok.injEq, exists_eq', iff_true]
          cases readListPage (outside.send page url) with
          | error err => exact Nat.succ_pos _
          | ok read =>
              obtain ⟨pageBytes, pageObjects, next⟩ := read
              simp only
              split
              · exact Nat.succ_pos _
              · split
                · exact Nat.succ_pos _
                · cases next with
                  | none => exact Nat.succ_pos _
                  | some token =>
                      simp only [List.cons_append, requests_request]
                      omega

/-- More room shows no fewer unreadable pages. -/
theorem unreadPage_mono (outside : Outside) (target : ListTarget) (left extra page : Nat)
    (token : Option String) (bytes objects : Nat)
    (h : unreadPage outside target left page token bytes objects = true) :
    unreadPage outside target (left + extra) page token bytes objects = true := by
  induction left generalizing page token bytes objects with
  | zero => cases h
  | succ left ih =>
      rw [Nat.succ_add]
      simp only [unreadPage] at h ⊢
      cases hurl : outside.listUrl target page token with
      | error err =>
          rw [hurl] at h
          cases h
      | ok url =>
          rw [hurl] at h
          simp only at h ⊢
          cases hread : readListPage (outside.send page url) with
          | error err => rfl
          | ok read =>
              obtain ⟨pageBytes, pageObjects, next⟩ := read
              rw [hread] at h
              simp only at h ⊢
              split at h
              · cases h
              · rename_i hfits
                rw [if_neg hfits]
                cases next with
                | none => cases h
                | some token => exact ih (page + 1) (some token) _ _ h

/-- A `usage` that gets to its first page or a `delete` that gets to its
request. -/
def S3Call.Sends (access : S3Access) (call : S3Call) : Prop :=
  (call.action = "usage" ∧ ∃ target, usageTarget access call.outside call.payload = .ok target ∧
    ∃ url, call.outside.listUrl target 0 none = .ok url) ∨
  (call.action = "delete" ∧ ∃ target, deleteTarget access call.outside call.payload = .ok target)

/-- A `usage` with an unreadable page among the first `maxOps` it asks for, or
a `delete` whose request fails. -/
def S3Call.Unrecorded (access : S3Access) (call : S3Call) : Prop :=
  (call.action = "usage" ∧ ∃ target, usageTarget access call.outside call.payload = .ok target ∧
    unreadPage call.outside target access.maxOps 0 none 0 0 = true) ∨
  (call.action = "delete" ∧ ∃ key url err,
    deleteTarget access call.outside call.payload = .ok (key, url) ∧
    call.outside.send 0 url = .failed err)

/-- Once the budget is used up a call does nothing. -/
theorem s3Call_full (access : S3Access) (call : S3Call) (used : Nat)
    (hfull : access.maxOps ≤ used) : (access.s3Call call used).trace = [] := by
  unfold S3Access.s3Call
  rw [if_pos hfull]

theorem doUsage_trace (access : S3Access) (outside : Outside) (payload : String) (used : Nat)
    (target : ListTarget) (htarget : usageTarget access outside payload = .ok target) :
    (doUsage access outside payload used).trace =
      (usageLoop outside target access.maxOps (access.maxOps - used) 0 none 0 0).trace := by
  simp only [doUsage, htarget]

/-- A call with budget left, in full: what it sends and what it records. -/
theorem s3Call_cases (access : S3Access) (call : S3Call) (used : Nat)
    (hfree : used < access.maxOps) :
    (call.action = "usage" ∧ ∃ target,
      usageTarget access call.outside call.payload = .ok target ∧
      (access.s3Call call used).trace =
        (usageLoop call.outside target access.maxOps (access.maxOps - used) 0 none 0 0).trace) ∨
    (call.action = "delete" ∧ ∃ key url,
      deleteTarget access call.outside call.payload = .ok (key, url) ∧
      (access.s3Call call used).trace =
        .request url :: match call.outside.send 0 url with
          | .failed _ => []
          | .answered _ _ => [.record "delete" none]) ∨
    (¬ call.Sends access ∧ ¬ call.Unrecorded access ∧
      ((access.s3Call call used).trace = [] ∨
        (call.action ≠ "usage" ∧ call.action ≠ "delete" ∧
          (access.s3Call call used).trace = [.record call.action none]))) := by
  have hnot : ¬ used ≥ access.maxOps := Nat.not_le.mpr hfree
  unfold S3Access.s3Call
  rw [if_neg hnot]
  by_cases husage : call.action = "usage"
  · rw [if_pos husage]
    cases htarget : usageTarget access call.outside call.payload with
    | ok target => exact .inl ⟨husage, target, rfl, doUsage_trace _ _ _ _ _ htarget⟩
    | error fault =>
        refine .inr (.inr ⟨?_, ?_, ?_⟩)
        · simp [S3Call.Sends, husage, htarget]
        · simp [S3Call.Unrecorded, husage, htarget]
        · simp [doUsage, htarget]
  rw [if_neg husage]
  by_cases hdelete : call.action = "delete"
  · rw [if_pos hdelete]
    cases htarget : deleteTarget access call.outside call.payload with
    | ok target =>
        obtain ⟨key, url⟩ := target
        refine .inr (.inl ⟨hdelete, key, url, rfl, ?_⟩)
        simp only [doDelete, htarget]
        cases call.outside.send 0 url with
        | failed err => rfl
        | answered status body => rfl
    | error fault =>
        refine .inr (.inr ⟨?_, ?_, ?_⟩)
        · simp [S3Call.Sends, hdelete, htarget]
        · simp [S3Call.Unrecorded, hdelete, htarget]
        · simp [doDelete, htarget]
  rw [if_neg hdelete]
  refine .inr (.inr ⟨?_, ?_, ?_⟩)
  · simp [S3Call.Sends, husage, hdelete]
  · simp [S3Call.Unrecorded, husage, hdelete]
  · exact .inr ⟨husage, hdelete, rfl⟩

/-- What a call with budget left does to the counter, against what it sends. -/
structure Accounted (access : S3Access) (call : S3Call) (used : Nat) : Prop where
  bounded : used + records (access.s3Call call used).trace ≤ access.maxOps
  sends : 0 < requests (access.s3Call call used).trace ↔ call.Sends access
  least : call.Sends access →
    records (access.s3Call call used).trace ≤ requests (access.s3Call call used).trace
  recorded : ¬ call.Unrecorded access →
    requests (access.s3Call call used).trace ≤ records (access.s3Call call used).trace

theorem s3Call_accounted (access : S3Access) (call : S3Call) (used : Nat)
    (hfree : used < access.maxOps) : Accounted access call used := by
  rcases s3Call_cases access call used hfree with
    ⟨haction, target, htarget, htrace⟩ | ⟨haction, key, url, htarget, htrace⟩ |
      ⟨hsends, hunrecorded, hquiet⟩
  · obtain ⟨heq, hle⟩ := usageLoop_counts call.outside target access.maxOps
      (access.maxOps - used) 0 none 0 0
    have hsends := usageLoop_sends call.outside target access.maxOps (access.maxOps - used)
      0 none 0 0
    rw [← htrace] at heq hle hsends
    refine ⟨by omega, ?_, fun _ => by omega, ?_⟩
    · have hleft : 0 < access.maxOps - used := by omega
      rw [hsends]
      simp [S3Call.Sends, haction, htarget, hleft]
    · intro hnot
      have hread : unreadPage call.outside target (access.maxOps - used) 0 none 0 0 = false := by
        rw [← Bool.not_eq_true]
        intro hunread
        apply hnot
        have hmono := unreadPage_mono call.outside target _ used 0 none 0 0 hunread
        rw [Nat.sub_add_cancel (Nat.le_of_lt hfree)] at hmono
        exact .inl ⟨haction, target, htarget, hmono⟩
      rw [hread] at heq
      exact Nat.le_of_eq heq
  · have hsends : call.Sends access := .inr ⟨haction, _, htarget⟩
    cases hsend : call.outside.send 0 url with
    | failed err =>
        rw [hsend] at htrace
        refine ⟨?_, ?_, fun _ => ?_, ?_⟩
        · rw [htrace]
          exact Nat.le_of_lt hfree
        · rw [htrace]
          exact ⟨fun _ => hsends, fun _ => Nat.succ_pos _⟩
        · rw [htrace]
          exact Nat.zero_le _
        · intro hnot
          exact absurd (.inr ⟨haction, key, url, err, htarget, hsend⟩) hnot
    | answered status body =>
        rw [hsend] at htrace
        refine ⟨?_, ?_, fun _ => ?_, fun _ => ?_⟩
        · rw [htrace]
          exact hfree
        · rw [htrace]
          exact ⟨fun _ => hsends, fun _ => Nat.succ_pos _⟩
        · rw [htrace]
          exact Nat.le_refl _
        · rw [htrace]
          exact Nat.le_refl _
  · have hcounts : requests (access.s3Call call used).trace = 0 ∧
        records (access.s3Call call used).trace ≤ 1 := by
      rcases hquiet with hnone | ⟨-, -, hone⟩
      · rw [hnone]
        exact ⟨rfl, Nat.zero_le _⟩
      · rw [hone]
        exact ⟨rfl, Nat.le_refl _⟩
    obtain ⟨hrequests, hrecords⟩ := hcounts
    refine ⟨by omega, ?_, fun h => absurd h hsends, fun _ => by omega⟩
    rw [hrequests]
    exact ⟨fun h => absurd h (Nat.lt_irrefl _), fun h => absurd h hsends⟩

/-- The first call of an execution that leaves a request out does so at once. -/
theorem s3Call_unrecorded (access : S3Access) (call : S3Call)
    (hunrecorded : call.Unrecorded access) (hmax : 0 < access.maxOps) :
    call.Sends access ∧
      records (access.s3Call call 0).trace < requests (access.s3Call call 0).trace := by
  have haccounted := s3Call_accounted access call 0 hmax
  rcases s3Call_cases access call 0 hmax with
    ⟨haction, target, htarget, htrace⟩ | ⟨haction, key, url, htarget, htrace⟩ |
      ⟨_, hnot, _⟩
  · rcases hunrecorded with ⟨_, other, hother, hunread⟩ | ⟨hdelete, _⟩
    · rw [htarget] at hother
      cases hother
      have heq := (usageLoop_counts call.outside target access.maxOps access.maxOps
        0 none 0 0).1
      rw [Nat.sub_zero] at htrace
      rw [← htrace, hunread] at heq
      have hlt : records (access.s3Call call 0).trace <
          requests (access.s3Call call 0).trace := by
        rw [heq]
        exact Nat.lt_succ_self _
      exact ⟨haccounted.sends.mp (by omega), hlt⟩
    · rw [haction] at hdelete
      exact absurd hdelete (by decide)
  · rcases hunrecorded with ⟨husage, _⟩ | ⟨_, key', url', err, hother, hsend⟩
    · rw [haction] at husage
      exact absurd husage (by decide)
    · rw [htarget] at hother
      cases hother
      rw [hsend] at htrace
      rw [htrace]
      exact ⟨.inr ⟨haction, _, htarget⟩, Nat.succ_pos _⟩
  · exact absurd hunrecorded hnot

end Runlet.S3
