import Runlet.Server.Broker
import Runlet.Wire.Frames

/-!
Requests and replies of a broker session stay paired as long as no call is
abandoned in the stream. Frames carry no correlation id, so the pairing rests
on alternation: when an operation starts, everything sent before has been
answered and read.
-/

namespace Runlet.Broker

open Capability Egress Framing Transition Wire

variable {Metrics : Type}

/-! ### Alignment -/

/-- Nothing in either stream, and every request sent is answered. -/
structure Quiet (s : Session Metrics) : Prop where
  outbound : s.outbound = []
  served : s.served = s.sent
  answered : s.answered = s.sent.length
  inbound : s.inbound = []

/-- How far the daemon is with the one request under way; `replied` are the
bytes of its answer, read or not. -/
inductive Pending (peer : Peer Metrics) (before : List WireRequest) (request : WireRequest)
    (s : Session Metrics) (replied : Bytes) : Prop where
  | written (bytes : Bytes) (hencode : peer.encodeRequest request = .ok bytes)
      (hfits : bytes.length ≤ maxFrameBytes) (houtbound : s.outbound = frame bytes)
      (hserved : s.served = before) (hanswered : s.answered = before.length)
      (hreplied : replied = [])
  | served (houtbound : s.outbound = []) (hserved : s.served = before ++ [request])
      (hanswered : s.answered = before.length) (hreplied : replied = [])
  | answered (houtbound : s.outbound = []) (hserved : s.served = before ++ [request])
      (hanswered : s.answered = before.length + 1)
      (hreplied : replied = frame (peer.encodeResponse (peer.answer before request)))

/-- The streams hold exactly what the round-trip in progress put there. -/
def InStep (peer : Peer Metrics) (s : Session Metrics) : Prop :=
  match s.phase with
  | .idle => Quiet s
  | .writing operation before written remaining =>
      before = s.sent ∧ remaining ≠ [] ∧ s.outbound = written ∧ s.served = s.sent ∧
      s.answered = s.sent.length ∧ s.inbound = [] ∧
      ∃ bytes, peer.encodeRequest operation.request = .ok bytes ∧
        bytes.length ≤ maxFrameBytes ∧ written ++ remaining = frame bytes
  | .reading operation before got =>
      s.sent = before ++ [operation.request] ∧
      Pending peer before operation.request s (got ++ s.inbound) ∧
      (got ≠ [] → s.inbound ≠ [])

/-- A logged answer is the daemon's answer to the logged request, and a drain
has been answered. -/
structure Answered (peer : Peer Metrics) (entry : Entry Metrics) : Prop where
  own : ∀ response, entry.outcome = .answered response →
    response = peer.answer entry.before entry.operation.request
  drained : entry.operation = .drain → ∃ response, entry.outcome = .answered response

structure Aligned (peer : Peer Metrics) (s : Session Metrics) : Prop where
  log : ∀ entry ∈ s.log, Answered peer entry
  streams : s.abandoned = true ∧ s.phase = .idle ∨ s.abandoned = false ∧ InStep peer s

/-- An operation starts only while no call has been abandoned. -/
def StartsAligned (s : Session Metrics) : Action → Prop
  | .start _ => s.abandoned = false
  | _ => True

theorem aligned_initial (peer : Peer Metrics) : Aligned peer Session.initial := by
  refine ⟨?_, .inr ⟨rfl, ⟨rfl, rfl, rfl, rfl⟩⟩⟩
  intro entry hentry
  cases hentry

theorem writeFrame_ok (peer : Peer Metrics) (request : WireRequest) (bytes : Bytes)
    (h : writeFrame peer request = .ok bytes) :
    ∃ body, peer.encodeRequest request = .ok body ∧ body.length ≤ maxFrameBytes ∧
      bytes = frame body := by
  unfold writeFrame at h
  cases hencode : peer.encodeRequest request with
  | error err => simp [hencode] at h
  | ok body =>
      simp only [hencode] at h
      split at h
      · cases h
      · split at h
        · cases h
        · cases h
          exact ⟨body, rfl, by omega, rfl⟩

theorem drain_written (peer : Peer Metrics) (hlawful : peer.Lawful) (err : String) :
    writeFrame peer .drain ≠ .error err := by
  intro h
  obtain ⟨bytes, hencode, hfits⟩ := hlawful.drainSent
  have hsmall : ¬ bytes.length > 4294967295 := by
    unfold maxFrameBytes at hfits
    omega
  simp [writeFrame, hencode, hsmall, Nat.not_lt.mpr hfits] at h

theorem log_append (peer : Peer Metrics) (log : List (Entry Metrics)) (entry : Entry Metrics)
    (hlog : ∀ entry ∈ log, Answered peer entry) (hentry : Answered peer entry) :
    ∀ other ∈ log ++ [entry], Answered peer other := by
  intro other hother
  rcases List.mem_append.mp hother with hold | hnew
  · exact hlog other hold
  · rw [List.mem_singleton.mp hnew]
    exact hentry

theorem answered_elapsed (peer : Peer Metrics) (call : WireCall)
    (before : List WireRequest) :
    Answered peer ⟨.call call, before, .elapsed⟩ := by
  refine ⟨?_, ?_⟩
  · intro response h
    cases h
  · intro h
    cases h

theorem start_aligned (peer : Peer Metrics) (hlawful : peer.Lawful) (deadline : Nat)
    (s next : Session Metrics) (operation : Operation) (haligned : Aligned peer s)
    (hguard : s.abandoned = false)
    (h : step peer deadline s (.start operation) = some next) : Aligned peer next := by
  obtain ⟨hlog, hstreams⟩ := haligned
  have hin : InStep peer s := by
    rcases hstreams with ⟨habandoned, -⟩ | ⟨-, hin⟩
    · simp [hguard] at habandoned
    · exact hin
  simp only [step] at h
  cases hphase : s.phase with
  | writing operation' before written remaining => simp [hphase] at h
  | reading operation' before got => simp [hphase] at h
  | idle =>
      simp only [InStep, hphase] at hin
      simp only [hphase] at h
      cases hframe : writeFrame peer operation.request with
      | error err =>
          simp only [hframe] at h
          cases h
          refine ⟨log_append peer s.log _ hlog ⟨?_, ?_⟩, .inr ⟨hguard, ?_⟩⟩
          · intro response hresponse
            cases hresponse
          · intro hdrain
            simp only at hdrain
            subst hdrain
            exact (drain_written peer hlawful err hframe).elim
          · exact ⟨hin.outbound, hin.served, hin.answered, hin.inbound⟩
      | ok bytes =>
          simp only [hframe] at h
          cases h
          obtain ⟨body, hencode, hfits, rfl⟩ :=
            writeFrame_ok peer operation.request bytes hframe
          refine ⟨hlog, .inr ⟨hguard, rfl, ?_, hin.outbound, hin.served, hin.answered,
            hin.inbound, body, hencode, hfits, rfl⟩⟩
          simp [frame, header]

theorem write_aligned (peer : Peer Metrics) (deadline : Nat) (s next : Session Metrics)
    (count : Nat) (haligned : Aligned peer s)
    (h : step peer deadline s (.write count) = some next) : Aligned peer next := by
  obtain ⟨hlog, hstreams⟩ := haligned
  simp only [step] at h
  cases hphase : s.phase with
  | idle => simp [hphase] at h
  | reading operation before got => simp [hphase] at h
  | writing operation before written remaining =>
      rcases hstreams with ⟨-, hidle⟩ | ⟨hkept, hin⟩
      · simp [hphase] at hidle
      · simp only [InStep, hphase] at hin
        obtain ⟨hbefore, hnonempty, houtbound, hserved, hanswered, hinbound, body,
          hencode, hfits, hsplit⟩ := hin
        simp only [hphase] at h
        split at h
        · rename_i hcount
          cases h
          refine ⟨hlog, .inr ⟨hkept, hbefore, ?_, ?_, hserved, hanswered, hinbound, body,
            hencode, hfits, ?_⟩⟩
          · intro hnil
            have := congrArg List.length hnil
            simp at this
            omega
          · simp [houtbound]
          · rw [List.append_assoc, List.take_append_drop, hsplit]
        · split at h
          · cases h
            refine ⟨hlog, .inr ⟨hkept, ?_, ?_, fun hne => (hne rfl).elim⟩⟩
            · simp [hbefore]
            · refine .written body hencode hfits ?_ ?_ ?_ ?_
              · simp [houtbound, hsplit]
              · simp [hserved, hbefore]
              · simp [hanswered, hbefore]
              · simp [hinbound]
          · cases h

theorem maxFrameBytes_lt : maxFrameBytes < 4294967296 := by decide

/-- Bytes can only be read once the daemon has answered. -/
theorem Pending.of_inbound {peer : Peer Metrics} {before : List WireRequest}
    {request : WireRequest} {s : Session Metrics} {got : Bytes}
    (h : Pending peer before request s (got ++ s.inbound)) (hinbound : s.inbound ≠ []) :
    s.outbound = [] ∧ s.served = before ++ [request] ∧
    s.answered = before.length + 1 ∧
    got ++ s.inbound = frame (peer.encodeResponse (peer.answer before request)) := by
  cases h with
  | written bytes hencode hfits houtbound hserved hanswered hreplied =>
      exact (hinbound (List.append_eq_nil_iff.mp hreplied).2).elim
  | served houtbound hserved hanswered hreplied =>
      exact (hinbound (List.append_eq_nil_iff.mp hreplied).2).elim
  | answered houtbound hserved hanswered hreplied =>
      exact ⟨houtbound, hserved, hanswered, hreplied⟩

/-- The whole answer ends the round-trip with it. -/
theorem receive_whole (peer : Peer Metrics) (hlawful : peer.Lawful) (s : Session Metrics)
    (operation : Operation) (before : List WireRequest) :
    Session.receive peer s operation before
        (frame (peer.encodeResponse (peer.answer before operation.request))) =
      s.finish operation before (.answered (peer.answer before operation.request)) := by
  have hcomplete := progress_frame maxFrameBytes _ []
    (hlawful.fits before operation.request) maxFrameBytes_lt
  rw [List.append_nil] at hcomplete
  simp only [Session.receive, hcomplete, hlawful.responses before operation.request]

/-- Part of the answer keeps the box reading. -/
theorem receive_part (peer : Peer Metrics) (hlawful : peer.Lawful) (s : Session Metrics)
    (operation : Operation) (before : List WireRequest) (got rest : Bytes)
    (hsplit : got ++ rest =
      frame (peer.encodeResponse (peer.answer before operation.request)))
    (hrest : rest ≠ []) :
    Session.receive peer s operation before got =
      { s with phase := .reading operation before got } := by
  obtain ⟨more, hmore, -⟩ := progress_prefix maxFrameBytes _ got rest
    (hlawful.fits before operation.request) maxFrameBytes_lt hsplit hrest
  simp only [Session.receive, hmore]

theorem read_aligned (peer : Peer Metrics) (hlawful : peer.Lawful) (deadline : Nat)
    (s next : Session Metrics) (count : Nat) (haligned : Aligned peer s)
    (h : step peer deadline s (.read count) = some next) : Aligned peer next := by
  obtain ⟨hlog, hstreams⟩ := haligned
  simp only [step] at h
  cases hphase : s.phase with
  | idle => simp [hphase] at h
  | writing operation before written remaining => simp [hphase] at h
  | reading operation before got =>
      rcases hstreams with ⟨-, hidle⟩ | ⟨hkept, hin⟩
      · simp [hphase] at hidle
      · simp only [InStep, hphase] at hin
        obtain ⟨hsent, hpending, -⟩ := hin
        simp only [hphase] at h
        split at h
        · split at h
          · rename_i wanted hwanted hcount
            cases h
            have hinbound : s.inbound ≠ [] := by
              intro hnil
              simp [hnil] at hcount
              omega
            obtain ⟨houtbound, hserved, hanswered, hreplied⟩ :=
              hpending.of_inbound hinbound
            -- The bytes read and the bytes left are still the whole answer.
            have hsplit : (got ++ s.inbound.take count) ++ s.inbound.drop count =
                frame (peer.encodeResponse (peer.answer before operation.request)) := by
              rw [List.append_assoc, List.take_append_drop, hreplied]
            by_cases hrest : s.inbound.drop count = []
            · rw [hrest, List.append_nil] at hsplit
              rw [hsplit, receive_whole peer hlawful]
              refine ⟨log_append peer s.log _ hlog ⟨?_, ?_⟩, .inr ⟨hkept, ?_⟩⟩
              · intro response hresponse
                cases hresponse
                rfl
              · intro _
                exact ⟨_, rfl⟩
              · exact ⟨houtbound, hserved.trans hsent.symm,
                  by simp [Session.finish, hanswered, hsent], hrest⟩
            · rw [receive_part peer hlawful _ operation before _ _ hsplit hrest]
              refine ⟨hlog, .inr ⟨hkept, hsent, ?_, fun _ => hrest⟩⟩
              exact .answered houtbound hserved hanswered hsplit
          · cases h
        · cases h

theorem timeout_aligned (peer : Peer Metrics) (deadline : Nat) (s next : Session Metrics)
    (haligned : Aligned peer s) (h : step peer deadline s .timeout = some next) :
    Aligned peer next := by
  obtain ⟨hlog, hstreams⟩ := haligned
  simp only [step, Session.cut] at h
  split at h
  · rename_i call before written remaining hphase
    split at h
    · cases h
      refine ⟨log_append peer s.log _ hlog (answered_elapsed peer call before), ?_⟩
      rcases hstreams with ⟨-, hidle⟩ | ⟨hkept, hin⟩
      · simp [hphase] at hidle
      · simp only [InStep, hphase] at hin
        obtain ⟨-, -, houtbound, hserved, hanswered, hinbound, -⟩ := hin
        cases written with
        | nil => exact .inr ⟨by simp [hkept], houtbound, hserved, hanswered, hinbound⟩
        | cons byte rest => exact .inl ⟨by simp, rfl⟩
    · cases h
  · rename_i call before got hphase
    split at h
    · cases h
      exact ⟨log_append peer s.log _ hlog (answered_elapsed peer call before),
        .inl ⟨rfl, rfl⟩⟩
    · cases h
  · cases h

theorem serve_aligned (peer : Peer Metrics) (hlawful : peer.Lawful) (deadline : Nat)
    (s next : Session Metrics) (haligned : Aligned peer s)
    (h : step peer deadline s .serve = some next) : Aligned peer next := by
  obtain ⟨hlog, hstreams⟩ := haligned
  simp only [step] at h
  split at h
  · rename_i body rest hframe
    obtain ⟨request, hdecode, rfl⟩ := Option.map_eq_some_iff.mp h
    refine ⟨hlog, ?_⟩
    rcases hstreams with hgone | ⟨hkept, hin⟩
    · exact .inl hgone
    · refine .inr ⟨hkept, ?_⟩
      unfold InStep at hin ⊢
      cases hphase : s.phase with
      | idle =>
          simp only [hphase] at hin
          simp [hin.outbound] at hframe
      | writing operation before written remaining =>
          simp only [hphase] at hin
          obtain ⟨-, hnonempty, houtbound, -, -, -, bytes, -, hfits, hsplit⟩ := hin
          rw [houtbound, takeFrame_prefix maxFrameBytes bytes written remaining hfits
            maxFrameBytes_lt hsplit hnonempty] at hframe
          cases hframe
      | reading operation before got =>
          simp only [hphase] at hin
          obtain ⟨hsent, hpending, hopen⟩ := hin
          refine ⟨hsent, ?_, hopen⟩
          cases hpending with
          | written bytes hencode hfits houtbound hserved hanswered hreplied =>
              have hwhole := takeFrame_frame maxFrameBytes bytes [] hfits maxFrameBytes_lt
              rw [List.append_nil, ← houtbound, hframe] at hwhole
              cases hwhole
              have hsame := hlawful.requests operation.request body hencode
              rw [hdecode] at hsame
              cases hsame
              exact .served rfl (by simp [hserved]) hanswered hreplied
          | served houtbound hserved hanswered hreplied => simp [houtbound] at hframe
          | answered houtbound hserved hanswered hreplied => simp [houtbound] at hframe
  · cases h

theorem reply_aligned (peer : Peer Metrics) (deadline : Nat) (s next : Session Metrics)
    (haligned : Aligned peer s) (h : step peer deadline s .reply = some next) :
    Aligned peer next := by
  obtain ⟨hlog, hstreams⟩ := haligned
  simp only [step] at h
  obtain ⟨request, hnext, rfl⟩ := Option.map_eq_some_iff.mp h
  have hunanswered := (List.getElem?_eq_some_iff.mp hnext).1
  refine ⟨hlog, ?_⟩
  rcases hstreams with hgone | ⟨hkept, hin⟩
  · exact .inl hgone
  · refine .inr ⟨hkept, ?_⟩
    unfold InStep at hin ⊢
    cases hphase : s.phase with
    | idle =>
        simp only [hphase] at hin
        have := hin.answered
        rw [hin.served] at hunanswered
        omega
    | writing operation before written remaining =>
        simp only [hphase] at hin
        obtain ⟨-, -, -, hserved, hanswered, -⟩ := hin
        rw [hserved] at hunanswered
        omega
    | reading operation before got =>
        simp only [hphase] at hin
        obtain ⟨hsent, hpending, hopen⟩ := hin
        cases hpending with
        | written bytes hencode hfits houtbound hserved hanswered hreplied =>
            rw [hserved] at hunanswered
            omega
        | served houtbound hserved hanswered hreplied =>
            have hempty := List.append_eq_nil_iff.mp hreplied
            have hrequest : operation.request = request := by
              simpa [hserved, hanswered] using hnext
            have htake : s.served.take s.answered = before := by
              simp [hserved, hanswered]
            refine ⟨hsent, .answered houtbound hserved (by simp [hanswered]) ?_, ?_⟩
            · simp [hempty.1, hempty.2, htake, hrequest]
            · intro hgot
              exact (hgot hempty.1).elim
        | answered houtbound hserved hanswered hreplied =>
            have := congrArg List.length hserved
            simp at this
            omega

theorem step_aligned (peer : Peer Metrics) (hlawful : peer.Lawful) (deadline : Nat)
    (s next : Session Metrics) (action : Action) (haligned : Aligned peer s)
    (hguard : StartsAligned s action)
    (h : step peer deadline s action = some next) : Aligned peer next := by
  cases action with
  | start operation =>
      exact start_aligned peer hlawful deadline s next operation haligned hguard h
  | write count => exact write_aligned peer deadline s next count haligned h
  | read count => exact read_aligned peer hlawful deadline s next count haligned h
  | timeout => exact timeout_aligned peer deadline s next haligned h
  | serve => exact serve_aligned peer hlawful deadline s next haligned h
  | reply => exact reply_aligned peer deadline s next haligned h
  | tick =>
      cases h
      refine ⟨haligned.log, ?_⟩
      rcases haligned.streams with hgone | ⟨hkept, hin⟩
      · exact .inl hgone
      · refine .inr ⟨hkept, ?_⟩
        unfold InStep at hin ⊢
        cases hphase : s.phase with
        | idle =>
            simp only [hphase] at hin
            exact ⟨hin.outbound, hin.served, hin.answered, hin.inbound⟩
        | writing operation before written remaining =>
            simp only [hphase] at hin
            exact hin
        | reading operation before got =>
            simp only [hphase] at hin
            obtain ⟨hsent, hpending, hopen⟩ := hin
            refine ⟨hsent, ?_, hopen⟩
            cases hpending with
            | written bytes hencode hfits houtbound hserved hanswered hreplied =>
                exact .written bytes hencode hfits houtbound hserved hanswered hreplied
            | served houtbound hserved hanswered hreplied =>
                exact .served houtbound hserved hanswered hreplied
            | answered houtbound hserved hanswered hreplied =>
                exact .answered houtbound hserved hanswered hreplied

theorem run_aligned (peer : Peer Metrics) (hlawful : peer.Lawful) (deadline : Nat)
    (s : Session Metrics) (actions : List Action)
    (hguard : Guarded (step peer deadline) StartsAligned Session.initial actions)
    (hrun : run (step peer deadline) Session.initial actions = some s) :
    Aligned peer s :=
  run_invariant (step peer deadline) StartsAligned (Aligned peer)
    (fun s action next haligned hstarts hstep =>
      step_aligned peer hlawful deadline s next action haligned hstarts hstep)
    Session.initial s actions (aligned_initial peer) hguard hrun

/-! ### What a session returns -/

/-- Once the answer is in the stream, reading on completes the round-trip with
it, however the bytes come in. -/
theorem reads_complete (peer : Peer Metrics) (hlawful : peer.Lawful) (deadline size : Nat)
    (s : Session Metrics) (operation : Operation) (before : List WireRequest) (got : Bytes)
    (hphase : s.phase = .reading operation before got)
    (hreplied : got ++ s.inbound =
      frame (peer.encodeResponse (peer.answer before operation.request)))
    (hinbound : s.inbound ≠ []) (hsize : s.inbound.length ≤ size) :
    ∃ (counts : List Nat) (next : Session Metrics),
      run (step peer deadline) s (counts.map Action.read) = some next ∧
      next.phase = .idle ∧ next.log = s.log ++
        [⟨operation, before, .answered (peer.answer before operation.request)⟩] := by
  induction size generalizing s got with
  | zero => exact (hinbound (List.length_eq_zero_iff.mp (by omega))).elim
  | succ size ih =>
      have hfits := hlawful.fits before operation.request
      obtain ⟨wanted, hwanted, hpos, hle⟩ := progress_prefix maxFrameBytes _ got s.inbound
        hfits maxFrameBytes_lt hreplied hinbound
      have hstep : step peer deadline s (.read wanted) =
          some (Session.receive peer { s with inbound := s.inbound.drop wanted }
            operation before (got ++ s.inbound.take wanted)) := by
        simp [step, hphase, hwanted, hpos, hle]
      have hsplit : (got ++ s.inbound.take wanted) ++ s.inbound.drop wanted =
          frame (peer.encodeResponse (peer.answer before operation.request)) := by
        rw [List.append_assoc, List.take_append_drop, hreplied]
      by_cases hrest : s.inbound.drop wanted = []
      · rw [hrest, List.append_nil] at hsplit
        rw [hsplit, receive_whole peer hlawful] at hstep
        exact ⟨[wanted], _, (run_cons_eq_some _ _ _ _ _).mpr ⟨_, hstep, rfl⟩, rfl, rfl⟩
      · rw [receive_part peer hlawful _ operation before _ _ hsplit hrest] at hstep
        obtain ⟨counts, next, hrun, hidle, hlog⟩ := ih
          { s with
            phase := .reading operation before (got ++ s.inbound.take wanted)
            inbound := s.inbound.drop wanted }
          (got ++ s.inbound.take wanted) rfl hsplit hrest
          (by simp only [List.length_drop]; omega)
        exact ⟨wanted :: counts, next, (run_cons_eq_some _ _ _ _ _).mpr ⟨_, hstep, hrun⟩,
          hidle, hlog⟩

/-- In every session whose operations all start before any call has been
abandoned in the stream: a call returns the daemon's reply to its own request,
a drain returns the daemon's metrics, and it does so as soon as the daemon has
answered. -/
theorem session_replies (peer : Peer Metrics) (hlawful : peer.Lawful) (deadline : Nat)
    (actions : List Action) (s : Session Metrics)
    (hguard : Guarded (step peer deadline) StartsAligned Session.initial actions)
    (hrun : run (step peer deadline) Session.initial actions = some s) :
    (∀ entry ∈ s.log, ∀ call result, entry.operation = .call call →
      entry.outcome = .answered (.reply result) →
        peer.answer entry.before (.call call) = .reply result) ∧
    (∀ entry ∈ s.log, entry.operation = .drain →
      ∃ metrics, peer.answer entry.before .drain = .metrics metrics ∧
        entry.returned peer = .drained metrics) ∧
    (∀ before got, s.phase = .reading .drain before got → s.answered = s.sent.length →
      ∃ (metrics : Metrics) (counts : List Nat) (next : Session Metrics)
        (entry : Entry Metrics),
        peer.answer before .drain = .metrics metrics ∧
        run (step peer deadline) s (counts.map Action.read) = some next ∧
        next.phase = .idle ∧ next.log = s.log ++ [entry] ∧
        entry.returned peer = .drained metrics) := by
  have haligned := run_aligned peer hlawful deadline s actions hguard hrun
  refine ⟨?_, ?_, ?_⟩
  · intro entry hentry call result hcall houtcome
    have hown := (haligned.log entry hentry).own _ houtcome
    rw [hown, hcall]
    rfl
  · intro entry hentry hdrain
    obtain ⟨response, houtcome⟩ := (haligned.log entry hentry).drained hdrain
    obtain ⟨metrics, hmetrics⟩ := hlawful.drainAnswer entry.before
    have hown := (haligned.log entry hentry).own response houtcome
    rw [hdrain] at hown
    have hresponse : response = .metrics metrics := hown.trans hmetrics
    refine ⟨metrics, hmetrics, ?_⟩
    simp [Entry.returned, hdrain, houtcome, hresponse, drainMetrics]
  · intro before got hphase hanswered
    obtain ⟨metrics, hmetrics⟩ := hlawful.drainAnswer before
    have hin : InStep peer s := by
      rcases haligned.streams with ⟨-, hidle⟩ | ⟨-, hin⟩
      · simp [hphase] at hidle
      · exact hin
    simp only [InStep, hphase] at hin
    obtain ⟨hsent, hpending, hopen⟩ := hin
    have hcount : s.answered = before.length + 1 := by simp [hanswered, hsent]
    have hreplied : got ++ s.inbound =
        frame (peer.encodeResponse (peer.answer before Operation.drain.request)) := by
      cases hpending with
      | written bytes hencode hfits houtbound hserved hbehind hreplied => omega
      | served houtbound hserved hbehind hreplied => omega
      | answered houtbound hserved hcaught hreplied => exact hreplied
    have hinbound : s.inbound ≠ [] := by
      intro hnil
      by_cases hgot : got = []
      · rw [hgot, hnil] at hreplied
        have := congrArg List.length hreplied
        simp only [List.append_nil, List.length_nil, frame_length] at this
        omega
      · exact hopen hgot hnil
    obtain ⟨counts, next, hreads, hidle, hlog⟩ := reads_complete peer hlawful deadline
      s.inbound.length s .drain before got hphase hreplied hinbound le_rfl
    refine ⟨metrics, counts, next, _, hmetrics, hreads, hidle, hlog, ?_⟩
    simp [Entry.returned, Operation.request, hmetrics, drainMetrics]

section Sample

-- The sample frames are lists of up to 166 bytes.
set_option maxRecDepth 8000

def ordersCall : WireCall := ⟨"orders", "query", "1"⟩

def stockCall : WireCall := ⟨"stock", "query", "1"⟩

/-- `{"Call":{"name":"orders","action":"query","payload":"1"}}` -/
def ordersJson : Bytes :=
  [123, 34, 67, 97, 108, 108, 34, 58, 123, 34, 110, 97, 109, 101, 34, 58, 34, 111, 114,
  100, 101, 114, 115, 34, 44, 34, 97, 99, 116, 105, 111, 110, 34, 58, 34, 113, 117, 101,
  114, 121, 34, 44, 34, 112, 97, 121, 108, 111, 97, 100, 34, 58, 34, 49, 34, 125, 125]

/-- `{"Call":{"name":"stock","action":"query","payload":"1"}}` -/
def stockJson : Bytes :=
  [123, 34, 67, 97, 108, 108, 34, 58, 123, 34, 110, 97, 109, 101, 34, 58, 34, 115, 116,
  111, 99, 107, 34, 44, 34, 97, 99, 116, 105, 111, 110, 34, 58, 34, 113, 117, 101, 114,
  121, 34, 44, 34, 112, 97, 121, 108, 111, 97, 100, 34, 58, 34, 49, 34, 125, 125]

/-- `"Drain"` -/
def drainJson : Bytes :=
  [34, 68, 114, 97, 105, 110, 34]

/-- `{"Reply":{"Ok":"100"}}` -/
def hundredJson : Bytes :=
  [123, 34, 82, 101, 112, 108, 121, 34, 58, 123, 34, 79, 107, 34, 58, 34, 49, 48, 48, 34,
  125, 125]

/-- `{"Reply":{"Ok":"7"}}` -/
def sevenJson : Bytes :=
  [123, 34, 82, 101, 112, 108, 121, 34, 58, 123, 34, 79, 107, 34, 58, 34, 55, 34, 125,
  125]

/-- `"Ack"` -/
def ackJson : Bytes :=
  [34, 65, 99, 107, 34]

/-- `{"Metrics":{"db":[{"action":"query","duration_us":900,"rows_returned":1,"rows_affected":0,"truncated":false}],"mongo":[],"mail":[],"redis":[],"amq":[],"auth":[]}}` -/
def metricsJson : Bytes :=
  [123, 34, 77, 101, 116, 114, 105, 99, 115, 34, 58, 123, 34, 100, 98, 34, 58, 91, 123,
  34, 97, 99, 116, 105, 111, 110, 34, 58, 34, 113, 117, 101, 114, 121, 34, 44, 34, 100,
  117, 114, 97, 116, 105, 111, 110, 95, 117, 115, 34, 58, 57, 48, 48, 44, 34, 114, 111,
  119, 115, 95, 114, 101, 116, 117, 114, 110, 101, 100, 34, 58, 49, 44, 34, 114, 111,
  119, 115, 95, 97, 102, 102, 101, 99, 116, 101, 100, 34, 58, 48, 44, 34, 116, 114, 117,
  110, 99, 97, 116, 101, 100, 34, 58, 102, 97, 108, 115, 101, 125, 93, 44, 34, 109, 111,
  110, 103, 111, 34, 58, 91, 93, 44, 34, 109, 97, 105, 108, 34, 58, 91, 93, 44, 34, 114,
  101, 100, 105, 115, 34, 58, 91, 93, 44, 34, 97, 109, 113, 34, 58, 91, 93, 44, 34, 97,
  117, 116, 104, 34, 58, 91, 93, 125, 125]

example : ordersJson = "\x7b\"Call\":\x7b\"name\":\"orders\",\"action\":\"query\",\"payload\":\"1\"\x7d\x7d".toList.map
    fun c => UInt8.ofNat c.toNat := by decide +kernel

def sampleRequests : List (WireRequest × Bytes) :=
  [(.call ordersCall, ordersJson), (.call stockCall, stockJson), (.drain, drainJson)]

/-- The metrics of the sample are the durations of its `db` queries. -/
def sampleAnswer (_ : List WireRequest) : WireRequest → WireResponse (List Nat)
  | .init _ => .ack
  | .call call => if call.name = "orders" then .reply (.ok "100") else .reply (.ok "7")
  | .drain => .metrics [900]

/-- Knows the messages above. -/
def samplePeer : Peer (List Nat) where
  encodeRequest := fun request =>
    match sampleRequests.find? (fun entry => entry.1 = request) with
    | some entry => .ok entry.2
    | none => .error "not in the sample"
  decodeRequest := fun bytes =>
    (sampleRequests.find? fun entry => entry.2 = bytes).map Prod.fst
  encodeResponse := fun response =>
    match response with
    | .reply (.ok "100") => hundredJson
    | .reply (.ok _) => sevenJson
    | .metrics _ => metricsJson
    | _ => ackJson
  decodeResponse := fun bytes =>
    if bytes = hundredJson then .ok (.reply (.ok "100"))
    else if bytes = sevenJson then .ok (.reply (.ok "7"))
    else if bytes = metricsJson then .ok (.metrics [900])
    else if bytes = ackJson then .ok .ack
    else .error "expected value"
  answer := sampleAnswer
  defaultMetrics := []

theorem sampleAnswer_cases (history : List WireRequest) (request : WireRequest) :
    sampleAnswer history request = .ack ∨
    sampleAnswer history request = .reply (.ok "100") ∨
    sampleAnswer history request = .reply (.ok "7") ∨
    sampleAnswer history request = .metrics [900] := by
  cases request with
  | init message => exact .inl rfl
  | drain => exact .inr (.inr (.inr rfl))
  | call call =>
      by_cases hname : call.name = "orders"
      · exact .inr (.inl (if_pos hname))
      · exact .inr (.inr (.inl (if_neg hname)))

theorem samplePeer_lawful : samplePeer.Lawful where
  requests := by
    intro request bytes hencode
    have hback : ∀ entry ∈ sampleRequests, (sampleRequests.find? fun other =>
        other.2 = entry.2).map Prod.fst = some entry.1 := by decide +kernel
    simp only [samplePeer] at hencode ⊢
    cases hfind : sampleRequests.find? (fun entry => entry.1 = request) with
    | none => simp [hfind] at hencode
    | some entry =>
        simp only [hfind, Except.ok.injEq] at hencode
        have hname : entry.1 = request := by simpa using List.find?_some hfind
        rw [← hencode, hback entry (List.mem_of_find?_eq_some hfind), hname]
  responses := by
    intro history request
    show samplePeer.decodeResponse (samplePeer.encodeResponse
      (sampleAnswer history request)) = .ok (sampleAnswer history request)
    rcases sampleAnswer_cases history request with h | h | h | h
    · rw [h]; rfl
    · rw [h]; rfl
    · rw [h]; rfl
    · rw [h]; rfl
  fits := by
    intro history request
    show (samplePeer.encodeResponse (sampleAnswer history request)).length ≤ maxFrameBytes
    rcases sampleAnswer_cases history request with h | h | h | h
    · rw [h]; decide
    · rw [h]; decide
    · rw [h]; decide
    · rw [h]; decide
  drainSent := ⟨drainJson, rfl, by decide⟩
  drainAnswer := fun _ => ⟨[900], rfl⟩

/-- One call answered before its deadline, then the drain. -/
def inTime : List Action :=
  [.start (.call ordersCall), .write 20, .write 41, .serve, .reply, .read 3, .read 1,
    .read 22, .start .drain, .write 11, .serve, .reply, .read 4, .read 100, .read 62]

def startsKept (s : Session Metrics) : Action → Bool
  | .start _ => !s.abandoned
  | _ => true

theorem startsAligned_of_kept (s : Session Metrics) (action : Action)
    (h : startsKept s action = true) : StartsAligned s action := by
  cases action with
  | start operation =>
      simp only [startsKept, Bool.not_eq_true'] at h
      exact h
  | _ => trivial

theorem session_replies_in_time :
    ∃ s, run (step samplePeer 1) Session.initial inTime = some s ∧
      s.log = [⟨.call ordersCall, [], .answered (.reply (.ok "100"))⟩,
        ⟨.drain, [.call ordersCall], .answered (.metrics [900])⟩] ∧
      samplePeer.answer [] (.call ordersCall) = .reply (.ok "100") := by
  have hkept : tested (step samplePeer 1) startsKept Session.initial inTime = true := by
    decide +kernel
  obtain ⟨s, hrun, hlog⟩ : ∃ s, run (step samplePeer 1) Session.initial inTime = some s ∧
      s.log = [⟨.call ordersCall, [], .answered (.reply (.ok "100"))⟩,
        ⟨.drain, [.call ordersCall], .answered (.metrics [900])⟩] := ⟨_, rfl, rfl⟩
  obtain ⟨hcalls, -, -⟩ := session_replies samplePeer samplePeer_lawful 1 inTime s
    (guarded_of_tested _ _ startsKept startsAligned_of_kept _ _ hkept) hrun
  refine ⟨s, hrun, hlog, ?_⟩
  exact hcalls ⟨.call ordersCall, [], .answered (.reply (.ok "100"))⟩
    (by simp [hlog]) ordersCall (.ok "100") rfl rfl

/-- The first call is cut after its request was written. Its late reply is
what the next call returns, and the reply to that one is what the drain gets
instead of its metrics, which the daemon sends in time. -/
def lateReply : List Action :=
  [.start (.call ordersCall), .write 61, .serve, .tick, .timeout, .reply,
    .start (.call stockCall), .write 60, .serve, .read 4, .read 22, .reply,
    .start .drain, .write 11, .serve, .reply, .read 4, .read 20]

theorem late_reply_is_returned :
    ∃ s, run (step samplePeer 1) Session.initial lateReply = some s ∧
      s.log = [⟨.call ordersCall, [], .elapsed⟩,
        ⟨.call stockCall, [.call ordersCall], .answered (.reply (.ok "100"))⟩,
        ⟨.drain, [.call ordersCall, .call stockCall], .answered (.reply (.ok "7"))⟩] ∧
      samplePeer.answer [.call ordersCall] (.call stockCall) = .reply (.ok "7") ∧
      samplePeer.answer [.call ordersCall, .call stockCall] .drain = .metrics [900] ∧
      s.log.map (Entry.returned samplePeer) =
        [.called (.error (transportError "orders" "IO_TIMEOUT"
          "broker call exceeded the execution deadline")),
          .called (.ok "100"), .drained []] :=
  ⟨_, rfl, rfl, rfl, rfl, rfl⟩

end Sample

end Runlet.Broker
