import Runlet.Lib.Framing
import Runlet.Lib.Transition
import Runlet.Server.Egress

/-!
One broker session after its handshake (`broker.rs`): calls and metric drains,
one round-trip at a time, over a byte stream in each direction. A frame is
written and read in pieces of any size, the daemon reads and answers at any
later moment, and a call can be cut by its deadline wherever it stands. What
was written stays in the stream when its call is gone.
-/

namespace Runlet.Broker

open Capability Egress Framing Transition Wire

variable {Metrics : Type}

/-- The JSON codec of both ends, and the daemon's answer to a request given
the requests before it. -/
structure Peer (Metrics : Type) where
  encodeRequest : WireRequest → Except String Bytes
  decodeRequest : Bytes → Option WireRequest
  encodeResponse : WireResponse Metrics → Bytes
  decodeResponse : Bytes → Except String (WireResponse Metrics)
  answer : List WireRequest → WireRequest → WireResponse Metrics
  defaultMetrics : Metrics

/-- Both ends read what the other wrote, answers fit a frame, a drain can be
sent and is answered by metrics. -/
structure Peer.Lawful (peer : Peer Metrics) : Prop where
  requests : ∀ request bytes, peer.encodeRequest request = .ok bytes →
    peer.decodeRequest bytes = some request
  responses : ∀ history request,
    peer.decodeResponse (peer.encodeResponse (peer.answer history request)) =
      .ok (peer.answer history request)
  fits : ∀ history request,
    (peer.encodeResponse (peer.answer history request)).length ≤ maxFrameBytes
  drainSent : ∃ bytes, peer.encodeRequest .drain = .ok bytes ∧
    bytes.length ≤ maxFrameBytes
  drainAnswer : ∀ history, ∃ metrics, peer.answer history .drain = .metrics metrics

inductive Operation where
  | call (call : WireCall)
  | drain
  deriving DecidableEq

def Operation.request : Operation → WireRequest
  | .call message => .call message
  | .drain => .drain

/-- The bytes `write_frame` sends, or its error before it sends any. -/
def writeFrame (peer : Peer Metrics) (request : WireRequest) : Except String Bytes :=
  match peer.encodeRequest request with
  | .error err => .error err
  | .ok bytes =>
      if bytes.length > 4294967295 then .error "frame too large to encode"
      else if bytes.length > maxFrameBytes then .error "frame exceeds size cap"
      else .ok (frame bytes)

/-- What `drain_metrics` makes of its round-trip. -/
def drainMetrics (peer : Peer Metrics) : Roundtrip Metrics → Metrics
  | .answered (.metrics metrics) => metrics
  | _ => peer.defaultMetrics

/-- The box in the middle of a round-trip. `before` are the requests that had
been sent when it began. -/
inductive Phase where
  | idle
  | writing (operation : Operation) (before : List WireRequest)
      (written remaining : Bytes)
  | reading (operation : Operation) (before : List WireRequest) (got : Bytes)

/-- A finished round-trip. -/
structure Entry (Metrics : Type) where
  operation : Operation
  before : List WireRequest
  outcome : Roundtrip Metrics

structure Session (Metrics : Type) where
  now : Nat
  phase : Phase
  /-- bytes on their way to the daemon -/
  outbound : Bytes
  /-- requests the daemon has read -/
  served : List WireRequest
  /-- how many of them it has answered -/
  answered : Nat
  /-- bytes on their way to the box -/
  inbound : Bytes
  /-- requests written to the last byte -/
  sent : List WireRequest
  /-- a call was cut after its first byte was written -/
  abandoned : Bool
  log : List (Entry Metrics)

def Session.initial : Session Metrics where
  now := 0
  phase := .idle
  outbound := []
  served := []
  answered := 0
  inbound := []
  sent := []
  abandoned := false
  log := []

inductive Action where
  /-- `call` or `drain_metrics` is entered -/
  | start (operation : Operation)
  | write (count : Nat)
  | read (count : Nat)
  /-- the timer around a call fires -/
  | timeout
  /-- the daemon reads one request frame -/
  | serve
  /-- the daemon writes one response frame -/
  | reply
  | tick

def Session.finish (s : Session Metrics) (operation : Operation)
    (before : List WireRequest) (outcome : Roundtrip Metrics) : Session Metrics :=
  { s with phase := .idle, log := s.log ++ [⟨operation, before, outcome⟩] }

/-- What `read_frame` does with the bytes it has. -/
def Session.receive (peer : Peer Metrics) (s : Session Metrics) (operation : Operation)
    (before : List WireRequest) (got : Bytes) : Session Metrics :=
  match progress maxFrameBytes got with
  | .missing _ => { s with phase := .reading operation before got }
  | .tooLarge => s.finish operation before (.ioError "frame exceeds size cap")
  | .complete body =>
      match peer.decodeResponse body with
      | .ok response => s.finish operation before (.answered response)
      | .error err => s.finish operation before (.ioError err)

/-- Only `call` has a timer; `drain_metrics` waits for its answer. The timer
can fire once the deadline of the execution has passed. -/
def Session.cut (deadline : Nat) (s : Session Metrics) : Option (Session Metrics) :=
  match s.phase with
  | .writing (.call call) before written _ =>
      if deadline ≤ s.now then
        some { s.finish (.call call) before .elapsed with
          abandoned := s.abandoned || !written.isEmpty }
      else none
  | .reading (.call call) before _ =>
      if deadline ≤ s.now then
        some { s.finish (.call call) before .elapsed with abandoned := true }
      else none
  | _ => none

def step (peer : Peer Metrics) (deadline : Nat) (s : Session Metrics) :
    Action → Option (Session Metrics)
  | .start operation =>
      match s.phase with
      | .idle =>
          match writeFrame peer operation.request with
          | .error err => some (s.finish operation s.sent (.ioError err))
          | .ok bytes => some { s with phase := .writing operation s.sent [] bytes }
      | _ => none
  | .write count =>
      match s.phase with
      | .writing operation before written remaining =>
          if 0 < count ∧ count < remaining.length then
            some { s with
              phase := .writing operation before (written ++ remaining.take count)
                (remaining.drop count)
              outbound := s.outbound ++ remaining.take count }
          else if count = remaining.length then
            some { s with
              phase := .reading operation before []
              outbound := s.outbound ++ remaining
              sent := s.sent ++ [operation.request] }
          else none
      | _ => none
  | .read count =>
      match s.phase with
      | .reading operation before got =>
          match progress maxFrameBytes got with
          | .missing wanted =>
              if 0 < count ∧ count ≤ wanted ∧ count ≤ s.inbound.length then
                some (Session.receive peer { s with inbound := s.inbound.drop count }
                  operation before (got ++ s.inbound.take count))
              else none
          | _ => none
      | _ => none
  | .timeout => s.cut deadline
  | .serve =>
      match takeFrame maxFrameBytes s.outbound with
      | some (body, rest) =>
          (peer.decodeRequest body).map fun request =>
            { s with outbound := rest, served := s.served ++ [request] }
      | none => none
  | .reply =>
      (s.served[s.answered]?).map fun request =>
        { s with
          answered := s.answered + 1
          inbound := s.inbound ++
            frame (peer.encodeResponse (peer.answer (s.served.take s.answered) request)) }
  | .tick => some { s with now := s.now + 1 }

/-- The value an entry of the log returned to its caller. -/
inductive Returned (Metrics : Type) where
  | called (result : Except EgressError String)
  | drained (metrics : Metrics)

def Entry.returned (peer : Peer Metrics) (entry : Entry Metrics) : Returned Metrics :=
  match entry.operation with
  | .call call => .called (brokerCall call.name entry.outcome)
  | .drain => .drained (drainMetrics peer entry.outcome)

end Runlet.Broker
