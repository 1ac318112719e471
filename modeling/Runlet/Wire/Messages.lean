import Runlet.Core.Capability

/-!
The messages of a broker session (`wire.rs`). The metrics a drain returns are
a type parameter: nothing here looks inside them.
-/

namespace Runlet.Wire

open Capability

/-- The broker session-open message. -/
structure WireInit where
  resources : List String
  timeoutMs : Nat
  tenant : Option String
  actor : Option String
  principalKind : Option String
  onBehalfOf : Option String
  token : Option String
  deriving DecidableEq

structure WireCall where
  name : String
  action : String
  payload : String
  deriving DecidableEq

inductive WireRequest where
  | init (message : WireInit)
  | call (call : WireCall)
  | drain
  deriving DecidableEq

inductive WireResponse (Metrics : Type) where
  | ack
  | initError (code message : String)
  | reply (result : Except EgressError String)
  | metrics (drained : Metrics)
  | protocolError (message : String)

/-- The largest payload a frame may carry: 64 MiB. -/
def maxFrameBytes : Nat := 67108864

end Runlet.Wire
