import Runlet.Core.Capability

/-!
How an uncaught capability failure reaches the response: `__ffi.unwrap`
throws a tagged `Error`, `classify_throw` reads the tag back, and the engine
error becomes an envelope (`ffi.js`, `classify.rs`). A thrown object carries
the properties the classifier looks at.
-/

namespace Runlet.Classify

open Errors Capability

/-- JavaScript truthiness of a parsed JSON value. -/
def truthy (numTruthy : String → Bool) : Json → Bool
  | .null => false
  | .bool value => value
  | .num literal => numTruthy literal
  | .str text => text ≠ ""
  | .arr _ => true
  | .obj _ => true

def field (name : String) : Json → Option Json
  | .obj fields => fields.lookup name
  | _ => none

/-- The properties of a thrown object: `runlet` is `none` when undefined. -/
structure ErrorObject where
  message : Option String
  stack : Option String
  runlet : Option Json

inductive Thrown where
  | value (text : Option String)
  | object (obj : ErrorObject)

/-- What `unwrap` does with the parsed result of an FFI call. -/
inductive Unwrapped where
  | returned (value : Json)
  | thrown (message : Json) (tag : Json)

/-- `if (res && res.error) throw`. -/
def unwrap (numTruthy : String → Bool) (res : Json) : Unwrapped :=
  if truthy numTruthy res then
    match field "error" res with
    | some error => if truthy numTruthy error then .thrown error res else .returned res
    | none => .returned res
  else .returned res

structure CapabilityTag where
  error : Option String
  code : String
  retryable : Bool
  source : String
  owner : Option String
  details : Option Json

/-- A defaulted `Option<String>`: absent and `null` are both `None`. -/
def decodeOptString : Option Json → Option (Option String)
  | none => some none
  | some .null => some none
  | some (.str text) => some (some text)
  | some _ => none

def decodeString : Option Json → Option String
  | some (.str text) => some text
  | _ => none

/-- A defaulted `bool`: absent is `false`, `null` is an error. -/
def decodeBool : Option Json → Option Bool
  | none => some false
  | some (.bool value) => some value
  | some _ => none

def decodeDetails : Option Json → Option Json
  | some .null => none
  | details => details

/-- The derived deserializer of the tag: by field name from an object,
positionally from an array of at most six elements. -/
def decodeTag (json : Json) : Option CapabilityTag :=
  let build (at_ : Nat → String → Option Json) : Option CapabilityTag :=
    match decodeOptString (at_ 0 "error"), decodeString (at_ 1 "code"),
      decodeBool (at_ 2 "retryable"), decodeString (at_ 3 "source"),
      decodeOptString (at_ 4 "owner") with
    | some error, some code, some retryable, some source, some owner =>
        some ⟨error, code, retryable, source, owner, decodeDetails (at_ 5 "details")⟩
    | _, _, _, _, _ => none
  match json with
  | .obj fields => build fun _ name => fields.lookup name
  | .arr items => if items.length ≤ 6 then build fun index _ => items[index]? else none
  | _ => none

structure CapabilityErr where
  source : ErrorSource
  code : String
  retryable : Bool
  owner : ErrorOwner
  raw : Option String
  stack : Option String
  details : Option Json

/-- The engine errors a handler throw can become. -/
inductive EngineError where
  | timeout (limitMs : Nat)
  | script (message : String) (stack : Option String)
  | capability (err : CapabilityErr)

/-- A non-empty string property. -/
def readStrProp (text : Option String) : Option String := text.filter fun value => value ≠ ""

def readCapabilityTag (obj : ErrorObject) (stack : Option String) : Option CapabilityErr :=
  match obj.runlet with
  | none => none
  | some .null => none
  | some value =>
      match decodeTag value with
      | none => none
      | some tag =>
          match ErrorSource.parse tag.source with
          | none => none
          | some source => some
              { source := source
                code := tag.code
                retryable := tag.retryable
                owner := (tag.owner.bind ErrorOwner.parse).getD .operator
                raw := tag.error
                stack := stack
                details := tag.details }

/-- Timeout flag, then tag, then script error. -/
def classifyThrow (timedOut : Bool) (limitMs : Nat) (caught : Thrown) : EngineError :=
  if timedOut then .timeout limitMs
  else
    match caught with
    | .value text => .script (text.getD "script error") none
    | .object obj =>
        let stack := readStrProp obj.stack
        match readCapabilityTag obj stack with
        | some err => .capability err
        | none => .script ((readStrProp obj.message).getD "") stack

/-- The retry hint of the envelope an engine error becomes. -/
def EngineError.retryable (timeoutRetryable : Bool) : EngineError → Bool
  | .timeout _ => timeoutRetryable
  | .script _ _ => false
  | .capability err => err.retryable

/-! ### A rendered tag read back -/

/-- What the engine reads from a tag with a known source. -/
def faultErr (fault : DynamicFault) (source : ErrorSource) (stack : Option String) :
    CapabilityErr :=
  { source := source
    code := fault.code
    retryable := fault.retryable
    owner := fault.owner
    raw := some fault.error
    stack := stack
    details := decodeDetails fault.details }

theorem decodeTag_dynamicFaultJson (fault : DynamicFault) :
    decodeTag (dynamicFaultJson fault) =
      some ⟨some fault.error, fault.code, fault.retryable, fault.source,
        some fault.owner.asStr, decodeDetails fault.details⟩ := by
  cases hdetails : fault.details with
  | none =>
      simp [decodeTag, dynamicFaultJson, hdetails, decodeOptString, decodeString,
        decodeBool, List.lookup_cons]
  | some details =>
      simp [decodeTag, dynamicFaultJson, hdetails, decodeOptString, decodeString,
        decodeBool, List.lookup_cons]

theorem readCapabilityTag_fault (fault : DynamicFault) (message stack : Option String) :
    readCapabilityTag ⟨message, stack, some (dynamicFaultJson fault)⟩ (readStrProp stack) =
      (ErrorSource.parse fault.source).map fun source =>
        faultErr fault source (readStrProp stack) := by
  have hdecode := decodeTag_dynamicFaultJson fault
  simp only [readCapabilityTag]
  split
  · rename_i heq
    cases heq
  · rename_i heq
    simp [dynamicFaultJson] at heq
  · rename_i value _ heq
    have hvalue : dynamicFaultJson fault = value := Option.some.inj heq
    rw [← hvalue, hdecode]
    cases hsource : ErrorSource.parse fault.source with
    | none => simp [hsource]
    | some source => simp [hsource, faultErr]

/-- A tag throws exactly when its message is not empty. -/
theorem unwrap_dynamicFaultJson (numTruthy : String → Bool) (fault : DynamicFault) :
    unwrap numTruthy (dynamicFaultJson fault) =
      if fault.error = "" then .returned (dynamicFaultJson fault)
      else .thrown (.str fault.error) (dynamicFaultJson fault) := by
  have htruthy : truthy numTruthy (dynamicFaultJson fault) = true := rfl
  have hfield : field "error" (dynamicFaultJson fault) = some (.str fault.error) := by
    simp [field, dynamicFaultJson]
  simp only [unwrap, htruthy, hfield, if_true]
  by_cases hempty : fault.error = ""
  · simp [hempty, truthy]
  · simp [hempty, truthy]

/-- The same code, owner and retry hint arrive as a capability error. -/
def CarriedOver (fault : DynamicFault) (err : EngineError) : Prop :=
  ∃ cap, err = .capability cap ∧ cap.code = fault.code ∧ cap.owner = fault.owner ∧
    cap.retryable = fault.retryable

/-- An escaped tag carries over exactly when no timeout was flagged and the
engine knows its source. -/
theorem carriedOver_iff (fault : DynamicFault) (timedOut : Bool) (limitMs : Nat)
    (message stack : Option String) :
    CarriedOver fault (classifyThrow timedOut limitMs
      (.object ⟨message, stack, some (dynamicFaultJson fault)⟩)) ↔
    timedOut = false ∧ fault.source ∈ knownSources := by
  unfold classifyThrow
  cases timedOut with
  | true =>
      simp only [if_true]
      constructor
      · rintro ⟨cap, heq, -⟩
        cases heq
      · rintro ⟨h, -⟩
        cases h
  | false =>
      simp only [Bool.false_eq_true, if_false, readCapabilityTag_fault, true_and]
      rw [← source_parse_isSome_iff]
      cases ErrorSource.parse fault.source with
      | none =>
          simp only [Option.map_none, Option.isSome_none]
          constructor
          · rintro ⟨cap, heq, -⟩
            cases heq
          · intro h
            cases h
      | some source =>
          simp only [Option.map_some, Option.isSome_some, iff_true]
          exact ⟨_, rfl, rfl, rfl, rfl⟩

end Runlet.Classify
