import Runlet.Core.Capability

/-!
The capability mux over all the `io.call`s of one script. The mux functions of
`Capability` say what a call returns; here they are followed with a record of
the backend each call reaches. A backend and a payload extractor may keep
state and a name may resolve differently later, so every call comes with the
registry, the per-request egress and the resolver as they behave at that
moment.
-/

namespace Runlet.Capability

/-- The three places a backend can come from. -/
inductive Tier where
  | localBackend
  | perRequest
  | builder
  deriving DecidableEq

/-- A backend was entered with these arguments, whether or not it returned. -/
structure Invocation where
  tier : Tier
  name : String
  action : String
  payload : String
  deriving DecidableEq

/-- The backend a call goes to, with its tier. -/
def CapabilityRegistry.tierFor (registry : CapabilityRegistry) (call : MuxCall) :
    Option (Tier × Egress) :=
  let own := (registry.routes.lookup call.name).bind Route.backend
  ((own.map (Tier.localBackend, ·)).or (call.fallback.map (Tier.perRequest, ·))).or
    (registry.fallback.map (Tier.builder, ·))

/-- Evaluates the policy of a script-controlled route; other routes have none. -/
def CapabilityRegistry.policyVerdict (lib : MuxLib) (registry : CapabilityRegistry)
    (call : MuxCall) : Option (Except String Unit) :=
  match registry.routes.lookup call.name with
  | some ⟨_, .scriptControlled policy⟩ => policy.enforce lib call.payload call.allowPrivate
  | _ => some (.ok ())

def MuxCall.invocation (call : MuxCall) (tier : Tier) : Invocation :=
  ⟨tier, call.name, call.action, call.payload⟩

/-- `call_backend` and the backend it enters. -/
def callBackendTraced (backend : Option (Tier × Egress)) (call : MuxCall) :
    Option FfiResult × List Invocation :=
  match backend with
  | none => (callBackend none call, [])
  | some (tier, egress) => (callBackend (some egress) call, [call.invocation tier])

def CapabilityRegistry.dispatchInnerTraced (lib : MuxLib) (registry : CapabilityRegistry)
    (call : MuxCall) : Option FfiResult × List Invocation :=
  match registry.policyVerdict lib call with
  | none => (none, [])
  | some (.error message) => (some (.tagged (ssrfBlock call.name message)), [])
  | some (.ok ()) => callBackendTraced (registry.tierFor call) call

def CapabilityRegistry.dispatchTraced (lib : MuxLib) (registry : CapabilityRegistry)
    (call : MuxCall) : FfiResult × List Invocation :=
  let (result, invoked) := registry.dispatchInnerTraced lib call
  (result.getD (.tagged (deny "IO_ENFORCEMENT_FAILED" "capability enforcement failed"
    .operator call.name)), invoked)

/-- The part of the closure's captures that stays fixed for the script. -/
structure IoAccess where
  allowed : List String
  maxOps : Nat
  allowPrivate : Bool

/-- One `io.call`, and the outside world at that moment. -/
structure IoCall where
  lib : MuxLib
  registry : CapabilityRegistry
  fallback : Option Egress
  name : String
  action : String
  payload : String

def IoAccess.mux (access : IoAccess) (io : IoCall) : Mux :=
  ⟨io.registry, access.allowed, access.maxOps, access.allowPrivate, io.fallback⟩

def IoAccess.muxCall (access : IoAccess) (io : IoCall) : MuxCall :=
  ⟨io.name, io.action, io.payload, access.allowPrivate, io.fallback⟩

/-- What one call did: the count it found and left, its answer, and the
backends it entered. -/
structure IoRecord where
  used : Nat
  usedAfter : Nat
  result : FfiResult
  invoked : List Invocation

def IoAccess.ioCallTraced (access : IoAccess) (io : IoCall) (used : Nat) : IoRecord :=
  if !access.allowed.contains io.name then
    ⟨used, used, .tagged (notAllowlisted io.name), []⟩
  else if used ≥ access.maxOps then
    ⟨used, used, .tagged (opLimit access.maxOps), []⟩
  else
    let (result, invoked) := io.registry.dispatchTraced io.lib (access.muxCall io)
    ⟨used, used + 1, result, invoked⟩

/-- The calls of a script in order, from a given count. -/
def IoAccess.records (access : IoAccess) (used : Nat) : List IoCall → List IoRecord
  | [] => []
  | io :: rest =>
      let done := access.ioCallTraced io used
      done :: access.records done.usedAfter rest

/-! ### The record follows the mux -/

theorem tierFor_backend (registry : CapabilityRegistry) (call : MuxCall) :
    (registry.tierFor call).map Prod.snd = registry.backendFor call := by
  unfold CapabilityRegistry.tierFor CapabilityRegistry.backendFor
  cases hroute : registry.routes.lookup call.name with
  | none => cases call.fallback <;> cases registry.fallback <;> rfl
  | some route =>
      cases hbackend : route.backend <;> cases call.fallback <;> cases registry.fallback <;>
        simp [hbackend]

theorem callBackendTraced_result (backend : Option (Tier × Egress)) (call : MuxCall) :
    (callBackendTraced backend call).1 = callBackend (backend.map Prod.snd) call := by
  cases backend with
  | none => rfl
  | some entry => rfl

/-- The dispatch only depends on the verdict of the route's policy. -/
theorem dispatchInner_eq (lib : MuxLib) (registry : CapabilityRegistry) (call : MuxCall) :
    registry.dispatchInner lib call =
      match registry.policyVerdict lib call with
      | none => none
      | some (.error message) => some (.tagged (ssrfBlock call.name message))
      | some (.ok ()) => callBackend (registry.backendFor call) call := by
  unfold CapabilityRegistry.dispatchInner CapabilityRegistry.policyVerdict
  cases registry.routes.lookup call.name with
  | none => rfl
  | some route =>
      obtain ⟨backend, trust⟩ := route
      cases trust with
      | operatorSupplied => rfl
      | scriptControlled policy => rfl

theorem dispatchTraced_result (lib : MuxLib) (registry : CapabilityRegistry)
    (call : MuxCall) :
    (registry.dispatchTraced lib call).1 = registry.dispatch lib call := by
  have hinner : (registry.dispatchInnerTraced lib call).1 = registry.dispatchInner lib call := by
    rw [dispatchInner_eq]
    unfold CapabilityRegistry.dispatchInnerTraced
    cases registry.policyVerdict lib call with
    | none => rfl
    | some verdict =>
        cases verdict with
        | error message => rfl
        | ok passed =>
            change (callBackendTraced (registry.tierFor call) call).1 =
              callBackend (registry.backendFor call) call
            rw [callBackendTraced_result, tierFor_backend]
  simp only [CapabilityRegistry.dispatchTraced, CapabilityRegistry.dispatch, hinner]

/-- Answer and count are those of the mux. -/
theorem ioCallTraced_eq (access : IoAccess) (io : IoCall) (used : Nat) :
    ((access.ioCallTraced io used).result, (access.ioCallTraced io used).usedAfter) =
      (access.mux io).ioCall io.lib io.name io.action io.payload used := by
  unfold IoAccess.ioCallTraced Mux.ioCall IoAccess.mux
  split
  · rfl
  · split
    · rfl
    · exact Prod.ext (dispatchTraced_result io.lib io.registry (access.muxCall io)) rfl

/-! ### Which calls reach a backend -/

/-- Local if present, else the per-request egress, else the builder's. -/
def IoCall.chosenTier (io : IoCall) : Tier :=
  if ((io.registry.routes.lookup io.name).bind Route.backend).isSome then .localBackend
  else if io.fallback.isSome then .perRequest
  else .builder

/-- The backend in each of the three places. -/
def IoCall.backendAt (io : IoCall) : Tier → Option Egress
  | .localBackend => (io.registry.routes.lookup io.name).bind Route.backend
  | .perRequest => io.fallback
  | .builder => io.registry.fallback

/-- What a backend answered, as the script gets it: its text, its error as a tag,
and a panic as a denial. -/
def passedOn (name : String) : Option (Except EgressError String) → FfiResult
  | some (.ok text) => .verbatim text
  | some (.error err) => .tagged err.toTag
  | none => .tagged (deny "IO_ENFORCEMENT_FAILED" "capability enforcement failed" .operator name)

/-- The operations used up by these calls: every listed name spends one until
the limit is reached. -/
def IoAccess.spent (access : IoAccess) (calls : List IoCall) : Nat :=
  min access.maxOps (calls.countP fun io => access.allowed.contains io.name)

/-- The conditions for a call that finds `used` operations spent to enter a
backend. -/
def IoAccess.Reaches (access : IoAccess) (io : IoCall) (used : Nat) : Prop :=
  io.name ∈ access.allowed ∧ used < access.maxOps ∧
    io.registry.policyVerdict io.lib (access.muxCall io) = some (.ok ()) ∧
    (io.registry.backendFor (access.muxCall io)).isSome

instance (access : IoAccess) (io : IoCall) (used : Nat) :
    Decidable (access.Reaches io used) :=
  inferInstanceAs (Decidable (_ ∧ _ ∧ _ ∧ _))

theorem tierFor_eq (access : IoAccess) (io : IoCall) :
    (io.registry.tierFor (access.muxCall io)).map Prod.fst =
      if (io.registry.backendFor (access.muxCall io)).isSome then some io.chosenTier
      else none := by
  rw [← tierFor_backend]
  unfold CapabilityRegistry.tierFor IoCall.chosenTier IoAccess.muxCall
  cases (io.registry.routes.lookup io.name).bind Route.backend <;> cases io.fallback <;>
    cases io.registry.fallback <;> rfl

theorem dispatchTraced_invoked (access : IoAccess) (io : IoCall) :
    (io.registry.dispatchTraced io.lib (access.muxCall io)).2 =
      if io.registry.policyVerdict io.lib (access.muxCall io) = some (.ok ()) ∧
          (io.registry.backendFor (access.muxCall io)).isSome then
        [(access.muxCall io).invocation io.chosenTier]
      else [] := by
  have htier := tierFor_eq access io
  simp only [CapabilityRegistry.dispatchTraced, CapabilityRegistry.dispatchInnerTraced]
  cases hverdict : io.registry.policyVerdict io.lib (access.muxCall io) with
  | none => simp
  | some verdict =>
      cases verdict with
      | error message => simp
      | ok passed =>
          cases hchosen : io.registry.tierFor (access.muxCall io) with
          | none =>
              have hbackend := tierFor_backend io.registry (access.muxCall io)
              rw [hchosen] at hbackend
              simp [callBackendTraced, ← hbackend]
          | some entry =>
              have hbackend := tierFor_backend io.registry (access.muxCall io)
              rw [hchosen] at hbackend htier
              simp only [← hbackend, Option.map_some, Option.isSome_some, if_true,
                Option.some.injEq] at htier
              simp [callBackendTraced, ← hbackend, htier]

/-- One call, in full: the conditions under which it enters a backend, the
backend it enters, and what it takes from the budget. -/
theorem ioCallTraced_spec (access : IoAccess) (io : IoCall) (used : Nat) :
    (access.ioCallTraced io used).used = used ∧
    (access.ioCallTraced io used).invoked =
      (if access.Reaches io used then [(access.muxCall io).invocation io.chosenTier]
        else []) ∧
    (access.ioCallTraced io used).usedAfter =
      if io.name ∈ access.allowed ∧ used < access.maxOps then used + 1 else used := by
  unfold IoAccess.ioCallTraced IoAccess.Reaches
  by_cases hallowed : io.name ∈ access.allowed
  · have hcontains : access.allowed.contains io.name = true := by simpa using hallowed
    by_cases hbudget : used < access.maxOps
    · have hnot : ¬ used ≥ access.maxOps := by omega
      simp only [hcontains, Bool.not_true, Bool.false_eq_true, if_false, hnot, hallowed,
        hbudget, true_and, if_true, and_true]
      exact dispatchTraced_invoked access io
    · have hfull : used ≥ access.maxOps := by omega
      simp only [hcontains, Bool.not_true, Bool.false_eq_true, if_false, hfull, if_true,
        hbudget, false_and, and_false, and_self]
  · have hcontains : access.allowed.contains io.name = false := by simpa using hallowed
    simp only [hcontains, Bool.not_false, if_true, hallowed, false_and, if_false, and_self]

theorem backendFor_eq (access : IoAccess) (io : IoCall) :
    io.registry.backendFor (access.muxCall io) = io.backendAt io.chosenTier := by
  unfold CapabilityRegistry.backendFor IoCall.chosenTier IoCall.backendAt IoAccess.muxCall
  cases io.registry.routes.lookup io.name with
  | none => cases io.fallback <;> simp
  | some route =>
      cases hbackend : route.backend <;> cases io.fallback <;> simp [hbackend]

/-- A call that enters a backend is answered by the one in the chosen place. -/
theorem ioCallTraced_answer (access : IoAccess) (io : IoCall) (used : Nat)
    (hreaches : access.Reaches io used) :
    ∃ backend, io.backendAt io.chosenTier = some backend ∧
      (access.ioCallTraced io used).result =
        passedOn io.name (backend io.name io.action io.payload) := by
  obtain ⟨hallowed, hbudget, hverdict, hsome⟩ := hreaches
  obtain ⟨backend, hbackend⟩ := Option.isSome_iff_exists.mp hsome
  refine ⟨backend, by rw [← backendFor_eq access io, hbackend], ?_⟩
  have hdispatch : (access.ioCallTraced io used).result =
      io.registry.dispatch io.lib (access.muxCall io) := by
    have hcontains : access.allowed.contains io.name = true := by simpa using hallowed
    have hnot : ¬ used ≥ access.maxOps := by omega
    apply (congrArg Prod.fst (ioCallTraced_eq access io used)).trans
    simp only [Mux.ioCall, IoAccess.mux, IoAccess.muxCall, hcontains, Bool.not_true,
      Bool.false_eq_true, if_false, hnot]
  rw [hdispatch, CapabilityRegistry.dispatch, dispatchInner_eq, hverdict, hbackend]
  simp only [callBackend, IoAccess.muxCall]
  cases backend io.name io.action io.payload with
  | none => rfl
  | some answer => cases answer <;> rfl

theorem records_getElem? (access : IoAccess) (before after : List IoCall) (io : IoCall)
    (used : Nat) (hused : used ≤ access.maxOps) :
    (access.records used (before ++ io :: after))[before.length]? =
      some (access.ioCallTraced io (min access.maxOps
        (used + before.countP fun io => access.allowed.contains io.name))) := by
  induction before generalizing used with
  | nil => simp [IoAccess.records, Nat.min_eq_right hused]
  | cons first before ih =>
      obtain ⟨-, -, hafter⟩ := ioCallTraced_spec access first used
      have hle : (access.ioCallTraced first used).usedAfter ≤ access.maxOps := by
        rw [hafter]
        split
        · rename_i hspend
          exact hspend.2
        · exact hused
      simp only [List.cons_append, IoAccess.records, List.length_cons,
        List.getElem?_cons_succ, ih _ hle, List.countP_cons]
      congr 2
      rw [hafter]
      by_cases hallowed : first.name ∈ access.allowed
      · by_cases hbudget : used < access.maxOps
        · simp only [hallowed, hbudget, and_self, if_true, List.contains_eq_mem,
            decide_true]
          omega
        · simp only [hallowed, hbudget, and_false, if_false, List.contains_eq_mem,
            decide_true, if_true]
          omega
      · simp only [hallowed, false_and, if_false, List.contains_eq_mem, decide_false,
          Bool.false_eq_true]
        omega

/-- The budget bounds the invocations that are still to come. -/
theorem invocations_le (access : IoAccess) (calls : List IoCall) (used : Nat) :
    ((access.records used calls).flatMap IoRecord.invoked).length ≤ access.maxOps - used := by
  induction calls generalizing used with
  | nil => exact Nat.zero_le _
  | cons io rest ih =>
      obtain ⟨-, hinvoked, hafter⟩ := ioCallTraced_spec access io used
      have hrest := ih (access.ioCallTraced io used).usedAfter
      simp only [IoAccess.records, List.flatMap_cons, List.length_append]
      rw [hafter] at hrest
      rw [hinvoked, hafter]
      by_cases hreaches : access.Reaches io used
      · have hlt := hreaches.2.1
        simp only [hreaches.1, hlt, and_self, if_true] at hrest
        simp only [hreaches, hreaches.1, hlt, and_self, if_true, List.length_singleton]
        omega
      · have hless : access.maxOps -
            (if io.name ∈ access.allowed ∧ used < access.maxOps then used + 1 else used) ≤
              access.maxOps - used := by
          split <;> omega
        simp only [hreaches, if_false, List.length_nil, Nat.zero_add]
        exact Nat.le_trans hrest hless

/-- Over all the calls of a script: a call enters a backend exactly when its
name is listed, operations are left, the policy passes and a backend serves
it; the backend is the first of the three tiers, and the call is answered with
what that backend answered; an unlisted name spends nothing; and the backends
are entered at most `maxOps` times. -/
theorem mux_invocations (access : IoAccess) (calls : List IoCall) :
    (∀ before io after, calls = before ++ io :: after →
      ∃ done, (access.records 0 calls)[before.length]? = some done ∧
        done.used = access.spent before ∧
        (done.invoked ≠ [] ↔ access.Reaches io (access.spent before)) ∧
        (done.invoked ≠ [] →
          done.invoked = [(access.muxCall io).invocation io.chosenTier] ∧
          ∃ backend, io.backendAt io.chosenTier = some backend ∧
            done.result = passedOn io.name (backend io.name io.action io.payload)) ∧
        (io.name ∉ access.allowed → done.usedAfter = done.used)) ∧
    ((access.records 0 calls).flatMap IoRecord.invoked).length ≤ access.maxOps := by
  refine ⟨?_, invocations_le access calls 0⟩
  intro before io after hsplit
  obtain ⟨hused, hinvoked, hafter⟩ := ioCallTraced_spec access io (access.spent before)
  refine ⟨access.ioCallTraced io (access.spent before), ?_, hused, ?_, ?_, ?_⟩
  · rw [hsplit, records_getElem? access before after io 0 (Nat.zero_le _), Nat.zero_add]
    rfl
  · rw [hinvoked]
    by_cases hreaches : access.Reaches io (access.spent before)
    · simp [hreaches]
    · simp [hreaches]
  · intro hne
    rw [hinvoked] at hne ⊢
    by_cases hreaches : access.Reaches io (access.spent before)
    · rw [if_pos hreaches]
      exact ⟨rfl, ioCallTraced_answer access io (access.spent before) hreaches⟩
    · rw [if_neg hreaches] at hne
      exact absurd rfl hne
  · intro hunlisted
    rw [hafter, hused, if_neg (fun h => hunlisted h.1)]

end Runlet.Capability
