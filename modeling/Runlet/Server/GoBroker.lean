import Runlet.Lib.Framing
import Runlet.Lib.Transition
import Runlet.Wire.Messages

/-!
The broker of `examples/go-quic-broker`: a stream for each request of a box, all of them
over one store. A session is a handshake, calls and drains; a call of the `cache` goes to
the store under the session's tenant and a key of the script. A nil map written to ends the
whole process.
-/

namespace Runlet.GoBroker

open Capability Errors Framing Transition Wire

/-- `wireInit`: the fields this broker reads. -/
structure InitMessage where
  resources : List String
  timeoutMs : Nat
  tenant : Option String
  actor : Option String
  token : Option String

/-- `map[string]any`, a later entry in front of the ones it replaces. -/
abbrev Fields (V : Type) := List (String × V)

structure BackendMetrics (V : Type) where
  db : List V
  mongo : List V
  mail : List V
  redis : List V
  amq : List V
  auth : List V

/-- What the broker takes from the Go library: `encoding/json` on each type it reads or
writes, `bytes.TrimSpace`, and `fmt.Sprint`. A payload of null is a nil map. -/
structure GoLibrary (V : Type) where
  null : V
  ofString : String → V
  trimSpace : Bytes → Bytes
  unmarshalString : Bytes → Except String String
  unmarshalObject : Bytes → Except String (List (String × Bytes))
  unmarshalInit : Bytes → Except String InitMessage
  unmarshalCall : Bytes → Except String WireCall
  unmarshalPayload : String → Except String (Option (Fields V))
  marshal : Fields V → String
  marshalResponse : WireResponse (BackendMetrics V) → Bytes
  sprint : V → String

variable {V : Type} (lib : GoLibrary V)

def emptyMetrics : BackendMetrics V := ⟨[], [], [], [], [], []⟩

/-- The name of a request and its body. A map is ranged over in no fixed order: `pick` says
which of its entries comes first. -/
def decodeRequest (pick : Nat) (frame : Bytes) : Except String (String × Bytes) :=
  match (lib.trimSpace frame).head? with
  | none => .error "empty frame"
  | some c =>
      if c = 34 then do
        let s ← lib.unmarshalString frame
        .ok (s, [])
      else do
        let m ← lib.unmarshalObject frame
        match m[pick % m.length]? with
        | some entry => .ok entry
        | none => .error "empty request object"

/-! ### Backends -/

abbrev Store (V : Type) := String → V

def Fields.get (p : Fields V) (key : String) : V := (p.lookup key).getD lib.null

/-- The key of the store a tenant's key goes to. -/
def storeKey (tenant key : String) : String := tenant ++ "/" ++ key

def unknownAction (name action : String) : EgressError :=
  (EgressError.new name "UNKNOWN_ACTION" ("no such " ++ name ++ " action: " ++ action)).withOwner
    .developer

/-- The answer of a backend and the store after it; none is a panic. -/
abbrev Answer (V : Type) := Option (Except EgressError String × Store V)

def cacheBackend (store : Store V) (action : String) (p : Fields V) (tenant : String) : Answer V :=
  let key := storeKey tenant (lib.sprint (Fields.get lib p "key"))
  if action = "set" then
    some (.ok "\x7b\"ok\":true\x7d", fun other =>
      if other = key then Fields.get lib p "value" else store other)
  else if action = "get" then some (.ok (lib.marshal [("value", store key)]), store)
  else some (.error (unknownAction "cache" action), store)

def ordersBackend (store : Store V) (action : String) (p : Option (Fields V))
    (tenant actor : String) : Answer V :=
  if action = "insert" then
    p.map fun p =>
      (.ok (lib.marshal (("tenant", lib.ofString tenant) :: ("by", lib.ofString actor) ::
        p.filter fun field => field.1 ≠ "tenant" ∧ field.1 ≠ "by")), store)
  else some (.error (unknownAction "orders" action), store)

def isBackend (name : String) : Bool := name = "cache" || name = "orders"

/-- A payload that is not sent, or is `null`, is an empty map. -/
def readPayload (payload : String) : Except String (Option (Fields V)) :=
  if payload ≠ "" ∧ payload ≠ "null" then lib.unmarshalPayload payload else .ok (some [])

def dispatch (store : Store V) (call : WireCall) (tenant actor : String) : Answer V :=
  if isBackend call.name then
    match readPayload lib call.payload with
    | .error err =>
        some (.error ((EgressError.new call.name "BAD_PAYLOAD" err).withOwner .developer), store)
    | .ok payload =>
        if call.name = "cache" then cacheBackend lib store call.action (payload.getD []) tenant
        else ordersBackend lib store call.action payload tenant actor
  else
    some (.error (EgressError.new call.name "RESOURCE_NOT_FOUND"
      ("no binding for " ++ call.name)), store)

/-! ### Sessions -/

inductive Phase where
  | handshake
  | serving (tenant actor : String)
  | closed
  deriving DecidableEq

structure Session (V : Type) where
  phase : Phase
  /-- what was written to the stream -/
  answers : List (WireResponse (BackendMetrics V))

/-- `writeFrame`: a response that does not fit a frame is not written. -/
def Session.write (s : Session V) (response : WireResponse (BackendMetrics V)) : Session V :=
  if (lib.marshalResponse response).length ≤ maxFrameBytes then
    { s with answers := s.answers ++ [response] }
  else s

def Session.close (s : Session V) : Session V := { s with phase := .closed }

def Session.reject (s : Session V) (response : WireResponse (BackendMetrics V)) : Session V :=
  (s.write lib response).close

def deref (s : Option String) : String := s.getD ""

/-- The first frame of a stream. -/
def handshake (token : String) (pick : Nat) (frame : Bytes) (s : Session V) : Session V :=
  match decodeRequest lib pick frame with
  | .error _ => s.reject lib (.protocolError "expected Init first")
  | .ok (variant, body) =>
      if variant ≠ "Init" then s.reject lib (.protocolError "expected Init first")
      else
        match lib.unmarshalInit body with
        | .error err => s.reject lib (.protocolError ("bad Init: " ++ err))
        | .ok init =>
            if token ≠ "" ∧ init.token ≠ some token then
              s.reject lib (.initError "UNAUTHENTICATED" "invalid or missing box auth token")
            else
              match init.resources.find? fun name => !isBackend name with
              | some name => s.reject lib
                  (.initError "RESOURCE_NOT_FOUND" ("no binding for name: " ++ name))
              | none =>
                  if (lib.marshalResponse .ack).length ≤ maxFrameBytes then
                    { s.write lib .ack with
                      phase := .serving (deref init.tenant) (deref init.actor) }
                  else s.close

/-- A later frame; none is a panic. -/
def serve (pick : Nat) (frame : Bytes) (tenant actor : String) (s : Session V) (store : Store V) :
    Option (Session V × Store V) :=
  match decodeRequest lib pick frame with
  | .error err => some (s.reject lib (.protocolError ("bad frame: " ++ err)), store)
  | .ok (variant, body) =>
      if variant = "Call" then
        match lib.unmarshalCall body with
        | .error _ => some (s.reject lib (.protocolError "bad Call"), store)
        | .ok call =>
            (dispatch lib store call tenant actor).map fun answer =>
              (s.write lib (.reply answer.1), answer.2)
      else if variant = "Drain" then some (s.write lib (.metrics emptyMetrics), store)
      else some (s.reject lib (.protocolError ("unexpected frame: " ++ variant)), store)

structure State (V : Type) where
  store : Store V
  sessions : Nat → Session V
  crashed : Bool

def State.initial : State V := ⟨fun _ => lib.null, fun _ => ⟨.handshake, []⟩, false⟩

/-- The next frame of a stream, or its end: no frame, a cut one or one beyond the cap. -/
inductive Action where
  | frame (session : Nat) (bytes : Bytes) (pick : Nat)
  | done (session : Nat)

def Action.session : Action → Nat
  | .frame session _ _ => session
  | .done session => session

def State.put (s : State V) (i : Nat) (session : Session V) : State V :=
  { s with sessions := fun j => if j = i then session else s.sessions j }

/-- One frame of one session; the lock of the store makes a call of a backend one step. -/
def step (token : String) (s : State V) (a : Action) : Option (State V) :=
  if s.crashed then none
  else
    match a with
    | .done i =>
        if (s.sessions i).phase = .closed then none else some (s.put i (s.sessions i).close)
    | .frame i bytes pick =>
        match (s.sessions i).phase with
        | .closed => none
        | .handshake => some (s.put i (handshake lib token pick bytes (s.sessions i)))
        | .serving tenant actor =>
            match serve lib pick bytes tenant actor (s.sessions i) s.store with
            | none => some { s with crashed := true }
            | some (session, store) => some { s.put i session with store }

/-! ### Keys of tenants -/

/-- One tenant's name, with the slash, starts the other's. -/
def Related (t u : String) : Prop :=
  (t.toList ++ ['/']) <+: (u.toList ++ ['/']) ∨ (u.toList ++ ['/']) <+: (t.toList ++ ['/'])

instance (t u : String) : Decidable (Related t u) := instDecidableOr

theorem storeKey_toList (tenant key : String) :
    (storeKey tenant key).toList = (tenant.toList ++ ['/']) ++ key.toList := by
  rw [storeKey, String.toList_append, String.toList_append]
  rfl

/-- Two tenants have a key of the store in common exactly when they are related. -/
theorem related_iff (t u : String) :
    Related t u ↔ ∃ k l, storeKey t k = storeKey u l := by
  constructor
  · rintro (⟨rest, hrest⟩ | ⟨rest, hrest⟩)
    · refine ⟨String.ofList rest, "", ?_⟩
      apply String.toList_injective
      rw [storeKey_toList, storeKey_toList, String.toList_ofList, hrest]
      simp
    · refine ⟨"", String.ofList rest, ?_⟩
      apply String.toList_injective
      rw [storeKey_toList, storeKey_toList, String.toList_ofList, ← hrest]
      simp
  · rintro ⟨k, l, heq⟩
    have hlist := congrArg String.toList heq
    rw [storeKey_toList, storeKey_toList] at hlist
    have ht : (t.toList ++ ['/']) <+: (t.toList ++ ['/'] ++ k.toList) := List.prefix_append _ _
    have hu : (u.toList ++ ['/']) <+: (t.toList ++ ['/'] ++ k.toList) := by
      rw [hlist]
      exact List.prefix_append _ _
    exact List.prefix_or_prefix_of_prefix ht hu

theorem prefix_plain {a b : List Char} (hb : '/' ∉ b) (h : (a ++ ['/']) <+: (b ++ ['/'])) :
    a = b := by
  obtain ⟨rest, hrest⟩ := h
  induction a generalizing b with
  | nil =>
      cases b with
      | nil => rfl
      | cons c b =>
          have hc : '/' = c := (List.cons.inj hrest).1
          exact absurd (hc ▸ List.mem_cons_self) hb
  | cons c a ih =>
      cases b with
      | nil =>
          have hlength := congrArg List.length hrest
          simp at hlength
      | cons d b =>
          obtain ⟨rfl, htail⟩ := List.cons.inj hrest
          rw [ih (fun hmem => hb (List.mem_cons_of_mem c hmem)) htail]

/-- The tenants below a name, itself with them. -/
def family (name t : String) : Bool := decide ((name.toList ++ ['/']) <+: (t.toList ++ ['/']))

theorem family_apart {name : String} (hname : '/' ∉ name.toList) (t u : String)
    (ht : family name t = true) (hu : family name u = false) : ¬Related t u := by
  have ht := of_decide_eq_true ht
  have hu := of_decide_eq_false hu
  rintro (h | h)
  · exact hu (ht.trans h)
  · rcases List.prefix_or_prefix_of_prefix ht h with hle | hle
    · exact hu hle
    · rw [prefix_plain hname hle] at hu
      exact hu (List.prefix_refl _)

/-! ### What a call sees and changes -/

/-- An answer that is the same for stores with the same values under the tenant's keys, and
changes the store under these keys alone. -/
structure Within {R : Type} (tenant : String) (answer : Store V → Option (R × Store V)) :
    Prop where
  agree : ∀ store other, (∀ k, other (storeKey tenant k) = store (storeKey tenant k)) →
    ∀ r after, answer store = some (r, after) →
      ∃ after', answer other = some (r, after') ∧
        ∀ key, other key = store key → after' key = after key
  panics : ∀ store other, answer store = none → answer other = none
  frame : ∀ store r after, answer store = some (r, after) →
    ∀ key, after key ≠ store key → ∃ k, key = storeKey tenant k

/-- An answer that leaves the store alone and does not look at it. -/
theorem within_const {R : Type} (tenant : String) (r : R) :
    Within tenant fun store : Store V => some (r, store) where
  agree := by
    intro store other _ r' after h
    obtain ⟨rfl, rfl⟩ := Prod.mk.inj (Option.some.inj h)
    exact ⟨other, rfl, fun _ h => h⟩
  panics := by
    intro store other h
    cases h
  frame := by
    intro store r' after h key hkey
    obtain ⟨rfl, rfl⟩ := Prod.mk.inj (Option.some.inj h)
    exact absurd rfl hkey

theorem Within.map {R R' : Type} {tenant : String} {answer : Store V → Option (R × Store V)}
    (h : Within tenant answer) (g : R → R') :
    Within tenant fun store => (answer store).map fun found => (g found.1, found.2) where
  agree := by
    intro store other hagree r after heq
    obtain ⟨found, hfound, hmap⟩ := Option.map_eq_some_iff.mp heq
    obtain ⟨rfl, rfl⟩ := Prod.mk.inj hmap
    obtain ⟨after', hother, hafter⟩ := h.agree store other hagree found.1 found.2 hfound
    exact ⟨after', by rw [hother]; rfl, hafter⟩
  panics := by
    intro store other heq
    rw [h.panics store other (Option.map_eq_none_iff.mp heq)]
    rfl
  frame := by
    intro store r after heq
    obtain ⟨found, hfound, hmap⟩ := Option.map_eq_some_iff.mp heq
    obtain ⟨rfl, rfl⟩ := Prod.mk.inj hmap
    exact h.frame store found.1 found.2 hfound

theorem within_cache (action : String) (p : Fields V) (tenant : String) :
    Within tenant fun store => cacheBackend lib store action p tenant := by
  unfold cacheBackend
  dsimp only
  split
  · refine ⟨?_, ?_, ?_⟩
    · intro store other _ r after h
      obtain ⟨rfl, rfl⟩ := Prod.mk.inj (Option.some.inj h)
      refine ⟨_, rfl, ?_⟩
      intro key hkey
      dsimp only
      rw [hkey]
    · intro store other h
      cases h
    · intro store r after h key hkey
      obtain ⟨rfl, rfl⟩ := Prod.mk.inj (Option.some.inj h)
      refine ⟨lib.sprint (Fields.get lib p "key"), ?_⟩
      by_contra hne
      exact hkey (if_neg hne)
  · split
    · refine ⟨?_, ?_, ?_⟩
      · intro store other hagree r after h
        obtain ⟨rfl, rfl⟩ := Prod.mk.inj (Option.some.inj h)
        refine ⟨other, ?_, fun _ h => h⟩
        rw [hagree]
      · intro store other h
        cases h
      · intro store r after h key hkey
        obtain ⟨rfl, rfl⟩ := Prod.mk.inj (Option.some.inj h)
        exact absurd rfl hkey
    · exact within_const tenant _

theorem within_orders (action : String) (p : Option (Fields V)) (tenant actor : String) :
    Within tenant fun store => ordersBackend lib store action p tenant actor := by
  unfold ordersBackend
  split
  · cases p with
    | none =>
        refine ⟨?_, fun _ _ _ => rfl, ?_⟩
        · intro store other _ r after h
          cases h
        · intro store r after h
          cases h
    | some p => exact within_const tenant _
  · exact within_const tenant _

theorem within_dispatch (call : WireCall) (tenant actor : String) :
    Within tenant fun store => dispatch lib store call tenant actor := by
  unfold dispatch
  split
  · cases readPayload lib call.payload with
    | error err => exact within_const tenant _
    | ok payload =>
        dsimp only
        split
        · exact within_cache lib call.action (payload.getD []) tenant
        · exact within_orders lib call.action payload tenant actor
  · exact within_const tenant _

theorem within_serve (pick : Nat) (frame : Bytes) (tenant actor : String) (session : Session V) :
    Within tenant fun store => serve lib pick frame tenant actor session store := by
  unfold serve
  cases decodeRequest lib pick frame with
  | error err => exact within_const tenant _
  | ok request =>
      dsimp only
      split
      · cases lib.unmarshalCall request.2 with
        | error err => exact within_const tenant _
        | ok call =>
            exact (within_dispatch lib call tenant actor).map fun r => session.write lib (.reply r)
      · split
        · exact within_const tenant _
        · exact within_const tenant _

/-! ### Tenants apart -/

section Isolation

variable (token : String) (ours : String → Bool) (kept : Nat → Bool)

/-- The states agree on the kept sessions and on the keys of their tenants. -/
structure Agree (s other : State V) : Prop where
  crashed : other.crashed = false
  sessions : ∀ i, kept i = true → other.sessions i = s.sessions i
  store : ∀ t k, ours t = true → other.store (storeKey t k) = s.store (storeKey t k)

/-- A session that is served has a tenant of its own side. -/
def Sided (s : State V) (a : Action) : Prop :=
  ∀ tenant actor, (s.sessions a.session).phase = .serving tenant actor →
    ours tenant = kept a.session

theorem put_session (s : State V) (i : Nat) (session : Session V) :
    (s.put i session).sessions i = session := if_pos rfl

theorem put_other (s : State V) {i j : Nat} (session : Session V) (h : j ≠ i) :
    (s.put i session).sessions j = s.sessions j := if_neg h

theorem step_running {s next : State V} {a : Action} (hstep : step lib token s a = some next) :
    s.crashed = false := by
  unfold step at hstep
  cases hcrashed : s.crashed with
  | false => rfl
  | true =>
      rw [hcrashed, if_pos rfl] at hstep
      cases hstep

/-- What one step does: it ends a stream, reads its first frame, or serves a later one. -/
inductive Stepped (s : State V) : Action → State V → Prop where
  | ended (i : Nat) (hopen : (s.sessions i).phase ≠ .closed) :
      Stepped s (.done i) (s.put i (s.sessions i).close)
  | opened (i pick : Nat) (bytes : Bytes) (hphase : (s.sessions i).phase = .handshake) :
      Stepped s (.frame i bytes pick) (s.put i (handshake lib token pick bytes (s.sessions i)))
  | served (i pick : Nat) (bytes : Bytes) (tenant actor : String) (session : Session V)
      (store : Store V) (hphase : (s.sessions i).phase = .serving tenant actor)
      (hserve : serve lib pick bytes tenant actor (s.sessions i) s.store = some (session, store)) :
      Stepped s (.frame i bytes pick) { s.put i session with store }
  | panicked (i pick : Nat) (bytes : Bytes) (tenant actor : String)
      (hphase : (s.sessions i).phase = .serving tenant actor)
      (hserve : serve lib pick bytes tenant actor (s.sessions i) s.store = none) :
      Stepped s (.frame i bytes pick) { s with crashed := true }

theorem step_iff (s next : State V) (a : Action) :
    step lib token s a = some next ↔ s.crashed = false ∧ Stepped lib token s a next := by
  constructor
  · intro hstep
    have hrunning := step_running lib token hstep
    refine ⟨hrunning, ?_⟩
    unfold step at hstep
    rw [hrunning, if_neg Bool.false_ne_true] at hstep
    cases a with
    | done i =>
        dsimp only at hstep
        split at hstep
        · cases hstep
        · obtain rfl := Option.some.inj hstep
          exact .ended i ‹_›
    | frame i bytes pick =>
        dsimp only at hstep
        split at hstep
        · cases hstep
        · obtain rfl := Option.some.inj hstep
          exact .opened i pick bytes ‹_›
        · split at hstep
          · obtain rfl := Option.some.inj hstep
            exact .panicked i pick bytes _ _ ‹_› ‹_›
          · obtain rfl := Option.some.inj hstep
            exact .served i pick bytes _ _ _ _ ‹_› ‹_›
  · rintro ⟨hrunning, hstepped⟩
    unfold step
    rw [hrunning, if_neg Bool.false_ne_true]
    cases hstepped with
    | ended i hopen => exact if_neg hopen
    | opened i pick bytes hphase =>
        dsimp only
        rw [hphase]
    | served i pick bytes tenant actor session store hphase hserve =>
        dsimp only
        rw [hphase]
        dsimp only
        rw [hserve]
    | panicked i pick bytes tenant actor hphase hserve =>
        dsimp only
        rw [hphase]
        dsimp only
        rw [hserve]

theorem Agree.put {s other : State V} (h : Agree ours kept s other) (i : Nat)
    (session : Session V) :
    Agree ours kept (s.put i session) (other.put i session) where
  crashed := h.crashed
  sessions := by
    intro j hj
    by_cases heq : j = i
    · subst heq
      rw [put_session, put_session]
    · rw [put_other _ _ heq, put_other _ _ heq, h.sessions j hj]
  store := h.store

/-- What is put into a session that is not kept is not seen. -/
theorem Agree.put_left {s other : State V} (h : Agree ours kept s other) {i : Nat}
    (hi : kept i = false) (session : Session V) : Agree ours kept (s.put i session) other where
  crashed := h.crashed
  sessions := by
    intro j hj
    rw [put_other, h.sessions j hj]
    rintro rfl
    rw [hi] at hj
    cases hj
  store := h.store

/-- A step of a kept session goes through in a state that agrees. -/
theorem kept_step {s other next : State V} {a : Action} (hagree : Agree ours kept s other)
    (hsided : Sided ours kept s a) (ha : kept a.session = true)
    (hstep : step lib token s a = some next) :
    ∃ next', step lib token other a = some next' ∧
      (next.crashed = false → Agree ours kept next next') := by
  obtain ⟨_, hstepped⟩ := (step_iff lib token s next a).mp hstep
  have hsession := hagree.sessions _ ha
  cases hstepped with
  | ended i hopen =>
      rw [Action.session] at hsession
      refine ⟨_, (step_iff lib token other _ _).mpr ⟨hagree.crashed, .ended i ?_⟩, fun _ => ?_⟩
      · rwa [hsession]
      · rw [hsession]
        exact hagree.put ours kept i _
  | opened i pick bytes hphase =>
      rw [Action.session] at hsession
      refine ⟨_, (step_iff lib token other _ _).mpr
        ⟨hagree.crashed, .opened i pick bytes (by rwa [hsession])⟩, fun _ => ?_⟩
      rw [hsession]
      exact hagree.put ours kept i _
  | served i pick bytes tenant actor session store hphase hserve =>
      rw [Action.session] at hsession ha
      have htenant : ours tenant = true := (hsided tenant actor hphase).trans ha
      obtain ⟨after, hother, hafter⟩ :=
        (within_serve lib pick bytes tenant actor (s.sessions i)).agree s.store other.store
          (fun k => hagree.store tenant k htenant) session store hserve
      rw [← hsession] at hother
      refine ⟨_, (step_iff lib token other _ _).mpr ⟨hagree.crashed,
        .served i pick bytes tenant actor session after (by rwa [hsession]) hother⟩, fun _ => ?_⟩
      have hput := hagree.put ours kept i session
      exact ⟨hput.crashed, hput.sessions, fun t k ht => hafter _ (hagree.store t k ht)⟩
  | panicked i pick bytes tenant actor hphase hserve =>
      rw [Action.session] at hsession
      have hother := (within_serve lib pick bytes tenant actor (s.sessions i)).panics s.store
        other.store hserve
      rw [← hsession] at hother
      exact ⟨_, (step_iff lib token other _ _).mpr ⟨hagree.crashed,
        .panicked i pick bytes tenant actor (by rwa [hsession]) hother⟩, Bool.noConfusion⟩

/-- A step of another session changes nothing that the agreement is about. -/
theorem left_step (hours : ∀ t u, ours t = true → ours u = false → ¬Related t u)
    {s other next : State V} {a : Action} (hagree : Agree ours kept s other)
    (hsided : Sided ours kept s a) (ha : kept a.session = false)
    (hstep : step lib token s a = some next) (hnext : next.crashed = false) :
    Agree ours kept next other := by
  obtain ⟨_, hstepped⟩ := (step_iff lib token s next a).mp hstep
  cases hstepped with
  | ended i hopen => exact hagree.put_left ours kept ha _
  | opened i pick bytes hphase => exact hagree.put_left ours kept ha _
  | served i pick bytes tenant actor session store hphase hserve =>
      have htenant : ours tenant = false := (hsided tenant actor hphase).trans ha
      have hput := hagree.put_left ours kept ha session
      refine ⟨hput.crashed, hput.sessions, ?_⟩
      intro t k ht
      rw [hagree.store t k ht]
      by_contra hchanged
      obtain ⟨l, hl⟩ := (within_serve lib pick bytes tenant actor (s.sessions i)).frame
        s.store session store hserve (storeKey t k) (fun h => hchanged h.symm)
      exact hours t tenant ht htenant ((related_iff t tenant).mpr ⟨k, l, hl⟩)
  | panicked i pick bytes tenant actor hphase hserve => cases hnext

/-- Sessions on unrelated sides of the tenants see nothing of each other, as long as no call
ends the process: without the other sessions the kept ones are answered the same. -/
theorem sessions_isolated (hours : ∀ t u, ours t = true → ours u = false → ¬Related t u)
    (actions : List Action) (final : State V)
    (hrun : run (step lib token) (State.initial lib) actions = some final)
    (hsided : Guarded (step lib token) (Sided ours kept) (State.initial lib) actions)
    (hfinal : final.crashed = false) :
    ∃ alone, run (step lib token) (State.initial lib)
        (actions.filter fun a => kept a.session) = some alone ∧
      ∀ i, kept i = true → alone.sessions i = final.sessions i := by
  have hinitial : (State.initial lib).crashed = false →
      Agree ours kept (State.initial lib) (State.initial lib) :=
    fun _ => ⟨rfl, fun _ _ => rfl, fun _ _ _ => rfl⟩
  obtain ⟨alone, halone, hagree⟩ := run_kept (step lib token) (Sided ours kept)
    (fun a => kept a.session) (fun s other => s.crashed = false → Agree ours kept s other)
    (by
      intro s other a next hs hga ha hstep
      exact kept_step lib token ours kept (hs (step_running lib token hstep)) hga ha hstep)
    (by
      intro s other a next hs hga ha hstep
      exact left_step lib token ours kept hours (hs (step_running lib token hstep)) hga ha hstep)
    (State.initial lib) (State.initial lib) final actions hinitial hsided hrun
  exact ⟨alone, halone, (hagree hfinal).sessions⟩

end Isolation

/-! ### Two tenants -/

def utf8 (text : String) : Bytes := text.toList.map fun c => UInt8.ofNat c.toNat

def initFrame (tenant : String) : Bytes :=
  utf8 ("\x7b\"Init\":\x7b\"resources\":[\"cache\"],\"timeout_ms\":1,\"tenant\":\"" ++ tenant ++
    "\"\x7d\x7d")

def initBody (tenant : String) : Bytes :=
  utf8 ("\x7b\"resources\":[\"cache\"],\"timeout_ms\":1,\"tenant\":\"" ++ tenant ++ "\"\x7d")

def getCall : WireCall := ⟨"cache", "get", "\x7b\"key\":\"k\"\x7d"⟩

def setCall : WireCall := ⟨"cache", "set", "\x7b\"key\":\"k\",\"value\":\"v\"\x7d"⟩

def callBody (payload : String) (action : String) : Bytes :=
  utf8 ("\x7b\"name\":\"cache\",\"action\":\"" ++ action ++ "\",\"payload\":" ++ payload ++ "\x7d")

def getBody : Bytes := callBody "\"\x7b\\\"key\\\":\\\"k\\\"\x7d\"" "get"

def setBody : Bytes :=
  callBody "\"\x7b\\\"key\\\":\\\"k\\\",\\\"value\\\":\\\"v\\\"\x7d\"" "set"

def callFrame (body : Bytes) : Bytes := utf8 "\x7b\"Call\":" ++ body ++ utf8 "\x7d"

def quoted (text : String) : String :=
  "\"" ++ String.ofList (text.toList.flatMap fun c =>
    if c.toNat = 34 then [Char.ofNat 92, c] else [c]) ++ "\""

def responseText : WireResponse (BackendMetrics String) → String
  | .reply (.ok text) => "\x7b\"Reply\":\x7b\"Ok\":" ++ quoted text ++ "\x7d\x7d"
  | _ => quoted "Ack"

/-- Evaluates whether a served session is on its own side. -/
def sidedTest (s : State String) (a : Action) : Bool :=
  match (s.sessions a.session).phase with
  | .serving tenant _ => family "a" tenant == (a.session == 0)
  | _ => true

theorem sided_of_test (s : State String) (a : Action) (h : sidedTest s a = true) :
    Sided (family "a") (· == 0) s a := by
  intro tenant actor hphase
  rw [sidedTest, hphase] at h
  exact eq_of_beq h

/-- The library on the frames below, values by their JSON text. -/
def sampleLibrary : GoLibrary String where
  null := "null"
  ofString text := "\"" ++ text ++ "\""
  trimSpace frame := frame
  unmarshalString _ := .error "unexpected end of JSON input"
  unmarshalObject frame :=
    if frame = initFrame "a" then .ok [("Init", initBody "a")]
    else if frame = initFrame "b" then .ok [("Init", initBody "b")]
    else if frame = callFrame getBody then .ok [("Call", getBody)]
    else if frame = callFrame setBody then .ok [("Call", setBody)]
    else .error "unexpected end of JSON input"
  unmarshalInit body :=
    if body = initBody "a" then .ok ⟨["cache"], 1, some "a", none, none⟩
    else if body = initBody "b" then .ok ⟨["cache"], 1, some "b", none, none⟩
    else .error "unexpected end of JSON input"
  unmarshalCall body :=
    if body = getBody then .ok getCall
    else if body = setBody then .ok setCall
    else .error "unexpected end of JSON input"
  unmarshalPayload payload :=
    if payload = getCall.payload then .ok (some [("key", "\"k\"")])
    else if payload = setCall.payload then .ok (some [("key", "\"k\""), ("value", "\"v\"")])
    else .error "unexpected end of JSON input"
  marshal fields := "\x7b" ++ ",".intercalate (fields.map fun field =>
    "\"" ++ field.1 ++ "\":" ++ field.2) ++ "\x7d"
  marshalResponse response := utf8 (responseText response)
  sprint value := if value = "\"k\"" then "k" else value

/-- The set of one tenant and the get of the other, on streams of their own. -/
def twoTenants : List Action :=
  [.frame 0 (initFrame "a") 0, .frame 1 (initFrame "b") 0, .frame 1 (callFrame setBody) 0,
    .frame 0 (callFrame getBody) 0, .done 1]

theorem sessions_isolated_two :
    ∃ final alone,
      run (step sampleLibrary "") (State.initial sampleLibrary) twoTenants = some final ∧
      run (step sampleLibrary "") (State.initial sampleLibrary)
        (twoTenants.filter fun a => a.session == 0) = some alone ∧
      alone.sessions 0 = final.sessions 0 := by
  have hsided : Guarded (step sampleLibrary "") (Sided (family "a") (· == 0))
      (State.initial sampleLibrary) twoTenants := by
    apply guarded_of_tested _ _ sidedTest sided_of_test
    rfl
  obtain ⟨alone, halone, hsame⟩ := sessions_isolated sampleLibrary "" (family "a") (· == 0)
    (family_apart (by decide)) twoTenants _ rfl hsided rfl
  exact ⟨_, alone, rfl, halone, hsame 0 rfl⟩

end Runlet.GoBroker
