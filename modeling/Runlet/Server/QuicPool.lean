import Mathlib.Data.List.Basic
import Mathlib.Logic.Function.Basic
import Runlet.Lib.Transition

/-!
The shared connection of `QuicClient` (`broker.rs`) under concurrent `open_session`
calls. The lock is held across a whole `connect_any`, and for one look or one write
otherwise; a stream is opened without it. A call may be dropped at any await, which
gives the lock back, and a connection may close at any time. Connections are numbered
in the order in which they were dialed.
-/

namespace Runlet.QuicPool

open Transition

variable {Address : Type}

structure Connection (Address : Type) where
  replica : String
  address : Address
  live : Bool

/-- Where a call of `open_session` stands. `stale` is the connection on which its first
stream could not be opened. -/
inductive Phase (Address : Type) where
  | absent
  /-- `live_connection` waits for the lock -/
  | locking (stale : Option Nat)
  /-- `connect_any` resolves the next replica -/
  | resolving (stale : Option Nat) (replicas : List String) (lastError : Option String)
  /-- `connect_any` dials the next address of a replica -/
  | dialing (stale : Option Nat) (replica : String) (addresses : List Address)
      (replicas : List String) (lastError : Option String)
  | opening (stale : Option Nat) (connection : Nat)
  /-- `invalidate` waits for the lock -/
  | invalidating (stale : Nat)
  | done (stale : Option Nat) (result : Except String Nat)

def Phase.connecting : Phase Address → Bool
  | .resolving _ _ _ => true
  | .dialing _ _ _ _ _ => true
  | _ => false

structure State (Address : Type) where
  connections : List (Connection Address)
  /-- what the mutex guards -/
  cached : Option Nat
  holder : Option Nat
  sessions : Nat → Phase Address
  /-- every answer a replica name resolved to -/
  answers : List (String × List Address)

def State.initial : State Address := ⟨[], none, none, fun _ => .absent, []⟩

inductive Action (Address : Type) where
  | arrive (i : Nat)
  | lock (i : Nat)
  | lookup (i : Nat) (answer : Except String (List Address))
  | dial (i : Nat) (result : Except String Unit)
  | openStream (i : Nat) (result : Except String Unit)
  | close (connection : Nat)
  | drop (i : Nat)

def State.move (s : State Address) (i : Nat) (phase : Phase Address) : State Address :=
  { s with sessions := Function.update s.sessions i phase }

def State.isLive (s : State Address) (connection : Nat) : Bool :=
  (s.connections[connection]?).any Connection.live

def State.close (s : State Address) (connection : Nat) : State Address :=
  { s with connections := s.connections.modify connection fun c => { c with live := false } }

/-- The cached connection if it is still open. -/
def State.usable (s : State Address) : Option Nat := s.cached.filter s.isLive

def noAddresses : String := "no broker replica addresses to connect to"

/-- The next turn of the two loops of `connect_any`. -/
def State.advance (s : State Address) (i : Nat) (stale : Option Nat) (replica : String)
    (addresses : List Address) (replicas : List String) (lastError : Option String) :
    State Address :=
  match addresses, replicas with
  | _ :: _, _ => s.move i (.dialing stale replica addresses replicas lastError)
  | [], _ :: _ => s.move i (.resolving stale replicas lastError)
  | [], [] =>
      { s.move i (.done stale (.error (lastError.getD noAddresses))) with holder := none }

def step (replicas : List String) (s : State Address) : Action Address → Option (State Address)
  | .arrive i =>
      match s.sessions i with
      | .absent => some (s.move i (.locking none))
      | _ => none
  | .lock i =>
      match s.sessions i, s.holder with
      | .locking stale, none =>
          match s.usable with
          | some connection => some (s.move i (.opening stale connection))
          | none => some (State.advance { s with holder := some i } i stale "" [] replicas none)
      | .invalidating stale, none => some { s.move i (.locking (some stale)) with cached := none }
      | _, _ => none
  | .lookup i answer =>
      match s.sessions i with
      | .resolving stale (replica :: rest) lastError =>
          match answer with
          | .ok addresses =>
              some (State.advance { s with answers := (replica, addresses) :: s.answers } i stale
                replica addresses rest lastError)
          | .error err => some (s.advance i stale replica [] rest (some err))
      | _ => none
  | .dial i result =>
      match s.sessions i with
      | .dialing stale replica (address :: addresses) rest _ =>
          match result with
          | .ok () =>
              some { s.move i (.opening stale s.connections.length) with
                connections := s.connections ++ [⟨replica, address, true⟩]
                cached := some s.connections.length
                holder := none }
          | .error err => some (s.advance i stale replica addresses rest (some err))
      | _ => none
  | .openStream i result =>
      match s.sessions i with
      | .opening stale connection =>
          match result, stale with
          | .ok (), _ =>
              if s.isLive connection then some (s.move i (.done stale (.ok connection))) else none
          | .error _, none => some (s.move i (.invalidating connection))
          | .error err, some _ => some (s.move i (.done stale (.error err)))
      | _ => none
  | .close connection => some (s.close connection)
  | .drop i =>
      some { s.move i .absent with holder := if s.holder = some i then none else s.holder }

/-! ### What a call can rely on -/

/-- Where the retry of a call stands, the connection its first stream failed on. -/
def Phase.stale : Phase Address → Option Nat
  | .absent => none
  | .locking stale => stale
  | .resolving stale _ _ => stale
  | .dialing stale _ _ _ _ => stale
  | .opening stale _ => stale
  | .invalidating _ => none
  | .done stale _ => stale

/-- The connection a call has in hand. -/
def Phase.connection : Phase Address → Option Nat
  | .opening _ connection => some connection
  | .invalidating connection => some connection
  | .done _ (.ok connection) => some connection
  | _ => none

/-- The part of the scan that is still to be done comes from the configuration and from
what its names resolved to. -/
def Phase.Scans (replicas : List String) (answers : List (String × List Address)) :
    Phase Address → Prop
  | .resolving _ rest _ => ∀ replica ∈ rest, replica ∈ replicas
  | .dialing _ replica addresses rest _ =>
      replica ∈ replicas ∧ (∀ replica ∈ rest, replica ∈ replicas) ∧
        ∃ answer, (replica, answer) ∈ answers ∧ ∀ address ∈ addresses, address ∈ answer
  | _ => True

structure Phase.Sound (replicas : List String) (s : State Address) (phase : Phase Address) :
    Prop where
  known : ∀ c, phase.connection = some c → c < s.connections.length
  past : ∀ stale, phase.stale = some stale → stale < s.connections.length
  cachedNewer : ∀ stale, phase.stale = some stale → ∀ c, s.cached = some c → stale < c
  heldNewer : ∀ stale, phase.stale = some stale → ∀ c, phase.connection = some c → stale < c
  scans : phase.Scans replicas s.answers

/-- The cache is emptied, or filled with a connection newer than all there were. -/
structure Later (s s' : State Address) : Prop where
  answers : ∀ entry ∈ s.answers, entry ∈ s'.answers
  connections : s.connections.length ≤ s'.connections.length
  cached : ∀ c, s'.cached = some c → s.cached = some c ∨ s.connections.length ≤ c

theorem Phase.Sound.later {replicas : List String} {s s' : State Address} {phase : Phase Address}
    (h : phase.Sound replicas s) (hlater : Later s s') : phase.Sound replicas s' := by
  refine ⟨?_, ?_, ?_, h.heldNewer, ?_⟩
  · intro c hc
    exact Nat.lt_of_lt_of_le (h.known c hc) hlater.connections
  · intro stale hstale
    exact Nat.lt_of_lt_of_le (h.past stale hstale) hlater.connections
  · intro stale hstale c hc
    rcases hlater.cached c hc with hold | hnew
    · exact h.cachedNewer stale hstale c hold
    · exact Nat.lt_of_lt_of_le (h.past stale hstale) hnew
  · have hscans := h.scans
    cases phase with
    | dialing stale replica addresses rest lastError =>
        obtain ⟨hreplica, hrest, answer, hanswer, haddresses⟩ := hscans
        exact ⟨hreplica, hrest, answer, hlater.answers _ hanswer, haddresses⟩
    | _ => exact hscans

/-- The part of a phase that scans nothing and holds no connection. -/
theorem sound_of_stale {replicas : List String} {s : State Address} {phase next : Phase Address}
    (h : phase.Sound replicas s) (hstale : next.stale = phase.stale)
    (hconnection : next.connection = none) (hscans : next.Scans replicas s.answers) :
    next.Sound replicas s := by
  refine ⟨?_, ?_, ?_, ?_, hscans⟩
  · intro c hc
    rw [hconnection] at hc
    cases hc
  · rw [hstale]
    exact h.past
  · rw [hstale]
    exact h.cachedNewer
  · intro _ _ c hc
    rw [hconnection] at hc
    cases hc

structure Inv (replicas : List String) (s : State Address) : Prop where
  sound : ∀ i, (s.sessions i).Sound replicas s
  holds : ∀ i, (s.sessions i).connecting = true ↔ s.holder = some i
  cachedKnown : ∀ c, s.cached = some c → c < s.connections.length
  unusable : ∀ i, s.holder = some i → s.usable = none
  dialed : ∀ c ∈ s.connections, c.replica ∈ replicas ∧
    ∃ answer, (c.replica, answer) ∈ s.answers ∧ c.address ∈ answer

theorem inv_initial (replicas : List String) : Inv replicas (State.initial : State Address) where
  sound _ := by
    refine ⟨?_, ?_, ?_, ?_, trivial⟩
    all_goals
      intro _ h
      cases h
  holds _ := by
    constructor <;> intro h <;> cases h
  cachedKnown _ h := by cases h
  unusable _ h := by cases h
  dialed _ h := by cases h

@[simp] theorem move_self (s : State Address) (i : Nat) (phase : Phase Address) :
    (s.move i phase).sessions i = phase := by
  simp [State.move]

theorem move_other (s : State Address) (i j : Nat) (phase : Phase Address) (h : j ≠ i) :
    (s.move i phase).sessions j = s.sessions j := by
  simp [State.move, h]

/-- One call moves to a sound phase, nobody else moves, and the state gets later. -/
theorem sound_step {replicas : List String} {s s' : State Address} {i : Nat}
    {phase : Phase Address} (h : Inv replicas s) (hlater : Later s s')
    (hsessions : s'.sessions = Function.update s.sessions i phase)
    (hphase : phase.Sound replicas s') (j : Nat) : (s'.sessions j).Sound replicas s' := by
  rw [hsessions]
  by_cases hji : j = i
  · subst hji
    rw [Function.update_self]
    exact hphase
  · rw [Function.update_of_ne hji]
    exact (h.sound j).later hlater

/-- Only the call that moves takes or gives back the lock. -/
theorem holds_step {replicas : List String} {s s' : State Address} {i : Nat}
    {phase : Phase Address} (h : Inv replicas s)
    (hsessions : s'.sessions = Function.update s.sessions i phase)
    (hself : phase.connecting = true ↔ s'.holder = some i)
    (hothers : ∀ j, j ≠ i → (s'.holder = some j ↔ s.holder = some j)) (j : Nat) :
    (s'.sessions j).connecting = true ↔ s'.holder = some j := by
  rw [hsessions]
  by_cases hji : j = i
  · subst hji
    rw [Function.update_self]
    exact hself
  · rw [Function.update_of_ne hji, hothers j hji]
    exact h.holds j

/-- What a turn of the loops does: the scan goes on with the lock held, or ends without it. -/
theorem advance_cases (s : State Address) (i : Nat) (stale : Option Nat) (replica : String)
    (addresses : List Address) (rest : List String) (lastError : Option String)
    (replicas : List String) (hholder : s.holder = some i)
    (hrest : ∀ replica ∈ rest, replica ∈ replicas)
    (haddresses : addresses = [] ∨ replica ∈ replicas ∧
      ∃ answer, (replica, answer) ∈ s.answers ∧ ∀ address ∈ addresses, address ∈ answer) :
    ∃ phase holder, s.advance i stale replica addresses rest lastError =
        { s.move i phase with holder := holder } ∧
      phase.stale = stale ∧ phase.connection = none ∧ phase.Scans replicas s.answers ∧
      (phase.connecting = true ∧ holder = some i ∨ phase.connecting = false ∧ holder = none) := by
  cases addresses with
  | cons address addresses =>
      obtain ⟨hreplica, hanswer⟩ := haddresses.resolve_left (List.cons_ne_nil _ _)
      refine ⟨.dialing stale replica (address :: addresses) rest lastError, s.holder, rfl, rfl, rfl,
        ⟨hreplica, hrest, hanswer⟩, .inl ⟨rfl, hholder⟩⟩
  | nil =>
      cases rest with
      | cons next rest =>
          exact ⟨.resolving stale (next :: rest) lastError, s.holder, rfl, rfl, rfl, hrest,
            .inl ⟨rfl, hholder⟩⟩
      | nil =>
          exact ⟨.done stale (.error (lastError.getD noAddresses)), none, rfl, rfl, rfl, trivial,
            .inr ⟨rfl, rfl⟩⟩

theorem usable_congr {s t : State Address} (hconnections : t.connections = s.connections)
    (hcached : t.cached = s.cached) : t.usable = s.usable := by
  have hlive : t.isLive = s.isLive := by
    funext c
    simp only [State.isLive, hconnections]
  rw [State.usable, State.usable, hcached, hlive]

/-- A call goes on with its scan under the lock. -/
theorem inv_advance {replicas : List String} {s t : State Address} {i : Nat}
    {stale : Option Nat} {replica : String} {addresses : List Address} {rest : List String}
    {lastError : Option String} (h : Inv replicas s)
    (hanswers : ∀ entry ∈ s.answers, entry ∈ t.answers) (hsessions : t.sessions = s.sessions)
    (hconnections : t.connections = s.connections) (hcached : t.cached = s.cached)
    (hholder : t.holder = some i) (hfree : ∀ j, s.holder = some j → j = i)
    (husable : s.usable = none) (hstale : stale = (s.sessions i).stale)
    (hrest : ∀ replica ∈ rest, replica ∈ replicas)
    (haddresses : addresses = [] ∨ replica ∈ replicas ∧
      ∃ answer, (replica, answer) ∈ t.answers ∧ ∀ address ∈ addresses, address ∈ answer) :
    Inv replicas (t.advance i stale replica addresses rest lastError) := by
  obtain ⟨phase, holder, heq, hphase, hconnection, hscans, hends⟩ :=
    advance_cases t i stale replica addresses rest lastError replicas hholder hrest haddresses
  have hlater : Later s { t.move i phase with holder := holder } := by
    refine ⟨hanswers, Nat.le_of_eq (congrArg List.length hconnections.symm), ?_⟩
    intro c hc
    exact .inl (hcached ▸ hc)
  have hmoved : State.sessions { t.move i phase with holder := holder } =
      Function.update s.sessions i phase := by
    rw [← hsessions]
    rfl
  rw [heq]
  refine ⟨?_, ?_, ?_, ?_, ?_⟩
  · apply sound_step h hlater hmoved
    have hold : (s.sessions i).Sound replicas { t.move i phase with holder := holder } :=
      (h.sound i).later hlater
    exact sound_of_stale hold (hphase.trans hstale) hconnection hscans
  · apply holds_step h hmoved
    · rcases hends with ⟨hconnecting, hheld⟩ | ⟨hconnecting, hheld⟩
      · simp [hconnecting, hheld]
      · simp [hconnecting, hheld]
    · intro j hji
      have hnot : s.holder ≠ some j := fun hj => hji (hfree j hj)
      rcases hends with ⟨_, hheld⟩ | ⟨_, hheld⟩
      · simp [hheld, hnot, Ne.symm hji]
      · simp [hheld, hnot]
  · intro c hc
    have hold := h.cachedKnown c (hcached ▸ hc)
    exact hconnections ▸ hold
  · intro j _
    exact (usable_congr hconnections hcached).trans husable
  · intro c hc
    obtain ⟨hreplica, answer, hanswer, haddress⟩ := h.dialed c (hconnections ▸ hc)
    exact ⟨hreplica, answer, hanswers _ hanswer, haddress⟩

/-- A call outside the scan moves to a phase outside the scan. -/
theorem inv_move {replicas : List String} {s : State Address} {i : Nat} {phase : Phase Address}
    (h : Inv replicas s) (hfrom : (s.sessions i).connecting = false)
    (hto : phase.connecting = false) (hphase : phase.Sound replicas s) :
    Inv replicas (s.move i phase) where
  sound := by
    have hlater : Later s (s.move i phase) :=
      ⟨fun _ hentry => hentry, Nat.le_refl _, fun _ hc => .inl hc⟩
    exact sound_step h hlater rfl (hphase.later hlater)
  holds := by
    apply holds_step h rfl
    · have hnot := h.holds i
      rw [hfrom] at hnot
      rw [hto]
      exact hnot
    · intro j _
      rfl
  cachedKnown := h.cachedKnown
  unusable := h.unusable
  dialed := h.dialed

theorem usable_eq_some {s : State Address} {c : Nat} (h : s.usable = some c) :
    s.cached = some c ∧ s.isLive c = true := Option.filter_eq_some_iff.mp h

theorem inv_lock {replicas : List String} {s next : State Address} {i : Nat}
    (h : Inv replicas s) (hstep : step replicas s (.lock i) = some next) : Inv replicas next := by
  have hsound := h.sound i
  simp only [step] at hstep
  split at hstep
  · rename_i stale hphase hholder
    rw [hphase] at hsound
    have hfrom : (s.sessions i).connecting = false := by
      rw [hphase]
      rfl
    split at hstep
    · rename_i c husable
      obtain rfl := Option.some.inj hstep
      obtain ⟨hcached, _⟩ := usable_eq_some husable
      apply inv_move h hfrom rfl
      refine ⟨?_, hsound.past, hsound.cachedNewer, ?_, trivial⟩
      · intro held hheld
        obtain rfl := Option.some.inj hheld
        exact h.cachedKnown c hcached
      · intro old hold held hheld
        obtain rfl := Option.some.inj hheld
        exact hsound.cachedNewer old hold c hcached
    · rename_i husable
      obtain rfl := Option.some.inj hstep
      apply inv_advance (t := { s with holder := some i }) h (fun _ hentry => hentry) rfl rfl rfl rfl
      · intro j hj
        rw [hholder] at hj
        cases hj
      · exact husable
      · rw [hphase]
        rfl
      · exact fun _ hreplica => hreplica
      · exact .inl rfl
  · rename_i stale hphase hholder
    obtain rfl := Option.some.inj hstep
    rw [hphase] at hsound
    have hlater : Later s { s.move i (.locking (some stale)) with cached := none } := by
      refine ⟨fun _ hentry => hentry, Nat.le_refl _, ?_⟩
      intro c hc
      cases hc
    refine ⟨?_, ?_, ?_, ?_, h.dialed⟩
    · apply sound_step h hlater rfl
      refine ⟨?_, ?_, ?_, ?_, trivial⟩
      · intro c hc
        cases hc
      · intro old hold
        obtain rfl := Option.some.inj hold
        exact hsound.known stale rfl
      · intro _ _ c hc
        cases hc
      · intro _ _ c hc
        cases hc
    · apply holds_step h rfl
      · simp [Phase.connecting, State.move, hholder]
      · intro j _
        rfl
    · intro c hc
      cases hc
    · intro _ _
      rfl
  · cases hstep

theorem inv_lookup {replicas : List String} {s next : State Address} {i : Nat}
    {answer : Except String (List Address)} (h : Inv replicas s)
    (hstep : step replicas s (.lookup i answer) = some next) : Inv replicas next := by
  simp only [step] at hstep
  split at hstep
  · rename_i stale replica rest lastError hphase
    have hholder : s.holder = some i := (h.holds i).mp (by rw [hphase]; rfl)
    have hscans := (h.sound i).scans
    rw [hphase] at hscans
    have hfree : ∀ j, s.holder = some j → j = i := by
      intro j hj
      exact Option.some.inj (hj.symm.trans hholder)
    have hrest : ∀ other ∈ rest, other ∈ replicas := by
      intro other hother
      exact hscans other (List.mem_cons_of_mem replica hother)
    have hstale : stale = (s.sessions i).stale := by
      rw [hphase]
      rfl
    split at hstep
    · rename_i addresses
      obtain rfl := Option.some.inj hstep
      apply inv_advance (t := { s with answers := (replica, addresses) :: s.answers }) h _ rfl rfl
        rfl hholder hfree (h.unusable i hholder) hstale hrest
      · right
        refine ⟨hscans replica List.mem_cons_self, addresses, List.mem_cons_self, ?_⟩
        exact fun _ haddress => haddress
      · exact fun _ hentry => List.mem_cons_of_mem _ hentry
    · obtain rfl := Option.some.inj hstep
      exact inv_advance h (fun _ hentry => hentry) rfl rfl rfl hholder hfree
        (h.unusable i hholder) hstale hrest (.inl rfl)
  · cases hstep

theorem inv_dial {replicas : List String} {s next : State Address} {i : Nat}
    {result : Except String Unit} (h : Inv replicas s)
    (hstep : step replicas s (.dial i result) = some next) : Inv replicas next := by
  simp only [step] at hstep
  split at hstep
  · rename_i stale replica address addresses rest lastError hphase
    have hholder : s.holder = some i := (h.holds i).mp (by rw [hphase]; rfl)
    have hsound := h.sound i
    rw [hphase] at hsound
    obtain ⟨hreplica, hrest, answer, hanswer, haddresses⟩ := hsound.scans
    split at hstep
    · obtain rfl := Option.some.inj hstep
      have hlater : Later s { s.move i (.opening stale s.connections.length) with
          connections := s.connections ++ [⟨replica, address, true⟩]
          cached := some s.connections.length
          holder := none } := by
        refine ⟨fun _ hentry => hentry, by simp, ?_⟩
        intro c hc
        right
        exact Nat.le_of_eq (Option.some.inj hc)
      refine ⟨?_, ?_, ?_, ?_, ?_⟩
      · apply sound_step h hlater rfl
        refine ⟨?_, ?_, ?_, ?_, trivial⟩
        · intro c hc
          obtain rfl := Option.some.inj hc
          simp
        · intro old hold
          have hpast := hsound.past old hold
          simp
          omega
        · intro old hold c hc
          obtain rfl := Option.some.inj hc
          exact hsound.past old hold
        · intro old hold c hc
          obtain rfl := Option.some.inj hc
          exact hsound.past old hold
      · apply holds_step h rfl
        · simp [Phase.connecting]
        · intro j hji
          simp [hholder, Ne.symm hji]
      · intro c hc
        obtain rfl := Option.some.inj hc
        simp
      · intro j hj
        cases hj
      · intro c hc
        rcases List.mem_append.mp hc with hold | hnew
        · exact h.dialed c hold
        · obtain rfl := List.mem_singleton.mp hnew
          exact ⟨hreplica, answer, hanswer, haddresses address List.mem_cons_self⟩
    · obtain rfl := Option.some.inj hstep
      apply inv_advance h (fun _ hentry => hentry) rfl rfl rfl hholder _ (h.unusable i hholder) _ hrest
      · right
        refine ⟨hreplica, answer, hanswer, ?_⟩
        exact fun other hother => haddresses other (List.mem_cons_of_mem address hother)
      · intro j hj
        exact Option.some.inj (hj.symm.trans hholder)
      · rw [hphase]
        rfl
  · cases hstep

theorem inv_openStream {replicas : List String} {s next : State Address} {i : Nat}
    {result : Except String Unit} (h : Inv replicas s)
    (hstep : step replicas s (.openStream i result) = some next) : Inv replicas next := by
  simp only [step] at hstep
  split at hstep
  · rename_i stale c hphase
    have hfrom : (s.sessions i).connecting = false := by
      rw [hphase]
      rfl
    have hsound := h.sound i
    rw [hphase] at hsound
    split at hstep
    · simp only [Option.ite_none_right_eq_some, Option.some.injEq] at hstep
      obtain ⟨_, rfl⟩ := hstep
      exact inv_move h hfrom rfl
        ⟨hsound.known, hsound.past, hsound.cachedNewer, hsound.heldNewer, trivial⟩
    · obtain rfl := Option.some.inj hstep
      apply inv_move h hfrom rfl
      exact ⟨hsound.known, hsound.past, hsound.cachedNewer, hsound.heldNewer, trivial⟩
    · obtain rfl := Option.some.inj hstep
      exact inv_move h hfrom rfl (sound_of_stale hsound rfl rfl trivial)
  · cases hstep

theorem isLive_of_close {s : State Address} {closed c : Nat}
    (h : (s.close closed).isLive c = true) : s.isLive c = true := by
  simp only [State.isLive, State.close, List.getElem?_modify] at h ⊢
  cases hc : s.connections[c]? with
  | none => simp [hc] at h
  | some connection =>
      rw [hc] at h
      split at h
      · cases h
      · exact h

theorem inv_close {replicas : List String} {s : State Address} (closed : Nat)
    (h : Inv replicas s) : Inv replicas (s.close closed) where
  sound i := by
    apply (h.sound i).later
    exact ⟨fun _ hentry => hentry, by simp [State.close], fun _ hc => .inl hc⟩
  holds := h.holds
  cachedKnown c hc := by
    have hold := h.cachedKnown c hc
    simpa [State.close] using hold
  unusable i hi := by
    have hnone := h.unusable i hi
    simp only [State.usable, Option.filter_eq_none_iff] at hnone ⊢
    intro c hc hlive
    exact hnone c hc (isLive_of_close hlive)
  dialed c hc := by
    obtain ⟨n, hn⟩ := List.mem_iff_getElem?.mp hc
    rw [State.close, List.getElem?_modify] at hn
    obtain ⟨old, hold, rfl⟩ := Option.map_eq_some_iff.mp hn
    have hdialed := h.dialed old (List.mem_of_getElem? hold)
    split <;> exact hdialed

theorem inv_drop {replicas : List String} {s : State Address} (i : Nat) (h : Inv replicas s) :
    Inv replicas { s.move i .absent with
      holder := if s.holder = some i then none else s.holder } where
  sound := by
    have hlater : Later s { s.move i .absent with
        holder := if s.holder = some i then none else s.holder } :=
      ⟨fun _ hentry => hentry, Nat.le_refl _, fun _ hc => .inl hc⟩
    apply sound_step h hlater rfl
    refine ⟨?_, ?_, ?_, ?_, trivial⟩
    all_goals
      intro _ hnone
      cases hnone
  holds := by
    apply holds_step h rfl
    · simp [Phase.connecting]
    · intro j hji
      split
      · rename_i hholder
        simp [hholder, Ne.symm hji]
      · rfl
  cachedKnown := h.cachedKnown
  unusable j hj := by
    simp only [Option.ite_none_left_eq_some] at hj
    exact h.unusable j hj.2
  dialed := h.dialed

theorem inv_step {replicas : List String} {s next : State Address} {a : Action Address}
    (h : Inv replicas s) (hstep : step replicas s a = some next) : Inv replicas next := by
  cases a with
  | arrive i =>
      simp only [step] at hstep
      split at hstep
      · rename_i hphase
        obtain rfl := Option.some.inj hstep
        have hsound := h.sound i
        rw [hphase] at hsound
        have hnext : (Phase.locking none : Phase Address).Sound replicas s :=
          sound_of_stale hsound rfl rfl trivial
        apply inv_move h _ rfl hnext
        rw [hphase]
        rfl
      · cases hstep
  | lock i => exact inv_lock h hstep
  | lookup i answer => exact inv_lookup h hstep
  | dial i result => exact inv_dial h hstep
  | openStream i result => exact inv_openStream h hstep
  | close closed =>
      obtain rfl := Option.some.inj hstep
      exact inv_close closed h
  | drop i =>
      obtain rfl := Option.some.inj hstep
      exact inv_drop i h

theorem run_inv {replicas : List String} {actions : List (Action Address)} {s : State Address}
    (hrun : run (step replicas) State.initial actions = some s) : Inv replicas s :=
  run_invariant_of_step (step replicas) (Inv replicas) (fun _ _ _ h hstep => inv_step h hstep)
    State.initial s actions (inv_initial replicas) hrun

/-! ### The shared connection -/

/-- A call whose first stream could not be opened opens its second one on a connection
that was dialed later, whatever the other calls do to the cache in between. -/
theorem retry_newer (replicas : List String) (actions : List (Action Address))
    (s : State Address) (hrun : run (step replicas) State.initial actions = some s)
    (i stale c : Nat) (hphase : s.sessions i = .opening (some stale) c ∨
      s.sessions i = .done (some stale) (.ok c)) : stale < c := by
  have hsound := (run_inv hrun).sound i
  rcases hphase with h | h
  · rw [h] at hsound
    exact hsound.heldNewer stale rfl c rfl
  · rw [h] at hsound
    exact hsound.heldNewer stale rfl c rfl

/-- The first stream fails, and the only replica is dialed again. -/
def redialed : List (Action Nat) :=
  [.arrive 0, .lock 0, .lookup 0 (.ok [7]), .dial 0 (.ok ()), .close 0,
    .openStream 0 (.error "closed"), .lock 0, .lock 0, .lookup 0 (.ok [7]), .dial 0 (.ok ()),
    .openStream 0 (.ok ())]

theorem retry_newer_redialed :
    ∃ s, run (step ["a"]) State.initial redialed = some s ∧
      s.sessions 0 = .done (some 0) (.ok 1) ∧ 0 < 1 :=
  ⟨_, rfl, rfl, retry_newer ["a"] redialed _ rfl 0 0 1 (.inr rfl)⟩

/-- At most one call is inside `connect_any`, and every stream is on a connection to an
address that a configured replica resolved to. -/
theorem one_dialer_known_replicas (replicas : List String) (actions : List (Action Address))
    (s : State Address) (hrun : run (step replicas) State.initial actions = some s) :
    (∀ i j, (s.sessions i).connecting = true → (s.sessions j).connecting = true → i = j) ∧
      ∀ i stale c, s.sessions i = .done stale (.ok c) →
        ∃ connection, s.connections[c]? = some connection ∧ connection.replica ∈ replicas ∧
          ∃ answer, (connection.replica, answer) ∈ s.answers ∧ connection.address ∈ answer := by
  have hinv := run_inv hrun
  constructor
  · intro i j hi hj
    exact Option.some.inj (((hinv.holds i).mp hi).symm.trans ((hinv.holds j).mp hj))
  · intro i stale c hphase
    have hsound := hinv.sound i
    rw [hphase] at hsound
    have hbound := hsound.known c rfl
    exact ⟨s.connections[c], List.getElem?_eq_getElem hbound,
      hinv.dialed s.connections[c] (List.getElem_mem hbound)⟩

theorem one_dialer_known_replicas_redialed :
    ∃ s, run (step ["a"]) State.initial redialed = some s ∧
      ∃ connection, s.connections[1]? = some connection ∧ connection.replica ∈ ["a"] ∧
        ∃ answer, (connection.replica, answer) ∈ s.answers ∧ connection.address ∈ answer :=
  ⟨_, rfl, (one_dialer_known_replicas ["a"] redialed _ rfl).2 0 (some 0) 1 rfl⟩

/-! ### How often it dials -/

structure Notes where
  dials : Nat
  invalidations : Nat
  closes : Nat

def note (notes : Notes) (s : State Address) : Action Address → Notes
  | .dial _ (.ok ()) => { notes with dials := notes.dials + 1 }
  | .lock i =>
      match s.sessions i with
      | .invalidating _ => { notes with invalidations := notes.invalidations + 1 }
      | _ => notes
  | .close _ => { notes with closes := notes.closes + 1 }
  | _ => notes

/-- A connection that was dialed is still usable, or was invalidated or closed since. -/
structure Counted (replicas : List String) (s : State Address) (notes : Notes) : Prop where
  inv : Inv replicas s
  total : notes.dials ≤ notes.invalidations + notes.closes + s.usable.isSome.toNat

theorem advance_usable (s : State Address) (i : Nat) (stale : Option Nat) (replica : String)
    (addresses : List Address) (rest : List String) (lastError : Option String) :
    (s.advance i stale replica addresses rest lastError).usable = s.usable := by
  cases addresses with
  | cons address addresses => rfl
  | nil =>
      cases rest with
      | cons next rest => rfl
      | nil => rfl

theorem step_counted {replicas : List String} {s next : State Address} {notes : Notes}
    {a : Action Address} (h : Counted replicas s notes) (hstep : step replicas s a = some next) :
    Counted replicas next (note notes s a) := by
  refine ⟨inv_step h.inv hstep, ?_⟩
  have htotal := h.total
  cases a with
  | arrive i =>
      simp only [step] at hstep
      split at hstep
      · obtain rfl := Option.some.inj hstep
        exact htotal
      · cases hstep
  | lock i =>
      simp only [step] at hstep
      split at hstep
      · rename_i stale hphase hholder
        have hnote : note notes s (.lock i) = notes := by simp only [note, hphase]
        rw [hnote]
        split at hstep
        · obtain rfl := Option.some.inj hstep
          exact htotal
        · obtain rfl := Option.some.inj hstep
          rw [advance_usable]
          exact htotal
      · rename_i stale hphase hholder
        obtain rfl := Option.some.inj hstep
        have hnote : note notes s (.lock i) =
            { notes with invalidations := notes.invalidations + 1 } := by
          simp only [note, hphase]
        have hone := Bool.toNat_le s.usable.isSome
        rw [hnote]
        simp only [State.usable, Option.filter_none, Option.isSome_none, Bool.toNat_false]
        omega
      · cases hstep
  | lookup i answer =>
      simp only [step] at hstep
      split at hstep
      · split at hstep
        all_goals
          obtain rfl := Option.some.inj hstep
          rw [advance_usable]
          exact htotal
      · cases hstep
  | dial i result =>
      simp only [step] at hstep
      split at hstep
      · rename_i stale replica address addresses rest lastError hphase
        have hholder : s.holder = some i := (h.inv.holds i).mp (by rw [hphase]; rfl)
        have hnone := h.inv.unusable i hholder
        split at hstep
        · obtain rfl := Option.some.inj hstep
          rw [hnone] at htotal
          have husable : State.usable { s.move i (.opening stale s.connections.length) with
              connections := s.connections ++ [⟨replica, address, true⟩]
              cached := some s.connections.length
              holder := none } = some s.connections.length := by
            simp [State.usable, State.isLive]
          rw [husable]
          simp only [note, Option.isSome_none, Option.isSome_some, Bool.toNat_false,
            Bool.toNat_true] at htotal ⊢
          omega
        · obtain rfl := Option.some.inj hstep
          rw [advance_usable]
          exact htotal
      · cases hstep
  | openStream i result =>
      simp only [step] at hstep
      split at hstep
      · split at hstep
        · simp only [Option.ite_none_right_eq_some, Option.some.injEq] at hstep
          obtain ⟨_, rfl⟩ := hstep
          exact htotal
        all_goals
          obtain rfl := Option.some.inj hstep
          exact htotal
      · cases hstep
  | close closed =>
      have hone := Bool.toNat_le s.usable.isSome
      simp only [note]
      omega
  | drop i =>
      obtain rfl := Option.some.inj hstep
      exact htotal

/-- Connections are dialed only for the first call and for connections that were
invalidated or closed: never two for one loss, however many calls meet it. -/
theorem dials_le (replicas : List String) (actions : List (Action Address)) (s : State Address)
    (hrun : run (step replicas) State.initial actions = some s) :
    (observed (step replicas) note State.initial ⟨0, 0, 0⟩ actions).dials ≤
      1 + (observed (step replicas) note State.initial ⟨0, 0, 0⟩ actions).invalidations +
        (observed (step replicas) note State.initial ⟨0, 0, 0⟩ actions).closes := by
  have hfinal : Counted replicas s
      (observed (step replicas) note State.initial ⟨0, 0, 0⟩ actions) := by
    apply run_observed_of_step (step replicas) note (Counted replicas) _ _ s _ actions _ hrun
    · intro s notes a next hs hstep
      exact step_counted hs hstep
    · exact ⟨inv_initial replicas, Nat.le_refl _⟩
  have htotal := hfinal.total
  have hone := Bool.toNat_le s.usable.isSome
  omega

theorem dials_le_redialed :
    (observed (step ["a"]) note State.initial ⟨0, 0, 0⟩ redialed).dials ≤ 1 + 1 + 1 :=
  dials_le ["a"] redialed _ rfl

end Runlet.QuicPool
