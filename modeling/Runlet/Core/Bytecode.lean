import Runlet.Lib.Framing
import Runlet.Lib.Transition

/-!
The compiled-bytecode cache (`bytecode.rs`) and the way a request obtains its
handler module through it (`obtain_declared` in `engine/classify.rs`). The
executions of a process share one cache and interleave: a request that misses
compiles first and stores later, and entries may vanish at any moment, which
covers every capacity and every choice the eviction policy makes. The
JavaScript engine and the digest are parameters.
-/

namespace Runlet.Bytecode

open Framing Transition

/-- The bytes of a Rust string slice: never more than `isize::MAX` of them. -/
structure Str where
  bytes : Bytes
  isStr : bytes.length ≤ 9223372036854775807
  deriving DecidableEq

def Str.empty : Str := ⟨[], by decide⟩

/-- The fields of `ExecParams` the cache looks at. -/
structure ExecParams where
  cacheNamespace : Option Str
  script : Str
  deriving DecidableEq

/-- The module loader of the engine: `Module::declare`, `Module::write` and
`Module::load`, each of which may fail. -/
structure Engine (Module Bytecode : Type) where
  declare : Str → Option Module
  write : Module → Option Bytecode
  load : Bytecode → Option Module

/-- Loading what was written gives the module back. -/
def Engine.LoadsWritten {Module Bytecode : Type} (engine : Engine Module Bytecode) : Prop :=
  ∀ declared bytecode, engine.write declared = some bytecode →
    engine.load bytecode = some declared

/-- `None` is the global namespace, which is the empty one. -/
def ExecParams.effectiveNamespace (params : ExecParams) : Str :=
  params.cacheNamespace.getD .empty

/-- What the digest is fed: the namespace behind its `u64` length, then the
source. -/
def digestInput (space source : Bytes) : Bytes := lengthPrefixed 8 space source

def ExecParams.keyInput (params : ExecParams) : Bytes :=
  digestInput params.effectiveNamespace.bytes params.script.bytes

theorem digestInput_injective (a b source source' : Str)
    (h : digestInput a.bytes source.bytes = digestInput b.bytes source'.bytes) :
    a = b ∧ source = source' := by
  have ha := a.isStr
  have hb := b.isStr
  obtain ⟨hspace, hsource⟩ := lengthPrefixed_injective 8 a.bytes source.bytes b.bytes
    source'.bytes (by omega) (by omega) h
  refine ⟨?_, ?_⟩
  · cases a
    cases b
    simpa using hspace
  · cases source
    cases source'
    simpa using hsource

/-- The preimage determines the request's namespace and source, and is
determined by them. -/
theorem keyInput_eq_iff (a b : ExecParams) :
    a.keyInput = b.keyInput ↔
      a.effectiveNamespace = b.effectiveNamespace ∧ a.script = b.script := by
  constructor
  · intro h
    exact digestInput_injective a.effectiveNamespace b.effectiveNamespace
      a.script b.script h
  · rintro ⟨hspace, hscript⟩
    rw [ExecParams.keyInput, ExecParams.keyInput, hspace, hscript]

section System

variable {Module Bytecode Digest : Type} [DecidableEq Digest]

/-- A resident entry. The stored value is the bytecode; `owner` records which
execution stored it. -/
structure Entry (Bytecode : Type) where
  bytecode : Bytecode
  owner : ExecParams

/-- How one execution obtained its module, and from which entry if from any. -/
structure Obtained (Module Bytecode : Type) where
  params : ExecParams
  declared : Option Module
  entry : Option (Entry Bytecode)

structure Cache (Module Bytecode Digest : Type) where
  entries : Digest → Option (Entry Bytecode)
  /-- Compiled after a miss and not admitted or dropped yet. -/
  compiled : List (ExecParams × Module)
  /-- Every module handed to an execution so far. -/
  obtained : List (Obtained Module Bytecode)

def Cache.empty : Cache Module Bytecode Digest := ⟨fun _ => none, [], []⟩

/-- The size-based admission. -/
def shouldStore (minSourceBytes sourceLen : Nat) : Bool := minSourceBytes ≤ sourceLen

def Cache.insert (cache : Cache Module Bytecode Digest) (key : Digest)
    (entry : Entry Bytecode) : Cache Module Bytecode Digest :=
  { cache with entries := fun other => if other = key then some entry else cache.entries other }

def Cache.remove (cache : Cache Module Bytecode Digest) (key : Digest) :
    Cache Module Bytecode Digest :=
  { cache with entries := fun other => if other = key then none else cache.entries other }

def Cache.handOut (cache : Cache Module Bytecode Digest)
    (obtained : Obtained Module Bytecode) : Cache Module Bytecode Digest :=
  { cache with obtained := cache.obtained ++ [obtained] }

inductive Action (Digest : Type) where
  /-- An execution looks its script up, and loads or compiles it. -/
  | obtain (params : ExecParams)
  /-- The same without a cache wired in. -/
  | obtainUncached (params : ExecParams)
  /-- An execution that compiled goes on to the admission. -/
  | store (index : Nat)
  | evict (key : Digest)

def step (engine : Engine Module Bytecode) (sha256 : Bytes → Digest)
    (minSourceBytes : Nat) (cache : Cache Module Bytecode Digest) :
    Action Digest → Option (Cache Module Bytecode Digest)
  | .obtain params =>
      match cache.entries (sha256 params.keyInput) with
      | some entry =>
          some (cache.handOut ⟨params, engine.load entry.bytecode, some entry⟩)
      | none =>
          match engine.declare params.script with
          | none => some (cache.handOut ⟨params, none, none⟩)
          | some declared =>
              let next := cache.handOut ⟨params, some declared, none⟩
              some { next with compiled := cache.compiled ++ [(params, declared)] }
  | .obtainUncached params =>
      some (cache.handOut ⟨params, engine.declare params.script, none⟩)
  | .store index =>
      match cache.compiled[index]? with
      | none => none
      | some (params, declared) =>
          let rest := { cache with compiled := cache.compiled.eraseIdx index }
          if shouldStore minSourceBytes params.script.bytes.length then
            match engine.write declared with
            | none => some rest
            | some bytecode => some (rest.insert (sha256 params.keyInput) ⟨bytecode, params⟩)
          else some rest
  | .evict key => some (cache.remove key)

/-- The requests that consult the cache in a run. -/
def requestsOf : List (Action Digest) → List ExecParams
  | [] => []
  | .obtain params :: rest => params :: requestsOf rest
  | _ :: rest => requestsOf rest

/-- No two of these requests are mixed up by the digest. -/
def CollisionFree (sha256 : Bytes → Digest) (requests : List ExecParams) : Prop :=
  ∀ a ∈ requests, ∀ b ∈ requests,
    sha256 a.keyInput = sha256 b.keyInput → a.keyInput = b.keyInput

/-- What an entry promises: it sits under its owner's key and holds the owner's
own script. -/
structure Honest (engine : Engine Module Bytecode) (sha256 : Bytes → Digest)
    (requests : List ExecParams) (key : Digest) (entry : Entry Bytecode) : Prop where
  owner : entry.owner ∈ requests
  key_eq : key = sha256 entry.owner.keyInput
  compiled : ∃ declared, engine.declare entry.owner.script = some declared ∧
    engine.write declared = some entry.bytecode

/-- What every execution is promised: its own script, whoever compiled it, and
never from an entry of another namespace. -/
structure OwnModule (engine : Engine Module Bytecode)
    (obtained : Obtained Module Bytecode) : Prop where
  declared : obtained.declared = engine.declare obtained.params.script
  space : ∀ entry, obtained.entry = some entry →
    entry.owner.effectiveNamespace = obtained.params.effectiveNamespace ∧
      entry.owner.script = obtained.params.script

structure Sound (engine : Engine Module Bytecode) (sha256 : Bytes → Digest)
    (requests : List ExecParams) (cache : Cache Module Bytecode Digest) : Prop where
  entries : ∀ key entry, cache.entries key = some entry →
    Honest engine sha256 requests key entry
  compiled : ∀ pending ∈ cache.compiled,
    pending.1 ∈ requests ∧ engine.declare pending.1.script = some pending.2
  obtained : ∀ obtained ∈ cache.obtained, OwnModule engine obtained

section Invariant

variable {engine : Engine Module Bytecode} {sha256 : Bytes → Digest}
  {requests : List ExecParams} {cache : Cache Module Bytecode Digest}

omit [DecidableEq Digest] in
theorem Sound.handOut (h : Sound engine sha256 requests cache)
    (obtained : Obtained Module Bytecode) (hown : OwnModule engine obtained) :
    Sound engine sha256 requests (cache.handOut obtained) := by
  refine ⟨h.entries, h.compiled, ?_⟩
  intro other hother
  rcases List.mem_append.mp hother with hmem | hmem
  · exact h.obtained other hmem
  · rw [List.mem_singleton.mp hmem]
    exact hown

theorem Sound.insert (h : Sound engine sha256 requests cache) (key : Digest)
    (entry : Entry Bytecode) (hentry : Honest engine sha256 requests key entry) :
    Sound engine sha256 requests (cache.insert key entry) := by
  refine ⟨?_, h.compiled, h.obtained⟩
  intro other found hfound
  simp only [Cache.insert] at hfound
  split at hfound
  · rename_i hkey
    cases hfound
    exact hkey ▸ hentry
  · exact h.entries other found hfound

theorem Sound.remove (h : Sound engine sha256 requests cache) (key : Digest) :
    Sound engine sha256 requests (cache.remove key) := by
  refine ⟨?_, h.compiled, h.obtained⟩
  intro other found hfound
  simp only [Cache.remove] at hfound
  split at hfound
  · cases hfound
  · exact h.entries other found hfound

omit [DecidableEq Digest] in
/-- A hit loads the request's own script: equal digests mean equal preimages,
and the preimage holds namespace and source. -/
theorem ownModule_of_hit (hload : engine.LoadsWritten)
    (hfree : CollisionFree sha256 requests) (params : ExecParams)
    (hparams : params ∈ requests) (entry : Entry Bytecode)
    (hentry : Honest engine sha256 requests (sha256 params.keyInput) entry) :
    OwnModule engine ⟨params, engine.load entry.bytecode, some entry⟩ := by
  have hinput := hfree params hparams entry.owner hentry.owner hentry.key_eq
  obtain ⟨hspace, hscript⟩ := (keyInput_eq_iff params entry.owner).mp hinput
  obtain ⟨declared, hdeclared, hwritten⟩ := hentry.compiled
  constructor
  · change engine.load entry.bytecode = engine.declare params.script
    rw [hscript, hdeclared, hload declared entry.bytecode hwritten]
  · intro found hfound
    cases hfound
    exact ⟨hspace.symm, hscript.symm⟩

theorem ownModule_of_declare (params : ExecParams) :
    OwnModule engine ⟨params, engine.declare params.script, (none : Option (Entry Bytecode))⟩ :=
  ⟨rfl, fun _ h => nomatch h⟩

theorem sound_step (minSourceBytes : Nat) (hload : engine.LoadsWritten)
    (hfree : CollisionFree sha256 requests) (action : Action Digest)
    (next : Cache Module Bytecode Digest) (h : Sound engine sha256 requests cache)
    (hmem : ∀ params, action = .obtain params → params ∈ requests)
    (hstep : step engine sha256 minSourceBytes cache action = some next) :
    Sound engine sha256 requests next := by
  cases action with
  | obtain params =>
      have hparams := hmem params rfl
      simp only [step] at hstep
      cases hfound : cache.entries (sha256 params.keyInput) with
      | some entry =>
          simp only [hfound, Option.some.injEq] at hstep
          rw [← hstep]
          exact h.handOut _ (ownModule_of_hit hload hfree params hparams entry
            (h.entries _ entry hfound))
      | none =>
          have hown : OwnModule engine ⟨params, engine.declare params.script, none⟩ :=
            ownModule_of_declare params
          cases hdeclare : engine.declare params.script with
          | none =>
              simp only [hfound, hdeclare, Option.some.injEq] at hstep
              rw [← hstep]
              exact h.handOut _ (hdeclare ▸ hown)
          | some declared =>
              simp only [hfound, hdeclare, Option.some.injEq] at hstep
              rw [← hstep]
              have hhanded := h.handOut _ (hdeclare ▸ hown)
              refine ⟨hhanded.entries, ?_, hhanded.obtained⟩
              intro pending hpending
              rcases List.mem_append.mp hpending with hold | hnew
              · exact h.compiled pending hold
              · rw [List.mem_singleton.mp hnew]
                exact ⟨hparams, hdeclare⟩
  | obtainUncached params =>
      cases hstep
      exact h.handOut _ (ownModule_of_declare params)
  | store index =>
      simp only [step] at hstep
      cases hpending : cache.compiled[index]? with
      | none => simp [hpending] at hstep
      | some pending =>
          obtain ⟨params, declared⟩ := pending
          obtain ⟨hparams, hdeclare⟩ :=
            h.compiled (params, declared) (List.mem_of_getElem? hpending)
          have hrest : Sound engine sha256 requests
              { cache with compiled := cache.compiled.eraseIdx index } :=
            ⟨h.entries, fun other hother => h.compiled other (List.mem_of_mem_eraseIdx hother),
              h.obtained⟩
          simp only [hpending] at hstep
          split at hstep
          · cases hwrite : engine.write declared with
            | none =>
                simp only [hwrite, Option.some.injEq] at hstep
                exact hstep ▸ hrest
            | some bytecode =>
                simp only [hwrite, Option.some.injEq] at hstep
                rw [← hstep]
                exact hrest.insert _ _ ⟨hparams, rfl, declared, hdeclare, hwrite⟩
          · cases hstep
            exact hrest
  | evict key =>
      cases hstep
      exact h.remove key

end Invariant

omit [DecidableEq Digest] in
theorem mem_requestsOf (actions : List (Action Digest)) (params : ExecParams)
    (h : .obtain params ∈ actions) : params ∈ requestsOf actions := by
  induction actions with
  | nil => cases h
  | cons action rest ih =>
      rcases List.mem_cons.mp h with heq | hrest
      · rw [← heq]
        exact List.mem_cons_self
      · cases action with
        | obtain other => exact List.mem_cons_of_mem other (ih hrest)
        | obtainUncached other => exact ih hrest
        | store index => exact ih hrest
        | evict key => exact ih hrest

/-- Over every interleaving of executions, admissions and evictions: each
execution runs what compiling its own script gives, from an entry of its own
namespace or from no entry, and the preimage of the key is injective. -/
theorem cached_modules_own (engine : Engine Module Bytecode) (sha256 : Bytes → Digest)
    (minSourceBytes : Nat) (hload : engine.LoadsWritten) (actions : List (Action Digest))
    (hfree : CollisionFree sha256 (requestsOf actions))
    (final : Cache Module Bytecode Digest)
    (hrun : run (step engine sha256 minSourceBytes) .empty actions = some final) :
    (∀ obtained ∈ final.obtained, OwnModule engine obtained) ∧
      ∀ a b : ExecParams, a.keyInput = b.keyInput ↔
        a.effectiveNamespace = b.effectiveNamespace ∧ a.script = b.script := by
  refine ⟨?_, keyInput_eq_iff⟩
  have hsound := run_invariant (step engine sha256 minSourceBytes)
    (fun _ action => ∀ params, action = .obtain params → params ∈ requestsOf actions)
    (Sound engine sha256 (requestsOf actions))
    (fun cache action next h hmem hstep =>
      sound_step minSourceBytes hload hfree action next h hmem hstep)
    .empty final actions ?_ ?_ hrun
  · exact hsound.obtained
  · exact ⟨fun _ _ h => (nomatch h), fun _ h => (nomatch h), fun _ h => (nomatch h)⟩
  · apply guarded_of_mem
    intro action haction _ params hparams
    exact mem_requestsOf actions params (hparams ▸ haction)

end System

/-- The SHA-256 of the two preimages of the sample run below. -/
def sampleSha256 (input : Bytes) : Bytes :=
  if input = [1, 0, 0, 0, 0, 0, 0, 0, 97, 120] then
    [196, 154, 49, 180, 119, 77, 205, 81, 136, 73, 222, 45, 194, 17, 186, 111, 149,
      18, 184, 227, 14, 16, 204, 8, 194, 163, 224, 58, 87, 253, 99, 37]
  else if input = [1, 0, 0, 0, 0, 0, 0, 0, 98, 120] then
    [81, 127, 157, 64, 221, 126, 243, 149, 232, 35, 169, 230, 38, 79, 62, 131, 220,
      1, 16, 225, 173, 146, 234, 181, 147, 143, 133, 175, 26, 212, 140, 42]
  else []

/-- An engine whose modules are their own source text. -/
def textEngine : Engine Str Str := ⟨some, some, some⟩

def acmeParams : ExecParams := ⟨some ⟨[97], by decide⟩, ⟨[120], by decide⟩⟩

def globexParams : ExecParams := ⟨some ⟨[98], by decide⟩, ⟨[120], by decide⟩⟩

/-- Two namespaces run the same script; only the second run of the first one
is a hit. -/
def sampleActions : List (Action Bytes) :=
  [.obtain acmeParams, .store 0, .obtain acmeParams, .obtain globexParams]

theorem cached_modules_own_two_tenants :
    ∃ final, run (step textEngine sampleSha256 0) .empty sampleActions = some final ∧
      final.obtained.map (fun obtained => obtained.entry.isSome) = [false, true, false] ∧
      ∀ obtained ∈ final.obtained, OwnModule textEngine obtained := by
  have hload : textEngine.LoadsWritten := by
    intro declared bytecode h
    cases h
    rfl
  have hfree : CollisionFree sampleSha256 (requestsOf sampleActions) := by
    unfold CollisionFree
    decide +kernel
  refine ⟨_, rfl, by decide +kernel, ?_⟩
  exact (cached_modules_own textEngine sampleSha256 0 hload sampleActions hfree _ rfl).1

end Runlet.Bytecode
