import Mathlib.Data.List.Basic
import Runlet.Lib.ScriptHeap
import Runlet.Lib.Transition

/-!
The lazy `$std` surface (`js/std_lazy.js`, `js/std_freeze.js`, `engine/inject.rs`). A
member is an accessor on `$std` whose getter builds the unit of the member on the first
access, freezes what was built and keeps it. A build can read other members, so builds
nest; between all of this the script does what it likes to every object it can reach.
The getter finds the native builder and what it built through two globals that a script
can write, and then keeps what the script put there. A run is a list of such actions,
innermost build first on the stack.
-/

namespace Runlet.StdSurface

open ScriptHeap Transition

inductive Key where
  | name (text : String)
  | symbol (id : Nat)
  deriving DecidableEq

/-- `getOwnPropertyNames` leaves symbols out. -/
def Key.named : Key → Bool
  | .name _ => true
  | .symbol _ => false

inductive Prim where
  | undefined
  | null
  | literal (text : String)
  deriving DecidableEq

abbrev Heap := ScriptHeap.Heap Key Prim
abbrev Value := ScriptHeap.Value Prim
abbrev Object := ScriptHeap.Object Key Prim
abbrev Op := ScriptHeap.Op Key Prim

structure BuildUnit where
  key : String
  members : List String
  deriving DecidableEq

def units : List BuildUnit :=
  [⟨"decimal", ["decimal"]⟩, ⟨"money", ["money"]⟩, ⟨"sys", ["crypto", "env", "secrets"]⟩,
    ⟨"datetime", ["datetime"]⟩, ⟨"text", ["text"]⟩, ⟨"list", ["list"]⟩, ⟨"dict", ["dict"]⟩,
    ⟨"template", ["template"]⟩, ⟨"check", ["check"]⟩]

def unitOf (member : String) : Option BuildUnit := units.find? fun u => u.members.contains member

/-- The ambient authorities that a deterministic build deletes: `DET_DATETIME_PRUNE` and
`DET_CRYPTO_PRUNE`, by the unit they are appended to. -/
def prunes (u : BuildUnit) : List (String × String) :=
  if u.key == "datetime" then [("datetime", "now")]
  else if u.key == "sys" then [("crypto", "uuid")] else []

inductive Profile where
  | full
  | deterministic
  deriving DecidableEq

/-- The members that are installed with their data and pinned as globals. -/
def eager : List String := ["json", "log", "emit"]

/-- The realm of one invocation: `$std` and `globalThis` on the heap, the values kept by
the getters (latest build first), the units built, those being built, and whether the
script has touched the globals between a getter and the native builder. -/
structure Realm where
  heap : Heap
  std : Nat
  globals : Nat
  cache : List (String × Value)
  built : List BuildUnit
  building : List BuildUnit
  meddled : Bool

def Realm.fresh (heap : Heap) (std globals : Nat) : Realm :=
  ⟨heap, std, globals, [], [], [], false⟩

/-- `__stdBuild` is called and `__stdBuilt` is read by name. -/
def bridged (key : Key) : Bool := key == .name "__stdBuild" || key == .name "__stdBuilt"

/-- An operation that can put something else in the place of one of the two: on the name
in any object, or on what `globalThis` inherits from. -/
def meddles (globals : Nat) : Op → Bool
  | .alloc o => o.slots.any fun slot => bridged slot.1
  | .change _ (.define key _) => bridged key
  | .change _ (.delete key) => bridged key
  | .change id (.setPrototypeOf _) => id == globals
  | .change _ .preventExtensions => false
  | .change _ .freeze => false
  | .assign _ key _ => bridged key

/-- `delete object[name]` in strict code, where a refusal is thrown. -/
def deleteMember (heap : Heap) (object : Value) (name : String) : Option Heap :=
  match object with
  | .prim _ => some heap
  | .ref id => perform .undefined heap (.change id (.delete (.name name)))

/-- The deterministic post-step of a unit, over the members it produced. -/
def prune (profile : Profile) (u : BuildUnit) (produced : String → Value) (heap : Heap) :
    Option Heap :=
  match profile with
  | .full => some heap
  | .deterministic =>
      (prunes u).foldlM (fun heap entry => deleteMember heap (produced entry.1) entry.2) heap

section Machine

variable (profile : Profile) (invoke : Nat → Option Value)

def freezeValues (heap : Heap) (vs : List Value) : Heap :=
  deepFreezeAll Key.named .undefined invoke heap vs

inductive Action where
  | script (op : Op)
  -- a top-level `let` or `const` of one of the two names, in front of the global
  | declare
  | access (member : String)
  | finish (produced : String → Value)
  -- the build ends, and the members were left behind by the script's own builder
  | replaced (produced : String → Value)
  | fail
  | epilogue

/-- A reference is always to an object of the heap. -/
def live (heap : Heap) : Value → Bool
  | .prim _ => true
  | .ref id => decide (id < heap.length)

/-- The rest of `ensure` over the members that were left behind. -/
def Realm.keep (r : Realm) (u : BuildUnit) (rest : List BuildUnit) (produced : String → Value)
    (heap : Heap) : Realm :=
  { r with
    heap := freezeValues invoke heap (u.members.map produced)
    cache := u.members.map (fun m => (m, produced m)) ++ r.cache
    built := u :: r.built
    building := rest }

/-- A native build ends with its post-step, and throws where that is refused. -/
def Realm.finish (r : Realm) (u : BuildUnit) (rest : List BuildUnit) (produced : String → Value) :
    Realm :=
  match prune profile u produced r.heap with
  | none => { r with building := rest }
  | some heap => r.keep invoke u rest produced heap

/-- What `$std` holds as data, in the order of the slots. -/
def dataMembers (heap : Heap) (std : Nat) : List Value :=
  (heap[std]?).elim [] fun o => o.slots.filterMap fun slot =>
    match slot with
    | (.name _, .data value _ _ _) => some value
    | _ => none

def memberValue (heap : Heap) (std : Nat) (name : String) : Value :=
  ((heap[std]?.bind fun o => o.slot (.name name)).bind
    (Slot.read Prim.undefined invoke)).getD (.prim .undefined)

/-- `js/std_freeze.js`: the container, the data members, and the three globals. -/
def freezeStd (r : Realm) : Option Heap := do
  let heap := freezeAt r.heap (.ref r.std)
  let heap := freezeValues invoke heap (dataMembers heap r.std)
  eager.foldlM (fun heap name =>
    perform .undefined heap (.change r.globals (.define (.name name)
      ⟨.data (some (memberValue invoke heap r.std name)) (some false), some true, some false⟩))) heap

def step (r : Realm) : Action → Option Realm
  | .script op => (perform .undefined r.heap op).map fun heap =>
      { r with heap := heap, meddled := r.meddled || meddles r.globals op }
  | .declare => some { r with meddled := true }
  | .access member =>
      match unitOf member with
      | none => none
      | some u =>
          if u ∈ r.built then some r
          else some { r with building := u :: r.building }
  | .finish produced =>
      match r.building with
      | [] => none
      | u :: rest =>
          if u.members.all fun m => live r.heap (produced m) then
            some (r.finish profile invoke u rest produced)
          else none
  | .replaced produced =>
      match r.building with
      | [] => none
      | u :: rest =>
          if r.meddled && u.members.all fun m => live r.heap (produced m) then
            some (r.keep invoke u rest produced r.heap)
          else none
  | .fail =>
      match r.building with
      | [] => none
      | _ :: rest => some { r with building := rest }
  | .epilogue => (freezeStd invoke r).map fun heap => { r with heap := heap }

/-! ### What every action keeps of the heap -/

section Kept

variable (kept : Heap → Prop)

/-- A post-step only performs operations. -/
theorem prune_kept
    (hperform : ∀ heap op next, kept heap → perform .undefined heap op = some next → kept next)
    {u : BuildUnit} {produced : String → Value} {heap next : Heap} (h : kept heap)
    (hprune : prune profile u produced heap = some next) : kept next := by
  cases profile with
  | full =>
      obtain rfl : heap = next := Option.some.inj hprune
      exact h
  | deterministic =>
      simp only [prune] at hprune
      generalize prunes u = entries at hprune
      induction entries generalizing heap with
      | nil =>
          obtain rfl : heap = next := Option.some.inj hprune
          exact h
      | cons entry entries ih =>
          rw [List.foldlM_cons] at hprune
          obtain ⟨middle, hdelete, hrest⟩ := Option.bind_eq_some_iff.mp hprune
          refine ih ?_ hrest
          generalize produced entry.1 = object at hdelete
          cases object with
          | prim p =>
              obtain rfl : heap = middle := Option.some.inj hdelete
              exact h
          | ref id =>
              exact hperform heap (.change id (.delete (.name entry.2))) middle h hdelete

theorem freezeAt_kept
    (hperform : ∀ heap op next, kept heap → perform .undefined heap op = some next → kept next)
    {heap : Heap} (id : Nat) (h : kept heap) : kept (freezeAt heap (.ref id)) := by
  cases ho : heap[id]? with
  | none =>
      have hsame : freezeAt heap (.ref id) = heap := by
        rw [freezeAt, List.modify_eq_self (List.getElem?_eq_none_iff.mp ho)]
      rw [hsame]
      exact h
  | some o =>
      exact hperform heap _ _ h (perform_freeze .undefined ho)

theorem freezeStd_kept
    (hperform : ∀ heap op next, kept heap → perform .undefined heap op = some next → kept next)
    (hfreeze : ∀ heap vs, kept heap → kept (freezeValues invoke heap vs))
    {r : Realm} {next : Heap} (h : kept r.heap) (hnext : freezeStd invoke r = some next) :
    kept next := by
  have hfrozen := hfreeze _ (dataMembers (freezeAt r.heap (.ref r.std)) r.std)
    (freezeAt_kept kept hperform r.std h)
  simp only [freezeStd] at hnext
  generalize freezeValues invoke _ _ = heap at hnext hfrozen
  generalize eager = names at hnext
  induction names generalizing heap with
  | nil =>
      obtain rfl : heap = next := Option.some.inj hnext
      exact hfrozen
  | cons name names ih =>
      rw [List.foldlM_cons] at hnext
      obtain ⟨middle, hdefine, hrest⟩ := Option.bind_eq_some_iff.mp hnext
      exact ih middle (hperform heap _ middle hfrozen hdefine) hrest

/-- What operations and deep freezes keep, every action keeps. -/
theorem step_kept
    (hperform : ∀ heap op next, kept heap → perform .undefined heap op = some next → kept next)
    (hfreeze : ∀ heap vs, kept heap → kept (freezeValues invoke heap vs))
    {r next : Realm} {a : Action} (h : kept r.heap) (hstep : step profile invoke r a = some next) :
    kept next.heap := by
  cases a with
  | script op =>
      obtain ⟨heap, hop, rfl⟩ := Option.map_eq_some_iff.mp hstep
      exact hperform r.heap op heap h hop
  | declare =>
      obtain rfl := Option.some.inj hstep
      exact h
  | access member =>
      simp only [step] at hstep
      split at hstep
      · cases hstep
      · split at hstep
        · obtain rfl : r = next := Option.some.inj hstep
          exact h
        · obtain rfl := Option.some.inj hstep
          exact h
  | finish produced =>
      simp only [step] at hstep
      split at hstep
      · cases hstep
      · simp only [Option.ite_none_right_eq_some, Option.some.injEq] at hstep
        obtain ⟨_, rfl⟩ := hstep
        unfold Realm.finish
        split
        · exact h
        · rename_i heap hprune
          exact hfreeze heap _ (prune_kept profile kept hperform h hprune)
  | replaced produced =>
      simp only [step] at hstep
      split at hstep
      · cases hstep
      · simp only [Option.ite_none_right_eq_some, Option.some.injEq] at hstep
        obtain ⟨_, rfl⟩ := hstep
        exact hfreeze r.heap _ h
  | fail =>
      simp only [step] at hstep
      split at hstep
      · cases hstep
      · obtain rfl := Option.some.inj hstep
        exact h
  | epilogue =>
      obtain ⟨heap, hnext, rfl⟩ := Option.map_eq_some_iff.mp hstep
      exact freezeStd_kept invoke kept hperform hfreeze h hnext

theorem run_kept
    (hperform : ∀ heap op next, kept heap → perform .undefined heap op = some next → kept next)
    (hfreeze : ∀ heap vs, kept heap → kept (freezeValues invoke heap vs))
    {r final : Realm} {actions : List Action} (h : kept r.heap)
    (hrun : run (step profile invoke) r actions = some final) : kept final.heap :=
  run_invariant_of_step (step profile invoke) (fun r => kept r.heap)
    (fun _ _ _ hr hstep => step_kept profile invoke kept hperform hfreeze hr hstep)
    r final actions h hrun

end Kept

/-- A frozen object is the same at the end of every run. -/
theorem run_of_isFrozen {r final : Realm} {actions : List Action} {id : Nat} {o : Object}
    (ho : r.heap[id]? = some o) (hfrozen : o.isFrozen = true)
    (hrun : run (step profile invoke) r actions = some final) : final.heap[id]? = some o := by
  apply run_kept profile invoke (fun heap => heap[id]? = some o) _ _ ho hrun
  · intro heap op next h hnext
    exact perform_of_isFrozen .undefined h hfrozen hnext
  · intro heap vs h
    exact deepFreezeAll_of_isFrozen Key.named .undefined invoke vs h hfrozen

theorem run_pinned {r final : Realm} {actions : List Action} {id : Nat} {key : Key}
    {slot : Slot Prim} (h : Pinned r.heap id key slot)
    (hrun : run (step profile invoke) r actions = some final) : Pinned final.heap id key slot := by
  apply run_kept profile invoke (fun heap => Pinned heap id key slot) _ _ h hrun
  · intro heap op next hheap hnext
    exact perform_pinned .undefined hheap hnext
  · intro heap vs hheap
    exact deepFreezeAll_pinned Key.named .undefined invoke vs hheap

/-! ### What a build leaves behind -/

theorem finish_next {r next : Realm} {u : BuildUnit} {rest : List BuildUnit}
    {produced : String → Value} (hbuilding : r.building = u :: rest)
    (hfinish : step profile invoke r (.finish produced) = some next) :
    (∀ m ∈ u.members, live r.heap (produced m) = true) ∧
      next = r.finish profile invoke u rest produced := by
  simp only [step, hbuilding, Option.ite_none_right_eq_some, List.all_eq_true,
    Option.some.injEq] at hfinish
  exact ⟨hfinish.1, hfinish.2.symm⟩

/-- What a finished build can reach without passing through an object that was frozen
already is frozen with the values it had then, in every state after; nothing else is
frozen by it. -/
theorem finish_frozen_for_good (r next final : Realm) (u : BuildUnit) (rest : List BuildUnit)
    (produced : String → Value) (heap : Heap) (actions : List Action)
    (hbuilding : r.building = u :: rest) (hprune : prune profile u produced r.heap = some heap)
    (hfinish : step profile invoke r (.finish produced) = some next)
    (hrun : run (step profile invoke) next actions = some final) :
    ∀ id o, heap[id]? = some o →
      (Loose Key.named .undefined invoke heap (u.members.map produced) id →
        final.heap[id]? = some o.freeze) ∧
      (¬ Loose Key.named .undefined invoke heap (u.members.map produced) id →
        next.heap[id]? = some o) := by
  intro id o ho
  have hnext : next.heap = freezeValues invoke heap (u.members.map produced) := by
    rw [(finish_next profile invoke hbuilding hfinish).2, Realm.finish, hprune]
    rfl
  constructor
  · intro hloose
    apply run_of_isFrozen profile invoke _ (freeze_isFrozen o) hrun
    rw [hnext, freezeValues, deepFreezeAll_of_loose Key.named .undefined invoke hloose, ho,
      Option.map_some]
  · intro hloose
    rw [hnext, freezeValues, deepFreezeAll_of_not_loose Key.named .undefined invoke hloose, ho]

/-- `$std`, `globalThis`, and a constructor and its prototype, each a slot of the other. -/
def constructorHeap : Heap :=
  [⟨none, true, []⟩, ⟨none, true, []⟩,
    ⟨none, true, [(.name "prototype", .data (.ref 3) true false false)]⟩,
    ⟨none, true, [(.name "constructor", .data (.ref 2) true false true)]⟩]

theorem finish_frozen_for_good_constructor :
    (Realm.finish .full (fun _ => none) (Realm.fresh constructorHeap 0 1)
      ⟨"decimal", ["decimal"]⟩ [] fun _ => .ref 2).heap[3]? =
      some ⟨none, false, [(.name "constructor", .data (.ref 2) false false false)]⟩ := by
  let building : Realm := ⟨constructorHeap, 0, 1, [], [], [⟨"decimal", ["decimal"]⟩], false⟩
  have hloose : Loose Key.named .undefined (fun _ => none) constructorHeap [.ref 2] 3 := by
    unfold Loose
    apply Marking.Reaches.step (ScriptHeap.Value.ref 2)
    · exact .start _ List.mem_cons_self rfl
    · exact List.mem_cons_self
    · rfl
  exact (finish_frozen_for_good .full (fun _ => none) building _ _ ⟨"decimal", ["decimal"]⟩ []
    (fun _ => .ref 2) constructorHeap [.access "decimal"] rfl rfl rfl rfl 3 _ rfl).1 hloose

end Machine

/-! ### The authorities a deterministic run does not have -/

section Deterministic

variable (invoke : Nat → Option Value)

/-- What ends a build with the members kept: the native builder, or what the script put
in its place. -/
inductive Delivers (profile : Profile) (r : Realm) (u : BuildUnit) :
    Action → (String → Value) → Heap → Prop
  | native (produced : String → Value) (heap : Heap)
      (hprune : prune profile u produced r.heap = some heap) :
      Delivers profile r u (.finish produced) produced heap
  | script (produced : String → Value) (hmeddled : r.meddled = true)
      (hlive : ∀ m ∈ u.members, live r.heap (produced m) = true) :
      Delivers profile r u (.replaced produced) produced r.heap

/-- What an action does to the values that are kept. -/
theorem step_cache {profile : Profile} {r next : Realm} {a : Action}
    (h : step profile invoke r a = some next) :
    (next.cache = r.cache ∧ next.built = r.built) ∨ ∃ u rest produced heap, r.building = u :: rest ∧
      Delivers profile r u a produced heap ∧ next = r.keep invoke u rest produced heap := by
  cases a with
  | script op =>
      obtain ⟨heap, _, rfl⟩ := Option.map_eq_some_iff.mp h
      exact .inl ⟨rfl, rfl⟩
  | declare =>
      obtain rfl := Option.some.inj h
      exact .inl ⟨rfl, rfl⟩
  | access member =>
      simp only [step] at h
      split at h
      · cases h
      · split at h
        all_goals
          obtain rfl := Option.some.inj h
          exact .inl ⟨rfl, rfl⟩
  | finish produced =>
      cases hbuilding : r.building with
      | nil => simp [step, hbuilding] at h
      | cons u rest =>
          obtain ⟨_, rfl⟩ := finish_next profile invoke hbuilding h
          cases hprune : prune profile u produced r.heap with
          | none =>
              left
              rw [Realm.finish, hprune]
              exact ⟨rfl, rfl⟩
          | some heap =>
              right
              refine ⟨u, rest, produced, heap, rfl, .native produced heap hprune, ?_⟩
              rw [Realm.finish, hprune]
  | replaced produced =>
      cases hbuilding : r.building with
      | nil => simp [step, hbuilding] at h
      | cons u rest =>
          simp only [step, hbuilding, Option.ite_none_right_eq_some, Option.some.injEq,
            Bool.and_eq_true, List.all_eq_true] at h
          obtain ⟨⟨hmeddled, hlive⟩, hnext⟩ := h
          exact .inr ⟨u, rest, produced, r.heap, rfl, .script produced hmeddled hlive, hnext.symm⟩
  | fail =>
      simp only [step] at h
      split at h
      · cases h
      · obtain rfl := Option.some.inj h
        exact .inl ⟨rfl, rfl⟩
  | epilogue =>
      obtain ⟨heap, _, rfl⟩ := Option.map_eq_some_iff.mp h
      exact .inl ⟨rfl, rfl⟩

/-- Only an access starts a build, and of a unit of the table. -/
theorem step_building {profile : Profile} {r next : Realm} {a : Action}
    (h : step profile invoke r a = some next) :
    next.building = r.building ∨ (∃ u, r.building = u :: next.building) ∨
      ∃ member u, a = .access member ∧ unitOf member = some u ∧ u ∉ r.built ∧
        next = { r with building := u :: r.building } := by
  cases a with
  | script op =>
      obtain ⟨heap, _, rfl⟩ := Option.map_eq_some_iff.mp h
      exact .inl rfl
  | declare =>
      obtain rfl := Option.some.inj h
      exact .inl rfl
  | access member =>
      simp only [step] at h
      split at h
      · cases h
      · rename_i u hu
        split at h
        · obtain rfl := Option.some.inj h
          exact .inl rfl
        · rename_i hbuilt
          exact .inr (.inr ⟨member, u, rfl, hu, hbuilt, (Option.some.inj h).symm⟩)
  | finish produced =>
      cases hbuilding : r.building with
      | nil => simp [step, hbuilding] at h
      | cons u rest =>
          obtain ⟨_, rfl⟩ := finish_next profile invoke hbuilding h
          right
          left
          refine ⟨u, ?_⟩
          unfold Realm.finish
          split <;> rfl
  | replaced produced =>
      simp only [step] at h
      split at h
      · cases h
      · rename_i u rest hbuilding
        simp only [Option.ite_none_right_eq_some, Option.some.injEq] at h
        obtain ⟨_, rfl⟩ := h
        exact .inr (.inl ⟨u, hbuilding⟩)
  | fail =>
      simp only [step] at h
      split at h
      · cases h
      · rename_i u rest hbuilding
        obtain rfl := Option.some.inj h
        exact .inr (.inl ⟨u, hbuilding⟩)
  | epilogue =>
      obtain ⟨heap, _, rfl⟩ := Option.map_eq_some_iff.mp h
      exact .inl rfl

end Deterministic

/-! ### How often a unit is built -/

section Builds

variable (profile : Profile) (invoke : Nat → Option Value) (u : BuildUnit)

/-- The getter of a member of the unit runs while the unit is being built. -/
def reenters (r : Realm) : Action → Bool
  | .access member =>
      unitOf member == some u && !r.built.contains u && r.building.contains u
  | _ => false

/-- A build of the unit ends with its members kept. -/
def completes (r : Realm) : Action → Bool
  | .finish produced =>
      r.building.head? == some u && (prune profile u produced r.heap).isSome
  | .replaced produced =>
      r.building.head? == some u &&
        (r.meddled && u.members.all fun m => live r.heap (produced m))
  | _ => false

structure Notes where
  builds : Nat
  reentries : Nat

def note (notes : Notes) (r : Realm) (a : Action) : Notes where
  builds := notes.builds + (completes profile u r a).toNat
  reentries := notes.reentries + (reenters u r a).toNat

/-- Builds done and under way are at most one more than the accesses that re-entered. -/
structure Counted (r : Realm) (notes : Notes) : Prop where
  total : notes.builds + r.building.count u ≤ 1 + notes.reentries
  unbuilt : u ∉ r.built → notes.builds = 0

theorem completes_iff (r : Realm) (a : Action) :
    completes profile u r a = true ↔ ∃ rest produced heap, r.building = u :: rest ∧
      Delivers profile r u a produced heap := by
  constructor
  · intro h
    cases a with
    | finish produced =>
        simp only [completes, Bool.and_eq_true, beq_iff_eq, Option.isSome_iff_exists,
          List.head?_eq_some_iff] at h
        obtain ⟨⟨rest, hbuilding⟩, heap, hprune⟩ := h
        exact ⟨rest, produced, heap, hbuilding, .native produced heap hprune⟩
    | replaced produced =>
        simp only [completes, Bool.and_eq_true, beq_iff_eq, List.head?_eq_some_iff,
          List.all_eq_true] at h
        obtain ⟨⟨rest, hbuilding⟩, hmeddled, hlive⟩ := h
        exact ⟨rest, produced, r.heap, hbuilding, .script produced hmeddled hlive⟩
    | script op => cases h
    | declare => cases h
    | access member => cases h
    | fail => cases h
    | epilogue => cases h
  · rintro ⟨rest, produced, heap, hbuilding, hdelivers⟩
    cases hdelivers with
    | native _ _ hprune => simp [completes, hbuilding, hprune]
    | script _ hmeddled hlive =>
        simp only [completes, hbuilding, hmeddled, List.head?_cons, beq_self_eq_true,
          Bool.true_and, List.all_eq_true]
        exact hlive

/-- A build that completes keeps its members and is done with. -/
theorem step_of_completes {r next : Realm} {a : Action} (h : step profile invoke r a = some next)
    (hcompletes : completes profile u r a = true) :
    ∃ rest produced heap, r.building = u :: rest ∧ next = r.keep invoke u rest produced heap ∧
      reenters u r a = false := by
  obtain ⟨rest, produced, heap, hbuilding, hdelivers⟩ := (completes_iff profile u r a).mp hcompletes
  cases hdelivers with
  | native _ _ hprune =>
      have hnext := (finish_next profile invoke hbuilding h).2
      rw [Realm.finish, hprune] at hnext
      exact ⟨rest, produced, heap, hbuilding, hnext, rfl⟩
  | script _ _ _ =>
      simp only [step, hbuilding, Option.ite_none_right_eq_some, Option.some.injEq] at h
      exact ⟨rest, produced, r.heap, hbuilding, h.2.symm, rfl⟩

theorem step_counted {r next : Realm} {notes : Notes} {a : Action} (hr : Counted u r notes)
    (h : step profile invoke r a = some next) : Counted u next (note profile u notes r a) := by
  obtain ⟨htotal, hunbuilt⟩ := hr
  by_cases hcompletes : completes profile u r a = true
  · obtain ⟨rest, produced, heap, hbuilding, rfl, hreenters⟩ :=
      step_of_completes profile invoke u h hcompletes
    rw [hbuilding, List.count_cons_self] at htotal
    refine ⟨?_, fun hnot => absurd List.mem_cons_self hnot⟩
    simp only [note, hcompletes, hreenters, Bool.toNat_true, Bool.toNat_false, Realm.keep]
    omega
  · have hbuilds : (note profile u notes r a).builds = notes.builds := by
      simp only [note, Bool.eq_false_iff.mpr hcompletes, Bool.toNat_false, Nat.add_zero]
    rcases step_cache invoke h with ⟨_, hbuilt⟩ | ⟨other, rest, produced, heap, hbuilding, hdelivers, rfl⟩
    · refine ⟨?_, fun hnot => hbuilds.trans (hunbuilt (hbuilt ▸ hnot))⟩
      rw [hbuilds]
      rcases step_building invoke h with hsame | ⟨top, htop⟩ | ⟨member, opened, rfl, hopened, hfresh, rfl⟩
      · rw [hsame]
        exact Nat.le_trans htotal (Nat.add_le_add_left (Nat.le_add_right _ _) 1)
      · have hle : next.building.count u ≤ r.building.count u := by
          rw [htop, List.count_cons]
          exact Nat.le_add_right _ _
        simp only [note]
        omega
      · by_cases hu : opened = u
        · subst hu
          have hzero := hunbuilt hfresh
          simp only [note, reenters, hopened, beq_self_eq_true, Bool.true_and,
            List.contains_eq_mem, hfresh, decide_false, Bool.not_false]
          rw [List.count_cons_self, hzero]
          by_cases hnested : opened ∈ r.building
          · rw [decide_eq_true hnested, Bool.toNat_true]
            omega
          · rw [List.count_eq_zero_of_not_mem hnested]
            omega
        · rw [List.count_cons_of_ne hu]
          exact Nat.le_trans htotal (Nat.add_le_add_left (Nat.le_add_right _ _) 1)
    · have hne : other ≠ u := by
        rintro rfl
        exact hcompletes
          ((completes_iff profile other r _).mpr ⟨rest, produced, heap, hbuilding, hdelivers⟩)
      rw [hbuilding, List.count_cons_of_ne hne] at htotal
      refine ⟨?_, ?_⟩
      · rw [hbuilds]
        exact Nat.le_trans htotal (Nat.add_le_add_left (Nat.le_add_right _ _) 1)
      · intro hnot
        rw [hbuilds]
        exact hunbuilt fun hold => hnot (List.mem_cons_of_mem other hold)

/-- However the accesses of a run nest, a unit is built at most once, and once more for
each access of it that comes from its own build. -/
theorem builds_le (heap : Heap) (std globals : Nat) (actions : List Action) (final : Realm)
    (hrun : run (step profile invoke) (Realm.fresh heap std globals) actions = some final) :
    (observed (step profile invoke) (note profile u) (Realm.fresh heap std globals) ⟨0, 0⟩
        actions).builds ≤
      1 + (observed (step profile invoke) (note profile u) (Realm.fresh heap std globals) ⟨0, 0⟩
        actions).reentries := by
  have hfinal : Counted u final (observed (step profile invoke) (note profile u)
      (Realm.fresh heap std globals) ⟨0, 0⟩ actions) := by
    apply run_observed_of_step (step profile invoke) (note profile u) (Counted u) _ _ final _ actions
      _ hrun
    · intro r notes a next hr hstep
      exact step_counted profile invoke u hr hstep
    · exact ⟨Nat.zero_le _, fun _ => rfl⟩
  exact Nat.le_trans (Nat.le_add_right _ _) hfinal.total

/-- Money reads decimals while it is built. -/
theorem builds_le_nested :
    (observed (step .full fun _ => none) (note .full ⟨"money", ["money"]⟩) (Realm.fresh [] 0 1)
        ⟨0, 0⟩ [.access "money", .access "decimal", .finish fun _ => .prim .null,
          .finish fun _ => .prim .null]).builds ≤ 1 :=
  builds_le .full (fun _ => none) ⟨"money", ["money"]⟩ [] 0 1
    [.access "money", .access "decimal", .finish fun _ => .prim .null,
      .finish fun _ => .prim .null] _ rfl

/-! ### Without re-entrant builds -/

end Builds

/-! ### The accessors -/

section Install

/-- The function object of a getter is the caller's to choose. -/
def installMember (getter : Object) (std : Nat) (heap : Heap) (member : String) : Option Heap :=
  perform .undefined (heap ++ [getter]) (.change std (.define (.name member)
    ⟨.accessor (some (some heap.length)) none, some true, some false⟩))

def install (getter : Object) (std : Nat) (heap : Heap) : Option Heap :=
  (units.flatMap BuildUnit.members).foldlM (installMember getter std) heap

theorem installMember_spec (getter : Object) (std : Nat) (heap : Heap) (member : String)
    (o : Object) (ho : heap[std]? = some o) (hextensible : o.extensible = true)
    (habsent : o.slot (.name member) = none) :
    ∃ next o', installMember getter std heap member = some next ∧ next[std]? = some o' ∧
      o'.extensible = true ∧ next.length = heap.length + 1 ∧
      o'.slot (.name member) = some (.accessor (some heap.length) none true false) ∧
      ∀ key, key ≠ .name member → o'.slot key = o.slot key := by
  have hbound := (List.getElem?_eq_some_iff.mp ho).1
  have happend : (heap ++ [getter])[std]? = some o := by
    rw [List.getElem?_append_left hbound, ho]
  refine ⟨(heap ++ [getter]).set std { o with slots := o.slots ++
      [(.name member, .accessor (some heap.length) none true false)] }, _, ?_,
    List.getElem?_set_self (by simp; omega), hextensible, by simp, ?_, ?_⟩
  · simp [installMember, perform, happend, Change.circular, Object.change, Object.define, habsent,
      hextensible, replace, Descriptor.fresh]
  · have hnone : o.slots.lookup (.name member) = none := habsent
    simp [Object.slot, List.lookup_append, hnone]
  · intro key hkey
    have hne : (key == Key.name member) = false := beq_eq_false_iff_ne.mpr hkey
    simp [Object.slot, List.lookup_append, List.lookup_cons, hne]

theorem installMembers_pinned (getter : Object) (std : Nat) (members : List String)
    (hnodup : members.Nodup) (heap : Heap) (o : Object) (ho : heap[std]? = some o)
    (hextensible : o.extensible = true)
    (habsent : ∀ m ∈ members, o.slot (.name m) = none) :
    ∃ next, members.foldlM (installMember getter std) heap = some next ∧
      (∀ key slot, Pinned heap std key slot → Pinned next std key slot) ∧
      ∀ m ∈ members, Pinned next std (.name m)
        (.accessor (some (heap.length + members.idxOf m)) none true false) := by
  induction members generalizing heap o with
  | nil => exact ⟨heap, rfl, fun _ _ h => h, fun m hm => absurd hm List.not_mem_nil⟩
  | cons first members ih =>
      obtain ⟨hfirst, hrest⟩ := List.nodup_cons.mp hnodup
      obtain ⟨middle, o', hmiddle, ho', hext', hlength, hslot, hother⟩ :=
        installMember_spec getter std heap first o ho hextensible (habsent first List.mem_cons_self)
      have habsent' : ∀ m ∈ members, o'.slot (.name m) = none := by
        intro m hm
        rw [hother (.name m), habsent m (List.mem_cons_of_mem first hm)]
        intro heq
        cases heq
        exact hfirst hm
      obtain ⟨next, hnext, hkept, hpinned⟩ := ih hrest middle o' ho' hext' habsent'
      refine ⟨next, ?_, ?_, ?_⟩
      · rw [List.foldlM_cons, hmiddle]
        exact hnext
      · intro key slot hold
        apply hkept
        obtain ⟨old, hold, hkey, hfixed⟩ := hold
        obtain rfl : o = old := Option.some.inj (ho.symm.trans hold)
        refine ⟨o', ho', ?_, hfixed⟩
        rw [hother key, hkey]
        rintro rfl
        rw [habsent first List.mem_cons_self] at hkey
        cases hkey
      · intro m hm
        rcases List.mem_cons.mp hm with rfl | hm
        · rw [List.idxOf_cons_self]
          exact hkept _ _ ⟨o', ho', hslot, rfl⟩
        · have hne : first ≠ m := by
            rintro rfl
            exact hfirst hm
          have hindex : heap.length + (first :: members).idxOf m =
              middle.length + members.idxOf m := by
            rw [List.idxOf_cons_ne members hne, hlength]
            omega
          rw [hindex]
          exact hpinned m hm

theorem members_nodup : (units.flatMap BuildUnit.members).Nodup := by
  decide

/-- On a `$std` that has none of the members yet the accessors are installed, one getter
each, and no run takes one away or puts another in its place. -/
theorem install_for_good (profile : Profile) (invoke : Nat → Option Value) (getter : Object)
    (std globals : Nat) (heap : Heap) (o : Object) (ho : heap[std]? = some o)
    (hextensible : o.extensible = true)
    (habsent : ∀ m ∈ units.flatMap BuildUnit.members, o.slot (.name m) = none) :
    ∃ installed, install getter std heap = some installed ∧
      ∀ actions final,
        run (step profile invoke) (Realm.fresh installed std globals) actions = some final →
        ∀ m ∈ units.flatMap BuildUnit.members, Pinned final.heap std (.name m) (.accessor
          (some (heap.length + (units.flatMap BuildUnit.members).idxOf m)) none true false) := by
  obtain ⟨installed, hinstalled, _, hpinned⟩ := installMembers_pinned getter std
    (units.flatMap BuildUnit.members) members_nodup heap o ho hextensible habsent
  refine ⟨installed, hinstalled, ?_⟩
  intro actions final hrun m hm
  exact run_pinned profile invoke (hpinned m hm) hrun

theorem install_for_good_empty :
    ∃ installed, install ⟨none, true, []⟩ 0 [⟨none, true, []⟩] = some installed ∧
      ∀ actions final,
        run (step .full fun _ => none) (Realm.fresh installed 0 0) actions = some final →
        ∀ m ∈ units.flatMap BuildUnit.members, Pinned final.heap 0 (.name m) (.accessor
          (some (1 + (units.flatMap BuildUnit.members).idxOf m)) none true false) :=
  install_for_good .full (fun _ => none) ⟨none, true, []⟩ 0 0 [⟨none, true, []⟩] _ rfl rfl
    fun _ _ => rfl

end Install

end Runlet.StdSurface
