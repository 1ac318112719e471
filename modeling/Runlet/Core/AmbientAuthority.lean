import Mathlib.Data.List.Basic
import Runlet.Lib.Confinement
import Runlet.Core.StdSurface

/-!
The ambient authorities of the deterministic profile (`js/determinism.js`, run by
`sanitize_determinism` once the script's own top level has run). The script is a party that
holds some objects and comes to hold others: it looks along their slots, calls functions,
writes wherever it can, and keeps what it holds in closures of its own. The sanitizer works
on the same heap.
-/

namespace Runlet.AmbientAuthority

open ScriptHeap StdSurface Transition Confinement Relation

/-- The realm and what the script has in its hands. `lexical` are the top-level `let` and
`const` bindings, `captured` what a call of a function can hand out. -/
structure Sandbox where
  heap : Heap
  globals : Nat
  objectProto : Nat
  functionProto : Nat
  lexical : List (String × Value)
  captured : Nat → List Nat
  held : List Nat

namespace Sandbox

/-- What the script gets at without looking into an object: literals have a prototype. -/
def roots (s : Sandbox) : List Nat :=
  s.held ++ s.globals :: s.objectProto :: s.functionProto ::
    s.lexical.flatMap fun binding => binding.2.refs

def take (s : Sandbox) (ids : List Nat) : Sandbox := { s with held := ids ++ s.held }

/-- The heap after an operation; what is new on it has captured nothing yet. -/
def store (s : Sandbox) (heap : Heap) : Sandbox :=
  { s with heap := heap, captured := fun x => if x < s.heap.length then s.captured x else [] }

def keep (s : Sandbox) (id target : Nat) : Sandbox :=
  { s with captured := fun x => if x = id then target :: s.captured x else s.captured x }

end Sandbox

inductive Action where
  | look (id target : Nat)
  | call (id target : Nat)
  | keep (id target : Nat)
  | perform (op : Op)

def step (s : Sandbox) : Action → Option Sandbox
  | .look id target =>
      if id ∈ s.roots ∧ target ∈ refsAt s.heap id then some (s.take [target]) else none
  | .call id target =>
      if id ∈ s.roots ∧ id < s.heap.length ∧ target ∈ s.captured id then some (s.take [target])
      else none
  | .keep id target =>
      if id < s.heap.length ∧ target ∈ s.roots then some (s.keep id target) else none
  | .perform op =>
      if ∀ x ∈ op.refs, x ∈ s.roots then
        (ScriptHeap.perform .undefined s.heap op).map fun heap =>
          (s.store heap).take (List.range' s.heap.length (heap.length - s.heap.length))
      else none

/-- Some run of the script ends with the object in its hands. -/
def CanHold (s : Sandbox) (x : Nat) : Prop :=
  ∃ actions final, run step s actions = some final ∧ x ∈ final.roots

/-! ### The sanitizer -/

section Sanitizer

variable (invoke : Nat → Option Value)

namespace Sandbox

/-- `o[name]`; `none` where a getter throws. -/
def read (s : Sandbox) (id : Nat) (name : String) : Option Value :=
  match found s.heap s.heap.length id (.name name) with
  | none => some (.prim .undefined)
  | some slot => slot.read .undefined invoke

/-- A free variable. One that is not bound is read as `undefined`: the sanitizer asks with
`typeof` first. -/
def resolve (s : Sandbox) (name : String) : Option Value :=
  match s.lexical.lookup name with
  | some v => some v
  | none => s.read invoke s.globals name

def member (s : Sandbox) (v : Value) (name : String) : Option Value :=
  match v with
  | .prim .undefined | .prim .null => none
  | .prim (.literal _) => some (.prim .undefined)
  | .ref id => s.read invoke id name

/-- `v[name] = value` in strict code. -/
def assign (s : Sandbox) (v : Value) (name : String) (value : Value) : Option Sandbox :=
  match v with
  | .prim _ => none
  | .ref id => (ScriptHeap.perform .undefined s.heap (.assign id (.name name) value)).map s.store

/-- `delete v[name]` in strict code. -/
def remove (s : Sandbox) (v : Value) (name : String) : Option Sandbox :=
  match v with
  | .prim .undefined | .prim .null => none
  | .prim (.literal _) => some s
  | .ref id => (ScriptHeap.perform .undefined s.heap (.change id (.delete (.name name)))).map s.store

/-- A function expression: the function and the object that is its `prototype`. -/
def function (s : Sandbox) (name : String) (length : String) (captures : List Nat) : Sandbox :=
  let f := s.heap.length + 1
  { s with
    heap := s.heap ++
      [⟨some s.objectProto, true, [(.name "constructor", .data (.ref f) true false true)]⟩,
        ⟨some s.functionProto, true,
          [(.name "length", .data (.prim (.literal length)) false false true),
            (.name "name", .data (.prim (.literal name)) false false true),
            (.name "prototype", .data (.ref s.heap.length) true false false)]⟩]
    captured := fun x =>
      if x < s.heap.length then s.captured x else if x = f then captures else [] }

end Sandbox

def deleteRandom (s : Sandbox) : Option Sandbox := do
  let math ← s.resolve invoke "Math"
  if math = .prim .undefined then some s else s.remove math "random"

/-- `SafeDate` in the place of `Date`: it closes over the real constructor. -/
def swapDate (s : Sandbox) (realDate : Value) : Option Sandbox := do
  let safeDate : Value := .ref (s.heap.length + 1)
  let s := s.function "SafeDate" "7" realDate.refs
  let s ← s.assign safeDate "prototype" (← s.member invoke realDate "prototype")
  let s ← s.assign safeDate "parse" (← s.member invoke realDate "parse")
  let s ← s.assign safeDate "UTC" (← s.member invoke realDate "UTC")
  s.assign (← s.resolve invoke "globalThis") "Date" safeDate

def replaceDate (s : Sandbox) : Option Sandbox := do
  let realDate ← s.resolve invoke "Date"
  if realDate = .prim .undefined then some s else swapDate invoke s realDate

def sanitize (s : Sandbox) : Option Sandbox := (deleteRandom invoke s).bind (replaceDate invoke)

end Sanitizer

/-! ### Connected objects -/

def world : World Sandbox Nat where
  known s x := x < s.heap.length
  holds s x := x ∈ s.roots
  refers s x y := y ∈ refsAt s.heap x ∨ x < s.heap.length ∧ y ∈ s.captured x

theorem mem_roots_take {s : Sandbox} {ids : List Nat} {x : Nat} :
    x ∈ (s.take ids).roots ↔ x ∈ ids ∨ x ∈ s.roots := by
  simp only [Sandbox.roots, Sandbox.take, List.append_assoc, List.mem_append]

theorem known_of_refers {s : Sandbox} {x y : Nat} (h : world.refers s x y) : world.known s x := by
  rcases h with hrefs | ⟨hlt, _⟩
  · by_contra hx
    rw [refsAt, List.getElem?_eq_none (Nat.le_of_not_lt hx)] at hrefs
    cases hrefs
  · exact hlt

theorem careful_refl (s : Sandbox) : Careful world s s :=
  ⟨fun _ h => h, fun _ hx _ => .of_holds hx, fun _ _ hxy _ => .inl ⟨known_of_refers hxy, hxy⟩⟩

/-- What is put into the heap is connected, where it is not new. -/
theorem careful_store {s m : Sandbox} (h : Careful world s m) {op : Op} {heap : Heap}
    (hop : ScriptHeap.perform .undefined m.heap op = some heap)
    (hrefs : ∀ x ∈ op.refs, world.known s x → Connected world s x) :
    Careful world s (m.store heap) where
  known x hx := Nat.lt_of_lt_of_le (h.known x hx) (perform_length_le .undefined hop)
  holds x hx hknown := h.holds x hx hknown
  refers x y hxy hknown := by
    rcases hxy with hin | ⟨_, hcaptured⟩
    · rcases perform_refs .undefined hop hin with hnew | hold
      · exact .inr (hrefs y hnew hknown)
      · exact h.refers x y (.inl hold) hknown
    · simp only [Sandbox.store] at hcaptured
      split at hcaptured
      · next hlt => exact h.refers x y (.inr ⟨hlt, hcaptured⟩) hknown
      · cases hcaptured

theorem careful_take {s m : Sandbox} (h : Careful world s m) {ids : List Nat}
    (hids : ∀ x ∈ ids, world.known s x → Connected world s x) :
    Careful world s (m.take ids) where
  known := h.known
  holds x hx hknown := (mem_roots_take.mp hx).elim (hids x · hknown) (h.holds x · hknown)
  refers := h.refers

theorem careful_keep {s : Sandbox} {id target : Nat} (htarget : Connected world s target) :
    Careful world s (s.keep id target) where
  known _ hx := hx
  holds _ hx _ := .of_holds hx
  refers x y hxy _ := by
    rcases hxy with hin | ⟨hlt, hcaptured⟩
    · exact .inl ⟨known_of_refers (.inl hin), .inl hin⟩
    · simp only [Sandbox.keep] at hcaptured
      split at hcaptured
      · rcases List.mem_cons.mp hcaptured with rfl | hold
        · exact .inr htarget
        · exact .inl ⟨hlt, .inr ⟨hlt, hold⟩⟩
      · exact .inl ⟨hlt, .inr ⟨hlt, hcaptured⟩⟩

/-- Whatever the script does, it comes to hold only what it was connected to. -/
theorem step_careful (s : Sandbox) (a : Action) (next : Sandbox) (h : step s a = some next) :
    Careful world s next := by
  have htake : ∀ {id target}, id ∈ s.roots → world.refers s id target →
      Careful world s (s.take [target]) := by
    intro id target hid hedge
    apply careful_take (careful_refl s)
    intro x hx _
    rw [List.mem_singleton.mp hx]
    exact (Connected.of_holds hid).tail hedge
  cases a with
  | look id target =>
      simp only [step, Option.ite_none_right_eq_some, Option.some.injEq] at h
      obtain ⟨⟨hid, hin⟩, rfl⟩ := h
      exact htake hid (.inl hin)
  | call id target =>
      simp only [step, Option.ite_none_right_eq_some, Option.some.injEq] at h
      obtain ⟨⟨hid, hlt, hin⟩, rfl⟩ := h
      exact htake hid (.inr ⟨hlt, hin⟩)
  | keep id target =>
      simp only [step, Option.ite_none_right_eq_some, Option.some.injEq] at h
      obtain ⟨⟨_, hin⟩, rfl⟩ := h
      exact careful_keep (.of_holds hin)
  | perform op =>
      simp only [step, Option.ite_none_right_eq_some] at h
      obtain ⟨hrefs, h⟩ := h
      obtain ⟨heap, hop, rfl⟩ := Option.map_eq_some_iff.mp h
      apply careful_take (careful_store (careful_refl s) hop fun x hx _ => .of_holds (hrefs x hx))
      intro x hx hknown
      have hle : s.heap.length ≤ x := (List.mem_range'_1.mp hx).1
      exact absurd hknown (Nat.not_lt.mpr hle)

/-- One look or one call leads along a reference. -/
theorem step_along {s : Sandbox} {x y : Nat} (hx : x ∈ s.roots) (hxy : world.refers s x y) :
    ∃ a, step s a = some (s.take [y]) := by
  rcases hxy with hin | ⟨hlt, hin⟩
  · exact ⟨.look x y, if_pos ⟨hx, hin⟩⟩
  · exact ⟨.call x y, if_pos ⟨hx, hlt, hin⟩⟩

/-- The script can get hold of exactly the objects it is connected to. -/
theorem canHold_iff {s : Sandbox} {x : Nat} (hx : x < s.heap.length) :
    CanHold s x ↔ Connected world s x := by
  constructor
  · rintro ⟨actions, final, hrun, hroot⟩
    exact run_connected step_careful hrun (.of_holds hroot) hx
  · rintro ⟨y, hy, hpath⟩
    -- the heap and what is captured stay as they are along the path
    have hfollow : ∀ t : Sandbox, t.heap = s.heap → t.captured = s.captured → y ∈ t.roots →
        CanHold t x := by
      clear hy
      induction hpath using ReflTransGen.head_induction_on with
      | refl => exact fun t _ _ hroot => ⟨[], t, rfl, hroot⟩
      | @head y z hedge _ ih =>
          intro t hheap hcaptured hroot
          have hedge' : world.refers t y z := by
            simpa only [world, hheap, hcaptured] using hedge
          obtain ⟨a, ha⟩ := step_along hroot hedge'
          have hz : z ∈ (t.take [z]).roots := mem_roots_take.mpr (.inl List.mem_cons_self)
          obtain ⟨actions, final, hrun, hfinal⟩ := ih (t.take [z]) hheap hcaptured hz
          exact ⟨a :: actions, final, (run_cons_eq_some _ _ _ _ _).mpr ⟨_, ha, hrun⟩, hfinal⟩
    exact hfollow s rfl rfl hy

/-! ### What the sanitizer gets at -/

section Sanitizer

variable {invoke : Nat → Option Value}

/-- A getter gives what its code refers to. -/
def Honest (invoke : Nat → Option Value) (s : Sandbox) : Prop :=
  ∀ get v, invoke get = some v → ∀ x ∈ v.refs, get < s.heap.length ∧ x ∈ s.captured get

/-- A state on the way of the sanitizer. -/
structure Reached (invoke : Nat → Option Value) (s m : Sandbox) : Prop where
  careful : Careful world s m
  honest : Honest invoke m

variable {s m : Sandbox}

theorem Reached.read (h : Reached invoke s m) {id : Nat} {name : String} {v : Value}
    (hid : world.known s id → Connected world s id) (hread : m.read invoke id name = some v) :
    ∀ x ∈ v.refs, world.known s x → Connected world s x := by
  intro x hx hknown
  unfold Sandbox.read at hread
  split at hread
  · rw [← Option.some.inj hread] at hx
    cases hx
  · next slot hfound =>
      obtain ⟨holder, hpath, hslot⟩ := found_path hfound
      have hholder : ReflTransGen (world.refers m) id holder := 
        ReflTransGen.mono (fun _ _ hxy => Or.inl hxy) _ _ hpath
      cases slot with
      | data value w e c =>
          obtain rfl : value = v := Option.some.inj hread
          exact h.careful.path hid (hholder.tail (.inl (mem_refsAt_of_slot hslot hx))) hknown
      | accessor get set e c =>
          cases get with
          | none =>
              rw [← Option.some.inj hread] at hx
              cases hx
          | some get =>
              have hget : get ∈ refsAt m.heap holder :=
                mem_refsAt_of_slot hslot (by simp [Slot.refs])
              have hcall : world.refers m get x := .inr (h.honest get v hread x hx)
              exact h.careful.path hid ((hholder.tail (.inl hget)).tail hcall) hknown

theorem Reached.resolve (h : Reached invoke s m) {name : String} {v : Value}
    (hv : m.resolve invoke name = some v) : ∀ x ∈ v.refs, world.known s x → Connected world s x := by
  unfold Sandbox.resolve at hv
  split at hv
  · next bound hbound =>
      obtain rfl : bound = v := Option.some.inj hv
      intro x hx
      obtain ⟨before, after, hsplit, _⟩ := List.lookup_eq_some_iff.mp hbound
      apply h.careful.holds
      change x ∈ m.roots
      simp only [Sandbox.roots, hsplit, List.mem_append, List.mem_cons, List.mem_flatMap]
      exact .inr (.inr (.inr (.inr ⟨(name, bound), by simp, hx⟩)))
  · apply h.read _ hv
    apply h.careful.holds
    change m.globals ∈ m.roots
    simp [Sandbox.roots]

theorem Reached.member (h : Reached invoke s m) {object v : Value} {name : String}
    (hobject : ∀ x ∈ object.refs, world.known s x → Connected world s x)
    (hv : m.member invoke object name = some v) :
    ∀ x ∈ v.refs, world.known s x → Connected world s x := by
  cases object with
  | ref id => exact h.read (hobject id List.mem_cons_self) hv
  | prim p =>
      cases p with
      | undefined => cases hv
      | null => cases hv
      | literal text =>
          rw [← Option.some.inj hv]
          intro x hx
          cases hx

theorem Reached.store (h : Reached invoke s m) {op : Op} {heap : Heap}
    (hop : ScriptHeap.perform .undefined m.heap op = some heap)
    (hrefs : ∀ x ∈ op.refs, world.known s x → Connected world s x) :
    Reached invoke s (m.store heap) := by
  refine ⟨careful_store h.careful hop hrefs, fun get v hv x hx => ?_⟩
  obtain ⟨hlt, hcaptured⟩ := h.honest get v hv x hx
  refine ⟨Nat.lt_of_lt_of_le hlt (perform_length_le .undefined hop), ?_⟩
  simpa only [Sandbox.store, hlt, if_true] using hcaptured

theorem Reached.assign (h : Reached invoke s m) {object value : Value} {name : String}
    {next : Sandbox} (hvalue : ∀ x ∈ value.refs, world.known s x → Connected world s x)
    (hnext : m.assign object name value = some next) : Reached invoke s next := by
  cases object with
  | prim p => cases hnext
  | ref id =>
      obtain ⟨heap, hop, rfl⟩ := Option.map_eq_some_iff.mp hnext
      exact h.store hop hvalue

theorem Reached.remove (h : Reached invoke s m) {object : Value} {name : String} {next : Sandbox}
    (hnext : m.remove object name = some next) : Reached invoke s next := by
  cases object with
  | ref id =>
      obtain ⟨heap, hop, rfl⟩ := Option.map_eq_some_iff.mp hnext
      exact h.store hop fun x hx => by cases hx
  | prim p =>
      cases p with
      | undefined => cases hnext
      | null => cases hnext
      | literal text => exact Option.some.inj hnext ▸ h

theorem Reached.function (h : Reached invoke s m) {name length : String} {captures : List Nat}
    (hcaptures : ∀ x ∈ captures, world.known s x → Connected world s x) :
    Reached invoke s (m.function name length captures) := by
  have hgrown : m.heap.length ≤ (m.function name length captures).heap.length := by
    simp [Sandbox.function]
  have hnew : ∀ x, world.known s x → x < m.heap.length := fun x hx => h.careful.known x hx
  refine ⟨⟨fun x hx => Nat.lt_of_lt_of_le (hnew x hx) hgrown, h.careful.holds, ?_⟩, ?_⟩
  · intro x y hxy hknown
    have hy := hnew y hknown
    rcases hxy with hin | ⟨_, hcaptured⟩
    · rcases Nat.lt_or_ge x m.heap.length with hlt | hge
      · rw [refsAt, Sandbox.function, List.getElem?_append_left hlt] at hin
        exact h.careful.refers x y (.inl hin) hknown
      · -- a new object refers to a prototype of the realm, or to the other new one
        rw [refsAt, Sandbox.function, List.getElem?_append_right hge] at hin
        have hproto : y = m.objectProto ∨ y = m.functionProto := by
          rcases hx : x - m.heap.length with _ | _ | more
          · simp only [hx, List.getElem?_cons_zero, Option.elim_some] at hin
            simp [Object.refs, Slot.refs, Value.refs] at hin
            omega
          · simp only [hx, List.getElem?_cons_succ, List.getElem?_cons_zero,
              Option.elim_some] at hin
            simp [Object.refs, Slot.refs, Value.refs] at hin
            omega
          · simp [hx] at hin
        refine .inr (h.careful.holds y ?_ hknown)
        change y ∈ m.roots
        rcases hproto with rfl | rfl <;> simp [Sandbox.roots]
    · simp only [Sandbox.function] at hcaptured
      split at hcaptured
      · next hlt => exact h.careful.refers x y (.inr ⟨hlt, hcaptured⟩) hknown
      · split at hcaptured
        · exact .inr (hcaptures y hcaptured hknown)
        · cases hcaptured
  · intro get v hv x hx
    obtain ⟨hlt, hcaptured⟩ := h.honest get v hv x hx
    refine ⟨Nat.lt_of_lt_of_le hlt hgrown, ?_⟩
    simpa only [Sandbox.function, hlt, if_true] using hcaptured

theorem Reached.deleteRandom (h : Reached invoke s m) {next : Sandbox}
    (hnext : deleteRandom invoke m = some next) : Reached invoke s next := by
  obtain ⟨math, _, hnext⟩ := Option.bind_eq_some_iff.mp hnext
  split at hnext
  · exact Option.some.inj hnext ▸ h
  · exact h.remove hnext

theorem Reached.replaceDate (h : Reached invoke s m) {next : Sandbox}
    (hnext : replaceDate invoke m = some next) : Reached invoke s next := by
  obtain ⟨realDate, hdate, hnext⟩ := Option.bind_eq_some_iff.mp hnext
  split at hnext
  · exact Option.some.inj hnext ▸ h
  · have hrefs := h.resolve hdate
    have hsafe : ∀ x ∈ (.ref (m.heap.length + 1) : Value).refs, world.known s x →
        Connected world s x := by
      intro x hx hknown
      have hlt : x < m.heap.length := h.careful.known x hknown
      rw [List.mem_singleton.mp hx] at hlt
      omega
    have h₁ : Reached invoke s (m.function "SafeDate" "7" realDate.refs) := h.function hrefs
    simp only [swapDate, Option.bind_eq_bind, Option.bind_eq_some_iff] at hnext
    obtain ⟨prototype, hprototype, s₂, hs₂, parse, hparse, s₃, hs₃, utc, hutc, s₄, hs₄,
      globalThis, _, hnext⟩ := hnext
    have h₂ := h₁.assign (h₁.member hrefs hprototype) hs₂
    have h₃ := h₂.assign (h₂.member hrefs hparse) hs₃
    have h₄ := h₃.assign (h₃.member hrefs hutc) hs₄
    exact h₄.assign hsafe hnext

theorem Reached.refl (h : Honest invoke s) : Reached invoke s s := ⟨careful_refl s, h⟩

/-- Only the slot `Math.random` refers to the function. -/
structure Sole (s : Sandbox) (math random : Nat) : Prop where
  known : random < s.heap.length
  unheld : random ∉ s.roots
  uncaptured : ∀ x < s.heap.length, random ∉ s.captured x
  elsewhere : ∀ x < s.heap.length, x ≠ math → random ∉ refsAt s.heap x
  here : ∀ o, s.heap[math]? = some o → o.proto ≠ some random ∧
    ∀ entry ∈ o.slots, entry.1 ≠ .name "random" → random ∉ entry.2.refs

theorem Sole.deleted {math random : Nat} {heap : Heap} (h : Sole s math random)
    (hdelete : ScriptHeap.perform .undefined s.heap (.change math (.delete (.name "random"))) =
      some heap) : ¬Connected world (s.store heap) random := by
  apply not_connected h.unheld
  rintro y (hin | ⟨_, hcaptured⟩)
  · simp only [ScriptHeap.perform] at hdelete
    cases ho : s.heap[math]? with
    | none => simp [ho] at hdelete
    | some o =>
        simp only [ho, Option.ite_none_left_eq_some] at hdelete
        obtain ⟨next, hnext, rfl⟩ := Option.map_eq_some_iff.mp hdelete.2
        by_cases hy : y = math
        · subst hy
          rw [refsAt, Sandbox.store, List.getElem?_set_self (List.getElem?_eq_some_iff.mp ho).1]
            at hin
          obtain ⟨hproto, hslots⟩ := delete_slots hnext
          obtain ⟨hnoproto, hnoslot⟩ := h.here o ho
          rcases mem_refs.mp hin with hin | ⟨entry, hentry, hin⟩
          · exact hnoproto (hproto ▸ hin)
          · obtain ⟨hold, hne⟩ := hslots entry hentry
            exact hnoslot entry hold hne hin
        · rw [refsAt, Sandbox.store, List.getElem?_set_ne (Ne.symm hy)] at hin
          exact h.elsewhere y (known_of_refers (.inl hin)) hy hin
  · simp only [Sandbox.store] at hcaptured
    split at hcaptured
    · next hlt => exact h.uncaptured y hlt hcaptured
    · cases hcaptured

/-- `Date` is as the realm made it: its `prototype` leads back to it by `constructor`. -/
structure Intact (s : Sandbox) (date prototype : Nat) : Prop where
  unshadowed : s.lexical.lookup "Date" = none ∧ s.lexical.lookup "globalThis" = none
  globalThisSlot : ∃ w e c,
    slotAt s.heap s.globals (.name "globalThis") = some (.data (.ref s.globals) w e c)
  dateSlot : ∃ e c, slotAt s.heap s.globals (.name "Date") = some (.data (.ref date) true e c)
  prototypeSlot : ∃ w e c,
    slotAt s.heap date (.name "prototype") = some (.data (.ref prototype) w e c)
  constructorSlot : ∃ w e c,
    slotAt s.heap prototype (.name "constructor") = some (.data (.ref date) w e c)

theorem lt_of_slotAt {heap : Heap} {id : Nat} {key : Key} {slot : ScriptHeap.Slot Prim}
    (h : slotAt heap id key = some slot) : id < heap.length := by
  obtain ⟨o, ho, _⟩ := Option.bind_eq_some_iff.mp h
  exact (List.getElem?_eq_some_iff.mp ho).1

theorem read_data {s : Sandbox} {id : Nat} {name : String} {v : Value} {w e c : Bool}
    (h : slotAt s.heap id (.name name) = some (.data v w e c)) :
    s.read invoke id name = some v := by
  rw [Sandbox.read, found_own h]
  rfl

/-- The state with new objects, and nothing changed on the old ones. -/
structure Grown (s m : Sandbox) : Prop where
  length : s.heap.length ≤ m.heap.length
  heap : ∀ x < s.heap.length, m.heap[x]? = s.heap[x]?
  captured : ∀ x < s.heap.length, m.captured x = s.captured x
  roots : m.roots = s.roots
  globals : m.globals = s.globals
  lexical : m.lexical = s.lexical

theorem Grown.slotAt (h : Grown s m) {id : Nat} {key : Key} (hid : id < s.heap.length) :
    slotAt m.heap id key = slotAt s.heap id key := by
  rw [ScriptHeap.slotAt, ScriptHeap.slotAt, h.heap id hid]

theorem grown_function (s : Sandbox) (name length : String) (captures : List Nat) :
    Grown s (s.function name length captures) where
  length := by simp [Sandbox.function]
  heap x hx := by rw [Sandbox.function, List.getElem?_append_left hx]
  captured x hx := by simp only [Sandbox.function, hx, if_true]
  roots := rfl
  globals := rfl
  lexical := rfl

theorem slotAt_function (s : Sandbox) (name length : String) (captures : List Nat) :
    slotAt (s.function name length captures).heap (s.heap.length + 1) (.name "prototype") =
      some (.data (.ref s.heap.length) true false false) := by
  rw [slotAt, Sandbox.function, List.getElem?_append_right (Nat.le_add_right _ 1),
    Nat.add_sub_cancel_left]
  rfl

theorem Grown.assign (h : Grown s m) {id : Nat} {name : String} {v : Value} {next : Sandbox}
    (hid : s.heap.length ≤ id) (hnext : m.assign (.ref id) name v = some next) :
    Grown s next := by
  obtain ⟨heap, hop, rfl⟩ := Option.map_eq_some_iff.mp hnext
  have hlength := perform_length_le Prim.undefined hop
  exact {
    length := h.length.trans hlength
    heap := fun x hx => by
      have hother := (assign_frame Prim.undefined hop).1 x (by omega)
      exact hother.trans (h.heap x hx)
    captured := fun x hx => by
      have hlt : x < m.heap.length := Nat.lt_of_lt_of_le hx h.length
      simp only [Sandbox.store, hlt, if_true, h.captured x hx]
    roots := h.roots
    globals := h.globals
    lexical := h.lexical }

/-- An assignment under another name leaves a slot alone. -/
theorem slotAt_assign {m next : Sandbox} {id : Nat} {name : String} {v : Value}
    (hnext : m.assign (.ref id) name v = some next) {other : Nat} {key : Key}
    (hkey : other ≠ id ∨ key ≠ .name name) :
    slotAt next.heap other key = slotAt m.heap other key := by
  obtain ⟨heap, hop, rfl⟩ := Option.map_eq_some_iff.mp hnext
  obtain ⟨hothers, hsame⟩ := assign_frame Prim.undefined hop
  by_cases hother : other = id
  · subst hother
    exact hsame key (hkey.resolve_left fun h => h rfl)
  · rw [slotAt, slotAt, Sandbox.store, hothers other hother]

/-- What the replacement of an intact `Date` leaves behind. -/
structure Swapped (s s' : Sandbox) (date prototype safeDate : Nat) : Prop where
  roots : s'.roots = s.roots
  captured : ∀ x < s.heap.length, s'.captured x = s.captured x
  length : s.heap.length ≤ s'.heap.length
  heap : ∀ x < s.heap.length, x ≠ s.globals → s'.heap[x]? = s.heap[x]?
  globals : ∀ x ∈ refsAt s.heap s.globals, x = date ∨ x ∈ refsAt s'.heap s.globals
  first : safeDate ∈ refsAt s'.heap s.globals
  second : prototype ∈ refsAt s'.heap safeDate
  third : date ∈ refsAt s'.heap prototype

theorem replaceDate_intact {s s' : Sandbox} {date prototype : Nat}
    (h : Intact s date prototype) (hnext : replaceDate invoke s = some s') :
    Swapped s s' date prototype (s.heap.length + 1) := by
  obtain ⟨⟨hdateFree, hthisFree⟩, ⟨wt, et, ct, hthis⟩, ⟨ed, cd, hglobal⟩, ⟨wp, ep, cp, hproto⟩,
    ⟨wc, ec, cc, hctor⟩⟩ := h
  have hglobals := lt_of_slotAt hglobal
  have hdate := lt_of_slotAt hproto
  have hprototype := lt_of_slotAt hctor
  have hresolve : s.resolve invoke "Date" = some (.ref date) := by
    rw [Sandbox.resolve, hdateFree]
    exact read_data hglobal
  simp only [replaceDate, hresolve, Option.bind_eq_bind, Option.bind_some] at hnext
  rw [if_neg (by simp)] at hnext
  simp only [swapDate, Option.bind_eq_bind, Option.bind_eq_some_iff] at hnext
  obtain ⟨protoValue, hprotoValue, s₂, hs₂, parse, _, s₃, hs₃, utc, _, s₄, hs₄,
    globalThis, hglobalThis, hs'⟩ := hnext
  have h₁ := grown_function s "SafeDate" "7" (.ref date : Value).refs
  generalize hfunction : s.function "SafeDate" "7" (.ref date : Value).refs = s₁ at *
  have h₂ := h₁.assign (Nat.le_succ _) hs₂
  have h₃ := h₂.assign (Nat.le_succ _) hs₃
  have h₄ := h₃.assign (Nat.le_succ _) hs₄
  -- what was read is what the realm put there
  obtain rfl : Value.ref prototype = protoValue := by
    have hread : s₁.read invoke date "prototype" = some (.ref prototype) :=
      read_data ((h₁.slotAt hdate).trans hproto)
    exact Option.some.inj (hread.symm.trans hprotoValue)
  obtain rfl : Value.ref s.globals = globalThis := by
    have hread : s₄.resolve invoke "globalThis" = some (.ref s.globals) := by
      rw [Sandbox.resolve, h₄.lexical, hthisFree, h₄.globals]
      exact read_data ((h₄.slotAt hglobals).trans hthis)
    exact Option.some.inj (hread.symm.trans hglobalThis)
  obtain ⟨heap₂, hop₂, rfl⟩ := Option.map_eq_some_iff.mp hs₂
  obtain ⟨heap', hop', rfl⟩ := Option.map_eq_some_iff.mp hs'
  have hfresh : slotAt s₁.heap (s.heap.length + 1) (.name "prototype") =
      some (.data (.ref s.heap.length) true false false) := by
    rw [← hfunction]
    exact slotAt_function s _ _ _
  have hsafe₂ := (assign_own Prim.undefined hfresh hop₂).1
  have hsafe₃ := (slotAt_assign hs₃ (.inr (by decide))).trans hsafe₂
  have hsafe₄ := (slotAt_assign hs₄ (.inr (by decide))).trans hsafe₃
  have hsafe' := (slotAt_assign hs' (.inl (by omega))).trans hsafe₄
  have hglobal₄ := (h₄.slotAt hglobals).trans hglobal
  obtain ⟨hfirst, hkept⟩ := assign_own Prim.undefined hglobal₄ hop'
  have hctor' := (slotAt_assign hs' (.inr (by decide))).trans ((h₄.slotAt hprototype).trans hctor)
  exact {
    roots := h₄.roots
    captured := fun x hx => by
      have hlt : x < s₄.heap.length := Nat.lt_of_lt_of_le hx h₄.length
      simp only [Sandbox.store, hlt, if_true, h₄.captured x hx]
    length := h₄.length.trans (perform_length_le Prim.undefined hop')
    heap := fun x hx hne => ((assign_frame Prim.undefined hop').1 x hne).trans (h₄.heap x hx)
    globals := fun x hx => by
      have hx₄ : x ∈ refsAt s₄.heap s.globals := by
        rwa [refsAt, h₄.heap s.globals hglobals]
      exact (hkept x hx₄).imp_left List.mem_singleton.mp
    first := mem_refsAt_of_slot hfirst List.mem_cons_self
    second := mem_refsAt_of_slot hsafe' List.mem_cons_self
    third := mem_refsAt_of_slot hctor' List.mem_cons_self }

/-- A path of before is a path of after: what goes from `globalThis` to `Date` goes round by
`SafeDate.prototype.constructor`. -/
theorem Swapped.path {s s' : Sandbox} {date prototype safeDate : Nat}
    (h : Swapped s s' date prototype safeDate) {x y : Nat}
    (hpath : ReflTransGen (world.refers s) x y) : ReflTransGen (world.refers s') x y := by
  induction hpath with
  | refl => exact .refl
  | @tail y z _ hedge ih =>
      rcases hedge with hin | ⟨hlt, hcaptured⟩
      · by_cases hy : y = s.globals
        · subst hy
          rcases h.globals z hin with rfl | hkept
          · exact ((ih.tail (.inl h.first)).tail (.inl h.second)).tail (.inl h.third)
          · exact ih.tail (.inl hkept)
        · have hknown : y < s.heap.length := known_of_refers (.inl hin)
          refine ih.tail (.inl ?_)
          rwa [refsAt, h.heap y hknown hy]
      · refine ih.tail (.inr ⟨Nat.lt_of_lt_of_le hlt h.length, ?_⟩)
        rwa [h.captured y hlt]

theorem Intact.deleteRandom {s next : Sandbox} {date prototype : Nat}
    (h : Intact s date prototype) (hnext : deleteRandom invoke s = some next) :
    Intact next date prototype := by
  obtain ⟨math, _, hnext⟩ := Option.bind_eq_some_iff.mp hnext
  split at hnext
  · exact Option.some.inj hnext ▸ h
  · cases math with
    | prim p =>
        cases p with
        | undefined => cases hnext
        | null => cases hnext
        | literal text => exact Option.some.inj hnext ▸ h
    | ref id =>
        obtain ⟨heap, hop, rfl⟩ := Option.map_eq_some_iff.mp hnext
        have hkept : ∀ other name, Key.name name ≠ .name "random" →
            slotAt heap other (.name name) = slotAt s.heap other (.name name) :=
          fun other name hne => delete_frame .undefined hop hne
        obtain ⟨hfree, hthis, hdate, hproto, hctor⟩ := h
        refine ⟨hfree, ?_, ?_, ?_, ?_⟩
        · simpa only [Sandbox.store, hkept _ "globalThis" (by decide)] using hthis
        · simpa only [Sandbox.store, hkept _ "Date" (by decide)] using hdate
        · simpa only [Sandbox.store, hkept _ "prototype" (by decide)] using hproto
        · simpa only [Sandbox.store, hkept _ "constructor" (by decide)] using hctor

/-- Where `Date` is as the realm made it, putting `SafeDate` in its place takes nothing
away: of the objects that were there, the script gets hold of exactly those it would have
with `Math.random` deleted and `Date` left alone, the real `Date` and its `now` among them. -/
theorem canHold_sanitized {s deleted s' : Sandbox} {date prototype x : Nat}
    (honest : Honest invoke s) (hintact : Intact s date prototype)
    (hdelete : deleteRandom invoke s = some deleted) (hsanitize : sanitize invoke s = some s')
    (hx : x < s.heap.length) : CanHold s' x ↔ CanHold deleted x := by
  rw [sanitize, hdelete, Option.bind_some] at hsanitize
  have hdeleted := (Reached.refl honest).deleteRandom hdelete
  have h' := (Reached.refl hdeleted.honest).replaceDate hsanitize
  have hswapped := replaceDate_intact (hintact.deleteRandom hdelete) hsanitize
  have hknown : x < deleted.heap.length := hdeleted.careful.known x hx
  rw [canHold_iff hknown, canHold_iff (h'.careful.known x hknown)]
  constructor
  · intro h
    exact h'.careful.connected h hknown
  · rintro ⟨y, hy, hpath⟩
    have hroot : y ∈ s'.roots := by rwa [hswapped.roots]
    exact ⟨y, hroot, hswapped.path hpath⟩

end Sanitizer

/-- The part of a fresh realm that the sanitizer touches: the prototypes, `globalThis`,
`Math`, its `random`, `Date`, its `prototype`, and `now`, `parse` and `UTC`. -/
def freshRealm : Sandbox where
  heap := [⟨none, true, []⟩, ⟨some 0, true, []⟩,
    ⟨some 0, true, [(.name "globalThis", .data (.ref 2) true false true),
      (.name "Math", .data (.ref 3) true false true),
      (.name "Date", .data (.ref 5) true false true)]⟩,
    ⟨some 0, true, [(.name "random", .data (.ref 4) true false true)]⟩, ⟨some 1, true, []⟩,
    ⟨some 1, true, [(.name "prototype", .data (.ref 6) false false false),
      (.name "now", .data (.ref 7) true false true), (.name "parse", .data (.ref 8) true false true),
      (.name "UTC", .data (.ref 9) true false true)]⟩,
    ⟨some 0, true, [(.name "constructor", .data (.ref 5) true false true)]⟩,
    ⟨some 1, true, []⟩, ⟨some 1, true, []⟩, ⟨some 1, true, []⟩]
  globals := 2
  objectProto := 0
  functionProto := 1
  lexical := []
  captured _ := []
  held := []

theorem freshRealm_honest : Honest (fun _ => none) freshRealm := by
  intro get v h
  cases h

theorem freshRealm_intact : Intact freshRealm 5 6 :=
  ⟨⟨rfl, rfl⟩, ⟨_, _, _, rfl⟩, ⟨_, _, rfl⟩, ⟨_, _, _, rfl⟩, ⟨_, _, _, rfl⟩⟩

theorem canHold_sanitized_now : ∃ deleted s', deleteRandom (fun _ => none) freshRealm =
    some deleted ∧ sanitize (fun _ => none) freshRealm = some s' ∧
      (CanHold s' 7 ↔ CanHold deleted 7) :=
  ⟨_, _, rfl, rfl,
    canHold_sanitized freshRealm_honest freshRealm_intact rfl rfl (by decide)⟩

end Runlet.AmbientAuthority
