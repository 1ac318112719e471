import Mathlib.Logic.Relation
import Runlet.Lib.Marking

/-!
A heap of ordinary script objects: own slots in the order they were made, a
prototype, and whether slots can still be added. The operations are the internal
methods of an ordinary object; one that is refused answers `none`. A frozen object
is the same object after every operation, and a slot that is fixed stays as it is
even where the object around it is still open.
-/

namespace Runlet.ScriptHeap

inductive Value (Prim : Type*) where
  | prim (p : Prim)
  | ref (id : Nat)
  deriving DecidableEq

inductive Slot (Prim : Type*) where
  | data (value : Value Prim) (writable enumerable configurable : Bool)
  | accessor (get set : Option Nat) (enumerable configurable : Bool)
  deriving DecidableEq

structure Object (Key Prim : Type*) where
  proto : Option Nat
  extensible : Bool
  slots : List (Key × Slot Prim)
  deriving DecidableEq

abbrev Heap (Key Prim : Type*) := List (Object Key Prim)

/-- The fields of a property descriptor; an absent field is `none`. -/
inductive Fields (Prim : Type*) where
  | generic
  | data (value : Option (Value Prim)) (writable : Option Bool)
  | accessor (get set : Option (Option Nat))

structure Descriptor (Prim : Type*) where
  fields : Fields Prim
  enumerable : Option Bool
  configurable : Option Bool

variable {Key Prim : Type*}

/-! ### One slot -/

def Slot.enumerable : Slot Prim → Bool
  | .data _ _ enumerable _ | .accessor _ _ enumerable _ => enumerable

def Slot.configurable : Slot Prim → Bool
  | .data _ _ _ configurable | .accessor _ _ _ configurable => configurable

/-- Neither the slot nor the value in it can change any more. -/
def Slot.fixed : Slot Prim → Bool
  | .data _ writable _ configurable => !writable && !configurable
  | .accessor _ _ _ configurable => !configurable

/-- What `Object.freeze` makes of a slot. -/
def Slot.freeze : Slot Prim → Slot Prim
  | .data value _ enumerable _ => .data value false enumerable false
  | .accessor get set enumerable _ => .accessor get set enumerable false

/-- A slot made from a descriptor: absent fields are undefined or false. -/
def Descriptor.fresh (undefined : Prim) (d : Descriptor Prim) : Slot Prim :=
  let enumerable := d.enumerable.getD false
  let configurable := d.configurable.getD false
  match d.fields with
  | .generic => .data (.prim undefined) false enumerable configurable
  | .data value writable =>
      .data (value.getD (.prim undefined)) (writable.getD false) enumerable configurable
  | .accessor get set => .accessor (get.getD none) (set.getD none) enumerable configurable

/-- Whether an absent field, or one equal to what is there, leaves a part as it is. -/
def keeps {α : Type*} [DecidableEq α] (field : Option α) (current : α) : Bool :=
  match field with
  | none => true
  | some a => a == current

section Descriptors

variable [DecidableEq Prim]

/-- Whether a slot that is not configurable takes the descriptor. -/
def Slot.admits (slot : Slot Prim) (d : Descriptor Prim) : Bool :=
  keeps d.configurable false && keeps d.enumerable slot.enumerable &&
    match slot, d.fields with
    | _, .generic => true
    | .accessor get set _ _, .accessor get' set' => keeps get' get && keeps set' set
    | .data value writable _ _, .data value' writable' =>
        writable || (keeps writable' false && keeps value' value)
    | _, _ => false

/-- The slot with the fields of the descriptor written over it. -/
def Slot.apply (undefined : Prim) (slot : Slot Prim) (d : Descriptor Prim) : Slot Prim :=
  let enumerable := d.enumerable.getD slot.enumerable
  let configurable := d.configurable.getD slot.configurable
  match slot, d.fields with
  | .data value writable _ _, .generic => .data value writable enumerable configurable
  | .accessor get set _ _, .generic => .accessor get set enumerable configurable
  | .data value writable _ _, .data value' writable' =>
      .data (value'.getD value) (writable'.getD writable) enumerable configurable
  | .accessor get set _ _, .accessor get' set' =>
      .accessor (get'.getD get) (set'.getD set) enumerable configurable
  | .accessor .., .data value writable =>
      .data (value.getD (.prim undefined)) (writable.getD false) enumerable configurable
  | .data .., .accessor get set =>
      .accessor (get.getD none) (set.getD none) enumerable configurable

theorem getD_of_keeps {α : Type*} [DecidableEq α] {field : Option α} {current : α}
    (h : keeps field current = true) : field.getD current = current := by
  cases field with
  | none => rfl
  | some a => exact of_decide_eq_true (by simpa [keeps] using h)

/-- A fixed slot takes only descriptors that change nothing. -/
theorem apply_of_admits (undefined : Prim) (slot : Slot Prim) (d : Descriptor Prim)
    (hfixed : slot.fixed = true) (h : slot.admits d = true) : slot.apply undefined d = slot := by
  obtain ⟨fields, enumerable, configurable⟩ := d
  simp only [Slot.admits, Bool.and_eq_true] at h
  obtain ⟨⟨hconf, henum⟩, hfields⟩ := h
  have hc : configurable.getD false = false := getD_of_keeps hconf
  have he : enumerable.getD slot.enumerable = slot.enumerable := getD_of_keeps henum
  cases slot with
  | data value writable e c =>
      obtain ⟨rfl, rfl⟩ : writable = false ∧ c = false := by simpa [Slot.fixed] using hfixed
      simp only [Slot.enumerable] at he
      cases fields with
      | generic => simp only [Slot.apply, Slot.enumerable, Slot.configurable, hc, he]
      | data value' writable' =>
          simp only [Bool.false_or, Bool.and_eq_true] at hfields
          simp only [Slot.apply, Slot.enumerable, Slot.configurable, hc, he,
            getD_of_keeps hfields.1, getD_of_keeps hfields.2]
      | accessor get set => cases hfields
  | accessor get set e c =>
      obtain rfl : c = false := by simpa [Slot.fixed] using hfixed
      simp only [Slot.enumerable] at he
      cases fields with
      | generic => simp only [Slot.apply, Slot.enumerable, Slot.configurable, hc, he]
      | data value' writable' => cases hfields
      | accessor get' set' =>
          simp only [Bool.and_eq_true] at hfields
          simp only [Slot.apply, Slot.enumerable, Slot.configurable, hc, he,
            getD_of_keeps hfields.1, getD_of_keeps hfields.2]

end Descriptors

@[simp] theorem freeze_fixed (slot : Slot Prim) : slot.freeze.fixed = true := by
  cases slot <;> rfl

theorem freeze_of_fixed (slot : Slot Prim) (h : slot.fixed = true) : slot.freeze = slot := by
  cases slot with
  | data value writable e c =>
      obtain ⟨rfl, rfl⟩ : writable = false ∧ c = false := by simpa [Slot.fixed] using h
      rfl
  | accessor get set e c =>
      obtain rfl : c = false := by simpa [Slot.fixed] using h
      rfl

theorem configurable_of_fixed (slot : Slot Prim) (h : slot.fixed = true) :
    slot.configurable = false := by
  cases slot <;> simp_all [Slot.fixed, Slot.configurable]

/-! ### One object -/

def Object.isFrozen (o : Object Key Prim) : Bool :=
  !o.extensible && o.slots.all fun slot => slot.2.fixed

/-- `Object.freeze` -/
def Object.freeze (o : Object Key Prim) : Object Key Prim :=
  { o with extensible := false, slots := o.slots.map fun slot => (slot.1, slot.2.freeze) }

@[simp] theorem freeze_isFrozen (o : Object Key Prim) : o.freeze.isFrozen = true := by
  simp [Object.freeze, Object.isFrozen]

theorem isFrozen_iff (o : Object Key Prim) :
    o.isFrozen = true ↔ o.extensible = false ∧ ∀ slot ∈ o.slots, slot.2.fixed = true := by
  simp [Object.isFrozen]

theorem freeze_of_isFrozen (o : Object Key Prim) (h : o.isFrozen = true) : o.freeze = o := by
  obtain ⟨hextensible, hslots⟩ := (isFrozen_iff o).mp h
  have hmap : o.slots.map (fun slot => (slot.1, slot.2.freeze)) = o.slots := by
    rw [List.map_congr_left (g := id), List.map_id]
    intro slot hslot
    exact Prod.ext rfl (freeze_of_fixed slot.2 (hslots slot hslot))
  rw [Object.freeze, hmap, ← hextensible]

section Keyed

variable [DecidableEq Key]

/-- The own slot under a key. -/
def Object.slot (o : Object Key Prim) (key : Key) : Option (Slot Prim) := o.slots.lookup key

/-- Replaces the first slot under the key. -/
def replaceSlot (key : Key) (slot : Slot Prim) : List (Key × Slot Prim) → List (Key × Slot Prim)
  | [] => []
  | (k, old) :: rest =>
      if key == k then (k, slot) :: rest else (k, old) :: replaceSlot key slot rest

theorem replaceSlot_same (key : Key) (slot : Slot Prim) (slots : List (Key × Slot Prim))
    (h : slots.lookup key = some slot) : replaceSlot key slot slots = slots := by
  induction slots with
  | nil => cases h
  | cons head rest ih =>
      obtain ⟨k, old⟩ := head
      rw [List.lookup_cons] at h
      cases hk : key == k with
      | true =>
          rw [hk] at h
          rw [replaceSlot, hk, if_pos rfl, Option.some.inj h]
      | false =>
          rw [hk] at h
          rw [replaceSlot, hk, if_neg Bool.false_ne_true, ih h]

theorem lookup_replaceSlot_self (key : Key) (slot : Slot Prim) {old : Slot Prim}
    (slots : List (Key × Slot Prim)) (h : slots.lookup key = some old) :
    (replaceSlot key slot slots).lookup key = some slot := by
  induction slots with
  | nil => cases h
  | cons head rest ih =>
      obtain ⟨k, other⟩ := head
      rw [List.lookup_cons] at h
      cases hk : key == k with
      | true => rw [replaceSlot, hk, if_pos rfl, List.lookup_cons, hk]
      | false =>
          rw [hk] at h
          rw [replaceSlot, hk, if_neg Bool.false_ne_true, List.lookup_cons, hk]
          exact ih h

theorem lookup_replaceSlot_ne (key other : Key) (slot : Slot Prim)
    (slots : List (Key × Slot Prim)) (hne : other ≠ key) :
    (replaceSlot key slot slots).lookup other = slots.lookup other := by
  induction slots with
  | nil => rfl
  | cons head rest ih =>
      obtain ⟨k, old⟩ := head
      cases hk : key == k with
      | true =>
          have hother : (other == k) = false := by
            rw [← beq_iff_eq.mp hk]
            exact beq_eq_false_iff_ne.mpr hne
          rw [replaceSlot, hk, if_pos rfl, List.lookup_cons, List.lookup_cons, hother]
      | false =>
          rw [replaceSlot, hk, if_neg Bool.false_ne_true, List.lookup_cons, List.lookup_cons, ih]

theorem lookup_freeze (key : Key) (slots : List (Key × Slot Prim)) :
    (slots.map fun slot => (slot.1, slot.2.freeze)).lookup key =
      (slots.lookup key).map Slot.freeze := by
  induction slots with
  | nil => rfl
  | cons head rest ih =>
      rw [List.map_cons, List.lookup_cons, List.lookup_cons]
      cases key == head.1 with
      | true => rfl
      | false => exact ih

theorem lookup_filter_ne (key other : Key) (slots : List (Key × Slot Prim)) (hne : other ≠ key) :
    (slots.filter fun slot => !(key == slot.1)).lookup other = slots.lookup other := by
  induction slots with
  | nil => rfl
  | cons head rest ih =>
      cases hk : key == head.1 with
      | true =>
          have hother : (other == head.1) = false := by
            rw [← beq_iff_eq.mp hk]
            exact beq_eq_false_iff_ne.mpr hne
          rw [List.filter_cons_of_neg (by simp [hk]), List.lookup_cons, hother]
          exact ih
      | false => rw [List.filter_cons_of_pos (by simp [hk]), List.lookup_cons, List.lookup_cons, ih]

/-- What `Object.freeze` leaves under a key. -/
@[simp] theorem freeze_slot (o : Object Key Prim) (key : Key) :
    o.freeze.slot key = (o.slot key).map Slot.freeze := lookup_freeze key o.slots

theorem fixed_of_isFrozen (o : Object Key Prim) (key : Key) (slot : Slot Prim)
    (h : o.isFrozen = true) (hslot : o.slot key = some slot) : slot.fixed = true := by
  obtain ⟨before, after, hsplit, _⟩ := List.lookup_eq_some_iff.mp hslot
  exact ((isFrozen_iff o).mp h).2 (key, slot) (by simp [hsplit])

/-! ### The operations on one object -/

variable [DecidableEq Prim] (undefined : Prim)

def Object.define (o : Object Key Prim) (key : Key) (d : Descriptor Prim) :
    Option (Object Key Prim) :=
  match o.slot key with
  | none =>
      if o.extensible then
        some { o with slots := o.slots ++ [(key, d.fresh undefined)] }
      else none
  | some slot =>
      if slot.configurable || slot.admits d then
        some { o with slots := replaceSlot key (slot.apply undefined d) o.slots }
      else none

def Object.delete (o : Object Key Prim) (key : Key) : Option (Object Key Prim) :=
  match o.slot key with
  | none => some o
  | some slot =>
      if slot.configurable then
        some { o with slots := o.slots.filter fun other => !(key == other.1) }
      else none

def Object.setPrototypeOf (o : Object Key Prim) (proto : Option Nat) : Option (Object Key Prim) :=
  if proto == o.proto then some o
  else if o.extensible then some { o with proto := proto } else none

inductive Change (Key Prim : Type*) where
  | define (key : Key) (d : Descriptor Prim)
  | delete (key : Key)
  | setPrototypeOf (proto : Option Nat)
  | preventExtensions
  | freeze

def Object.change (o : Object Key Prim) : Change Key Prim → Option (Object Key Prim)
  | .define key d => o.define undefined key d
  | .delete key => o.delete key
  | .setPrototypeOf proto => o.setPrototypeOf proto
  | .preventExtensions => some { o with extensible := false }
  | .freeze => some o.freeze

omit [DecidableEq Prim] in
theorem delete_slots {o next : Object Key Prim} {key : Key} (h : o.delete key = some next) :
    next.proto = o.proto ∧ ∀ entry ∈ next.slots, entry ∈ o.slots ∧ entry.1 ≠ key := by
  simp only [Object.delete] at h
  cases hslot : o.slot key with
  | none =>
      rw [hslot] at h
      obtain rfl : o = next := Option.some.inj h
      refine ⟨rfl, fun entry hentry => ⟨hentry, ?_⟩⟩
      have hmiss := List.lookup_eq_none_iff.mp hslot entry hentry
      exact Ne.symm (bne_iff_ne.mp hmiss)
  | some slot =>
      simp only [hslot, Option.ite_none_right_eq_some, Option.some.injEq] at h
      obtain ⟨_, rfl⟩ := h
      refine ⟨rfl, fun entry hentry => ?_⟩
      obtain ⟨hmem, hne⟩ := List.mem_filter.mp hentry
      exact ⟨hmem, fun heq => by simp [heq] at hne⟩

/-- No operation changes a frozen object. -/
theorem change_of_isFrozen (o next : Object Key Prim) (c : Change Key Prim)
    (h : o.isFrozen = true) (hnext : o.change undefined c = some next) : next = o := by
  have hextensible := ((isFrozen_iff o).mp h).1
  cases c with
  | define key d =>
      simp only [Object.change, Object.define] at hnext
      cases hslot : o.slot key with
      | none => simp [hslot, hextensible] at hnext
      | some slot =>
          have hfixed := fixed_of_isFrozen o key slot h hslot
          simp only [hslot, configurable_of_fixed slot hfixed, Bool.false_or,
            Option.ite_none_right_eq_some, Option.some.injEq] at hnext
          obtain ⟨hadmits, rfl⟩ := hnext
          rw [apply_of_admits undefined slot d hfixed hadmits,
            replaceSlot_same key slot o.slots hslot]
  | delete key =>
      simp only [Object.change, Object.delete] at hnext
      cases hslot : o.slot key with
      | none =>
          rw [hslot] at hnext
          exact (Option.some.inj hnext).symm
      | some slot =>
          have hfixed := fixed_of_isFrozen o key slot h hslot
          simp [hslot, configurable_of_fixed slot hfixed] at hnext
  | setPrototypeOf proto =>
      simp only [Object.change, Object.setPrototypeOf, hextensible] at hnext
      cases hproto : proto == o.proto with
      | true =>
          rw [hproto] at hnext
          exact (Option.some.inj hnext).symm
      | false => simp [hproto] at hnext
  | preventExtensions =>
      have heq : { o with extensible := false } = next := Option.some.inj hnext
      rw [← heq, ← hextensible]
  | freeze =>
      have heq : o.freeze = next := Option.some.inj hnext
      rw [← heq, freeze_of_isFrozen o h]

/-- No operation changes a fixed slot, whatever becomes of the rest of the object. -/
theorem change_of_fixed (o next : Object Key Prim) (c : Change Key Prim) (key : Key)
    (slot : Slot Prim) (hslot : o.slot key = some slot) (hfixed : slot.fixed = true)
    (hnext : o.change undefined c = some next) : next.slot key = some slot := by
  cases c with
  | define other d =>
      simp only [Object.change, Object.define] at hnext
      cases hother : o.slot other with
      | none =>
          simp only [hother, Option.ite_none_right_eq_some, Option.some.injEq] at hnext
          obtain ⟨_, rfl⟩ := hnext
          have hkept : (o.slots ++ [(other, d.fresh undefined)]).lookup key = some slot := by
            rw [List.lookup_append, show o.slots.lookup key = some slot from hslot]
            rfl
          exact hkept
      | some old =>
          simp only [hother, Option.ite_none_right_eq_some, Option.some.injEq] at hnext
          obtain ⟨hallowed, rfl⟩ := hnext
          by_cases hkey : key = other
          · subst hkey
            obtain rfl : slot = old := Option.some.inj (hslot.symm.trans hother)
            have hadmits : slot.admits d = true := by
              simpa [configurable_of_fixed slot hfixed] using hallowed
            rw [apply_of_admits undefined slot d hfixed hadmits,
              replaceSlot_same key slot o.slots hslot]
            exact hslot
          · exact (lookup_replaceSlot_ne other key _ o.slots hkey).trans hslot
  | delete other =>
      simp only [Object.change, Object.delete] at hnext
      cases hother : o.slot other with
      | none =>
          rw [hother] at hnext
          rw [← Option.some.inj hnext]
          exact hslot
      | some old =>
          simp only [hother, Option.ite_none_right_eq_some, Option.some.injEq] at hnext
          obtain ⟨hconfigurable, rfl⟩ := hnext
          have hkey : key ≠ other := by
            rintro rfl
            rw [← Option.some.inj (hslot.symm.trans hother),
              configurable_of_fixed slot hfixed] at hconfigurable
            exact Bool.false_ne_true hconfigurable
          exact (lookup_filter_ne other key o.slots hkey).trans hslot
  | setPrototypeOf proto =>
      simp only [Object.change, Object.setPrototypeOf] at hnext
      split at hnext
      · rw [← Option.some.inj hnext]
        exact hslot
      · simp only [Option.ite_none_right_eq_some, Option.some.injEq] at hnext
        obtain ⟨_, rfl⟩ := hnext
        exact hslot
  | preventExtensions =>
      have heq : { o with extensible := false } = next := Option.some.inj hnext
      rw [← heq]
      exact hslot
  | freeze =>
      have heq : o.freeze = next := Option.some.inj hnext
      rw [← heq, freeze_slot, hslot, Option.map_some, freeze_of_fixed slot hfixed]

/-! ### The heap -/

/-- The slot under a key, on the object or up its prototypes. -/
def found (heap : Heap Key Prim) : Nat → Nat → Key → Option (Slot Prim)
  | 0, _, _ => none
  | fuel + 1, id, key =>
      match heap[id]? with
      | none => none
      | some o =>
          match o.slot key, o.proto with
          | some slot, _ => some slot
          | none, some proto => found heap fuel proto key
          | none, none => none

/-- Whether an object is another or inherits from it. -/
def inherits (heap : Heap Key Prim) : Nat → Nat → Nat → Bool
  | 0, _, _ => false
  | fuel + 1, id, ancestor =>
      id == ancestor ||
        match heap[id]? with
        | some { proto := some proto, .. } => inherits heap fuel proto ancestor
        | _ => false

def replace (heap : Heap Key Prim) (id : Nat) (next : Option (Object Key Prim)) :
    Option (Heap Key Prim) :=
  next.map fun o => heap.set id o

/-- `o[key] = v` once nothing up the prototypes stands against it. -/
def assignOwn (heap : Heap Key Prim) (id : Nat) (o : Object Key Prim) (key : Key)
    (v : Value Prim) : Option (Heap Key Prim) :=
  match o.slot key with
  | none => replace heap id (o.define undefined key ⟨.data (some v) (some true), some true, some true⟩)
  | some (.accessor ..) => none
  | some (.data _ writable _ _) =>
      if writable then replace heap id (o.define undefined key ⟨.data (some v) none, none, none⟩)
      else none

/-- `o[key] = v`; what a setter goes on to do are operations of their own. -/
def assign (heap : Heap Key Prim) (id : Nat) (key : Key) (v : Value Prim) :
    Option (Heap Key Prim) :=
  match heap[id]? with
  | none => none
  | some o =>
      match found heap heap.length id key with
      | some (.accessor _ set _ _) => if set.isSome then some heap else none
      | some (.data _ false _ _) => none
      | some (.data _ true _ _) | none => assignOwn undefined heap id o key v

inductive Op (Key Prim : Type*) where
  | alloc (o : Object Key Prim)
  | change (id : Nat) (c : Change Key Prim)
  | assign (id : Nat) (key : Key) (v : Value Prim)

/-- A prototype that would close a circle is refused. -/
def Change.circular (heap : Heap Key Prim) (id : Nat) : Change Key Prim → Bool
  | .setPrototypeOf (some proto) => inherits heap (heap.length + 1) proto id
  | _ => false

def perform (heap : Heap Key Prim) : Op Key Prim → Option (Heap Key Prim)
  | .alloc o => some (heap ++ [o])
  | .change id c =>
      match heap[id]? with
      | none => none
      | some o => if c.circular heap id then none else replace heap id (o.change undefined c)
  | .assign id key v => assign undefined heap id key v

def Value.refs : Value Prim → List Nat
  | .prim _ => []
  | .ref id => [id]

def Slot.refs : Slot Prim → List Nat
  | .data value _ _ _ => value.refs
  | .accessor get set _ _ => get.toList ++ set.toList

/-- The objects that a script gets at from an object in one step. -/
def Object.refs (o : Object Key Prim) : List Nat :=
  o.proto.toList ++ o.slots.flatMap fun slot => slot.2.refs

def Descriptor.refs (d : Descriptor Prim) : List Nat :=
  match d.fields with
  | .generic => []
  | .data value _ => value.elim [] Value.refs
  | .accessor get set => (get.getD none).toList ++ (set.getD none).toList

def Change.refs : Change Key Prim → List Nat
  | .define _ d => d.refs
  | .setPrototypeOf proto => proto.toList
  | .delete _ | .preventExtensions | .freeze => []

def refsAt (heap : Heap Key Prim) (id : Nat) : List Nat := (heap[id]?).elim [] Object.refs

def slotAt (heap : Heap Key Prim) (id : Nat) (key : Key) : Option (Slot Prim) :=
  (heap[id]?).bind fun o => o.slot key

/-- What an operation puts into the heap. -/
def Op.refs : Op Key Prim → List Nat
  | .alloc o => o.refs
  | .change _ c => c.refs
  | .assign _ _ v => v.refs

theorem assignOwn_define {heap next : Heap Key Prim} {id : Nat} {o : Object Key Prim} {key : Key}
    {v : Value Prim} (h : assignOwn undefined heap id o key v = some next) :
    ∃ d o', o.define undefined key d = some o' ∧ d.refs = v.refs ∧ next = heap.set id o' := by
  unfold assignOwn at h
  split at h
  · obtain ⟨o', ho, rfl⟩ := Option.map_eq_some_iff.mp h
    exact ⟨_, o', ho, rfl, rfl⟩
  · cases h
  · simp only [Option.ite_none_right_eq_some] at h
    obtain ⟨o', ho, rfl⟩ := Option.map_eq_some_iff.mp h.2
    exact ⟨_, o', ho, rfl, rfl⟩

theorem assign_cases {heap next : Heap Key Prim} {id : Nat} {key : Key} {v : Value Prim}
    (h : perform undefined heap (.assign id key v) = some next) :
    ∃ o, heap[id]? = some o ∧ (next = heap ∨
      ∃ d o', o.define undefined key d = some o' ∧ d.refs = v.refs ∧ next = heap.set id o') := by
  simp only [perform, assign] at h
  cases ho : heap[id]? with
  | none => simp [ho] at h
  | some o =>
      simp only [ho] at h
      refine ⟨o, rfl, ?_⟩
      split at h
      · simp only [Option.ite_none_right_eq_some, Option.some.injEq] at h
        exact .inl h.2.symm
      · cases h
      all_goals exact .inr (assignOwn_define undefined h)

/-- What an operation can do to the heap. -/
theorem perform_cases {heap next : Heap Key Prim} {op : Op Key Prim}
    (h : perform undefined heap op = some next) :
    next = heap ∨ (∃ o, next = heap ++ [o]) ∨
      ∃ id o c o', heap[id]? = some o ∧ o.change undefined c = some o' ∧ next = heap.set id o' := by
  cases op with
  | alloc o => exact .inr (.inl ⟨o, (Option.some.inj h).symm⟩)
  | change id c =>
      simp only [perform] at h
      cases ho : heap[id]? with
      | none => simp [ho] at h
      | some o =>
          simp only [ho, Option.ite_none_left_eq_some] at h
          obtain ⟨o', hchange, rfl⟩ := Option.map_eq_some_iff.mp h.2
          exact .inr (.inr ⟨id, o, c, o', ho, hchange, rfl⟩)
  | assign id key v =>
      obtain ⟨o, ho, rfl | ⟨d, o', hdefine, _, rfl⟩⟩ := assign_cases undefined h
      · exact .inl rfl
      · exact .inr (.inr ⟨id, o, .define key d, o', ho, hdefine, rfl⟩)

/-- A frozen object is the same object after every operation. -/
theorem perform_of_isFrozen {heap next : Heap Key Prim} {op : Op Key Prim} {id : Nat}
    {o : Object Key Prim} (ho : heap[id]? = some o) (hfrozen : o.isFrozen = true)
    (h : perform undefined heap op = some next) : next[id]? = some o := by
  rcases perform_cases undefined h with rfl | ⟨fresh, rfl⟩ | ⟨other, old, c, new, hold, hchange, rfl⟩
  · exact ho
  · rw [List.getElem?_append_left (List.getElem?_eq_some_iff.mp ho).1]
    exact ho
  · by_cases hid : other = id
    · subst hid
      obtain rfl : o = old := Option.some.inj (ho.symm.trans hold)
      rw [List.getElem?_set_self (List.getElem?_eq_some_iff.mp ho).1,
        change_of_isFrozen undefined o new c hfrozen hchange]
    · rw [List.getElem?_set_ne hid]
      exact ho

/-- The object has this slot under the key, and it is fixed there. -/
def Pinned (heap : Heap Key Prim) (id : Nat) (key : Key) (slot : Slot Prim) : Prop :=
  ∃ o, heap[id]? = some o ∧ o.slot key = some slot ∧ slot.fixed = true

/-- A fixed slot is the same after every operation. -/
theorem perform_pinned {heap next : Heap Key Prim} {op : Op Key Prim} {id : Nat} {key : Key}
    {slot : Slot Prim} (hpinned : Pinned heap id key slot)
    (h : perform undefined heap op = some next) : Pinned next id key slot := by
  obtain ⟨o, ho, hslot, hfixed⟩ := hpinned
  rcases perform_cases undefined h with rfl | ⟨fresh, rfl⟩ | ⟨other, old, c, new, hold, hchange, rfl⟩
  · exact ⟨o, ho, hslot, hfixed⟩
  · refine ⟨o, ?_, hslot, hfixed⟩
    rw [List.getElem?_append_left (List.getElem?_eq_some_iff.mp ho).1]
    exact ho
  · by_cases hid : other = id
    · subst hid
      obtain rfl : o = old := Option.some.inj (ho.symm.trans hold)
      refine ⟨new, List.getElem?_set_self (List.getElem?_eq_some_iff.mp ho).1, ?_, hfixed⟩
      exact change_of_fixed undefined o new c key slot hslot hfixed hchange
    · refine ⟨o, ?_, hslot, hfixed⟩
      rw [List.getElem?_set_ne hid]
      exact ho

theorem perform_length_le {heap next : Heap Key Prim} {op : Op Key Prim}
    (h : perform undefined heap op = some next) : heap.length ≤ next.length := by
  rcases perform_cases undefined h with rfl | ⟨fresh, rfl⟩ | ⟨other, old, c, new, _, _, rfl⟩
  · exact Nat.le_refl _
  · simp
  · simp

end Keyed

/-! ### What refers to what -/

section References

theorem mem_refs {o : Object Key Prim} {x : Nat} :
    x ∈ o.refs ↔ o.proto = some x ∨ ∃ slot ∈ o.slots, x ∈ slot.2.refs := by
  simp [Object.refs]

@[simp] theorem refs_freeze (o : Object Key Prim) : o.freeze.refs = o.refs := by
  have hslot : ∀ slot : Slot Prim, slot.freeze.refs = slot.refs := by
    intro slot
    cases slot <;> rfl
  simp only [Object.refs, Object.freeze, List.flatMap_map, hslot]

theorem mem_refs_of_slot [DecidableEq Key] {o : Object Key Prim} {key : Key} {slot : Slot Prim}
    (hslot : o.slot key = some slot) {x : Nat} (hx : x ∈ slot.refs) : x ∈ o.refs := by
  obtain ⟨before, after, hsplit, _⟩ := List.lookup_eq_some_iff.mp hslot
  exact mem_refs.mpr (.inr ⟨(key, slot), by simp [hsplit], hx⟩)

theorem fresh_refs (undefined : Prim) (d : Descriptor Prim) {x : Nat}
    (hx : x ∈ (d.fresh undefined).refs) : x ∈ d.refs := by
  obtain ⟨fields, enumerable, configurable⟩ := d
  cases fields with
  | generic => cases hx
  | data value writable =>
      cases value with
      | none => cases hx
      | some v => exact hx
  | accessor get set => exact hx

theorem apply_refs [DecidableEq Prim] (undefined : Prim) (slot : Slot Prim) (d : Descriptor Prim)
    {x : Nat} (hx : x ∈ (slot.apply undefined d).refs) : x ∈ slot.refs ∨ x ∈ d.refs := by
  obtain ⟨fields, enumerable, configurable⟩ := d
  cases slot with
  | data value w e c =>
      cases fields with
      | generic => exact .inl hx
      | data value' writable' =>
          cases value' with
          | none => exact .inl hx
          | some v => exact .inr hx
      | accessor get set => exact .inr hx
  | accessor get set e c =>
      cases fields with
      | generic => exact .inl hx
      | data value' writable' =>
          cases value' with
          | none => cases hx
          | some v => exact .inr hx
      | accessor get' set' =>
          rcases List.mem_append.mp hx with hget | hset
          · cases get' with
            | none => exact .inl (List.mem_append_left _ hget)
            | some g => exact .inr (List.mem_append_left _ hget)
          · cases set' with
            | none => exact .inl (List.mem_append_right _ hset)
            | some f => exact .inr (List.mem_append_right _ hset)

variable [DecidableEq Key]

theorem mem_replaceSlot {key : Key} {slot : Slot Prim} {slots : List (Key × Slot Prim)}
    {entry : Key × Slot Prim} (h : entry ∈ replaceSlot key slot slots) :
    entry = (key, slot) ∨ entry ∈ slots := by
  induction slots with
  | nil => cases h
  | cons head rest ih =>
      obtain ⟨k, old⟩ := head
      rw [replaceSlot] at h
      split at h
      · next hk =>
          rw [← beq_iff_eq.mp hk] at h
          exact (List.mem_cons.mp h).imp_right (List.mem_cons_of_mem _)
      · rcases List.mem_cons.mp h with rfl | hrest
        · exact .inr List.mem_cons_self
        · exact (ih hrest).imp_right (List.mem_cons_of_mem _)

/-- Only the slot under the key goes. -/
theorem mem_replaceSlot_of_mem {key : Key} {slot : Slot Prim} {slots : List (Key × Slot Prim)}
    {entry : Key × Slot Prim} (h : entry ∈ slots) :
    slots.lookup key = some entry.2 ∨ entry ∈ replaceSlot key slot slots := by
  induction slots with
  | nil => cases h
  | cons head rest ih =>
      obtain ⟨k, old⟩ := head
      rw [replaceSlot, List.lookup_cons]
      cases hk : key == k with
      | true =>
          rcases List.mem_cons.mp h with rfl | hrest
          · exact .inl rfl
          · exact .inr (List.mem_cons_of_mem _ hrest)
      | false =>
          rcases List.mem_cons.mp h with rfl | hrest
          · exact .inr List.mem_cons_self
          · exact (ih hrest).imp_right (List.mem_cons_of_mem _)

variable [DecidableEq Prim] (undefined : Prim)

/-- A change adds no reference but its own. -/
theorem change_refs {o next : Object Key Prim} {c : Change Key Prim}
    (h : o.change undefined c = some next) {x : Nat} (hx : x ∈ next.refs) :
    x ∈ o.refs ∨ x ∈ c.refs := by
  cases c with
  | define key d =>
      simp only [Object.change, Object.define] at h
      cases hslot : o.slot key with
      | none =>
          simp only [hslot, Option.ite_none_right_eq_some, Option.some.injEq] at h
          obtain ⟨_, rfl⟩ := h
          rcases mem_refs.mp hx with hproto | ⟨entry, hentry, hin⟩
          · exact .inl (mem_refs.mpr (.inl hproto))
          · rcases List.mem_append.mp hentry with hold | hnew
            · exact .inl (mem_refs.mpr (.inr ⟨entry, hold, hin⟩))
            · rw [List.mem_singleton.mp hnew] at hin
              exact .inr (fresh_refs undefined d hin)
      | some slot =>
          simp only [hslot, Option.ite_none_right_eq_some, Option.some.injEq] at h
          obtain ⟨_, rfl⟩ := h
          rcases mem_refs.mp hx with hproto | ⟨entry, hentry, hin⟩
          · exact .inl (mem_refs.mpr (.inl hproto))
          · rcases mem_replaceSlot hentry with rfl | hold
            · exact (apply_refs undefined slot d hin).imp_left (mem_refs_of_slot hslot)
            · exact .inl (mem_refs.mpr (.inr ⟨entry, hold, hin⟩))
  | delete key =>
      simp only [Object.change, Object.delete] at h
      cases hslot : o.slot key with
      | none =>
          rw [hslot] at h
          rw [← Option.some.inj h] at hx
          exact .inl hx
      | some slot =>
          simp only [hslot, Option.ite_none_right_eq_some, Option.some.injEq] at h
          obtain ⟨_, rfl⟩ := h
          rcases mem_refs.mp hx with hproto | ⟨entry, hentry, hin⟩
          · exact .inl (mem_refs.mpr (.inl hproto))
          · exact .inl (mem_refs.mpr (.inr ⟨entry, (List.mem_filter.mp hentry).1, hin⟩))
  | setPrototypeOf proto =>
      simp only [Object.change, Object.setPrototypeOf] at h
      split at h
      · rw [← Option.some.inj h] at hx
        exact .inl hx
      · simp only [Option.ite_none_right_eq_some, Option.some.injEq] at h
        obtain ⟨_, rfl⟩ := h
        rcases mem_refs.mp hx with hproto | hslots
        · exact .inr (Option.mem_toList.mpr hproto)
        · exact .inl (mem_refs.mpr (.inr hslots))
  | preventExtensions =>
      rw [← Option.some.inj h] at hx
      exact .inl hx
  | freeze =>
      rw [← Option.some.inj h, refs_freeze] at hx
      exact .inl hx

/-- After an operation an object refers to what it referred to, and to what the operation
brought. -/
theorem perform_refs {heap next : Heap Key Prim} {op : Op Key Prim}
    (h : perform undefined heap op = some next) {id x : Nat} (hx : x ∈ refsAt next id) :
    x ∈ op.refs ∨ x ∈ refsAt heap id := by
  have hset : ∀ (other : Nat) (old new : Object Key Prim), heap[other]? = some old →
      next = heap.set other new → (x ∈ new.refs → x ∈ old.refs ∨ x ∈ op.refs) →
      x ∈ op.refs ∨ x ∈ refsAt heap id := by
    rintro other old new hold rfl hrefs
    by_cases hid : other = id
    · subst hid
      rw [refsAt, List.getElem?_set_self (List.getElem?_eq_some_iff.mp hold).1] at hx
      rw [refsAt, hold]
      exact (hrefs hx).symm
    · rw [refsAt, List.getElem?_set_ne hid] at hx
      exact .inr hx
  cases op with
  | alloc fresh =>
      obtain rfl : heap ++ [fresh] = next := Option.some.inj h
      rcases Nat.lt_trichotomy id heap.length with hlt | rfl | hgt
      · rw [refsAt, List.getElem?_append_left hlt] at hx
        exact .inr hx
      · rw [refsAt, List.getElem?_concat_length] at hx
        exact .inl hx
      · rw [refsAt, List.getElem?_eq_none (by rw [List.length_append]; exact hgt)] at hx
        cases hx
  | change other c =>
      simp only [perform] at h
      cases hold : heap[other]? with
      | none => simp [hold] at h
      | some old =>
          simp only [hold, Option.ite_none_left_eq_some] at h
          obtain ⟨new, hchange, rfl⟩ := Option.map_eq_some_iff.mp h.2
          exact hset other old new hold rfl (change_refs undefined hchange)
  | assign other key v =>
      obtain ⟨old, hold, rfl | ⟨d, new, hdefine, hrefs, rfl⟩⟩ := assign_cases undefined h
      · exact .inr hx
      · refine hset other old new hold rfl fun hin => ?_
        have hchange : old.change undefined (.define key d) = some new := hdefine
        rcases change_refs undefined hchange hin with hold' | hnew
        · exact .inl hold'
        · exact .inr (by rwa [Change.refs, hrefs] at hnew)

/-- What a definition leaves alone. -/
theorem define_frame {o next : Object Key Prim} {key : Key} {d : Descriptor Prim}
    (h : o.define undefined key d = some next) {other : Key} (hne : other ≠ key) :
    next.slot other = o.slot other := by
  simp only [Object.define] at h
  cases hslot : o.slot key with
  | none =>
      simp only [hslot, Option.ite_none_right_eq_some, Option.some.injEq] at h
      obtain ⟨_, rfl⟩ := h
      have hmiss : [(key, d.fresh undefined)].lookup other = none := by
        rw [List.lookup_cons, beq_eq_false_iff_ne.mpr hne]
        rfl
      change (o.slots ++ [(key, d.fresh undefined)]).lookup other = o.slots.lookup other
      rw [List.lookup_append, hmiss, Option.or_none]
  | some slot =>
      simp only [hslot, Option.ite_none_right_eq_some, Option.some.injEq] at h
      obtain ⟨_, rfl⟩ := h
      exact lookup_replaceSlot_ne key other _ o.slots hne

/-- What an assignment leaves alone. -/
theorem assign_frame {heap next : Heap Key Prim} {id : Nat} {key : Key} {v : Value Prim}
    (h : perform undefined heap (.assign id key v) = some next) :
    (∀ other, other ≠ id → next[other]? = heap[other]?) ∧
      ∀ other, other ≠ key → slotAt next id other = slotAt heap id other := by
  obtain ⟨o, ho, rfl | ⟨d, new, hdefine, _, rfl⟩⟩ := assign_cases undefined h
  · exact ⟨fun other _ => rfl, fun _ _ => rfl⟩
  · refine ⟨fun other hne => List.getElem?_set_ne hne.symm, fun other hne => ?_⟩
    rw [slotAt, slotAt, List.getElem?_set_self (List.getElem?_eq_some_iff.mp ho).1, ho]
    exact define_frame undefined hdefine hne

omit [DecidableEq Prim] in
/-- An own slot is the one that is found. -/
theorem found_own {heap : Heap Key Prim} {id : Nat} {key : Key} {slot : Slot Prim}
    (hslot : slotAt heap id key = some slot) : found heap heap.length id key = some slot := by
  obtain ⟨o, ho, hown⟩ := Option.bind_eq_some_iff.mp hslot
  have hlt := (List.getElem?_eq_some_iff.mp ho).1
  obtain ⟨fuel, hfuel⟩ := Nat.exists_eq_succ_of_ne_zero (Nat.ne_of_gt (Nat.zero_lt_of_lt hlt))
  rw [hfuel, found, ho]
  simp only [hown]

/-- An own slot that can be written takes the value, and only what was there goes. -/
theorem assign_own {heap next : Heap Key Prim} {id : Nat} {key : Key} {old v : Value Prim}
    {e c : Bool} (hslot : slotAt heap id key = some (.data old true e c))
    (h : perform undefined heap (.assign id key v) = some next) :
    slotAt next id key = some (.data v true e c) ∧
      ∀ x ∈ refsAt heap id, x ∈ old.refs ∨ x ∈ refsAt next id := by
  obtain ⟨o, ho, hown⟩ := Option.bind_eq_some_iff.mp hslot
  have hlt := (List.getElem?_eq_some_iff.mp ho).1
  have hfound := found_own hslot
  have hallowed : ((Slot.data old true e c).configurable ||
      (Slot.data old true e c).admits ⟨.data (some v) none, none, none⟩) = true := by
    simp [Slot.configurable, Slot.admits, keeps]
  simp only [perform, assign, ho, hfound, assignOwn, hown, Object.define, hallowed, if_true,
    replace, Option.map_some, Option.some.injEq] at h
  rw [← h, slotAt, refsAt, refsAt, List.getElem?_set_self hlt, ho]
  refine ⟨lookup_replaceSlot_self key _ o.slots hown, fun x hx => ?_⟩
  rcases mem_refs.mp hx with hproto | ⟨entry, hentry, hin⟩
  · exact .inr (mem_refs.mpr (.inl hproto))
  · rcases mem_replaceSlot_of_mem hentry with hlookup | hkept
    · rw [← Option.some.inj (hown.symm.trans hlookup)] at hin
      exact .inl hin
    · exact .inr (mem_refs.mpr (.inr ⟨entry, hkept, hin⟩))

theorem delete_frame {heap next : Heap Key Prim} {id : Nat} {key : Key}
    (h : perform undefined heap (.change id (.delete key)) = some next) {other : Nat}
    {name : Key} (hne : name ≠ key) : slotAt next other name = slotAt heap other name := by
  simp only [perform] at h
  cases ho : heap[id]? with
  | none => simp [ho] at h
  | some o =>
      simp only [ho, Option.ite_none_left_eq_some] at h
      obtain ⟨new, hdelete, rfl⟩ := Option.map_eq_some_iff.mp h.2
      by_cases hid : other = id
      · subst hid
        rw [slotAt, slotAt, List.getElem?_set_self (List.getElem?_eq_some_iff.mp ho).1, ho]
        simp only [Object.change, Object.delete] at hdelete
        cases hslot : o.slot key with
        | none =>
            rw [hslot] at hdelete
            rw [Option.some.inj hdelete]
        | some slot =>
            simp only [hslot, Option.ite_none_right_eq_some, Option.some.injEq] at hdelete
            obtain ⟨_, rfl⟩ := hdelete
            exact lookup_filter_ne key name o.slots hne
      · rw [slotAt, slotAt, List.getElem?_set_ne (Ne.symm hid)]

omit [DecidableEq Prim] in
/-- A slot that is found is on the object or on one it inherits from. -/
theorem found_path {heap : Heap Key Prim} {fuel id : Nat} {key : Key} {slot : Slot Prim}
    (h : found heap fuel id key = some slot) :
    ∃ holder, Relation.ReflTransGen (fun x y => y ∈ refsAt heap x) id holder ∧
      slotAt heap holder key = some slot := by
  induction fuel generalizing id with
  | zero => cases h
  | succ fuel ih =>
      rw [found] at h
      cases ho : heap[id]? with
      | none => simp [ho] at h
      | some o =>
          simp only [ho] at h
          cases hslot : o.slot key with
          | some own =>
              simp only [hslot, Option.some.injEq] at h
              refine ⟨id, .refl, ?_⟩
              rw [slotAt, ho, Option.bind_some, hslot, h]
          | none =>
              cases hproto : o.proto with
              | none => simp [hslot, hproto] at h
              | some proto =>
                  simp only [hslot, hproto] at h
                  obtain ⟨holder, hpath, hown⟩ := ih h
                  refine ⟨holder, .head ?_ hpath, hown⟩
                  rw [refsAt, ho]
                  exact mem_refs.mpr (.inl hproto)

omit [DecidableEq Prim] in
theorem mem_refsAt_of_slot {heap : Heap Key Prim} {id x : Nat} {key : Key} {slot : Slot Prim}
    (hslot : slotAt heap id key = some slot) (hx : x ∈ slot.refs) : x ∈ refsAt heap id := by
  obtain ⟨o, ho, hown⟩ := Option.bind_eq_some_iff.mp hslot
  rw [refsAt, ho]
  exact mem_refs_of_slot hown hx

end References

/-! ### Freezing what is reached -/

section DeepFreeze

variable (named : Key → Bool) (undefined : Prim) (invoke : Nat → Option (Value Prim))

/-- `o[name]` for an own slot; `none` where the getter throws. -/
def Slot.read : Slot Prim → Option (Value Prim)
  | .data value _ _ _ => some value
  | .accessor none _ _ _ => some (.prim undefined)
  | .accessor (some get) _ _ _ => invoke get

/-- What the own slots with a name hold. -/
def Object.values (o : Object Key Prim) : List (Value Prim) :=
  o.slots.filterMap fun slot => if named slot.1 then slot.2.read undefined invoke else none

def frozenAt (heap : Heap Key Prim) : Value Prim → Bool
  | .prim _ => true
  | .ref id => (heap[id]?).all Object.isFrozen

def valuesAt (heap : Heap Key Prim) : Value Prim → List (Value Prim)
  | .prim _ => []
  | .ref id => (heap[id]?).elim [] (Object.values named undefined invoke)

def freezeAt (heap : Heap Key Prim) : Value Prim → Heap Key Prim
  | .prim _ => heap
  | .ref id => heap.modify id Object.freeze

@[simp] theorem read_freeze (slot : Slot Prim) :
    slot.freeze.read undefined invoke = slot.read undefined invoke := by
  cases slot with
  | data value writable e c => rfl
  | accessor get set e c => cases get <;> rfl

@[simp] theorem values_freeze (o : Object Key Prim) :
    o.freeze.values named undefined invoke = o.values named undefined invoke := by
  simp only [Object.values, Object.freeze, List.filterMap_map]
  apply List.filterMap_congr
  intro slot _
  simp only [Function.comp, read_freeze]

theorem frozenAt_eq_false {heap : Heap Key Prim} {v : Value Prim} (h : frozenAt heap v = false) :
    ∃ id o, v = .ref id ∧ heap[id]? = some o ∧ o.isFrozen = false := by
  cases v with
  | prim p => cases h
  | ref id =>
      cases ho : heap[id]? with
      | none => simp [frozenAt, ho] at h
      | some o =>
          refine ⟨id, o, rfl, ho, ?_⟩
          simpa [frozenAt, ho] using h

theorem getElem?_freezeAt (heap : Heap Key Prim) (id other : Nat) :
    (freezeAt heap (.ref id))[other]? =
      if other = id then (heap[other]?).map Object.freeze else heap[other]? := by
  simp only [freezeAt, List.getElem?_modify]
  split <;> split <;> simp_all

theorem freezeAt_eq_set {heap : Heap Key Prim} {id : Nat} {o : Object Key Prim}
    (ho : heap[id]? = some o) : freezeAt heap (.ref id) = heap.set id o.freeze := by
  apply List.ext_getElem?
  intro other
  rw [getElem?_freezeAt, List.getElem?_set]
  by_cases hid : other = id
  · subst hid
    rw [if_pos rfl, if_pos rfl, if_pos (List.getElem?_eq_some_iff.mp ho).1, ho, Option.map_some]
  · rw [if_neg hid, if_neg (Ne.symm hid)]

/-- `Object.freeze` is the change of that name on an object of the heap. -/
theorem perform_freeze [DecidableEq Key] [DecidableEq Prim] {heap : Heap Key Prim} {id : Nat}
    {o : Object Key Prim} (ho : heap[id]? = some o) :
    perform undefined heap (.change id .freeze) = some (freezeAt heap (.ref id)) := by
  rw [freezeAt_eq_set ho, perform, ho]
  exact if_neg Bool.false_ne_true

/-- Freezing one object leaves fewer open ones. -/
theorem countP_freezeAt (heap : Heap Key Prim) (id : Nat) (o : Object Key Prim)
    (ho : heap[id]? = some o) (hopen : o.isFrozen = false) :
    (freezeAt heap (.ref id)).countP (fun o => !o.isFrozen) <
      heap.countP fun o => !o.isFrozen := by
  simp only [freezeAt]
  induction heap generalizing id with
  | nil => cases ho
  | cons head rest ih =>
      cases id with
      | zero =>
          obtain rfl : head = o := by simpa using ho
          simp [hopen]
      | succ id =>
          have hrest := ih id (by simpa using ho)
          simp only [List.modify_succ_cons, List.countP_cons]
          omega

/-- An object is settled when it is frozen; what is not an object of the heap is
settled from the start. -/
def freezing : Marking.Graph (Heap Key Prim) (Value Prim) where
  settled := frozenAt
  next := valuesAt named undefined invoke
  settle := freezeAt
  remaining heap := heap.countP fun o => !o.isFrozen
  settled_settle heap v w hv := by
    obtain ⟨id, o, rfl, ho, _⟩ := frozenAt_eq_false hv
    cases w with
    | prim p => simp [frozenAt]
    | ref other =>
        simp only [frozenAt, getElem?_freezeAt, Value.ref.injEq]
        split
        · simp_all
        · simp_all
  next_settle heap v w hv := by
    obtain ⟨id, o, rfl, ho, _⟩ := frozenAt_eq_false hv
    cases w with
    | prim p => rfl
    | ref other =>
        simp only [valuesAt, getElem?_freezeAt]
        split
        · cases heap[other]? <;> simp
        · rfl
  remaining_settle heap v hv := by
    obtain ⟨id, o, rfl, ho, hopen⟩ := frozenAt_eq_false hv
    exact countP_freezeAt heap id o ho hopen

/-- The graph of own named slots is frozen depth first from the value. -/
def deepFreeze (heap : Heap Key Prim) (v : Value Prim) : Heap Key Prim :=
  Marking.search (freezing named undefined invoke) heap [v]

/-- The values are frozen one after the other. -/
def deepFreezeAll (heap : Heap Key Prim) (vs : List (Value Prim)) : Heap Key Prim :=
  vs.foldl (deepFreeze named undefined invoke) heap

/-- Objects reached from the values through objects that are not frozen. -/
def Loose (heap : Heap Key Prim) (vs : List (Value Prim)) (id : Nat) : Prop :=
  Marking.Reaches (freezing named undefined invoke) heap vs (.ref id)

theorem deepFreezeAll_eq_search (heap : Heap Key Prim) (vs : List (Value Prim)) :
    deepFreezeAll named undefined invoke heap vs =
      Marking.search (freezing named undefined invoke) heap vs := by
  induction vs generalizing heap with
  | nil => exact (Marking.search_nil _ heap).symm
  | cons v vs ih =>
      have hsplit : [v] ++ vs = v :: vs := rfl
      rw [deepFreezeAll, List.foldl_cons, ← hsplit, Marking.search_append]
      exact ih (deepFreeze named undefined invoke heap v)

theorem loose_open {heap : Heap Key Prim} {vs : List (Value Prim)} {id : Nat}
    (h : Loose named undefined invoke heap vs id) :
    ∃ o, heap[id]? = some o ∧ o.isFrozen = false := by
  have hopen : frozenAt heap (.ref id) = false :=
    Marking.open_of_reaches (freezing named undefined invoke) h
  obtain ⟨other, o, heq, ho, hfrozen⟩ := frozenAt_eq_false hopen
  cases heq
  exact ⟨o, ho, hfrozen⟩

theorem frozenAt_deepFreezeAll (heap : Heap Key Prim) (vs : List (Value Prim)) (id : Nat) :
    frozenAt (deepFreezeAll named undefined invoke heap vs) (.ref id) = true ↔
      frozenAt heap (.ref id) = true ∨ Loose named undefined invoke heap vs id := by
  rw [deepFreezeAll_eq_search]
  exact Marking.search_settled_iff (freezing named undefined invoke) heap vs (.ref id)

/-- Each object is as it was, or frozen with the values it had. -/
theorem deepFreezeAll_either (heap : Heap Key Prim) (vs : List (Value Prim)) (id : Nat) :
    (deepFreezeAll named undefined invoke heap vs)[id]? = heap[id]? ∨
      (deepFreezeAll named undefined invoke heap vs)[id]? = (heap[id]?).map Object.freeze := by
  rw [deepFreezeAll_eq_search]
  apply Marking.search_preserves (freezing named undefined invoke)
    (fun s => s[id]? = heap[id]? ∨ s[id]? = (heap[id]?).map Object.freeze)
  · intro s w hs hw
    obtain ⟨other, o, rfl, ho, hopen⟩ := frozenAt_eq_false hw
    have hget : (freezeAt s (.ref other))[id]? = _ := getElem?_freezeAt s other id
    by_cases hid : id = other
    · subst hid
      rw [if_pos rfl] at hget
      rcases hs with hs | hs
      · exact .inr (hget.trans (by rw [hs]))
      · obtain ⟨o', _, rfl⟩ := Option.map_eq_some_iff.mp (hs.symm.trans ho)
        rw [freeze_isFrozen] at hopen
        cases hopen
    · rw [if_neg hid] at hget
      exact hs.imp hget.trans hget.trans
  · exact .inl rfl

/-- What is reached is frozen with the values it had. -/
theorem deepFreezeAll_of_loose {heap : Heap Key Prim} {vs : List (Value Prim)} {id : Nat}
    (h : Loose named undefined invoke heap vs id) :
    (deepFreezeAll named undefined invoke heap vs)[id]? = (heap[id]?).map Object.freeze := by
  obtain ⟨o, ho, hopen⟩ := loose_open named undefined invoke h
  rcases deepFreezeAll_either named undefined invoke heap vs id with hsame | hfreeze
  · have hfrozen := (frozenAt_deepFreezeAll named undefined invoke heap vs id).mpr (.inr h)
    rw [frozenAt, hsame, ho, Option.all_some, hopen] at hfrozen
    cases hfrozen
  · exact hfreeze

/-- What is not reached does not change. -/
theorem deepFreezeAll_of_not_loose {heap : Heap Key Prim} {vs : List (Value Prim)} {id : Nat}
    (h : ¬ Loose named undefined invoke heap vs id) :
    (deepFreezeAll named undefined invoke heap vs)[id]? = heap[id]? := by
  rcases deepFreezeAll_either named undefined invoke heap vs id with hsame | hfreeze
  · exact hsame
  · cases ho : heap[id]? with
    | none => rw [hfreeze, ho, Option.map_none]
    | some o =>
        have hnow : frozenAt (deepFreezeAll named undefined invoke heap vs) (.ref id) = true := by
          rw [frozenAt, hfreeze, ho, Option.map_some, Option.all_some, freeze_isFrozen]
        have hbefore :=
          ((frozenAt_deepFreezeAll named undefined invoke heap vs id).mp hnow).resolve_right h
        have hfrozen : o.isFrozen = true := by
          rwa [frozenAt, ho, Option.all_some] at hbefore
        rw [hfreeze, ho, Option.map_some, freeze_of_isFrozen o hfrozen]

/-- A frozen object comes through a deep freeze as it is. -/
theorem deepFreezeAll_of_isFrozen {heap : Heap Key Prim} {id : Nat} {o : Object Key Prim}
    (vs : List (Value Prim)) (ho : heap[id]? = some o) (hfrozen : o.isFrozen = true) :
    (deepFreezeAll named undefined invoke heap vs)[id]? = some o := by
  rcases deepFreezeAll_either named undefined invoke heap vs id with hsame | hfreeze
  · rw [hsame, ho]
  · rw [hfreeze, ho, Option.map_some, freeze_of_isFrozen o hfrozen]

theorem deepFreezeAll_pinned [DecidableEq Key] {heap : Heap Key Prim} {id : Nat} {key : Key}
    {slot : Slot Prim} (vs : List (Value Prim)) (h : Pinned heap id key slot) :
    Pinned (deepFreezeAll named undefined invoke heap vs) id key slot := by
  obtain ⟨o, ho, hslot, hfixed⟩ := h
  rcases deepFreezeAll_either named undefined invoke heap vs id with hsame | hfreeze
  · exact ⟨o, by rw [hsame, ho], hslot, hfixed⟩
  · refine ⟨o.freeze, by rw [hfreeze, ho, Option.map_some], ?_, hfixed⟩
    rw [freeze_slot, hslot, Option.map_some, freeze_of_fixed slot hfixed]

end DeepFreeze

end Runlet.ScriptHeap
