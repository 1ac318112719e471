import Mathlib.Data.List.AList

/-!
Ordinary script objects with string keys, and the accessor `__proto__` that the
standard prototype gives them. Assigning to it changes the prototype and leaves
no own property. The order of the keys is not kept: no lookup depends on it.
-/

namespace Runlet.JsObject

variable {V : Type}

abbrev Props (V : Type) := AList fun _ : String => V

/-- What an object inherits from: the standard prototype, or a value that was
assigned. -/
inductive Proto (V : Type) where
  | standard
  | value (v : V)

structure Obj (V : Type) where
  own : Props V
  proto : Proto V

/-- What the values are as prototypes: which are objects or null, and from which
the accessor is still reached. -/
structure Realm (V : Type) where
  prototype : V → Bool
  inherits : V → Bool

def Obj.fresh : Obj V := ⟨∅, .standard⟩

def Obj.get? (o : Obj V) (key : String) : Option V := o.own.lookup key

def Obj.hasOwn (o : Obj V) (key : String) : Bool := (o.get? key).isSome

def Obj.keys (o : Obj V) : List String := o.own.keys

def Obj.reaches (realm : Realm V) (o : Obj V) : Bool :=
  match o.proto with
  | .standard => true
  | .value v => realm.inherits v

/-- Whether reading or writing the key goes through the accessor. -/
def Obj.accessor (realm : Realm V) (o : Obj V) (key : String) : Bool :=
  key == "__proto__" && !o.hasOwn key && o.reaches realm

/-- `o[key] = v`; the accessor ignores a value that cannot be a prototype. -/
def Obj.assign (realm : Realm V) (o : Obj V) (key : String) (v : V) : Obj V :=
  if o.accessor realm key then
    if realm.prototype v then { o with proto := .value v } else o
  else { o with own := o.own.insert key v }

/-- `o[key]`, for own properties and the accessor. -/
def Obj.read (realm : Realm V) (o : Obj V) (key : String) : Option V :=
  if o.accessor realm key then
    match o.proto with
    | .standard => none
    | .value v => some v
  else o.get? key

/-- Changes in place what `o[key]` reads. -/
def Obj.update (realm : Realm V) (o : Obj V) (key : String) (f : V → V) : Obj V :=
  if o.accessor realm key then
    match o.proto with
    | .standard => o
    | .value v => { o with proto := .value (f v) }
  else
    match o.get? key with
    | some v => { o with own := o.own.insert key (f v) }
    | none => o

/-- `for (key of keys) out[key] = src[key]`, for the keys `src` has. -/
def copyKeys (realm : Realm V) (src : Obj V) (keys : List String) (out : Obj V) : Obj V :=
  keys.foldl (fun out key =>
    match src.get? key with
    | some v => out.assign realm key v
    | none => out) out

/-! ### One assignment -/

@[simp] theorem fresh_get? (key : String) : (Obj.fresh : Obj V).get? key = none := rfl

theorem accessor_of_ne (realm : Realm V) (o : Obj V) (key : String) (hkey : key ≠ "__proto__") :
    o.accessor realm key = false := by
  simp [Obj.accessor, hkey]

theorem assign_get?_of_ne (realm : Realm V) (o : Obj V) (key : String) (v : V)
    (hkey : key ≠ "__proto__") (k : String) :
    (o.assign realm key v).get? k = if k = key then some v else o.get? k := by
  unfold Obj.assign
  rw [accessor_of_ne realm o key hkey]
  by_cases hk : k = key
  · subst hk
    rw [if_pos rfl]
    exact AList.lookup_insert o.own
  · rw [if_neg hk]
    exact AList.lookup_insert_ne hk

theorem assign_proto_of_ne (realm : Realm V) (o : Obj V) (key : String) (v : V)
    (hkey : key ≠ "__proto__") : (o.assign realm key v).proto = o.proto := by
  unfold Obj.assign
  rw [accessor_of_ne realm o key hkey]
  rfl

/-- The accessor is reached, not shadowed by an own property. -/
def Obj.Open (realm : Realm V) (o : Obj V) : Prop :=
  o.get? "__proto__" = none ∧ o.reaches realm = true

theorem fresh_open (realm : Realm V) : (Obj.fresh : Obj V).Open realm := ⟨rfl, rfl⟩

theorem Obj.Open.accessor {realm : Realm V} {o : Obj V} (hopen : o.Open realm) :
    o.accessor realm "__proto__" = true := by
  simp [Obj.accessor, Obj.hasOwn, hopen.1, hopen.2]

/-- Through the accessor no own property changes. -/
theorem assign_get?_proto (realm : Realm V) (o : Obj V) (v : V) (hopen : o.Open realm)
    (k : String) : (o.assign realm "__proto__" v).get? k = o.get? k := by
  unfold Obj.assign
  rw [hopen.accessor]
  split
  · split <;> rfl
  · rename_i hnot
    exact absurd rfl hnot

theorem Obj.Open.assign {realm : Realm V} {o : Obj V} (hopen : o.Open realm) (key : String)
    (v : V) (hkey : key ≠ "__proto__") : (o.assign realm key v).Open realm := by
  constructor
  · rw [assign_get?_of_ne realm o key v hkey, if_neg hkey.symm]
    exact hopen.1
  · unfold Obj.reaches
    rw [assign_proto_of_ne realm o key v hkey]
    exact hopen.2

/-! ### Copying -/

@[simp] theorem copyKeys_nil (realm : Realm V) (src out : Obj V) :
    copyKeys realm src [] out = out := rfl

@[simp] theorem copyKeys_cons (realm : Realm V) (src : Obj V) (key : String)
    (rest : List String) (out : Obj V) :
    copyKeys realm src (key :: rest) out =
      copyKeys realm src rest (match src.get? key with
        | some v => out.assign realm key v
        | none => out) := rfl

/-- A copy takes every key but `__proto__`, when its source lacks that key or
when it meets it once and the accessor is there to take it. -/
theorem copyKeys_get? (realm : Realm V) (src : Obj V) (keys : List String) (out : Obj V)
    (h : src.get? "__proto__" = none ∨
      (keys.Nodup ∧ ("__proto__" ∈ keys → out.Open realm))) (k : String) :
    (copyKeys realm src keys out).get? k =
      if k ∈ keys ∧ k ≠ "__proto__" then (src.get? k).or (out.get? k) else out.get? k := by
  induction keys generalizing out with
  | nil => simp
  | cons key rest ih =>
      rw [copyKeys_cons]
      cases hsrc : src.get? key with
      | none =>
          have hrest : src.get? "__proto__" = none ∨
              (rest.Nodup ∧ ("__proto__" ∈ rest → out.Open realm)) :=
            h.imp_right fun hfresh =>
              ⟨hfresh.1.of_cons, fun hmem => hfresh.2 (List.mem_cons_of_mem key hmem)⟩
          rw [ih out hrest]
          by_cases hk : k = key
          · subst hk
            simp [hsrc]
          · simp [hk]
      | some v =>
          by_cases hproto : key = "__proto__"
          · -- the accessor takes the value, and the key is not met again
            subst hproto
            obtain ⟨hnodup, hopen⟩ := h.resolve_left (by simp [hsrc])
            obtain ⟨hfresh, hnodup⟩ := List.nodup_cons.mp hnodup
            rw [ih _ (.inr ⟨hnodup, fun hmem => absurd hmem hfresh⟩),
              assign_get?_proto realm out v (hopen List.mem_cons_self)]
            by_cases hk : k = "__proto__"
            · simp [hk]
            · simp [hk]
          · have hrest : src.get? "__proto__" = none ∨
                (rest.Nodup ∧ ("__proto__" ∈ rest → (out.assign realm key v).Open realm)) :=
              h.imp_right fun hfresh => ⟨hfresh.1.of_cons, fun hmem =>
                (hfresh.2 (List.mem_cons_of_mem key hmem)).assign key v hproto⟩
            rw [ih _ hrest, assign_get?_of_ne realm out key v hproto]
            by_cases hk : k = key
            · subst hk
              simp [hsrc, hproto]
            · simp [hk]

theorem copyKeys_open (realm : Realm V) (src : Obj V) (hsrc : src.get? "__proto__" = none)
    (keys : List String) (out : Obj V) (hopen : out.Open realm) :
    (copyKeys realm src keys out).Open realm := by
  induction keys generalizing out with
  | nil => exact hopen
  | cons key rest ih =>
      rw [copyKeys_cons]
      cases hkey : src.get? key with
      | none => exact ih out hopen
      | some v =>
          apply ih
          apply hopen.assign
          rintro rfl
          rw [hsrc] at hkey
          cases hkey

theorem mem_keys_iff (o : Obj V) (key : String) : key ∈ o.keys ↔ (o.get? key).isSome := by
  unfold Obj.keys Obj.get?
  rw [← AList.mem_keys, AList.lookup_isSome]

/-- All entries of an object, copied into an open one. -/
theorem copyKeys_all (realm : Realm V) (src out : Obj V) (hopen : out.Open realm) (k : String) :
    (copyKeys realm src src.keys out).get? k =
      if k = "__proto__" then none else (src.get? k).or (out.get? k) := by
  rw [copyKeys_get? realm src src.keys out
    (.inr ⟨src.own.keys_nodup, fun _ => hopen⟩) k]
  by_cases hk : k = "__proto__"
  · rw [if_neg (fun h => h.2 hk), if_pos hk, hk]
    exact hopen.1
  · rw [if_neg hk]
    by_cases hmem : k ∈ src.keys
    · rw [if_pos ⟨hmem, hk⟩]
    · have hnone : src.get? k = none := by
        rw [mem_keys_iff, Option.not_isSome_iff_eq_none] at hmem
        exact hmem
      rw [if_neg (fun h => hmem h.1), hnone, Option.none_or]

end Runlet.JsObject
