import Runlet.Lib.JsObject
import Runlet.Lib.Text
import Runlet.Core.Errors

/-!
The `dict` of `dict.js`: an immutable view of one plain object. Its operations
copy entries into fresh objects by assignment, so an own property `__proto__` of
the input never becomes an entry; every other key does.
-/

namespace Runlet.DictUtil

open JsObject

variable {V : Type}

/-- The values of a program: what they are as prototypes, and their own
properties where they are objects. -/
structure Values (V : Type) extends Realm V where
  own : V → String → Option V

/-- Every constructor copies into a fresh object, so the key is never there. -/
structure Dct (V : Type) where
  obj : Obj V
  clean : obj.get? "__proto__" = none

/-- What a caller passes: a dict, a plain object, or anything else. -/
inductive Operand (V : Type) where
  | dict (d : Dct V)
  | object (o : Obj V)
  | nonObject

def objOf : Operand V → Obj V
  | .dict d => d.obj
  | .object o => o
  | .nonObject => .fresh

def copyFresh (realm : Realm V) (src : Obj V) : Obj V := copyKeys realm src src.keys .fresh

theorem copyFresh_get? (realm : Realm V) (src : Obj V) (k : String) :
    (copyFresh realm src).get? k = if k = "__proto__" then none else src.get? k := by
  unfold copyFresh
  rw [copyKeys_all realm src .fresh (fresh_open realm), fresh_get?, Option.or_none]

theorem copyFresh_open (realm : Realm V) (src : Obj V) (hsrc : src.get? "__proto__" = none) :
    (copyFresh realm src).Open realm :=
  copyKeys_open realm src hsrc src.keys .fresh (fresh_open realm)

def make (realm : Realm V) : Operand V → Dct V
  | .dict d => d
  | input => ⟨copyFresh realm (objOf input), by rw [copyFresh_get?, if_pos rfl]⟩

def Dct.toObject (realm : Realm V) (d : Dct V) : Obj V := copyFresh realm d.obj

def walk (own : V → String → Option V) : V → List String → Option V
  | v, [] => some v
  | v, seg :: rest => (own v seg).bind fun next => walk own next rest

/-- The segments of a dotted path. -/
def segments (path : String) : List String := Text.split '.' path

/-- Nothing is `undefined`, the default of a caller that gives none. -/
def Dct.get (vals : Values V) (d : Dct V) (path : String) (default : Option V) : Option V :=
  match segments path with
  | [] => none
  | seg :: rest => ((d.obj.get? seg).bind fun v => walk vals.own v rest).or default

theorem pick_clean (realm : Realm V) (d : Dct V) (keys : List String) :
    (copyKeys realm d.obj keys .fresh).get? "__proto__" = none := by
  rw [copyKeys_get? realm d.obj keys .fresh (.inl d.clean), if_neg (fun h => h.2 rfl),
    fresh_get?]

def Dct.pick (realm : Realm V) (d : Dct V) (keys : List String) : Dct V :=
  ⟨copyKeys realm d.obj keys .fresh, pick_clean realm d keys⟩

/-- A set of keys as an object of booleans. -/
def dropped (keys : List String) : Obj Bool :=
  keys.foldl (fun drop key => drop.assign ⟨fun _ => false, fun _ => false⟩ key true) .fresh

def Dct.omit (realm : Realm V) (d : Dct V) (keys : List String) : Dct V :=
  ⟨copyKeys realm d.obj (d.obj.keys.filter fun key => !(dropped keys).hasOwn key) .fresh,
    pick_clean realm d _⟩

def Dct.has (d : Dct V) (field : String) : Bool := d.obj.hasOwn field

theorem merge_clean (realm : Realm V) (d : Dct V) (src : Obj V) :
    (copyKeys realm src src.keys (copyFresh realm d.obj)).get? "__proto__" = none := by
  rw [copyKeys_all realm src _ (copyFresh_open realm d.obj d.clean), if_pos rfl]

/-- The entries of the other operand win. -/
def Dct.merge (realm : Realm V) (d : Dct V) (other : Operand V) : Dct V :=
  ⟨copyKeys realm (objOf other) (objOf other).keys (copyFresh realm d.obj),
    merge_clean realm d (objOf other)⟩

/-! ### What each operation keeps -/

theorem Dct.toObject_get? (realm : Realm V) (d : Dct V) (k : String) :
    (d.toObject realm).get? k = d.obj.get? k := by
  unfold Dct.toObject
  rw [copyFresh_get?]
  by_cases hk : k = "__proto__"
  · rw [if_pos hk, hk, d.clean]
  · rw [if_neg hk]

theorem make_get? (realm : Realm V) (o : Obj V) (k : String) :
    (make realm (.object o)).obj.get? k = if k = "__proto__" then none else o.get? k :=
  copyFresh_get? realm o k

theorem Dct.pick_get? (realm : Realm V) (d : Dct V) (keys : List String) (k : String) :
    (d.pick realm keys).obj.get? k = if k ∈ keys then d.obj.get? k else none := by
  unfold Dct.pick
  dsimp only
  rw [copyKeys_get? realm d.obj keys .fresh (.inl d.clean), fresh_get?, Option.or_none]
  by_cases hk : k = "__proto__"
  · rw [if_neg (fun h => h.2 hk), hk, d.clean, ite_self]
  · simp [hk]

/-- The accessor ignores a boolean, so the drop set never has `__proto__`. -/
theorem dropped_hasOwn (keys : List String) (k : String) :
    (dropped keys).hasOwn k = decide (k ∈ keys ∧ k ≠ "__proto__") := by
  have hrun : ∀ drop : Obj Bool, drop.Open ⟨fun _ => false, fun _ => false⟩ →
      (keys.foldl (fun drop key => drop.assign ⟨fun _ => false, fun _ => false⟩ key true)
        drop).hasOwn k = (decide (k ∈ keys ∧ k ≠ "__proto__") || drop.hasOwn k) := by
    induction keys with
    | nil => simp
    | cons key rest ih =>
        intro drop hopen
        rw [List.foldl_cons]
        by_cases hproto : key = "__proto__"
        · have hsame : drop.assign ⟨fun _ => false, fun _ => false⟩ key true = drop := by
            subst hproto
            unfold Obj.assign
            rw [hopen.accessor]
            rfl
          rw [hsame, ih drop hopen]
          by_cases hk : k = key
          · subst hk
            simp [hproto]
          · simp [hk]
        · rw [ih _ (hopen.assign key true hproto)]
          unfold Obj.hasOwn
          rw [assign_get?_of_ne _ drop key true hproto]
          by_cases hk : k = key
          · subst hk
            simp [hproto]
          · simp [hk]
  have hfresh := hrun .fresh (fresh_open _)
  rw [show (Obj.fresh : Obj Bool).hasOwn k = false from rfl, Bool.or_false] at hfresh
  exact hfresh

theorem Dct.omit_get? (realm : Realm V) (d : Dct V) (keys : List String) (k : String) :
    (d.omit realm keys).obj.get? k = if k ∈ keys then none else d.obj.get? k := by
  unfold Dct.omit
  dsimp only
  rw [copyKeys_get? realm d.obj _ .fresh (.inl d.clean), fresh_get?, Option.or_none]
  by_cases hk : k = "__proto__"
  · rw [if_neg (fun h => h.2 hk), hk, d.clean, ite_self]
  · by_cases hmem : k ∈ d.obj.keys
    · by_cases hdrop : k ∈ keys
      · simp [dropped_hasOwn, hdrop, hk]
      · simp [dropped_hasOwn, hdrop, hk, hmem]
    · have hnone : d.obj.get? k = none := by
        rw [mem_keys_iff, Option.not_isSome_iff_eq_none] at hmem
        exact hmem
      rw [hnone, ite_self, ite_self]

theorem Dct.merge_get? (realm : Realm V) (d : Dct V) (other : Operand V) (k : String) :
    (d.merge realm other).obj.get? k =
      if k = "__proto__" then none else ((objOf other).get? k).or (d.obj.get? k) := by
  unfold Dct.merge
  dsimp only
  rw [copyKeys_all realm _ _ (copyFresh_open realm d.obj d.clean), copyFresh_get?]
  by_cases hk : k = "__proto__"
  · rw [if_pos hk, if_pos hk]
  · rw [if_neg hk, if_neg hk, if_neg hk]

theorem segments_of_no_dot (path : String) (hdot : '.' ∉ path.toList) :
    segments path = [path] := by
  unfold segments Text.split
  rw [Text.splitChars_of_not_mem '.' path.toList hdot, List.map_singleton,
    String.ofList_toList]

theorem Dct.get_of_no_dot (vals : Values V) (d : Dct V) (path : String)
    (hdot : '.' ∉ path.toList) (default : Option V) :
    d.get vals path default = (d.obj.get? path).or default := by
  unfold Dct.get
  rw [segments_of_no_dot path hdot]
  cases hget : d.obj.get? path <;> simp [walk, hget]

/-! ### The laws of a finite map -/

/-- A dict of `o`, and what it is merged with, seen through their entries. -/
structure FiniteMap (vals : Values V) (o : Obj V) (other : Operand V) : Prop where
  toObject : ∀ k, ((make vals.toRealm (.object o)).toObject vals.toRealm).get? k = o.get? k
  merged : ∀ k, ((make vals.toRealm (.object o)).merge vals.toRealm other).obj.get? k =
    ((objOf other).get? k).or (o.get? k)
  picked : ∀ keys k, ((make vals.toRealm (.object o)).pick vals.toRealm keys).obj.get? k =
    if k ∈ keys then o.get? k else none
  omitted : ∀ keys k, ((make vals.toRealm (.object o)).omit vals.toRealm keys).obj.get? k =
    if k ∈ keys then none else o.get? k
  has : ∀ k, (make vals.toRealm (.object o)).has k = true ↔ k ∈ o.keys
  get : ∀ k, '.' ∉ k.toList → ∀ default,
    (make vals.toRealm (.object o)).get vals k default = (o.get? k).or default

theorem make_of_clean (realm : Realm V) (o : Obj V) (ho : o.get? "__proto__" = none)
    (k : String) : (make realm (.object o)).obj.get? k = o.get? k := by
  rw [make_get?]
  by_cases hk : k = "__proto__"
  · rw [if_pos hk, hk, ho]
  · rw [if_neg hk]

/-- The laws hold for every list of keys exactly when no operand has an own
property `__proto__`. -/
theorem finite_map_iff (vals : Values V) (o : Obj V) (other : Operand V) :
    FiniteMap vals o other ↔
      o.get? "__proto__" = none ∧ (objOf other).get? "__proto__" = none := by
  constructor
  · intro hmap
    constructor
    · have hkept := hmap.toObject "__proto__"
      rw [Dct.toObject_get?, make_get?, if_pos rfl] at hkept
      exact hkept.symm
    · have hkept := hmap.merged "__proto__"
      rw [Dct.merge_get?, if_pos rfl] at hkept
      exact (Option.or_eq_none_iff.mp hkept.symm).1
  · rintro ⟨ho, hother⟩
    have hmake := make_of_clean vals.toRealm o ho
    refine ⟨?_, ?_, ?_, ?_, ?_, ?_⟩
    · intro k
      rw [Dct.toObject_get?, hmake]
    · intro k
      rw [Dct.merge_get?, hmake]
      by_cases hk : k = "__proto__"
      · rw [if_pos hk, hk, hother, ho]
        rfl
      · rw [if_neg hk]
    · intro keys k
      rw [Dct.pick_get?, hmake]
    · intro keys k
      rw [Dct.omit_get?, hmake]
    · intro k
      rw [mem_keys_iff, ← hmake k]
      rfl
    · intro k hdot default
      rw [Dct.get_of_no_dot vals _ k hdot, hmake]

/-! ### JSON documents -/

/-- The own properties of a parsed value; of two fields with one name the last
one counts. -/
def jsonOwn : Errors.Json → String → Option Errors.Json
  | .obj fields, key => fields.reverse.lookup key
  | .arr items, key =>
      if key = "length" then some (.num (toString items.length))
      else ((List.range items.length).find? fun i => toString i == key).bind (items[·]?)
  | _, _ => none

def jsonValues : Values Errors.Json where
  prototype
    | .null | .arr _ | .obj _ => true
    | _ => false
  inherits
    | .arr _ => true
    | .obj fields => (fields.lookup "__proto__").isNone
    | _ => false
  own := jsonOwn

/-- `JSON.parse` defines its properties, `__proto__` among them. -/
def parsed (fields : List (String × Errors.Json)) : Obj Errors.Json :=
  ⟨fields.foldl (fun own field => own.insert field.1 field.2) ∅, .standard⟩

/-- A key that every JSON document may contain is lost. -/
theorem finite_map_lost_key :
    ¬ FiniteMap jsonValues (parsed [("__proto__", .num "1"), ("a", .num "2")]) .nonObject := by
  intro hmap
  have hkept := hmap.toObject "__proto__"
  rw [Dct.toObject_get?, make_get?, if_pos rfl] at hkept
  exact absurd hkept (by decide)

end Runlet.DictUtil
