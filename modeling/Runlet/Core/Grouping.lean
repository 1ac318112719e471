import Runlet.Core.Dict
import Runlet.Core.ListValues

/-!
`group_by` of `list.js`: records gathered into an object of arrays, copied key
by key, and wrapped in a dict. Every key keeps its records but `__proto__`, which
only ever reaches the accessor: the records behind it are in no group.
-/

namespace Runlet.ListUtil

open DictUtil JsObject NumberText

variable {R : Type}

/-- Arrays and the lists that wrap them are objects that inherit the accessor. -/
def arrays : Realm (List R) := ⟨fun _ => true, fun _ => true⟩

/-- The groups so far, and their keys in the order they appeared. -/
abbrev Groups (R : Type) := Obj (List R) × List String

def openGroup (groups : Groups R) (key : String) : Groups R :=
  if groups.1.hasOwn key then groups
  else (groups.1.assign arrays key [], groups.2 ++ [key])

def groupStep (keyOf : R → Except String String) (groups : Groups R) (r : R) :
    Except String (Groups R) := do
  let key ← keyOf r
  let opened := openGroup groups key
  pure (opened.1.update arrays key (· ++ [r]), opened.2)

def groupDict (groups : Groups R) : Dct (List R) :=
  make arrays (.object (groups.2.foldl (fun out key =>
    out.assign arrays key ((groups.1.read arrays key).getD [])) .fresh))

def groupBy (keyOf : R → Except String String) (records : List R) :
    Except String (Dct (List R)) := do
  let groups ← records.foldlM (groupStep keyOf) (.fresh, [])
  pure (groupDict groups)

/-- Every key is there with its own records, in their order, and no other key. -/
structure Partition (keyOf : R → Except String String) (records : List R)
    (d : Dct (List R)) : Prop where
  keys : ∀ k, d.has k = true ↔ ∃ r ∈ records, keyOf r = .ok k
  groups : ∀ k group, d.obj.get? k = some group →
    group = records.filter fun r => decide (keyOf r = .ok k)

/-! ### One record -/

theorem arrays_open (o : Obj (List R)) (hown : o.get? "__proto__" = none) : o.Open arrays := by
  refine ⟨hown, ?_⟩
  unfold Obj.reaches arrays
  cases o.proto <;> rfl

theorem update_get?_of_ne (o : Obj (List R)) (key : String) (f : List R → List R)
    (hkey : key ≠ "__proto__") (k : String) :
    (o.update arrays key f).get? k =
      if k = key then (o.get? k).map f else o.get? k := by
  unfold Obj.update
  rw [accessor_of_ne arrays o key hkey]
  by_cases hk : k = key
  · subst hk
    rw [if_pos rfl]
    cases hget : o.get? k with
    | none => exact hget
    | some group => exact AList.lookup_insert o.own
  · rw [if_neg hk]
    cases hget : o.get? key with
    | none => rfl
    | some group => exact AList.lookup_insert_ne hk

theorem update_get?_proto (o : Obj (List R)) (f : List R → List R)
    (hown : o.get? "__proto__" = none) (k : String) :
    (o.update arrays "__proto__" f).get? k = o.get? k := by
  unfold Obj.update
  rw [(arrays_open o hown).accessor]
  cases hproto : o.proto with
  | standard => simp
  | value v =>
      simp only [if_true]
      rfl

/-- What the groups hold of the records behind them. -/
structure Gathered (keyOf : R → Except String String) (seen : List R) (groups : Groups R) :
    Prop where
  proto : groups.1.get? "__proto__" = none
  own : ∀ k, k ≠ "__proto__" → groups.1.get? k =
    if ∃ r ∈ seen, keyOf r = .ok k then
      some (seen.filter fun r => decide (keyOf r = .ok k)) else none
  order : ∀ k, k ∈ groups.2 ↔ ∃ r ∈ seen, keyOf r = .ok k

theorem gathered_nil (keyOf : R → Except String String) :
    Gathered keyOf [] (.fresh, []) where
  proto := rfl
  own := by simp
  order := by simp

theorem openGroup_get? (groups : Groups R) (key : String) (hkey : key ≠ "__proto__")
    (k : String) : (openGroup groups key).1.get? k =
      if k = key then some ((groups.1.get? k).getD []) else groups.1.get? k := by
  unfold openGroup Obj.hasOwn
  cases hget : groups.1.get? key with
  | none =>
      rw [if_neg (by simp), assign_get?_of_ne arrays groups.1 key [] hkey]
      by_cases hk : k = key
      · rw [if_pos hk, if_pos hk, hk, hget]
        rfl
      · rw [if_neg hk, if_neg hk]
  | some group =>
      rw [if_pos (Option.isSome_some)]
      by_cases hk : k = key
      · rw [if_pos hk, hk, hget]
        rfl
      · rw [if_neg hk]

theorem mem_openGroup (groups : Groups R) (key : String)
    (hkey : groups.1.hasOwn key = true → key ∈ groups.2) (k : String) :
    k ∈ (openGroup groups key).2 ↔ k ∈ groups.2 ∨ k = key := by
  unfold openGroup
  split
  · rename_i hown
    constructor
    · exact .inl
    · rintro (hmem | rfl)
      · exact hmem
      · exact hkey hown
  · simp

theorem seen_concat (keyOf : R → Except String String) (seen : List R) (r : R) (key : String)
    (hkey : keyOf r = .ok key) (k : String) :
    (∃ x ∈ seen ++ [r], keyOf x = .ok k) ↔ (∃ x ∈ seen, keyOf x = .ok k) ∨ k = key := by
  simp only [List.mem_append, List.mem_singleton, or_and_right, exists_or, exists_eq_left]
  rw [hkey, Except.ok.injEq, eq_comm (a := key)]

theorem filter_concat (keyOf : R → Except String String) (seen : List R) (r : R) (key : String)
    (hkey : keyOf r = .ok key) (k : String) :
    (seen ++ [r]).filter (fun x => decide (keyOf x = .ok k)) =
      seen.filter (fun x => decide (keyOf x = .ok k)) ++ if k = key then [r] else [] := by
  rw [List.filter_append]
  by_cases hk : k = key
  · simp [hk, hkey]
  · have hne : ¬ key = k := fun h => hk h.symm
    simp [hk, hkey, hne]

/-- A group that is there has its key in the order. -/
theorem Gathered.listed {keyOf : R → Except String String} {seen : List R} {groups : Groups R}
    (hgathered : Gathered keyOf seen groups) (key : String)
    (hsome : groups.1.hasOwn key = true) : key ∈ groups.2 := by
  unfold Obj.hasOwn at hsome
  have hne : key ≠ "__proto__" := by
    rintro rfl
    rw [hgathered.proto] at hsome
    cases hsome
  rw [hgathered.own key hne] at hsome
  apply (hgathered.order key).mpr
  by_contra hnone
  rw [if_neg hnone] at hsome
  cases hsome

/-- The accessor takes the new array, and no own property changes. -/
theorem push_get?_proto (groups : Groups R) (r : R)
    (hproto : groups.1.get? "__proto__" = none) (k : String) :
    ((openGroup groups "__proto__").1.update arrays "__proto__" (· ++ [r])).get? k =
      groups.1.get? k := by
  have hopened : (openGroup groups "__proto__").1 = groups.1.assign arrays "__proto__" [] := by
    unfold openGroup Obj.hasOwn
    rw [hproto]
    rfl
  have hassign := assign_get?_proto arrays groups.1 [] (arrays_open groups.1 hproto)
  rw [hopened, update_get?_proto _ _ (by rw [hassign]; exact hproto), hassign]

theorem push_get?_of_ne (groups : Groups R) (key : String) (r : R) (hkey : key ≠ "__proto__")
    (k : String) :
    ((openGroup groups key).1.update arrays key (· ++ [r])).get? k =
      if k = key then some ((groups.1.get? k).getD [] ++ [r]) else groups.1.get? k := by
  rw [update_get?_of_ne _ key _ hkey, openGroup_get? groups key hkey]
  by_cases hk : k = key
  · simp [hk]
  · simp [hk]

theorem gathered_step (keyOf : R → Except String String) (seen : List R) (groups next : Groups R)
    (r : R) (hgathered : Gathered keyOf seen groups) (hok : groupStep keyOf groups r = .ok next) :
    Gathered keyOf (seen ++ [r]) next := by
  obtain ⟨key, hkey, hnext⟩ := (bind_eq_ok_iff _ _ _).mp hok
  cases hnext
  have hseen := seen_concat keyOf seen r key hkey
  have hfilter := filter_concat keyOf seen r key hkey
  have horder : ∀ k, k ∈ (openGroup groups key).2 ↔ ∃ x ∈ seen ++ [r], keyOf x = .ok k := by
    intro k
    rw [mem_openGroup groups key (hgathered.listed key), hgathered.order, hseen]
  by_cases hproto : key = "__proto__"
  · subst hproto
    have hget := push_get?_proto groups r hgathered.proto
    refine ⟨?_, ?_, horder⟩
    · rw [hget]
      exact hgathered.proto
    · intro k hk
      rw [hget, hgathered.own k hk, hfilter, if_neg hk, List.append_nil]
      simp only [hseen, hk, or_false]
  · have hget := push_get?_of_ne groups key r hproto
    refine ⟨?_, ?_, horder⟩
    · rw [hget, if_neg (Ne.symm hproto)]
      exact hgathered.proto
    · intro k hk
      rw [hget, hfilter, hgathered.own k hk]
      by_cases hkey' : k = key
      · rw [if_pos hkey', if_pos hkey', if_pos ((hseen k).mpr (.inr hkey'))]
        split
        · rfl
        · rename_i hnone
          have hempty : seen.filter (fun x => decide (keyOf x = .ok k)) = [] := by
            apply List.filter_eq_nil_iff.mpr
            intro x hx hmatch
            exact hnone ⟨x, hx, of_decide_eq_true hmatch⟩
          rw [hempty]
          rfl
      · rw [if_neg hkey', if_neg hkey', List.append_nil]
        simp only [hseen, hkey', or_false]

/-! ### The whole list -/

theorem gathered_run (keyOf : R → Except String String) (records seen : List R)
    (groups final : Groups R) (hgathered : Gathered keyOf seen groups)
    (hok : records.foldlM (groupStep keyOf) groups = .ok final) :
    Gathered keyOf (seen ++ records) final := by
  induction records generalizing seen groups with
  | nil =>
      cases hok
      rw [List.append_nil]
      exact hgathered
  | cons r rest ih =>
      rw [List.foldlM_cons] at hok
      obtain ⟨next, hnext, hrest⟩ := (bind_eq_ok_iff _ _ _).mp hok
      have hrun := ih (seen ++ [r]) next (gathered_step keyOf seen groups next r hgathered hnext)
        hrest
      rw [List.append_assoc] at hrun
      exact hrun

theorem groupDict_get? (groups : Groups R) (k : String) : (groupDict groups).obj.get? k =
      if k ≠ "__proto__" ∧ k ∈ groups.2 then some ((groups.1.get? k).getD []) else none := by
  have hcopy : ∀ (order : List String) (out : Obj (List R)), out.get? "__proto__" = none →
      k ≠ "__proto__" → (order.foldl (fun out key =>
        out.assign arrays key ((groups.1.read arrays key).getD [])) out).get? k =
        if k ∈ order then some ((groups.1.get? k).getD []) else out.get? k := by
    intro order
    induction order with
    | nil => simp
    | cons key rest ih =>
        intro out hout hk
        rw [List.foldl_cons]
        by_cases hkey : key = "__proto__"
        · subst hkey
          have hassign := assign_get?_proto arrays out
            ((groups.1.read arrays "__proto__").getD []) (arrays_open out hout)
          rw [ih _ (by rw [hassign]; exact hout) hk, hassign]
          simp [hk]
        · rw [ih _ (by rw [assign_get?_of_ne _ _ _ _ hkey, if_neg (Ne.symm hkey)]; exact hout) hk,
            assign_get?_of_ne _ _ _ _ hkey]
          by_cases hsame : k = key
          · subst hsame
            simp [Obj.read, accessor_of_ne arrays groups.1 k hk]
          · simp [hsame]
  unfold groupDict
  rw [make_get?]
  by_cases hk : k = "__proto__"
  · rw [if_pos hk, if_neg (fun h => h.1 hk)]
  · rw [if_neg hk, hcopy groups.2 .fresh rfl hk]
    simp [hk]

/-- Which groups a dict has, and what is in them. -/
theorem groupBy_get? (keyOf : R → Except String String) (records : List R) (d : Dct (List R))
    (hok : groupBy keyOf records = .ok d) (k : String) :
    d.obj.get? k = if k ≠ "__proto__" ∧ ∃ r ∈ records, keyOf r = .ok k then
      some (records.filter fun r => decide (keyOf r = .ok k)) else none := by
  obtain ⟨groups, hgroups, hd⟩ := (bind_eq_ok_iff _ _ _).mp hok
  cases hd
  have hgathered := gathered_run keyOf records [] (.fresh, []) groups (gathered_nil keyOf) hgroups
  rw [List.nil_append] at hgathered
  rw [groupDict_get? groups]
  by_cases hk : k = "__proto__"
  · rw [if_neg (fun h => h.1 hk), if_neg (fun h => h.1 hk)]
  · rw [hgathered.own k hk]
    simp only [hgathered.order]
    split
    · rename_i h
      rw [if_pos h.2]
      rfl
    · rfl

/-- The run goes through exactly when every record has a key. -/
theorem groupBy_ok_iff (keyOf : R → Except String String) (records : List R) :
    (∃ d, groupBy keyOf records = .ok d) ↔ ∀ r ∈ records, ∃ k, keyOf r = .ok k := by
  have hrun : ∀ groups : Groups R, (∃ final, records.foldlM (groupStep keyOf) groups = .ok final) ↔
      ∀ r ∈ records, ∃ k, keyOf r = .ok k := by
    induction records with
    | nil =>
        intro groups
        exact ⟨fun _ _ hr => absurd hr List.not_mem_nil, fun _ => ⟨groups, rfl⟩⟩
    | cons r rest ih =>
        intro groups
        rw [List.foldlM_cons, List.forall_mem_cons]
        constructor
        · rintro ⟨final, hok⟩
          obtain ⟨next, hnext, hrest⟩ := (bind_eq_ok_iff _ _ _).mp hok
          obtain ⟨key, hkey, -⟩ := (bind_eq_ok_iff _ _ _).mp hnext
          exact ⟨⟨key, hkey⟩, (ih next).mp ⟨final, hrest⟩⟩
        · rintro ⟨⟨key, hkey⟩, hrest⟩
          unfold groupStep
          rw [hkey]
          exact (ih _).mpr hrest
  unfold groupBy
  rw [← hrun (.fresh, [])]
  constructor
  · rintro ⟨d, hok⟩
    obtain ⟨groups, hgroups, -⟩ := (bind_eq_ok_iff _ _ _).mp hok
    exact ⟨groups, hgroups⟩
  · rintro ⟨groups, hgroups⟩
    rw [hgroups]
    exact ⟨groupDict groups, rfl⟩

theorem groupBy_partition_iff (keyOf : R → Except String String) (records : List R)
    (d : Dct (List R)) (hok : groupBy keyOf records = .ok d) :
    Partition keyOf records d ↔ ∀ r ∈ records, keyOf r ≠ .ok "__proto__" := by
  have hget := groupBy_get? keyOf records d hok
  constructor
  · intro hpartition r hr hkey
    have hhas := (hpartition.keys "__proto__").mpr ⟨r, hr, hkey⟩
    unfold Dct.has Obj.hasOwn at hhas
    rw [d.clean] at hhas
    cases hhas
  · intro hclean
    have hne : ∀ k, (∃ r ∈ records, keyOf r = .ok k) → k ≠ "__proto__" := by
      rintro k ⟨r, hr, hkey⟩ rfl
      exact hclean r hr hkey
    constructor
    · intro k
      unfold Dct.has Obj.hasOwn
      rw [hget]
      constructor
      · intro hsome
        by_contra hnone
        rw [if_neg (fun h => hnone h.2)] at hsome
        cases hsome
      · intro hmem
        rw [if_pos ⟨hne k hmem, hmem⟩]
        rfl
    · intro k group hgroup
      rw [hget] at hgroup
      split at hgroup
      · exact (Option.some.inj hgroup).symm
      · cases hgroup

/-! ### Records of a list -/

variable {D O : Type}

/-- `String(v)`; an object answers by its own method, which may throw. -/
def stringOf (texts : Texts D) (objectText : O → Except String String) :
    Value D O → Except String String
  | .undefined => .ok "undefined"
  | .null => .ok "null"
  | .bool b => .ok (if b then "true" else "false")
  | .number n => .ok (numberText n)
  | .string s => .ok s
  | .decimal d => .ok (texts.decimal d)
  | .money m => .ok (texts.decimal m.amount)
  | .datetime ms _ => .ok (texts.iso ms)
  | .text s => .ok s
  | .object o => objectText o

/-- The key of a record: its field's identity, as a text. -/
def groupKey (texts : Texts D) (objectText : O → Except String String)
    (property : Property D O) (field : Option String) (record : Value D O) :
    Except String String :=
  stringOf texts objectText (idOf texts (fieldOf property record field))

/-- `group_by` partitions the records exactly when no key is `__proto__`. -/
theorem group_by_partition_iff (texts : Texts D) (objectText : O → Except String String)
    (property : Property D O) (field : Option String) (records : List (Value D O))
    (d : Dct (List (Value D O)))
    (hok : groupBy (groupKey texts objectText property field) records = .ok d) :
    Partition (groupKey texts objectText property field) records d ↔
      ∀ r ∈ records, groupKey texts objectText property field r ≠ .ok "__proto__" :=
  groupBy_partition_iff _ records d hok

/-- Plain strings, each its own field. -/
def sampleKey : Value Nat Empty → Except String String :=
  groupKey ⟨toString, toString⟩ (fun o => nomatch o) (fun v _ => v) none

theorem group_by_partition_iff_strings :
    ∃ d, groupBy sampleKey [.string "x", .string "y", .string "x"] = .ok d ∧
      Partition sampleKey [.string "x", .string "y", .string "x"] d := by
  obtain ⟨d, hok⟩ : ∃ d, groupBy sampleKey [.string "x", .string "y", .string "x"] = .ok d :=
    ⟨_, rfl⟩
  refine ⟨d, hok, ?_⟩
  apply (group_by_partition_iff _ _ _ _ _ d hok).mpr
  intro r hr
  simp only [List.mem_cons, List.not_mem_nil, or_false] at hr
  rcases hr with rfl | rfl | rfl <;> decide

/-- A record whose field is `__proto__` is in no group. -/
theorem group_by_loses_proto :
    ∃ d, groupBy sampleKey [.string "__proto__", .string "x"] = .ok d ∧
      d.has "__proto__" = false ∧
      ¬ Partition sampleKey [.string "__proto__", .string "x"] d := by
  obtain ⟨d, hok⟩ : ∃ d, groupBy sampleKey [.string "__proto__", .string "x"] = .ok d :=
    ⟨_, rfl⟩
  have hhas : d.has "__proto__" = false := by
    unfold Dct.has Obj.hasOwn
    rw [d.clean]
    rfl
  refine ⟨d, hok, hhas, ?_⟩
  intro hpartition
  have hkey := (hpartition.keys "__proto__").mpr ⟨.string "__proto__", List.mem_cons_self, rfl⟩
  rw [hhas] at hkey
  cases hkey

end Runlet.ListUtil
