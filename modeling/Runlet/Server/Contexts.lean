import Mathlib.Algebra.Ring.Nat
import Runlet.Lib.JsonText

/-!
The contexts the framework builds for a batch (`batch_items.rs`): reserved keys
merged into a caller's JSON object, and the shared context made of the seed
and the `before` output. Maps are the source's `BTreeMap`s of raw values: one
entry a key, in key order. The limits an engine configuration is accepted with
(`config.rs`) are here too.
-/

namespace Runlet.Contexts

open JsonText

/-- The JSON library: reading, and the quoted form of a member name. -/
structure Codec extends Reader where
  quote : String → String

/-- Inserts in key order; the new value replaces one of the same key. -/
def insertKey (key value : String) : List (String × String) → List (String × String)
  | [] => [(key, value)]
  | (other, kept) :: rest =>
      if key = other then (key, value) :: rest
      else if key < other then (key, value) :: (other, kept) :: rest
      else (other, kept) :: insertKey key value rest

/-- A JSON object as a map of raw values; of duplicate keys the last wins. -/
def readMap (reader : Reader) (text : String) : Option (List (String × String)) :=
  match reader.read text with
  | some (.object members) =>
      some (members.foldl (fun map member => insertKey member.1 member.2 map) [])
  | _ => none

def writeMembers (codec : Codec) : List (String × String) → String
  | [] => ""
  | [(key, value)] => codec.quote key ++ ":" ++ value
  | (key, value) :: rest => codec.quote key ++ ":" ++ value ++ "," ++ writeMembers codec rest

def writeMap (codec : Codec) (map : List (String × String)) : String :=
  "\x7b" ++ writeMembers codec map ++ "\x7d"

/-- A raw value of its own; `none` for a text that is not JSON. -/
def rawFromString (reader : Reader) (text : String) : Option String :=
  if (reader.read text).isSome then some (Text.trim text) else none

/-- Inserts the reserved keys, each of which must be given as JSON. -/
def insertReserved (reader : Reader) :
    List (String × String) → List (String × String) → Option (List (String × String))
  | [], map => some map
  | (key, value) :: rest, map =>
      match rawFromString reader value with
      | none => none
      | some raw => insertReserved reader rest (insertKey key raw map)

/-- `none` when the context is not a JSON object. -/
def contextWithReserved (codec : Codec) (context : String)
    (reserved : List (String × String)) : Option String :=
  match readMap codec.toReader context with
  | none => none
  | some map => (insertReserved codec.toReader reserved map).map (writeMap codec)

/-- `before`'s data wins over the seed; they merge when both are objects. -/
def buildSharedContext (codec : Codec) (seed beforeData : Option String) : Option String :=
  match seed, beforeData with
  | none, none => none
  | some seed, none => some seed
  | none, some data => some data
  | some seed, some data =>
      match readMap codec.toReader seed, readMap codec.toReader data with
      | some merged, some fresh => some
          (writeMap codec (fresh.foldl (fun map entry => insertKey entry.1 entry.2 map) merged))
      | _, _ => some data

/-! ### Maps in key order -/

/-- The order a `BTreeMap` keeps, which also makes its keys distinct. -/
def InKeyOrder (map : List (String × String)) : Prop :=
  map.Pairwise fun left right => left.1 < right.1

/-- An insertion puts the entry in and takes out the one of the same key. -/
theorem insertKey_perm (key value : String) (map : List (String × String))
    (hmap : InKeyOrder map) :
    (insertKey key value map).Perm ((key, value) :: map.filter fun entry => entry.1 ≠ key) := by
  induction map with
  | nil => exact List.Perm.refl _
  | cons entry rest ih =>
      obtain ⟨other, kept⟩ := entry
      obtain ⟨hfirst, hrest⟩ := List.pairwise_cons.mp hmap
      unfold insertKey
      split
      · rename_i heq
        subst heq
        have hkept : (rest.filter fun entry => entry.1 ≠ key) = rest := by
          apply List.filter_eq_self.mpr
          intro entry hentry
          simpa using (String.ne_of_lt (hfirst entry hentry)).symm
        rw [List.filter_cons_of_neg (by simp), hkept]
      · rename_i hne
        split
        · rename_i hlt
          have hkept : (((other, kept) :: rest).filter fun entry => entry.1 ≠ key) =
              (other, kept) :: rest := by
            apply List.filter_eq_self.mpr
            intro entry hentry
            rcases List.mem_cons.mp hentry with rfl | hentry
            · simpa using (String.ne_of_lt hlt).symm
            · simpa using
                (String.ne_of_lt (String.lt_trans hlt (hfirst entry hentry))).symm
          rw [hkept]
        · rw [List.filter_cons_of_pos (by simpa using Ne.symm hne)]
          exact ((ih hrest).cons _).trans (List.Perm.swap _ _ _)

theorem insertKey_order (key value : String) (map : List (String × String))
    (hmap : InKeyOrder map) : InKeyOrder (insertKey key value map) := by
  induction map with
  | nil => exact List.pairwise_singleton _ _
  | cons entry rest ih =>
      obtain ⟨other, kept⟩ := entry
      obtain ⟨hfirst, hrest⟩ := List.pairwise_cons.mp hmap
      unfold insertKey
      split
      · rename_i heq
        subst heq
        exact List.pairwise_cons.mpr ⟨hfirst, hrest⟩
      · rename_i hne
        split
        · rename_i hlt
          refine List.pairwise_cons.mpr ⟨?_, hmap⟩
          intro entry hentry
          rcases List.mem_cons.mp hentry with rfl | hentry
          · exact hlt
          · exact String.lt_trans hlt (hfirst entry hentry)
        · rename_i hlt
          refine List.pairwise_cons.mpr ⟨?_, ih hrest⟩
          intro entry hentry
          rcases List.mem_cons.mp ((insertKey_perm key value rest hrest).mem_iff.mp hentry) with
            rfl | hentry
          · have hle : ¬ key ≤ other := by
              intro hle
              exact hne (String.le_antisymm hle (String.not_lt.mp hlt))
            exact String.not_le.mp hle
          · exact hfirst entry (List.mem_filter.mp hentry).1

/-- The members that stay when the last of a name wins. -/
def lastMembers : List (String × String) → List (String × String)
  | [] => []
  | member :: rest =>
      if rest.any fun later => later.1 = member.1 then lastMembers rest
      else member :: lastMembers rest

/-- Insertions in order leave the last members and the entries they did not
replace. -/
theorem foldl_insertKey (members map : List (String × String)) (hmap : InKeyOrder map) :
    InKeyOrder (members.foldl (fun map member => insertKey member.1 member.2 map) map) ∧
    (members.foldl (fun map member => insertKey member.1 member.2 map) map).Perm
      (lastMembers members ++ map.filter fun entry =>
        !members.any fun member => member.1 = entry.1) := by
  induction members generalizing map with
  | nil => exact ⟨hmap, by simp [lastMembers]⟩
  | cons member rest ih =>
      obtain ⟨horder, hperm⟩ := ih (insertKey member.1 member.2 map)
        (insertKey_order member.1 member.2 map hmap)
      refine ⟨horder, hperm.trans ?_⟩
      have hinserted := (insertKey_perm member.1 member.2 map hmap).filter fun entry =>
        !rest.any fun later => later.1 = entry.1
      have hkept : ((map.filter fun entry => entry.1 ≠ member.1).filter fun entry =>
            !rest.any fun later => later.1 = entry.1) =
          map.filter fun entry => !(member :: rest).any fun later => later.1 = entry.1 := by
        rw [List.filter_filter]
        apply List.filter_congr
        intro entry _
        by_cases heq : entry.1 = member.1
        · simp [heq]
        · simp [heq, Ne.symm heq]
      simp only [lastMembers]
      split
      · rename_i hlater
        rw [List.filter_cons_of_neg (by simpa using hlater), hkept] at hinserted
        exact hinserted.append_left _
      · rename_i hlater
        rw [Bool.not_eq_true] at hlater
        rw [List.filter_cons_of_pos (by simp only [hlater, Bool.not_false]), hkept] at hinserted
        exact (hinserted.append_left _).trans List.perm_middle

/-! ### What a merged context carries -/

/-- `contextJson` is the caller's object with these members and no others under
their names; every other member is the caller's own. -/
def Carries (codec : Codec) (own : String) (reserved : List (String × String))
    (contextJson : String) : Prop :=
  ∃ fields map, readMap codec.toReader own = some fields ∧ InKeyOrder map ∧
    contextJson = writeMap codec map ∧
    ∀ key, map.lookup key = ((reserved.lookup key).map Text.trim).or (fields.lookup key)

theorem lookup_entry (key value other : String) (rest : List (String × String)) :
    List.lookup other ((key, value) :: rest) =
      if other = key then some value else rest.lookup other := by
  by_cases hother : other = key
  · simp [hother]
  · simp [List.lookup_cons, beq_eq_false_iff_ne.mpr hother, hother]

/-- An insertion changes what one key finds. -/
theorem lookup_insertKey (key value other : String) (map : List (String × String)) :
    (insertKey key value map).lookup other =
      if other = key then some value else map.lookup other := by
  induction map with
  | nil => simp [insertKey]
  | cons entry rest ih =>
      obtain ⟨first, kept⟩ := entry
      unfold insertKey
      split
      · rename_i heq
        subst heq
        by_cases hother : other = key <;> simp [lookup_entry, hother]
      · rename_i hne
        split
        · exact lookup_entry key value other _
        · rw [lookup_entry, lookup_entry, ih]
          by_cases hother : other = key
          · subst hother
            simp [hne]
          · simp [hother]

theorem insertReserved_order (reader : Reader) (reserved map merged : List (String × String))
    (hmap : InKeyOrder map) (hmerged : insertReserved reader reserved map = some merged) :
    InKeyOrder merged := by
  induction reserved generalizing map with
  | nil =>
      cases hmerged
      exact hmap
  | cons entry rest ih =>
      obtain ⟨key, value⟩ := entry
      unfold insertReserved at hmerged
      split at hmerged
      · cases hmerged
      · exact ih _ (insertKey_order _ _ _ hmap) hmerged

/-- Of keys given once each, the merge finds the value given, and the map's
own under any other key. -/
theorem lookup_insertReserved (reader : Reader) (reserved map merged : List (String × String))
    (hkeys : (reserved.map Prod.fst).Nodup)
    (hmerged : insertReserved reader reserved map = some merged) (key : String) :
    merged.lookup key = ((reserved.lookup key).map Text.trim).or (map.lookup key) := by
  induction reserved generalizing map with
  | nil =>
      cases hmerged
      rfl
  | cons entry rest ih =>
      obtain ⟨name, value⟩ := entry
      obtain ⟨hfresh, hrest⟩ := List.nodup_cons.mp hkeys
      unfold insertReserved rawFromString at hmerged
      split at hmerged
      · cases hmerged
      · rename_i raw hraw
        split at hraw
        · cases hraw
          rw [ih _ hrest hmerged, lookup_insertKey, lookup_entry]
          by_cases hkey : key = name
          · subst hkey
            have hnone : rest.lookup key = none := by
              rw [List.lookup_eq_none_iff]
              intro entry hentry
              have hne : key ≠ entry.1 := fun heq =>
                hfresh (List.mem_map.mpr ⟨entry, hentry, heq.symm⟩)
              simpa using hne
            simp [hnone]
          · simp [hkey]
        · cases hraw

theorem contextWithReserved_carries (codec : Codec) (own contextJson : String)
    (reserved : List (String × String)) (hkeys : (reserved.map Prod.fst).Nodup)
    (h : contextWithReserved codec own reserved = some contextJson) :
    Carries codec own reserved contextJson := by
  unfold contextWithReserved at h
  cases hfields : readMap codec.toReader own with
  | none => simp [hfields] at h
  | some fields =>
      rw [hfields] at h
      obtain ⟨map, hmap, rfl⟩ := Option.map_eq_some_iff.mp h
      have horder : InKeyOrder fields := by
        unfold readMap at hfields
        split at hfields
        · cases hfields
          exact (foldl_insertKey _ [] List.Pairwise.nil).1
        · cases hfields
      exact ⟨fields, map, hfields, insertReserved_order _ _ _ _ horder hmap, rfl,
        lookup_insertReserved _ _ _ _ hkeys hmap⟩

/-! ### The size of a merged context -/

/-- A name, a colon and a value. -/
def entrySize (codec : Codec) (entry : String × String) : Nat :=
  (codec.quote entry.1).utf8ByteSize + 1 + entry.2.utf8ByteSize

/-- The bytes of a context with a value under a reserved key: two braces, the
reserved entry, and each other member with a comma. -/
def mergedSize (codec : Codec) (members : List (String × String)) (key value : String) : Nat :=
  2 + entrySize codec (key, Text.trim value) +
    (((lastMembers members).filter fun member => member.1 ≠ key).map fun member =>
      entrySize codec member + 1).sum

theorem writeMembers_size (codec : Codec) (map : List (String × String)) (hne : map ≠ []) :
    (writeMembers codec map).utf8ByteSize + 1 =
      (map.map fun entry => entrySize codec entry + 1).sum := by
  have hcolon : ":".utf8ByteSize = 1 := by decide
  have hcomma : ",".utf8ByteSize = 1 := by decide
  induction map with
  | nil => exact absurd rfl hne
  | cons entry rest ih =>
      cases rest with
      | nil => simp [writeMembers, entrySize, String.utf8ByteSize_append, hcolon]
      | cons second rest =>
          have hrest := ih (by simp)
          rw [List.map_cons, List.sum_cons, ← hrest]
          simp only [writeMembers, String.utf8ByteSize_append, entrySize]
          omega

/-- A merge needs an object and a JSON value. -/
theorem contextWithReserved_some (codec : Codec) (context key value merged : String)
    (h : contextWithReserved codec context [(key, value)] = some merged) :
    (∃ members, codec.read context = some (.object members)) ∧ (codec.read value).isSome := by
  unfold contextWithReserved readMap at h
  cases hread : codec.read context with
  | none => simp [hread] at h
  | some node =>
      cases node with
      | object members =>
          refine ⟨⟨members, rfl⟩, ?_⟩
          cases hvalue : codec.read value with
          | none => simp [hread, insertReserved, rawFromString, hvalue] at h
          | some inner => rfl
      | _ => simp [hread] at h

/-- Given both it succeeds, and the size adds up. -/
theorem contextWithReserved_size (codec : Codec) (context key value : String)
    (members : List (String × String)) (hread : codec.read context = some (.object members))
    (hvalue : (codec.read value).isSome) :
    ∃ merged, contextWithReserved codec context [(key, value)] = some merged ∧
      merged.utf8ByteSize = mergedSize codec members key value := by
  obtain ⟨horder, hkept⟩ := foldl_insertKey members [] List.Pairwise.nil
  generalize hmap : members.foldl (fun map member => insertKey member.1 member.2 map) [] = map
    at horder hkept
  refine ⟨writeMap codec (insertKey key (Text.trim value) map), ?_, ?_⟩
  · simp [contextWithReserved, readMap, hread, hmap, insertReserved, rawFromString, hvalue]
  · have hentries := insertKey_perm key (Text.trim value) map horder
    have hne : insertKey key (Text.trim value) map ≠ [] := by
      intro hnil
      rw [hnil] at hentries
      exact absurd hentries.symm.eq_nil (by simp)
    have hsize := writeMembers_size codec (insertKey key (Text.trim value) map) hne
    rw [(hentries.map _).sum_nat, List.map_cons, List.sum_cons] at hsize
    have hothers : (map.filter fun entry => entry.1 ≠ key).Perm
        ((lastMembers members).filter fun member => member.1 ≠ key) := by
      simpa using hkept.filter fun entry => entry.1 ≠ key
    rw [(hothers.map _).sum_nat] at hsize
    have hopen : "\x7b".utf8ByteSize = 1 := by decide
    have hclose : "\x7d".utf8ByteSize = 1 := by decide
    simp only [writeMap, String.utf8ByteSize_append, mergedSize]
    omega

/-! ### Limits -/

def parseHeapFactor : Nat := 4

def contextLimitDivisor : Nat := 8

/-- The two limits of the engine configuration a context is subject to. -/
structure EngineConfig where
  memoryLimit : Nat
  maxContextSize : Nat
  deriving DecidableEq

/-- Zero means a limit derived from the memory; any other is checked against
the parse ceiling. -/
def EngineConfig.resolveLimits (config : EngineConfig) : Option EngineConfig :=
  let resolved :=
    if config.maxContextSize = 0 then
      { config with maxContextSize := config.memoryLimit / contextLimitDivisor }
    else config
  if resolved.maxContextSize > resolved.memoryLimit / parseHeapFactor then none
  else some resolved

theorem resolveLimits_ceiling (config resolved : EngineConfig)
    (h : config.resolveLimits = some resolved) :
    resolved.maxContextSize ≤ resolved.memoryLimit / parseHeapFactor := by
  unfold EngineConfig.resolveLimits at h
  simp only at h
  generalize hchosen : (if config.maxContextSize = 0 then
    { config with maxContextSize := config.memoryLimit / contextLimitDivisor }
    else config) = chosen at h
  split at h
  · cases h
  · rename_i hceiling
    cases h
    omega

end Runlet.Contexts
