import Runlet.Lib.JsonNames
import Runlet.Server.Contexts

/-!
The contexts of a batch down to the characters of their JSON (`batch_items.rs`).
A raw value is the text of one value; its object is read member by member with
the names decoded, merged in key order, and written again around the verbatim
texts. What is written is read back as the merged map. A name with half a
surrogate pair is part of a valid text but decodes to no string.
-/

namespace Runlet.RawContexts

open JsonScan JsonText Contexts

/-- A text that is one JSON value. -/
structure RawValue where
  text : String
  valid : IsValue text.toList

/-- The value of a text without the space around it. -/
def rawFromString (text : String) : Option String := (readJson text.toList).map String.ofList

def decodeMember (member : List Char × List Char) : Option (String × String) :=
  (decodeName member.1).map fun name => (name, String.ofList member.2)

/-- The members of an object, with duplicates; none for another value and for a name that
is no string. -/
def fields (text : String) : Option (List (String × String)) :=
  (readObject text.toList).bind fun members => members.mapM decodeMember

def extend (map members : List (String × String)) : List (String × String) :=
  members.foldl (fun map member => insertKey member.1 member.2 map) map

def readMap (text : String) : Option (List (String × String)) := (fields text).map (extend [])

def writeMap (map : List (String × String)) : String :=
  String.ofList <| writeObject <| map.map fun entry => (quote entry.1.toList, entry.2.toList)

def insertReserved : List (String × String) → List (String × String) →
    Option (List (String × String))
  | [], map => some map
  | (key, value) :: rest, map =>
      match rawFromString value with
      | none => none
      | some raw => insertReserved rest (insertKey key raw map)

def contextWithReserved (context : RawValue) (reserved : List (String × String)) :
    Option String :=
  match readMap context.text with
  | none => none
  | some map => (insertReserved reserved map).map writeMap

def buildSharedContext (seed beforeData : Option RawValue) : Option String :=
  match seed, beforeData with
  | none, none => none
  | some seed, none => some seed.text
  | none, some data => some data.text
  | some seed, some data =>
      match readMap seed.text, readMap data.text with
      | some merged, some fresh => some (writeMap (extend merged fresh))
      | _, _ => some data.text

/-- A value is kept as it was given. -/
theorem rawFromString_value (text : String) (h : IsValue text.toList) :
    rawFromString text = some text := by
  unfold rawFromString
  rw [h.readJson, Option.map_some, String.ofList_toList]

/-! ### Members -/

theorem mem_mapM (members : List (List Char × List Char)) (decoded : List (String × String))
    (h : members.mapM decodeMember = some decoded) :
    ∀ entry ∈ decoded, ∃ member ∈ members, decodeMember member = some entry := by
  induction members generalizing decoded with
  | nil =>
      obtain rfl := Option.some.inj h
      exact nofun
  | cons member rest ih =>
      rw [List.mapM_cons] at h
      obtain ⟨entry, hentry, h⟩ := Option.bind_eq_some_iff.mp h
      obtain ⟨others, hothers, h⟩ := Option.bind_eq_some_iff.mp h
      obtain rfl := Option.some.inj h
      intro found hfound
      rcases List.mem_cons.mp hfound with rfl | hfound
      · exact ⟨member, List.mem_cons_self .., hentry⟩
      · obtain ⟨other, hother, hdecoded⟩ := ih others hothers found hfound
        exact ⟨other, List.mem_cons_of_mem _ hother, hdecoded⟩

theorem mapM_eq_none (members : List (List Char × List Char)) :
    members.mapM decodeMember = none ↔ ∃ member ∈ members, decodeName member.1 = none := by
  induction members with
  | nil => exact ⟨nofun, fun ⟨_, hmem, _⟩ => nomatch hmem⟩
  | cons member rest ih =>
      rw [List.mapM_cons, List.exists_mem_cons_iff, ← ih]
      unfold decodeMember
      cases hname : decodeName member.1 with
      | none => exact ⟨fun _ => .inl rfl, fun _ => rfl⟩
      | some name =>
          rw [Option.map_some, Option.bind_eq_bind, Option.bind_some]
          cases hrest : rest.mapM decodeMember with
          | none =>
              unfold decodeMember at hrest
              rw [hrest]
              exact ⟨fun _ => .inr rfl, fun _ => rfl⟩
          | some others =>
              unfold decodeMember at hrest
              rw [hrest]
              exact ⟨nofun, fun h => h.elim nofun nofun⟩

/-- The values of an object are values. -/
theorem fields_value (text : String) (members : List (String × String))
    (h : fields text = some members) : ∀ entry ∈ members, IsValue entry.2.toList := by
  obtain ⟨raw, hraw, hdecoded⟩ := Option.bind_eq_some_iff.mp h
  intro entry hentry
  obtain ⟨member, hmember, hmap⟩ := mem_mapM raw members hdecoded entry hentry
  obtain ⟨name, -, rfl⟩ := Option.map_eq_some_iff.mp hmap
  dsimp only
  rw [String.toList_ofList]
  exact (readObject_isMember _ raw hraw member hmember).value

/-- A map that was written is read back. -/
theorem fields_writeMap (map : List (String × String))
    (hvalues : ∀ entry ∈ map, IsValue entry.2.toList) : fields (writeMap map) = some map := by
  have hmembers : ∀ member ∈ map.map fun entry => (quote entry.1.toList, entry.2.toList),
      IsMember member := by
    intro member hmember
    obtain ⟨entry, hentry, rfl⟩ := List.mem_map.mp hmember
    exact isMember_quote _ _ (hvalues entry hentry)
  have hdecode : (map.map fun entry => (quote entry.1.toList, entry.2.toList)).mapM decodeMember =
      some map := by
    clear hmembers hvalues
    induction map with
    | nil => rfl
    | cons entry rest ih =>
        have hentry : decodeMember (quote entry.1.toList, entry.2.toList) = some entry := by
          unfold decodeMember
          rw [decodeName_quote, Option.map_some, String.ofList_toList]
        rw [List.map_cons, List.mapM_cons, hentry, ih]
        rfl
  unfold fields writeMap
  rw [String.toList_ofList, readObject_write _ hmembers, Option.bind_some, hdecode]

/-! ### Keys -/

theorem lookup_cons (entry : String × String) (rest : List (String × String)) (key : String) :
    (entry :: rest).lookup key = if key = entry.1 then some entry.2 else rest.lookup key := by
  rw [List.lookup_cons]
  by_cases hkey : key = entry.1
  · rw [if_pos hkey, beq_iff_eq.mpr hkey]
  · rw [if_neg hkey, beq_eq_false_iff_ne.mpr hkey]

theorem lookup_insertKey (key value : String) (map : List (String × String)) (other : String) :
    (insertKey key value map).lookup other =
      if other = key then some value else map.lookup other := by
  induction map with
  | nil => exact lookup_cons (key, value) [] other
  | cons entry rest ih =>
      obtain ⟨name, kept⟩ := entry
      unfold insertKey
      split
      · rename_i hsame
        rw [lookup_cons, lookup_cons, hsame]
        split
        · rfl
        · rfl
      · rename_i hne
        split
        · exact lookup_cons (key, value) _ other
        · rw [lookup_cons, ih, lookup_cons]
          dsimp only
          by_cases hname : other = name
          · have hother : other ≠ key := fun heq => hne (heq.symm.trans hname)
            rw [if_pos hname, if_neg hother, if_pos hname]
          · rw [if_neg hname, if_neg hname]

theorem lastMember_cons (member : String × String) (rest : List (String × String)) (key : String) :
    lastMember (member :: rest) key =
      (lastMember rest key).or (if key = member.1 then some member.2 else none) := by
  unfold lastMember occurrences
  by_cases hkey : key = member.1
  · rw [if_pos hkey, List.filter_cons, if_pos (decide_eq_true hkey.symm), List.map_cons,
      List.getLast?_cons, Option.or_some]
  · have hne : ¬member.1 = key := fun heq => hkey heq.symm
    rw [if_neg hkey, List.filter_cons, if_neg (by rwa [decide_eq_true_eq]), Option.or_none]

/-- Of several members of one key the last is kept, and a key without one stays as it was. -/
theorem lookup_extend (map members : List (String × String)) (key : String) :
    (extend map members).lookup key = (lastMember members key).or (map.lookup key) := by
  unfold extend
  induction members generalizing map with
  | nil => rfl
  | cons member rest ih =>
      rw [List.foldl_cons, ih, lookup_insertKey, lastMember_cons, Option.or_assoc]
      congr 1
      split
      · rfl
      · rfl

theorem extend_order (map members : List (String × String)) (hmap : InKeyOrder map) :
    InKeyOrder (extend map members) := (foldl_insertKey members map hmap).1

theorem keys_nodup {map : List (String × String)} (hmap : InKeyOrder map) :
    (map.map Prod.fst).Nodup := by
  apply List.pairwise_map.mpr
  exact hmap.imp fun hlt => String.ne_of_lt hlt

/-- A map has one member of a key, which is the last. -/
theorem lastMember_map (map : List (String × String)) (hmap : (map.map Prod.fst).Nodup)
    (key : String) : lastMember map key = map.lookup key := by
  induction map with
  | nil => rfl
  | cons entry rest ih =>
      obtain ⟨hfresh, hrest⟩ := List.nodup_cons.mp hmap
      rw [lastMember_cons, lookup_cons, ih hrest]
      split
      · rename_i hkey
        have hnone : rest.lookup key = none := by
          apply List.lookup_eq_none_iff.mpr
          intro other hother
          rw [bne_iff_ne]
          rintro rfl
          exact hfresh (hkey ▸ List.mem_map_of_mem hother)
        rw [hnone, Option.none_or]
      · exact Option.or_none

/-- Values stay the texts they were. -/
theorem mem_insertKey (key value : String) (map : List (String × String))
    (entry : String × String) (h : entry ∈ insertKey key value map) :
    entry = (key, value) ∨ entry ∈ map := by
  induction map with
  | nil => exact .inl (List.mem_singleton.mp h)
  | cons head rest ih =>
      obtain ⟨name, kept⟩ := head
      unfold insertKey at h
      split at h
      · rcases List.mem_cons.mp h with h | h
        · exact .inl h
        · exact .inr (List.mem_cons_of_mem _ h)
      · split at h
        · exact List.mem_cons.mp h
        · rcases List.mem_cons.mp h with h | h
          · exact .inr (h ▸ List.mem_cons_self ..)
          · exact (ih h).imp_right (List.mem_cons_of_mem _)

theorem extend_values (map members : List (String × String))
    (hmap : ∀ entry ∈ map, IsValue entry.2.toList)
    (hmembers : ∀ entry ∈ members, IsValue entry.2.toList) :
    ∀ entry ∈ extend map members, IsValue entry.2.toList := by
  unfold extend
  induction members generalizing map with
  | nil => exact hmap
  | cons member rest ih =>
      obtain ⟨hmember, hrest⟩ := List.forall_mem_cons.mp hmembers
      apply ih _ _ hrest
      intro entry hentry
      rcases mem_insertKey _ _ _ entry hentry with rfl | hold
      · exact hmember
      · exact hmap entry hold

/-! ### The laws -/

/-- A text that is an object with each key once and with the value given for it, and with
no other keys. -/
def ObjectOf (text : String) (value : String → Option String) : Prop :=
  ∃ map, fields text = some map ∧ (map.map Prod.fst).Nodup ∧ ∀ key, map.lookup key = value key

/-- A raw value that starts with a brace. -/
def RawValue.isObject (value : RawValue) : Prop := value.text.toList.head? = some '\x7b'

/-- An object with a name that has half a surrogate pair. -/
def RawValue.HasBrokenName (value : RawValue) : Prop :=
  ∃ members, readObject value.text.toList = some members ∧
    ∃ member ∈ members, decodeName member.1 = none

theorem fields_eq_none (value : RawValue) :
    fields value.text = none ↔ ¬value.isObject ∨ value.HasBrokenName := by
  unfold fields RawValue.isObject RawValue.HasBrokenName
  cases hraw : readObject value.text.toList with
  | none =>
      refine ⟨fun _ => .inl ?_, fun _ => rfl⟩
      intro hbrace
      obtain ⟨members, hmembers⟩ := value.valid.object hbrace
      rw [hraw] at hmembers
      cases hmembers
  | some members =>
      have hbrace : value.text.toList.head? = some '\x7b' := by
        have hhead := readObject_head _ members hraw
        obtain ⟨c, tail, htext, hspace⟩ := value.valid.head
        rw [htext, skipSpace_cons c tail hspace] at hhead
        rwa [htext]
      rw [Option.bind_some, mapM_eq_none]
      constructor
      · exact fun hbroken => .inr ⟨members, rfl, hbroken⟩
      · rintro (hno | ⟨found, hfound, hbroken⟩)
        · exact absurd hbrace hno
        · rwa [Option.some.inj hfound]

theorem rawFromString_isValue (text raw : String) (h : rawFromString text = some raw) :
    IsValue raw.toList := by
  obtain ⟨chars, hchars, rfl⟩ := Option.map_eq_some_iff.mp h
  rw [String.toList_ofList]
  exact readJson_isValue _ chars hchars

theorem insertReserved_some (reserved map : List (String × String))
    (hreserved : ∀ entry ∈ reserved, (rawFromString entry.2).isSome = true)
    (hmap : InKeyOrder map) (hvalues : ∀ entry ∈ map, IsValue entry.2.toList) :
    ∃ merged, insertReserved reserved map = some merged ∧ InKeyOrder merged ∧
      (∀ entry ∈ merged, IsValue entry.2.toList) ∧
      ∀ key, merged.lookup key =
        ((lastMember reserved key).bind rawFromString).or (map.lookup key) := by
  induction reserved generalizing map with
  | nil => exact ⟨map, rfl, hmap, hvalues, fun _ => rfl⟩
  | cons entry rest ih =>
      obtain ⟨key, value⟩ := entry
      obtain ⟨hentry, hrest⟩ := List.forall_mem_cons.mp hreserved
      obtain ⟨raw, hraw⟩ := Option.isSome_iff_exists.mp hentry
      have hisValue := rawFromString_isValue value raw hraw
      obtain ⟨merged, hmerged, horder, hall, hlookup⟩ := ih (insertKey key raw map) hrest
        (insertKey_order key raw map hmap) (by
          intro found hfound
          rcases mem_insertKey _ _ _ found hfound with rfl | hold
          · exact hisValue
          · exact hvalues found hold)
      refine ⟨merged, ?_, horder, hall, ?_⟩
      · unfold insertReserved
        rw [hraw]
        exact hmerged
      · intro other
        rw [hlookup, lookup_insertKey, lastMember_cons]
        cases hlast : lastMember rest other with
        | some text =>
            have hmem : (other, text) ∈ rest := by
              apply mem_of_mem_occurrences
              exact List.mem_of_getLast? hlast
            obtain ⟨found, hfound⟩ := Option.isSome_iff_exists.mp (hrest _ hmem)
            rw [Option.bind_some, Option.some_or, Option.bind_some, hfound]
            rfl
        | none =>
            rw [Option.bind_none, Option.none_or, Option.none_or]
            split
            · rw [Option.bind_some, hraw]
              rfl
            · rfl

/-- The reserved keys win, whatever the context says. -/
structure ReservedLaw (context : RawValue) (reserved : List (String × String)) : Prop where
  refused : contextWithReserved context reserved = none ↔
    ¬context.isObject ∨ context.HasBrokenName
  merged : ∀ members, fields context.text = some members →
    ∃ text, contextWithReserved context reserved = some text ∧
      ObjectOf text fun key =>
        ((lastMember reserved key).bind rawFromString).or (lastMember members key)
  exact : ∀ entry ∈ reserved, IsValue entry.2.toList → rawFromString entry.2 = some entry.2

theorem reservedLaw (context : RawValue) (reserved : List (String × String))
    (hreserved : ∀ entry ∈ reserved, (rawFromString entry.2).isSome = true) :
    ReservedLaw context reserved := by
  have hmerged (members : List (String × String)) (hfields : fields context.text = some members) :
      ∃ text, contextWithReserved context reserved = some text ∧
        ObjectOf text fun key =>
          ((lastMember reserved key).bind rawFromString).or (lastMember members key) := by
    have hempty : ∀ entry ∈ ([] : List (String × String)), IsValue entry.2.toList := nofun
    obtain ⟨map, hmap, horder, hvalues, hlookup⟩ := insertReserved_some reserved
      (extend [] members) hreserved (extend_order [] members List.Pairwise.nil)
      (extend_values [] members hempty (fields_value _ members hfields))
    refine ⟨writeMap map, ?_, map, fields_writeMap map hvalues, keys_nodup horder, ?_⟩
    · unfold contextWithReserved readMap
      rw [hfields, Option.map_some]
      dsimp only
      rw [hmap]
      rfl
    · intro key
      rw [hlookup, lookup_extend, List.lookup_nil, Option.or_none]
  refine ⟨?_, hmerged, fun entry _ hvalue => rawFromString_value entry.2 hvalue⟩
  rw [← fields_eq_none]
  cases hfields : fields context.text with
  | none =>
      refine ⟨fun _ => rfl, fun _ => ?_⟩
      unfold contextWithReserved readMap
      rw [hfields]
      rfl
  | some members =>
      obtain ⟨text, htext, -⟩ := hmerged members hfields
      rw [htext]
      exact ⟨nofun, nofun⟩

/-- The data of `before` wins over the seed, key by key where both are objects. -/
structure SharedLaw (seed data : RawValue) : Prop where
  neither : buildSharedContext none none = none
  seed_only : buildSharedContext (some seed) none = some seed.text
  data_only : buildSharedContext none (some data) = some data.text
  merged : ∀ seeds fresh, fields seed.text = some seeds → fields data.text = some fresh →
    ∃ text, buildSharedContext (some seed) (some data) = some text ∧
      ObjectOf text fun key => (lastMember fresh key).or (lastMember seeds key)
  verbatim : ¬seed.isObject ∨ seed.HasBrokenName ∨ ¬data.isObject ∨ data.HasBrokenName →
    buildSharedContext (some seed) (some data) = some data.text

theorem sharedLaw (seed data : RawValue) : SharedLaw seed data := by
  refine ⟨rfl, rfl, rfl, ?_, ?_⟩
  · intro seeds fresh hseeds hfresh
    have hempty : ∀ entry ∈ ([] : List (String × String)), IsValue entry.2.toList := nofun
    have hseedMap := extend_order [] seeds List.Pairwise.nil
    have hfreshMap := extend_order [] fresh List.Pairwise.nil
    have hvalues := extend_values (extend [] seeds) (extend [] fresh)
      (extend_values [] seeds hempty (fields_value _ seeds hseeds))
      (extend_values [] fresh hempty (fields_value _ fresh hfresh))
    refine ⟨writeMap (extend (extend [] seeds) (extend [] fresh)), ?_, _,
      fields_writeMap _ hvalues, keys_nodup (extend_order _ _ hseedMap), ?_⟩
    · unfold buildSharedContext readMap
      dsimp only
      rw [hseeds, hfresh]
      rfl
    · intro key
      rw [lookup_extend, lastMember_map _ (keys_nodup hfreshMap), lookup_extend, lookup_extend,
        List.lookup_nil, Option.or_none, Option.or_none]
  · intro hother
    have hnone : fields seed.text = none ∨ fields data.text = none := by
      rw [fields_eq_none, fields_eq_none]
      exact or_assoc.mpr hother
    unfold buildSharedContext readMap
    dsimp only
    rcases hnone with hnone | hnone
    · rw [hnone]
      rfl
    · rw [hnone]
      cases (fields seed.text).map (extend []) <;> rfl

/-- Reserved keys and `before`'s data win in every merge of objects; a value is no object for
a merge if it starts with no brace or has a name that is no string. -/
theorem contexts_law (context : RawValue) (reserved : List (String × String))
    (hreserved : ∀ entry ∈ reserved, (rawFromString entry.2).isSome = true)
    (seed data : RawValue) : ReservedLaw context reserved ∧ SharedLaw seed data :=
  ⟨reservedLaw context reserved hreserved, sharedLaw seed data⟩

/-! ### The codec of a model over opaque texts -/

theorem writeMembers_codec (codec : Codec)
    (hquote : ∀ name : String, codec.quote name = String.ofList (quote name.toList))
    (map : List (String × String)) :
    (Contexts.writeMembers codec map).toList =
      JsonScan.writeMembers (map.map fun entry => (quote entry.1.toList, entry.2.toList)) := by
  induction map with
  | nil => rfl
  | cons entry rest ih =>
      have hcolon : ":".toList = [':'] := rfl
      have hcomma : ",".toList = [','] := rfl
      cases rest with
      | nil =>
          unfold Contexts.writeMembers
          rw [String.toList_append, String.toList_append, hquote, String.toList_ofList, hcolon,
            List.append_assoc]
          rfl
      | cons next rest =>
          unfold Contexts.writeMembers
          rw [String.toList_append, String.toList_append, String.toList_append,
            String.toList_append, hquote, String.toList_ofList, hcolon, hcomma, ih]
          simp only [List.map_cons, writeMembers_cons, List.append_assoc, List.cons_append,
            List.nil_append]

theorem writeMap_codec (codec : Codec)
    (hquote : ∀ name : String, codec.quote name = String.ofList (quote name.toList))
    (map : List (String × String)) : Contexts.writeMap codec map = writeMap map := by
  apply String.toList_inj.mp
  have hopen : "\x7b".toList = ['\x7b'] := rfl
  have hclose : "\x7d".toList = ['\x7d'] := rfl
  unfold Contexts.writeMap writeMap writeObject
  rw [String.toList_append, String.toList_append, writeMembers_codec codec hquote, hopen, hclose,
    String.toList_ofList]
  rfl

theorem insertReserved_codec (codec : Codec) (reserved map : List (String × String))
    (hraw : ∀ entry ∈ reserved,
      Contexts.rawFromString codec.toReader entry.2 = rawFromString entry.2) :
    Contexts.insertReserved codec.toReader reserved map = insertReserved reserved map := by
  induction reserved generalizing map with
  | nil => rfl
  | cons entry rest ih =>
      obtain ⟨key, value⟩ := entry
      obtain ⟨hentry, hrest⟩ := List.forall_mem_cons.mp hraw
      unfold Contexts.insertReserved insertReserved
      rw [hentry]
      cases rawFromString value with
      | none => rfl
      | some raw => exact ih _ hrest

/-- With a codec that reads and quotes the texts at hand as they are read and quoted here,
both models build the same context. -/
theorem contextWithReserved_codec (codec : Codec) (context : RawValue)
    (reserved members : List (String × String)) (hfields : fields context.text = some members)
    (hread : codec.read context.text = some (.object members))
    (hraw : ∀ entry ∈ reserved,
      Contexts.rawFromString codec.toReader entry.2 = rawFromString entry.2)
    (hquote : ∀ name : String, codec.quote name = String.ofList (quote name.toList)) :
    Contexts.contextWithReserved codec context.text reserved =
      contextWithReserved context reserved := by
  unfold Contexts.contextWithReserved contextWithReserved Contexts.readMap readMap
  rw [hread, hfields, Option.map_some]
  dsimp only
  rw [insertReserved_codec codec reserved _ hraw]
  exact congrArg (Option.map · _) (funext (writeMap_codec codec hquote))

/-- `{"shared":0,"a":1,"a":2}`. -/
theorem claimed_valid : IsValue "\x7b\"shared\":0,\"a\":1,\"a\":2\x7d".toList := by decide

def claimed : RawValue := ⟨_, claimed_valid⟩

theorem contexts_claimed :
    ReservedLaw claimed [("shared", "[1]")] ∧ SharedLaw claimed claimed :=
  contexts_law claimed [("shared", "[1]")]
    (List.forall_mem_singleton.mpr (by decide)) claimed claimed

/-- `{"\ud800":1}`. -/
theorem broken_valid : IsValue "\x7b\"\\ud800\":1\x7d".toList := by decide

def broken : RawValue := ⟨_, broken_valid⟩

/-- An object with a name that is no string is refused like a value that is no object. -/
theorem contexts_broken :
    broken.isObject ∧ (readObject broken.text.toList).isSome = true ∧
      contextWithReserved broken [] = none ∧
      buildSharedContext (some claimed) (some broken) = some broken.text := by
  refine ⟨rfl, by decide, by decide, ?_⟩
  apply (sharedLaw claimed broken).verbatim
  have hnone : fields broken.text = none := by decide
  exact .inr (.inr ((fields_eq_none broken).mp hnone))

end Runlet.RawContexts
