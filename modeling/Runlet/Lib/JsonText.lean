import Runlet.Lib.Text

/-!
JSON texts read one level at a time. A node is what a parser sees at the top
of a text; the values inside it stay the texts they were written as. A struct
with optional fields is read from an object by name, where a field given twice
is an error and unknown members are skipped, and from an array by position,
where missing trailing elements take the default and extra ones are an error.
-/

namespace Runlet.JsonText

inductive Node where
  | null
  | bool (value : Bool)
  | number (literal : String)
  | string (value : String)
  | array (items : List String)
  | object (members : List (String × String))
  deriving DecidableEq

/-- The top level of a JSON text; `none` for a text that is not JSON. The only
spelling of null is the word itself, and what stands inside a JSON text is
JSON again. -/
structure Reader where
  read : String → Option Node
  /-- The parser's message about a text it refuses. -/
  describe : String → String
  null_read : read "null" = some .null
  null_iff : ∀ text, (read text).isSome →
    (read text = some .null ↔ Text.trim text = "null")
  items_read : ∀ text items, read text = some (.array items) →
    ∀ item ∈ items, (read item).isSome
  members_read : ∀ text members, read text = some (.object members) →
    ∀ member ∈ members, (read member.2).isSome

/-- The texts of the members of one name, in order. -/
def occurrences (members : List (String × String)) (name : String) : List String :=
  (members.filter fun member => member.1 = name).map Prod.snd

/-- An optional field of a struct, read from an object: absent, present once,
or the error of a duplicate. -/
def fieldText (members : List (String × String)) (name : String) : Option (Option String) :=
  match occurrences members name with
  | [] => some none
  | [text] => some (some text)
  | _ => none

/-- The texts of the named fields of a struct whose fields all have defaults. -/
def structTexts (reader : Reader) (names : List String) (text : String) :
    Option (List (Option String)) :=
  match reader.read text with
  | some (.object members) => names.mapM (fieldText members)
  | some (.array items) =>
      if items.length ≤ names.length then
        some ((List.range names.length).map fun index => items[index]?)
      else none
  | _ => none

/-- The member a reader of the whole object would keep: the last of its name. -/
def lastMember (members : List (String × String)) (name : String) : Option String :=
  (occurrences members name).getLast?

theorem mem_of_mem_occurrences (members : List (String × String)) (name text : String)
    (h : text ∈ occurrences members name) : (name, text) ∈ members := by
  obtain ⟨member, hmember, rfl⟩ := List.mem_map.mp h
  obtain ⟨hmem, hname⟩ := List.mem_filter.mp hmember
  have heq : member.1 = name := by simpa using hname
  rw [← heq]
  exact hmem

def tableRead (table : List (String × Node)) (text : String) : Option Node :=
  if Text.trim text = "null" then some .null else table.lookup text

/-- No entry is null, and every text inside an entry can be read. -/
def closedTable (table : List (String × Node)) : Bool :=
  table.all fun entry =>
    match entry.2 with
    | .null => false
    | .array items => items.all fun item => (tableRead table item).isSome
    | .object members => members.all fun member => (tableRead table member.2).isSome
    | _ => true

theorem tableRead_mem (table : List (String × Node)) (text : String) (node : Node)
    (hnode : node ≠ .null) (h : tableRead table text = some node) :
    ∃ entry ∈ table, entry.2 = node := by
  unfold tableRead at h
  split at h
  · cases h
    exact absurd rfl hnode
  · obtain ⟨before, after, hsplit, -⟩ := List.lookup_eq_some_iff.mp h
    exact ⟨(text, node), by simp [hsplit], rfl⟩

/-- The reader that knows the texts of a table and the word null. -/
def Reader.ofTable (table : List (String × Node)) (hclosed : closedTable table = true) :
    Reader where
  read := tableRead table
  describe := fun _ => "invalid type"
  null_read := by
    have htrim : Text.trim "null" = "null" := by decide +kernel
    simp [tableRead, htrim]
  null_iff := by
    intro text _
    constructor
    · intro hnull
      unfold tableRead at hnull
      split at hnull
      · assumption
      · obtain ⟨before, after, hsplit, -⟩ := List.lookup_eq_some_iff.mp hnull
        have hentry := List.all_eq_true.mp hclosed (text, .null) (by simp [hsplit])
        simp at hentry
    · intro htrim
      simp [tableRead, htrim]
  items_read := by
    intro text items hread item hitem
    obtain ⟨entry, hentry, hnode⟩ := tableRead_mem table text (.array items) (by simp) hread
    have hall := List.all_eq_true.mp hclosed entry hentry
    rw [hnode] at hall
    exact List.all_eq_true.mp hall item hitem
  members_read := by
    intro text members hread member hmember
    obtain ⟨entry, hentry, hnode⟩ :=
      tableRead_mem table text (.object members) (by simp) hread
    have hall := List.all_eq_true.mp hclosed entry hentry
    rw [hnode] at hall
    exact List.all_eq_true.mp hall member hmember

end Runlet.JsonText
