import Mathlib.Algebra.Ring.Nat
import Mathlib.Data.List.Forall2
import Runlet.Lib.XmlText
import Runlet.Core.S3Requests

/-!
A page of a `ListObjectsV2` listing and what `fetch_list_page` reads of it. A
page is marked-up text with one `<Size>` for every object, at most one token for
the next page, and any other tags and texts, keys among them; what is text is
escaped. The scanner finds every size; the token it reads is the escaped text,
trimmed.
-/

namespace Runlet.S3

open Text Errors Capability XmlText

def sizeTag : Tag := ⟨"Size".toList, plain_of_all _ (by decide)⟩

def sizeEnd : Tag := ⟨"/Size".toList, plain_of_all _ (by decide)⟩

def tokenTag : Tag := ⟨"NextContinuationToken".toList, plain_of_all _ (by decide)⟩

def tokenEnd : Tag := ⟨"/NextContinuationToken".toList, plain_of_all _ (by decide)⟩

/-- What a page is made of. -/
inductive Entry where
  | size (value : Nat)
  | token (content : String)
  | text (content : String)
  | tag (mark : Tag) (other : mark.body ≠ sizeTag.body ∧ mark.body ≠ tokenTag.body)

def Entry.nodes : Entry → List Node
  | .size value => [.tag sizeTag, .text (toString value), .tag sizeEnd]
  | .token content => [.tag tokenTag, .text content, .tag tokenEnd]
  | .text content => [.text content]
  | .tag mark _ => [.tag mark]

def Entry.size? : Entry → Option Nat
  | .size value => some value
  | _ => none

def Entry.token? : Entry → Option String
  | .token content => some content
  | _ => none

structure ListPage where
  entries : List Entry
  single : (entries.filterMap Entry.token?).length ≤ 1

/-- The sizes of the objects on a page. -/
def ListPage.sizes (page : ListPage) : List Nat := page.entries.filterMap Entry.size?

/-- The token the store issues with a page. -/
def ListPage.token (page : ListPage) : Option String :=
  (page.entries.filterMap Entry.token?).head?

def ListPage.body (escaping : Escaping) (page : ListPage) : String :=
  String.ofList (render escaping (page.entries.flatMap Entry.nodes))

/-! ### Reading a page -/

def maxU64 : Nat := 18446744073709551615

theorem toString_chars (value : Nat) : (toString value).toList = Nat.toDigits 10 value := by
  rw [Nat.toString_eq_ofList_toDigits, String.toList_ofList]

theorem digit_not_space (c : Char) (hdigit : c.isDigit = true) : isWhitespace c = false := by
  simp only [Char.isDigit, Bool.and_eq_true, decide_eq_true_eq] at hdigit
  have hlow : 48 ≤ c.toNat := UInt32.le_iff_toNat_le.mp hdigit.1
  have hhigh : c.toNat ≤ 57 := UInt32.le_iff_toNat_le.mp hdigit.2
  rw [Bool.eq_false_iff]
  intro hspace
  simp only [isWhitespace, Bool.or_eq_true, Bool.and_eq_true, decide_eq_true_eq,
    beq_iff_eq] at hspace
  omega

theorem trim_toString (escaping : Escaping) (value : Nat) :
    trimChars (escaping.text (toString value)) = (toString value).toList := by
  have hdigits : ∀ c ∈ (toString value).toList, c.isDigit = true := by
    intro c hc
    rw [toString_chars] at hc
    exact Nat.isDigit_of_mem_toDigits (by decide) (by decide) hc
  have hkept : escaping.Kept (toString value) := fun c hc => escaping.digits c (hdigits c hc)
  rw [escaping.text_kept _ hkept]
  apply trimChars_eq_self
  · intro c hc
    exact digit_not_space c (hdigits c (List.mem_of_mem_head? hc))
  · intro c hc
    exact digit_not_space c (hdigits c (List.mem_of_mem_getLast? hc))

theorem parseUnsigned_toString (value : Nat) :
    parseUnsigned maxU64 (toString value) = if value ≤ maxU64 then some value else none := by
  have hplus : ∀ rest, Nat.toDigits 10 value ≠ '+' :: rest := by
    intro rest heq
    have hdigit := Nat.isDigit_of_mem_toDigits (b := 10) (n := value) (c := '+') (by decide)
      (by decide) (by rw [heq]; exact List.mem_cons_self)
    exact absurd hdigit (by decide)
  unfold parseUnsigned
  rw [toString_chars]
  simp only [Nat.toDigits_ne_nil, if_false, parseDigits_toDigits]

/-- A segment that starts with the number of an object. -/
def ReadsAs (segment : String) (value : Nat) : Prop :=
  trim ((splitStr "</Size>" segment).head?.getD "") = toString value

theorem sumSegments_cons (segment : String) (rest : List String) (value total count : Nat)
    (hread : ReadsAs segment value) :
    sumSegments (segment :: rest) total count =
      if value ≤ maxU64 then
        if total + value > maxU64 then .error "size sum overflow"
        else if count + 1 > maxU64 then .error "object count overflow"
        else sumSegments rest (total + value) (count + 1)
      else .error ("malformed S3 <Size> value: " ++ toString value) := by
  have hparse := parseUnsigned_toString value
  unfold ReadsAs at hread
  conv_lhs => unfold sumSegments
  rw [hread]
  dsimp only
  change parseUnsigned 18446744073709551615 (toString value) = _ at hparse
  rw [hparse]
  split
  · rename_i hvalue
    split at hvalue
    · cases hvalue
    · rename_i hlarge
      rw [if_neg hlarge]
  · rename_i parsed hvalue
    split at hvalue
    · rename_i hfits
      cases hvalue
      rw [if_pos hfits]
      rfl
    · cases hvalue

/-- The sizes are added up as long as the sums fit. -/
theorem sumSegments_ok (segments : List String) (values : List Nat)
    (hread : List.Forall₂ ReadsAs segments values) (total count : Nat)
    (htotal : total + values.sum ≤ maxU64) (hcount : count + values.length ≤ maxU64) :
    sumSegments segments total count = .ok (total + values.sum, count + values.length) := by
  induction hread generalizing total count with
  | nil => rfl
  | @cons segment value segments values hfirst _ ih =>
      rw [List.sum_cons] at htotal ⊢
      rw [List.length_cons] at hcount ⊢
      rw [sumSegments_cons segment segments value total count hfirst, if_pos (by omega),
        if_neg (by omega), if_neg (by omega), ih (total + value) (count + 1) (by omega) (by omega)]
      rw [Nat.add_assoc, Nat.add_assoc, Nat.add_comm 1]

/-- And not further. -/
theorem sumSegments_error (segments : List String) (values : List Nat)
    (hread : List.Forall₂ ReadsAs segments values) (total count : Nat)
    (htotal : total ≤ maxU64) (hcount : count ≤ maxU64)
    (hover : ¬ (total + values.sum ≤ maxU64 ∧ count + values.length ≤ maxU64)) :
    ∃ err, sumSegments segments total count = .error err := by
  induction hread generalizing total count with
  | nil => exact absurd ⟨htotal, hcount⟩ hover
  | @cons segment value segments values hfirst _ ih =>
      rw [List.sum_cons, List.length_cons] at hover
      rw [sumSegments_cons segment segments value total count hfirst]
      split
      · split
        · exact ⟨_, rfl⟩
        · split
          · exact ⟨_, rfl⟩
          · apply ih
            · omega
            · omega
            · rintro ⟨hsum, hlength⟩
              exact hover ⟨by omega, by omega⟩
      · exact ⟨_, rfl⟩

theorem entries_sizes (entries : List Entry) :
    ∃ first others, splitTag sizeTag (entries.flatMap Entry.nodes) = first :: others ∧
      List.Forall₂ (Opens sizeEnd) others
        (entries.filterMap fun entry => entry.size?.map toString) := by
  apply splitTag_elements sizeTag sizeEnd (by decide)
  · intro entry text htext
    cases entry with
    | size value =>
        cases htext
        rfl
    | token content => cases htext
    | text content => cases htext
    | tag mark other => cases htext
  · intro entry hnone
    cases entry with
    | size value => cases hnone
    | token content =>
        intro node hnode
        simp only [Entry.nodes, List.mem_cons, List.not_mem_nil, or_false] at hnode
        rcases hnode with rfl | rfl | rfl
        · decide
        · rfl
        · decide
    | text content => simp [Entry.nodes, Node.isTag]
    | tag mark other => simpa [Entry.nodes, Node.isTag] using other.1

theorem entries_tokens (entries : List Entry) :
    ∃ first others, splitTag tokenTag (entries.flatMap Entry.nodes) = first :: others ∧
      List.Forall₂ (Opens tokenEnd) others (entries.filterMap Entry.token?) := by
  apply splitTag_elements tokenTag tokenEnd (by decide)
  · intro entry text htext
    cases entry with
    | size value => cases htext
    | token content =>
        cases htext
        rfl
    | text content => cases htext
    | tag mark other => cases htext
  · intro entry hnone
    cases entry with
    | size value =>
        intro node hnode
        simp only [Entry.nodes, List.mem_cons, List.not_mem_nil, or_false] at hnode
        rcases hnode with rfl | rfl | rfl
        · decide
        · rfl
        · decide
    | token content => cases hnone
    | text content => simp [Entry.nodes, Node.isTag]
    | tag mark other => simpa [Entry.nodes, Node.isTag] using other.2

theorem splitStr_body (escaping : Escaping) (page : ListPage) (tag : Tag) (text : String)
    (htext : text.toList = tag.chars) :
    splitStr text (page.body escaping) =
      (splitTag tag (page.entries.flatMap Entry.nodes)).map fun nodes =>
        String.ofList (render escaping nodes) := by
  rw [splitStr, htext, ListPage.body, String.toList_ofList, splitStrChars_render, List.map_map]
  rfl

/-- What is read of an element: its text, escaped and trimmed. -/
theorem opens_trimmed {closing : Tag} {nodes : List Node} {content : String}
    (hopens : Opens closing nodes content) (escaping : Escaping) (text : String)
    (htext : text.toList = closing.chars) :
    trim ((splitStr text (String.ofList (render escaping nodes))).head?.getD "") =
      String.ofList (trimChars (escaping.text content)) := by
  have hhead := hopens.text escaping
  rw [splitStr, htext, String.toList_ofList, List.head?_map, hhead]
  simp [trim]

/-- The sum of the sizes of a page and their number. -/
theorem sumSizes_page (escaping : Escaping) (page : ListPage) :
    (page.sizes.sum ≤ maxU64 ∧ page.sizes.length ≤ maxU64 →
      sumSizes (page.body escaping) = .ok (page.sizes.sum, page.sizes.length)) ∧
    (¬ (page.sizes.sum ≤ maxU64 ∧ page.sizes.length ≤ maxU64) →
      ∃ err, sumSizes (page.body escaping) = .error err) := by
  obtain ⟨first, others, hsplit, hothers⟩ := entries_sizes page.entries
  have hchars : "<Size>".toList = sizeTag.chars := by decide
  have hend : "</Size>".toList = sizeEnd.chars := by decide
  have hsizes : (page.entries.filterMap fun entry => entry.size?.map toString) =
      page.sizes.map toString := by
    rw [ListPage.sizes, List.map_filterMap]
  rw [hsizes, List.forall₂_map_right_iff] at hothers
  have hread : List.Forall₂ ReadsAs
      (others.map fun nodes => String.ofList (render escaping nodes)) page.sizes := by
    rw [List.forall₂_map_left_iff]
    apply hothers.imp
    intro nodes value hopens
    have htrim := opens_trimmed hopens escaping "</Size>" hend
    rw [trim_toString, String.ofList_toList] at htrim
    exact htrim
  have hsegments : sumSizes (page.body escaping) =
      sumSegments (others.map fun nodes => String.ofList (render escaping nodes)) 0 0 := by
    rw [sumSizes, splitStr_body escaping page sizeTag "<Size>" hchars, hsplit, List.map_cons,
      List.drop_succ_cons, List.drop_zero]
  rw [hsegments]
  constructor
  · rintro ⟨hsum, hlength⟩
    have hok := sumSegments_ok _ _ hread 0 0 (by omega) (by omega)
    rw [hok, Nat.zero_add, Nat.zero_add]
  · intro hover
    apply sumSegments_error _ _ hread 0 0 (Nat.zero_le _) (Nat.zero_le _)
    simpa using hover

/-- The token a page is read with. -/
def readToken (escaping : Escaping) (page : ListPage) : Option String :=
  (page.token.map fun token => String.ofList (trimChars (escaping.text token))).filter (· ≠ "")

theorem extractTag_page (escaping : Escaping) (page : ListPage) :
    (extractTag (page.body escaping) "<NextContinuationToken>" "</NextContinuationToken>").filter
      (· ≠ "") = readToken escaping page := by
  obtain ⟨first, others, hsplit, hothers⟩ := entries_tokens page.entries
  have hchars : "<NextContinuationToken>".toList = tokenTag.chars := by decide
  have hend : "</NextContinuationToken>".toList = tokenEnd.chars := by decide
  rw [extractTag, splitStr_body escaping page tokenTag _ hchars, hsplit, readToken,
    ListPage.token]
  generalize page.entries.filterMap Entry.token? = tokens at hothers
  cases hothers with
  | nil => simp
  | cons hopens _ =>
      have htrim := opens_trimmed hopens escaping "</NextContinuationToken>" hend
      simp only [List.map_cons, List.drop_succ_cons, List.drop_zero, List.head?_cons,
        Option.map_some, htrim]

/-- A page is read as the sum and the number of its sizes and its token. -/
theorem readListPage_page (escaping : Escaping) (page : ListPage) (status : Nat)
    (hstatus : isSuccess status = true) :
    (page.sizes.sum ≤ maxU64 ∧ page.sizes.length ≤ maxU64 →
      readListPage (.answered status (.ok (page.body escaping))) =
        .ok (page.sizes.sum, page.sizes.length, readToken escaping page)) ∧
    (¬ (page.sizes.sum ≤ maxU64 ∧ page.sizes.length ≤ maxU64) →
      ∃ err, readListPage (.answered status (.ok (page.body escaping))) = .error err) := by
  obtain ⟨hok, herror⟩ := sumSizes_page escaping page
  unfold readListPage
  simp only [hstatus, Bool.not_true, Bool.false_eq_true, if_false, extractTag_page]
  constructor
  · intro hfits
    rw [hok hfits]
  · intro hover
    obtain ⟨err, herr⟩ := herror hover
    rw [herr]
    exact ⟨err, rfl⟩

end Runlet.S3
