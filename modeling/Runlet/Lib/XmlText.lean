import Mathlib.Data.List.TakeWhile
import Runlet.Lib.Text

/-!
Marked-up text: tags in angle brackets with escaped text between them. How a
character is escaped is a parameter, as long as no angle bracket opens in it.
A scanner that splits the text at one tag, as a text, splits it where the tag
stands, since that text occurs nowhere else.
-/

namespace Runlet.XmlText

open Text

/-- What stands between the brackets of a tag, with its slash if it has one. -/
structure Tag where
  body : List Char
  plain : ∀ c ∈ body, c ≠ '<' ∧ c ≠ '>'

theorem plain_of_all (body : List Char)
    (hall : body.all (fun c => c != '<' && c != '>') = true) :
    ∀ c ∈ body, c ≠ '<' ∧ c ≠ '>' := by
  intro c hc
  simpa using List.all_eq_true.mp hall c hc

/-- A character stands for itself or is written as a reference. -/
structure Escaping where
  escape : Char → List Char
  shape : ∀ c, escape c = [c] ∨ ∃ name, '<' ∉ name ∧ escape c = '&' :: (name ++ [';'])
  markup : escape '<' ≠ ['<'] ∧ escape '&' ≠ ['&']
  digits : ∀ c, c.isDigit = true → escape c = [c]

def Escaping.text (escaping : Escaping) (text : String) : List Char :=
  text.toList.flatMap escaping.escape

inductive Node where
  | tag (mark : Tag)
  | text (content : String)

def Tag.chars (tag : Tag) : List Char := '<' :: (tag.body ++ ['>'])

def Node.render (escaping : Escaping) : Node → List Char
  | .tag mark => mark.chars
  | .text content => escaping.text content

def render (escaping : Escaping) (nodes : List Node) : List Char :=
  nodes.flatMap (Node.render escaping)

def Node.isTag (tag : Tag) : Node → Bool
  | .tag mark => mark.body == tag.body
  | .text _ => false

/-- A piece put in front of the first one. -/
def onto {α : Type} (front : List α) : List (List α) → List (List α)
  | [] => [front]
  | piece :: pieces => (front ++ piece) :: pieces

/-- The nodes between occurrences of a tag. -/
def splitTag (tag : Tag) : List Node → List (List Node)
  | [] => [[]]
  | node :: rest =>
      if node.isTag tag then [] :: splitTag tag rest else onto [node] (splitTag tag rest)

/-! ### Escaped text -/

theorem Escaping.no_bracket (escaping : Escaping) (text : String) : '<' ∉ escaping.text text := by
  intro hmem
  obtain ⟨c, -, hin⟩ := List.mem_flatMap.mp hmem
  rcases escaping.shape c with hself | ⟨name, hname, href⟩
  · rw [hself, List.mem_singleton] at hin
    rw [← hin] at hself
    exact escaping.markup.1 hself
  · rw [href] at hin
    simp only [List.mem_cons, List.mem_append, List.not_mem_nil, or_false] at hin
    rcases hin with hamp | hin | hsemicolon
    · exact absurd hamp (by decide)
    · exact hname hin
    · exact absurd hsemicolon (by decide)

def Escaping.Kept (escaping : Escaping) (text : String) : Prop :=
  ∀ c ∈ text.toList, escaping.escape c = [c]

theorem Escaping.text_kept (escaping : Escaping) (text : String) (hkept : escaping.Kept text) :
    escaping.text text = text.toList := by
  unfold Escaping.text
  rw [List.flatMap_congr hkept]
  simp

/-- The characters that trimming cannot take. -/
def inked (chars : List Char) : Nat := chars.countP fun c => !isWhitespace c

theorem inked_dropWhile (chars : List Char) :
    inked (chars.dropWhile isWhitespace) = inked chars := by
  induction chars with
  | nil => rfl
  | cons c rest ih =>
      by_cases hc : isWhitespace c = true
      · simpa [inked, hc] using ih
      · simp [hc]

theorem inked_trimChars (chars : List Char) : inked (trimChars chars) = inked chars := by
  have hreverse : ∀ text : List Char, inked text.reverse = inked text := by
    intro text
    exact List.countP_reverse
  rw [trimChars, hreverse, inked_dropWhile, hreverse, inked_dropWhile]

theorem trimChars_eq_nil_iff (chars : List Char) :
    trimChars chars = [] ↔ ∀ c ∈ chars, isWhitespace c = true := by
  constructor
  · intro hnil c hc
    have hzero : inked chars = 0 := by
      rw [← inked_trimChars, hnil]
      rfl
    simpa using List.countP_eq_zero.mp hzero c hc
  · intro hall
    have hdrop : chars.dropWhile isWhitespace = [] := by
      simpa [List.dropWhile_eq_nil_iff] using hall
    rw [trimChars, hdrop]
    rfl

/-- A reference has more to it than a character. -/
theorem Escaping.inked_escape (escaping : Escaping) (c : Char) :
    inked [c] ≤ inked (escaping.escape c) ∧
      (inked (escaping.escape c) ≤ inked [c] → escaping.escape c = [c]) := by
  rcases escaping.shape c with hself | ⟨name, -, href⟩
  · rw [hself]
    exact ⟨Nat.le_refl _, fun _ => rfl⟩
  · have hone : inked [c] ≤ 1 := List.countP_le_length
    have hamp : (!isWhitespace '&') = true := by decide
    have hsemicolon : (!isWhitespace ';') = true := by decide
    have htwo : 2 ≤ inked (escaping.escape c) := by
      rw [href, inked, List.countP_cons_of_pos (p := fun c => !isWhitespace c) hamp,
        List.countP_append, List.countP_cons_of_pos (p := fun c => !isWhitespace c) hsemicolon]
      omega
    exact ⟨by omega, fun hle => absurd hle (by omega)⟩

theorem Escaping.inked_text (escaping : Escaping) (chars : List Char) :
    inked chars ≤ inked (chars.flatMap escaping.escape) ∧
      (inked (chars.flatMap escaping.escape) ≤ inked chars →
        ∀ c ∈ chars, escaping.escape c = [c]) := by
  induction chars with
  | nil => exact ⟨Nat.le_refl _, fun _ c hc => by cases hc⟩
  | cons first rest ih =>
      obtain ⟨hfirst, hsame⟩ := escaping.inked_escape first
      have hleft : inked ((first :: rest).flatMap escaping.escape) =
          inked (escaping.escape first) + inked (rest.flatMap escaping.escape) := by
        simp [inked]
      have hright : inked (first :: rest) = inked [first] + inked rest := by
        rw [← List.singleton_append, inked, List.countP_append]
        rfl
      rw [hleft, hright]
      refine ⟨by omega, ?_⟩
      intro hle
      rw [List.forall_mem_cons]
      exact ⟨hsame (by omega), ih.2 (by omega)⟩

/-- Trimming what was escaped gives the text back exactly when nothing in it
was escaped and nothing is trimmed. -/
theorem Escaping.trim_text_eq_iff (escaping : Escaping) (text : String) :
    trimChars (escaping.text text) = text.toList ↔
      escaping.Kept text ∧ trimChars text.toList = text.toList := by
  constructor
  · intro hsame
    have hinked : inked (escaping.text text) ≤ inked text.toList := by
      have htrim := inked_trimChars (escaping.text text)
      rw [hsame] at htrim
      omega
    have hkept : escaping.Kept text := (escaping.inked_text text.toList).2 hinked
    rw [escaping.text_kept text hkept] at hsame
    exact ⟨hkept, hsame⟩
  · rintro ⟨hkept, htrim⟩
    rw [escaping.text_kept text hkept, htrim]

/-- Nothing is left of white space that is written as it is. -/
theorem Escaping.trim_text_nil_iff (escaping : Escaping) (text : String) :
    trimChars (escaping.text text) = [] ↔
      escaping.Kept text ∧ ∀ c ∈ text.toList, isWhitespace c = true := by
  rw [trimChars_eq_nil_iff]
  constructor
  · intro hall
    have hkept : escaping.Kept text := by
      apply (escaping.inked_text text.toList).2
      have hzero : inked (text.toList.flatMap escaping.escape) = 0 := by
        apply List.countP_eq_zero.mpr
        intro c hc
        simpa using hall c hc
      omega
    rw [escaping.text_kept text hkept] at hall
    exact ⟨hkept, hall⟩
  · rintro ⟨hkept, hall⟩
    rw [escaping.text_kept text hkept]
    exact hall

/-! ### Scanning for a tag -/

theorem splitStrChars_skip (sep piece rest : List Char) :
    splitStrChars sep piece.length (piece ++ rest) = splitStrChars sep 0 rest := by
  induction piece with
  | nil => rfl
  | cons c piece ih => simpa [splitStrChars] using ih

theorem splitStrChars_ne_nil (sep : List Char) (skip : Nat) (chars : List Char) :
    splitStrChars sep skip chars ≠ [] := by
  induction chars generalizing skip with
  | nil => simp [splitStrChars]
  | cons c rest ih =>
      cases skip with
      | zero =>
          simp only [splitStrChars]
          split
          · simp
          · split <;> simp
      | succ skip => exact ih skip

/-- A character that does not start the separator is passed over. -/
theorem splitStrChars_cons (sep : List Char) (c : Char) (rest : List Char)
    (hmiss : sep.isPrefixOf (c :: rest) = false) :
    splitStrChars sep 0 (c :: rest) = onto [c] (splitStrChars sep 0 rest) := by
  simp only [splitStrChars, hmiss]
  cases splitStrChars sep 0 rest <;> rfl

theorem onto_onto {α : Type} (front next : List α) (pieces : List (List α)) :
    onto front (onto next pieces) = onto (front ++ next) pieces := by
  cases pieces <;> simp [onto]

/-- Text without an opening bracket is passed over. -/
theorem splitStrChars_text (name piece rest : List Char) (hpiece : '<' ∉ piece) :
    splitStrChars ('<' :: name) 0 (piece ++ rest) =
      onto piece (splitStrChars ('<' :: name) 0 rest) := by
  induction piece with
  | nil =>
      cases hsplit : splitStrChars ('<' :: name) 0 rest with
      | nil => exact absurd hsplit (splitStrChars_ne_nil _ 0 rest)
      | cons first others => simp [onto, hsplit]
  | cons c piece ih =>
      have hc : '<' ≠ c := fun heq => hpiece (heq ▸ List.mem_cons_self)
      have hmiss : ('<' :: name).isPrefixOf (c :: (piece ++ rest)) = false := by
        rw [Bool.eq_false_iff]
        intro hfound
        obtain ⟨after, hafter⟩ := List.isPrefixOf_iff_prefix.mp hfound
        exact hc (List.cons.inj hafter).1
      rw [List.cons_append, splitStrChars_cons _ _ _ hmiss,
        ih fun hmem => hpiece (List.mem_cons_of_mem c hmem), onto_onto]
      rfl

theorem splitStrChars_tag (tag : Tag) (rest : List Char) :
    splitStrChars tag.chars 0 (tag.chars ++ rest) = [] :: splitStrChars tag.chars 0 rest := by
  have hlength : tag.chars.length - 1 = (tag.body ++ ['>']).length := by
    simp [Tag.chars]
  have hfound : tag.chars.isPrefixOf ('<' :: (tag.body ++ ['>'] ++ rest)) = true := by
    simp [Tag.chars]
  have hchars : tag.chars ++ rest = '<' :: (tag.body ++ ['>'] ++ rest) := rfl
  rw [hchars]
  simp only [splitStrChars, hfound, if_true, hlength]
  rw [splitStrChars_skip]

/-- Another tag is passed over: its closing bracket comes too early or too
late. -/
theorem splitStrChars_other (tag other : Tag) (hother : other.body ≠ tag.body)
    (rest : List Char) :
    splitStrChars tag.chars 0 (other.chars ++ rest) =
      onto other.chars (splitStrChars tag.chars 0 rest) := by
  have hmiss : tag.chars.isPrefixOf ('<' :: (other.body ++ ['>'] ++ rest)) = false := by
    rw [Bool.eq_false_iff]
    intro hfound
    obtain ⟨after, hafter⟩ := List.isPrefixOf_iff_prefix.mp hfound
    have hbodies : tag.body ++ '>' :: after = other.body ++ '>' :: rest := by
      simpa [Tag.chars] using hafter
    have htake : ∀ (mark : Tag) (more : List Char),
        (mark.body ++ '>' :: more).takeWhile (· != '>') = mark.body := by
      intro mark more
      rw [List.takeWhile_append_of_pos (fun c hc => by simpa using (mark.plain c hc).2)]
      simp
    exact hother ((htake other rest).symm.trans (hbodies ▸ htake tag after))
  have hbody : '<' ∉ other.body ++ ['>'] := by
    intro hmem
    rcases List.mem_append.mp hmem with hin | hlast
    · exact (other.plain '<' hin).1 rfl
    · exact absurd (List.mem_singleton.mp hlast) (by decide)
  have hchars : other.chars ++ rest = '<' :: (other.body ++ ['>'] ++ rest) := rfl
  rw [hchars, splitStrChars_cons _ _ _ hmiss]
  unfold Tag.chars
  rw [splitStrChars_text _ _ _ hbody, onto_onto]
  rfl

/-- Splitting the text of a document at a tag splits the document there. -/
theorem splitStrChars_render (escaping : Escaping) (tag : Tag) (nodes : List Node) :
    splitStrChars tag.chars 0 (render escaping nodes) =
      (splitTag tag nodes).map (render escaping) := by
  have honto : ∀ (node : Node) (pieces : List (List Node)),
      (onto [node] pieces).map (render escaping) =
        onto (node.render escaping) (pieces.map (render escaping)) := by
    intro node pieces
    cases pieces <;> simp [onto, render]
  induction nodes with
  | nil => rfl
  | cons node rest ih =>
      have hrender : render escaping (node :: rest) =
          node.render escaping ++ render escaping rest := rfl
      rw [hrender]
      unfold splitTag
      cases node with
      | tag mark =>
          by_cases hmark : mark.body = tag.body
          · have hsame : mark.chars = tag.chars := by
              rw [Tag.chars, hmark, Tag.chars]
            simp only [Node.render, Node.isTag, hmark, hsame, beq_self_eq_true, if_true,
              List.map_cons]
            rw [splitStrChars_tag, ih]
            rfl
          · have hmiss : (Node.tag mark).isTag tag = false := by
              simpa [Node.isTag] using hmark
            rw [hmiss, if_neg (by decide), honto, ← ih]
            exact splitStrChars_other tag mark hmark _
      | text content =>
          rw [if_neg (by simp [Node.isTag]), honto, ← ih]
          exact splitStrChars_text _ _ _ (escaping.no_bracket content)

/-! ### Elements -/

/-- What follows the opening tag of an element: its text and its closing tag. -/
def Opens (closing : Tag) (nodes : List Node) (content : String) : Prop :=
  ∃ rest, nodes = .text content :: .tag closing :: rest

theorem splitTag_append (tag : Tag) (front rest : List Node)
    (hfront : ∀ node ∈ front, node.isTag tag = false) :
    ∀ first others, splitTag tag rest = first :: others →
      splitTag tag (front ++ rest) = (front ++ first) :: others := by
  intro first others hrest
  induction front with
  | nil => exact hrest
  | cons node front ih =>
      obtain ⟨hnode, hfront⟩ := List.forall_mem_cons.mp hfront
      rw [List.cons_append, splitTag, hnode, if_neg (by decide), ih hfront]
      rfl

/-- In a document made of items, each an element with this tag or without the
tag in it, the pieces behind the tag are the elements in their order. -/
theorem splitTag_elements {ι : Type} (tag closing : Tag) (hclosing : closing.body ≠ tag.body)
    (nodes : ι → List Node) (content : ι → Option String)
    (hsome : ∀ item text, content item = some text →
      nodes item = [.tag tag, .text text, .tag closing])
    (hnone : ∀ item, content item = none → ∀ node ∈ nodes item, node.isTag tag = false)
    (items : List ι) :
    ∃ first others, splitTag tag (items.flatMap nodes) = first :: others ∧
      List.Forall₂ (Opens closing) others (items.filterMap content) := by
  induction items with
  | nil => exact ⟨[], [], rfl, .nil⟩
  | cons item items ih =>
      obtain ⟨first, others, hsplit, hothers⟩ := ih
      rw [List.flatMap_cons]
      cases hcontent : content item with
      | none =>
          refine ⟨nodes item ++ first, others, ?_, ?_⟩
          · exact splitTag_append tag _ _ (hnone item hcontent) _ _ hsplit
          · rw [List.filterMap_cons_none hcontent]
            exact hothers
      | some text =>
          have hend : ∀ node ∈ [Node.text text, Node.tag closing], node.isTag tag = false := by
            simp [Node.isTag, hclosing]
          have hopen : (Node.tag tag).isTag tag = true := by
            simp [Node.isTag]
          have hrest := splitTag_append tag _ (items.flatMap nodes) hend _ _ hsplit
          refine ⟨[], ([.text text, .tag closing] ++ first) :: others, ?_, ?_⟩
          · rw [hsome item text hcontent, List.cons_append, splitTag, hopen, if_pos rfl, hrest]
          · rw [List.filterMap_cons_some hcontent]
            exact .cons ⟨first, rfl⟩ hothers

/-- The text of an element is read up to its closing tag. -/
theorem Opens.text {closing : Tag} {nodes : List Node} {content : String}
    (hopens : Opens closing nodes content) (escaping : Escaping) :
    (splitStrChars closing.chars 0 (render escaping nodes)).head? =
      some (escaping.text content) := by
  obtain ⟨rest, rfl⟩ := hopens
  have hsplit : splitTag closing (.text content :: .tag closing :: rest) =
      [.text content] :: splitTag closing rest := by
    simp [splitTag, Node.isTag, onto]
  rw [splitStrChars_render, hsplit]
  simp [render, Node.render]

end Runlet.XmlText
