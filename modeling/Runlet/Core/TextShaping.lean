import Runlet.Core.TextPadding
import Runlet.Lib.Matching

/-!
`strip`, `lstrip`, `rstrip`, `collapse` and `slugify` of the `text` value (`js/text.js`).
They build a regular expression and replace with it. The characters to strip go through
`stripClass` into the source text of the expression, so the source is read here as the
engine reads it: what comes out is the class of exactly these units.
-/

namespace Runlet.TextUtil

open Matching

/-! ### The source of an expression -/

/-- `/[.*+?^${}()|[\]\\-]/` -/
def isSyntax (c : UInt16) : Bool := c ∈ ascii ".*+?^$\x7b\x7d()|[]\\-"

/-- `chars.replace(/[…]/g, "\\$&")` -/
def escaped (chars : CodeUnits) : CodeUnits :=
  (Pattern.one isSyntax).replaceAll (fun found => ascii "\\" ++ found) chars

def stripClass (chars : CodeUnits) : CodeUnits := ascii "[" ++ escaped chars ++ ascii "]"

/-- One atom of a class. Of the escapes only those of syntax characters are read. -/
def readAtom : CodeUnits → Option (UInt16 × CodeUnits)
  | [] => none
  | c :: rest =>
      if c = 92 then
        match rest with
        | [] => none
        | d :: rest => if isSyntax d then some (d, rest) else none
      else some (c, rest)

/-- The ranges of a class up to its bracket; an atom by itself is a range of one. -/
def readRanges : Nat → CodeUnits → Option (List (UInt16 × UInt16) × CodeUnits)
  | 0, _ => none
  | fuel + 1, source =>
      if source.head? = some 93 then some ([], source.tail)
      else do
        let (low, rest) ← readAtom source
        -- a hyphen before the bracket stands for itself
        if rest.head? = some 45 ∧ rest.tail.head? ≠ some 93 then do
          let (high, rest) ← readAtom rest.tail
          let (ranges, rest) ← readRanges fuel rest
          some ((low, high) :: ranges, rest)
        else do
          let (ranges, rest) ← readRanges fuel rest
          some ((low, low) :: ranges, rest)

def inRanges (ranges : List (UInt16 × UInt16)) (c : UInt16) : Bool :=
  ranges.any fun range => range.1 ≤ c && c ≤ range.2

/-- A class after its opening bracket. -/
def readClass (source : CodeUnits) : Option ((UInt16 → Bool) × CodeUnits) :=
  if source.head? = some 94 then
    (readRanges source.length source.tail).map fun (ranges, rest) =>
      (fun c => !inRanges ranges c, rest)
  else
    (readRanges (source.length + 1) source).map fun (ranges, rest) => (inRanges ranges, rest)

/-- A term: an anchor, or a class with or without `+`. -/
def readTerm : CodeUnits → Option (Pattern UInt16 × CodeUnits)
  | [] => none
  | c :: rest =>
      if c = 94 then some (.start, rest)
      else if c = 36 then some (.stop, rest)
      else if c = 91 then
        (readClass rest).map fun (p, rest) =>
          if rest.head? = some 43 then (.plus p, rest.tail) else (.one p, rest)
      else none

/-- Terms up to the end or a bar. -/
def readTerms : Nat → CodeUnits → Option (Pattern UInt16 × CodeUnits)
  | 0, _ => none
  | fuel + 1, source => do
      let (term, rest) ← readTerm source
      if rest = [] ∨ rest.head? = some 124 then some (term, rest)
      else do
        let (more, rest) ← readTerms fuel rest
        some (.seq term more, rest)

/-- `new RegExp(source)` for the expressions built here; `none` is a syntax error. -/
def readPattern : Nat → CodeUnits → Option (Pattern UInt16)
  | 0, _ => none
  | fuel + 1, source => do
      let (first, rest) ← readTerms (source.length + 1) source
      if rest = [] then some first
      else do
        let second ← readPattern fuel rest.tail
        some (.alt first second)

def newRegExp (source : CodeUnits) : Option (Pattern UInt16) :=
  readPattern (source.length + 1) source

/-! ### The verbs -/

/-- `\s`, the units that `trim` takes off too. -/
def isSpace (c : UInt16) : Bool :=
  9 ≤ c && c ≤ 13 || c = 32 || c = 160 || c = 0x1680 || 0x2000 ≤ c && c ≤ 0x200a ||
    c = 0x2028 || c = 0x2029 || c = 0x202f || c = 0x205f || c = 0x3000 || c = 0xfeff

def trim (s : CodeUnits) : CodeUnits := (s.dropWhile isSpace).rdropWhile isSpace

def strip (v : CodeUnits) (chars : Option CodeUnits) : Option CodeUnits :=
  match chars with
  | none => some (trim v)
  | some chars =>
      (newRegExp (ascii "^" ++ stripClass chars ++ ascii "+|" ++ stripClass chars ++ ascii "+$")).map
        fun re => re.replaceAll (fun _ => []) v

def lstrip (v : CodeUnits) (chars : Option CodeUnits) : Option CodeUnits :=
  match chars with
  | none => some ((Pattern.seq .start (.plus isSpace)).replace (fun _ => []) v)
  | some chars =>
      (newRegExp (ascii "^" ++ stripClass chars ++ ascii "+")).map
        fun re => re.replace (fun _ => []) v

def rstrip (v : CodeUnits) (chars : Option CodeUnits) : Option CodeUnits :=
  match chars with
  | none => some ((Pattern.seq (.plus isSpace) .stop).replace (fun _ => []) v)
  | some chars =>
      (newRegExp (stripClass chars ++ ascii "+$")).map fun re => re.replace (fun _ => []) v

def collapse (v : CodeUnits) : CodeUnits :=
  trim ((Pattern.plus isSpace).replaceAll (fun _ => ascii " ") v)

/-- The Unicode tables of the engine that `slugify` goes through. -/
structure Unicode where
  normalizeNFD : CodeUnits → CodeUnits
  toLowerCase : CodeUnits → CodeUnits

def isCombining (c : UInt16) : Bool := 0x300 ≤ c && c ≤ 0x36f

/-- `[a-z0-9]` -/
def isSlugUnit (c : UInt16) : Bool := 97 ≤ c && c ≤ 122 || 48 ≤ c && c ≤ 57

def slugify (unicode : Unicode) (v : CodeUnits) : CodeUnits :=
  let s := (Pattern.one isCombining).replaceAll (fun _ => []) (unicode.normalizeNFD v)
  let s := (Pattern.plus fun c => !isSlugUnit c).replaceAll (fun _ => ascii "-")
    (unicode.toLowerCase s)
  (edges fun c => c = 45).replaceAll (fun _ => []) s

/-! ### Reading a class back -/

theorem escaped_cons (c : UInt16) (chars : CodeUnits) :
    escaped (c :: chars) = (if isSyntax c then [92, c] else [c]) ++ escaped chars := by
  rw [escaped, escaped, replaceAll_one, replaceAll_one, List.flatMap_cons]
  rfl

theorem escaped_nil : escaped [] = [] := by
  rw [escaped, replaceAll_one]
  rfl

/-- What can stand where the next atom of an escaped class is looked for. -/
theorem head_escaped (chars rest : CodeUnits) (c : UInt16)
    (h : (escaped chars ++ 93 :: rest).head? = some c) :
    c = 92 ∨ c = 93 ∨ isSyntax c = false := by
  cases chars with
  | nil =>
      rw [escaped_nil] at h
      exact .inr (.inl (Option.some.inj h).symm)
  | cons d chars =>
      rw [escaped_cons] at h
      cases hd : isSyntax d with
      | true =>
          rw [hd] at h
          exact .inl (Option.some.inj h).symm
      | false =>
          rw [hd] at h
          obtain rfl : d = c := Option.some.inj h
          exact .inr (.inr hd)

theorem isSyntax_backslash : isSyntax 92 = true := by decide

theorem isSyntax_bracket : isSyntax 93 = true := by decide

theorem isSyntax_hyphen : isSyntax 45 = true := by decide

theorem isSyntax_caret : isSyntax 94 = true := by decide

theorem ne_of_not_syntax {c d : UInt16} (hd : isSyntax d = true) (hc : isSyntax c = false) :
    c ≠ d := by
  rintro rfl
  rw [hd] at hc
  cases hc

theorem readAtom_escaped (c : UInt16) (rest : CodeUnits) :
    readAtom ((if isSyntax c then [92, c] else [c]) ++ rest) = some (c, rest) := by
  cases hc : isSyntax c with
  | true =>
      rw [if_pos rfl]
      simp [readAtom, hc]
  | false =>
      rw [if_neg Bool.false_ne_true]
      simp [readAtom, ne_of_not_syntax isSyntax_backslash hc]

/-- An escaped class is read as its units, one range each, up to its own bracket. -/
theorem readRanges_escaped (chars rest : CodeUnits) (fuel : Nat) (hfuel : chars.length < fuel) :
    readRanges fuel (escaped chars ++ 93 :: rest) = some (chars.map fun c => (c, c), rest) := by
  induction chars generalizing fuel with
  | nil =>
      obtain ⟨fuel, rfl⟩ : ∃ n, fuel = n + 1 := ⟨fuel - 1, by omega⟩
      rw [escaped_nil, readRanges]
      rfl
  | cons c chars ih =>
      obtain ⟨fuel, rfl⟩ : ∃ n, fuel = n + 1 := ⟨fuel - 1, by omega⟩
      have hopen : ((if isSyntax c then [92, c] else [c]) ++
          (escaped chars ++ 93 :: rest)).head? ≠ some 93 := by
        cases hc : isSyntax c with
        | true => simp
        | false => simpa using ne_of_not_syntax isSyntax_bracket hc
      have hsingle : ¬((escaped chars ++ 93 :: rest).head? = some 45 ∧
          (escaped chars ++ 93 :: rest).tail.head? ≠ some 93) := by
        rintro ⟨hhead, _⟩
        rcases head_escaped chars rest 45 hhead with h | h | h
        · cases h
        · cases h
        · rw [isSyntax_hyphen] at h
          cases h
      have hrest := ih fuel (by simpa using hfuel)
      rw [escaped_cons, List.append_assoc, readRanges, if_neg hopen, readAtom_escaped]
      simp only [Option.bind_eq_bind, Option.bind_some, hsingle, hrest, List.map_cons]
      rfl

theorem inRanges_single (chars : CodeUnits) :
    inRanges (chars.map fun c => (c, c)) = fun c => decide (c ∈ chars) := by
  funext c
  rw [Bool.eq_iff_iff, decide_eq_true_eq]
  simp only [inRanges, List.any_map, List.any_eq_true, Function.comp, Bool.and_eq_true,
    decide_eq_true_eq]
  constructor
  · rintro ⟨d, hd, hle, hge⟩
    rwa [UInt16.le_antisymm hge hle]
  · intro hc
    exact ⟨c, hc, UInt16.le_refl c, UInt16.le_refl c⟩

theorem length_le_escaped (chars : CodeUnits) : chars.length ≤ (escaped chars).length := by
  induction chars with
  | nil => exact Nat.zero_le _
  | cons c chars ih =>
      rw [escaped_cons, List.length_append, List.length_cons]
      split <;> simp <;> omega

/-- Whatever the units to strip are, none of them leaves the class or gets a meaning in it. -/
theorem readClass_escaped (chars rest : CodeUnits) :
    readClass (escaped chars ++ 93 :: rest) = some (fun c => decide (c ∈ chars), rest) := by
  have hplain : (escaped chars ++ 93 :: rest).head? ≠ some 94 := by
    intro hhead
    rcases head_escaped chars rest 94 hhead with h | h | h
    · cases h
    · cases h
    · rw [isSyntax_caret] at h
      cases h
  have hfuel := length_le_escaped chars
  rw [readClass, if_neg hplain, readRanges_escaped chars rest _ (by simp; omega), Option.map_some]
  exact congrArg (fun p => some (p, rest)) (inRanges_single chars)

/-! ### The expressions of `strip` -/

section Sources

variable (chars : CodeUnits)

/-- `[…]+` and what follows it. -/
def classPlus (rest : CodeUnits) : CodeUnits := 91 :: (escaped chars ++ 93 :: 43 :: rest)

theorem readTerm_classPlus (rest : CodeUnits) :
    readTerm (classPlus chars rest) = some (.plus fun c => decide (c ∈ chars), rest) := by
  simp [readTerm, classPlus, readClass_escaped]

theorem readTerms_start (fuel : Nat) (rest : CodeUnits)
    (hrest : rest = [] ∨ rest.head? = some 124) :
    readTerms (fuel + 2) (94 :: classPlus chars rest) =
      some (.seq .start (.plus fun c => decide (c ∈ chars)), rest) := by
  have hmore : ¬(classPlus chars rest = [] ∨ (classPlus chars rest).head? = some 124) := by
    simp [classPlus]
  have hfirst : readTerm (94 :: classPlus chars rest) = some (.start, classPlus chars rest) := rfl
  simp only [readTerms, hfirst, readTerm_classPlus, Option.bind_eq_bind, Option.bind_some,
    if_neg hmore, if_pos hrest]

theorem readTerms_stop (fuel : Nat) :
    readTerms (fuel + 2) (classPlus chars [36]) =
      some (.seq (.plus fun c => decide (c ∈ chars)) .stop, []) := by
  have hlast : readTerm [36] = some (.stop, []) := rfl
  simp [readTerms, readTerm_classPlus, hlast]

theorem length_classPlus (rest : CodeUnits) : ∃ n, (classPlus chars rest).length = n + 1 :=
  ⟨_, List.length_cons⟩

theorem newRegExp_strip :
    newRegExp (ascii "^" ++ stripClass chars ++ ascii "+|" ++ stripClass chars ++ ascii "+$") =
      some (edges fun c => decide (c ∈ chars)) := by
  have hsource : ascii "^" ++ stripClass chars ++ ascii "+|" ++ stripClass chars ++ ascii "+$" =
      94 :: classPlus chars (124 :: classPlus chars [36]) := by
    simp [stripClass, classPlus, ascii]
  obtain ⟨n, hn⟩ := length_classPlus chars [36]
  obtain ⟨m, hm⟩ := length_classPlus chars (124 :: classPlus chars [36])
  have hfirst := readTerms_start chars (m + 1) (124 :: classPlus chars [36]) (.inr rfl)
  have hsecond := readTerms_stop chars n
  rw [hsource, newRegExp, List.length_cons, hm]
  simp [readPattern, hm, hn, hfirst, hsecond, edges]

theorem newRegExp_lstrip :
    newRegExp (ascii "^" ++ stripClass chars ++ ascii "+") =
      some (.seq .start (.plus fun c => decide (c ∈ chars))) := by
  have hsource : ascii "^" ++ stripClass chars ++ ascii "+" = 94 :: classPlus chars [] := by
    simp [stripClass, classPlus, ascii]
  obtain ⟨n, hn⟩ := length_classPlus chars []
  have hfirst := readTerms_start chars (n + 1) [] (.inl rfl)
  rw [hsource, newRegExp, List.length_cons, hn]
  simp [readPattern, hn, hfirst]

theorem newRegExp_rstrip :
    newRegExp (stripClass chars ++ ascii "+$") =
      some (.seq (.plus fun c => decide (c ∈ chars)) .stop) := by
  have hsource : stripClass chars ++ ascii "+$" = classPlus chars [36] := by
    simp [stripClass, classPlus, ascii]
  obtain ⟨n, hn⟩ := length_classPlus chars [36]
  have hfirst := readTerms_stop chars n
  rw [hsource, newRegExp, hn]
  simp [readPattern, hn, hfirst]

end Sources

/-! ### What the verbs return -/

/-- The units a verb takes off: those named, or white space. -/
def stripped (chars : Option CodeUnits) (c : UInt16) : Bool :=
  match chars with
  | none => isSpace c
  | some chars => decide (c ∈ chars)

theorem strip_eq (v : CodeUnits) (chars : Option CodeUnits) :
    strip v chars = some ((v.dropWhile (stripped chars)).rdropWhile (stripped chars)) := by
  cases chars with
  | none => rfl
  | some chars =>
      rw [strip, newRegExp_strip, Option.map_some, replaceAll_edges]
      rfl

theorem lstrip_eq (v : CodeUnits) (chars : Option CodeUnits) :
    lstrip v chars = some (v.dropWhile (stripped chars)) := by
  cases chars with
  | none => rw [lstrip, replace_start_plus]; rfl
  | some chars =>
      rw [lstrip, newRegExp_lstrip, Option.map_some, replace_start_plus]
      rfl

theorem rstrip_eq (v : CodeUnits) (chars : Option CodeUnits) :
    rstrip v chars = some (v.rdropWhile (stripped chars)) := by
  cases chars with
  | none => rw [rstrip, replace_plus_stop]; rfl
  | some chars =>
      rw [rstrip, newRegExp_rstrip, Option.map_some, replace_plus_stop]
      rfl

/-- Whatever the text and the units are, the expression is valid, each verb takes off the
longest stretch of exactly these units at its ends, and stripping both ends is stripping
one after the other in either order. -/
structure StripLaws (v : CodeUnits) (chars : Option CodeUnits) : Prop where
  both : strip v chars = some ((v.dropWhile (stripped chars)).rdropWhile (stripped chars))
  left : lstrip v chars = some (v.dropWhile (stripped chars))
  right : rstrip v chars = some (v.rdropWhile (stripped chars))
  leftRight : strip v chars = (lstrip v chars).bind (rstrip · chars)
  rightLeft : strip v chars = (rstrip v chars).bind (lstrip · chars)
  again : (strip v chars).bind (strip · chars) = strip v chars

theorem strip_laws (v : CodeUnits) (chars : Option CodeUnits) : StripLaws v chars where
  both := strip_eq v chars
  left := lstrip_eq v chars
  right := rstrip_eq v chars
  leftRight := by
    rw [strip_eq, lstrip_eq, Option.bind_some, rstrip_eq]
  rightLeft := by
    rw [strip_eq, rstrip_eq, Option.bind_some, lstrip_eq, trim_comm]
  again := by
    rw [strip_eq, Option.bind_some, strip_eq, trim_again]

example : strip (ascii "-]^a-]^") (some (ascii "^]-")) = some (ascii "a") := by
  rw [strip_eq]
  decide

theorem isSpace_blank : isSpace 32 = true := by decide

/-- The words of the text with one blank between them, which no second pass changes. -/
structure CollapseLaws (v : CodeUnits) : Prop where
  joined : collapse v = [32].intercalate (words isSpace v)
  kept : words isSpace (collapse v) = words isSpace v
  again : collapse (collapse v) = collapse v

theorem collapse_eq (v : CodeUnits) : collapse v = [32].intercalate (words isSpace v) := by
  rw [collapse, replaceAll_plus]
  apply trim_replaceRuns
  · exact isSpace_blank
  · exact fun _ h => h

theorem words_collapse (v : CodeUnits) : words isSpace (collapse v) = words isSpace v := by
  rw [collapse_eq]
  apply words_intercalate
  · exact isSpace_blank
  · exact fun word h => mem_words isSpace v word h

theorem collapse_laws (v : CodeUnits) : CollapseLaws v where
  joined := collapse_eq v
  kept := words_collapse v
  again := by
    rw [collapse_eq (collapse v), words_collapse, ← collapse_eq]

/-! ### Slugs -/

/-- Words of small letters and digits with one hyphen between them. -/
def IsSlug (s : CodeUnits) : Prop :=
  ∃ ws : List CodeUnits,
    (∀ word ∈ ws, word ≠ [] ∧ ∀ c ∈ word, isSlugUnit c = true) ∧ s = [45].intercalate ws

/-- What `slugify` takes the words of. -/
def folded (unicode : Unicode) (v : CodeUnits) : CodeUnits :=
  unicode.toLowerCase ((unicode.normalizeNFD v).filter fun c => !isCombining c)

def lowerAscii (c : UInt16) : UInt16 := if 65 ≤ c && c ≤ 90 then c + 32 else c

/-- The tables on a text of ASCII alone. -/
structure Unicode.OnAscii (unicode : Unicode) : Prop where
  normalizeNFD : ∀ s : CodeUnits, (∀ c ∈ s, c < 128) → unicode.normalizeNFD s = s
  toLowerCase : ∀ s : CodeUnits, (∀ c ∈ s, c < 128) → unicode.toLowerCase s = s.map lowerAscii

theorem remove_eq_filter (p : UInt16 → Bool) (s : CodeUnits) :
    (Pattern.one p).replaceAll (fun _ => []) s = s.filter fun c => !p c := by
  rw [replaceAll_one]
  induction s with
  | nil => rfl
  | cons c s ih =>
      rw [List.flatMap_cons, List.filter_cons, ih]
      cases p c <;> rfl

theorem slugify_eq (unicode : Unicode) (v : CodeUnits) :
    slugify unicode v = [45].intercalate (words (fun c => !isSlugUnit c) (folded unicode v)) := by
  have hhyphen : ∀ c : UInt16, decide (c = 45) = true → (!isSlugUnit c) = true := by
    intro c hc
    rw [of_decide_eq_true hc]
    decide
  rw [slugify, remove_eq_filter, replaceAll_plus, replaceAll_edges]
  apply trim_replaceRuns
  · rfl
  · exact hhyphen

theorem isSlug_slugify (unicode : Unicode) (v : CodeUnits) : IsSlug (slugify unicode v) := by
  refine ⟨words (fun c => !isSlugUnit c) (folded unicode v), ?_, slugify_eq unicode v⟩
  intro word h
  obtain ⟨hne, hword⟩ := mem_words _ _ word h
  exact ⟨hne, fun c hc => by simpa using hword c hc⟩

theorem IsSlug.mem {s : CodeUnits} (h : IsSlug s) (c : UInt16) (hc : c ∈ s) :
    c = 45 ∨ isSlugUnit c = true := by
  obtain ⟨ws, hws, rfl⟩ := h
  induction ws with
  | nil => cases hc
  | cons word ws ih =>
      obtain ⟨⟨_, hword⟩, hws⟩ := List.forall_mem_cons.mp hws
      cases ws with
      | nil =>
          rw [List.intercalate_singleton] at hc
          exact .inr (hword c hc)
      | cons next ws =>
          rw [List.intercalate_cons_cons, List.append_assoc, List.mem_append, List.mem_append,
            List.mem_singleton] at hc
          rcases hc with hc | hc | hc
          · exact .inr (hword c hc)
          · exact .inl hc
          · exact ih hws hc

/-- A unit of a slug is ASCII, is no capital and is no combining mark. -/
theorem slugUnit_plain (c : UInt16) (h : c = 45 ∨ isSlugUnit c = true) :
    c < 128 ∧ lowerAscii c = c ∧ isCombining c = false := by
  rcases h with rfl | h
  · decide
  · simp only [isSlugUnit, Bool.or_eq_true, Bool.and_eq_true, decide_eq_true_eq,
      UInt16.le_iff_toNat_le] at h
    have hlow : c.toNat < 128 ∧ ¬(65 ≤ c.toNat ∧ c.toNat ≤ 90) := by
      rcases h with h | h <;> simp only [UInt16.reduceToNat] at h <;> omega
    refine ⟨UInt16.lt_iff_toNat_lt.mpr hlow.1, ?_, ?_⟩
    · apply if_neg
      simpa [UInt16.le_iff_toNat_le] using hlow.2
    · have hbelow : ¬0x300 ≤ c := by
        rw [UInt16.le_iff_toNat_le]
        exact fun h => absurd (Nat.le_trans h (Nat.le_of_lt hlow.1)) (by decide)
      simp [isCombining, hbelow]

theorem IsSlug.folded {unicode : Unicode} (laws : unicode.OnAscii) {s : CodeUnits}
    (h : IsSlug s) : folded unicode s = s := by
  have hplain := fun c hc => slugUnit_plain c (h.mem c hc)
  have hascii : ∀ c ∈ s, c < 128 := fun c hc => (hplain c hc).1
  have hfilter : (s.filter fun c => !isCombining c) = s := by
    apply List.filter_eq_self.mpr
    intro c hc
    simp [(hplain c hc).2.2]
  have hmap : s.map lowerAscii = s := by
    rw [List.map_congr_left fun c hc => (hplain c hc).2.1, List.map_id']
  rw [TextUtil.folded, laws.normalizeNFD s hascii, hfilter, laws.toLowerCase s hascii, hmap]

/-- Every result is a slug, and what is already one, as nothing else, stays as it is. -/
structure SlugLaws (unicode : Unicode) (v : CodeUnits) : Prop where
  joined : slugify unicode v =
    [45].intercalate (words (fun c => !isSlugUnit c) (folded unicode v))
  slug : IsSlug (slugify unicode v)
  fixed : slugify unicode v = v ↔ IsSlug v
  again : slugify unicode (slugify unicode v) = slugify unicode v

theorem slugify_of_isSlug {unicode : Unicode} (laws : unicode.OnAscii) {s : CodeUnits}
    (h : IsSlug s) : slugify unicode s = s := by
  rw [slugify_eq, h.folded laws]
  obtain ⟨ws, hws, rfl⟩ := h
  apply congrArg
  apply words_intercalate
  · rfl
  · exact fun word hword => ⟨(hws word hword).1, fun c hc => by simp [(hws word hword).2 c hc]⟩

theorem slugify_laws (unicode : Unicode) (laws : unicode.OnAscii) (v : CodeUnits) :
    SlugLaws unicode v where
  joined := slugify_eq unicode v
  slug := isSlug_slugify unicode v
  fixed := ⟨fun h => h ▸ isSlug_slugify unicode v, fun h => slugify_of_isSlug laws h⟩
  again := slugify_of_isSlug laws (isSlug_slugify unicode v)

/-- Tables for ASCII alone. -/
def asciiTables : Unicode := ⟨id, fun s => s.map lowerAscii⟩

theorem asciiTables_onAscii : asciiTables.OnAscii where
  normalizeNFD _ _ := rfl
  toLowerCase _ _ := rfl

theorem slugify_laws_ascii : SlugLaws asciiTables (ascii "--Hello,  World 2--") :=
  slugify_laws asciiTables asciiTables_onAscii (ascii "--Hello,  World 2--")

end Runlet.TextUtil
