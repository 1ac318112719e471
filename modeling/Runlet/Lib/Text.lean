import Mathlib.Data.List.Basic

/-!
Text operations by code points, written over character lists so that they
evaluate: trimming, splitting, ASCII case folding and bounded decimal parsing,
with the results the standard library of the modelled program documents.
-/

namespace Runlet.Text

/-- The Unicode `White_Space` property. -/
def isWhitespace (c : Char) : Bool :=
  (9 ≤ c.toNat && c.toNat ≤ 13) || c.toNat == 0x20 || c.toNat == 0x85 ||
  c.toNat == 0xA0 || c.toNat == 0x1680 ||
  (0x2000 ≤ c.toNat && c.toNat ≤ 0x200A) || c.toNat == 0x2028 ||
  c.toNat == 0x2029 || c.toNat == 0x202F || c.toNat == 0x205F ||
  c.toNat == 0x3000

def trimChars (chars : List Char) : List Char :=
  ((chars.dropWhile isWhitespace).reverse.dropWhile isWhitespace).reverse

def trim (text : String) : String :=
  String.ofList (trimChars text.toList)

/-- The pieces between occurrences of `sep`, empty ones included. -/
def splitChars (sep : Char) : List Char → List (List Char)
  | [] => [[]]
  | c :: rest =>
      if c = sep then [] :: splitChars sep rest
      else
        match splitChars sep rest with
        | [] => [[c]]
        | piece :: pieces => (c :: piece) :: pieces

def split (sep : Char) (text : String) : List String :=
  (splitChars sep text.toList).map String.ofList

/-- The parts before and after the last occurrence of `sep`. -/
def rsplitOnceChars (sep : Char) : List Char → Option (List Char × List Char)
  | [] => none
  | c :: rest =>
      match rsplitOnceChars sep rest with
      | some (before, after) => some (c :: before, after)
      | none => if c = sep then some ([], rest) else none

def rsplitOnce (sep : Char) (text : String) : Option (String × String) :=
  (rsplitOnceChars sep text.toList).map fun parts =>
    (String.ofList parts.1, String.ofList parts.2)

/-- The parts before and after the first occurrence of `sep`. -/
def splitOnceChars (sep : List Char) : List Char → Option (List Char × List Char)
  | [] => if sep = [] then some ([], []) else none
  | c :: rest =>
      if sep.isPrefixOf (c :: rest) then some ([], (c :: rest).drop sep.length)
      else (splitOnceChars sep rest).map fun parts => (c :: parts.1, parts.2)

def splitOnce (sep text : String) : Option (String × String) :=
  (splitOnceChars sep.toList text.toList).map fun parts =>
    (String.ofList parts.1, String.ofList parts.2)

/-- The pieces between occurrences of a text, from the left; `skip` characters
belong to an occurrence that was found. -/
def splitStrChars (sep : List Char) : Nat → List Char → List (List Char)
  | _, [] => [[]]
  | skip + 1, _ :: rest => splitStrChars sep skip rest
  | 0, c :: rest =>
      if sep.isPrefixOf (c :: rest) then [] :: splitStrChars sep (sep.length - 1) rest
      else
        match splitStrChars sep 0 rest with
        | [] => [[c]]
        | piece :: pieces => (c :: piece) :: pieces

def splitStr (sep text : String) : List String :=
  (splitStrChars sep.toList 0 text.toList).map String.ofList

def trimStartMatches (c : Char) (chars : List Char) : List Char :=
  chars.dropWhile (· == c)

def trimEndMatches (c : Char) (chars : List Char) : List Char :=
  (chars.reverse.dropWhile (· == c)).reverse

def lowerAsciiChar (c : Char) : Char :=
  if 65 ≤ c.toNat ∧ c.toNat ≤ 90 then Char.ofNat (c.toNat + 32) else c

def toAsciiLowercase (text : String) : String :=
  String.ofList (text.toList.map lowerAsciiChar)

def digitValue (c : Char) : Option Nat :=
  if 48 ≤ c.toNat ∧ c.toNat ≤ 57 then some (c.toNat - 48) else none

def parseDigits : Nat → List Char → Option Nat
  | acc, [] => some acc
  | acc, c :: rest =>
      match digitValue c with
      | none => none
      | some digit => parseDigits (acc * 10 + digit) rest

/-- An unsigned integer of at most `max`: an optional `+`, then at least one
digit and nothing else. -/
def parseUnsigned (max : Nat) (text : String) : Option Nat :=
  let digits := match text.toList with
    | '+' :: rest => rest
    | chars => chars
  if digits = [] then none
  else
    match parseDigits 0 digits with
    | none => none
    | some value => if value ≤ max then some value else none

theorem parseDigits_chars (acc value : Nat) (chars : List Char)
    (h : parseDigits acc chars = some value) : ∀ c ∈ chars, (digitValue c).isSome := by
  induction chars generalizing acc with
  | nil => simp
  | cons c rest ih =>
      unfold parseDigits at h
      cases hdigit : digitValue c with
      | none => simp [hdigit] at h
      | some digit =>
          simp only [hdigit] at h
          intro other hother
          rcases List.mem_cons.mp hother with rfl | hrest
          · simp [hdigit]
          · exact ih _ h other hrest

theorem splitChars_of_not_mem (sep : Char) (piece : List Char) (hsep : sep ∉ piece) :
    splitChars sep piece = [piece] := by
  induction piece with
  | nil => rfl
  | cons c rest ih =>
      have hc : c ≠ sep := fun heq => hsep (heq ▸ List.mem_cons_self)
      have hrest : sep ∉ rest := fun hmem => hsep (List.mem_cons_of_mem c hmem)
      simp [splitChars, hc, ih hrest]

theorem splitChars_append_sep (sep : Char) (piece rest : List Char)
    (hsep : sep ∉ piece) :
    splitChars sep (piece ++ sep :: rest) = piece :: splitChars sep rest := by
  induction piece with
  | nil => simp [splitChars]
  | cons c tail ih =>
      have hc : c ≠ sep := fun heq => hsep (heq ▸ List.mem_cons_self)
      have htail : sep ∉ tail := fun hmem => hsep (List.mem_cons_of_mem c hmem)
      simp [splitChars, hc, ih htail]

/-- A text is its first piece, or its first piece, the separator and the rest. -/
theorem splitChars_head (sep : Char) (chars : List Char) :
    (splitChars sep chars).head? = some (chars.takeWhile (· != sep)) := by
  induction chars with
  | nil => rfl
  | cons c rest ih =>
      by_cases hc : c = sep
      · simp [splitChars, hc]
      · cases hsplit : splitChars sep rest with
        | nil => simp [hsplit] at ih
        | cons piece pieces =>
            simp only [hsplit, List.head?_cons, Option.some.injEq] at ih
            simp [splitChars, hc, hsplit, ih]

/-- Every character is a separator or stands in one of the pieces. -/
theorem mem_splitChars (sep : Char) (chars : List Char) (c : Char) (hc : c ∈ chars) :
    c = sep ∨ ∃ piece ∈ splitChars sep chars, c ∈ piece := by
  induction chars with
  | nil => cases hc
  | cons head rest ih =>
      by_cases hhead : head = sep
      · rcases List.mem_cons.mp hc with rfl | hrest
        · exact .inl hhead
        · rcases ih hrest with hsep | ⟨piece, hpiece, hmem⟩
          · exact .inl hsep
          · exact .inr ⟨piece, by simp [splitChars, hhead, hpiece], hmem⟩
      · cases hsplit : splitChars sep rest with
        | nil =>
            have := splitChars_head sep rest
            simp [hsplit] at this
        | cons first others =>
            rw [hsplit] at ih
            simp only [splitChars, hhead, hsplit, if_false]
            rcases List.mem_cons.mp hc with rfl | hrest
            · exact .inr ⟨c :: first, List.mem_cons_self, List.mem_cons_self⟩
            · rcases ih hrest with hsep | ⟨piece, hpiece, hmem⟩
              · exact .inl hsep
              · rcases List.mem_cons.mp hpiece with rfl | hothers
                · exact .inr ⟨head :: piece, List.mem_cons_self,
                    List.mem_cons_of_mem head hmem⟩
                · exact .inr ⟨piece, List.mem_cons_of_mem _ hothers, hmem⟩

theorem rsplitOnceChars_of_not_mem (sep : Char) (chars : List Char) (hsep : sep ∉ chars) :
    rsplitOnceChars sep chars = none := by
  induction chars with
  | nil => rfl
  | cons c rest ih =>
      have hc : c ≠ sep := fun heq => hsep (heq ▸ List.mem_cons_self)
      have hrest : sep ∉ rest := fun hmem => hsep (List.mem_cons_of_mem c hmem)
      simp [rsplitOnceChars, ih hrest, hc]

theorem rsplitOnceChars_append (sep : Char) (before after : List Char) (hsep : sep ∉ after) :
    rsplitOnceChars sep (before ++ sep :: after) = some (before, after) := by
  induction before with
  | nil => simp [rsplitOnceChars, rsplitOnceChars_of_not_mem sep after hsep]
  | cons c rest ih => simp [rsplitOnceChars, ih]

theorem rsplitOnceChars_none (sep : Char) (chars : List Char)
    (h : rsplitOnceChars sep chars = none) : sep ∉ chars := by
  induction chars with
  | nil => simp
  | cons c rest ih =>
      unfold rsplitOnceChars at h
      cases hrest : rsplitOnceChars sep rest with
      | some parts => simp [hrest] at h
      | none =>
          rw [hrest] at h
          by_cases hc : c = sep
          · simp [hc] at h
          · intro hmem
            rcases List.mem_cons.mp hmem with heq | htail
            · exact hc heq.symm
            · exact ih hrest htail

theorem rsplitOnceChars_some (sep : Char) (chars before after : List Char)
    (h : rsplitOnceChars sep chars = some (before, after)) :
    chars = before ++ sep :: after ∧ sep ∉ after := by
  induction chars generalizing before with
  | nil => cases h
  | cons c rest ih =>
      unfold rsplitOnceChars at h
      cases hrest : rsplitOnceChars sep rest with
      | some parts =>
          obtain ⟨front, back⟩ := parts
          rw [hrest] at h
          cases h
          obtain ⟨hsplit, hsep⟩ := ih front hrest
          exact ⟨by rw [hsplit]; rfl, hsep⟩
      | none =>
          rw [hrest] at h
          by_cases hc : c = sep
          · simp only [hc, if_true, Option.some.injEq, Prod.mk.injEq] at h
            obtain ⟨rfl, rfl⟩ := h
            exact ⟨by rw [hc]; rfl, rsplitOnceChars_none sep rest hrest⟩
          · simp [hc] at h

theorem splitOnceChars_append (sep : Char) (more before after : List Char)
    (hsep : sep ∉ before) :
    splitOnceChars (sep :: more) (before ++ sep :: (more ++ after)) = some (before, after) := by
  induction before with
  | nil => simp [splitOnceChars]
  | cons c rest ih =>
      have hc : sep ≠ c := fun heq => hsep (heq ▸ List.mem_cons_self)
      have hrest : sep ∉ rest := fun hmem => hsep (List.mem_cons_of_mem c hmem)
      simp [splitOnceChars, hc, ih hrest]

theorem splitOnceChars_some (sep chars before after : List Char)
    (h : splitOnceChars sep chars = some (before, after)) :
    chars = before ++ sep ++ after := by
  induction chars generalizing before with
  | nil =>
      unfold splitOnceChars at h
      split at h
      · rename_i hsep
        cases h
        simp [hsep]
      · cases h
  | cons c rest ih =>
      unfold splitOnceChars at h
      split at h
      · rename_i hsep
        cases h
        obtain ⟨tail, htail⟩ := List.isPrefixOf_iff_prefix.mp hsep
        rw [← htail]
        simp
      · obtain ⟨⟨front, back⟩, hparts, hpair⟩ := Option.map_eq_some_iff.mp h
        cases hpair
        rw [ih front hparts]
        simp

/-- The part before a single separator is free of it. -/
theorem splitOnceChars_before (sep : Char) (chars before after : List Char)
    (h : splitOnceChars [sep] chars = some (before, after)) : sep ∉ before := by
  induction chars generalizing before with
  | nil => simp [splitOnceChars] at h
  | cons c rest ih =>
      unfold splitOnceChars at h
      by_cases hc : sep = c
      · simp only [hc, List.isPrefixOf, beq_self_eq_true, Bool.and_self, if_true,
          Option.some.injEq, Prod.mk.injEq] at h
        rw [← h.1]
        exact List.not_mem_nil
      · have hfront : [sep].isPrefixOf (c :: rest) = false := by
          simp [List.isPrefixOf, hc]
        rw [hfront] at h
        obtain ⟨⟨front, back⟩, hparts, hpair⟩ := Option.map_eq_some_iff.mp h
        cases hpair
        intro hmem
        rcases List.mem_cons.mp hmem with heq | htail
        · exact hc heq
        · exact ih front hparts htail

/-! ### Trimming -/

theorem dropWhile_eq_self {α : Type} (p : α → Bool) (items : List α)
    (hhead : ∀ item, items.head? = some item → p item = false) : items.dropWhile p = items := by
  cases items with
  | nil => rfl
  | cons item rest => simp [hhead item rfl]

theorem dropWhile_head {α : Type} (p : α → Bool) (items : List α) (item : α)
    (hitem : (items.dropWhile p).head? = some item) : p item = false := by
  have h := List.head?_dropWhile_not p items
  rw [hitem] at h
  simpa using h

/-- A text whose ends are no white space is left alone. -/
theorem trimChars_eq_self (chars : List Char)
    (hhead : ∀ c, chars.head? = some c → isWhitespace c = false)
    (hlast : ∀ c, chars.getLast? = some c → isWhitespace c = false) : trimChars chars = chars := by
  unfold trimChars
  rw [dropWhile_eq_self isWhitespace chars hhead, dropWhile_eq_self, List.reverse_reverse]
  simpa using hlast

/-- The ends of a trimmed text are no white space. -/
theorem trimChars_ends (chars : List Char) (c : Char)
    (hend : (trimChars chars).head? = some c ∨ (trimChars chars).getLast? = some c) :
    isWhitespace c = false := by
  unfold trimChars at hend
  rcases hend with hhead | hlast
  · -- what trimming the end leaves is a front of the rest
    have hfront : ((chars.dropWhile isWhitespace).reverse.dropWhile isWhitespace).reverse <+:
        chars.dropWhile isWhitespace := by
      have h := List.dropWhile_suffix isWhitespace (l := (chars.dropWhile isWhitespace).reverse)
      rw [← List.reverse_prefix, List.reverse_reverse] at h
      exact h
    have hwhole := (List.singleton_prefix_iff_head?_eq_some.mpr hhead).trans hfront
    exact dropWhile_head isWhitespace chars c
      (List.singleton_prefix_iff_head?_eq_some.mp hwhole)
  · rw [List.getLast?_reverse] at hlast
    exact dropWhile_head isWhitespace _ c hlast

theorem trimChars_trimChars (chars : List Char) :
    trimChars (trimChars chars) = trimChars chars :=
  trimChars_eq_self _ (fun c h => trimChars_ends chars c (.inl h))
    (fun c h => trimChars_ends chars c (.inr h))

/-! ### Splitting and joining -/

theorem splitChars_ne_nil (sep : Char) (chars : List Char) : splitChars sep chars ≠ [] := by
  intro hnil
  have hhead := splitChars_head sep chars
  rw [hnil] at hhead
  cases hhead

theorem not_mem_splitChars (sep : Char) (chars : List Char) :
    ∀ piece ∈ splitChars sep chars, sep ∉ piece := by
  induction chars with
  | nil => simp [splitChars]
  | cons c rest ih =>
      unfold splitChars
      split
      · simpa using ih
      · rename_i hc
        cases hsplit : splitChars sep rest with
        | nil => simpa using fun heq => hc heq.symm
        | cons first others =>
            rw [hsplit] at ih
            simp only [List.forall_mem_cons] at ih ⊢
            refine ⟨?_, ih.2⟩
            intro hmem
            rcases List.mem_cons.mp hmem with heq | htail
            · exact hc heq.symm
            · exact ih.1 htail

theorem intercalate_splitChars (sep : Char) (chars : List Char) :
    List.intercalate [sep] (splitChars sep chars) = chars := by
  induction chars with
  | nil => rfl
  | cons c rest ih =>
      unfold splitChars
      cases hsplit : splitChars sep rest with
      | nil => exact absurd hsplit (splitChars_ne_nil sep rest)
      | cons first others =>
          rw [hsplit] at ih
          split
          · rename_i hc
            rw [List.intercalate_cons_cons, ih, hc]
            rfl
          · cases others with
            | nil => simpa using ih
            | cons next others =>
                rw [List.intercalate_cons_cons] at ih
                simp only [List.intercalate_cons_cons, List.cons_append, ih]

theorem splitChars_intercalate (sep : Char) (pieces : List (List Char)) (hne : pieces ≠ [])
    (hpieces : ∀ piece ∈ pieces, sep ∉ piece) :
    splitChars sep (List.intercalate [sep] pieces) = pieces := by
  induction pieces with
  | nil => exact absurd rfl hne
  | cons first rest ih =>
      have hfirst := hpieces first List.mem_cons_self
      cases rest with
      | nil =>
          rw [List.intercalate_singleton]
          exact splitChars_of_not_mem sep first hfirst
      | cons next rest =>
          have hjoin : List.intercalate [sep] (first :: next :: rest) =
              first ++ sep :: List.intercalate [sep] (next :: rest) := by
            simp [List.intercalate]
          rw [hjoin, splitChars_append_sep sep first _ hfirst, ih (by simp)]
          intro piece hpiece
          exact hpieces piece (List.mem_cons_of_mem first hpiece)

/-- A substitution that keeps the separator, and makes no other, goes through
the pieces. -/
theorem splitChars_flatMap (sep : Char) (f : Char → List Char) (hsep : f sep = [sep])
    (hother : ∀ c, c ≠ sep → sep ∉ f c) (chars : List Char) :
    splitChars sep (chars.flatMap f) =
      (splitChars sep chars).map fun piece => piece.flatMap f := by
  have hpiece : ∀ piece : List Char, sep ∉ piece → sep ∉ piece.flatMap f := by
    intro piece hnot hmem
    obtain ⟨c, hc, hin⟩ := List.mem_flatMap.mp hmem
    exact hother c (fun heq => hnot (heq ▸ hc)) hin
  generalize hpieces : splitChars sep chars = pieces
  induction pieces generalizing chars with
  | nil => exact absurd hpieces (splitChars_ne_nil sep chars)
  | cons first others ih =>
      have hjoin := intercalate_splitChars sep chars
      have hfirst : sep ∉ first :=
        not_mem_splitChars sep chars first (by rw [hpieces]; exact List.mem_cons_self)
      rw [hpieces] at hjoin
      cases others with
      | nil =>
          rw [List.intercalate_singleton] at hjoin
          rw [← hjoin, splitChars_of_not_mem sep _ (hpiece first hfirst)]
          rfl
      | cons next others =>
          rw [List.intercalate_cons_cons, List.append_assoc, List.singleton_append] at hjoin
          rw [← hjoin, splitChars_append_sep sep first _ hfirst] at hpieces
          have hrest := ih _ (List.cons.inj hpieces).2
          rw [← hjoin, List.flatMap_append, List.flatMap_cons, hsep, List.singleton_append,
            splitChars_append_sep sep _ _ (hpiece first hfirst), hrest]
          rfl

/-! ### Decimal numbers -/

theorem parseDigits_append (acc : Nat) (front back : List Char) :
    parseDigits acc (front ++ back) =
      (parseDigits acc front).bind fun value => parseDigits value back := by
  induction front generalizing acc with
  | nil => rfl
  | cons c rest ih =>
      simp only [List.cons_append, parseDigits]
      cases digitValue c with
      | none => rfl
      | some digit => exact ih (acc * 10 + digit)

theorem digitValue_digitChar (digit : Nat) (hdigit : digit < 10) :
    digitValue digit.digitChar = some digit := by
  have hchar := Nat.toNat_digitChar_of_lt_ten hdigit
  have hrange : 48 ≤ digit.digitChar.toNat ∧ digit.digitChar.toNat ≤ 57 := by omega
  rw [digitValue, if_pos hrange, hchar]
  simp

/-- A number is read back from its digits. -/
theorem parseDigits_toDigits (value : Nat) : parseDigits 0 (Nat.toDigits 10 value) = some value := by
  induction value using Nat.strongRecOn with
  | ind value ih =>
      by_cases hsmall : value < 10
      · rw [Nat.toDigits_of_lt_base hsmall]
        simp [parseDigits, digitValue_digitChar value hsmall]
      · have hlast := digitValue_digitChar (value % 10) (by omega)
        rw [Nat.toDigits_of_base_le (by omega) (by omega), parseDigits_append,
          ih (value / 10) (by omega)]
        simp only [Option.bind_some, parseDigits, hlast, Option.some.injEq]
        omega

end Runlet.Text
