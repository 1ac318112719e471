import Runlet.Lib.JsonMembers

/-!
Strings between quotation marks: how a string is written, and what its escapes
stand for when it is read. An escape of a high surrogate needs that of a low one
right behind it; a low one alone is an error.
-/

namespace Runlet.JsonScan

/-! ### Writing -/

def hexDigit (n : Nat) : Char := Nat.digitChar n

/-- A character as it is written. -/
def escapeChar (c : Char) : List Char :=
  if c = '"' then ['\\', '"']
  else if c = '\\' then ['\\', '\\']
  else if c.toNat = 8 then ['\\', 'b']
  else if c.toNat = 9 then ['\\', 't']
  else if c.toNat = 10 then ['\\', 'n']
  else if c.toNat = 12 then ['\\', 'f']
  else if c.toNat = 13 then ['\\', 'r']
  else if c.toNat < 32 then
    ['\\', 'u', '0', '0', hexDigit (c.toNat / 16), hexDigit (c.toNat % 16)]
  else [c]

def quote (cs : List Char) : List Char := '"' :: (cs.flatMap escapeChar ++ ['"'])

/-! ### Reading -/

/-- What an escape has been read of, behind a high surrogate or not. -/
inductive Pending where
  | plain
  | escape (lead : Option Nat)
  | hex (lead : Option Nat) (left value : Nat)
  | trail (lead : Nat)

def unescape (c : Char) : Option Char :=
  if c ∈ ['"', '\\', '/'] then some c
  else if c = 'b' then some (Char.ofNat 8)
  else if c = 'f' then some (Char.ofNat 12)
  else if c = 'n' then some (Char.ofNat 10)
  else if c = 'r' then some (Char.ofNat 13)
  else if c = 't' then some (Char.ofNat 9)
  else none

def isLead (n : Nat) : Bool := 0xD800 ≤ n && n ≤ 0xDBFF

def isTrail (n : Nat) : Bool := 0xDC00 ≤ n && n ≤ 0xDFFF

def decode : Pending → List Char → Option (List Char)
  | .plain, [] => some []
  | .escape _, [] | .hex _ _ _, [] | .trail _, [] => none
  | .plain, c :: rest =>
      if c = '\\' then decode (.escape none) rest else (decode .plain rest).map (c :: ·)
  | .trail lead, c :: rest => if c = '\\' then decode (.escape (some lead)) rest else none
  | .escape lead, c :: rest =>
      if c = 'u' then decode (.hex lead 3 0) rest
      else if lead = none then
        (unescape c).bind fun plain => (decode .plain rest).map (plain :: ·)
      else none
  | .hex lead left value, c :: rest =>
      (hexValue c).bind fun digit =>
        let n := value * 16 + digit
        if left ≠ 0 then decode (.hex lead (left - 1) n) rest
        else
          match lead with
          | none =>
              if isTrail n then none
              else if isLead n then decode (.trail n) rest
              else (decode .plain rest).map (Char.ofNat n :: ·)
          | some lead =>
              if isTrail n then
                (decode .plain rest).map
                  (Char.ofNat ((lead - 0xD800) * 0x400 + (n - 0xDC00) + 0x10000) :: ·)
              else none

/-- The string between the quotation marks. -/
def decodeName (literal : List Char) : Option String :=
  (decode .plain literal.tail.dropLast).map String.ofList

theorem hexValue_hexDigit : ∀ n < 16, hexValue (hexDigit n) = some n := by decide

/-- A character below the space that has no short escape. -/
theorem escapeChar_cases (c : Char) :
    (∃ d, escapeChar c = ['\\', d] ∧ d ≠ 'u' ∧ unescape d = some c) ∨
      (c.toNat < 32 ∧ escapeChar c =
        ['\\', 'u', '0', '0', hexDigit (c.toNat / 16), hexDigit (c.toNat % 16)]) ∨
      (escapeChar c = [c] ∧ c ≠ '"' ∧ c ≠ '\\' ∧ 32 ≤ c.toNat) := by
  have hcode (n : Nat) (h : c.toNat = n) : Char.ofNat n = c := by rw [← h, Char.ofNat_toNat]
  unfold escapeChar
  by_cases hquote : c = '"'
  · rw [if_pos hquote, hquote]
    exact .inl ⟨_, rfl, by decide, by decide⟩
  by_cases hback : c = '\\'
  · rw [if_neg hquote, if_pos hback, hback]
    exact .inl ⟨_, rfl, by decide, by decide⟩
  rw [if_neg hquote, if_neg hback]
  split
  · rename_i h
    exact .inl ⟨_, rfl, by decide, congrArg some (hcode 8 h)⟩
  split
  · rename_i h
    exact .inl ⟨_, rfl, by decide, congrArg some (hcode 9 h)⟩
  split
  · rename_i h
    exact .inl ⟨_, rfl, by decide, congrArg some (hcode 10 h)⟩
  split
  · rename_i h
    exact .inl ⟨_, rfl, by decide, congrArg some (hcode 12 h)⟩
  split
  · rename_i h
    exact .inl ⟨_, rfl, by decide, congrArg some (hcode 13 h)⟩
  split
  · rename_i h
    exact .inr (.inl ⟨h, rfl⟩)
  · rename_i h
    exact .inr (.inr ⟨rfl, hquote, hback, Nat.not_lt.mp h⟩)

/-- A character that was written is read back. -/
theorem decode_escapeChar (c : Char) (rest : List Char) :
    decode .plain (escapeChar c ++ rest) = (decode .plain rest).map (c :: ·) := by
  rcases escapeChar_cases c with ⟨d, hescape, hu, hplain⟩ | ⟨hsmall, hescape⟩ | ⟨hescape, -, hback, -⟩
  · rw [hescape, List.cons_append, List.cons_append, List.nil_append, decode, if_pos rfl, decode,
      if_neg hu, if_pos rfl, hplain, Option.bind_some]
  · have hhigh := hexValue_hexDigit (c.toNat / 16) (by omega)
    have hlow := hexValue_hexDigit (c.toNat % 16) (by omega)
    have hzero : hexValue '0' = some 0 := by decide
    have hcode : (((0 * 16 + 0) * 16 + 0) * 16 + c.toNat / 16) * 16 + c.toNat % 16 = c.toNat := by
      omega
    have htrail : isTrail c.toNat = false := by
      unfold isTrail
      rw [Bool.and_eq_false_iff, decide_eq_false_iff_not]
      omega
    have hlead : isLead c.toNat = false := by
      unfold isLead
      rw [Bool.and_eq_false_iff, decide_eq_false_iff_not]
      omega
    rw [hescape]
    simp only [List.cons_append, List.nil_append]
    rw [decode, if_pos rfl, decode, if_pos rfl, decode, hzero, Option.bind_some]
    dsimp only
    rw [if_pos (by decide), decode, hzero, Option.bind_some]
    dsimp only
    rw [if_pos (by decide), decode, hhigh, Option.bind_some]
    dsimp only
    rw [if_pos (by decide), decode, hlow, Option.bind_some]
    dsimp only
    rw [if_neg (by decide), hcode, htrail, hlead, Char.ofNat_toNat]
    rfl
  · rw [hescape, List.singleton_append, decode, if_neg hback]

theorem decode_quoted (cs : List Char) : decode .plain (cs.flatMap escapeChar) = some cs := by
  induction cs with
  | nil => rfl
  | cons c cs ih => rw [List.flatMap_cons, decode_escapeChar, ih, Option.map_some]

theorem decodeName_quote (name : String) : decodeName (quote name.toList) = some name := by
  unfold decodeName quote
  rw [List.tail_cons, List.dropLast_concat, decode_quoted, Option.map_some, String.ofList_toList]

/-! ### A written string is a value -/

/-- An escape that was written is an escape of the grammar. -/
theorem step_unescape (d plain : Char) (hu : d ≠ 'u') (h : unescape d = some plain) :
    step .escape [] d = some (.text, []) := by
  have hmem : d ∈ ['"', '\\', '/', 'b', 'f', 'n', 'r', 't'] := by
    by_contra hother
    simp only [List.mem_cons, List.not_mem_nil, or_false, not_or] at hother
    obtain ⟨hquote, hback, hslash, hb, hf, hn, hr, ht⟩ := hother
    unfold unescape at h
    simp only [List.mem_cons, List.not_mem_nil, hquote, hback, hslash, hb, hf, hn, hr, ht,
      or_false, if_false] at h
    cases h
  rw [step, if_neg hu, if_pos hmem]

theorem step_hex (left digit : Nat) (hdigit : digit < 16) :
    step (.hex (left + 1)) [] (hexDigit digit) = some (.hex left, []) ∧
      step (.hex 0) [] (hexDigit digit) = some (.text, []) := by
  have hvalue := hexValue_hexDigit digit hdigit
  refine ⟨?_, ?_⟩
  · rw [step, hvalue]
    rfl
  · rw [step, hvalue]
    rfl

/-- A character within a string is passed over as it was written. -/
theorem take_escapeChar (c : Char) (cs : List Char) :
    takeValue .text [] (escapeChar c ++ cs) =
      (takeValue .text [] cs).map fun parts => (escapeChar c ++ parts.1, parts.2) := by
  rcases escapeChar_cases c with ⟨d, hescape, hu, hplain⟩ | ⟨hsmall, hescape⟩ |
    ⟨hescape, hquote, hback, hvisible⟩
  · rw [hescape]
    simp only [List.cons_append, List.nil_append]
    rw [takeValue_step .text .escape [] [] '\\' _ (by decide) nofun,
      takeValue_step .escape .text [] [] d cs (step_unescape d c hu hplain) nofun,
      Option.map_map]
    rfl
  · obtain ⟨hhigh, -⟩ := step_hex 0 (c.toNat / 16) (by omega)
    obtain ⟨-, hlow⟩ := step_hex 0 (c.toNat % 16) (by omega)
    rw [hescape]
    simp only [List.cons_append, List.nil_append]
    rw [takeValue_step .text .escape [] [] '\\' _ (by decide) nofun,
      takeValue_step .escape (.hex 3) [] [] 'u' _ (by decide) nofun,
      takeValue_step (.hex 3) (.hex 2) [] [] '0' _ (by decide) nofun,
      takeValue_step (.hex 2) (.hex 1) [] [] '0' _ (by decide) nofun,
      takeValue_step (.hex 1) (.hex 0) [] [] _ _ hhigh nofun,
      takeValue_step (.hex 0) .text [] [] _ cs hlow nofun,
      Option.map_map, Option.map_map, Option.map_map, Option.map_map, Option.map_map]
    rfl
  · have hstep : step .text [] c = some (.text, []) := by
      rw [step, if_neg hquote, if_neg hback, if_neg (Nat.not_lt.mpr hvisible)]
    rw [hescape, List.singleton_append, takeValue_step .text .text [] [] c cs hstep nofun]
    rfl

theorem take_quoted (cs : List Char) :
    takeValue .text [] (cs.flatMap escapeChar ++ ['"']) =
      some (cs.flatMap escapeChar ++ ['"'], []) := by
  induction cs with
  | nil => decide
  | cons c cs ih =>
      rw [List.flatMap_cons, List.append_assoc, take_escapeChar, ih]
      rfl

/-- A written string is a value. -/
theorem isValue_quote (cs : List Char) : IsValue (quote cs) := by
  unfold IsValue scanValue quote
  rw [skipSpace_cons '"' _ (by decide), takeValue_step .value .text [] [] '"' _ (by decide) nofun,
    take_quoted]
  rfl

theorem isMember_quote (name value : List Char) (hvalue : IsValue value) :
    IsMember (quote name, value) := ⟨isValue_quote name, rfl, hvalue⟩

end Runlet.JsonScan
