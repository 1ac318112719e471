import Mathlib.Data.List.TakeWhile
import Mathlib.Data.Nat.Log
import Runlet.Lib.Binary64
import Runlet.Lib.Text

/-!
Numbers as text, the two ways of a script: a text read as a number, with its
radix prefixes, its exponents and its infinities, and a number written with the
fewest digits that read back as it. Beside them the plain notation of decimals,
which has neither prefixes nor exponents.
-/

namespace Runlet.NumberText

open Binary64 Text

/-! ### Digits -/

def isDigit (c : Char) : Bool := (digitValue c).isSome

/-- The value of digits in base ten. -/
def natValue (digits : List Char) : Nat := (parseDigits 0 digits).getD 0

/-- A sign, and what follows it. -/
def signed : List Char → Bool × List Char
  | '+' :: rest => (false, rest)
  | '-' :: rest => (true, rest)
  | cs => (false, cs)

def withSign (negative : Bool) (q : ℚ) : ℚ := if negative then -q else q

/-- Digits with at most one point and at least one digit, and what follows. -/
def mantissa (cs : List Char) : Option (ℚ × List Char) :=
  let whole := cs.takeWhile isDigit
  let (fraction, rest) := match cs.dropWhile isDigit with
    | '.' :: more => (more.takeWhile isDigit, more.dropWhile isDigit)
    | rest => ([], rest)
  if whole ++ fraction = [] then none
  else some ((natValue (whole ++ fraction) : ℚ) / 10 ^ fraction.length, rest)

/-! ### The plain notation -/

/-- Separators are skipped after the first digit. -/
def dropSeparators (seen : Bool) : List Char → Option (List Char)
  | [] => some []
  | c :: rest =>
      if c = '_' then
        if seen then dropSeparators seen rest else none
      else (dropSeparators (seen || isDigit c) rest).map (c :: ·)

/-- The value of a text in plain notation: sign, digits and a point. -/
def plainValue (text : String) : Option ℚ :=
  let (negative, body) := signed text.toList
  match (dropSeparators false body).bind mantissa with
  | some (q, []) => some (withSign negative q)
  | _ => none

theorem isDigit_iff (c : Char) : isDigit c = true ↔ 48 ≤ c.toNat ∧ c.toNat ≤ 57 := by
  unfold isDigit digitValue
  split
  · rename_i h
    simp [h]
  · rename_i h
    simp [h]

theorem signed_of_digits (cs : List Char) (hdigits : ∀ c ∈ cs, isDigit c = true) :
    signed cs = (false, cs) := by
  cases cs with
  | nil => rfl
  | cons c rest =>
      have hc := hdigits c List.mem_cons_self
      unfold signed
      split
      · rename_i heq
        obtain ⟨rfl, -⟩ := List.cons.inj heq
        exact absurd hc (by decide)
      · rename_i heq
        obtain ⟨rfl, -⟩ := List.cons.inj heq
        exact absurd hc (by decide)
      · rfl

theorem dropSeparators_of_digits (cs : List Char) (hdigits : ∀ c ∈ cs, isDigit c = true)
    (seen : Bool) : dropSeparators seen cs = some cs := by
  induction cs generalizing seen with
  | nil => rfl
  | cons c rest ih =>
      have hc : c ≠ '_' := by
        rintro rfl
        exact absurd (hdigits '_' List.mem_cons_self) (by decide)
      rw [dropSeparators, if_neg hc, ih (fun x hx => hdigits x (List.mem_cons_of_mem c hx))]
      rfl

/-- Digits alone are plain. -/
theorem plainValue_digits (cs : List Char) (hdigits : ∀ c ∈ cs, isDigit c = true)
    (hne : cs ≠ []) : plainValue (String.ofList cs) = some (natValue cs : ℚ) := by
  have htake : cs.takeWhile isDigit = cs := by
    rw [← List.append_nil cs, List.takeWhile_append_of_pos (by simpa using hdigits)]
    simp
  have hdrop : cs.dropWhile isDigit = [] := List.dropWhile_eq_nil_iff.mpr hdigits
  unfold plainValue
  rw [String.toList_ofList, signed_of_digits cs hdigits]
  simp only [dropSeparators_of_digits cs hdigits, Option.bind_some, mantissa, htake, hdrop]
  simp [hne, withSign]

theorem trimChars_digits (cs : List Char) (hdigits : ∀ c ∈ cs, isDigit c = true) :
    trimChars cs = cs := by
  have hplain : ∀ c ∈ cs, isWhitespace c = false := by
    intro c hc
    have hrange := (isDigit_iff c).mp (hdigits c hc)
    simp only [isWhitespace, Bool.or_eq_false_iff, Bool.and_eq_false_iff, decide_eq_false_iff_not,
      beq_eq_false_iff_ne]
    omega
  exact trimChars_eq_self cs (fun c hc => hplain c (List.mem_of_mem_head? hc))
    (fun c hc => hplain c (List.mem_of_mem_getLast? hc))

/-! ### Reading a number -/

/-- White space and line terminators. -/
def isBlank (c : Char) : Bool :=
  (9 ≤ c.toNat && c.toNat ≤ 13) || c.toNat == 0x20 || c.toNat == 0xA0 ||
  c.toNat == 0x1680 || (0x2000 ≤ c.toNat && c.toNat ≤ 0x200A) || c.toNat == 0x2028 ||
  c.toNat == 0x2029 || c.toNat == 0x202F || c.toNat == 0x205F || c.toNat == 0x3000 ||
  c.toNat == 0xFEFF

/-- `String.prototype.trim`. -/
def strip (text : String) : String :=
  String.ofList ((text.toList.dropWhile isBlank).reverse.dropWhile isBlank).reverse

def radixDigit (c : Char) : Option Nat :=
  if 48 ≤ c.toNat ∧ c.toNat ≤ 57 then some (c.toNat - 48)
  else if 97 ≤ c.toNat ∧ c.toNat ≤ 122 then some (c.toNat - 87)
  else if 65 ≤ c.toNat ∧ c.toNat ≤ 90 then some (c.toNat - 55)
  else none

def radixValue (radix : Nat) : Nat → List Char → Option Nat
  | acc, [] => some acc
  | acc, c :: rest =>
      match radixDigit c with
      | some digit =>
          if digit < radix then radixValue radix (acc * radix + digit) rest else none
      | none => none

def radixOf (c : Char) : Option Nat :=
  if c = 'x' ∨ c = 'X' then some 16
  else if c = 'o' ∨ c = 'O' then some 8
  else if c = 'b' ∨ c = 'B' then some 2
  else none

def exponentPart : List Char → Option Int
  | [] => some 0
  | c :: rest =>
      let (negative, digits) := signed rest
      if (c = 'e' ∨ c = 'E') ∧ digits ≠ [] ∧ digits.all isDigit then
        some (if negative then -(natValue digits : Int) else natValue digits)
      else none

def decimalLiteral (cs : List Char) : Number :=
  let (negative, body) := signed cs
  if body = "Infinity".toList then .infinite negative
  else
    match mantissa body with
    | none => .nan
    | some (q, rest) =>
        match exponentPart rest with
        | none => .nan
        | some e => Number.ofRat (withSign negative q * (10 : ℚ) ^ e)

/-- `Number(text)`. -/
def toNumber (text : String) : Number :=
  match (strip text).toList with
  | [] => Number.ofRat 0
  | '0' :: c :: digits =>
      match radixOf c with
      | some radix =>
          if digits = [] then .nan
          else
            match radixValue radix 0 digits with
            | some n => Number.ofRat n
            | none => .nan
      | none => decimalLiteral ('0' :: c :: digits)
  | cs => decimalLiteral cs

def isFinite (n : Number) : Bool := n.val?.isSome

/-- The value of a text in plain notation or with an exponent behind it. -/
def decimalValue (text : String) : Option ℚ :=
  let (negative, body) := signed text.toList
  match (dropSeparators false body).bind mantissa with
  | some (q, rest) => (exponentPart rest).map fun e => withSign negative q * (10 : ℚ) ^ e
  | none => none

theorem decimalValue_of_plain {text : String} {q : ℚ} (h : plainValue text = some q) :
    decimalValue text = some q := by
  unfold plainValue at h
  unfold decimalValue
  simp only at h ⊢
  split at h
  · next value heq =>
      cases h
      simp only [heq]
      rw [exponentPart, Option.map_some, zpow_zero, mul_one]
  · cases h

/-! ### Writing a number -/

/-- The number of digits before the point, or minus the zeros behind it. -/
def pointPosition (q : ℚ) : Int :=
  let guess := (Nat.log 10 q.num.natAbs : Int) - Nat.log 10 q.den
  if (10 : ℚ) ^ guess ≤ q then guess + 1 else guess

/-- The closest number of `count` digits, as its digits read without the point,
when it rounds to `q`; an even one on a tie. -/
def shortened (q : ℚ) (count : Nat) : Option Nat :=
  let unit := (10 : ℚ) ^ (pointPosition q - count)
  let low := ⌊q / unit⌋.toNat
  let high := ⌈q / unit⌉.toNat
  let lowFits := roundDouble (low * unit) = q
  let highFits := roundDouble (high * unit) = q
  let lowCloser := q - low * unit < high * unit - q ∨
    (q - low * unit = high * unit - q ∧ low % 2 = 0)
  if lowFits ∧ (lowCloser ∨ ¬ highFits) then some low
  else if highFits then some high
  else none

/-- The shortest digits, with the position of the point; 17 are always enough. -/
def shortest (q : ℚ) : Nat × Int :=
  match (List.range 17).findSome? fun k =>
      (shortened q (k + 1)).map fun digits => (digits, k + 1) with
  | some (digits, count) =>
      if digits = 10 ^ count then (digits / 10, pointPosition q + 1)
      else (digits, pointPosition q)
  | none => (⌊q / (10 : ℚ) ^ (pointPosition q - 17)⌋.toNat, pointPosition q)

/-- Digits with a point after `point` of them, or an exponent when that is too
far out. -/
def layout (digits : List Char) (point : Int) : List Char :=
  if 0 < point ∧ point ≤ 21 then
    if digits.length ≤ point then
      digits ++ List.replicate (point.toNat - digits.length) '0'
    else digits.take point.toNat ++ '.' :: digits.drop point.toNat
  else if -6 < point ∧ point ≤ 0 then
    '0' :: '.' :: (List.replicate (-point).toNat '0' ++ digits)
  else
    let exponent := point - 1
    let sign := if exponent < 0 then '-' else '+'
    let fraction := match digits.drop 1 with
      | [] => []
      | more => '.' :: more
    digits.take 1 ++ fraction ++ 'e' :: sign :: Nat.toDigits 10 exponent.natAbs

def positiveText (q : ℚ) : List Char :=
  let (digits, point) := shortest q
  layout (Nat.toDigits 10 digits) point

/-- `String(n)`. -/
def numberText : Number → String
  | .nan => "NaN"
  | .infinite negative => if negative then "-Infinity" else "Infinity"
  | .finite q _ =>
      if q = 0 then "0"
      else if q < 0 then String.ofList ('-' :: positiveText (-q))
      else String.ofList (positiveText q)

/-! ### Writing a decimal -/

/-- The last `count` digits, zeros in front. -/
def lastDigits : Nat → Nat → List Char
  | 0, _ => []
  | count + 1, n => lastDigits count (n / 10) ++ [(n % 10).digitChar]

def fractionText (n scale : Nat) : List Char :=
  if scale = 0 then [] else '.' :: lastDigits scale n

/-- A decimal with all the digits of its scale. -/
def decimalText (mantissa : Int) (scale : Nat) : String :=
  String.ofList ((if mantissa < 0 then ['-'] else []) ++
    (Nat.toDigits 10 (mantissa.natAbs / 10 ^ scale) ++ fractionText mantissa.natAbs scale))

theorem isDigit_of_parseDigits (acc value : Nat) (cs : List Char)
    (hparse : parseDigits acc cs = some value) : ∀ c ∈ cs, isDigit c = true := by
  induction cs generalizing acc with
  | nil => simp
  | cons c rest ih =>
      simp only [parseDigits] at hparse
      cases hdigit : digitValue c with
      | none => simp [hdigit] at hparse
      | some digit =>
          simp only [hdigit] at hparse
          intro x hx
          rcases List.mem_cons.mp hx with rfl | hrest
          · simp [isDigit, hdigit]
          · exact ih (acc * 10 + digit) hparse x hrest

theorem parseDigits_lastDigits (count n acc : Nat) :
    parseDigits acc (lastDigits count n) = some (acc * 10 ^ count + n % 10 ^ count) := by
  induction count generalizing n with
  | zero => simp [lastDigits, parseDigits, Nat.mod_one]
  | succ count ih =>
      have hlast := digitValue_digitChar (n % 10) (by omega)
      have hsplit : n % 10 ^ (count + 1) = n / 10 % 10 ^ count * 10 + n % 10 := by
        rw [Nat.pow_succ, Nat.mul_comm (10 ^ count) 10, Nat.mod_mul]
        omega
      rw [lastDigits, parseDigits_append, ih]
      simp only [Option.bind_some, parseDigits, hlast, Option.some.injEq]
      rw [hsplit]
      ring

theorem length_lastDigits (count n : Nat) : (lastDigits count n).length = count := by
  induction count generalizing n with
  | zero => rfl
  | succ count ih => simp [lastDigits, ih]

/-- All digits of a decimal in a row are its mantissa. -/
theorem parseDigits_parts (n scale : Nat) :
    parseDigits 0 (Nat.toDigits 10 (n / 10 ^ scale) ++ lastDigits scale n) = some n := by
  rw [parseDigits_append, parseDigits_toDigits, Option.bind_some, parseDigits_lastDigits,
    Nat.div_add_mod']

theorem whole_isDigit (n : Nat) : ∀ c ∈ Nat.toDigits 10 n, isDigit c = true :=
  isDigit_of_parseDigits 0 n _ (parseDigits_toDigits n)

theorem takeWhile_whole (n : Nat) (tail : List Char)
    (htail : ∀ c, tail.head? = some c → isDigit c = false) :
    (Nat.toDigits 10 n ++ tail).takeWhile isDigit = Nat.toDigits 10 n := by
  rw [List.takeWhile_append_of_pos (whole_isDigit n)]
  cases tail with
  | nil => simp
  | cons c rest => simp [htail c rfl]

theorem fractionText_head (n scale : Nat) (c : Char)
    (hhead : (fractionText n scale).head? = some c) : isDigit c = false := by
  unfold fractionText at hhead
  split at hhead
  · cases hhead
  · cases hhead
    decide

/-- The digits of both parts are read back from the text. -/
theorem parts_injective (n scale n' scale' : Nat)
    (heq : Nat.toDigits 10 (n / 10 ^ scale) ++ fractionText n scale =
      Nat.toDigits 10 (n' / 10 ^ scale') ++ fractionText n' scale') :
    n = n' ∧ scale = scale' := by
  have hwhole : Nat.toDigits 10 (n / 10 ^ scale) = Nat.toDigits 10 (n' / 10 ^ scale') := by
    rw [← takeWhile_whole (n / 10 ^ scale) _ (fractionText_head n scale), heq,
      takeWhile_whole _ _ (fractionText_head n' scale')]
  rw [hwhole, List.append_cancel_left_eq] at heq
  have hfraction : lastDigits scale n = lastDigits scale' n' := by
    unfold fractionText at heq
    split at heq
    · rename_i hzero
      split at heq
      · rename_i hzero'
        rw [hzero, hzero']
        rfl
      · cases heq
    · split at heq
      · cases heq
      · exact (List.cons.inj heq).2
  have hscale : scale = scale' := by
    rw [← length_lastDigits scale n, hfraction, length_lastDigits]
  have hparse := parseDigits_parts n scale
  rw [hwhole, hfraction, parseDigits_parts n' scale'] at hparse
  exact ⟨(Option.some.inj hparse).symm, hscale⟩

theorem decimalText_injective (m m' : Int) (scale scale' : Nat)
    (heq : decimalText m scale = decimalText m' scale') : m = m' ∧ scale = scale' := by
  have hchars := String.ofList_injective heq
  have hhead : ∀ (n : Nat) (tail rest : List Char), Nat.toDigits 10 n ++ tail ≠ '-' :: rest := by
    intro n tail rest hminus
    have hdigit := whole_isDigit n '-'
    cases hdigits : Nat.toDigits 10 n with
    | nil => exact Nat.toDigits_ne_nil hdigits
    | cons c more =>
        rw [hdigits, List.cons_append] at hminus
        obtain ⟨rfl, -⟩ := List.cons.inj hminus
        rw [hdigits] at hdigit
        exact absurd (hdigit List.mem_cons_self) (by decide)
  by_cases hneg : m < 0
  · by_cases hneg' : m' < 0
    · rw [if_pos hneg, if_pos hneg'] at hchars
      obtain ⟨habs, hscale⟩ := parts_injective _ _ _ _ (List.append_cancel_left hchars)
      exact ⟨by omega, hscale⟩
    · rw [if_pos hneg, if_neg hneg'] at hchars
      exact absurd hchars.symm (hhead _ _ _)
  · by_cases hneg' : m' < 0
    · rw [if_neg hneg, if_pos hneg'] at hchars
      exact absurd hchars (hhead _ _ _)
    · rw [if_neg hneg, if_neg hneg'] at hchars
      obtain ⟨habs, hscale⟩ := parts_injective _ _ _ _ hchars
      exact ⟨by omega, hscale⟩

/-- A whole number as it is written. -/
theorem plainValue_natText (n : Nat) :
    plainValue (trim (toString n)) = some (n : ℚ) := by
  have hdigits := whole_isDigit n
  have htext : trim (toString n) = String.ofList (Nat.toDigits 10 n) := by
    unfold trim
    rw [show (toString n).toList = Nat.toDigits 10 n from String.toList_ofList,
      trimChars_digits _ hdigits]
  rw [htext, plainValue_digits _ hdigits Nat.toDigits_ne_nil, natValue, parseDigits_toDigits]
  rfl

/-- Nothing but a sign, digits and a point. -/
theorem mem_decimalText (m : Int) (scale : Nat) (c : Char) (hc : c ∈ (decimalText m scale).toList) :
    c = '-' ∨ c = '.' ∨ isDigit c = true := by
  have hfraction : ∀ c ∈ fractionText m.natAbs scale, c = '.' ∨ isDigit c = true := by
    intro c hc
    unfold fractionText at hc
    split at hc
    · cases hc
    · rcases List.mem_cons.mp hc with rfl | hrest
      · exact .inl rfl
      · exact .inr (isDigit_of_parseDigits 0 _ _ (parseDigits_lastDigits scale m.natAbs 0) c hrest)
  unfold decimalText at hc
  rw [String.toList_ofList] at hc
  rcases List.mem_append.mp hc with hsign | hbody
  · split at hsign
    · exact .inl (List.mem_singleton.mp hsign)
    · cases hsign
  · rcases List.mem_append.mp hbody with hwhole | hrest
    · exact .inr (.inr (whole_isDigit _ c hwhole))
    · exact .inr (hfraction c hrest)

end Runlet.NumberText
