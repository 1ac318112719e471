import Mathlib.Data.List.Lex
import Mathlib.Data.List.Sort
import Mathlib.Data.String.Basic
import Runlet.Lib.Text

/-!
Percent-encoded text: the UTF-8 bytes of a text, each kept as its character or
written as `%` and two hexadecimal digits, and query strings made of encoded
keys and values. Which bytes are kept is a parameter; decoding does not depend
on it. What is encoded has no delimiter in it that is not kept, so a query
string comes apart into the pairs it was built from.
-/

namespace Runlet.PercentText

open Text

abbrev Bytes := List UInt8

def utf8 (text : String) : Bytes := text.toUTF8.data.toList

def fromUtf8 (bytes : Bytes) : Option String := String.fromUTF8? ⟨bytes.toArray⟩

theorem fromUtf8_utf8 (text : String) : fromUtf8 (utf8 text) = some text := by
  have hbytes : (⟨(utf8 text).toArray⟩ : ByteArray) = text.toUTF8 := by
    simp [utf8]
  have hvalid : text.toUTF8.IsValidUTF8 := text.isValidUTF8
  rw [fromUtf8, hbytes, String.fromUTF8?, dif_pos hvalid]
  rfl

theorem utf8_injective (left right : String) (h : utf8 left = utf8 right) : left = right := by
  have hboth := fromUtf8_utf8 left
  rw [h, fromUtf8_utf8] at hboth
  exact (Option.some.inj hboth).symm

/-! ### Bytes and hexadecimal digits -/

/-- The upper-case digit of a number below 16. -/
def hexDigit (value : Nat) : Char :=
  if value < 10 then Char.ofNat (48 + value) else Char.ofNat (55 + value)

def hexValue (c : Char) : Option Nat :=
  if 48 ≤ c.toNat ∧ c.toNat ≤ 57 then some (c.toNat - 48)
  else if 65 ≤ c.toNat ∧ c.toNat ≤ 70 then some (c.toNat - 55)
  else if 97 ≤ c.toNat ∧ c.toNat ≤ 102 then some (c.toNat - 87)
  else none

def isAlphanumeric (byte : UInt8) : Bool :=
  (48 ≤ byte.toNat && byte.toNat ≤ 57) || (65 ≤ byte.toNat && byte.toNat ≤ 90) ||
    (97 ≤ byte.toNat && byte.toNat ≤ 122)

/-- The bytes that stand for themselves: letters and digits and some other
ASCII characters, but never the percent sign. -/
structure KeepSet where
  keep : UInt8 → Bool
  alphanumeric : ∀ byte, isAlphanumeric byte = true → keep byte = true
  ascii : ∀ byte, keep byte = true → byte.toNat < 128
  percent : keep 37 = false

/-- Letters, digits and the listed characters. -/
def KeepSet.of (extra : List UInt8) (hextra : extra.all (fun b => b.toNat < 128 && b != 37)) :
    KeepSet where
  keep := fun byte => isAlphanumeric byte || extra.contains byte
  alphanumeric := by
    intro byte h
    simp [h]
  ascii := by
    intro byte h
    rcases Bool.or_eq_true_iff.mp h with halnum | hmem
    · simp only [isAlphanumeric, Bool.or_eq_true, Bool.and_eq_true, decide_eq_true_eq] at halnum
      omega
    · have := List.all_eq_true.mp hextra byte (by simpa using hmem)
      simp at this
      exact this.1
  percent := by
    rw [Bool.or_eq_false_iff]
    refine ⟨by decide, ?_⟩
    rw [Bool.eq_false_iff]
    intro hmem
    have := List.all_eq_true.mp hextra 37 (by simpa using hmem)
    simp at this

def encodeByte (set : KeepSet) (byte : UInt8) : List Char :=
  if set.keep byte then [Char.ofNat byte.toNat]
  else ['%', hexDigit (byte.toNat / 16), hexDigit (byte.toNat % 16)]

def encode (set : KeepSet) (bytes : Bytes) : List Char := bytes.flatMap (encodeByte set)

/-- A percent sign that two hexadecimal digits follow is a byte; every other
character stands for its own bytes. -/
def decode : List Char → Bytes
  | '%' :: high :: low :: rest =>
      match hexValue high, hexValue low with
      | some h, some l => UInt8.ofNat (16 * h + l) :: decode rest
      | _, _ => 37 :: decode (high :: low :: rest)
  | c :: rest => String.utf8EncodeChar c ++ decode rest
  | [] => []

theorem hexDigit_cases (value : Nat) (hvalue : value < 16) :
    hexValue (hexDigit value) = some value ∧
      isAlphanumeric (UInt8.ofNat (hexDigit value).toNat) = true ∧
      (hexDigit value).toNat < 128 := by
  have hall : ∀ v : Fin 16, hexValue (hexDigit v) = some v.val ∧
      isAlphanumeric (UInt8.ofNat (hexDigit v).toNat) = true ∧ (hexDigit v).toNat < 128 := by
    decide
  exact hall ⟨value, hvalue⟩

theorem toNat_ofNat_ascii (value : Nat) (hascii : value < 128) :
    (Char.ofNat value).toNat = value := by
  have hvalid : value.isValidChar := .inl (by omega)
  unfold Char.ofNat
  rw [dif_pos hvalid]
  unfold Char.ofNatAux Char.toNat
  simp

/-! ### Decoding what was encoded -/

theorem decode_cons (c : Char) (rest : List Char) (hc : c ≠ '%') :
    decode (c :: rest) = String.utf8EncodeChar c ++ decode rest := by
  rw [decode]
  intro high low tail hpercent
  exact absurd hpercent hc

theorem utf8EncodeChar_ascii (c : Char) (hc : c.toNat < 128) :
    String.utf8EncodeChar c = [UInt8.ofNat c.toNat] := by
  have hle : c.toNat ≤ 127 := by omega
  simp [String.utf8EncodeChar, hle]

theorem decode_encodeByte (set : KeepSet) (byte : UInt8) (rest : List Char) :
    decode (encodeByte set byte ++ rest) = byte :: decode rest := by
  unfold encodeByte
  split
  · rename_i hkeep
    have hnat := toNat_ofNat_ascii byte.toNat (set.ascii byte hkeep)
    have hne : Char.ofNat byte.toNat ≠ '%' := by
      intro hpercent
      have hbyte : byte = 37 := by
        apply UInt8.toNat_inj.mp
        rw [← hnat, hpercent]
        rfl
      rw [hbyte, set.percent] at hkeep
      cases hkeep
    rw [List.singleton_append, decode_cons _ _ hne,
      utf8EncodeChar_ascii _ (by rw [hnat]; exact set.ascii byte hkeep), hnat]
    simp
  · have hsize : byte.toNat < 256 := UInt8.toNat_lt_size byte
    obtain ⟨hhigh, -, -⟩ := hexDigit_cases (byte.toNat / 16) (by omega)
    obtain ⟨hlow, -, -⟩ := hexDigit_cases (byte.toNat % 16) (by omega)
    simp only [List.cons_append, List.nil_append, decode, hhigh, hlow]
    rw [Nat.div_add_mod byte.toNat 16]
    simp

theorem decode_encode (set : KeepSet) (bytes : Bytes) (rest : List Char) :
    decode (encode set bytes ++ rest) = bytes ++ decode rest := by
  induction bytes with
  | nil => rfl
  | cons byte tail ih =>
      have hsplit : encode set (byte :: tail) ++ rest =
          encodeByte set byte ++ (encode set tail ++ rest) := by
        simp [encode]
      rw [hsplit, decode_encodeByte, ih, List.cons_append]

theorem decode_encode_all (set : KeepSet) (bytes : Bytes) :
    decode (encode set bytes) = bytes := by
  have h := decode_encode set bytes []
  simpa [decode] using h

/-- Only kept characters and percent signs occur in encoded text. -/
theorem mem_encode (set : KeepSet) (bytes : Bytes) (c : Char) (hc : c ∈ encode set bytes) :
    c = '%' ∨ (c.toNat < 128 ∧ set.keep (UInt8.ofNat c.toNat) = true) := by
  obtain ⟨byte, -, hbyte⟩ := List.mem_flatMap.mp hc
  unfold encodeByte at hbyte
  split at hbyte
  · rename_i hkeep
    rw [List.mem_singleton.mp hbyte, toNat_ofNat_ascii byte.toNat (set.ascii byte hkeep)]
    exact .inr ⟨set.ascii byte hkeep, by simpa using hkeep⟩
  · have hsize : byte.toNat < 256 := UInt8.toNat_lt_size byte
    obtain ⟨-, hhigh, hhigh'⟩ := hexDigit_cases (byte.toNat / 16) (by omega)
    obtain ⟨-, hlow, hlow'⟩ := hexDigit_cases (byte.toNat % 16) (by omega)
    simp only [List.mem_cons, List.not_mem_nil, or_false] at hbyte
    rcases hbyte with rfl | rfl | rfl
    · exact .inl rfl
    · exact .inr ⟨hhigh', set.alphanumeric _ hhigh⟩
    · exact .inr ⟨hlow', set.alphanumeric _ hlow⟩

/-- A character that is not kept does not occur. -/
theorem not_mem_encode (set : KeepSet) (bytes : Bytes) (c : Char) (hpercent : c ≠ '%')
    (hkeep : set.keep (UInt8.ofNat c.toNat) = false) : c ∉ encode set bytes := by
  intro hmem
  rcases mem_encode set bytes c hmem with heq | ⟨-, hkept⟩
  · exact hpercent heq
  · rw [hkeep] at hkept
    cases hkept

theorem utf8_eq_flatMap (text : String) :
    utf8 text = text.toList.flatMap String.utf8EncodeChar := by
  have h : text.toUTF8 = text.toList.utf8Encode := by
    simp
  rw [utf8, h, List.utf8Encode]
  simp

/-- The encoding of one character. -/
def encodeChar (set : KeepSet) (c : Char) : List Char := encode set (String.utf8EncodeChar c)

theorem encode_utf8 (set : KeepSet) (text : String) :
    encode set (utf8 text) = text.toList.flatMap (encodeChar set) := by
  rw [utf8_eq_flatMap, encode, List.flatMap_assoc]
  rfl

theorem encodeChar_kept (set : KeepSet) (c : Char) (hascii : c.toNat < 128)
    (hkept : set.keep (UInt8.ofNat c.toNat) = true) : encodeChar set c = [c] := by
  have hnat : (UInt8.ofNat c.toNat).toNat = c.toNat := by
    rw [UInt8.toNat_ofNat']
    omega
  rw [encodeChar, utf8EncodeChar_ascii c hascii]
  simp [encode, encodeByte, hkept, hnat]

theorem utf8EncodeChar_high (c : Char) (hc : ¬ c.toNat < 128) :
    ∀ byte ∈ String.utf8EncodeChar c, 128 ≤ byte.toNat := by
  have hlarge : ¬ c.val.toNat ≤ 127 := by
    have : c.toNat = c.val.toNat := rfl
    omega
  unfold String.utf8EncodeChar
  simp only [hlarge, if_false]
  split
  · simp
    omega
  · split
    · simp
      omega
    · simp
      omega

/-- A kept character comes from itself alone, so it separates the same pieces
before and after encoding. -/
theorem splitChars_encode (set : KeepSet) (sep : Char) (hascii : sep.toNat < 128)
    (hpercent : sep ≠ '%') (halnum : isAlphanumeric (UInt8.ofNat sep.toNat) = false)
    (hkept : set.keep (UInt8.ofNat sep.toNat) = true) (text : String) :
    splitChars sep (encode set (utf8 text)) =
      (splitChars sep text.toList).map fun piece => encode set (utf8 (String.ofList piece)) := by
  have hpieces : ∀ piece : List Char,
      encode set (utf8 (String.ofList piece)) = piece.flatMap (encodeChar set) := by
    intro piece
    rw [encode_utf8, String.toList_ofList]
  simp only [hpieces]
  rw [encode_utf8]
  apply splitChars_flatMap
  · exact encodeChar_kept set sep hascii hkept
  · intro c hc hmem
    obtain ⟨byte, hbyte, hin⟩ := List.mem_flatMap.mp hmem
    unfold encodeByte at hin
    split at hin
    · -- a kept byte is the character itself
      rename_i hkeep
      have hlow : byte.toNat < 128 := set.ascii byte hkeep
      have hsame : sep.toNat = byte.toNat := by
        rw [List.mem_singleton.mp hin, toNat_ofNat_ascii byte.toNat hlow]
      by_cases hchar : c.toNat < 128
      · rw [utf8EncodeChar_ascii c hchar, List.mem_singleton] at hbyte
        have hnat : byte.toNat = c.toNat := by
          rw [hbyte, UInt8.toNat_ofNat']
          omega
        exact hc (Char.toNat_inj.mp (hnat.symm.trans hsame.symm))
      · have hhigh := utf8EncodeChar_high c hchar byte hbyte
        omega
    · have hsize : byte.toNat < 256 := UInt8.toNat_lt_size byte
      obtain ⟨-, hhigh, -⟩ := hexDigit_cases (byte.toNat / 16) (by omega)
      obtain ⟨-, hlow, -⟩ := hexDigit_cases (byte.toNat % 16) (by omega)
      simp only [List.mem_cons, List.not_mem_nil, or_false] at hin
      rcases hin with heq | heq | heq
      · exact hpercent heq
      · rw [heq, hhigh] at halnum
        cases halnum
      · rw [heq, hlow] at halnum
        cases halnum

/-- Text of kept characters stands as it is. -/
theorem encode_utf8_kept (set : KeepSet) (text : String)
    (hkept : ∀ c ∈ text.toList, c.toNat < 128 ∧ set.keep (UInt8.ofNat c.toNat) = true) :
    encode set (utf8 text) = text.toList := by
  rw [encode_utf8]
  generalize text.toList = chars at hkept
  induction chars with
  | nil => rfl
  | cons c rest ih =>
      obtain ⟨hascii, hkeep⟩ := hkept c List.mem_cons_self
      rw [List.flatMap_cons, encodeChar_kept set c hascii hkeep,
        ih fun d hd => hkept d (List.mem_cons_of_mem c hd)]
      rfl

/-! ### Query strings -/

/-- An encoded key and value. -/
abbrev Pair := List Char × List Char

def joinPairs (pairs : List Pair) : List Char :=
  List.intercalate ['&'] (pairs.map fun pair => pair.1 ++ '=' :: pair.2)

/-- A piece without an equals sign is a key without a value. -/
def readPair (piece : List Char) : Pair := (splitOnceChars ['='] piece).getD (piece, [])

def readPairs (query : List Char) : List Pair :=
  ((splitChars '&' query).filter fun piece => !piece.isEmpty).map readPair

/-- No delimiter where it would be taken for one. -/
def Pair.Plain (pair : Pair) : Prop := '&' ∉ pair.1 ∧ '=' ∉ pair.1 ∧ '&' ∉ pair.2

theorem readPair_plain (pair : Pair) (hplain : pair.Plain) :
    readPair (pair.1 ++ '=' :: pair.2) = pair := by
  have hsplit : splitOnceChars ['='] (pair.1 ++ '=' :: pair.2) = some pair :=
    splitOnceChars_append '=' [] pair.1 pair.2 hplain.2.1
  simp [readPair, hsplit]

/-- Splitting at the delimiters gives back the pairs a query was joined from. -/
theorem readPairs_joinPairs (pairs : List Pair) (hplain : ∀ pair ∈ pairs, pair.Plain) :
    readPairs (joinPairs pairs) = pairs := by
  by_cases hempty : pairs = []
  · rw [hempty]
    rfl
  have hpieces : ∀ piece ∈ pairs.map (fun pair => pair.1 ++ '=' :: pair.2),
      '&' ∉ piece ∧ piece.isEmpty = false := by
    intro piece hpiece
    obtain ⟨pair, hpair, rfl⟩ := List.mem_map.mp hpiece
    obtain ⟨hkey, -, hvalue⟩ := hplain pair hpair
    simp [hkey, hvalue]
  have hkept : (pairs.map fun pair => pair.1 ++ '=' :: pair.2).filter
      (fun piece => !piece.isEmpty) = pairs.map fun pair => pair.1 ++ '=' :: pair.2 := by
    apply List.filter_eq_self.mpr
    intro piece hpiece
    simp [(hpieces piece hpiece).2]
  unfold readPairs joinPairs
  rw [splitChars_intercalate '&' _ (by simpa using hempty) (fun p hp => (hpieces p hp).1), hkept,
    List.map_map]
  calc
    pairs.map (readPair ∘ fun pair => pair.1 ++ '=' :: pair.2) = pairs.map id :=
      List.map_congr_left fun pair hpair => readPair_plain pair (hplain pair hpair)
    _ = pairs := List.map_id pairs

theorem joinPairs_concat (pairs : List Pair) (last : Pair) (hne : pairs ≠ []) :
    joinPairs (pairs ++ [last]) = joinPairs pairs ++ '&' :: (last.1 ++ '=' :: last.2) := by
  induction pairs with
  | nil => exact absurd rfl hne
  | cons first rest ih =>
      cases rest with
      | nil => simp [joinPairs, List.intercalate]
      | cons next rest =>
          have hrest := ih (by simp)
          simp only [joinPairs, List.cons_append, List.map_cons,
            List.intercalate_cons_cons] at hrest ⊢
          rw [hrest]
          simp

theorem mem_joinPairs (pairs : List Pair) (c : Char) (hc : c ∈ joinPairs pairs) :
    c = '&' ∨ c = '=' ∨ ∃ pair ∈ pairs, c ∈ pair.1 ∨ c ∈ pair.2 := by
  induction pairs with
  | nil => cases hc
  | cons first rest ih =>
      have hfirst : c ∈ first.1 ++ '=' :: first.2 → c = '&' ∨ c = '=' ∨
          ∃ pair ∈ first :: rest, c ∈ pair.1 ∨ c ∈ pair.2 := by
        intro hmem
        rcases List.mem_append.mp hmem with hkey | hmem
        · exact .inr (.inr ⟨first, List.mem_cons_self, .inl hkey⟩)
        · rcases List.mem_cons.mp hmem with hequals | hvalue
          · exact .inr (.inl hequals)
          · exact .inr (.inr ⟨first, List.mem_cons_self, .inr hvalue⟩)
      cases rest with
      | nil =>
          apply hfirst
          simpa [joinPairs, List.intercalate] using hc
      | cons next rest =>
          simp only [joinPairs, List.map_cons, List.intercalate_cons_cons] at hc ih
          rcases List.mem_append.mp hc with hc | hrest
          · rcases List.mem_append.mp hc with hc | hamp
            · exact hfirst hc
            · exact .inl (List.mem_singleton.mp hamp)
          · rcases ih hrest with hamp | hequals | ⟨pair, hpair, hin⟩
            · exact .inl hamp
            · exact .inr (.inl hequals)
            · exact .inr (.inr ⟨pair, List.mem_cons_of_mem first hpair, hin⟩)

/-! ### Sorting by the encoded key -/

def keyLe (left right : Pair) : Prop := left.1 ≤ right.1

instance : DecidableRel keyLe := fun left right =>
  inferInstanceAs (Decidable (left.1 ≤ right.1))

/-- A stable sort by key. -/
def sortByKey (pairs : List Pair) : List Pair := pairs.insertionSort keyLe

instance : Std.Total keyLe := ⟨fun left right => le_total left.1 right.1⟩

instance : IsTrans Pair keyLe := ⟨fun _ _ _ => le_trans⟩

theorem sortByKey_perm (pairs : List Pair) : (sortByKey pairs).Perm pairs :=
  List.perm_insertionSort keyLe pairs

/-- With distinct keys the sorted keys ascend strictly. -/
theorem sortByKey_strict (pairs : List Pair) (hkeys : (pairs.map Prod.fst).Nodup) :
    ((sortByKey pairs).map Prod.fst).Pairwise (· < ·) := by
  have hsorted : ((sortByKey pairs).map Prod.fst).Pairwise (· ≤ ·) :=
    List.pairwise_map.mpr (List.pairwise_insertionSort keyLe pairs)
  have hnodup : ((sortByKey pairs).map Prod.fst).Nodup :=
    ((sortByKey_perm pairs).map Prod.fst).nodup_iff.mpr hkeys
  apply (hsorted.and hnodup).imp
  rintro left right ⟨hle, hne⟩
  exact lt_of_le_of_ne hle hne

/-- With distinct keys the order the pairs came in does not matter. -/
theorem sortByKey_congr (left right : List Pair) (hkeys : (left.map Prod.fst).Nodup)
    (hperm : left.Perm right) : sortByKey left = sortByKey right := by
  have hboth : (sortByKey left).Perm (sortByKey right) :=
    (sortByKey_perm left).trans (hperm.trans (sortByKey_perm right).symm)
  apply hboth.eq_of_pairwise _ (List.pairwise_insertionSort keyLe left)
    (List.pairwise_insertionSort keyLe right)
  intro a b ha hb hab hba
  have hkey : a.1 = b.1 := le_antisymm hab hba
  have hmem : b ∈ left := hperm.mem_iff.mpr ((sortByKey_perm right).mem_iff.mp hb)
  exact List.inj_on_of_nodup_map hkeys ((sortByKey_perm left).mem_iff.mp ha) hmem hkey

end Runlet.PercentText
