import Mathlib.Data.Fintype.Basic
import Mathlib.Data.List.Nodup
import Mathlib.Data.List.TakeWhile
import Mathlib.Data.PEquiv
import Mathlib.Data.String.Basic

/-!
Base 64: three bytes are four digits, and one or two bytes at the end are two or three
digits whose last bits are zero. Such a notation is canonical, a partial equivalence
between the bytes and the texts, with the padding that fills the last group up or without
any.
-/

namespace Runlet.Base64

abbrev Bytes := List UInt8

abbrev Sextet := Fin 64

def sextet (n : Nat) : Sextet := Fin.ofNat 64 n

theorem sextet_val {n : Nat} (h : n < 64) : (sextet n).val = n := Nat.mod_eq_of_lt h

def sextets : Bytes → List Sextet
  | a :: b :: c :: rest =>
      sextet (a.toNat / 4) :: sextet (a.toNat % 4 * 16 + b.toNat / 16) ::
        sextet (b.toNat % 16 * 4 + c.toNat / 64) :: sextet (c.toNat % 64) :: sextets rest
  | [a, b] =>
      [sextet (a.toNat / 4), sextet (a.toNat % 4 * 16 + b.toNat / 16),
        sextet (b.toNat % 16 * 4)]
  | [a] => [sextet (a.toNat / 4), sextet (a.toNat % 4 * 16)]
  | [] => []

/-- Bits that no byte takes have to be zero. -/
def octets : List Sextet → Option Bytes
  | p :: q :: r :: s :: rest =>
      (octets rest).map fun bytes =>
        UInt8.ofNat (p.val * 4 + q.val / 16) :: UInt8.ofNat (q.val % 16 * 16 + r.val / 4) ::
          UInt8.ofNat (r.val % 4 * 64 + s.val) :: bytes
  | [p, q, r] =>
      if r.val % 4 = 0 then
        some [UInt8.ofNat (p.val * 4 + q.val / 16), UInt8.ofNat (q.val % 16 * 16 + r.val / 4)]
      else none
  | [p, q] => if q.val % 16 = 0 then some [UInt8.ofNat (p.val * 4 + q.val / 16)] else none
  | [_] => none
  | [] => some []

theorem ofNat_eq_of_toNat {n : Nat} (byte : UInt8) (h : n = byte.toNat) : UInt8.ofNat n = byte := by
  rw [h]
  exact UInt8.ofNat_toNat

theorem octets_sextets (bytes : Bytes) : octets (sextets bytes) = some bytes := by
  fun_induction sextets bytes with
  | case1 a b c rest ih =>
      have ha : a.toNat < 256 := a.toNat_lt
      have hb : b.toNat < 256 := b.toNat_lt
      have hc : c.toNat < 256 := c.toNat_lt
      rw [octets, ih, Option.map_some]
      rw [sextet_val (by omega), sextet_val (by omega), sextet_val (by omega),
        sextet_val (by omega)]
      rw [ofNat_eq_of_toNat a (by omega), ofNat_eq_of_toNat b (by omega),
        ofNat_eq_of_toNat c (by omega)]
  | case2 a b =>
      have ha : a.toNat < 256 := a.toNat_lt
      have hb : b.toNat < 256 := b.toNat_lt
      rw [octets, sextet_val (by omega), sextet_val (by omega), sextet_val (by omega),
        if_pos (by omega)]
      rw [ofNat_eq_of_toNat a (by omega), ofNat_eq_of_toNat b (by omega)]
  | case3 a =>
      have ha : a.toNat < 256 := a.toNat_lt
      rw [octets, sextet_val (by omega), sextet_val (by omega), if_pos (by omega)]
      rw [ofNat_eq_of_toNat a (by omega)]
  | case4 => rfl

theorem sextet_eq_of_val {n : Nat} (digit : Sextet) (h : n = digit.val) : sextet n = digit := by
  rw [h]
  exact Fin.ofNat_val_eq_self digit

theorem toNat_ofNat_small {n : Nat} (h : n < 256) : (UInt8.ofNat n).toNat = n := by
  rw [UInt8.toNat_ofNat']
  exact Nat.mod_eq_of_lt h

theorem sextets_of_octets {digits : List Sextet} {bytes : Bytes} (h : octets digits = some bytes) :
    sextets bytes = digits := by
  fun_induction octets digits generalizing bytes with
  | case1 p q r s rest ih =>
      obtain ⟨tail, htail, rfl⟩ := Option.map_eq_some_iff.mp h
      have hp := p.isLt
      have hq := q.isLt
      have hr := r.isLt
      have hs := s.isLt
      rw [sextets, ih htail, toNat_ofNat_small (by omega), toNat_ofNat_small (by omega),
        toNat_ofNat_small (by omega)]
      rw [sextet_eq_of_val p (by omega), sextet_eq_of_val q (by omega),
        sextet_eq_of_val r (by omega), sextet_eq_of_val s (by omega)]
  | case2 p q r hzero =>
      cases h
      have hp := p.isLt
      have hq := q.isLt
      have hr := r.isLt
      rw [sextets, toNat_ofNat_small (by omega), toNat_ofNat_small (by omega)]
      rw [sextet_eq_of_val p (by omega), sextet_eq_of_val q (by omega),
        sextet_eq_of_val r (by omega)]
  | case3 p q r hzero => cases h
  | case4 p q hzero =>
      cases h
      have hp := p.isLt
      have hq := q.isLt
      rw [sextets, toNat_ofNat_small (by omega)]
      rw [sextet_eq_of_val p (by omega), sextet_eq_of_val q (by omega)]
  | case5 p q hzero => cases h
  | case6 p => cases h
  | case7 =>
      cases h
      rfl

/-- Bytes as digits. -/
def digits : Bytes ≃. List Sextet where
  toFun bytes := some (sextets bytes)
  invFun := octets
  inv bytes ds := by
    constructor
    · intro h
      rw [sextets_of_octets h]
    · intro h
      rw [← Option.some.inj h]
      exact octets_sextets bytes

/-! ### Digits as characters -/

/-- Sixty-four characters, none of them the padding. -/
structure Alphabet where
  letters : List Char
  length : letters.length = 64
  nodup : letters.Nodup
  padFree : '=' ∉ letters

namespace Alphabet

variable (alphabet : Alphabet)

def digit (d : Sextet) : Char := alphabet.letters.get (Fin.cast alphabet.length.symm d)

def value (c : Char) : Option Sextet := (List.finRange 64).find? fun d => alphabet.digit d = c

theorem digit_injective : Function.Injective alphabet.digit := by
  intro d e h
  have hindex := (List.nodup_iff_injective_get.mp alphabet.nodup) h
  exact Fin.cast_injective alphabet.length.symm hindex

theorem digit_ne_pad (d : Sextet) : alphabet.digit d ≠ '=' := by
  intro h
  apply alphabet.padFree
  rw [← h]
  exact List.get_mem _ _

theorem value_eq_some {c : Char} {d : Sextet} :
    alphabet.value c = some d ↔ alphabet.digit d = c := by
  constructor
  · intro h
    simpa using List.find?_some h
  · intro h
    have hsome : (alphabet.value c).isSome = true := by
      rw [value, List.find?_isSome]
      exact ⟨d, List.mem_finRange d, by simpa using h⟩
    obtain ⟨e, he⟩ := Option.isSome_iff_exists.mp hsome
    have hdigit : alphabet.digit e = c := by simpa using List.find?_some he
    rw [he, alphabet.digit_injective (hdigit.trans h.symm)]

theorem mapM_value_eq_some {text : List Char} {ds : List Sextet} :
    text.mapM alphabet.value = some ds ↔ ds.map alphabet.digit = text := by
  induction text generalizing ds with
  | nil => cases ds <;> simp
  | cons c text ih =>
      rw [List.mapM_cons, Option.bind_eq_bind, Option.bind_eq_some_iff]
      constructor
      · rintro ⟨d, hd, h⟩
        obtain ⟨rest, hrest, hds⟩ := Option.bind_eq_some_iff.mp h
        cases hds
        rw [List.map_cons, ih.mp hrest, alphabet.value_eq_some.mp hd]
      · intro h
        cases ds with
        | nil => cases h
        | cons d rest =>
            obtain ⟨hd, hrest⟩ := List.cons.inj h
            refine ⟨d, alphabet.value_eq_some.mpr hd, ?_⟩
            rw [Option.bind_eq_bind, ih.mpr hrest]
            rfl

/-- Digits as characters. -/
def letterwise : List Sextet ≃. List Char where
  toFun ds := some (ds.map alphabet.digit)
  invFun text := text.mapM alphabet.value
  inv ds text := by
    rw [mapM_value_eq_some, Option.some.injEq]

/-- The notation without padding. -/
def bare : Bytes ≃. List Char := digits.trans alphabet.letterwise

/-! ### Padding -/

/-- The characters that the last group of four lacks. -/
def padding (n : Nat) : Nat := (4 - n % 4) % 4

def fill (text : List Char) : List Char := text ++ List.replicate (padding text.length) '='

def unfill (text : List Char) : Option (List Char) :=
  let front := text.takeWhile fun c => c ≠ '='
  if text = fill front then some front else none

theorem takeWhile_fill {text : List Char} (hfree : '=' ∉ text) :
    (fill text).takeWhile (fun c => c ≠ '=') = text := by
  have hfront : ∀ c ∈ text, (decide (c ≠ '=')) = true := by
    intro c hc
    rw [decide_eq_true_eq]
    rintro rfl
    exact hfree hc
  have hpads : (List.replicate (padding text.length) '=').takeWhile (fun c => c ≠ '=') = [] := by
    cases padding text.length <;> rfl
  rw [fill, List.takeWhile_append_of_pos hfront, hpads, List.append_nil]

/-- A text without padding, and the padding it takes. -/
def filled : List Char ≃. List Char where
  toFun text := if '=' ∈ text then none else some (fill text)
  invFun := unfill
  inv text padded := by
    constructor
    · intro h
      obtain ⟨hfill, hsome⟩ := Option.ite_none_right_eq_some.mp h
      have hfront := Option.some.inj hsome
      have hfree : '=' ∉ text := by
        intro hmem
        rw [← hfront] at hmem
        simpa using List.mem_takeWhile_imp hmem
      rw [if_neg hfree, hfill, hfront]
    · intro h
      split at h
      · cases h
      · next hfree =>
          rw [← Option.some.inj h, unfill, takeWhile_fill hfree, if_pos rfl]

/-- The padded notation. -/
def padded : Bytes ≃. List Char := alphabet.bare.trans filled

theorem bare_apply (bytes : Bytes) :
    alphabet.bare bytes = some ((sextets bytes).map alphabet.digit) := rfl

theorem padded_apply (bytes : Bytes) :
    alphabet.padded bytes = some (fill ((sextets bytes).map alphabet.digit)) := by
  have hfree : '=' ∉ (sextets bytes).map alphabet.digit := by
    intro hmem
    obtain ⟨d, _, hd⟩ := List.mem_map.mp hmem
    exact alphabet.digit_ne_pad d hd
  rw [padded, PEquiv.trans_eq_some]
  refine ⟨_, alphabet.bare_apply bytes, ?_⟩
  exact if_neg hfree

end Alphabet

def alphanumerics : List Char :=
  "ABCDEFGHIJKLMNOPQRSTUVWXYZabcdefghijklmnopqrstuvwxyz0123456789".toList

theorem standard_nodup : (alphanumerics ++ ['+', '/']).Nodup := by
  decide

theorem urlSafe_nodup : (alphanumerics ++ ['-', '_']).Nodup := by
  decide

def standard : Alphabet where
  letters := alphanumerics ++ ['+', '/']
  length := rfl
  nodup := standard_nodup
  padFree := by
    decide

def urlSafe : Alphabet where
  letters := alphanumerics ++ ['-', '_']
  length := rfl
  nodup := urlSafe_nodup
  padFree := by
    decide

end Runlet.Base64
