import Mathlib.Data.PEquiv
import Runlet.Lib.PercentText

/-!
Texts as UTF-8 bytes and as UTF-16 code units. Every text has one notation in each, and
what is no notation of a text (bytes that are not UTF-8, half a surrogate pair) stands for
none. A hexadecimal text is read in either case of its letters and written in small ones.
-/

namespace Runlet.TextCodec

open PercentText

/-! ### UTF-8 -/

theorem fromUtf8_eq_some {bytes : Bytes} {text : String} :
    fromUtf8 bytes = some text ↔ utf8 text = bytes := by
  constructor
  · intro h
    rw [fromUtf8, String.fromUTF8?] at h
    split at h
    · cases h
      rfl
    · cases h
  · intro h
    rw [← h]
    exact fromUtf8_utf8 text

/-! ### UTF-16 -/

abbrev CodeUnits := List UInt16

def isHigh (u : UInt16) : Prop := 55296 ≤ u.toNat ∧ u.toNat < 56320

instance (u : UInt16) : Decidable (isHigh u) := instDecidableAnd

def isLow (u : UInt16) : Prop := 56320 ≤ u.toNat ∧ u.toNat < 57344

instance (u : UInt16) : Decidable (isLow u) := instDecidableAnd

def unitsOf (c : Char) : CodeUnits :=
  if c.toNat < 65536 then [UInt16.ofNat c.toNat]
  else
    [UInt16.ofNat (55296 + (c.toNat - 65536) / 1024),
      UInt16.ofNat (56320 + (c.toNat - 65536) % 1024)]

def encode16 (text : List Char) : CodeUnits := text.flatMap unitsOf

/-- The character of a surrogate pair. -/
def joined (high low : UInt16) : Char :=
  Char.ofNat (65536 + (high.toNat - 55296) * 1024 + (low.toNat - 56320))

def decode16 : CodeUnits → Option (List Char)
  | [] => some []
  | [u] => if isHigh u ∨ isLow u then none else some [Char.ofNat u.toNat]
  | u :: v :: rest =>
      if isHigh u then
        if isLow v then (decode16 rest).map (joined u v :: ·) else none
      else if isLow u then none
      else (decode16 (v :: rest)).map (Char.ofNat u.toNat :: ·)

theorem toNat_ofNat_unit {n : Nat} (h : n < 65536) : (UInt16.ofNat n).toNat = n := by
  rw [UInt16.toNat_ofNat']
  exact Nat.mod_eq_of_lt h

theorem toNat_ofNat_char {n : Nat} (h : n.isValidChar) : (Char.ofNat n).toNat = n := by
  rw [Char.ofNat, dif_pos h]
  rfl

theorem char_ranges (c : Char) :
    c.toNat < 55296 ∨ 57344 ≤ c.toNat ∧ c.toNat < 1114112 := by
  rcases c.valid with hlow | ⟨hhigh, hbound⟩
  · exact .inl hlow
  · exact .inr ⟨Nat.succ_le_of_lt hhigh, hbound⟩

/-- A character below the surrogates' plane is one unit, and no half of a pair. -/
theorem decode16_plain {u : UInt16} (hhigh : ¬ isHigh u) (hlow : ¬ isLow u) (rest : CodeUnits) :
    decode16 (u :: rest) = (decode16 rest).map (Char.ofNat u.toNat :: ·) := by
  cases rest with
  | nil => simp [decode16, hhigh, hlow]
  | cons v rest => rw [decode16, if_neg hhigh, if_neg hlow]

theorem decode16_unitsOf (c : Char) (rest : CodeUnits) :
    decode16 (unitsOf c ++ rest) = (decode16 rest).map (c :: ·) := by
  have hranges := char_ranges c
  unfold unitsOf
  split
  · next hsmall =>
      have hunit := toNat_ofNat_unit hsmall
      rw [List.singleton_append, decode16_plain, hunit, Char.ofNat_toNat]
      · rw [isHigh, hunit]
        omega
      · rw [isLow, hunit]
        omega
  · next hlarge =>
      have hfirst : (UInt16.ofNat (55296 + (c.toNat - 65536) / 1024)).toNat =
          55296 + (c.toNat - 65536) / 1024 := toNat_ofNat_unit (by omega)
      have hsecond : (UInt16.ofNat (56320 + (c.toNat - 65536) % 1024)).toNat =
          56320 + (c.toNat - 65536) % 1024 := toNat_ofNat_unit (by omega)
      have hjoined : joined (UInt16.ofNat (55296 + (c.toNat - 65536) / 1024))
          (UInt16.ofNat (56320 + (c.toNat - 65536) % 1024)) = c := by
        rw [joined, hfirst, hsecond]
        have hsum : 65536 + (55296 + (c.toNat - 65536) / 1024 - 55296) * 1024 +
            (56320 + (c.toNat - 65536) % 1024 - 56320) = c.toNat := by omega
        rw [hsum, Char.ofNat_toNat]
      rw [List.cons_append, List.singleton_append, decode16, if_pos, if_pos, hjoined]
      · rw [isLow, hsecond]
        omega
      · rw [isHigh, hfirst]
        omega

theorem decode16_encode16 (text : List Char) : decode16 (encode16 text) = some text := by
  induction text with
  | nil => rfl
  | cons c text ih =>
      rw [encode16, List.flatMap_cons, decode16_unitsOf]
      exact congrArg (Option.map (c :: ·)) ih

/-- A unit that is no half of a pair is its character's only unit. -/
theorem unitsOf_plain {u : UInt16} (hhigh : ¬ isHigh u) (hlow : ¬ isLow u) :
    unitsOf (Char.ofNat u.toNat) = [u] := by
  have hbound : u.toNat < 65536 := u.toNat_lt
  have hvalid : u.toNat.isValidChar := by
    unfold isHigh at hhigh
    unfold isLow at hlow
    unfold Nat.isValidChar
    omega
  rw [unitsOf, toNat_ofNat_char hvalid, if_pos hbound, UInt16.ofNat_toNat]

theorem unitsOf_joined {u v : UInt16} (hhigh : isHigh u) (hlow : isLow v) :
    unitsOf (joined u v) = [u, v] := by
  obtain ⟨hu, hu'⟩ := hhigh
  obtain ⟨hv, hv'⟩ := hlow
  have hvalid : (65536 + (u.toNat - 55296) * 1024 + (v.toNat - 56320)).isValidChar := by
    unfold Nat.isValidChar
    omega
  have hchar : (joined u v).toNat = 65536 + (u.toNat - 55296) * 1024 + (v.toNat - 56320) :=
    toNat_ofNat_char hvalid
  have hfirst : 55296 + ((joined u v).toNat - 65536) / 1024 = u.toNat := by omega
  have hsecond : 56320 + ((joined u v).toNat - 65536) % 1024 = v.toNat := by omega
  rw [unitsOf, if_neg (by omega), hfirst, hsecond, UInt16.ofNat_toNat, UInt16.ofNat_toNat]

theorem encode16_of_decode16 {units : CodeUnits} {text : List Char}
    (h : decode16 units = some text) : encode16 text = units := by
  fun_induction decode16 units generalizing text with
  | case1 =>
      cases h
      rfl
  | case2 u hhalf => cases h
  | case3 u hhalf =>
      cases h
      obtain ⟨hhigh, hlow⟩ := not_or.mp hhalf
      rw [encode16, List.flatMap_singleton, unitsOf_plain hhigh hlow]
  | case4 u v rest hhigh hlow ih =>
      obtain ⟨tail, htail, rfl⟩ := Option.map_eq_some_iff.mp h
      rw [encode16, List.flatMap_cons, unitsOf_joined hhigh hlow]
      exact congrArg ([u, v] ++ ·) (ih htail)
  | case5 u v rest hhigh hlow => cases h
  | case6 u v rest hhigh hlow => cases h
  | case7 u v rest hhigh hlow ih =>
      obtain ⟨tail, htail, rfl⟩ := Option.map_eq_some_iff.mp h
      rw [encode16, List.flatMap_cons, unitsOf_plain hhigh hlow]
      exact congrArg ([u] ++ ·) (ih htail)

def utf16 : List Char ≃. CodeUnits where
  toFun text := some (encode16 text)
  invFun := decode16
  inv text units := by
    rw [Option.some.injEq]
    constructor
    · exact encode16_of_decode16
    · intro h
      rw [← h]
      exact decode16_encode16 text

def charList : String ≃ List Char where
  toFun := String.toList
  invFun := String.ofList
  left_inv _ := String.ofList_toList
  right_inv _ := String.toList_ofList

/-- The string with these code units. -/
def ofUnits : CodeUnits ≃. String := utf16.symm.trans charList.symm.toPEquiv

theorem ofUnits_eq_some {units : CodeUnits} {text : String} :
    ofUnits units = some text ↔ encode16 text.toList = units := by
  rw [ofUnits, PEquiv.trans_eq_some]
  constructor
  · rintro ⟨chars, hchars, htext⟩
    have hofList : String.ofList chars = text := Option.some.inj htext
    rw [← hofList, String.toList_ofList]
    exact encode16_of_decode16 hchars
  · intro h
    refine ⟨text.toList, ?_, ?_⟩
    · rw [← h]
      exact decode16_encode16 text.toList
    · exact congrArg some String.ofList_toList

/-! ### Hexadecimal texts -/

def smallHexDigit (value : Nat) : Char :=
  if value < 10 then Char.ofNat (48 + value) else Char.ofNat (87 + value)

def encodeHex (bytes : Bytes) : List Char :=
  bytes.flatMap fun byte => [smallHexDigit (byte.toNat / 16), smallHexDigit (byte.toNat % 16)]

def decodeHex : List Char → Option Bytes
  | high :: low :: rest =>
      match hexValue high, hexValue low with
      | some h, some l => (decodeHex rest).map (UInt8.ofNat (16 * h + l) :: ·)
      | _, _ => none
  | [_] => none
  | [] => some []

def lowered (c : Char) : Char :=
  if 65 ≤ c.toNat ∧ c.toNat ≤ 90 then Char.ofNat (c.toNat + 32) else c

theorem toNat_smallHexDigit {value : Nat} (h : value < 16) :
    (smallHexDigit value).toNat = if value < 10 then 48 + value else 87 + value := by
  unfold smallHexDigit
  split
  · exact toNat_ofNat_ascii _ (by omega)
  · exact toNat_ofNat_ascii _ (by omega)

theorem toNat_lowered (c : Char) :
    (lowered c).toNat = if 65 ≤ c.toNat ∧ c.toNat ≤ 90 then c.toNat + 32 else c.toNat := by
  unfold lowered
  split
  · exact toNat_ofNat_ascii _ (by omega)
  · rfl

theorem hexValue_eq_some {c : Char} {value : Nat} :
    hexValue c = some value ↔ value < 16 ∧ smallHexDigit value = lowered c := by
  have hlowered := toNat_lowered c
  constructor
  · intro h
    have hbound : value < 16 ∧
        (if value < 10 then 48 + value else 87 + value) = (lowered c).toNat := by
      unfold hexValue at h
      split at h
      · cases h
        rw [if_neg (by omega)] at hlowered
        rw [hlowered, if_pos (by omega)]
        omega
      · split at h
        · cases h
          rw [if_pos (by omega)] at hlowered
          rw [hlowered, if_neg (by omega)]
          omega
        · split at h
          · cases h
            rw [if_neg (by omega)] at hlowered
            rw [hlowered, if_neg (by omega)]
            omega
          · cases h
    refine ⟨hbound.1, ?_⟩
    apply Char.toNat_inj.mp
    rw [toNat_smallHexDigit hbound.1]
    exact hbound.2
  · rintro ⟨hbound, heq⟩
    have hnat := congrArg Char.toNat heq
    rw [toNat_smallHexDigit hbound, hlowered] at hnat
    unfold hexValue
    split at hnat
    · have hc : c.toNat = 48 + value := by
        split at hnat <;> omega
      rw [if_pos (by omega), hc]
      exact congrArg some (by omega)
    · split at hnat
      · rw [if_neg (by omega), if_pos (by omega)]
        exact congrArg some (by omega)
      · rw [if_neg (by omega), if_neg (by omega), if_pos (by omega)]
        exact congrArg some (by omega)

theorem toNat_ofNat_byte {n : Nat} (h : n < 256) : (UInt8.ofNat n).toNat = n := by
  rw [UInt8.toNat_ofNat']
  exact Nat.mod_eq_of_lt h

theorem encodeHex_cons (byte : UInt8) (bytes : Bytes) :
    encodeHex (byte :: bytes) =
      smallHexDigit (byte.toNat / 16) :: smallHexDigit (byte.toNat % 16) :: encodeHex bytes := rfl

theorem encodeHex_of_decodeHex {text : List Char} {bytes : Bytes}
    (h : decodeHex text = some bytes) : encodeHex bytes = text.map lowered := by
  fun_induction decodeHex text generalizing bytes with
  | case1 high low rest u l hlow hhigh ih =>
      obtain ⟨tail, htail, rfl⟩ := Option.map_eq_some_iff.mp h
      obtain ⟨hu, hupper⟩ := hexValue_eq_some.mp hhigh
      obtain ⟨hl, hlower⟩ := hexValue_eq_some.mp hlow
      have hbyte : (UInt8.ofNat (16 * u + l)).toNat = 16 * u + l := toNat_ofNat_byte (by omega)
      have hfront : (16 * u + l) / 16 = u := by omega
      have hback : (16 * u + l) % 16 = l := by omega
      rw [encodeHex_cons, hbyte, hfront, hback, hupper, hlower, ih htail]
      rfl
  | case2 => cases h
  | case3 => cases h
  | case4 =>
      cases h
      rfl

theorem decodeHex_of_encodeHex {bytes : Bytes} {text : List Char}
    (h : encodeHex bytes = text.map lowered) : decodeHex text = some bytes := by
  induction bytes generalizing text with
  | nil =>
      rw [List.map_eq_nil_iff.mp h.symm]
      rfl
  | cons byte bytes ih =>
      rw [encodeHex_cons] at h
      obtain ⟨high, rest, rfl, hhigh, hrest⟩ := List.map_eq_cons_iff.mp h.symm
      obtain ⟨low, rest, rfl, hlow, hrest⟩ := List.map_eq_cons_iff.mp hrest
      have hlt : byte.toNat < 256 := byte.toNat_lt
      rw [decodeHex, hexValue_eq_some.mpr ⟨by omega, hhigh.symm⟩,
        hexValue_eq_some.mpr ⟨by omega, hlow.symm⟩, ih hrest.symm]
      simp only [Option.map_some, Nat.div_add_mod, UInt8.ofNat_toNat]

/-- What is read is what is written, up to the case of the digits. -/
theorem decodeHex_eq_some {text : List Char} {bytes : Bytes} :
    decodeHex text = some bytes ↔ encodeHex bytes = text.map lowered :=
  ⟨encodeHex_of_decodeHex, decodeHex_of_encodeHex⟩

theorem lowered_smallHexDigit {value : Nat} (h : value < 16) :
    lowered (smallHexDigit value) = smallHexDigit value := by
  have hdigit := toNat_smallHexDigit h
  have hsmall : ¬ (65 ≤ (smallHexDigit value).toNat ∧ (smallHexDigit value).toNat ≤ 90) := by
    rw [hdigit]
    split <;> omega
  rw [lowered, if_neg hsmall]

theorem map_lowered_encodeHex (bytes : Bytes) : (encodeHex bytes).map lowered = encodeHex bytes := by
  induction bytes with
  | nil => rfl
  | cons byte bytes ih =>
      have hlt : byte.toNat < 256 := byte.toNat_lt
      rw [encodeHex_cons, List.map_cons, List.map_cons, ih, lowered_smallHexDigit (by omega),
        lowered_smallHexDigit (by omega)]

/-! ### The case of code units -/

def loweredUnit (u : UInt16) : UInt16 :=
  if 65 ≤ u.toNat ∧ u.toNat ≤ 90 then UInt16.ofNat (u.toNat + 32) else u

theorem toNat_loweredUnit (u : UInt16) :
    (loweredUnit u).toNat = if 65 ≤ u.toNat ∧ u.toNat ≤ 90 then u.toNat + 32 else u.toNat := by
  unfold loweredUnit
  split
  · exact toNat_ofNat_unit (by omega)
  · rfl

theorem loweredUnit_of_large {u : UInt16} (h : 90 < u.toNat) : loweredUnit u = u := by
  rw [loweredUnit, if_neg (by omega)]

theorem isHigh_loweredUnit (u : UInt16) : isHigh (loweredUnit u) ↔ isHigh u := by
  rw [isHigh, toNat_loweredUnit, isHigh]
  split <;> omega

theorem isLow_loweredUnit (u : UInt16) : isLow (loweredUnit u) ↔ isLow u := by
  rw [isLow, toNat_loweredUnit, isLow]
  split <;> omega

theorem ofNat_loweredUnit (u : UInt16) (hhigh : ¬ isHigh u) (hlow : ¬ isLow u) :
    Char.ofNat (loweredUnit u).toNat = lowered (Char.ofNat u.toNat) := by
  have hbound : u.toNat < 65536 := u.toNat_lt
  have hvalid : u.toNat.isValidChar := by
    unfold isHigh at hhigh
    unfold isLow at hlow
    unfold Nat.isValidChar
    omega
  rw [toNat_loweredUnit, lowered, toNat_ofNat_char hvalid]
  split <;> rfl

theorem lowered_joined {u v : UInt16} (hhigh : isHigh u) (hlow : isLow v) :
    lowered (joined u v) = joined u v := by
  obtain ⟨hu, hu'⟩ := hhigh
  obtain ⟨hv, hv'⟩ := hlow
  have hvalid : (65536 + (u.toNat - 55296) * 1024 + (v.toNat - 56320)).isValidChar := by
    unfold Nat.isValidChar
    omega
  have hchar : (joined u v).toNat = 65536 + (u.toNat - 55296) * 1024 + (v.toNat - 56320) :=
    toNat_ofNat_char hvalid
  rw [lowered, if_neg (by omega)]

theorem decode16_loweredUnit (units : CodeUnits) :
    decode16 (units.map loweredUnit) = (decode16 units).map (List.map lowered) := by
  fun_induction decode16 units with
  | case1 => rfl
  | case2 u hhalf =>
      have hhalf' : isHigh (loweredUnit u) ∨ isLow (loweredUnit u) := by
        rw [isHigh_loweredUnit, isLow_loweredUnit]
        exact hhalf
      simp [decode16, hhalf']
  | case3 u hhalf =>
      obtain ⟨hhigh, hlow⟩ := not_or.mp hhalf
      simp [decode16, isHigh_loweredUnit, isLow_loweredUnit, hhigh, hlow,
        ofNat_loweredUnit u hhigh hlow]
  | case4 u v rest hhigh hlow ih =>
      have hu : loweredUnit u = u := loweredUnit_of_large (by have := hhigh.1; omega)
      have hv : loweredUnit v = v := loweredUnit_of_large (by have := hlow.1; omega)
      rw [List.map_cons, List.map_cons, hu, hv, decode16, if_pos hhigh, if_pos hlow, ih,
        Option.map_map, Option.map_map]
      apply congrArg (fun f => Option.map f (decode16 rest))
      funext text
      simp [lowered_joined hhigh hlow]
  | case5 u v rest hhigh hlow =>
      simp [decode16, isHigh_loweredUnit, isLow_loweredUnit, hhigh, hlow]
  | case6 u v rest hhigh hlow =>
      simp [decode16, isHigh_loweredUnit, isLow_loweredUnit, hhigh, hlow]
  | case7 u v rest hhigh hlow ih =>
      rw [List.map_cons] at ih
      rw [List.map_cons, List.map_cons, decode16, if_neg, if_neg, ih, Option.map_map,
        Option.map_map, ofNat_loweredUnit u hhigh hlow]
      · rfl
      · rw [isLow_loweredUnit]
        exact hlow
      · rw [isHigh_loweredUnit]
        exact hhigh

end Runlet.TextCodec
