import Runlet.Core.TextSplit
import Runlet.Lib.NumberText

/-!
`zfill`, `ljust`, `rjust` and `center` of the `text` value. One guard bounds the
requested width. `ljust` and `rjust` use the padding of the language, which cuts
the repeated fill; `zfill` and `center` join empty pieces instead, so the fill of
`center` is repeated whole.
-/

namespace Runlet.TextUtil

open NumberText Binary64

/-- The longest text a caller may ask for, in code units. -/
def MAX_OUTPUT : Int := 1000000

/-- A text of ASCII characters. -/
def ascii (text : String) : CodeUnits := text.toList.map fun c => UInt16.ofNat c.toNat

def checkWidth (n : Int) : Except String Unit :=
  if MAX_OUTPUT < n then
    throw ("text: requested width " ++ numberText (Number.ofRat n) ++ " exceeds max " ++
      numberText (Number.ofRat MAX_OUTPUT))
  else pure ()

/-- `new Array(n).join(f)`: the separator between `n` empty pieces. -/
def arrayJoin (n : Nat) (f : CodeUnits) : CodeUnits := f.intercalate (List.replicate n [])

/-- The filler of `padStart` and `padEnd`: the fill repeated and cut to the units
that are missing. -/
def filler (s : CodeUnits) (width : Int) (fill : CodeUnits) : CodeUnits :=
  let missing := width.toNat - s.length
  (List.replicate missing fill).flatten.take missing

def padEnd (s : CodeUnits) (width : Int) (fill : CodeUnits) : CodeUnits :=
  s ++ filler s width fill

def padStart (s : CodeUnits) (width : Int) (fill : CodeUnits) : CodeUnits :=
  filler s width fill ++ s

/-- A space when no fill is given. -/
def fillText (fill : Option CodeUnits) : CodeUnits := fill.getD (ascii " ")

/-- The sign a text starts with, if any. -/
def signOf (s : CodeUnits) : CodeUnits :=
  if s.take 1 = ascii "+" ∨ s.take 1 = ascii "-" then s.take 1 else []

/-- The text behind its sign. -/
def bodyOf (s : CodeUnits) : CodeUnits := if signOf s = [] then s else s.drop 1

def zfill (s : CodeUnits) (width : Int) : Except String CodeUnits := do
  checkWidth width
  if (s.length : Int) ≥ width then return s
  let pad := (width - s.length).toNat
  return signOf s ++ arrayJoin (pad + 1) (ascii "0") ++ bodyOf s

def ljust (s : CodeUnits) (width : Int) (fill : Option CodeUnits) : Except String CodeUnits := do
  checkWidth width
  return padEnd s width (fillText fill)

def rjust (s : CodeUnits) (width : Int) (fill : Option CodeUnits) : Except String CodeUnits := do
  checkWidth width
  return padStart s width (fillText fill)

def center (s : CodeUnits) (width : Int) (fill : Option CodeUnits) : Except String CodeUnits := do
  checkWidth width
  if (s.length : Int) ≥ width then return s
  let f := fillText fill
  let total := (width - s.length).toNat
  let left := total / 2
  let right := total - left
  return arrayJoin (left + 1) f ++ s ++ arrayJoin (right + 1) f

/-! ### The lengths that are produced -/

theorem arrayJoin_succ (n : Nat) (f : CodeUnits) :
    arrayJoin (n + 1) f = (List.replicate n f).flatten := by
  unfold arrayJoin
  induction n with
  | zero => rfl
  | succ n ih =>
      rw [List.replicate_succ, List.replicate_succ, List.intercalate_cons_cons,
        ← List.replicate_succ, ih, List.replicate_succ, List.flatten_cons]
      rfl

theorem length_repeated (n : Nat) (f : CodeUnits) :
    (List.replicate n f).flatten.length = n * f.length := by
  rw [List.length_flatten, List.map_replicate, List.sum_replicate_nat]

theorem length_filler (s : CodeUnits) (width : Int) (fill : CodeUnits) (hfill : fill ≠ []) :
    (filler s width fill).length = width.toNat - s.length := by
  have hpos := List.length_pos_iff.mpr hfill
  unfold filler
  rw [List.length_take, length_repeated]
  apply Nat.min_eq_left
  exact Nat.le_mul_of_pos_right _ hpos

theorem sign_body (s : CodeUnits) : signOf s ++ bodyOf s = s := by
  unfold bodyOf
  by_cases hsign : signOf s = []
  · rw [if_pos hsign, hsign, List.nil_append]
  · rw [if_neg hsign]
    have htake : signOf s = s.take 1 := by
      unfold signOf at hsign ⊢
      split at hsign
      · rw [if_pos ‹_›]
      · exact absurd rfl hsign
    rw [htake, List.take_append_drop]

/-! ### What a padded text is -/

/-- One result is as expected of padding: an error over the bound, else the units
of the text in order, in as many units as the wider of the two. -/
structure Padded (s : CodeUnits) (width : Int) (result : Except String CodeUnits) : Prop where
  throws : (∃ text, result = .error text) ↔ MAX_OUTPUT < width
  length : ∀ out, result = .ok out → (out.length : Int) = max (s.length : Int) width
  bounded : ∀ out, result = .ok out → (out.length : Int) ≤ max (s.length : Int) MAX_OUTPUT
  inOrder : ∀ out, result = .ok out → s.Sublist out

/-- A guarded text is padded when it has the length and the units of the text. -/
theorem padded_iff (s : CodeUnits) (width : Int) (out : CodeUnits) (hunits : s.Sublist out) :
    Padded s width (do checkWidth width; return out) ↔
      (width ≤ MAX_OUTPUT → (out.length : Int) = max (s.length : Int) width) := by
  unfold checkWidth
  by_cases hover : MAX_OUTPUT < width
  · rw [if_pos hover]
    constructor
    · intro _ hbound
      omega
    · intro _
      refine ⟨⟨fun _ => hover, fun _ => ⟨_, rfl⟩⟩, ?_, ?_, ?_⟩ <;> exact nofun
  · rw [if_neg hover]
    constructor
    · intro padded _
      exact padded.length out rfl
    · intro hlength
      have hexact := hlength (by omega)
      refine ⟨⟨?_, fun h => absurd h hover⟩, ?_, ?_, ?_⟩
      · rintro ⟨_, ⟨⟩⟩
      · rintro _ ⟨⟩
        exact hexact
      · rintro _ ⟨⟩
        omega
      · rintro _ ⟨⟩
        exact hunits

/-! ### The four methods -/

/-- The text of `zfill` below the bound. -/
def zfillText (s : CodeUnits) (width : Int) : CodeUnits :=
  signOf s ++ (List.replicate (width - s.length).toNat (ascii "0")).flatten ++ bodyOf s

/-- The text of `center` below the bound. -/
def centerText (s : CodeUnits) (width : Int) (f : CodeUnits) : CodeUnits :=
  let total := (width - s.length).toNat
  (List.replicate (total / 2) f).flatten ++ s ++ (List.replicate (total - total / 2) f).flatten

theorem zfill_eq (s : CodeUnits) (width : Int) :
    zfill s width = do checkWidth width; return zfillText s width := by
  unfold zfill zfillText
  congr 1
  funext _
  by_cases hwide : (s.length : Int) ≥ width
  · have hnone : (width - s.length).toNat = 0 := by omega
    rw [if_pos hwide, hnone, List.replicate_zero, List.flatten_nil, List.append_nil, sign_body]
  · rw [if_neg hwide]
    simp only [arrayJoin_succ]

theorem center_eq (s : CodeUnits) (width : Int) (fill : Option CodeUnits) :
    center s width fill = do checkWidth width; return centerText s width (fillText fill) := by
  unfold center centerText
  congr 1
  funext _
  by_cases hwide : (s.length : Int) ≥ width
  · have hnone : (width - s.length).toNat = 0 := by omega
    rw [if_pos hwide, hnone]
    simp
  · rw [if_neg hwide]
    simp only [arrayJoin_succ]

theorem zfill_padded (s : CodeUnits) (width : Int) : Padded s width (zfill s width) := by
  have hparts := congrArg List.length (sign_body s)
  rw [List.length_append] at hparts
  have hunits : s.Sublist (zfillText s width) := by
    unfold zfillText
    nth_rewrite 1 [← sign_body s]
    apply List.Sublist.append _ (List.Sublist.refl _)
    exact List.sublist_append_left _ _
  rw [zfill_eq, padded_iff s width _ hunits]
  intro _
  have hzero : (ascii "0").length = 1 := rfl
  unfold zfillText
  rw [List.length_append, List.length_append, length_repeated, hzero]
  omega

theorem ljust_padded (s : CodeUnits) (width : Int) (fill : Option CodeUnits)
    (hfill : fillText fill ≠ []) : Padded s width (ljust s width fill) := by
  apply (padded_iff s width _ (List.sublist_append_left _ _)).mpr
  intro _
  rw [List.length_append, length_filler s width _ hfill]
  omega

theorem rjust_padded (s : CodeUnits) (width : Int) (fill : Option CodeUnits)
    (hfill : fillText fill ≠ []) : Padded s width (rjust s width fill) := by
  apply (padded_iff s width _ (List.sublist_append_right _ _)).mpr
  intro _
  rw [List.length_append, length_filler s width _ hfill]
  omega

theorem length_centerText (s : CodeUnits) (width : Int) (f : CodeUnits) :
    (centerText s width f).length = s.length + (width - s.length).toNat * f.length := by
  unfold centerText
  dsimp only
  rw [List.length_append, List.length_append, length_repeated, length_repeated,
    Nat.sub_mul]
  have hhalf := Nat.mul_le_mul_right f.length (Nat.div_le_self (width - s.length).toNat 2)
  omega

/-- `center` pads as expected when it has nothing to add or adds single units. -/
theorem center_padded_iff (s : CodeUnits) (width : Int) (fill : Option CodeUnits)
    (hfill : fillText fill ≠ []) :
    Padded s width (center s width fill) ↔
      (fillText fill).length = 1 ∨ width ≤ s.length ∨ MAX_OUTPUT < width := by
  have hpos := List.length_pos_iff.mpr hfill
  have hunits : s.Sublist (centerText s width (fillText fill)) := by
    apply List.Sublist.trans (List.sublist_append_right _ s)
    exact List.sublist_append_left _ _
  rw [center_eq, padded_iff s width _ hunits, length_centerText]
  constructor
  · intro hlength
    by_contra hnot
    have hmissing : 0 < (width - s.length).toNat := by omega
    have hmore := Nat.mul_lt_mul_of_pos_left (by omega : 1 < (fillText fill).length) hmissing
    have hexact := hlength (by omega)
    omega
  · intro hcases hbound
    rcases hcases with hone | hnarrow | hover
    · rw [hone]
      omega
    · rw [Int.toNat_of_nonpos (by omega), Nat.zero_mul]
      omega
    · omega

/-- What is expected of the four methods for one text, width and fill. -/
structure PaddingLaws (s : CodeUnits) (width : Int) (fill : Option CodeUnits) : Prop where
  zfill : Padded s width (zfill s width)
  zfillParts : ∀ out, TextUtil.zfill s width = .ok out →
    ∃ zeros, out = signOf s ++ List.replicate zeros 48 ++ bodyOf s
  ljust : Padded s width (ljust s width fill)
  rjust : Padded s width (rjust s width fill)
  center : Padded s width (center s width fill)

theorem zfill_parts (s : CodeUnits) (width : Int) (out : CodeUnits)
    (h : zfill s width = .ok out) :
    ∃ zeros, out = signOf s ++ List.replicate zeros 48 ++ bodyOf s := by
  rw [zfill_eq] at h
  unfold checkWidth at h
  split at h
  · cases h
  · cases h
    refine ⟨(width - s.length).toNat, ?_⟩
    unfold zfillText
    rw [show ascii "0" = [48] from rfl, List.flatten_replicate_singleton]

/-- The four methods meet their laws except when `center` has to add units of a
fill that is longer than one. -/
theorem paddingLaws_iff (s : CodeUnits) (width : Int) (fill : Option CodeUnits)
    (hfill : fillText fill ≠ []) :
    PaddingLaws s width fill ↔
      (fillText fill).length = 1 ∨ width ≤ s.length ∨ MAX_OUTPUT < width := by
  rw [← center_padded_iff s width fill hfill]
  constructor
  · exact fun laws => laws.center
  · intro hcenter
    exact ⟨zfill_padded s width, zfill_parts s width, ljust_padded s width fill hfill,
      rjust_padded s width fill hfill, hcenter⟩

/-- `x` centered in three units with `-`. -/
theorem paddingLaws_dash : PaddingLaws (ascii "x") 3 (some (ascii "-")) :=
  (paddingLaws_iff (ascii "x") 3 (some (ascii "-")) (by decide)).mpr (.inl rfl)

/-- `x` centered in three units with `ab` has five. -/
theorem center_long_fill :
    center (ascii "x") 3 (some (ascii "ab")) = .ok (ascii "abxab") ∧
      ¬PaddingLaws (ascii "x") 3 (some (ascii "ab")) := by
  have hwide : center (ascii "x") 3 (some (ascii "ab")) = .ok (ascii "abxab") := by decide
  refine ⟨hwide, ?_⟩
  intro laws
  have hlength := laws.center.length _ hwide
  revert hlength
  decide

end Runlet.TextUtil
