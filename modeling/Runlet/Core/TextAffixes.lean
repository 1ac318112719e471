import Runlet.Core.TextSplit

/-!
`starts_with`, `ends_with`, `removeprefix` and `removesuffix` of the `text`
value. Each is an equation between a position and what `indexOf` returns for
it. `removesuffix` has no guard on the lengths: for a suffix that is one code
unit longer than the text, the position and the "not found" sentinel are both -1.
-/

namespace Runlet.TextUtil

variable {α : Type} [DecidableEq α]

/-- `indexOf` with a position that may be negative, and -1 for nothing found. -/
def indexOfFrom (text sep : List α) (position : Int) : Int :=
  match indexOf text sep position.toNat with
  | none => -1
  | some index => index

/-- `slice(0, stop)`: a negative end counts from the back. -/
def sliceTo (text : List α) (stop : Int) : List α :=
  text.take (if stop < 0 then (text.length + stop).toNat else stop.toNat)

def startsWith (v p : List α) : Bool := indexOfFrom v p 0 == 0

def endsWith (v suf : List α) : Bool :=
  indexOfFrom v suf ((v.length : Int) - suf.length) != -1 && suf.length ≤ v.length

def removeprefix (v pre : List α) : List α :=
  if indexOfFrom v pre 0 = 0 then v.drop pre.length else v

def removesuffix (v suf : List α) : List α :=
  let start := (v.length : Int) - suf.length
  if 0 < suf.length ∧ indexOfFrom v suf start = start then sliceTo v start else v

/-! ### What the search finds -/

theorem indexOf_some (text sep : List α) (start index : Nat)
    (h : indexOf text sep start = some index) :
    min start text.length ≤ index ∧ index ≤ text.length ∧ sep <+: text.drop index := by
  obtain ⟨hfound, hmem, -⟩ := List.find?_range_eq_some.mp h
  rw [Bool.and_eq_true, decide_eq_true_eq, List.isPrefixOf_iff_prefix] at hfound
  exact ⟨hfound.1, Nat.lt_succ_iff.mp (List.mem_range.mp hmem), hfound.2⟩

theorem indexOf_of_occurs (text sep : List α) (start : Nat) (hstart : start ≤ text.length)
    (hoccurs : sep <+: text.drop start) : indexOf text sep start = some start := by
  apply List.find?_range_eq_some.mpr
  rw [Nat.min_eq_left hstart, Bool.and_eq_true, decide_eq_true_eq, List.isPrefixOf_iff_prefix]
  refine ⟨⟨Nat.le_refl _, hoccurs⟩, List.mem_range.mpr (by omega), ?_⟩
  intro i hi
  simp only [Bool.not_eq_true', Bool.and_eq_false_iff]
  exact .inl (by simpa using hi)

/-- An occurrence leaves room for what is found. -/
theorem indexOf_room (text sep : List α) (start index : Nat)
    (h : indexOf text sep start = some index) : index + sep.length ≤ text.length := by
  obtain ⟨-, hle, hoccurs⟩ := indexOf_some text sep start index h
  have hlength := hoccurs.length_le
  rw [List.length_drop] at hlength
  omega

/-- The first occurrence from the front is at the front exactly for a prefix. -/
theorem indexOfFrom_zero (text sep : List α) : indexOfFrom text sep 0 = 0 ↔ sep <+: text := by
  unfold indexOfFrom
  rw [Int.toNat_zero]
  constructor
  · intro h
    cases hindex : indexOf text sep 0 with
    | none => simp [hindex] at h
    | some index =>
        simp only [hindex, Int.natCast_eq_zero] at h
        subst h
        exact (indexOf_some text sep _ _ hindex).2.2
  · intro h
    rw [indexOf_of_occurs text sep 0 (Nat.zero_le _) h]
    rfl

/-- From the last place with room for it, a text is found there or nowhere. -/
theorem indexOfFrom_last (text sep : List α) (hlength : sep.length ≤ text.length) :
    indexOfFrom text sep ((text.length : Int) - sep.length) =
      if sep <:+ text then (text.length : Int) - sep.length else -1 := by
  have hstart : ((text.length : Int) - sep.length).toNat = text.length - sep.length := by omega
  unfold indexOfFrom
  rw [hstart]
  cases hindex : indexOf text sep (text.length - sep.length) with
  | none =>
      rw [if_neg]
      intro hsuffix
      have hlast : sep = text.drop (text.length - sep.length) :=
        List.suffix_iff_eq_drop.mp hsuffix
      have hoccurs : sep <+: text.drop (text.length - sep.length) :=
        ⟨[], (List.append_nil sep).trans hlast⟩
      rw [indexOf_of_occurs text sep _ (Nat.sub_le _ _) hoccurs] at hindex
      cases hindex
  | some index =>
      obtain ⟨hfrom, -, hoccurs⟩ := indexOf_some text sep _ _ hindex
      have hroom := indexOf_room text sep _ _ hindex
      have hplace : index = text.length - sep.length := by omega
      subst hplace
      have hwhole : sep = text.drop (text.length - sep.length) :=
        hoccurs.eq_of_length (by rw [List.length_drop]; omega)
      rw [if_pos (List.suffix_iff_eq_drop.mpr hwhole)]
      exact Int.ofNat_sub hlength

/-- A text with no room for what is searched does not have it. -/
theorem indexOfFrom_longer (text sep : List α) (hlength : text.length < sep.length)
    (position : Int) : indexOfFrom text sep position = -1 := by
  unfold indexOfFrom
  cases hindex : indexOf text sep position.toNat with
  | none => rfl
  | some index =>
      have hroom := indexOf_room text sep _ _ hindex
      omega

/-! ### The four methods -/

theorem startsWith_iff (v p : List α) : startsWith v p = true ↔ p <+: v := by
  unfold startsWith
  rw [beq_iff_eq, indexOfFrom_zero]

theorem endsWith_iff (v suf : List α) : endsWith v suf = true ↔ suf <:+ v := by
  unfold endsWith
  rw [Bool.and_eq_true, bne_iff_ne, decide_eq_true_eq]
  constructor
  · intro ⟨hfound, hlength⟩
    rw [indexOfFrom_last v suf hlength] at hfound
    by_contra hnot
    exact hfound (if_neg hnot)
  · intro hsuffix
    have hlength := hsuffix.length_le
    rw [indexOfFrom_last v suf hlength, if_pos hsuffix]
    exact ⟨by omega, hlength⟩

theorem removeprefix_eq (v pre : List α) :
    removeprefix v pre = if pre ≠ [] ∧ pre <+: v then v.drop pre.length else v := by
  unfold removeprefix
  cases pre with
  | nil => simp
  | cons unit rest => simp [indexOfFrom_zero]

/-- A suffix that fits is removed as it should be. -/
theorem removesuffix_fits (v suf : List α) (hlength : suf.length ≤ v.length) :
    removesuffix v suf =
      if suf ≠ [] ∧ suf <:+ v then v.take (v.length - suf.length) else v := by
  unfold removesuffix sliceTo
  dsimp only
  rw [indexOfFrom_last v suf hlength]
  have hstart : ((v.length : Int) - suf.length).toNat = v.length - suf.length := by omega
  have hfound : ((if suf <:+ v then (v.length : Int) - suf.length else -1) =
      (v.length : Int) - suf.length) ↔ suf <:+ v := by
    constructor
    · intro h
      by_contra hnot
      rw [if_neg hnot] at h
      omega
    · exact fun h => if_pos h
  rw [hstart, if_neg (by omega : ¬(v.length : Int) - suf.length < 0)]
  exact if_congr (and_congr List.length_pos_iff hfound) rfl rfl

/-- One that is longer is left alone, unless it is longer by one: then the last
unit goes. -/
theorem removesuffix_longer (v suf : List α) (hlength : v.length < suf.length) :
    removesuffix v suf = if suf.length = v.length + 1 then v.take (v.length - 1) else v := by
  unfold removesuffix sliceTo
  dsimp only
  rw [indexOfFrom_longer v suf hlength]
  by_cases hone : suf.length = v.length + 1
  · rw [if_pos ⟨by omega, by omega⟩, if_pos hone, if_pos (by omega)]
    congr 1
    omega
  · rw [if_neg (by omega), if_neg hone]

/-- What is expected of the four methods for one text and one affix. -/
structure AffixLaws (v s : List α) : Prop where
  removesuffix : removesuffix v s =
    if s ≠ [] ∧ s <:+ v then v.take (v.length - s.length) else v
  removeprefix : removeprefix v s = if s ≠ [] ∧ s <+: v then v.drop s.length else v
  endsWith : endsWith v s = true ↔ s <:+ v
  startsWith : startsWith v s = true ↔ s <+: v
  appended : TextUtil.removesuffix (v ++ s) s = v
  prepended : TextUtil.removeprefix (s ++ v) s = v

theorem removesuffix_appended (v s : List α) : removesuffix (v ++ s) s = v := by
  rw [removesuffix_fits (v ++ s) s (by simp)]
  cases s with
  | nil => simp
  | cons unit rest => simp

theorem removeprefix_prepended (v s : List α) : removeprefix (s ++ v) s = v := by
  rw [removeprefix_eq]
  cases s with
  | nil => simp
  | cons unit rest => simp

/-- The methods meet their laws except on a text with units and an affix that is
one unit longer. -/
theorem affixLaws_iff (v s : List α) :
    AffixLaws v s ↔ ¬(s.length = v.length + 1 ∧ v ≠ []) := by
  constructor
  · intro laws ⟨hone, hv⟩
    have hremoved := laws.removesuffix
    rw [removesuffix_longer v s (by omega), if_pos hone, if_neg] at hremoved
    · have hpos := List.length_pos_iff.mpr hv
      have hlength := congrArg List.length hremoved
      rw [List.length_take] at hlength
      omega
    · intro hsuffix
      have hle := hsuffix.2.length_le
      omega
  · intro hnot
    refine ⟨?_, removeprefix_eq v s, endsWith_iff v s, startsWith_iff v s,
      removesuffix_appended v s, removeprefix_prepended v s⟩
    rcases Nat.lt_or_ge v.length s.length with hlonger | hfits
    · have hnosuffix : ¬(s ≠ [] ∧ s <:+ v) := by
        intro hsuffix
        have hle := hsuffix.2.length_le
        omega
      rw [removesuffix_longer v s hlonger, if_neg hnosuffix]
      by_cases hone : s.length = v.length + 1
      · rw [if_pos hone]
        have hempty : v = [] := by
          by_contra hv
          exact hnot ⟨hone, hv⟩
        rw [hempty]
        rfl
      · rw [if_neg hone]
    · exact removesuffix_fits v s hfits

/-- `abc` without the suffix `abcd` is `ab`. -/
theorem removesuffix_longer_by_one :
    ¬AffixLaws ([97, 98, 99] : CodeUnits) [97, 98, 99, 100] := by
  intro laws
  have hremoved := laws.removesuffix
  revert hremoved
  decide

end Runlet.TextUtil
