import Runlet.Lib.Separator

/-!
`split` and `rsplit` of the `text` value, over the code units of a string: two
cursor loops over `indexOf` and `lastIndexOf`. A negative position of
`lastIndexOf` counts as zero, so a separator at the very front is found again
by a cursor that has no room for it.
-/

namespace Runlet.TextUtil

open Separator

variable {α : Type} [DecidableEq α]

/-! ### The string functions of the language -/

/-- The first occurrence from a position on. -/
def indexOf (text sep : List α) (start : Nat) : Option Nat :=
  (List.range (text.length + 1)).find? fun i =>
    min start text.length ≤ i && sep.isPrefixOf (text.drop i)

/-- The last occurrence up to a position. -/
def lastFrom (text sep : List α) : Nat → Option Nat
  | 0 => if sep.isPrefixOf text then some 0 else none
  | position + 1 =>
      if sep.isPrefixOf (text.drop (position + 1)) then some (position + 1)
      else lastFrom text sep position

def lastIndexOf (text sep : List α) (position : Int) : Option Nat :=
  lastFrom text sep position.toNat

def slice (text : List α) (start stop : Nat) : List α := (text.take stop).drop start

/-- The loop of `split`, with the cuts that are left. -/
def splitLoop (text sep : List α) : Nat → Nat → List (List α)
  | 0, start => [text.drop start]
  | left + 1, start =>
      match indexOf text sep start with
      | none => [text.drop start]
      | some index =>
          slice text start index :: splitLoop text sep left (index + sep.length)

/-- The built-in `split`: the same search, as often as it succeeds. -/
def nativeSplit (text sep : List α) : List (List α) :=
  if sep = [] then text.map fun unit => [unit] else splitLoop text sep text.length 0

/-! ### The two methods -/

def split (text sep : List α) (maxsplit : Option Int) : List (List α) :=
  match maxsplit with
  | none => nativeSplit text sep
  | some limit =>
      if limit < 0 then nativeSplit text sep else splitLoop text sep limit.toNat 0

/-- The loop of `rsplit`: pieces are put in front of those found before. -/
def rsplitLoop (text sep : List α) : Nat → Nat → List (List α) → List (List α)
  | 0, stop, out => slice text 0 stop :: out
  | left + 1, stop, out =>
      match lastIndexOf text sep ((stop : Int) - sep.length) with
      | none => slice text 0 stop :: out
      | some index =>
          if sep = [] then slice text 0 stop :: out
          else rsplitLoop text sep left index (slice text (index + sep.length) stop :: out)

def rsplit (text sep : List α) (maxsplit : Option Int) : List (List α) :=
  match maxsplit with
  | none => nativeSplit text sep
  | some limit =>
      if limit < 0 then nativeSplit text sep
      else rsplitLoop text sep limit.toNat text.length []

/-- `count`: the separators that do not overlap, from the left. -/
def count (text sep : List α) : Nat :=
  if sep = [] then text.length + 1 else (nativeSplit text sep).length - 1

/-! ### From the left -/

theorem indexOf_eq_cut (text sep : List α) (hsep : sep ≠ []) (start : Nat)
    (hstart : start ≤ text.length) :
    indexOf text sep start = (cut sep (text.drop start)).map fun parts =>
      start + parts.1.length := by
  unfold indexOf
  rw [Nat.min_eq_left hstart]
  cases hcut : cut sep (text.drop start) with
  | none =>
      have hno := (cut_none sep (text.drop start) hsep).mp hcut
      rw [Option.map_none, List.find?_eq_none]
      intro i _ hfound
      rw [Bool.and_eq_true, decide_eq_true_eq, List.isPrefixOf_iff_prefix] at hfound
      apply hno (i - start)
      rw [List.drop_drop, Nat.add_sub_cancel' hfound.1]
      exact hfound.2
  | some parts =>
      obtain ⟨before, after⟩ := parts
      obtain ⟨heq, hfirst⟩ := cut_some sep (text.drop start) before after hcut
      have hlength := congrArg List.length heq
      rw [List.length_drop, List.length_append] at hlength
      rw [Option.map_some, List.find?_range_eq_some]
      dsimp only
      refine ⟨?_, List.mem_range.mpr (by omega), ?_⟩
      · rw [Bool.and_eq_true, decide_eq_true_eq, List.isPrefixOf_iff_prefix, ← List.drop_drop,
          heq, List.drop_left]
        exact ⟨Nat.le_add_right _ _, List.prefix_append _ _⟩
      · intro i hi
        rw [Bool.not_eq_true', Bool.and_eq_false_iff]
        rcases Nat.lt_or_ge i start with hlt | hge
        · exact .inl (by simpa using hlt)
        · right
          have hnone := hfirst (i - start) (by omega)
          rw [List.drop_drop, Nat.add_sub_cancel' hge, ← List.isPrefixOf_iff_prefix] at hnone
          exact Bool.not_eq_true _ ▸ hnone

/-- The cursor loop makes the cuts of the rest behind the cursor. -/
theorem splitLoop_eq_cuts (text sep : List α) (hsep : sep ≠ []) (left start : Nat)
    (hstart : start ≤ text.length) :
    splitLoop text sep left start = cuts sep left (text.drop start) := by
  induction left generalizing start with
  | zero => rfl
  | succ left ih =>
      unfold splitLoop cuts
      rw [indexOf_eq_cut text sep hsep start hstart]
      cases hcut : cut sep (text.drop start) with
      | none => rfl
      | some parts =>
          obtain ⟨before, after⟩ := parts
          obtain ⟨heq, -⟩ := cut_some sep (text.drop start) before after hcut
          have hlength := congrArg List.length heq
          rw [List.length_drop, List.length_append, List.length_append] at hlength
          have hpos := List.length_pos_iff.mpr hsep
          have hrest : text.drop (start + before.length + sep.length) = after := by
            rw [Nat.add_assoc, ← List.drop_drop, heq, ← List.drop_drop, List.drop_left,
              List.drop_left]
          have hpiece : slice text start (start + before.length) = before := by
            unfold slice
            rw [List.drop_take, heq, Nat.add_sub_cancel_left, List.take_left]
          simp only [Option.map_some]
          rw [ih _ (by omega), hrest, hpiece]

theorem split_eq_cuts (text sep : List α) (hsep : sep ≠ []) (limit : Nat) :
    split text sep (some limit) = cuts sep limit text := by
  unfold split
  dsimp only
  rw [if_neg (by omega), Int.toNat_natCast, splitLoop_eq_cuts text sep hsep limit 0 (by omega),
    List.drop_zero]

theorem nativeSplit_eq_cuts (text sep : List α) (hsep : sep ≠ []) :
    nativeSplit text sep = cuts sep text.length text := by
  unfold nativeSplit
  rw [if_neg hsep, splitLoop_eq_cuts text sep hsep _ 0 (by omega), List.drop_zero]

theorem count_eq_occurrences (text sep : List α) (hsep : sep ≠ []) :
    count text sep = occurrences sep text := by
  unfold count occurrences
  rw [if_neg hsep, nativeSplit_eq_cuts text sep hsep]

/-! ### From the right -/

theorem lastFrom_none (text sep : List α) (position : Nat)
    (hno : ∀ i ≤ position, ¬ sep <+: text.drop i) : lastFrom text sep position = none := by
  induction position with
  | zero =>
      unfold lastFrom
      rw [if_neg]
      rw [List.isPrefixOf_iff_prefix]
      exact hno 0 (Nat.le_refl _)
  | succ position ih =>
      unfold lastFrom
      rw [if_neg]
      · exact ih fun i hi => hno i (by omega)
      · rw [List.isPrefixOf_iff_prefix]
        exact hno (position + 1) (Nat.le_refl _)

theorem lastFrom_some (text sep : List α) (position index : Nat) (hindex : index ≤ position)
    (hat : sep <+: text.drop index)
    (hlast : ∀ i, index < i → i ≤ position → ¬ sep <+: text.drop i) :
    lastFrom text sep position = some index := by
  induction position with
  | zero =>
      obtain rfl : index = 0 := by omega
      unfold lastFrom
      exact if_pos (List.isPrefixOf_iff_prefix.mpr hat)
  | succ position ih =>
      unfold lastFrom
      by_cases hend : index = position + 1
      · rw [hend] at hat ⊢
        exact if_pos (List.isPrefixOf_iff_prefix.mpr hat)
      · rw [if_neg]
        · exact ih (by omega) fun i hlt hle => hlast i hlt (by omega)
        · rw [List.isPrefixOf_iff_prefix]
          exact hlast (position + 1) (by omega) (Nat.le_refl _)

omit [DecidableEq α] in
theorem suffix_take_iff (text sep : List α) (stop : Nat) (hstop : stop ≤ text.length) :
    sep <:+ text.take stop ↔ sep.length ≤ stop ∧ sep <+: text.drop (stop - sep.length) := by
  constructor
  · rintro ⟨front, hfront⟩
    have hlength := congrArg List.length hfront
    rw [List.length_append, List.length_take, Nat.min_eq_left hstop] at hlength
    refine ⟨by omega, ?_⟩
    have htext : text = front ++ (sep ++ text.drop stop) := by
      rw [← List.append_assoc, hfront, List.take_append_drop]
    have hindex : stop - sep.length = front.length := by omega
    rw [hindex, htext, List.drop_left]
    exact List.prefix_append _ _
  · rintro ⟨hle, tail, htail⟩
    refine ⟨text.take (stop - sep.length), ?_⟩
    have hsplit : stop = stop - sep.length + sep.length := by omega
    conv_rhs => rw [hsplit, List.take_add, ← htail, List.take_left]

omit [DecidableEq α] in
/-- A separator in the mirrored front of the text is one in the text. -/
theorem mirrored_at_iff (text sep : List α) (stop i : Nat) (hsep : sep ≠ [])
    (hstop : stop ≤ text.length) :
    sep.reverse <+: (text.take stop).reverse.drop i ↔
      i + sep.length ≤ stop ∧ sep <+: text.drop (stop - i - sep.length) := by
  have hpos := List.length_pos_iff.mpr hsep
  rw [List.drop_reverse, List.reverse_prefix, List.length_take, Nat.min_eq_left hstop,
    List.take_take, Nat.min_eq_left (Nat.sub_le _ _), suffix_take_iff text sep _ (by omega)]
  constructor
  · rintro ⟨hle, hat⟩
    exact ⟨by omega, hat⟩
  · rintro ⟨hle, hat⟩
    exact ⟨by omega, hat⟩

/-- The search below a cursor finds the separator of the mirrored cut. Where
there is none left, it still finds one at the front of the text. -/
theorem lastIndexOf_eq_cut (text sep : List α) (hsep : sep ≠ []) (stop : Nat)
    (hstop : stop ≤ text.length) :
    lastIndexOf text sep ((stop : Int) - sep.length) =
      match cut sep.reverse (text.take stop).reverse with
      | some parts => some parts.2.length
      | none => if sep.isPrefixOf text then some 0 else none := by
  have hrev : sep.reverse ≠ [] := by simpa using hsep
  unfold lastIndexOf
  cases hcut : cut sep.reverse (text.take stop).reverse with
  | none =>
      have hno := (cut_none sep.reverse _ hrev).mp hcut
      dsimp only
      rcases Nat.lt_or_ge stop sep.length with hshort | hroom
      · rw [show ((stop : Int) - sep.length).toNat = 0 by omega]
        rfl
      · rw [show ((stop : Int) - sep.length).toNat = stop - sep.length by omega]
        have hnowhere : ∀ i ≤ stop - sep.length, ¬ sep <+: text.drop i := by
          intro i hi hat
          apply hno (stop - sep.length - i)
          rw [mirrored_at_iff text sep stop _ hsep hstop]
          refine ⟨by omega, ?_⟩
          rwa [show stop - (stop - sep.length - i) - sep.length = i by omega]
        rw [lastFrom_none text sep _ hnowhere, if_neg]
        rw [List.isPrefixOf_iff_prefix]
        exact hnowhere 0 (by omega)
  | some parts =>
      obtain ⟨before, after⟩ := parts
      obtain ⟨heq, hfirst⟩ := cut_some sep.reverse _ before after hcut
      have hlength := congrArg List.length heq
      rw [List.length_reverse, List.length_take, Nat.min_eq_left hstop, List.length_append,
        List.length_append, List.length_reverse] at hlength
      have hat : sep.reverse <+: (text.take stop).reverse.drop before.length := by
        rw [heq, List.drop_left]
        exact List.prefix_append _ _
      obtain ⟨-, hfound⟩ := (mirrored_at_iff text sep stop _ hsep hstop).mp hat
      rw [show ((stop : Int) - sep.length).toNat = stop - sep.length by omega]
      dsimp only
      apply lastFrom_some
      · omega
      · rwa [show after.length = stop - before.length - sep.length by omega]
      · intro i hlt hle hother
        apply hfirst (stop - sep.length - i) (by omega)
        rw [mirrored_at_iff text sep stop _ hsep hstop]
        refine ⟨by omega, ?_⟩
        rwa [show stop - (stop - sep.length - i) - sep.length = i by omega]

/-- The loop makes the mirrored cuts, unless it goes on behind the last of them
in a text that starts with the separator. -/
theorem rsplitLoop_eq_cuts (text sep : List α) (hsep : sep ≠ []) (left stop : Nat)
    (out : List (List α)) (hstop : stop ≤ text.length)
    (hfine : ¬ sep <+: text ∨ left ≤ occurrences sep.reverse (text.take stop).reverse) :
    rsplitLoop text sep left stop out =
      mirror (cuts sep.reverse left (text.take stop).reverse) ++ out := by
  have hrev : sep.reverse ≠ [] := by simpa using hsep
  induction left generalizing stop out with
  | zero => simp [rsplitLoop, cuts, mirror, slice]
  | succ left ih =>
      unfold rsplitLoop cuts
      rw [lastIndexOf_eq_cut text sep hsep stop hstop]
      cases hcut : cut sep.reverse (text.take stop).reverse with
      | none =>
          have hstart : ¬ sep <+: text := by
            rcases hfine with hnot | hle
            · exact hnot
            · rw [occurrences_of_cut_none _ _ hcut] at hle
              omega
          rw [← List.isPrefixOf_iff_prefix] at hstart
          simp [hstart, mirror, slice]
      | some parts =>
          obtain ⟨before, after⟩ := parts
          obtain ⟨heq, -⟩ := cut_some sep.reverse _ before after hcut
          have hfront : text.take stop = after.reverse ++ (sep ++ before.reverse) := by
            have hback := congrArg List.reverse heq
            simpa using hback
          have hlength := congrArg List.length hfront
          rw [List.length_take, Nat.min_eq_left hstop, List.length_append, List.length_append,
            List.length_reverse, List.length_reverse] at hlength
          have hafter : after.reverse.length = after.length := List.length_reverse
          have hrest : (text.take after.length).reverse = after := by
            have htake : text.take after.length = (text.take stop).take after.length := by
              rw [List.take_take, Nat.min_eq_left (by omega)]
            rw [htake, hfront, ← hafter, List.take_left, List.reverse_reverse]
          have hpiece : slice text (after.length + sep.length) stop = before.reverse := by
            unfold slice
            rw [hfront, ← List.drop_drop, ← hafter, List.drop_left, List.drop_left]
          have hnext : ¬ sep <+: text ∨
              left ≤ occurrences sep.reverse (text.take after.length).reverse := by
            rcases hfine with hnot | hle
            · exact .inl hnot
            · rw [occurrences_of_cut_some _ _ before after hrev hcut] at hle
              rw [hrest]
              exact .inr (by omega)
          dsimp only
          rw [if_neg hsep, ih after.length _ (by omega) hnext, hrest, hpiece, mirror_cons,
            List.append_assoc, List.singleton_append]

/-- In a text that starts with the separator the search always succeeds. -/
theorem length_rsplitLoop (text sep : List α) (hsep : sep ≠ []) (hstart : sep <+: text)
    (left stop : Nat) (out : List (List α)) (hstop : stop ≤ text.length) :
    (rsplitLoop text sep left stop out).length = left + 1 + out.length := by
  induction left generalizing stop out with
  | zero =>
      unfold rsplitLoop
      rw [List.length_cons]
      omega
  | succ left ih =>
      unfold rsplitLoop
      rw [lastIndexOf_eq_cut text sep hsep stop hstop]
      cases hcut : cut sep.reverse (text.take stop).reverse with
      | none =>
          dsimp only
          rw [if_pos (List.isPrefixOf_iff_prefix.mpr hstart)]
          dsimp only
          rw [if_neg hsep, ih 0 _ (Nat.zero_le _), List.length_cons]
          omega
      | some parts =>
          obtain ⟨before, after⟩ := parts
          obtain ⟨heq, -⟩ := cut_some sep.reverse _ before after hcut
          have hlength := congrArg List.length heq
          rw [List.length_reverse, List.length_take, Nat.min_eq_left hstop, List.length_append,
            List.length_append] at hlength
          dsimp only
          rw [if_neg hsep, ih after.length _ (by omega), List.length_cons]
          omega

theorem rsplit_limit (text sep : List α) (limit : Nat) :
    rsplit text sep (some limit) = rsplitLoop text sep limit text.length [] := by
  unfold rsplit
  dsimp only
  rw [if_neg (by omega), Int.toNat_natCast]

/-! ### The laws of the two -/

structure SplitLaw (text sep : List α) (limit : Nat) : Prop where
  bound : (split text sep (some limit)).length ≤ limit + 1
  join : sep.intercalate (split text sep (some limit)) = text
  rbound : (rsplit text sep (some limit)).length ≤ limit + 1
  rjoin : sep.intercalate (rsplit text sep (some limit)) = text
  mirrored : rsplit text sep (some limit) =
    mirror (split text.reverse sep.reverse (some limit))
  unlimited : count text sep ≤ limit → split text sep (some limit) = split text sep none

/-- `split` is always right; `rsplit` is right exactly when the text does not
start with the separator or the limit is met. -/
theorem splitLaw_iff (text sep : List α) (hsep : sep ≠ []) (limit : Nat) :
    SplitLaw text sep limit ↔
      ¬ sep <+: text ∨ limit ≤ count text.reverse sep.reverse := by
  have hrev : sep.reverse ≠ [] := by simpa using hsep
  have hmirror := split_eq_cuts text.reverse sep.reverse hrev limit
  rw [count_eq_occurrences _ _ hrev]
  constructor
  · intro hlaw
    by_contra hbad
    rw [not_or, not_not] at hbad
    obtain ⟨hstart, hmore⟩ := hbad
    have hlength := congrArg List.length hlaw.mirrored
    rw [rsplit_limit, length_rsplitLoop text sep hsep hstart _ _ _ (Nat.le_refl _), hmirror,
      length_mirror, length_cuts _ hrev, List.length_nil] at hlength
    omega
  · intro hfine
    have hright : rsplit text sep (some limit) =
        mirror (split text.reverse sep.reverse (some limit)) := by
      rw [rsplit_limit, rsplitLoop_eq_cuts text sep hsep limit text.length [] (Nat.le_refl _)
        (by rwa [List.take_length]), List.take_length, List.append_nil, hmirror]
    constructor
    · rw [split_eq_cuts text sep hsep, length_cuts sep hsep]
      omega
    · rw [split_eq_cuts text sep hsep, intercalate_cuts]
    · rw [hright, hmirror, length_mirror, length_cuts _ hrev]
      omega
    · have hjoin := intercalate_mirror sep.reverse (cuts sep.reverse limit text.reverse)
      rw [List.reverse_reverse, intercalate_cuts, List.reverse_reverse] at hjoin
      rw [hright, hmirror, hjoin]
    · exact hright
    · intro hcount
      rw [count_eq_occurrences text sep hsep] at hcount
      rw [split_eq_cuts text sep hsep, cuts_of_occurrences sep hsep limit text hcount]
      exact (nativeSplit_eq_cuts text sep hsep).symm

/-- A JavaScript string. -/
abbrev CodeUnits := List UInt16

/-- The text `a,b,c` with one cut. -/
theorem splitLaw_iff_letters :
    ([44] : CodeUnits) ≠ [] ∧ SplitLaw ([97, 44, 98, 44, 99] : CodeUnits) [44] 1 := by
  refine ⟨by decide, ?_⟩
  exact (splitLaw_iff [97, 44, 98, 44, 99] [44] (by decide) 1).mpr (.inl (by decide))

/-- The text `,a` with room for two cuts: the separator at the front is found
twice, and the pieces give `,,a`. -/
theorem leading_separator_repeats :
    rsplit ([44, 97] : CodeUnits) [44] (some 2) = [[], [], [97]] ∧
    ([44] : CodeUnits).intercalate (rsplit [44, 97] [44] (some 2)) = [44, 44, 97] ∧
    ¬ SplitLaw ([44, 97] : CodeUnits) [44] 2 := by
  refine ⟨by decide, by decide, ?_⟩
  intro hlaw
  exact absurd hlaw.rjoin (by decide)

end Runlet.TextUtil
