import Mathlib.Data.List.Basic

/-!
Cutting a list at a separator, at most so often, from the left or from the
right. The cuts never overlap, and put together again with the separator the
pieces are the list. Cutting from the right is the mirror image of cutting from
the left.
-/

namespace Runlet.Separator

variable {α : Type} [DecidableEq α]

/-- The parts before and behind the first separator. -/
def cut (sep : List α) : List α → Option (List α × List α)
  | [] => none
  | item :: rest =>
      if sep.isPrefixOf (item :: rest) then some ([], (item :: rest).drop sep.length)
      else (cut sep rest).map fun parts => (item :: parts.1, parts.2)

/-- The pieces of at most `count` cuts; the last one keeps the rest. -/
def cuts (sep : List α) : Nat → List α → List (List α)
  | 0, items => [items]
  | count + 1, items =>
      match cut sep items with
      | none => [items]
      | some (before, after) => before :: cuts sep count after

/-- How often the list can be cut. -/
def occurrences (sep items : List α) : Nat := (cuts sep items.length items).length - 1

/-- Every piece and the order of the pieces turned around. -/
def mirror (pieces : List (List α)) : List (List α) := (pieces.map List.reverse).reverse

/-! ### One cut -/

theorem cut_some (sep items before after : List α) (hcut : cut sep items = some (before, after)) :
    items = before ++ (sep ++ after) ∧
      ∀ i < before.length, ¬ sep <+: items.drop i := by
  induction items generalizing before after with
  | nil => cases hcut
  | cons item rest ih =>
      unfold cut at hcut
      split at hcut
      · rename_i hstart
        obtain ⟨hbefore, hafter⟩ := Prod.mk.inj (Option.some.inj hcut)
        obtain ⟨tail, htail⟩ := List.isPrefixOf_iff_prefix.mp hstart
        subst hbefore
        constructor
        · rw [← hafter, ← htail, List.drop_left, List.nil_append]
        · intro i hi
          cases hi
      · rename_i hstart
        obtain ⟨⟨front, back⟩, hrest, hparts⟩ := Option.map_eq_some_iff.mp hcut
        obtain ⟨hbefore, hafter⟩ := Prod.mk.inj hparts
        obtain ⟨heq, hfirst⟩ := ih front back hrest
        dsimp only at hbefore hafter
        subst hbefore hafter
        constructor
        · rw [List.cons_append, ← heq]
        · intro i hi
          cases i with
          | zero => exact fun h => hstart (List.isPrefixOf_iff_prefix.mpr h)
          | succ i => exact hfirst i (by simpa using hi)

theorem cut_none (sep items : List α) (hsep : sep ≠ []) :
    cut sep items = none ↔ ∀ i, ¬ sep <+: items.drop i := by
  induction items with
  | nil =>
      constructor
      · intro _ i hstart
        rw [List.drop_nil] at hstart
        exact hsep (List.prefix_nil.mp hstart)
      · intro _
        rfl
  | cons item rest ih =>
      unfold cut
      split
      · rename_i hstart
        constructor
        · intro h
          cases h
        · intro h
          exact absurd (List.isPrefixOf_iff_prefix.mp hstart) (h 0)
      · rename_i hstart
        rw [Option.map_eq_none_iff, ih]
        constructor
        · intro h i
          cases i with
          | zero => exact fun hzero => hstart (List.isPrefixOf_iff_prefix.mpr hzero)
          | succ i => exact h i
        · intro h i
          exact h (i + 1)

theorem cut_shorter (sep items before after : List α) (hsep : sep ≠ [])
    (hcut : cut sep items = some (before, after)) : after.length < items.length := by
  obtain ⟨heq, -⟩ := cut_some sep items before after hcut
  have hpos := List.length_pos_iff.mpr hsep
  have hlength := congrArg List.length heq
  rw [List.length_append, List.length_append] at hlength
  omega

/-! ### All cuts -/

theorem cuts_ne_nil (sep : List α) (count : Nat) (items : List α) : cuts sep count items ≠ [] := by
  cases count with
  | zero => simp [cuts]
  | succ count =>
      unfold cuts
      split <;> simp

omit [DecidableEq α] in
theorem intercalate_cons (sep piece : List α) (pieces : List (List α)) (hne : pieces ≠ []) :
    sep.intercalate (piece :: pieces) = piece ++ (sep ++ sep.intercalate pieces) := by
  cases pieces with
  | nil => exact absurd rfl hne
  | cons next rest => simp [List.intercalate]

theorem intercalate_cuts (sep : List α) (count : Nat) (items : List α) :
    sep.intercalate (cuts sep count items) = items := by
  induction count generalizing items with
  | zero => simp [cuts, List.intercalate]
  | succ count ih =>
      unfold cuts
      split
      · simp [List.intercalate]
      · rename_i before after hcut
        rw [intercalate_cons _ _ _ (cuts_ne_nil sep count after), ih after]
        exact (cut_some sep items before after hcut).1.symm

/-- With room for one cut for every item the limit is never met. -/
theorem length_cuts_of_room (sep : List α) (hsep : sep ≠ []) (count room : Nat) (items : List α)
    (hroom : items.length ≤ room) :
    (cuts sep count items).length = min count ((cuts sep room items).length - 1) + 1 := by
  induction count generalizing items room with
  | zero => simp [cuts]
  | succ count ih =>
      cases room with
      | zero =>
          obtain rfl : items = [] := List.length_eq_zero_iff.mp (by omega)
          simp [cuts, cut]
      | succ room =>
          unfold cuts
          split
          · simp
          · rename_i before after hcut
            have hshorter := cut_shorter sep items before after hsep hcut
            have hrest := ih room after (by omega)
            have hpos := List.length_pos_iff.mpr (cuts_ne_nil sep room after)
            simp only [List.length_cons]
            omega

theorem length_cuts (sep : List α) (hsep : sep ≠ []) (count : Nat) (items : List α) :
    (cuts sep count items).length = min count (occurrences sep items) + 1 :=
  length_cuts_of_room sep hsep count items.length items (Nat.le_refl _)

theorem cuts_of_room (sep : List α) (hsep : sep ≠ []) (count room : Nat) (items : List α)
    (hroom : items.length ≤ room) (hcount : (cuts sep room items).length ≤ count + 1) :
    cuts sep count items = cuts sep room items := by
  induction count generalizing items room with
  | zero =>
      cases room with
      | zero => rfl
      | succ room =>
          unfold cuts at hcount ⊢
          split
          · rfl
          · rename_i before after hcut
            have hpos := List.length_pos_iff.mpr (cuts_ne_nil sep room after)
            simp only [hcut, List.length_cons] at hcount
            omega
  | succ count ih =>
      cases room with
      | zero =>
          obtain rfl : items = [] := List.length_eq_zero_iff.mp (by omega)
          simp [cuts, cut]
      | succ room =>
          unfold cuts at hcount ⊢
          split
          · rfl
          · rename_i before after hcut
            have hshorter := cut_shorter sep items before after hsep hcut
            simp only [hcut, List.length_cons] at hcount
            rw [ih room after (by omega) (by omega)]

/-- A limit that is not met makes no difference. -/
theorem cuts_of_occurrences (sep : List α) (hsep : sep ≠ []) (count : Nat) (items : List α)
    (hcount : occurrences sep items ≤ count) :
    cuts sep count items = cuts sep items.length items := by
  apply cuts_of_room sep hsep count items.length items (Nat.le_refl _)
  unfold occurrences at hcount
  omega

theorem occurrences_of_cut_none (sep items : List α) (hcut : cut sep items = none) :
    occurrences sep items = 0 := by
  unfold occurrences
  cases items with
  | nil => rfl
  | cons item rest => simp [cuts, hcut]

theorem occurrences_of_cut_some (sep items before after : List α) (hsep : sep ≠ [])
    (hcut : cut sep items = some (before, after)) :
    occurrences sep items = occurrences sep after + 1 := by
  have hshorter := cut_shorter sep items before after hsep hcut
  obtain ⟨room, hroom⟩ : ∃ room, items.length = room + 1 := ⟨items.length - 1, by omega⟩
  have hrest := length_cuts_of_room sep hsep after.length room after (by omega)
  have hmore := length_cuts_of_room sep hsep room after.length after (Nat.le_refl _)
  have hpos := List.length_pos_iff.mpr (cuts_ne_nil sep room after)
  unfold occurrences
  rw [hroom]
  simp only [cuts, hcut, List.length_cons]
  omega

/-! ### The mirror image -/

omit [DecidableEq α] in
theorem mirror_cons (piece : List α) (pieces : List (List α)) :
    mirror (piece :: pieces) = mirror pieces ++ [piece.reverse] := by
  simp [mirror]

omit [DecidableEq α] in
theorem length_mirror (pieces : List (List α)) : (mirror pieces).length = pieces.length := by
  simp [mirror]

omit [DecidableEq α] in
theorem intercalate_concat (sep piece : List α) (pieces : List (List α)) (hne : pieces ≠ []) :
    sep.intercalate (pieces ++ [piece]) = sep.intercalate pieces ++ (sep ++ piece) := by
  induction pieces with
  | nil => exact absurd rfl hne
  | cons first rest ih =>
      cases rest with
      | nil => simp [List.intercalate]
      | cons next rest =>
          rw [List.cons_append, intercalate_cons sep first _ (by simp),
            ih (by simp), intercalate_cons sep first _ (by simp)]
          simp only [List.append_assoc]

omit [DecidableEq α] in
theorem intercalate_mirror (sep : List α) (pieces : List (List α)) :
    sep.reverse.intercalate (mirror pieces) = (sep.intercalate pieces).reverse := by
  induction pieces with
  | nil => simp [mirror, List.intercalate]
  | cons piece rest ih =>
      cases rest with
      | nil => simp [mirror, List.intercalate]
      | cons next rest =>
          rw [mirror_cons, intercalate_concat _ _ _ (by simp [mirror]), ih,
            intercalate_cons sep piece _ (by simp)]
          simp only [List.reverse_append, List.append_assoc]

end Runlet.Separator
