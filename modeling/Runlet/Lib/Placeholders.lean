import Runlet.Lib.Matching

/-!
Replacement with an expression that looks at what follows only, and its use for texts with
placeholders: a name of one class of units between two brackets that are not in the class.
Such a text comes apart at every opening bracket, so what a placeholder is replaced with is
never looked at again.
-/

namespace Runlet.Placeholders

open Matching

variable {α : Type*}

/-- The pattern matches by what follows a place, and `front` says how much of it. -/
structure Local (pattern : Pattern α) (front : List α → Option Nat) : Prop where
  matchAt : ∀ before rest, pattern.matchAt (before ++ rest) before.length =
    (front rest).map (before.length + ·)
  positive : ∀ {rest n}, front rest = some n → 0 < n
  bounded : ∀ {rest n}, front rest = some n → n ≤ rest.length

/-- The text with every match from its front on replaced; a longest match is not longer
than the fuel. -/
def fillFront (front : List α → Option Nat) (filler : List α → List α) : Nat → List α → List α
  | 0, text => text
  | _ + 1, [] => []
  | fuel + 1, c :: rest =>
      match front (c :: rest) with
      | some n =>
          filler ((c :: rest).take n) ++ fillFront front filler fuel ((c :: rest).drop n)
      | none => c :: fillFront front filler fuel rest

def fill (front : List α → Option Nat) (filler : List α → List α) (text : List α) : List α :=
  fillFront front filler text.length text

section Local

variable {pattern : Pattern α} {front : List α → Option Nat} {filler : List α → List α}

theorem fillFront_fuel (hpositive : ∀ {rest n}, front rest = some n → 0 < n) (fuel : Nat)
    (text : List α) (h : text.length ≤ fuel) :
    fillFront front filler fuel text = fill front filler text := by
  suffices hmore : ∀ (least fuel : Nat) (text : List α), text.length ≤ least → least ≤ fuel →
      fillFront front filler fuel text = fillFront front filler least text by
    exact hmore text.length fuel text (Nat.le_refl _) h
  intro least
  induction least with
  | zero =>
      intro fuel text htext _
      rw [List.length_eq_zero_iff.mp (Nat.le_zero.mp htext)]
      cases fuel <;> rfl
  | succ least ih =>
      intro fuel text htext hfuel
      obtain ⟨fuel, rfl⟩ : ∃ m, fuel = m + 1 := ⟨fuel - 1, by omega⟩
      cases text with
      | nil => rfl
      | cons c rest =>
          simp only [List.length_cons] at htext
          rw [fillFront, fillFront]
          cases hfront : front (c :: rest) with
          | none =>
              simp only
              rw [ih fuel rest (by omega) (by omega)]
          | some n =>
              have hn := hpositive hfront
              simp only
              rw [ih fuel _ _ (by omega)]
              simp only [List.length_drop, List.length_cons]
              omega

theorem fill_miss {c : α} {rest : List α} (h : front (c :: rest) = none) :
    fill front filler (c :: rest) = c :: fill front filler rest := by
  rw [fill, List.length_cons, fillFront, h]
  rfl

variable (filler) in
theorem fill_hit (hlocal : Local pattern front) {hit rest : List α} (hne : hit ≠ [])
    (h : front (hit ++ rest) = some hit.length) :
    fill front filler (hit ++ rest) = filler hit ++ fill front filler rest := by
  obtain ⟨c, hit, rfl⟩ := List.exists_cons_of_ne_nil hne
  rw [List.cons_append] at h
  rw [fill, List.cons_append, List.length_cons, fillFront, h]
  simp only
  rw [← List.cons_append, List.take_left, List.drop_left,
    fillFront_fuel hlocal.positive _ _ (by simp)]

theorem Local.front_nil (hlocal : Local pattern front) : front [] = none := by
  cases hfront : front [] with
  | none => rfl
  | some n =>
      have hpositive := hlocal.positive hfront
      have hbounded := hlocal.bounded hfront
      rw [List.length_nil] at hbounded
      omega

variable (filler) in
/-- Up to the first match nothing is replaced. -/
theorem split_front (hlocal : Local pattern front) (text : List α) :
    (fill front filler text = text ∧ ∀ k, front (text.drop k) = none) ∨
    ∃ clean hit after, text = clean ++ (hit ++ after) ∧ hit ≠ [] ∧
      front (hit ++ after) = some hit.length ∧
      (∀ k < clean.length, front (text.drop k) = none) ∧
      fill front filler text = clean ++ (filler hit ++ fill front filler after) := by
  induction text with
  | nil =>
      left
      refine ⟨rfl, ?_⟩
      intro k
      rw [List.drop_nil]
      exact hlocal.front_nil
  | cons c rest ih =>
      cases hfront : front (c :: rest) with
      | some n =>
          right
          have hn := hlocal.positive hfront
          have hle := hlocal.bounded hfront
          have htake : ((c :: rest).take n).length = n := List.length_take_of_le hle
          have hsplit : (c :: rest).take n ++ (c :: rest).drop n = c :: rest :=
            List.take_append_drop n _
          have hne : (c :: rest).take n ≠ [] := by
            apply List.ne_nil_of_length_pos
            omega
          have hhit : front ((c :: rest).take n ++ (c :: rest).drop n) =
              some ((c :: rest).take n).length := by
            rw [hsplit, htake, hfront]
          refine ⟨[], (c :: rest).take n, (c :: rest).drop n, hsplit.symm, hne, hhit, ?_, ?_⟩
          · intro k hk
            cases hk
          · have hfill := fill_hit filler hlocal hne hhit
            rw [hsplit] at hfill
            exact hfill
      | none =>
          rcases ih with ⟨hsame, hnone⟩ | ⟨clean, hit, after, rfl, hne, hhit, hclean, hfill⟩
          · left
            refine ⟨by rw [fill_miss hfront, hsame], ?_⟩
            intro k
            cases k with
            | zero => exact hfront
            | succ k => exact hnone k
          · right
            refine ⟨c :: clean, hit, after, rfl, hne, hhit, ?_, ?_⟩
            · intro k hk
              cases k with
              | zero => exact hfront
              | succ k => exact hclean k (Nat.lt_of_succ_lt_succ hk)
            · rw [fill_miss hfront, hfill]
              rfl

/-- Where the front of what follows is no match, the pattern has none. -/
theorem Local.matchAt_none (hlocal : Local pattern front) (before rest : List α) (k : Nat)
    (hle : before.length ≤ k) (hlt : k ≤ (before ++ rest).length)
    (h : front (rest.drop (k - before.length)) = none) :
    pattern.matchAt (before ++ rest) k = none := by
  rw [List.length_append] at hlt
  have hplace : (before ++ rest.take (k - before.length)).length = k := by
    rw [List.length_append, List.length_take]
    omega
  have hsplit : before ++ rest =
      (before ++ rest.take (k - before.length)) ++ rest.drop (k - before.length) := by
    rw [List.append_assoc, List.take_append_drop]
  have hmatch := hlocal.matchAt (before ++ rest.take (k - before.length))
    (rest.drop (k - before.length))
  rw [← hsplit, hplace, h] at hmatch
  exact hmatch

theorem replaceFrom_local (hlocal : Local pattern front) (fuel : Nat) (before rest : List α)
    (hfuel : rest.length < fuel) :
    pattern.replaceFrom filler (before ++ rest) fuel before.length = fill front filler rest := by
  induction fuel generalizing before rest with
  | zero => omega
  | succ fuel ih =>
      rcases split_front filler hlocal rest with
        ⟨hsame, hnone⟩ | ⟨clean, hit, after, rfl, hne, hhit, hclean, hfill⟩
      · rw [hsame]
        apply replaceFrom_miss
        intro k hle hlt
        exact hlocal.matchAt_none before rest k hle hlt (hnone _)
      · have hpositive : 0 < hit.length := List.length_pos_iff.mpr hne
        rw [hfill, ← List.append_assoc before, replaceFrom_hit _ _ _ _ _ _ _ hne, ih]
        · simp only [List.length_append] at hfuel
          omega
        · rw [hlocal.matchAt, hhit]
          rfl
        · intro k hle hlt
          rw [List.append_assoc]
          rw [List.length_append] at hlt
          apply hlocal.matchAt_none before _ k hle
          · simp only [List.length_append]
            omega
          · apply hclean
            omega

/-- Replacing everywhere fills in from the front on. -/
theorem replaceAll_local (hlocal : Local pattern front) (text : List α) :
    pattern.replaceAll filler text = fill front filler text :=
  replaceFrom_local hlocal (text.length + 1) [] text (Nat.lt_succ_self _)

end Local

/-! ### A name between brackets -/

theorem takeWhile_append_stop {p : α → Bool} {front back : List α} {c : α} (hc : p c = false) :
    (front ++ c :: back).takeWhile p = front.takeWhile p := by
  rw [List.takeWhile_append]
  split
  · next hall =>
      have hwhole : front.takeWhile p = front :=
        (List.takeWhile_prefix p).eq_of_length hall
      rw [List.takeWhile_cons_of_neg (by simp [hc]), List.append_nil, hwhole]
  · rfl

section Holes

variable [DecidableEq α] (opens closes : α) (p : α → Bool)

def hole : Pattern α :=
  .seq (.one fun c => c = opens) (.seq (.plus p) (.one fun c => c = closes))

/-- The units of a placeholder a text starts with. -/
def holeFront : List α → Option Nat
  | [] => none
  | c :: rest =>
      if c = opens ∧ rest.takeWhile p ≠ [] ∧
          (rest.drop (rest.takeWhile p).length).head? = some closes then
        some ((rest.takeWhile p).length + 2)
      else none

variable {opens closes p}

/-- Of the ends of a run only the last is followed by a unit outside the class. -/
theorem plusEnds_one (hcloses : p closes = false) (text : List α) (j : Nat) (rest : List α)
    (hrest : text.drop j = rest) :
    (plusEnds p j rest).flatMap ((Pattern.one fun c => c = closes).ends text) =
      if rest.takeWhile p ≠ [] ∧ (rest.drop (rest.takeWhile p).length).head? = some closes then
        [j + (rest.takeWhile p).length + 1]
      else [] := by
  induction rest generalizing j with
  | nil => rfl
  | cons d rest ih =>
      have hnext : text.drop (j + 1) = rest := by
        rw [← List.drop_drop, hrest]
        rfl
      have hhead : text[j + 1]? = rest.head? := by
        rw [← List.head?_drop, hnext]
      cases hd : p d with
      | false => simp [plusEnds, hd]
      | true =>
          rw [plusEnds, if_pos hd, List.flatMap_append, ih (j + 1) hnext, List.flatMap_singleton,
            Pattern.ends, hhead, List.takeWhile_cons_of_pos hd]
          cases rest with
          | nil => simp
          | cons e rest =>
              cases he : p e with
              | false => simp [he]
              | true =>
                  have hne : e ≠ closes := by
                    rintro rfl
                    rw [hcloses] at he
                    cases he
                  rw [List.takeWhile_cons_of_pos he]
                  simp [hne, Nat.add_comm, Nat.add_left_comm]

theorem hole_local (hcloses : p closes = false) :
    Local (hole opens closes p) (holeFront opens closes p) where
  matchAt before rest := by
    unfold hole Pattern.matchAt Pattern.ends Pattern.ends
    cases rest with
    | nil => simp [holeFront]
    | cons c rest =>
        have hhead : (before ++ c :: rest)[before.length]? = some c := by simp
        have hnext : (before ++ c :: rest).drop (before.length + 1) = rest := by
          rw [List.drop_append]
          simp
        have hname : (Pattern.plus p).ends (before ++ c :: rest) (before.length + 1) =
            plusEnds p (before.length + 1) rest := by
          rw [Pattern.ends, hnext]
        rw [hhead]
        by_cases hc : c = opens
        · rw [if_pos (by simpa using hc), List.flatMap_singleton, Pattern.ends, hname,
            plusEnds_one hcloses _ _ rest hnext]
          simp only [holeFront, hc, true_and]
          split
          · simp [Nat.add_comm, Nat.add_left_comm]
          · rfl
        · rw [if_neg (by simpa using hc)]
          simp [holeFront, hc]
  positive := by
    intro rest n h
    cases rest with
    | nil => cases h
    | cons c rest =>
        obtain ⟨_, hn⟩ := Option.ite_none_right_eq_some.mp h
        cases hn
        omega
  bounded := by
    intro rest n h
    cases rest with
    | nil => cases h
    | cons c rest =>
        obtain ⟨⟨_, _, hclosing⟩, hn⟩ := Option.ite_none_right_eq_some.mp h
        cases hn
        have hlt : (rest.takeWhile p).length < rest.length := by
          by_contra hle
          rw [List.drop_eq_nil_of_le (by omega)] at hclosing
          cases hclosing
        rw [List.length_cons]
        omega

/-! ### Texts with placeholders -/

variable {filler : List α → List α}

/-- An opening bracket ends whatever stands before it. -/
theorem holeFront_append (hopens : p opens = false) (hne : opens ≠ closes) {c : α}
    (front back : List α) :
    holeFront opens closes p (c :: (front ++ opens :: back)) =
      holeFront opens closes p (c :: front) := by
  have hclosing : ((front ++ opens :: back).drop (front.takeWhile p).length).head? = some closes ↔
      (front.drop (front.takeWhile p).length).head? = some closes := by
    rcases Nat.lt_or_ge (front.takeWhile p).length front.length with hlt | hle
    · have hdrop : front.drop (front.takeWhile p).length ≠ [] := by
        rw [Ne, List.drop_eq_nil_iff]
        omega
      rw [List.drop_append_of_le_length (Nat.le_of_lt hlt), List.head?_append_of_ne_nil _ hdrop]
    · have hlength : (front.takeWhile p).length = front.length :=
        Nat.le_antisymm (List.takeWhile_prefix p).length_le hle
      rw [hlength, List.drop_left, List.drop_length]
      simp [hne]
  simp only [holeFront, takeWhile_append_stop hopens, hclosing]

theorem fill_append (hopens : p opens = false) (hcloses : p closes = false)
    (hne : opens ≠ closes) (front back : List α) :
    fill (holeFront opens closes p) filler (front ++ opens :: back) =
      fill (holeFront opens closes p) filler front ++
        fill (holeFront opens closes p) filler (opens :: back) := by
  have hlocal : Local (hole opens closes p) (holeFront opens closes p) := hole_local hcloses
  induction hlength : front.length using Nat.strongRecOn generalizing front with
  | ind length ih =>
      cases front with
      | nil => rfl
      | cons c rest =>
          have hfront := holeFront_append hopens hne (c := c) rest back
          cases hhit : holeFront opens closes p (c :: rest) with
          | none =>
              rw [hhit] at hfront
              rw [List.cons_append, fill_miss hfront, fill_miss hhit,
                ih rest.length (by rw [← hlength]; exact Nat.lt_succ_self _) rest rfl]
              rfl
          | some n =>
              have hn := hlocal.positive hhit
              have hle := hlocal.bounded hhit
              have htake : ((c :: rest).take n).length = n := List.length_take_of_le hle
              have hhitne : (c :: rest).take n ≠ [] := by
                apply List.ne_nil_of_length_pos
                omega
              have hsplit : c :: rest = (c :: rest).take n ++ (c :: rest).drop n :=
                (List.take_append_drop n _).symm
              have hwhole : c :: rest ++ opens :: back =
                  (c :: rest).take n ++ ((c :: rest).drop n ++ opens :: back) := by
                rw [← List.append_assoc, ← hsplit]
              have hshort : ((c :: rest).drop n).length < length := by
                rw [List.length_drop]
                omega
              rw [hwhole, fill_hit _ hlocal hhitne, ih _ hshort _ rfl]
              · rw [← List.append_assoc, ← fill_hit _ hlocal hhitne, ← hsplit]
                rw [← hsplit, htake, hhit]
              · rw [← hwhole, htake]
                rw [List.cons_append, hfront, hhit]

theorem fill_hole (hcloses : p closes = false) {name : List α}
    (hname : name ≠ []) (hclass : ∀ c ∈ name, p c = true) (rest : List α) :
    fill (holeFront opens closes p) filler (opens :: (name ++ closes :: rest)) =
      filler (opens :: (name ++ [closes])) ++ fill (holeFront opens closes p) filler rest := by
  have hlocal : Local (hole opens closes p) (holeFront opens closes p) := hole_local hcloses
  have htake : (name ++ closes :: rest).takeWhile p = name := by
    rw [takeWhile_append_stop hcloses, List.takeWhile_eq_self_iff]
    exact hclass
  have hsplit : opens :: (name ++ closes :: rest) = opens :: (name ++ [closes]) ++ rest := by
    simp
  have hhit : holeFront opens closes p (opens :: (name ++ [closes]) ++ rest) =
      some (opens :: (name ++ [closes])).length := by
    rw [← hsplit, holeFront, htake, if_pos]
    · simp
    · exact ⟨rfl, hname, by simp⟩
  rw [hsplit, fill_hit _ hlocal (List.cons_ne_nil _ _) hhit]

/-- A text in which nothing opens is kept. -/
theorem fill_plain {text : List α} (h : opens ∉ text) :
    fill (holeFront opens closes p) filler text = text := by
  induction text with
  | nil => rfl
  | cons c rest ih =>
      have hc : c ≠ opens := fun heq => h (heq ▸ List.mem_cons_self)
      rw [fill_miss, ih fun hmem => h (List.mem_cons_of_mem c hmem)]
      simp [holeFront, hc]

end Holes

end Runlet.Placeholders
