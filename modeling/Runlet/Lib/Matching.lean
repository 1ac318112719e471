import Mathlib.Data.List.Basic
import Mathlib.Data.List.TakeDrop
import Mathlib.Data.List.TakeWhile
import Mathlib.Data.List.DropRight
import Mathlib.Data.List.Infix

/-!
Regular expressions of a script, matched with backtracking: classes of one unit, their
greedy repetition, sequences, ordered alternatives and the two anchors. A pattern
answers for every place the ends of its matches there, the preferred one first, so what
`replace` does is read off the heads of these lists.
-/

namespace Runlet.Matching

variable {α : Type*}

inductive Pattern (α : Type*) where
  | one (p : α → Bool)
  | plus (p : α → Bool)
  | seq (first second : Pattern α)
  | alt (first second : Pattern α)
  | start
  | stop

/-- The ends of a greedy repetition that starts at a place, longest first. -/
def plusEnds (p : α → Bool) : Nat → List α → List Nat
  | _, [] => []
  | i, c :: rest => if p c then plusEnds p (i + 1) rest ++ [i + 1] else []

def Pattern.ends (text : List α) : Pattern α → Nat → List Nat
  | .one p, i => if (text[i]?).any p then [i + 1] else []
  | .plus p, i => plusEnds p i (text.drop i)
  | .seq first second, i => (first.ends text i).flatMap (second.ends text)
  | .alt first second, i => first.ends text i ++ second.ends text i
  | .start, i => if i = 0 then [i] else []
  | .stop, i => if i = text.length then [i] else []

/-- The match that is preferred at a place. -/
def Pattern.matchAt (pattern : Pattern α) (text : List α) (i : Nat) : Option Nat :=
  (pattern.ends text i).head?

/-- The first place from `position` on with a match, out of `count` places. -/
def Pattern.firstMatch (pattern : Pattern α) (text : List α) : Nat → Nat → Option (Nat × Nat)
  | 0, _ => none
  | count + 1, position =>
      match pattern.matchAt text position with
      | some j => some (position, j)
      | none => pattern.firstMatch text count (position + 1)

/-- `exec` from a place; the place behind the last unit counts. -/
def Pattern.exec (pattern : Pattern α) (text : List α) (position : Nat) : Option (Nat × Nat) :=
  pattern.firstMatch text (text.length + 1 - position) position

def Pattern.test (pattern : Pattern α) (text : List α) : Bool := (pattern.exec text 0).isSome

/-- The units from one place up to another. -/
def between (text : List α) (i j : Nat) : List α := (text.drop i).take (j - i)

/-- `text.replace(pattern, filler)` without the flag `g`. -/
def Pattern.replace (pattern : Pattern α) (filler : List α → List α) (text : List α) : List α :=
  match pattern.exec text 0 with
  | none => text
  | some (i, j) => text.take i ++ filler (between text i j) ++ text.drop j

/-- The rest of a replacement with the flag `g` from a place on. After an empty match the
search goes on one unit further. -/
def Pattern.replaceFrom (pattern : Pattern α) (filler : List α → List α) (text : List α) :
    Nat → Nat → List α
  | 0, position => text.drop position
  | fuel + 1, position =>
      match pattern.exec text position with
      | none => text.drop position
      | some (i, j) =>
          between text position i ++ filler (between text i j) ++
            if i < j then pattern.replaceFrom filler text fuel j
            else between text i (i + 1) ++ pattern.replaceFrom filler text fuel (i + 1)

/-- `text.replace(pattern, filler)` with the flag `g`. -/
def Pattern.replaceAll (pattern : Pattern α) (filler : List α → List α) (text : List α) : List α :=
  pattern.replaceFrom filler text (text.length + 1) 0

/-! ### Matches at one place -/

theorem plusEnds_eq (p : α → Bool) (i : Nat) (text : List α) :
    plusEnds p i text = ((List.range (text.takeWhile p).length).map (i + 1 + ·)).reverse := by
  induction text generalizing i with
  | nil => rfl
  | cons c rest ih =>
      cases hc : p c with
      | false => simp [plusEnds, hc]
      | true =>
          rw [plusEnds, if_pos hc, ih, List.takeWhile_cons_of_pos hc, List.length_cons,
            List.range_succ_eq_map, List.map_cons, List.reverse_cons, List.map_map]
          have hshift : (i + 1 + ·) ∘ Nat.succ = (i + 1 + 1 + ·) := by
            funext k
            simp only [Function.comp]
            omega
          rw [hshift, Nat.add_zero]

/-- A greedy repetition takes the whole run. -/
theorem matchAt_plus (p : α → Bool) (text : List α) (i : Nat) :
    (Pattern.plus p).matchAt text i =
      if (text.drop i).takeWhile p = [] then none
      else some (i + ((text.drop i).takeWhile p).length) := by
  simp only [Pattern.matchAt, Pattern.ends, plusEnds_eq, List.head?_reverse]
  cases hrun : (text.drop i).takeWhile p with
  | nil => rfl
  | cons c rest =>
      rw [List.length_cons, List.range_succ, List.map_append, List.map_singleton,
        List.getLast?_concat, if_neg (List.cons_ne_nil c rest)]
      congr 1
      omega

theorem matchAt_one (p : α → Bool) (text : List α) (i : Nat) :
    (Pattern.one p).matchAt text i = if (text[i]?).any p then some (i + 1) else none := by
  simp only [Pattern.matchAt, Pattern.ends]
  split <;> rfl

/-- `^C+` matches at the start of the text only. -/
theorem ends_start_plus (p : α → Bool) (text : List α) (i : Nat) :
    (Pattern.seq .start (.plus p)).ends text i = if i = 0 then plusEnds p 0 text else [] := by
  simp only [Pattern.ends]
  split
  · rename_i hi
    subst hi
    rw [List.flatMap_singleton, List.drop_zero]
  · rfl

/-- Of the ends of a run only the end of the text is followed by `$`. -/
theorem plusEnds_stop (p : α → Bool) (i : Nat) (text : List α) :
    (plusEnds p i text).flatMap (fun j => if j = i + text.length then [j] else []) =
      if text ≠ [] ∧ ∀ c ∈ text, p c = true then [i + text.length] else [] := by
  induction text generalizing i with
  | nil => rfl
  | cons c rest ih =>
      have hshift : i + (c :: rest).length = i + 1 + rest.length := by
        rw [List.length_cons]
        omega
      rw [hshift]
      cases hc : p c with
      | false => simp [plusEnds, hc]
      | true =>
          rw [plusEnds, if_pos hc, List.flatMap_append, ih]
          cases rest with
          | nil => simp [hc]
          | cons d rest => simp [hc]

/-- `C+$` matches where only the class follows, up to the end. -/
theorem ends_plus_stop (p : α → Bool) (text : List α) (i : Nat) :
    (Pattern.seq (.plus p) .stop).ends text i =
      if text.drop i ≠ [] ∧ ∀ c ∈ text.drop i, p c = true then [text.length] else [] := by
  simp only [Pattern.ends]
  rcases Nat.lt_or_ge i text.length with hi | hi
  · have hlength : i + (text.drop i).length = text.length := by
      rw [List.length_drop]
      omega
    rw [← hlength, plusEnds_stop]
  · rw [List.drop_eq_nil_of_le hi]
    simp [plusEnds]

/-! ### The first match -/

theorem firstMatch_none (pattern : Pattern α) (text : List α) (count position : Nat) :
    pattern.firstMatch text count position = none ↔
      ∀ k, position ≤ k → k < position + count → pattern.matchAt text k = none := by
  induction count generalizing position with
  | zero =>
      refine ⟨fun _ k hle hlt => absurd hlt (by omega), fun _ => rfl⟩
  | succ count ih =>
      rw [Pattern.firstMatch]
      cases hmatch : pattern.matchAt text position with
      | some j =>
          refine ⟨fun h => absurd h (Option.some_ne_none _), fun h => ?_⟩
          rw [h position (Nat.le_refl _) (by omega)] at hmatch
          cases hmatch
      | none =>
          refine (ih (position + 1)).trans ⟨fun h k hle hlt => ?_, fun h k hle hlt => ?_⟩
          · rcases Nat.eq_or_lt_of_le hle with rfl | hnext
            · exact hmatch
            · exact h k hnext (by omega)
          · exact h k (by omega) (by omega)

theorem firstMatch_some (pattern : Pattern α) (text : List α) (count position i j : Nat)
    (hle : position ≤ i) (hlt : i < position + count) (hmatch : pattern.matchAt text i = some j)
    (hbefore : ∀ k, position ≤ k → k < i → pattern.matchAt text k = none) :
    pattern.firstMatch text count position = some (i, j) := by
  induction count generalizing position with
  | zero => omega
  | succ count ih =>
      rw [Pattern.firstMatch]
      rcases Nat.eq_or_lt_of_le hle with rfl | hnext
      · rw [hmatch]
      · rw [hbefore position (Nat.le_refl _) hnext]
        exact ih (position + 1) hnext (by omega) fun k hk => hbefore k (by omega)

theorem exec_none (pattern : Pattern α) (text : List α) (position : Nat)
    (h : ∀ k, position ≤ k → k ≤ text.length → pattern.matchAt text k = none) :
    pattern.exec text position = none := by
  apply (firstMatch_none pattern text _ position).mpr
  intro k hle hlt
  exact h k hle (by omega)

theorem exec_some (pattern : Pattern α) (text : List α) (position i j : Nat)
    (hle : position ≤ i) (hlength : i ≤ text.length) (hmatch : pattern.matchAt text i = some j)
    (hbefore : ∀ k, position ≤ k → k < i → pattern.matchAt text k = none) :
    pattern.exec text position = some (i, j) :=
  firstMatch_some pattern text _ position i j hle (by omega) hmatch hbefore

theorem between_append (before middle after : List α) :
    between (before ++ (middle ++ after)) before.length (before.length + middle.length) =
      middle := by
  rw [between, List.drop_left, Nat.add_sub_cancel_left, List.take_left]

/-! ### Replacing runs -/

/-- Each maximal run of the class goes through the filler. -/
def replaceRuns (p : α → Bool) (filler : List α → List α) (text : List α) : List α :=
  match text with
  | [] => []
  | c :: rest =>
      if p c then filler (c :: rest.takeWhile p) ++ replaceRuns p filler (rest.dropWhile p)
      else c :: replaceRuns p filler rest
termination_by text.length
decreasing_by
  · exact Nat.lt_succ_of_le (List.dropWhile_suffix p).length_le
  · exact Nat.lt_succ_self _

theorem replaceRuns_skip (p : α → Bool) (filler : List α → List α) (before rest : List α)
    (h : ∀ c ∈ before, p c = false) :
    replaceRuns p filler (before ++ rest) = before ++ replaceRuns p filler rest := by
  induction before with
  | nil => rfl
  | cons c before ih =>
      obtain ⟨hc, hbefore⟩ := List.forall_mem_cons.mp h
      rw [List.cons_append, replaceRuns, hc, if_neg Bool.false_ne_true, ih hbefore]
      rfl

theorem replaceRuns_run (p : α → Bool) (filler : List α → List α) (run rest : List α)
    (hne : run ≠ []) (hrun : ∀ c ∈ run, p c = true)
    (hrest : ∀ c ∈ rest.head?, p c = false) :
    replaceRuns p filler (run ++ rest) = filler run ++ replaceRuns p filler rest := by
  cases run with
  | nil => exact absurd rfl hne
  | cons c run =>
      obtain ⟨hc, hrun⟩ := List.forall_mem_cons.mp hrun
      have htake : (run ++ rest).takeWhile p = run := by
        rw [List.takeWhile_append_of_pos hrun]
        cases rest with
        | nil => rw [List.takeWhile_nil, List.append_nil]
        | cons d rest => rw [List.takeWhile_cons_of_neg (by simp [hrest d rfl]), List.append_nil]
      have hdrop : (run ++ rest).dropWhile p = rest := by
        rw [List.dropWhile_append_of_pos hrun]
        cases rest with
        | nil => rfl
        | cons d rest => rw [List.dropWhile_cons_of_neg (by simp [hrest d rfl])]
      rw [List.cons_append, replaceRuns, if_pos hc, htake, hdrop]

/-- Where the unit is not in the class, or there is none, no repetition starts. -/
theorem matchAt_plus_none (p : α → Bool) (text : List α) (k : Nat)
    (h : ∀ c ∈ text[k]?, p c = false) : (Pattern.plus p).matchAt text k = none := by
  rw [matchAt_plus, if_pos]
  cases hdrop : text.drop k with
  | nil => rfl
  | cons c rest =>
      have hc : text[k]? = some c := by
        rw [← List.head?_drop, hdrop]
        rfl
      rw [List.takeWhile_cons_of_neg (by simp [h c hc])]

theorem getElem?_middle (before middle after : List α) (k : Nat) (hle : before.length ≤ k)
    (hlt : k < before.length + middle.length) :
    ∃ c ∈ middle, (before ++ (middle ++ after))[k]? = some c := by
  have hbound : k - before.length < middle.length := by omega
  refine ⟨middle[k - before.length], List.getElem_mem hbound, ?_⟩
  rw [List.getElem?_append_right hle, List.getElem?_append_left hbound,
    List.getElem?_eq_getElem hbound]

/-- A text up to its first unit of the class, the run that starts there, and the rest. -/
theorem split_run (p : α → Bool) (text : List α) :
    (∀ c ∈ text, p c = false) ∨ ∃ clean run rest, text = clean ++ (run ++ rest) ∧
      (∀ c ∈ clean, p c = false) ∧ run ≠ [] ∧ (∀ c ∈ run, p c = true) ∧
      ∀ c ∈ rest.head?, p c = false := by
  have hclean : ∀ c ∈ text.takeWhile fun c => !p c, p c = false := by
    intro c hc
    simpa using List.mem_takeWhile_imp hc
  cases htail : text.dropWhile fun c => !p c with
  | nil =>
      left
      have hwhole : text.takeWhile (fun c => !p c) = text := by
        have happend := List.takeWhile_append_dropWhile (p := fun c => !p c) (l := text)
        rwa [htail, List.append_nil] at happend
      rwa [hwhole] at hclean
  | cons c tail =>
      right
      have hc : p c = true := by
        have hhead := List.head_dropWhile_not (fun c => !p c) (l := text) (by simp [htail])
        simpa [htail] using hhead
      refine ⟨text.takeWhile fun c => !p c, (c :: tail).takeWhile p, (c :: tail).dropWhile p, ?_,
        hclean, ?_, fun _ h => List.mem_takeWhile_imp h, ?_⟩
      · rw [List.takeWhile_append_dropWhile, ← htail, List.takeWhile_append_dropWhile]
      · rw [List.takeWhile_cons_of_pos hc]
        exact List.cons_ne_nil _ _
      · intro d hd
        cases hrest : (c :: tail).dropWhile p with
        | nil => simp [hrest] at hd
        | cons e rest =>
            have hhead := List.head_dropWhile_not p (l := c :: tail) (by simp [hrest])
            have hde : e = d := by simpa [hrest] using hd
            simpa [hrest, hde] using hhead

/-- A repetition that starts a maximal run ends where the run ends. -/
theorem matchAt_plus_run (p : α → Bool) (before run rest : List α) (hne : run ≠ [])
    (hrun : ∀ c ∈ run, p c = true) (hrest : ∀ c ∈ rest.head?, p c = false) :
    (Pattern.plus p).matchAt (before ++ (run ++ rest)) before.length =
      some (before.length + run.length) := by
  have htake : (run ++ rest).takeWhile p = run := by
    rw [List.takeWhile_append_of_pos hrun]
    cases rest with
    | nil => rw [List.takeWhile_nil, List.append_nil]
    | cons d rest => rw [List.takeWhile_cons_of_neg (by simp [hrest d rfl]), List.append_nil]
  rw [matchAt_plus, List.drop_left, htake, if_neg hne]

/-- One turn of a replacement: the stretch before the next match is kept. -/
theorem replaceFrom_hit (pattern : Pattern α) (filler : List α → List α) (fuel : Nat)
    (before clean hit after : List α) (hne : hit ≠ [])
    (hmatch : pattern.matchAt ((before ++ clean) ++ (hit ++ after)) (before ++ clean).length =
      some ((before ++ clean).length + hit.length))
    (hclean : ∀ k, before.length ≤ k → k < (before ++ clean).length →
      pattern.matchAt ((before ++ clean) ++ (hit ++ after)) k = none) :
    pattern.replaceFrom filler ((before ++ clean) ++ (hit ++ after)) (fuel + 1) before.length =
      clean ++ (filler hit ++ pattern.replaceFrom filler ((before ++ clean ++ hit) ++ after) fuel
        (before ++ clean ++ hit).length) := by
  have hpositive : 0 < hit.length := List.length_pos_iff.mpr hne
  have hexec : pattern.exec ((before ++ clean) ++ (hit ++ after)) before.length =
      some ((before ++ clean).length, (before ++ clean).length + hit.length) := by
    apply exec_some
    · simp
    · simp
    · exact hmatch
    · exact hclean
  have hkept : between ((before ++ clean) ++ (hit ++ after)) before.length
      (before ++ clean).length = clean := by
    rw [List.length_append, List.append_assoc]
    exact between_append before clean (hit ++ after)
  rw [Pattern.replaceFrom, hexec]
  simp only [hkept, between_append]
  rw [if_pos (Nat.lt_add_of_pos_right hpositive), List.append_assoc, List.append_assoc,
    List.append_assoc, List.append_assoc]
  simp only [List.length_append]

/-- Without a match the rest is kept. -/
theorem replaceFrom_miss (pattern : Pattern α) (filler : List α → List α) (fuel : Nat)
    (before rest : List α)
    (h : ∀ k, before.length ≤ k → k ≤ (before ++ rest).length →
      pattern.matchAt (before ++ rest) k = none) :
    pattern.replaceFrom filler (before ++ rest) fuel before.length = rest := by
  cases fuel with
  | zero => rw [Pattern.replaceFrom, List.drop_left]
  | succ fuel => rw [Pattern.replaceFrom, exec_none pattern _ _ h, List.drop_left]

theorem replaceFrom_plus (p : α → Bool) (filler : List α → List α) (fuel : Nat)
    (before rest : List α) (hfuel : rest.length < fuel) :
    (Pattern.plus p).replaceFrom filler (before ++ rest) fuel before.length =
      replaceRuns p filler rest := by
  induction fuel generalizing before rest with
  | zero => omega
  | succ fuel ih =>
      rcases split_run p rest with hnone | ⟨clean, run, after, rfl, hclean, hne, hrun, hafter⟩
      · have hkept := replaceRuns_skip p filler rest [] hnone
        rw [List.append_nil, replaceRuns, List.append_nil] at hkept
        rw [hkept]
        apply replaceFrom_miss
        intro k hle hk
        apply matchAt_plus_none
        intro c hc
        rw [List.getElem?_append_right hle] at hc
        exact hnone c (List.mem_of_getElem? hc)
      · have hpositive : 0 < run.length := List.length_pos_iff.mpr hne
        rw [← List.append_assoc before, replaceFrom_hit _ _ _ _ _ _ _ hne
          (matchAt_plus_run p (before ++ clean) run after hne hrun hafter), ih,
          replaceRuns_skip p filler clean _ hclean,
          replaceRuns_run p filler run after hne hrun hafter]
        · simp only [List.length_append] at hfuel
          omega
        · intro k hle hlt
          apply matchAt_plus_none
          rw [List.length_append] at hlt
          obtain ⟨c, hc, hget⟩ := getElem?_middle before clean (run ++ after) k hle hlt
          intro d hd
          rw [List.append_assoc, hget] at hd
          obtain rfl := Option.some.inj hd
          exact hclean _ hc

/-- Replacing a class of one unit everywhere replaces the units one by one. -/
theorem replaceFrom_one (p : α → Bool) (filler : List α → List α) (fuel : Nat)
    (before rest : List α) (hfuel : rest.length < fuel) :
    (Pattern.one p).replaceFrom filler (before ++ rest) fuel before.length =
      rest.flatMap fun c => if p c then filler [c] else [c] := by
  have hkept : ∀ clean : List α, (∀ c ∈ clean, p c = false) →
      clean.flatMap (fun c => if p c then filler [c] else [c]) = clean := by
    intro clean hclean
    induction clean with
    | nil => rfl
    | cons c clean ih =>
        obtain ⟨hc, hclean⟩ := List.forall_mem_cons.mp hclean
        rw [List.flatMap_cons, ih hclean, hc]
        rfl
  have hmiss : ∀ (text : List α) (k : Nat), (∀ c ∈ text[k]?, p c = false) →
      (Pattern.one p).matchAt text k = none := by
    intro text k h
    rw [matchAt_one, if_neg]
    cases hget : text[k]? with
    | none => exact Bool.false_ne_true
    | some c => simp [h c hget]
  induction fuel generalizing before rest with
  | zero => omega
  | succ fuel ih =>
      rcases split_run p rest with hnone | ⟨clean, run, after, rfl, hclean, hne, hrun, _⟩
      · rw [hkept rest hnone]
        apply replaceFrom_miss
        intro k hle hk
        apply hmiss
        intro c hc
        rw [List.getElem?_append_right hle] at hc
        exact hnone c (List.mem_of_getElem? hc)
      · obtain ⟨c, run, rfl⟩ := List.exists_cons_of_ne_nil hne
        have hc := hrun c List.mem_cons_self
        have hmatch : (Pattern.one p).matchAt ((before ++ clean) ++ ([c] ++ (run ++ after)))
            (before ++ clean).length = some ((before ++ clean).length + [c].length) := by
          rw [matchAt_one, List.getElem?_append_right (Nat.le_refl _), Nat.sub_self, if_pos]
          · rfl
          · exact hc
        rw [List.cons_append, ← List.singleton_append, ← List.append_assoc before,
          replaceFrom_hit _ _ _ _ _ _ _ (List.cons_ne_nil c []) hmatch, ih]
        · simp [hkept clean hclean, hc]
        · simp only [List.length_append, List.length_cons] at hfuel ⊢
          omega
        · intro k hle hlt
          apply hmiss
          rw [List.length_append] at hlt
          obtain ⟨d, hd, hget⟩ := getElem?_middle before clean ([c] ++ (run ++ after)) k hle hlt
          intro e he
          rw [List.append_assoc, hget] at he
          obtain rfl := Option.some.inj he
          exact hclean _ hd

theorem replaceAll_one (p : α → Bool) (filler : List α → List α) (text : List α) :
    (Pattern.one p).replaceAll filler text =
      text.flatMap fun c => if p c then filler [c] else [c] :=
  replaceFrom_one p filler (text.length + 1) [] text (Nat.lt_succ_self _)

/-- Replacing a repetition of a class everywhere replaces its maximal runs. -/
theorem replaceAll_plus (p : α → Bool) (filler : List α → List α) (text : List α) :
    (Pattern.plus p).replaceAll filler text = replaceRuns p filler text :=
  replaceFrom_plus p filler (text.length + 1) [] text (Nat.lt_succ_self _)

/-! ### Removing runs at the ends -/

theorem matchAt_plus_stop (p : α → Bool) (text : List α) (i : Nat) :
    (Pattern.seq (.plus p) .stop).matchAt text i =
      if text.drop i ≠ [] ∧ ∀ c ∈ text.drop i, p c = true then some text.length else none := by
  rw [Pattern.matchAt, ends_plus_stop]
  split <;> rfl

/-- What stands before the last run of the class ends with a unit that is not in it. -/
theorem exec_plus_stop (p : α → Bool) (before middle run : List α)
    (hmiddle : ∀ c ∈ middle.getLast?, p c = false) (hrun : ∀ c ∈ run, p c = true) :
    (Pattern.seq (.plus p) .stop).exec (before ++ (middle ++ run)) before.length =
      if run = [] then none
      else some (before.length + middle.length, (before ++ (middle ++ run)).length) := by
  -- inside the middle its last unit is in the way
  have hinside : ∀ k, before.length ≤ k → k < before.length + middle.length →
      (Pattern.seq (.plus p) .stop).matchAt (before ++ (middle ++ run)) k = none := by
    intro k hle hlt
    rw [matchAt_plus_stop, if_neg]
    rintro ⟨_, hall⟩
    have hne : middle ≠ [] := by
      rintro rfl
      simp only [List.length_nil] at hlt
      omega
    have hlast := hmiddle (middle.getLast hne) (List.getLast?_eq_some_getLast hne)
    have hmem : middle.getLast hne ∈ (before ++ (middle ++ run)).drop k := by
      rw [List.drop_append, List.drop_eq_nil_of_le hle, List.nil_append,
        List.drop_append_of_le_length (by omega)]
      apply List.mem_append_left
      have hdrop : middle.drop (k - before.length) ≠ [] := by
        rw [ne_eq, List.drop_eq_nil_iff]
        omega
      rw [← List.getLast_drop hdrop]
      exact List.getLast_mem hdrop
    rw [hall _ hmem] at hlast
    cases hlast
  have hdrop : (before ++ (middle ++ run)).drop (before.length + middle.length) = run := by
    rw [← List.append_assoc, ← List.length_append, List.drop_left]
  split
  · rename_i hempty
    subst hempty
    apply exec_none
    intro k hle hk
    rcases Nat.lt_or_ge k (before.length + middle.length) with hlt | hge
    · exact hinside k hle hlt
    · rw [matchAt_plus_stop, if_neg]
      rintro ⟨hne, _⟩
      apply hne
      apply List.drop_eq_nil_of_le
      simpa using hge
  · rename_i hne
    apply exec_some
    · exact Nat.le_add_right _ _
    · simp only [List.length_append]
      omega
    · rw [matchAt_plus_stop, hdrop, if_pos ⟨hne, hrun⟩]
    · exact hinside

theorem rdropWhile_last (p : α → Bool) (text : List α) :
    ∀ c ∈ (text.rdropWhile p).getLast?, p c = false := by
  intro c hc
  obtain ⟨hne, rfl⟩ := List.mem_getLast?_eq_getLast hc
  simpa using List.rdropWhile_last_not p text hne

/-- A text without its last run of the class, and that run. -/
theorem split_last (p : α → Bool) (text : List α) :
    ∃ middle run, text = middle ++ run ∧ text.rdropWhile p = middle ∧
      (∀ c ∈ middle.getLast?, p c = false) ∧ ∀ c ∈ run, p c = true :=
  ⟨text.rdropWhile p, text.rtakeWhile p, List.rdropWhile_append_rtakeWhile.symm, rfl,
    rdropWhile_last p text, fun _ h => List.mem_rtakeWhile_imp h⟩

/-- `replace(/C+$/, "")` drops the run at the end. -/
theorem replace_plus_stop (p : α → Bool) (text : List α) :
    (Pattern.seq (.plus p) .stop).replace (fun _ => []) text = text.rdropWhile p := by
  obtain ⟨middle, run, rfl, hkept, hmiddle, hrun⟩ := split_last p text
  have hexec := exec_plus_stop p [] middle run hmiddle hrun
  simp only [List.nil_append, List.length_nil, Nat.zero_add] at hexec
  rw [Pattern.replace, hexec, hkept]
  by_cases hempty : run = []
  · simp [hempty]
  · simp [hempty]

theorem matchAt_start_plus (p : α → Bool) (text : List α) (i : Nat) :
    (Pattern.seq .start (.plus p)).matchAt text i =
      if i = 0 ∧ text.takeWhile p ≠ [] then some (text.takeWhile p).length else none := by
  rw [Pattern.matchAt, ends_start_plus]
  by_cases hi : i = 0
  · have hplus := matchAt_plus p text 0
    rw [Pattern.matchAt, Pattern.ends, List.drop_zero] at hplus
    rw [if_pos hi, hplus, Nat.zero_add]
    by_cases hrun : text.takeWhile p = []
    · simp [hrun]
    · simp [hi, hrun]
  · simp [hi]

/-- `replace(/^C+/, "")` drops the run at the start. -/
theorem replace_start_plus (p : α → Bool) (text : List α) :
    (Pattern.seq .start (.plus p)).replace (fun _ => []) text = text.dropWhile p := by
  have hsplit : text.takeWhile p ++ text.dropWhile p = text := List.takeWhile_append_dropWhile
  by_cases hrun : text.takeWhile p = []
  · have hexec : (Pattern.seq .start (.plus p)).exec text 0 = none := by
      apply exec_none
      intro k _ _
      rw [matchAt_start_plus, if_neg]
      exact fun h => h.2 hrun
    rw [hrun, List.nil_append] at hsplit
    rw [Pattern.replace, hexec, hsplit]
  · have hexec : (Pattern.seq .start (.plus p)).exec text 0 =
        some (0, (text.takeWhile p).length) := by
      apply exec_some
      · exact Nat.le_refl 0
      · exact Nat.zero_le _
      · rw [matchAt_start_plus, if_pos ⟨rfl, hrun⟩]
      · intro k _ hk
        exact absurd hk (Nat.not_lt_zero k)
    rw [Pattern.replace, hexec]
    simp only [List.take_zero, List.nil_append]
    nth_rewrite 2 [← hsplit]
    rw [List.drop_left]

/-- `^C+|C+$` -/
def edges (p : α → Bool) : Pattern α := .alt (.seq .start (.plus p)) (.seq (.plus p) .stop)

/-- Past the run at the start only the second alternative matches. -/
theorem matchAt_edges (p : α → Bool) (text : List α) (k : Nat)
    (hk : (text.takeWhile p).length ≤ k) :
    (edges p).matchAt text k = (Pattern.seq (.plus p) .stop).matchAt text k := by
  have hnone : (Pattern.seq .start (.plus p)).ends text k = [] := by
    rw [← List.head?_eq_none_iff]
    have hmatch := matchAt_start_plus p text k
    rw [Pattern.matchAt] at hmatch
    rw [hmatch, if_neg]
    rintro ⟨rfl, hne⟩
    exact hne (List.length_eq_zero_iff.mp (Nat.le_zero.mp hk))
  rw [Pattern.matchAt, edges, Pattern.ends, hnone, List.nil_append, Pattern.matchAt]

theorem firstMatch_congr (pattern other : Pattern α) (text : List α) (count position : Nat)
    (h : ∀ k, position ≤ k → pattern.matchAt text k = other.matchAt text k) :
    pattern.firstMatch text count position = other.firstMatch text count position := by
  induction count generalizing position with
  | zero => rfl
  | succ count ih =>
      rw [Pattern.firstMatch, Pattern.firstMatch, h position (Nat.le_refl _),
        ih (position + 1) fun k hk => h k (by omega)]

/-- Past the run at the start the rest loses the run at its end. -/
theorem replaceFrom_edges (p : α → Bool) (text : List α) (fuel : Nat)
    (hfuel : (text.dropWhile p).length ≤ fuel) :
    (edges p).replaceFrom (fun _ => []) text (fuel + 1) (text.takeWhile p).length =
      (text.dropWhile p).rdropWhile p := by
  obtain ⟨middle, run, htail, hkept, hmiddle, hrun⟩ := split_last p (text.dropWhile p)
  have hsplit : text = text.takeWhile p ++ (middle ++ run) := by
    rw [← htail, List.takeWhile_append_dropWhile]
  have hlength : text.length = (text.takeWhile p).length + (middle.length + run.length) := by
    conv_lhs => rw [hsplit]
    simp only [List.length_append]
  have hexec : (edges p).exec text (text.takeWhile p).length = if run = [] then none
      else some ((text.takeWhile p).length + middle.length, text.length) := by
    have hsecond := exec_plus_stop p (text.takeWhile p) middle run hmiddle hrun
    rw [← hsplit] at hsecond
    rw [← hsecond]
    exact firstMatch_congr _ _ text _ _ (matchAt_edges p text)
  have hdrop : text.drop (text.takeWhile p).length = middle ++ run := by
    have hsame := congrArg (List.drop (text.takeWhile p).length) hsplit
    rwa [List.drop_left] at hsame
  rw [hkept, Pattern.replaceFrom, hexec]
  by_cases hempty : run = []
  · simp [hempty, hdrop]
  · have hpositive : 0 < run.length := List.length_pos_iff.mpr hempty
    -- nothing is left to match behind the end
    have hend : (edges p).exec text text.length = none := by
      apply exec_none
      intro k hle _
      rw [matchAt_edges p text k (by omega), matchAt_plus_stop, if_neg]
      rintro ⟨hne, _⟩
      exact hne (List.drop_eq_nil_of_le hle)
    obtain ⟨left, rfl⟩ : ∃ left, fuel = left + 1 := by
      rw [htail, List.length_append] at hfuel
      exact ⟨fuel - 1, by omega⟩
    rw [if_neg hempty]
    simp only [List.append_nil]
    rw [if_pos (by omega), Pattern.replaceFrom, hend]
    simp [between, hdrop]

/-- `replace(/^C+|C+$/g, "")` drops the runs at both ends. -/
theorem replaceAll_edges (p : α → Bool) (text : List α) :
    (edges p).replaceAll (fun _ => []) text = (text.dropWhile p).rdropWhile p := by
  have hlength := congrArg List.length (List.takeWhile_append_dropWhile (p := p) (l := text))
  rw [List.length_append] at hlength
  by_cases hrun : text.takeWhile p = []
  · have hdone := replaceFrom_edges p text text.length (by omega)
    rw [hrun] at hdone
    exact hdone
  · have hpositive : 0 < (text.takeWhile p).length := List.length_pos_iff.mpr hrun
    have hexec : (edges p).exec text 0 = some (0, (text.takeWhile p).length) := by
      apply exec_some
      · exact Nat.le_refl 0
      · exact Nat.zero_le _
      · have hfirst := matchAt_start_plus p text 0
        rw [if_pos ⟨rfl, hrun⟩, Pattern.matchAt] at hfirst
        rw [Pattern.matchAt, edges, Pattern.ends, List.head?_append, hfirst, Option.some_or]
      · intro k _ hk
        exact absurd hk (Nat.not_lt_zero k)
    obtain ⟨fuel, hfuel⟩ : ∃ fuel, text.length = fuel + 1 := ⟨text.length - 1, by omega⟩
    have hdone := replaceFrom_edges p text fuel (by omega)
    rw [Pattern.replaceAll, Pattern.replaceFrom, hexec]
    simp only [List.append_nil]
    rw [if_pos hpositive, hfuel, hdone]
    rfl

/-! ### Words -/

/-- The stretches between the runs of a class. -/
def words (p : α → Bool) (text : List α) : List (List α) :=
  (text.splitOnP p).filter fun word => !word.isEmpty

theorem words_run (p : α → Bool) (run rest : List α) (hrun : ∀ c ∈ run, p c = true) :
    words p (run ++ rest) = words p rest := by
  induction run with
  | nil => rfl
  | cons c run ih =>
      obtain ⟨hc, hrun⟩ := List.forall_mem_cons.mp hrun
      rw [List.cons_append, words, List.splitOnP_cons_eq_if_modifyHead, if_pos hc]
      exact ih hrun

theorem words_clean (p : α → Bool) (word run rest : List α) (hword : ∀ c ∈ word, p c = false)
    (hne : word ≠ []) (hrun : run ≠ []) (hall : ∀ c ∈ run, p c = true) :
    words p (word ++ (run ++ rest)) = word :: words p rest := by
  cases run with
  | nil => exact absurd rfl hrun
  | cons c run =>
      obtain ⟨hc, hall⟩ := List.forall_mem_cons.mp hall
      rw [List.cons_append, words, List.splitOnP_append_cons_of_forall_mem hword c hc,
        List.filter_cons_of_pos (by simpa using hne)]
      exact congrArg (word :: ·) (words_run p run rest hall)

theorem words_single (p : α → Bool) (word : List α) (hword : ∀ c ∈ word, p c = false)
    (hne : word ≠ []) : words p word = [word] := by
  rw [words, List.splitOnP_eq_singleton hword, List.filter_cons_of_pos (by simpa using hne)]
  rfl

/-- No word is empty or has a unit of the class. -/
theorem mem_words (p : α → Bool) (text word : List α) (h : word ∈ words p text) :
    word ≠ [] ∧ ∀ c ∈ word, p c = false := by
  induction hlength : text.length using Nat.strong_induction_on generalizing text with
  | _ n ih =>
      subst hlength
      by_cases hempty : text = []
      · subst hempty
        cases h
      · rcases split_run p text with hnone | ⟨clean, run, rest, rfl, hclean, hne, hrun, _⟩
        · rw [words_single p text hnone hempty, List.mem_singleton] at h
          subst h
          exact ⟨hempty, hnone⟩
        · have hpositive : 0 < run.length := List.length_pos_iff.mpr hne
          have hrest := ih rest.length (by simp only [List.length_append]; omega) rest
          cases clean with
          | nil =>
              rw [List.nil_append, words_run p run rest hrun] at h
              exact hrest h rfl
          | cons c clean =>
              rw [words_clean p (c :: clean) run rest hclean (List.cons_ne_nil _ _) hne hrun] at h
              rcases List.mem_cons.mp h with rfl | h
              · exact ⟨List.cons_ne_nil _ _, hclean⟩
              · exact hrest h rfl

/-- A text that does not start with the class, its runs replaced by one unit, is its words
with that unit between them and perhaps at the end. -/
theorem replaceRuns_words (p : α → Bool) (sep : α) (text : List α)
    (hhead : ∀ c ∈ text.head?, p c = false) :
    ∃ tail, (tail = [] ∨ tail = [sep] ∧ words p text ≠ []) ∧
      replaceRuns p (fun _ => [sep]) text = [sep].intercalate (words p text) ++ tail := by
  induction hlength : text.length using Nat.strong_induction_on generalizing text with
  | _ n ih =>
      subst hlength
      by_cases hempty : text = []
      · subst hempty
        exact ⟨[], .inl rfl, by rw [replaceRuns]; rfl⟩
      · rcases split_run p text with hnone | ⟨clean, run, rest, rfl, hclean, hne, hrun, hrest⟩
        · refine ⟨[], .inl rfl, ?_⟩
          have hkept := replaceRuns_skip p (fun _ => [sep]) text [] hnone
          rw [List.append_nil] at hkept
          rw [hkept, replaceRuns, words_single p text hnone hempty, List.intercalate_singleton]
        · have hclean' : clean ≠ [] := by
            rintro rfl
            obtain ⟨c, tail, rfl⟩ := List.exists_cons_of_ne_nil hne
            have hc := hhead c rfl
            rw [hrun c List.mem_cons_self] at hc
            cases hc
          have hpositive : 0 < run.length := List.length_pos_iff.mpr hne
          obtain ⟨tail, htail, heq⟩ :=
            ih rest.length (by simp only [List.length_append]; omega) rest hrest rfl
          rw [replaceRuns_skip p _ clean _ hclean, replaceRuns_run p _ run rest hne hrun hrest,
            words_clean p clean run rest hclean hclean' hne hrun, heq]
          cases hwords : words p rest with
          | nil =>
              have hend : tail = [] := htail.resolve_right fun h => h.2 hwords
              refine ⟨[sep], .inr ⟨rfl, List.cons_ne_nil _ _⟩, ?_⟩
              rw [hend, List.append_nil, List.intercalate_singleton]
              rfl
          | cons word more =>
              refine ⟨tail, htail.imp id fun h => ⟨h.1, List.cons_ne_nil _ _⟩, ?_⟩
              rw [List.intercalate_cons_cons]
              simp

/-- Trimming takes what is in the class off both ends and stops at what is not. -/
theorem trim_eq (q : α → Bool) (lead core tail : List α) (hlead : ∀ c ∈ lead, q c = true)
    (htail : ∀ c ∈ tail, q c = true) (hhead : ∀ c ∈ core.head?, q c = false)
    (hlast : ∀ c ∈ core.getLast?, q c = false) :
    ((lead ++ (core ++ tail)).dropWhile q).rdropWhile q = core := by
  rw [List.dropWhile_append_of_pos hlead]
  cases core with
  | nil =>
      rw [List.nil_append, List.dropWhile_eq_nil_iff.mpr htail, List.rdropWhile_nil]
  | cons c core =>
      rw [List.cons_append, List.dropWhile_cons_of_neg (by simp [hhead c rfl]), ← List.cons_append,
        List.rdropWhile, List.reverse_append, List.dropWhile_append_of_pos (by simpa using htail)]
      have hne : (c :: core).reverse ≠ [] := by simp
      obtain ⟨d, front, hfront⟩ := List.exists_cons_of_ne_nil hne
      have hd : q d = false := by
        apply hlast
        rw [← List.head?_reverse, hfront]
        rfl
      rw [hfront, List.dropWhile_cons_of_neg (by simp [hd]), ← hfront, List.reverse_reverse]

/-- Every text is a core between two stretches of the class. -/
theorem split_trim (q : α → Bool) (text : List α) :
    ∃ lead core tail, text = lead ++ (core ++ tail) ∧ (∀ c ∈ lead, q c = true) ∧
      (∀ c ∈ tail, q c = true) ∧ (∀ c ∈ core.head?, q c = false) ∧
      ∀ c ∈ core.getLast?, q c = false := by
  obtain ⟨core, tail, hsplit, _, hlast, htail⟩ := split_last q (text.dropWhile q)
  by_cases hcore : core = []
  · refine ⟨text, [], [], by simp, ?_, nofun, nofun, nofun⟩
    rw [hcore, List.nil_append] at hsplit
    have hall : text.dropWhile q = [] := by
      cases hrest : text.dropWhile q with
      | nil => rfl
      | cons c rest =>
          have hc := List.head?_dropWhile_not q text
          rw [hrest, List.head?_cons] at hc
          have hq := htail c (by rw [← hsplit, hrest]; exact List.mem_cons_self)
          simp [hq] at hc
    exact List.dropWhile_eq_nil_iff.mp hall
  · refine ⟨text.takeWhile q, core, tail, ?_, fun c hc => List.mem_takeWhile_imp hc, htail, ?_,
      hlast⟩
    · rw [← hsplit, List.takeWhile_append_dropWhile]
    · intro c hc
      have hnot := List.head?_dropWhile_not q text
      rw [hsplit, List.head?_append_of_ne_nil _ hcore, Option.mem_def.mp hc] at hnot
      simpa using hnot

/-- The two ends can be trimmed in either order. -/
theorem trim_comm (q : α → Bool) (text : List α) :
    (text.rdropWhile q).dropWhile q = (text.dropWhile q).rdropWhile q := by
  obtain ⟨lead, core, tail, rfl, hlead, htail, hhead, hlast⟩ := split_trim q text
  have hmirror : ((lead ++ (core ++ tail)).rdropWhile q).dropWhile q =
      (((tail.reverse ++ (core.reverse ++ lead.reverse)).dropWhile q).rdropWhile q).reverse := by
    simp [List.rdropWhile]
  rw [hmirror, trim_eq q lead core tail hlead htail hhead hlast,
    trim_eq q tail.reverse core.reverse lead.reverse (by simpa using htail) (by simpa using hlead)
      (by simpa using hlast) (by simpa using hhead),
    List.reverse_reverse]

/-- What is trimmed has nothing left to trim. -/
theorem trim_again (q : α → Bool) (text : List α) :
    ((((text.dropWhile q).rdropWhile q).dropWhile q).rdropWhile q) =
      (text.dropWhile q).rdropWhile q := by
  calc
    _ = ((text.rdropWhile q).dropWhile q).rdropWhile q := by
      rw [← trim_comm q text, List.dropWhile_idempotent]
    _ = _ := by
      rw [trim_comm, List.rdropWhile_idempotent]

/-- Words joined by a unit start and end as words do. -/
theorem intercalate_ends (p : α → Bool) (sep : α) (ws : List (List α))
    (h : ∀ word ∈ ws, word ≠ [] ∧ ∀ c ∈ word, p c = false) :
    (∀ c ∈ ([sep].intercalate ws).head?, p c = false) ∧
      ∀ c ∈ ([sep].intercalate ws).getLast?, p c = false := by
  induction ws with
  | nil =>
      constructor <;> intro c hc <;> simp at hc
  | cons word ws ih =>
      obtain ⟨⟨hne, hword⟩, hws⟩ := List.forall_mem_cons.mp h
      obtain ⟨c, front, rfl⟩ := List.exists_cons_of_ne_nil hne
      cases ws with
      | nil =>
          rw [List.intercalate_singleton]
          exact ⟨fun d hd => hword d (List.mem_of_mem_head? hd),
            fun d hd => hword d (List.mem_of_getLast? hd)⟩
      | cons next ws =>
          obtain ⟨_, hlast⟩ := ih hws
          have hsome : [sep].intercalate (next :: ws) ≠ [] := by
            obtain ⟨e, rest, rfl⟩ := List.exists_cons_of_ne_nil (hws next List.mem_cons_self).1
            cases ws <;> simp [List.intercalate_cons_cons, List.intercalate_singleton]
          rw [List.intercalate_cons_cons]
          constructor
          · intro d hd
            exact hword d (by simp_all)
          · intro d hd
            rw [List.getLast?_append, List.getLast?_eq_some_getLast hsome, Option.some_or] at hd
            exact hlast d (by rw [List.getLast?_eq_some_getLast hsome]; exact hd)

/-- Replacing the runs of a class by one of its units and trimming that unit leaves the
words with one such unit between them. -/
theorem trim_replaceRuns (p q : α → Bool) (sep : α) (text : List α) (hsep : q sep = true)
    (hq : ∀ c, q c = true → p c = true) :
    ((replaceRuns p (fun _ => [sep]) text).dropWhile q).rdropWhile q =
      [sep].intercalate (words p text) := by
  have hends := intercalate_ends p sep (words p text) fun word h => mem_words p text word h
  have hopen : ∀ c, p c = false → q c = false := by
    intro c hc
    rw [Bool.eq_false_iff]
    intro hqc
    rw [hq c hqc] at hc
    cases hc
  have hfinish : ∀ lead rest, (lead = [] ∨ lead = [sep]) → words p rest = words p text →
      (∀ c ∈ rest.head?, p c = false) →
      replaceRuns p (fun _ => [sep]) text = lead ++ replaceRuns p (fun _ => [sep]) rest →
      ((replaceRuns p (fun _ => [sep]) text).dropWhile q).rdropWhile q =
        [sep].intercalate (words p text) := by
    intro lead rest hlead hwords hhead heq
    obtain ⟨tail, htail, hrest⟩ := replaceRuns_words p sep rest hhead
    rw [heq, hrest, hwords]
    apply trim_eq
    · rcases hlead with rfl | rfl <;> simp [hsep]
    · rcases htail with rfl | ⟨rfl, _⟩ <;> simp [hsep]
    · exact fun c hc => hopen c (hends.1 c hc)
    · exact fun c hc => hopen c (hends.2 c hc)
  rcases split_run p text with hnone | ⟨clean, run, rest, rfl, hclean, hne, hrun, hrest⟩
  · exact hfinish [] text (.inl rfl) rfl (fun c hc => hnone c (List.mem_of_mem_head? hc)) rfl
  · cases clean with
    | nil =>
        apply hfinish [sep] rest (.inr rfl) (words_run p run rest hrun).symm hrest
        rw [List.nil_append, replaceRuns_run p _ run rest hne hrun hrest]
    | cons c clean =>
        apply hfinish [] _ (.inl rfl) rfl _ rfl
        intro d hd
        obtain rfl : c = d := by simpa using hd
        exact hclean c List.mem_cons_self

/-- The words of joined words are these words. -/
theorem words_intercalate (p : α → Bool) (sep : α) (ws : List (List α)) (hsep : p sep = true)
    (h : ∀ word ∈ ws, word ≠ [] ∧ ∀ c ∈ word, p c = false) :
    words p ([sep].intercalate ws) = ws := by
  have hrun : ∀ c ∈ [sep], p c = true := by
    intro c hc
    rwa [List.mem_singleton.mp hc]
  induction ws with
  | nil => rfl
  | cons word ws ih =>
      obtain ⟨⟨hne, hword⟩, hws⟩ := List.forall_mem_cons.mp h
      cases ws with
      | nil => rw [List.intercalate_singleton, words_single p word hword hne]
      | cons next ws =>
          rw [List.intercalate_cons_cons,
            List.append_assoc, words_clean p word [sep] _ hword hne (List.cons_ne_nil _ _) hrun, ih hws]

end Runlet.Matching
