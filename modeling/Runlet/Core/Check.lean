import Mathlib.Data.ZMod.Basic
import Runlet.Core.TextPadding
import Runlet.Lib.CheckDigit

/-!
`luhn` and `gtin` of the `check` value, over the code units of a string: the
digits are taken out of the string, a loop adds them up with weights that
alternate from the right, and the sum is tested modulo ten.
-/

namespace Runlet.Check

open TextUtil CheckDigit

/-- `c >= "0" && c <= "9"` for one code unit. -/
def isDigit (c : UInt16) : Bool := 48 ≤ c && c ≤ 57

def digitsOnlyLoop (strip out : CodeUnits) : CodeUnits → Option CodeUnits
  | [] => some out
  | c :: rest =>
      if isDigit c then digitsOnlyLoop strip (out ++ [c]) rest
      else if c ∈ strip then digitsOnlyLoop strip out rest
      else none

def digitsOnly (s strip : CodeUnits) : Option CodeUnits := digitsOnlyLoop strip [] s

/-- `charCodeAt(i) - 48` of a digit. -/
def digitOf (c : UInt16) : Nat := c.toNat - 48

/-- What one digit adds to the sum of `luhn`. -/
def luhnTerm (doubleIt : Bool) (n : Nat) : Nat :=
  if doubleIt then (if 2 * n > 9 then 2 * n - 9 else 2 * n) else n

/-- The loop of `luhn`, from the last digit to the first. -/
def luhnLoop (sum : Nat) (doubleIt : Bool) : CodeUnits → Nat
  | [] => sum
  | c :: rest => luhnLoop (sum + luhnTerm doubleIt (digitOf c)) (!doubleIt) rest

def luhn (value : CodeUnits) : Bool :=
  match digitsOnly value (ascii " -") with
  | none => false
  | some d => if d.length = 0 then false else luhnLoop 0 false d.reverse % 10 == 0

def gtinTerm (fromRight n : Nat) : Nat := if fromRight % 2 = 1 then n * 3 else n

/-- The loop of `gtin`, from the first digit to the last. -/
def gtinLoop (len i sum : Nat) : CodeUnits → Nat
  | [] => sum
  | c :: rest => gtinLoop len (i + 1) (sum + gtinTerm (len - 1 - i) (digitOf c)) rest

/-- The lengths of a GTIN. -/
def gtinLengths : List Nat := [8, 12, 13, 14]

def gtin (value : CodeUnits) : Bool :=
  match digitsOnly value [] with
  | none => false
  | some d => if d.length ∉ gtinLengths then false else gtinLoop d.length 0 0 d % 10 == 0

/-! ### Digits -/

theorem isDigit_iff (c : UInt16) : isDigit c = true ↔ 48 ≤ c.toNat ∧ c.toNat ≤ 57 := by
  unfold isDigit
  rw [Bool.and_eq_true, decide_eq_true_eq, decide_eq_true_eq, UInt16.le_iff_toNat_le,
    UInt16.le_iff_toNat_le]
  rfl

theorem digitOf_lt (c : UInt16) (hc : isDigit c = true) : digitOf c < 10 := by
  have hrange := (isDigit_iff c).mp hc
  unfold digitOf
  omega

theorem digitOf_injective (c c' : UInt16) (hc : isDigit c = true) (hc' : isDigit c' = true)
    (h : digitOf c = digitOf c') : c = c' := by
  have hrange := (isDigit_iff c).mp hc
  have hrange' := (isDigit_iff c').mp hc'
  unfold digitOf at h
  apply UInt16.toNat_inj.mp
  omega

/-- The unit of a digit. -/
def digitUnit (n : Nat) : UInt16 := UInt16.ofNat (48 + n)

theorem toNat_digitUnit (n : Nat) (hn : n < 10) : (digitUnit n).toNat = 48 + n := by
  unfold digitUnit
  rw [UInt16.toNat_ofNat']
  exact Nat.mod_eq_of_lt (by omega)

theorem isDigit_digitUnit (n : Nat) (hn : n < 10) : isDigit (digitUnit n) = true := by
  rw [isDigit_iff, toNat_digitUnit n hn]
  omega

theorem digitOf_digitUnit (n : Nat) (hn : n < 10) : digitOf (digitUnit n) = n := by
  unfold digitOf
  rw [toNat_digitUnit n hn]
  omega

theorem digitsOnlyLoop_some (strip out s : CodeUnits)
    (h : ∀ c ∈ s, isDigit c = true ∨ c ∈ strip) :
    digitsOnlyLoop strip out s = some (out ++ s.filter isDigit) := by
  induction s generalizing out with
  | nil => simp [digitsOnlyLoop]
  | cons c rest ih =>
      obtain ⟨hhead, hrest⟩ := List.forall_mem_cons.mp h
      unfold digitsOnlyLoop
      by_cases hc : isDigit c = true
      · simp [hc, ih _ hrest]
      · simp [hc, hhead.resolve_left hc, ih _ hrest]

theorem digitsOnlyLoop_none (strip out s : CodeUnits)
    (h : ¬∀ c ∈ s, isDigit c = true ∨ c ∈ strip) : digitsOnlyLoop strip out s = none := by
  induction s generalizing out with
  | nil => exact absurd (List.forall_mem_nil _) h
  | cons c rest ih =>
      rw [List.forall_mem_cons, not_and_or] at h
      unfold digitsOnlyLoop
      by_cases hhead : isDigit c = true ∨ c ∈ strip
      · have hrest := h.resolve_left (not_not_intro hhead)
        simp only [ih _ hrest, ite_self]
      · obtain ⟨hdigit, hstrip⟩ := not_or.mp hhead
        rw [if_neg hdigit, if_neg hstrip]

theorem digitsOnly_some (s strip : CodeUnits) (h : ∀ c ∈ s, isDigit c = true ∨ c ∈ strip) :
    digitsOnly s strip = some (s.filter isDigit) := digitsOnlyLoop_some strip [] s h

theorem digitsOnly_none (s strip : CodeUnits) (h : ¬∀ c ∈ s, isDigit c = true ∨ c ∈ strip) :
    digitsOnly s strip = none := digitsOnlyLoop_none strip [] s h

/-! ### The sums -/

/-- The weight of a digit of `luhn` at a position from the right. -/
def luhnWeight (position : Nat) (c : UInt16) : ZMod 10 :=
  (luhnTerm (position % 2 == 1) (digitOf c) : Nat)

/-- The weight of a digit of `gtin` at a position from the right. -/
def gtinWeight (position : Nat) (c : UInt16) : ZMod 10 :=
  (gtinTerm position (digitOf c) : Nat)

theorem parity_succ (position : Nat) :
    ((position + 1) % 2 == 1) = !(position % 2 == 1) := by
  rcases Nat.mod_two_eq_zero_or_one position with h | h <;> simp [h, Nat.add_mod]

theorem luhnLoop_eq_total (sum position : Nat) (ds : CodeUnits) :
    ((luhnLoop sum (position % 2 == 1) ds : Nat) : ZMod 10) =
      sum + total luhnWeight position ds := by
  induction ds generalizing sum position with
  | nil => simp [luhnLoop, total]
  | cons c rest ih =>
      rw [luhnLoop, ← parity_succ, ih, total, Nat.cast_add, add_assoc]
      rfl

theorem gtinLoop_eq_total (len i sum : Nat) (ds : CodeUnits) (hlength : i + ds.length = len) :
    ((gtinLoop len i sum ds : Nat) : ZMod 10) = sum + total gtinWeight 0 ds.reverse := by
  induction ds generalizing i sum with
  | nil => simp [gtinLoop, total]
  | cons c rest ih =>
      rw [List.length_cons] at hlength
      have hplace : len - 1 - i = 0 + rest.reverse.length := by
        rw [List.length_reverse]
        omega
      rw [gtinLoop, ih (i + 1) _ (by omega), List.reverse_cons, total_append, total, total,
        add_zero, ← hplace, Nat.cast_add]
      unfold gtinWeight
      ring

theorem mod_ten_iff (n : Nat) : (n % 10 == 0) = true ↔ (n : ZMod 10) = 0 := by
  rw [beq_iff_eq, ZMod.natCast_eq_zero_iff, Nat.dvd_iff_mod_eq_zero]

/-- A string passes `luhn` when it has digits, else only separators, and a sum of zero. -/
theorem luhn_iff (s : CodeUnits) :
    luhn s = true ↔ (∀ c ∈ s, isDigit c = true ∨ c ∈ ascii " -") ∧ s.filter isDigit ≠ [] ∧
      total luhnWeight 0 (s.filter isDigit).reverse = 0 := by
  unfold luhn
  have hloop := luhnLoop_eq_total 0 0 (s.filter isDigit).reverse
  rw [Nat.cast_zero, zero_add] at hloop
  by_cases hall : ∀ c ∈ s, isDigit c = true ∨ c ∈ ascii " -"
  · rw [digitsOnly_some s _ hall]
    dsimp only
    by_cases hempty : s.filter isDigit = []
    · simp [hempty]
    · rw [if_neg (by rwa [List.length_eq_zero_iff]), mod_ten_iff]
      have hstart : luhnLoop 0 false (s.filter isDigit).reverse =
        luhnLoop 0 (0 % 2 == 1) (s.filter isDigit).reverse := rfl
      rw [hstart, hloop]
      exact ⟨fun h => ⟨hall, hempty, h⟩, fun h => h.2.2⟩
  · rw [digitsOnly_none s _ hall]
    simp [hall]

/-- A string passes `gtin` when it is digits, of a known length and a sum of zero. -/
theorem gtin_iff (s : CodeUnits) :
    gtin s = true ↔ (∀ c ∈ s, isDigit c = true) ∧ s.length ∈ gtinLengths ∧
      total gtinWeight 0 s.reverse = 0 := by
  unfold gtin
  by_cases hall : ∀ c ∈ s, isDigit c = true
  · rw [digitsOnly_some s [] fun c hc => .inl (hall c hc), List.filter_eq_self.mpr hall]
    dsimp only
    by_cases hlength : s.length ∈ gtinLengths
    · have hloop := gtinLoop_eq_total s.length 0 0 s (by omega)
      rw [Nat.cast_zero, zero_add] at hloop
      rw [if_neg (not_not_intro hlength), mod_ten_iff, hloop]
      exact ⟨fun h => ⟨hall, hlength, h⟩, fun h => h.2.2⟩
    · rw [if_pos hlength]
      simp [hlength]
  · have hother : ¬∀ c ∈ s, isDigit c = true ∨ c ∈ ([] : CodeUnits) :=
      fun h => hall fun c hc => (h c hc).resolve_right List.not_mem_nil
    rw [digitsOnly_none s [] hother]
    simp [hall]

/-! ### The weights -/

/-- The digits, as a set of units. -/
def digits : Set UInt16 := {c | isDigit c = true}

theorem luhnTerm_bijective (odd : Bool) :
    (∀ n m : Fin 10, ((luhnTerm odd n : Nat) : ZMod 10) = (luhnTerm odd m : Nat) → n = m) ∧
      ∀ z : ZMod 10, ∃ n : Fin 10, ((luhnTerm odd n : Nat) : ZMod 10) = z := by
  cases odd <;> decide

theorem gtinTerm_bijective (odd : Fin 2) :
    (∀ n m : Fin 10, ((gtinTerm odd n : Nat) : ZMod 10) = (gtinTerm odd m : Nat) → n = m) ∧
      ∀ z : ZMod 10, ∃ n : Fin 10, ((gtinTerm odd n : Nat) : ZMod 10) = z := by
  revert odd
  decide

/-- A weight that is a bijection on the numbers below ten is one on the digits. -/
theorem bijOn_digits (weight : Nat → ZMod 10)
    (hinjective : ∀ n m : Fin 10, weight n = weight m → n = m)
    (hsurjective : ∀ z, ∃ n : Fin 10, weight n = z) :
    Set.BijOn (fun c => weight (digitOf c)) digits Set.univ := by
  refine ⟨fun _ _ => Set.mem_univ _, ?_, ?_⟩
  · intro c hc c' hc' hsame
    apply digitOf_injective c c' hc hc'
    exact Fin.mk.inj (hinjective ⟨_, digitOf_lt c hc⟩ ⟨_, digitOf_lt c' hc'⟩ hsame)
  · intro z _
    obtain ⟨n, hn⟩ := hsurjective z
    refine ⟨digitUnit n, isDigit_digitUnit n n.isLt, ?_⟩
    dsimp only
    rw [digitOf_digitUnit n n.isLt, hn]

theorem luhnWeight_bijOn (position : Nat) :
    Set.BijOn (luhnWeight position) digits Set.univ := by
  obtain ⟨hinjective, hsurjective⟩ := luhnTerm_bijective (position % 2 == 1)
  exact bijOn_digits (fun n => (luhnTerm (position % 2 == 1) n : Nat)) hinjective hsurjective

theorem gtinWeight_bijOn (position : Nat) :
    Set.BijOn (gtinWeight position) digits Set.univ := by
  obtain ⟨hinjective, hsurjective⟩ :=
    gtinTerm_bijective ⟨position % 2, Nat.mod_lt _ (by decide)⟩
  have hterm : ∀ n, gtinTerm (position % 2) n = gtinTerm position n := by
    intro n
    unfold gtinTerm
    rw [Nat.mod_mod]
  simp only [hterm] at hinjective hsurjective
  exact bijOn_digits (fun n => (gtinTerm position n : Nat)) hinjective hsurjective

/-- Neighbours that `luhn` cannot tell apart: equal ones, and a zero beside a nine. -/
theorem luhnTerm_swap (odd : Bool) (n m : Fin 10) :
    ((luhnTerm odd n : Nat) : ZMod 10) + (luhnTerm (!odd) m : Nat) =
        (luhnTerm odd m : Nat) + (luhnTerm (!odd) n : Nat) ↔
      n = m ∨ (n = 0 ∧ m = 9) ∨ (n = 9 ∧ m = 0) := by
  revert n m
  cases odd <;> decide

/-! ### The laws of the two checks -/

/-- Separators put into a string, at any places. -/
inductive Inserted (separators : CodeUnits) : CodeUnits → CodeUnits → Prop where
  | done : Inserted separators [] []
  | keep (c : UInt16) {s t : CodeUnits} :
      Inserted separators s t → Inserted separators (c :: s) (c :: t)
  | insert (c : UInt16) {s t : CodeUnits} :
      c ∈ separators → Inserted separators s t → Inserted separators s (c :: t)

theorem not_isDigit_separator (c : UInt16) (hc : c ∈ ascii " -") : isDigit c = false := by
  have hcases : c = 32 ∨ c = 45 := by simpa [ascii] using hc
  rcases hcases with rfl | rfl <;> rfl

theorem luhn_inserted (s t : CodeUnits) (h : Inserted (ascii " -") s t) : luhn t = luhn s := by
  have hparts : t.filter isDigit = s.filter isDigit ∧
      ((∀ c ∈ t, isDigit c = true ∨ c ∈ ascii " -") ↔
        ∀ c ∈ s, isDigit c = true ∨ c ∈ ascii " -") := by
    induction h with
    | done => exact ⟨rfl, Iff.rfl⟩
    | keep c _ ih =>
        simp only [List.forall_mem_cons, ih.2, List.filter_cons, ih.1, and_true]
    | insert c hc _ ih =>
        simp only [List.forall_mem_cons, ih.2, List.filter_cons, ih.1,
          not_isDigit_separator c hc, hc, or_true, true_and]
        simp
  rw [Bool.eq_iff_iff, luhn_iff, luhn_iff, hparts.1, hparts.2]

/-- Separators around a place of the string do not matter. -/
theorem filter_isDigit_around (front back : CodeUnits) (c : UInt16) (hc : isDigit c = true) :
    ((front ++ c :: back).filter isDigit).reverse =
      (back.filter isDigit).reverse ++ c :: (front.filter isDigit).reverse := by
  simp [hc]

theorem luhn_check (body : CodeUnits) (hbody : ∀ c ∈ body, isDigit c = true) :
    ∃! check, isDigit check = true ∧ luhn (body ++ [check]) = true := by
  obtain ⟨check, ⟨hdigit, hzero⟩, honly⟩ :=
    existsUnique_check luhnWeight digits 0 body.reverse (luhnWeight_bijOn 0)
  have hiff (c : UInt16) (hc : isDigit c = true) :
      luhn (body ++ [c]) = true ↔ total luhnWeight 0 (c :: body.reverse) = 0 := by
    have hall : ∀ x ∈ body ++ [c], isDigit x = true := by
      intro x hx
      rcases List.mem_append.mp hx with hx | hx
      · exact hbody x hx
      · rw [List.mem_singleton.mp hx]
        exact hc
    rw [luhn_iff, List.filter_eq_self.mpr hall, List.reverse_append]
    constructor
    · exact fun h => h.2.2
    · exact fun h => ⟨fun x hx => .inl (hall x hx), by simp, h⟩
  refine ⟨check, ⟨hdigit, (hiff check hdigit).mpr hzero⟩, ?_⟩
  rintro other ⟨hother, hvalid⟩
  exact honly other ⟨hother, (hiff other hother).mp hvalid⟩

theorem gtin_check (body : CodeUnits) (hbody : ∀ c ∈ body, isDigit c = true)
    (hlength : body.length + 1 ∈ gtinLengths) :
    ∃! check, isDigit check = true ∧ gtin (body ++ [check]) = true := by
  obtain ⟨check, ⟨hdigit, hzero⟩, honly⟩ :=
    existsUnique_check gtinWeight digits 0 body.reverse (gtinWeight_bijOn 0)
  have hiff (c : UInt16) (hc : isDigit c = true) :
      gtin (body ++ [c]) = true ↔ total gtinWeight 0 (c :: body.reverse) = 0 := by
    rw [gtin_iff, List.reverse_append, List.length_append]
    constructor
    · exact fun h => h.2.2
    · intro h
      refine ⟨?_, hlength, h⟩
      intro x hx
      rcases List.mem_append.mp hx with hx | hx
      · exact hbody x hx
      · rw [List.mem_singleton.mp hx]
        exact hc
  refine ⟨check, ⟨hdigit, (hiff check hdigit).mpr hzero⟩, ?_⟩
  rintro other ⟨hother, hvalid⟩
  exact honly other ⟨hother, (hiff other hother).mp hvalid⟩

theorem luhn_changed (front back : CodeUnits) (c c' : UInt16) (hc : isDigit c = true)
    (hc' : isDigit c' = true) (hne : c ≠ c') (hvalid : luhn (front ++ c :: back) = true) :
    luhn (front ++ c' :: back) = false := by
  have hzero := ((luhn_iff _).mp hvalid).2.2
  rw [filter_isDigit_around front back c hc] at hzero
  rw [Bool.eq_false_iff]
  intro hother
  have hzero' := ((luhn_iff _).mp hother).2.2
  rw [filter_isDigit_around front back c' hc'] at hzero'
  apply total_replace_ne luhnWeight 0 _ _ c c' _ (hzero'.trans hzero.symm)
  exact fun h => hne ((luhnWeight_bijOn _).injOn hc hc' h)

theorem gtin_changed (front back : CodeUnits) (c c' : UInt16) (hc : isDigit c = true)
    (hc' : isDigit c' = true) (hne : c ≠ c') (hvalid : gtin (front ++ c :: back) = true) :
    gtin (front ++ c' :: back) = false := by
  have hreverse (x : UInt16) : (front ++ x :: back).reverse = back.reverse ++ x :: front.reverse := by
    simp
  have hzero := ((gtin_iff _).mp hvalid).2.2
  rw [hreverse] at hzero
  rw [Bool.eq_false_iff]
  intro hother
  have hzero' := ((gtin_iff _).mp hother).2.2
  rw [hreverse] at hzero'
  apply total_replace_ne gtinWeight 0 _ _ c c' _ (hzero'.trans hzero.symm)
  exact fun h => hne ((gtinWeight_bijOn _).injOn hc hc' h)

/-- Digits whose weights add up either way are equal, or a zero and a nine. -/
theorem luhnWeight_swap (position : Nat) (c c' : UInt16) (hc : isDigit c = true)
    (hc' : isDigit c' = true) :
    luhnWeight position c + luhnWeight (position + 1) c' =
        luhnWeight position c' + luhnWeight (position + 1) c ↔
      c = c' ∨ (c = 48 ∧ c' = 57) ∨ (c = 57 ∧ c' = 48) := by
  have hvalue (x : UInt16) (hx : isDigit x = true) (n : Nat) (hn : n < 10) :
      digitOf x = n ↔ x = digitUnit n := by
    constructor
    · intro h
      apply digitOf_injective x _ hx (isDigit_digitUnit n hn)
      rw [h, digitOf_digitUnit n hn]
    · intro h
      rw [h, digitOf_digitUnit n hn]
  have hcases := luhnTerm_swap (position % 2 == 1) ⟨_, digitOf_lt c hc⟩ ⟨_, digitOf_lt c' hc'⟩
  unfold luhnWeight
  rw [parity_succ]
  apply hcases.trans
  simp only [Fin.ext_iff, Fin.val_zero]
  rw [show ((9 : Fin 10) : Nat) = 9 from rfl, hvalue c hc 0 (by decide), hvalue c hc 9 (by decide),
    hvalue c' hc' 0 (by decide), hvalue c' hc' 9 (by decide)]
  apply or_congr _ Iff.rfl
  exact ⟨digitOf_injective c c' hc hc', fun h => congrArg digitOf h⟩

/-- Whether two neighbouring digits, with separators between them at most, may
change places in a valid string. -/
theorem luhn_swapped (front between back : CodeUnits) (c c' : UInt16) (hc : isDigit c = true)
    (hc' : isDigit c' = true) (hne : c ≠ c') (hbetween : ∀ x ∈ between, x ∈ ascii " -")
    (hvalid : luhn (front ++ c :: (between ++ c' :: back)) = true) :
    luhn (front ++ c' :: (between ++ c :: back)) = true ↔
      (c = 48 ∧ c' = 57) ∨ (c = 57 ∧ c' = 48) := by
  have hnone : between.filter isDigit = [] := by
    rw [List.filter_eq_nil_iff]
    intro x hx
    rw [not_isDigit_separator x (hbetween x hx)]
    decide
  have hdigits (x y : UInt16) (hx : isDigit x = true) (hy : isDigit y = true) :
      ((front ++ x :: (between ++ y :: back)).filter isDigit).reverse =
        (back.filter isDigit).reverse ++ y :: x :: (front.filter isDigit).reverse := by
    simp [hx, hy, hnone]
  obtain ⟨hall, -, hzero⟩ := (luhn_iff _).mp hvalid
  rw [hdigits c c' hc hc'] at hzero
  have hswap := (total_swap_iff luhnWeight 0 (back.filter isDigit).reverse
    (front.filter isDigit).reverse c' c).trans (luhnWeight_swap _ c c' hc hc')
  rw [hzero, or_iff_right hne] at hswap
  rw [← hswap, luhn_iff, hdigits c' c hc' hc]
  constructor
  · exact fun h => h.2.2
  · intro h
    refine ⟨?_, by simp [hc'], h⟩
    intro x hx
    apply hall x
    simp only [List.mem_append, List.mem_cons] at hx ⊢
    tauto

theorem gtin_zeros (s : CodeUnits) (count : Nat) (hlength : s.length ∈ gtinLengths)
    (hlonger : s.length + count ∈ gtinLengths) :
    gtin (List.replicate count 48 ++ s) = gtin s := by
  have hweightless : ∀ k, ∀ c ∈ List.replicate count (48 : UInt16), gtinWeight k c = 0 := by
    intro k c hc
    rw [List.eq_of_mem_replicate hc]
    unfold gtinWeight gtinTerm
    rw [show digitOf 48 = 0 from rfl]
    simp
  rw [Bool.eq_iff_iff, gtin_iff, gtin_iff, List.reverse_append, List.reverse_replicate,
    total_weightless gtinWeight 0 _ _ hweightless, List.length_append, List.length_replicate,
    Nat.add_comm count, List.forall_mem_append]
  have hzeros : ∀ c ∈ List.replicate count (48 : UInt16), isDigit c = true := by
    intro c hc
    rw [List.eq_of_mem_replicate hc]
    rfl
  rw [and_iff_right hzeros]
  simp only [hlength, hlonger, true_and]

/-- What is expected of the two checks. -/
structure CheckLaws : Prop where
  luhnCheck : ∀ body : CodeUnits, (∀ c ∈ body, isDigit c = true) →
    ∃! check, isDigit check = true ∧ luhn (body ++ [check]) = true
  gtinCheck : ∀ body : CodeUnits, (∀ c ∈ body, isDigit c = true) →
    body.length ∈ [7, 11, 12, 13] →
    ∃! check, isDigit check = true ∧ gtin (body ++ [check]) = true
  luhnChanged : ∀ (front back : CodeUnits) (c c' : UInt16), isDigit c = true →
    isDigit c' = true → c ≠ c' → luhn (front ++ c :: back) = true →
    luhn (front ++ c' :: back) = false
  gtinChanged : ∀ (front back : CodeUnits) (c c' : UInt16), isDigit c = true →
    isDigit c' = true → c ≠ c' → gtin (front ++ c :: back) = true →
    gtin (front ++ c' :: back) = false
  luhnInserted : ∀ s t, Inserted (ascii " -") s t → luhn t = luhn s
  luhnSwapped : ∀ (front between back : CodeUnits) (c c' : UInt16), isDigit c = true →
    isDigit c' = true → c ≠ c' → (∀ x ∈ between, x ∈ ascii " -") →
    luhn (front ++ c :: (between ++ c' :: back)) = true →
    (luhn (front ++ c' :: (between ++ c :: back)) = true ↔
      (c = 48 ∧ c' = 57) ∨ (c = 57 ∧ c' = 48))
  gtinZeros : ∀ (s : CodeUnits) (count : Nat), s.length ∈ gtinLengths →
    s.length + count ∈ gtinLengths → gtin (List.replicate count 48 ++ s) = gtin s

theorem checkLaws : CheckLaws := by
  refine ⟨luhn_check, ?_, luhn_changed, gtin_changed, luhn_inserted, luhn_swapped, gtin_zeros⟩
  intro body hbody hlength
  apply gtin_check body hbody
  simp only [gtinLengths, List.mem_cons, List.not_mem_nil, or_false] at hlength ⊢
  omega

end Runlet.Check
