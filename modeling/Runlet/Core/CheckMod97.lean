import Mathlib.Algebra.Field.ZMod
import Mathlib.Tactic.NormNum.Prime
import Runlet.Core.Check

/-!
`iso7064` of the `check` value, in its one system: a remainder modulo 97 taken
piece by piece, a digit shifting what was read by one decimal place and a letter
by two.
-/

namespace Runlet.Check

open TextUtil CheckDigit

def isUpper (c : UInt16) : Bool := 65 ≤ c && c ≤ 90

def isLower (c : UInt16) : Bool := 97 ≤ c && c ≤ 122

/-- The number of a digit or letter, or -1. -/
def alnumValue (c : UInt16) : Int :=
  if isDigit c then (c.toNat : Int) - 48
  else if isUpper c then (c.toNat : Int) - 55
  else if isLower c then (c.toNat : Int) - 87
  else -1

/-- What a step computes before it takes the remainder. -/
def mod97Sum (rem v : Nat) : Nat := if v < 10 then rem * 10 + v else rem * 100 + v

/-- The loop over the string: nothing for a unit that is no letter or digit. -/
def mod97Loop (rem : Nat) : CodeUnits → Option Nat
  | [] => some rem
  | c :: rest =>
      let v := alnumValue c
      if v < 0 then none else mod97Loop (mod97Sum rem v.toNat % 97) rest

def mod97_10 (s : CodeUnits) : Bool :=
  if s.length = 0 then false
  else
    match mod97Loop 0 s with
    | none => false
    | some rem => rem == 1

def iso7064 (value : CodeUnits) (system : String) : Bool :=
  if system == "mod_97_10" then mod97_10 value else false

/-- All numbers the loop computes: a product, a sum and a remainder for each unit. -/
def mod97Values (rem : Nat) : CodeUnits → List Nat
  | [] => [rem]
  | c :: rest =>
      let v := alnumValue c
      if v < 0 then [rem]
      else
        let product := if v.toNat < 10 then rem * 10 else rem * 100
        let sum := mod97Sum rem v.toNat
        rem :: v.toNat :: product :: sum :: mod97Values (sum % 97) rest

/-! ### The number a string stands for -/

def isLetter (c : UInt16) : Bool := isUpper c || isLower c

def isAlnum (c : UInt16) : Bool := isDigit c || isLetter c

/-- The place of a letter in the alphabet, in either case. -/
def letterIndex (c : UInt16) : Nat := if isUpper c then c.toNat - 65 else c.toNat - 97

/-- The decimal digits a unit expands to: a letter counts from ten on. -/
def expansion (c : UInt16) : List Nat :=
  if isDigit c then [digitOf c] else [(letterIndex c + 10) / 10, (letterIndex c + 10) % 10]

/-- A number from its decimal digits. -/
def fromDigits (ds : List Nat) : Nat := ds.foldl (fun n d => 10 * n + d) 0

def decimalNumber (s : CodeUnits) : Nat := fromDigits (s.flatMap expansion)

/-! ### What one unit does -/

/-- The number of a letter or digit. -/
def symbolValue (c : UInt16) : Nat := if isDigit c then digitOf c else letterIndex c + 10

/-- How far a unit moves what was read. -/
def symbolScale (c : UInt16) : Nat := if isDigit c then 10 else 100

theorem isLetter_iff (c : UInt16) :
    isLetter c = true ↔ (65 ≤ c.toNat ∧ c.toNat ≤ 90) ∨ (97 ≤ c.toNat ∧ c.toNat ≤ 122) := by
  unfold isLetter isUpper isLower
  simp only [Bool.or_eq_true, Bool.and_eq_true, decide_eq_true_eq, UInt16.le_iff_toNat_le]
  rfl

theorem isUpper_iff (c : UInt16) : isUpper c = true ↔ 65 ≤ c.toNat ∧ c.toNat ≤ 90 := by
  unfold isUpper
  simp only [Bool.and_eq_true, decide_eq_true_eq, UInt16.le_iff_toNat_le]
  rfl

theorem isLower_iff (c : UInt16) : isLower c = true ↔ 97 ≤ c.toNat ∧ c.toNat ≤ 122 := by
  unfold isLower
  simp only [Bool.and_eq_true, decide_eq_true_eq, UInt16.le_iff_toNat_le]
  rfl

theorem letter_not_digit (c : UInt16) (hc : isLetter c = true) : isDigit c = false := by
  rw [Bool.eq_false_iff, ne_eq, isDigit_iff]
  have hrange := (isLetter_iff c).mp hc
  omega

theorem letterIndex_lt (c : UInt16) (hc : isLetter c = true) : letterIndex c < 26 := by
  have hrange := (isLetter_iff c).mp hc
  unfold letterIndex
  split
  · rename_i hupper
    have := (isUpper_iff c).mp hupper
    omega
  · rename_i hupper
    have := mt (isUpper_iff c).mpr hupper
    omega

theorem alnumValue_of_alnum (c : UInt16) (hc : isAlnum c = true) :
    alnumValue c = symbolValue c := by
  unfold alnumValue symbolValue
  by_cases hdigit : isDigit c = true
  · have hrange := (isDigit_iff c).mp hdigit
    rw [if_pos hdigit, if_pos hdigit]
    unfold digitOf
    omega
  · have hletter : isLetter c = true := by
      unfold isAlnum at hc
      rwa [Bool.eq_false_iff.mpr hdigit, Bool.false_or] at hc
    have hrange := (isLetter_iff c).mp hletter
    rw [if_neg hdigit, if_neg hdigit]
    unfold letterIndex
    by_cases hupper : isUpper c = true
    · have hbounds := (isUpper_iff c).mp hupper
      rw [if_pos hupper, if_pos hupper]
      omega
    · have hbounds := mt (isUpper_iff c).mpr hupper
      have hlower : isLower c = true := (isLower_iff c).mpr (by omega)
      rw [if_neg hupper, if_neg hupper, if_pos hlower]
      omega

theorem alnumValue_of_other (c : UInt16) (hc : ¬isAlnum c = true) : alnumValue c = -1 := by
  unfold isAlnum isLetter at hc
  simp only [Bool.or_eq_true, not_or] at hc
  unfold alnumValue
  rw [if_neg hc.1, if_neg hc.2.1, if_neg hc.2.2]

theorem symbolValue_lt (c : UInt16) (hc : isAlnum c = true) : symbolValue c < 36 := by
  unfold symbolValue
  by_cases hdigit : isDigit c = true
  · have hlt := digitOf_lt c hdigit
    rw [if_pos hdigit]
    omega
  · have hletter : isLetter c = true := by
      unfold isAlnum at hc
      rwa [Bool.eq_false_iff.mpr hdigit, Bool.false_or] at hc
    have hlt := letterIndex_lt c hletter
    rw [if_neg hdigit]
    omega

/-- A step moves what was read by the scale of the unit and adds its value. -/
theorem mod97Sum_eq (rem : Nat) (c : UInt16) :
    mod97Sum rem (symbolValue c) = rem * symbolScale c + symbolValue c := by
  unfold mod97Sum symbolScale symbolValue
  by_cases hdigit : isDigit c = true
  · have hlt := digitOf_lt c hdigit
    rw [if_pos hdigit, if_pos hdigit, if_pos hlt]
  · rw [if_neg hdigit, if_neg hdigit, if_neg (by omega)]

theorem expansion_foldl (acc : Nat) (c : UInt16) :
    (expansion c).foldl (fun n d => 10 * n + d) acc = acc * symbolScale c + symbolValue c := by
  unfold expansion symbolScale symbolValue
  by_cases hdigit : isDigit c = true
  · simp only [if_pos hdigit, List.foldl_cons, List.foldl_nil]
    omega
  · simp only [if_neg hdigit, List.foldl_cons, List.foldl_nil]
    omega

/-! ### The loop as a residue -/

instance prime_97 : Fact (Nat.Prime 97) := ⟨by norm_num⟩

def scaleMod (c : UInt16) : ZMod 97 := symbolScale c

def valueMod (c : UInt16) : ZMod 97 := symbolValue c

/-- What is read of a string modulo 97. -/
def residue (acc : ZMod 97) (s : CodeUnits) : ZMod 97 := horner scaleMod valueMod acc s

theorem mod97Loop_alnum (rem : Nat) (s : CodeUnits) (hrem : rem < 97)
    (hall : ∀ c ∈ s, isAlnum c = true) :
    ∃ r, mod97Loop rem s = some r ∧ r < 97 ∧ (r : ZMod 97) = residue rem s := by
  induction s generalizing rem with
  | nil => exact ⟨rem, rfl, hrem, rfl⟩
  | cons c rest ih =>
      have hc := hall c (List.mem_cons_self ..)
      obtain ⟨r, hloop, hlt, hresidue⟩ :=
        ih (mod97Sum rem (symbolValue c) % 97) (Nat.mod_lt _ (by decide))
          fun x hx => hall x (List.mem_cons_of_mem _ hx)
      refine ⟨r, ?_, hlt, ?_⟩
      · unfold mod97Loop
        rw [alnumValue_of_alnum c hc]
        dsimp only
        rw [if_neg (by omega), Int.toNat_natCast]
        exact hloop
      · rw [hresidue, ZMod.natCast_mod, mod97Sum_eq, Nat.cast_add, Nat.cast_mul]
        rfl

theorem mod97Loop_other (rem : Nat) (s : CodeUnits) (hother : ¬∀ c ∈ s, isAlnum c = true) :
    mod97Loop rem s = none := by
  induction s generalizing rem with
  | nil => exact absurd (by simp) hother
  | cons c rest ih =>
      unfold mod97Loop
      by_cases hc : isAlnum c = true
      · have hrest : ¬∀ x ∈ rest, isAlnum x = true := by
          intro h
          exact hother (List.forall_mem_cons.mpr ⟨hc, h⟩)
        dsimp only
        rw [ih _ hrest, ite_self]
      · rw [alnumValue_of_other c hc]
        rfl

/-- The number of the expanded string has the residue the loop takes. -/
theorem decimalNumber_residue (s : CodeUnits) :
    ((decimalNumber s : Nat) : ZMod 97) = residue 0 s := by
  have hfold (acc : Nat) : (((s.flatMap expansion).foldl (fun n d => 10 * n + d) acc : Nat) :
      ZMod 97) = residue acc s := by
    induction s generalizing acc with
    | nil => rfl
    | cons c rest ih =>
        rw [List.flatMap_cons, List.foldl_append, expansion_foldl, ih, Nat.cast_add,
          Nat.cast_mul]
        rfl
  rw [← Nat.cast_zero]
  exact hfold 0

theorem cast_eq_one_iff (n : Nat) : (n : ZMod 97) = 1 ↔ n % 97 = 1 := by
  rw [← Nat.cast_one, ZMod.natCast_eq_natCast_iff']

theorem iso7064_iff (s : CodeUnits) :
    iso7064 s "mod_97_10" = true ↔
      s ≠ [] ∧ (∀ c ∈ s, isAlnum c = true) ∧ decimalNumber s % 97 = 1 := by
  unfold iso7064 mod97_10
  rw [if_pos (by rfl), ← cast_eq_one_iff, decimalNumber_residue]
  by_cases hempty : s = []
  · simp [hempty]
  · rw [if_neg (by rwa [List.length_eq_zero_iff])]
    by_cases hall : ∀ c ∈ s, isAlnum c = true
    · obtain ⟨r, hloop, hlt, hresidue⟩ := mod97Loop_alnum 0 s (by decide) hall
      rw [Nat.cast_zero] at hresidue
      rw [hloop, ← hresidue, cast_eq_one_iff, Nat.mod_eq_of_lt hlt]
      dsimp only
      rw [beq_iff_eq]
      exact ⟨fun h => ⟨hempty, hall, h⟩, fun h => h.2.2⟩
    · rw [mod97Loop_other 0 s hall]
      simp [hall]

/-- A string passes when its residue is one. -/
theorem iso7064_residue (s : CodeUnits) (hvalid : iso7064 s "mod_97_10" = true) :
    (∀ c ∈ s, isAlnum c = true) ∧ residue 0 s = 1 := by
  obtain ⟨-, hall, hone⟩ := (iso7064_iff s).mp hvalid
  refine ⟨hall, ?_⟩
  rw [← decimalNumber_residue]
  exact (cast_eq_one_iff _).mpr hone

/-! ### The numbers stay small -/

theorem mod97Sum_lt (rem v : Nat) (hrem : rem < 97) (hv : v < 36) : mod97Sum rem v < 9736 := by
  unfold mod97Sum
  split <;> omega

theorem mod97Loop_lt (rem : Nat) (s : CodeUnits) (r : Nat) (hrem : rem < 97)
    (hloop : mod97Loop rem s = some r) : r < 97 := by
  by_cases hall : ∀ c ∈ s, isAlnum c = true
  · obtain ⟨r', hloop', hlt, -⟩ := mod97Loop_alnum rem s hrem hall
    rw [hloop'] at hloop
    cases hloop
    exact hlt
  · rw [mod97Loop_other rem s hall] at hloop
    cases hloop

theorem alnumValue_lt (c : UInt16) : alnumValue c < 36 := by
  by_cases hc : isAlnum c = true
  · have hlt := symbolValue_lt c hc
    rw [alnumValue_of_alnum c hc]
    omega
  · rw [alnumValue_of_other c hc]
    decide

theorem mem_mod97Values_start (rem : Nat) (s : CodeUnits) : rem ∈ mod97Values rem s := by
  cases s with
  | nil => exact List.mem_singleton_self _
  | cons c rest =>
      unfold mod97Values
      by_cases hv : alnumValue c < 0
      · rw [if_pos hv]
        exact List.mem_singleton_self _
      · rw [if_neg hv]
        exact List.mem_cons_self

/-- The numbers listed are those of the loop: what it has after a part of the string, and
what it computes from there for the next unit. -/
theorem mem_mod97Values (rem : Nat) (s : CodeUnits) (n : Nat) :
    n ∈ mod97Values rem s ↔
      ∃ front back r, s = front ++ back ∧ mod97Loop rem front = some r ∧
        (n = r ∨ ∃ c rest, back = c :: rest ∧ 0 ≤ alnumValue c ∧
          (n = (alnumValue c).toNat ∨
            n = (if (alnumValue c).toNat < 10 then r * 10 else r * 100) ∨
            n = mod97Sum r (alnumValue c).toNat)) := by
  constructor
  · intro hn
    induction s generalizing rem with
    | nil => exact ⟨[], [], rem, rfl, rfl, .inl (List.mem_singleton.mp hn)⟩
    | cons c rest ih =>
        unfold mod97Values at hn
        by_cases hv : alnumValue c < 0
        · rw [if_pos hv] at hn
          exact ⟨[], c :: rest, rem, rfl, rfl, .inl (List.mem_singleton.mp hn)⟩
        · rw [if_neg hv] at hn
          have hpos : 0 ≤ alnumValue c := by omega
          simp only [List.mem_cons] at hn
          rcases hn with hn | hn | hn | hn | hn
          · exact ⟨[], c :: rest, rem, rfl, rfl, .inl hn⟩
          · exact ⟨[], c :: rest, rem, rfl, rfl, .inr ⟨c, rest, rfl, hpos, .inl hn⟩⟩
          · exact ⟨[], c :: rest, rem, rfl, rfl, .inr ⟨c, rest, rfl, hpos, .inr (.inl hn)⟩⟩
          · exact ⟨[], c :: rest, rem, rfl, rfl, .inr ⟨c, rest, rfl, hpos, .inr (.inr hn)⟩⟩
          · obtain ⟨front, back, r, rfl, hloop, hvalue⟩ := ih _ hn
            refine ⟨c :: front, back, r, rfl, ?_, hvalue⟩
            unfold mod97Loop
            rwa [if_neg hv]
  · rintro ⟨front, back, r, rfl, hloop, hvalue⟩
    induction front generalizing rem with
    | nil =>
        have hr : rem = r := Option.some.inj hloop
        subst hr
        rcases hvalue with rfl | ⟨c, rest, rfl, hpos, hvalue⟩
        · exact mem_mod97Values_start _ _
        · change n ∈ mod97Values rem (c :: rest)
          unfold mod97Values
          rw [if_neg (by omega)]
          simp only [List.mem_cons]
          rcases hvalue with rfl | rfl | rfl <;> simp
    | cons c front ih =>
        unfold mod97Loop at hloop
        change n ∈ mod97Values rem (c :: (front ++ back))
        unfold mod97Values
        by_cases hv : alnumValue c < 0
        · rw [if_pos hv] at hloop
          cases hloop
        · rw [if_neg hv] at hloop ⊢
          have hrest := ih _ hloop
          simp only [List.mem_cons]
          exact .inr (.inr (.inr (.inr hrest)))

theorem mod97Values_lt (rem : Nat) (s : CodeUnits) (hrem : rem < 97) :
    ∀ n ∈ mod97Values rem s, n < 2 ^ 53 := by
  intro n hn
  obtain ⟨front, back, r, -, hloop, hvalue⟩ := (mem_mod97Values rem s n).mp hn
  have hr := mod97Loop_lt rem front r hrem hloop
  rcases hvalue with rfl | ⟨c, rest, -, hpos, rfl | rfl | rfl⟩
  · omega
  · have hv := alnumValue_lt c
    omega
  · split <;> omega
  · have hv := alnumValue_lt c
    have hsum := mod97Sum_lt r (alnumValue c).toNat hr (by omega)
    omega

/-! ### What is detected -/

theorem scaleMod_ne_zero (c : UInt16) : scaleMod c ≠ 0 := by
  unfold scaleMod symbolScale
  split <;> decide

/-- Values of different letters and digits stay apart modulo 97. -/
theorem valueMod_ne (c c' : UInt16) (hc : isAlnum c = true) (hc' : isAlnum c' = true)
    (hne : symbolValue c ≠ symbolValue c') : valueMod c ≠ valueMod c' := by
  have hlt := symbolValue_lt c hc
  have hlt' := symbolValue_lt c' hc'
  unfold valueMod
  rw [ne_eq, ZMod.natCast_eq_natCast_iff', Nat.mod_eq_of_lt (by omega), Nat.mod_eq_of_lt (by omega)]
  exact hne

/-- A unit of the same width and another value is detected. -/
theorem iso7064_changed (front back : CodeUnits) (c c' : UInt16) (hc' : isAlnum c' = true)
    (hscale : symbolScale c = symbolScale c') (hne : symbolValue c ≠ symbolValue c')
    (hvalid : iso7064 (front ++ c :: back) "mod_97_10" = true) :
    iso7064 (front ++ c' :: back) "mod_97_10" = false := by
  obtain ⟨hall, hone⟩ := iso7064_residue _ hvalid
  have hc : isAlnum c = true := hall c (by simp)
  rw [Bool.eq_false_iff]
  intro hother
  obtain ⟨-, hone'⟩ := iso7064_residue _ hother
  apply horner_replace_ne scaleMod valueMod 0 front back c c' (congrArg Nat.cast hscale)
    (valueMod_ne c c' hc hc' hne) (fun x _ => scaleMod_ne_zero x)
  exact hone.trans hone'.symm

theorem digit_scale (c c' : UInt16) (hc : isDigit c = true) (hc' : isDigit c' = true) :
    symbolScale c = symbolScale c' := by
  unfold symbolScale
  rw [if_pos hc, if_pos hc']

theorem digit_value_ne (c c' : UInt16) (hc : isDigit c = true) (hc' : isDigit c' = true)
    (hne : c ≠ c') : symbolValue c ≠ symbolValue c' := by
  unfold symbolValue
  rw [if_pos hc, if_pos hc']
  exact fun h => hne (digitOf_injective c c' hc hc' h)

theorem digit_isAlnum (c : UInt16) (hc : isDigit c = true) : isAlnum c = true := by
  unfold isAlnum
  rw [hc, Bool.true_or]

theorem letter_isAlnum (c : UInt16) (hc : isLetter c = true) : isAlnum c = true := by
  unfold isAlnum
  rw [hc, Bool.or_true]

/-- What is expected of the check. -/
structure Mod97Laws : Prop where
  accepted : ∀ s, iso7064 s "mod_97_10" = true ↔
    s ≠ [] ∧ (∀ c ∈ s, isAlnum c = true) ∧ decimalNumber s % 97 = 1
  exact : ∀ s, ∀ n ∈ mod97Values 0 s, n < 2 ^ 53
  digitChanged : ∀ (front back : CodeUnits) (c c' : UInt16), isDigit c = true →
    isDigit c' = true → c ≠ c' → iso7064 (front ++ c :: back) "mod_97_10" = true →
    iso7064 (front ++ c' :: back) "mod_97_10" = false
  letterChanged : ∀ (front back : CodeUnits) (c c' : UInt16), isLetter c = true →
    isLetter c' = true → letterIndex c ≠ letterIndex c' →
    iso7064 (front ++ c :: back) "mod_97_10" = true →
    iso7064 (front ++ c' :: back) "mod_97_10" = false
  digitsSwapped : ∀ (front back : CodeUnits) (c c' : UInt16), isDigit c = true →
    isDigit c' = true → c ≠ c' → iso7064 (front ++ c :: c' :: back) "mod_97_10" = true →
    iso7064 (front ++ c' :: c :: back) "mod_97_10" = false

theorem mod97Laws : Mod97Laws := by
  refine ⟨iso7064_iff, fun s => mod97Values_lt 0 s (by decide), ?_, ?_, ?_⟩
  · intro front back c c' hc hc' hne hvalid
    exact iso7064_changed front back c c' (digit_isAlnum c' hc') (digit_scale c c' hc hc')
      (digit_value_ne c c' hc hc' hne) hvalid
  · intro front back c c' hc hc' hne hvalid
    have hscale : symbolScale c = symbolScale c' := by
      unfold symbolScale
      rw [letter_not_digit c hc, letter_not_digit c' hc']
    apply iso7064_changed front back c c' (letter_isAlnum c' hc') hscale _ hvalid
    unfold symbolValue
    rw [letter_not_digit c hc, letter_not_digit c' hc']
    exact fun h => hne (Nat.add_right_cancel h)
  · intro front back c c' hc hc' hne hvalid
    obtain ⟨-, hone⟩ := iso7064_residue _ hvalid
    rw [Bool.eq_false_iff]
    intro hother
    obtain ⟨-, hone'⟩ := iso7064_residue _ hother
    have hscale : scaleMod c ≠ 1 := by
      unfold scaleMod symbolScale
      rw [if_pos hc]
      decide
    apply horner_swap_ne scaleMod valueMod 0 front back c c'
      (congrArg Nat.cast (digit_scale c c' hc hc')) hscale
      (valueMod_ne c c' (digit_isAlnum c hc) (digit_isAlnum c' hc')
        (digit_value_ne c c' hc hc' hne)) (fun x _ => scaleMod_ne_zero x)
    exact hone.trans hone'.symm

end Runlet.Check
