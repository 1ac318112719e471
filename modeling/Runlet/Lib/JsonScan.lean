import Mathlib.Data.List.Basic

/-!
JSON values found in a text, character by character, with a stack of the arrays
and objects that are still open. Escapes in strings are passed over and not
decoded. Where a value ends does not depend on what follows it, but for a number,
which goes on as long as it can; and what happens inside an array or an object is
what happens to a value that stands alone.
-/

namespace Runlet.JsonScan

/-- What is open around a value. A name is open until its colon. -/
inductive Frame where
  | array
  | object
  | name
  deriving DecidableEq

inductive NumberPart where
  | minus
  | zero
  | integer
  | point
  | fraction
  | mark
  | sign
  | exponent
  deriving DecidableEq

inductive Mode where
  /-- A value is to come. -/
  | value
  /-- Behind `[`. -/
  | firstItem
  /-- Behind `{`. -/
  | firstName
  /-- Behind a comma of an object. -/
  | name
  /-- Behind a value. -/
  | after
  | text
  | escape
  /-- Digits still to come behind this one. -/
  | hex (left : Nat)
  | word (rest : List Char)
  | number (part : NumberPart)
  deriving DecidableEq

def isSpace (c : Char) : Bool := c == ' ' || c == '\n' || c == '\t' || c == '\r'

def isMark (c : Char) : Bool := c == 'e' || c == 'E'

def hexValue (c : Char) : Option Nat :=
  if '0' ≤ c ∧ c ≤ '9' then some (c.toNat - 48)
  else if 'a' ≤ c ∧ c ≤ 'f' then some (c.toNat - 87)
  else if 'A' ≤ c ∧ c ≤ 'F' then some (c.toNat - 55)
  else none

/-- How a number goes on. -/
def NumberPart.next : NumberPart → Char → Option NumberPart
  | .minus, c => if c = '0' then some .zero else if c.isDigit then some .integer else none
  | .zero, c => if c = '.' then some .point else if isMark c then some .mark else none
  | .integer, c =>
      if c.isDigit then some .integer
      else if c = '.' then some .point else if isMark c then some .mark else none
  | .point, c => if c.isDigit then some .fraction else none
  | .fraction, c => if c.isDigit then some .fraction else if isMark c then some .mark else none
  | .mark, c =>
      if c = '+' ∨ c = '-' then some .sign else if c.isDigit then some .exponent else none
  | .sign, c => if c.isDigit then some .exponent else none
  | .exponent, c => if c.isDigit then some .exponent else none

/-- Whether a number can end here. -/
def NumberPart.complete : NumberPart → Bool
  | .zero | .integer | .fraction | .exponent => true
  | .minus | .point | .mark | .sign => false

def Mode.complete : Mode → Bool
  | .number part => part.complete
  | _ => false

/-- The first character of a value. -/
def startValue (stack : List Frame) (c : Char) : Option (Mode × List Frame) :=
  if c = '"' then some (.text, stack)
  else if c = '[' then some (.firstItem, stack)
  else if c = '\x7b' then some (.firstName, stack)
  else if c = '-' then some (.number .minus, stack)
  else if c = '0' then some (.number .zero, stack)
  else if c.isDigit then some (.number .integer, stack)
  else if c = 't' then some (.word ['r', 'u', 'e'], stack)
  else if c = 'f' then some (.word ['a', 'l', 's', 'e'], stack)
  else if c = 'n' then some (.word ['u', 'l', 'l'], stack)
  else none

/-- A character behind a value, or behind a name. -/
def behind : List Frame → Char → Option (Mode × List Frame)
  | [], _ => none
  | frame :: rest, c =>
      if isSpace c then some (.after, frame :: rest)
      else
        match frame with
        | .array =>
            if c = ',' then some (.value, .array :: rest)
            else if c = ']' then some (.after, rest) else none
        | .object =>
            if c = ',' then some (.name, .object :: rest)
            else if c = '\x7d' then some (.after, rest) else none
        | .name => if c = ':' then some (.value, rest) else none

def step : Mode → List Frame → Char → Option (Mode × List Frame)
  | .value, stack, c => if isSpace c then some (.value, stack) else startValue stack c
  | .firstItem, stack, c =>
      if isSpace c then some (.firstItem, stack)
      else if c = ']' then some (.after, stack) else startValue (.array :: stack) c
  | .firstName, stack, c =>
      if isSpace c then some (.firstName, stack)
      else if c = '\x7d' then some (.after, stack)
      else if c = '"' then some (.text, .name :: .object :: stack) else none
  | .name, stack, c =>
      if isSpace c then some (.name, stack)
      else if c = '"' then some (.text, .name :: stack) else none
  | .after, stack, c => behind stack c
  | .text, stack, c =>
      if c = '"' then some (.after, stack)
      else if c = '\\' then some (.escape, stack)
      else if c.toNat < 32 then none else some (.text, stack)
  | .escape, stack, c =>
      if c = 'u' then some (.hex 3, stack)
      else if c ∈ ['"', '\\', '/', 'b', 'f', 'n', 'r', 't'] then some (.text, stack) else none
  | .hex left, stack, c =>
      if (hexValue c).isSome then
        match left with
        | 0 => some (.text, stack)
        | left + 1 => some (.hex left, stack)
      else none
  | .word rest, stack, c =>
      match rest with
      | [] => none
      | expected :: rest =>
          if c = expected then some (if rest = [] then .after else .word rest, stack) else none
  | .number part, stack, c =>
      match part.next c with
      | some part => some (.number part, stack)
      | none => if part.complete then behind stack c else none

/-- The text of the value that is being read, and what is behind it. -/
def takeValue : Mode → List Frame → List Char → Option (List Char × List Char)
  | mode, stack, [] => if stack = [] ∧ mode.complete then some ([], []) else none
  | mode, stack, c :: rest =>
      match step mode stack c with
      | none => if stack = [] ∧ mode.complete then some ([], c :: rest) else none
      | some (mode, stack) =>
          if mode = .after ∧ stack = [] then some ([c], rest)
          else (takeValue mode stack rest).map fun parts => (c :: parts.1, parts.2)

def skipSpace (cs : List Char) : List Char := cs.dropWhile isSpace

def scanValue (cs : List Char) : Option (List Char × List Char) :=
  takeValue .value [] (skipSpace cs)

/-- A text that is one value, with nothing around it. -/
def IsValue (cs : List Char) : Prop := scanValue cs = some (cs, [])

instance (cs : List Char) : Decidable (IsValue cs) :=
  inferInstanceAs (Decidable (scanValue cs = some (cs, [])))

/-! ### Where a value ends -/

/-- A text no number goes on with. -/
def Stops (cs : List Char) : Prop := ∀ c ∈ cs.head?, ∀ part : NumberPart, part.next c = none

theorem stops_nil : Stops [] := nofun

theorem stops_cons (c : Char) (cs : List Char) (hdigit : c.isDigit = false) (hmark : isMark c = false)
    (hother : c ∉ ['0', '.', '+', '-']) : Stops (c :: cs) := by
  intro c' hc' part
  obtain rfl := Option.some.inj hc'
  simp only [List.mem_cons, List.not_mem_nil, or_false, not_or] at hother
  obtain ⟨hzero, hpoint, hplus, hminus⟩ := hother
  cases part <;> simp [NumberPart.next, hdigit, hmark, hzero, hpoint, hplus, hminus]

/-- A step that does not end the value. -/
theorem takeValue_step (mode next : Mode) (stack inner : List Frame) (c : Char) (cs : List Char)
    (hstep : step mode stack c = some (next, inner)) (hopen : ¬(next = .after ∧ inner = [])) :
    takeValue mode stack (c :: cs) =
      (takeValue next inner cs).map fun parts => (c :: parts.1, parts.2) := by
  rw [takeValue, hstep]
  exact if_neg hopen

/-- How a value is read: it ends before what it cannot take, it ends with the character it
takes, or it goes on. -/
inductive Takes : Mode → List Frame → List Char → List Char → List Char → Prop where
  | ends (mode : Mode) (cs : List Char) (hcomplete : mode.complete = true)
      (hstop : ∀ c ∈ cs.head?, step mode [] c = none) : Takes mode [] cs [] cs
  | done (mode : Mode) (stack : List Frame) (c : Char) (cs : List Char)
      (hstep : step mode stack c = some (.after, [])) : Takes mode stack (c :: cs) [c] cs
  | goes (mode next : Mode) (stack inner : List Frame) (c : Char) (cs text rest : List Char)
      (hstep : step mode stack c = some (next, inner)) (hopen : ¬(next = .after ∧ inner = []))
      (h : Takes next inner cs text rest) : Takes mode stack (c :: cs) (c :: text) rest

theorem takes_of_takeValue (mode : Mode) (stack : List Frame) (cs text rest : List Char)
    (h : takeValue mode stack cs = some (text, rest)) : Takes mode stack cs text rest := by
  induction cs generalizing mode stack text with
  | nil =>
      unfold takeValue at h
      split at h
      · rename_i hempty
        cases h
        obtain ⟨rfl, hcomplete⟩ := hempty
        exact .ends mode [] hcomplete nofun
      · cases h
  | cons c cs ih =>
      unfold takeValue at h
      cases hstep : step mode stack c with
      | none =>
          rw [hstep] at h
          dsimp only at h
          split at h
          · rename_i hempty
            cases h
            obtain ⟨rfl, hcomplete⟩ := hempty
            apply Takes.ends mode (c :: cs) hcomplete
            intro c' hc'
            rw [← Option.some.inj hc', hstep]
          · cases h
      | some state =>
          rw [hstep] at h
          dsimp only at h
          split at h
          · rename_i hdone
            cases h
            apply Takes.done
            rw [hstep, ← hdone.1, ← hdone.2]
          · rename_i hopen
            obtain ⟨parts, hparts, heq⟩ := Option.map_eq_some_iff.mp h
            obtain ⟨rfl, rfl⟩ := Prod.mk.inj heq
            exact .goes mode state.1 stack state.2 c cs parts.1 parts.2 hstep hopen
              (ih _ _ _ hparts)

theorem Takes.takeValue {mode : Mode} {stack : List Frame} {cs text rest : List Char}
    (h : Takes mode stack cs text rest) : takeValue mode stack cs = some (text, rest) := by
  induction h with
  | ends mode cs hcomplete hstop =>
      cases cs with
      | nil => exact if_pos ⟨rfl, hcomplete⟩
      | cons c cs =>
          rw [JsonScan.takeValue, hstop c rfl]
          exact if_pos ⟨rfl, hcomplete⟩
  | done mode stack c cs hstep =>
      rw [JsonScan.takeValue, hstep]
      exact if_pos ⟨rfl, rfl⟩
  | goes mode next stack inner c cs text rest hstep hopen h ih =>
      rw [takeValue_step mode next stack inner c cs hstep hopen, ih]
      rfl

theorem Takes.append {mode : Mode} {stack : List Frame} {cs text rest : List Char}
    (h : Takes mode stack cs text rest) : cs = text ++ rest := by
  induction h with
  | ends mode cs hcomplete hstop => rfl
  | done mode stack c cs hstep => rfl
  | goes mode next stack inner c cs text rest hstep hopen h ih =>
      rw [List.cons_append, ← ih]

/-- A number that cannot go on ends. -/
theorem step_complete (mode : Mode) (c : Char) (hcomplete : mode.complete = true)
    (hstop : ∀ part : NumberPart, part.next c = none) : step mode [] c = none := by
  cases mode with
  | number part =>
      unfold step
      dsimp only
      rw [hstop part]
      exact ite_self _
  | _ => cases hcomplete

/-- A value ends where it did with anything behind it that no number goes on with. -/
theorem Takes.local {mode : Mode} {stack : List Frame} {cs text rest : List Char}
    (h : Takes mode stack cs text rest) (other : List Char) (hother : Stops other) :
    Takes mode stack (text ++ other) text other := by
  induction h with
  | ends mode cs hcomplete hstop =>
      apply Takes.ends mode other hcomplete
      intro c hc
      exact step_complete mode c hcomplete (hother c hc)
  | done mode stack c cs hstep => exact .done mode stack c other hstep
  | goes mode next stack inner c cs text rest hstep hopen h ih =>
      exact .goes mode next stack inner c (text ++ other) text other hstep hopen ih

/-! ### Values within what is open -/

/-- More around what is open. -/
def within (base : List Frame) (state : Mode × List Frame) : Mode × List Frame :=
  (state.1, state.2 ++ base)

theorem startValue_within (stack base : List Frame) (c : Char) :
    startValue (stack ++ base) c = (startValue stack c).map (within base) := by
  unfold startValue
  simp only [apply_ite (Option.map (within base)), Option.map_some, Option.map_none, within]

theorem behind_within (stack base : List Frame) (c : Char) (hopen : stack ≠ []) :
    behind (stack ++ base) c = (behind stack c).map (within base) := by
  cases stack with
  | nil => exact absurd rfl hopen
  | cons frame rest =>
      rw [List.cons_append]
      unfold behind
      cases frame <;>
        simp only [apply_ite (Option.map (within base)), Option.map_some, Option.map_none, within,
          List.cons_append]

/-- One step does not see what is around, unless the value has ended. -/
theorem step_within (mode : Mode) (stack base : List Frame) (c : Char)
    (hopen : stack = [] → mode ≠ .after ∧ (mode.complete = true → (step mode [] c).isSome)) :
    step mode (stack ++ base) c = (step mode stack c).map (within base) := by
  have hstart := startValue_within stack base c
  have hitem := startValue_within (.array :: stack) base c
  cases mode with
  | after =>
      unfold step
      apply behind_within
      exact fun hempty => (hopen hempty).1 rfl
  | number part =>
      unfold step at hopen ⊢
      dsimp only at hopen ⊢
      cases hnext : part.next c with
      | some next => rfl
      | none =>
          rw [hnext] at hopen
          dsimp only at hopen ⊢
          cases hcomplete : part.complete with
          | false => rfl
          | true =>
              rw [hcomplete] at hopen
              rw [if_pos rfl, if_pos rfl]
              apply behind_within
              intro hempty
              cases (hopen hempty).2 hcomplete
  | hex left =>
      unfold step
      cases left <;>
        simp only [apply_ite (Option.map (within base)), Option.map_some, Option.map_none, within]
  | word rest =>
      unfold step
      cases rest <;>
        simp only [apply_ite (Option.map (within base)), Option.map_some, Option.map_none, within]
  | value =>
      unfold step
      simp only [hstart, apply_ite (Option.map (within base)), Option.map_some, within]
  | firstItem =>
      rw [List.cons_append] at hitem
      unfold step
      simp only [hitem, apply_ite (Option.map (within base)), Option.map_some, within]
  | _ =>
      unfold step
      simp only [apply_ite (Option.map (within base)), Option.map_some, Option.map_none, within,
        List.cons_append]

/-- A number ends where the frame around it sees a character it cannot take. -/
theorem step_ended (mode : Mode) (frame : Frame) (base : List Frame) (c : Char)
    (hcomplete : mode.complete = true) (hnone : step mode [] c = none) :
    step mode (frame :: base) c = step .after (frame :: base) c := by
  cases mode with
  | number part =>
      unfold step at hnone ⊢
      dsimp only at hnone ⊢
      cases hnext : part.next c with
      | some next =>
          rw [hnext] at hnone
          cases hnone
      | none => exact if_pos hcomplete
  | _ => cases hcomplete

/-- A step within a frame is one of the value, or the value has ended and the frame sees the
character. -/
theorem step_inside (mode : Mode) (stack : List Frame) (frame : Frame) (base : List Frame) (c : Char)
    (hmode : ¬(mode = .after ∧ stack = [])) :
    (stack = [] ∧ mode.complete = true ∧ step mode [] c = none ∧
        step mode (stack ++ frame :: base) c = step .after (frame :: base) c) ∨
      step mode (stack ++ frame :: base) c = (step mode stack c).map (within (frame :: base)) := by
  by_cases hended : stack = [] ∧ mode.complete = true ∧ step mode [] c = none
  · obtain ⟨rfl, hcomplete, hnone⟩ := hended
    exact .inl ⟨rfl, hcomplete, hnone, step_ended mode frame base c hcomplete hnone⟩
  · right
    apply step_within
    rintro rfl
    refine ⟨fun hafter => hmode ⟨hafter, rfl⟩, ?_⟩
    intro hcomplete
    apply Option.isSome_iff_ne_none.mpr
    exact fun hnone => hended ⟨rfl, hcomplete, hnone⟩

theorem ends_before (mode : Mode) (c : Char) (cs : List Char) (hcomplete : mode.complete = true)
    (hnone : step mode [] c = none) : Takes mode [] (c :: cs) [] (c :: cs) := by
  apply Takes.ends mode (c :: cs) hcomplete
  intro c' hc'
  rw [← Option.some.inj hc', hnone]

/-- What is read within a frame is a value, and then what follows it in the frame. -/
theorem Takes.within {cs text rest : List Char} (mode : Mode) (stack : List Frame) (frame : Frame)
    (base : List Frame) (hmode : ¬(mode = .after ∧ stack = []))
    (h : Takes mode (stack ++ frame :: base) cs text rest) :
    ∃ inner behind others, Takes mode stack cs inner behind ∧
      Takes .after (frame :: base) behind others rest ∧ text = inner ++ others := by
  have hbase (stack : List Frame) : stack ++ frame :: base ≠ [] := by
    intro hnil
    cases (List.append_eq_nil_iff.mp hnil).2
  generalize houter : stack ++ frame :: base = outer at h
  induction h generalizing stack with
  | ends mode cs hcomplete hstop => exact absurd houter (hbase stack)
  | done mode outer c cs hstep =>
      subst houter
      rcases step_inside mode stack frame base c hmode with ⟨rfl, hcomplete, hnone, hsame⟩ | hsame
      · exact ⟨[], c :: cs, [c], ends_before mode c cs hcomplete hnone,
          .done .after _ c cs (hsame.symm.trans hstep), rfl⟩
      · -- the frame is still open
        rw [hsame] at hstep
        obtain ⟨state, -, hstate⟩ := Option.map_eq_some_iff.mp hstep
        exact absurd (Prod.mk.inj hstate).2 (hbase state.2)
  | goes mode next outer inner c cs text rest hstep hopen h ih =>
      subst houter
      rcases step_inside mode stack frame base c hmode with ⟨rfl, hcomplete, hnone, hsame⟩ | hsame
      · exact ⟨[], c :: cs, c :: text, ends_before mode c cs hcomplete hnone,
          .goes .after next _ inner c cs text rest (hsame.symm.trans hstep) hopen h, rfl⟩
      · rw [hsame] at hstep
        obtain ⟨state, hstate, heq⟩ := Option.map_eq_some_iff.mp hstep
        obtain ⟨rfl, rfl⟩ := Prod.mk.inj heq
        by_cases hdone : state.1 = .after ∧ state.2 = []
        · refine ⟨[c], cs, text, ?_, ?_, rfl⟩
          · apply Takes.done
            rw [hstate, ← hdone.1, ← hdone.2]
          · rw [hdone.1, hdone.2] at h
            exact h
        · obtain ⟨value, behind, others, hvalue, hothers, htext⟩ := ih state.2 hdone rfl
          refine ⟨c :: value, behind, others, ?_, hothers, ?_⟩
          · exact .goes mode state.1 stack state.2 c cs value behind hstate hdone hvalue
          · rw [htext, List.cons_append]

end Runlet.JsonScan
