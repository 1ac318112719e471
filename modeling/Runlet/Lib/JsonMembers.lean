import Runlet.Lib.JsonScan

/-!
JSON objects as the raw names and value texts of their members. What is written is
read back, and every text that is one value and starts with a brace is an object.
Names are decoded apart from that, since an escape of half a surrogate pair stands
for no character.
-/

namespace Runlet.JsonScan

/-! ### Reading -/

/-- The value of a text that has nothing but space around it. -/
def readJson (cs : List Char) : Option (List Char) := do
  let (value, rest) ← scanValue cs
  if skipSpace rest = [] then some value else none

def expect (c : Char) (cs : List Char) : Option (List Char) :=
  match skipSpace cs with
  | [] => none
  | d :: rest => if d = c then some rest else none

/-- A name is a value that starts with a quotation mark. -/
def scanName (cs : List Char) : Option (List Char × List Char) :=
  if (skipSpace cs).head? = some '"' then scanValue cs else none

/-- A name, a colon and a value. -/
def readMember (cs : List Char) : Option ((List Char × List Char) × List Char) := do
  let (name, cs) ← scanName cs
  let cs ← expect ':' cs
  let (value, cs) ← scanValue cs
  pure ((name, value), cs)

/-- Members and the text behind the closing brace, with a bound on their number. -/
def readMembers : Nat → List Char → Option (List (List Char × List Char) × List Char)
  | 0, _ => none
  | bound + 1, cs => do
      let (member, cs) ← readMember cs
      match skipSpace cs with
      | [] => none
      | c :: cs =>
          if c = ',' then (readMembers bound cs).map fun parts => (member :: parts.1, parts.2)
          else if c = '\x7d' then some ([member], cs) else none

/-- The members of a text that is an object. -/
def readObject (cs : List Char) : Option (List (List Char × List Char)) := do
  let cs ← expect '\x7b' cs
  match skipSpace cs with
  | [] => none
  | c :: cs =>
      if c = '\x7d' then if skipSpace cs = [] then some [] else none
      else do
        let (members, rest) ← readMembers (c :: cs).length (c :: cs)
        if skipSpace rest = [] then some members else none

/-! ### Values -/

theorem skipSpace_cons (c : Char) (cs : List Char) (hc : isSpace c = false) :
    skipSpace (c :: cs) = c :: cs := List.dropWhile_cons_of_neg (by rw [hc]; exact Bool.false_ne_true)

theorem skipSpace_head (cs rest : List Char) (c : Char) (h : skipSpace cs = c :: rest) :
    isSpace c = false := by
  have hhead := List.head?_dropWhile_not isSpace cs
  unfold skipSpace at h
  rwa [h] at hhead

/-- Where a value is still to come something is read. -/
theorem Takes.cons {mode : Mode} {stack : List Frame} {cs text rest : List Char}
    (h : Takes mode stack cs text rest) (hmode : mode.complete = false) :
    ∃ c tail, text = c :: tail := by
  cases h with
  | ends _ _ hcomplete _ =>
      rw [hmode] at hcomplete
      cases hcomplete
  | done _ _ c _ _ => exact ⟨c, [], rfl⟩
  | goes _ _ _ _ c _ text _ _ _ _ => exact ⟨c, text, rfl⟩

/-- A value that was found is one by itself, and starts where the space ends. -/
theorem scanValue_some (cs value rest : List Char) (h : scanValue cs = some (value, rest)) :
    IsValue value ∧ ∃ c tail, value = c :: tail ∧ isSpace c = false ∧
      skipSpace cs = c :: (tail ++ rest) := by
  have htakes := takes_of_takeValue .value [] _ _ _ h
  obtain ⟨c, tail, rfl⟩ := htakes.cons rfl
  have hsplit := htakes.append
  have hspace := skipSpace_head cs _ c hsplit
  refine ⟨?_, c, tail, rfl, hspace, hsplit⟩
  have halone := (htakes.local [] stops_nil).takeValue
  rw [List.append_nil] at halone
  unfold IsValue scanValue
  rwa [skipSpace_cons c tail hspace]

theorem IsValue.head {value : List Char} (h : IsValue value) :
    ∃ c tail, value = c :: tail ∧ isSpace c = false := by
  obtain ⟨-, c, tail, hvalue, hspace, -⟩ := scanValue_some value value [] h
  exact ⟨c, tail, hvalue, hspace⟩

/-- A value is found with anything behind it that no number goes on with. -/
theorem IsValue.scan {value : List Char} (h : IsValue value) (other : List Char)
    (hother : Stops other) : scanValue (value ++ other) = some (value, other) := by
  obtain ⟨c, tail, rfl, hspace⟩ := h.head
  unfold IsValue scanValue at h
  rw [skipSpace_cons c tail hspace] at h
  unfold scanValue
  rw [List.cons_append, skipSpace_cons c _ hspace]
  exact ((takes_of_takeValue .value [] _ _ _ h).local other hother).takeValue

theorem IsValue.readJson {value : List Char} (h : IsValue value) :
    JsonScan.readJson value = some value := by
  unfold JsonScan.readJson
  rw [h]
  rfl

theorem readJson_isValue (cs value : List Char) (h : readJson cs = some value) : IsValue value := by
  unfold readJson at h
  obtain ⟨⟨text, rest⟩, hscan, hvalue⟩ := Option.bind_eq_some_iff.mp h
  dsimp only at hvalue
  split at hvalue
  · cases hvalue
    exact (scanValue_some cs _ _ hscan).1
  · cases hvalue

/-! ### Writing -/

def writeMembers : List (List Char × List Char) → List Char
  | [] => []
  | [(name, value)] => name ++ ':' :: value
  | (name, value) :: rest => name ++ ':' :: (value ++ ',' :: writeMembers rest)

theorem writeMembers_cons (member next : List Char × List Char)
    (rest : List (List Char × List Char)) :
    writeMembers (member :: next :: rest) =
      member.1 ++ ':' :: (member.2 ++ ',' :: writeMembers (next :: rest)) := rfl

def writeObject (members : List (List Char × List Char)) : List Char :=
  '\x7b' :: (writeMembers members ++ ['\x7d'])

/-- A name and a value as they can be written. -/
structure IsMember (member : List Char × List Char) : Prop where
  name : IsValue member.1
  quoted : member.1.head? = some '"'
  value : IsValue member.2

/-- A colon, a comma and a closing brace end every number. -/
theorem stops_mark (c : Char) (cs : List Char) (hc : c ∈ [':', ',', '\x7d']) : Stops (c :: cs) := by
  simp only [List.mem_cons, List.not_mem_nil, or_false] at hc
  rcases hc with rfl | rfl | rfl <;> exact stops_cons _ cs (by decide) (by decide) (by decide)

theorem expect_cons (c : Char) (cs : List Char) (hspace : isSpace c = false) :
    expect c (c :: cs) = some cs := by
  unfold expect
  rw [skipSpace_cons c cs hspace]
  exact if_pos rfl

/-- One member read from where it was written. -/
theorem IsMember.read {member : List Char × List Char} (h : IsMember member) (rest : List Char)
    (hrest : Stops rest) :
    readMember (member.1 ++ ':' :: (member.2 ++ rest)) = some (member, rest) := by
  have hname : scanName (member.1 ++ ':' :: (member.2 ++ rest)) =
      some (member.1, ':' :: (member.2 ++ rest)) := by
    obtain ⟨c, tail, hname, hspace⟩ := h.name.head
    have hquoted := h.quoted
    have hscan := h.name.scan _ (stops_mark ':' (member.2 ++ rest) (List.mem_cons_self ..))
    rw [hname] at hquoted hscan ⊢
    rw [List.cons_append] at hscan ⊢
    unfold scanName
    rw [skipSpace_cons c _ hspace, hscan]
    exact if_pos hquoted
  unfold readMember
  rw [hname, Option.bind_eq_bind, Option.bind_some]
  dsimp only
  rw [expect_cons ':' _ (by decide), Option.bind_eq_bind, Option.bind_some,
    h.value.scan rest hrest]
  rfl

theorem readMembers_write (members : List (List Char × List Char)) (hne : members ≠ [])
    (h : ∀ member ∈ members, IsMember member) (bound : Nat) (hbound : members.length ≤ bound) :
    readMembers bound (writeMembers members ++ ['\x7d']) = some (members, []) := by
  induction members generalizing bound with
  | nil => exact absurd rfl hne
  | cons member rest ih =>
      obtain ⟨hmember, hrest⟩ := List.forall_mem_cons.mp h
      obtain ⟨bound, rfl⟩ := Nat.exists_eq_succ_of_ne_zero (Nat.ne_of_gt (Nat.lt_of_lt_of_le
        (Nat.succ_pos rest.length) hbound))
      cases rest with
      | nil =>
          have hread := hmember.read ['\x7d'] (stops_mark _ _ (by decide))
          rw [writeMembers, List.append_assoc, List.cons_append, readMembers, hread]
          rfl
      | cons next rest =>
          have hread := hmember.read (',' :: (writeMembers (next :: rest) ++ ['\x7d']))
            (stops_mark _ _ (by decide))
          rw [writeMembers_cons, List.append_assoc, List.cons_append, List.append_assoc,
            List.cons_append, readMembers, hread, Option.bind_eq_bind, Option.bind_some]
          dsimp only
          rw [skipSpace_cons ',' _ (by decide)]
          dsimp only
          rw [if_pos rfl, ih (List.cons_ne_nil _ _) hrest bound (Nat.le_of_succ_le_succ hbound)]
          rfl

theorem length_writeMembers (members : List (List Char × List Char)) :
    members.length ≤ (writeMembers members ++ ['\x7d']).length := by
  induction members with
  | nil => exact Nat.zero_le _
  | cons member rest ih =>
      cases rest with
      | nil =>
          rw [writeMembers]
          simp only [List.length_append, List.length_cons, List.length_nil]
          omega
      | cons next rest =>
          rw [writeMembers_cons]
          simp only [List.length_append, List.length_cons, List.length_nil] at ih ⊢
          omega

/-- What is written is read back. -/
theorem readObject_write (members : List (List Char × List Char))
    (h : ∀ member ∈ members, IsMember member) :
    readObject (writeObject members) = some members := by
  unfold readObject writeObject
  rw [expect_cons _ _ (by decide), Option.bind_eq_bind, Option.bind_some]
  cases members with
  | nil => rfl
  | cons member rest =>
      have hread := readMembers_write (member :: rest) (List.cons_ne_nil _ _) h _
        (length_writeMembers _)
      -- a member starts with the quotation mark of its name
      obtain ⟨c, tail, hname, hspace⟩ := (h member (List.mem_cons_self ..)).name.head
      have hquoted := (h member (List.mem_cons_self ..)).quoted
      rw [hname] at hquoted
      obtain rfl := Option.some.inj hquoted
      obtain ⟨more, hmore⟩ : ∃ more, writeMembers (member :: rest) ++ ['\x7d'] = '"' :: more := by
        cases rest with
        | nil =>
            rw [writeMembers, hname]
            exact ⟨_, rfl⟩
        | cons next rest =>
            rw [writeMembers_cons, hname]
            exact ⟨_, rfl⟩
      rw [hmore] at hread ⊢
      rw [skipSpace_cons _ _ hspace]
      dsimp only
      rw [if_neg (by decide), hread]
      rfl

/-! ### Every value in braces is an object -/

/-- One step that does not end the value. -/
theorem Takes.step {mode next : Mode} {stack inner : List Frame} {c : Char}
    {cs text rest : List Char} (h : Takes mode stack (c :: cs) text rest)
    (hstep : step mode stack c = some (next, inner)) (hopen : ¬(next = .after ∧ inner = [])) :
    ∃ text, Takes next inner cs text rest := by
  cases h with
  | ends _ _ _ hstop =>
      rw [hstop c rfl] at hstep
      cases hstep
  | done _ _ _ _ hdone =>
      rw [hdone] at hstep
      obtain ⟨rfl, rfl⟩ := Prod.mk.inj (Option.some.inj hstep)
      exact absurd ⟨rfl, rfl⟩ hopen
  | goes _ _ _ _ _ _ text _ hgoes _ h =>
      rw [hgoes] at hstep
      obtain ⟨rfl, rfl⟩ := Prod.mk.inj (Option.some.inj hstep)
      exact ⟨text, h⟩

/-- The step that ends the value. -/
theorem Takes.close {mode : Mode} {stack : List Frame} {c : Char} {cs text rest : List Char}
    (h : Takes mode stack (c :: cs) text rest)
    (hstep : JsonScan.step mode stack c = some (.after, [])) : rest = cs := by
  cases h with
  | ends _ _ _ hstop =>
      rw [hstop c rfl] at hstep
      cases hstep
  | done => rfl
  | goes _ _ _ _ _ _ _ _ hgoes hopen _ =>
      rw [hgoes] at hstep
      exact absurd (Prod.mk.inj (Option.some.inj hstep)) hopen

/-- Space is passed over where a mode waits for a character. -/
theorem Takes.skip {mode : Mode} {stack : List Frame} {cs text rest : List Char}
    (h : Takes mode stack cs text rest)
    (hwaits : ∀ c, isSpace c = true → JsonScan.step mode stack c = some (mode, stack))
    (hopen : ¬(mode = .after ∧ stack = [])) :
    ∃ text, Takes mode stack (skipSpace cs) text rest := by
  induction cs generalizing text with
  | nil => exact ⟨text, h⟩
  | cons c cs ih =>
      cases hspace : isSpace c with
      | false =>
          rw [skipSpace_cons c cs hspace]
          exact ⟨text, h⟩
      | true =>
          obtain ⟨text, htail⟩ := h.step (hwaits c hspace) hopen
          have hskip : skipSpace (c :: cs) = skipSpace cs := List.dropWhile_cons_of_pos hspace
          rw [hskip]
          exact ih htail

/-- A character that is waited for, behind the space. -/
theorem Takes.head {mode : Mode} {stack : List Frame} {cs text rest : List Char}
    (h : Takes mode stack cs text rest) (hmode : mode.complete = false)
    (hwaits : ∀ c, isSpace c = true → JsonScan.step mode stack c = some (mode, stack))
    (hopen : ¬(mode = .after ∧ stack = [])) :
    ∃ c tail text, skipSpace cs = c :: tail ∧ isSpace c = false ∧
      Takes mode stack (c :: tail) text rest ∧ (JsonScan.step mode stack c).isSome = true := by
  obtain ⟨text, hskip⟩ := h.skip hwaits hopen
  obtain ⟨c, tail, rfl⟩ := hskip.cons hmode
  cases hcs : skipSpace cs with
  | nil => cases hskip.append.symm.trans hcs
  | cons c' behind =>
      rw [hcs] at hskip
      refine ⟨c', behind, _, rfl, skipSpace_head cs behind c' hcs, hskip, ?_⟩
      cases hskip with
      | done _ _ _ _ hstep => rw [hstep, Option.isSome_some]
      | goes _ _ _ _ _ _ _ _ hstep _ _ => rw [hstep, Option.isSome_some]

theorem step_name (stack : List Frame) (c : Char) : step .name stack c =
    if isSpace c then some (.name, stack)
    else if c = '"' then some (.text, .name :: stack) else none := rfl

theorem step_firstName (stack : List Frame) (c : Char) : step .firstName stack c =
    if isSpace c then some (.firstName, stack)
    else if c = '\x7d' then some (.after, stack)
    else if c = '"' then some (.text, .name :: .object :: stack) else none := rfl

theorem step_after_name (base : List Frame) (c : Char) : step .after (.name :: base) c =
    if isSpace c then some (.after, .name :: base)
    else if c = ':' then some (.value, base) else none := rfl

theorem step_after_object (base : List Frame) (c : Char) : step .after (.object :: base) c =
    if isSpace c then some (.after, .object :: base)
    else if c = ',' then some (.name, .object :: base)
    else if c = '\x7d' then some (.after, base) else none := rfl

theorem step_open (stack : List Frame) :
    step .value stack '\x7b' = some (.firstName, stack) := rfl

theorem step_quote (base : List Frame) : step .name base '"' = some (.text, .name :: base) := rfl

theorem step_firstQuote (base : List Frame) :
    step .firstName base '"' = some (.text, .name :: .object :: base) := rfl

theorem step_colon (base : List Frame) : step .after (.name :: base) ':' = some (.value, base) := rfl

theorem step_comma (base : List Frame) :
    step .after (.object :: base) ',' = some (.name, .object :: base) := rfl

theorem step_brace (base : List Frame) :
    step .after (.object :: base) '\x7d' = some (.after, base) := rfl

theorem step_firstBrace (base : List Frame) :
    step .firstName base '\x7d' = some (.after, base) := rfl

theorem length_skipSpace_le (cs : List Char) : (skipSpace cs).length ≤ cs.length :=
  (List.dropWhile_sublist isSpace).length_le

/-- A name that is being read within its object, and what is behind it. -/
theorem scanName_of_takes {base : List Frame} {cs text rest : List Char}
    (h : Takes .name base cs text rest) :
    ∃ name behind text, scanName cs = some (name, behind) ∧ behind.length < cs.length ∧
      Takes .after (.name :: base) behind text rest := by
  obtain ⟨c, tail, text, hcs, hspace, htakes, hstep⟩ := h.head rfl (fun c hc => if_pos hc) nofun
  rw [step_name, hspace, if_neg Bool.false_ne_true, Option.isSome_ite] at hstep
  obtain rfl := hstep
  obtain ⟨text, htext⟩ := htakes.step (step_quote base) nofun
  obtain ⟨inner, behind, others, hname, hbehind, -⟩ := htext.within .text [] .name base nofun
  refine ⟨'"' :: inner, behind, others, ?_, ?_, hbehind⟩
  · unfold scanName scanValue
    rw [hcs, takeValue_step .value .text [] [] '"' tail (by decide) nofun, hname.takeValue]
    rfl
  · have hlength := congrArg List.length hname.append
    have hskip := length_skipSpace_le cs
    rw [hcs] at hskip
    simp only [List.length_append, List.length_cons] at hlength hskip
    omega

/-- The value of a member, behind the colon. -/
theorem scanMemberValue_of_takes {base : List Frame} {cs text rest : List Char}
    (h : Takes .after (.name :: .object :: base) cs text rest) :
    ∃ colon value behind text, expect ':' cs = some colon ∧
      scanValue colon = some (value, behind) ∧ behind.length < cs.length ∧
      Takes .after (.object :: base) behind text rest := by
  obtain ⟨c, colon, text, hcs, hspace, htakes, hstep⟩ := h.head rfl (fun c hc => if_pos hc) nofun
  rw [step_after_name, hspace, if_neg Bool.false_ne_true, Option.isSome_ite] at hstep
  obtain rfl := hstep
  obtain ⟨text, hvalue⟩ := htakes.step (step_colon (.object :: base)) nofun
  obtain ⟨text, hvalue⟩ := hvalue.skip (fun c hc => if_pos hc) nofun
  obtain ⟨value, behind, others, hfound, hbehind, -⟩ :=
    hvalue.within .value [] .object base nofun
  refine ⟨colon, value, behind, others, ?_, hfound.takeValue, ?_, hbehind⟩
  · unfold expect
    rw [hcs]
    exact if_pos rfl
  · have hlength := congrArg List.length hfound.append
    have hskip := length_skipSpace_le cs
    have hinner := length_skipSpace_le colon
    rw [hcs] at hskip
    simp only [List.length_append, List.length_cons] at hlength hskip
    omega

/-- A member of an object that is being read. -/
theorem readMember_of_takes {base : List Frame} {cs text rest : List Char}
    (h : Takes .name (.object :: base) cs text rest) :
    ∃ member behind text, readMember cs = some (member, behind) ∧
      behind.length < cs.length ∧ Takes .after (.object :: base) behind text rest := by
  obtain ⟨name, afterName, text, hname, hshorter, hafter⟩ := scanName_of_takes h
  obtain ⟨colon, value, behind, text, hcolon, hvalue, hrest, hbehind⟩ :=
    scanMemberValue_of_takes hafter
  refine ⟨(name, value), behind, text, ?_, Nat.lt_trans hrest hshorter, hbehind⟩
  unfold readMember
  rw [hname, Option.bind_eq_bind, Option.bind_some]
  dsimp only
  rw [hcolon, Option.bind_eq_bind, Option.bind_some, hvalue]
  rfl

theorem readMembers_of_takes (bound : Nat) {cs text rest : List Char} (hbound : cs.length ≤ bound)
    (h : Takes .name [.object] cs text rest) :
    ∃ members, readMembers bound cs = some (members, rest) := by
  induction bound generalizing cs text with
  | zero =>
      obtain ⟨member, behind, text, hread, hshorter, hbehind⟩ := readMember_of_takes h
      exact absurd (Nat.lt_of_lt_of_le hshorter hbound) (Nat.not_lt_zero _)
  | succ bound ih =>
      obtain ⟨member, behind, text, hread, hshorter, hbehind⟩ := readMember_of_takes h
      obtain ⟨c, tail, text, hcs, hspace, htakes, hstep⟩ :=
        hbehind.head rfl (fun c hc => if_pos hc) nofun
      have hlength := length_skipSpace_le behind
      rw [hcs, List.length_cons] at hlength
      rw [readMembers, hread, Option.bind_eq_bind, Option.bind_some]
      dsimp only
      rw [hcs]
      dsimp only
      by_cases hcomma : c = ','
      · obtain rfl := hcomma
        obtain ⟨text, hnext⟩ := htakes.step (step_comma []) nofun
        obtain ⟨members, hmembers⟩ := ih (by omega) hnext
        rw [if_pos rfl, hmembers]
        exact ⟨_, rfl⟩
      · rw [step_after_object, hspace, if_neg Bool.false_ne_true, if_neg hcomma,
          Option.isSome_ite] at hstep
        obtain rfl := hstep
        rw [if_neg hcomma, if_pos rfl, htakes.close (step_brace [])]
        exact ⟨_, rfl⟩

/-- A value that starts with a brace is an object. -/
theorem IsValue.object {value : List Char} (h : IsValue value) (hbrace : value.head? = some '\x7b') :
    ∃ members, readObject value = some members := by
  obtain ⟨c, cs, rfl, hspace⟩ := h.head
  obtain rfl := Option.some.inj hbrace
  unfold IsValue scanValue at h
  rw [skipSpace_cons _ cs hspace] at h
  obtain ⟨text, hinside⟩ := (takes_of_takeValue .value [] _ _ _ h).step (step_open []) nofun
  obtain ⟨c, tail, text, hcs, hspace', htakes, hstep⟩ :=
    hinside.head rfl (fun c hc => if_pos hc) nofun
  unfold readObject
  rw [expect_cons _ cs hspace, Option.bind_eq_bind, Option.bind_some, hcs]
  dsimp only
  by_cases hclose : c = '\x7d'
  · obtain rfl := hclose
    rw [if_pos rfl, ← htakes.close (step_firstBrace [])]
    exact ⟨[], rfl⟩
  · rw [step_firstName, hspace', if_neg Bool.false_ne_true, if_neg hclose,
      Option.isSome_ite] at hstep
    obtain rfl := hstep
    -- behind the brace a name is read as it is behind a comma
    obtain ⟨text, htext⟩ := htakes.step (step_firstQuote []) nofun
    have hname := Takes.goes .name .text [.object] _ '"' tail text [] (step_quote [.object]) nofun htext
    obtain ⟨members, hmembers⟩ := readMembers_of_takes _ (Nat.le_refl _) hname
    rw [if_neg hclose, hmembers]
    exact ⟨members, rfl⟩

/-- Nothing else is an object. -/
theorem readObject_head (cs : List Char) (members : List (List Char × List Char))
    (h : readObject cs = some members) : (skipSpace cs).head? = some '\x7b' := by
  unfold readObject expect at h
  cases hcs : skipSpace cs with
  | nil =>
      rw [hcs] at h
      cases h
  | cons c tail =>
      rw [hcs] at h
      dsimp only at h
      by_cases hbrace : c = '\x7b'
      · rw [hbrace]
        rfl
      · rw [if_neg hbrace] at h
        cases h

/-- The members of an object that was read are names and values. -/
theorem readMember_isMember (cs behind : List Char) (member : List Char × List Char)
    (h : readMember cs = some (member, behind)) : IsMember member := by
  unfold readMember at h
  obtain ⟨⟨name, colon⟩, hname, h⟩ := Option.bind_eq_some_iff.mp h
  obtain ⟨value, -, h⟩ := Option.bind_eq_some_iff.mp h
  obtain ⟨⟨found, rest⟩, hvalue, h⟩ := Option.bind_eq_some_iff.mp h
  obtain ⟨rfl, -⟩ := Prod.mk.inj (Option.some.inj h)
  unfold scanName at hname
  split at hname
  · rename_i hquoted
    obtain ⟨hisName, c, tail, htext, -, hskip⟩ := scanValue_some cs name colon hname
    refine ⟨hisName, ?_, (scanValue_some value found rest hvalue).1⟩
    rw [hskip] at hquoted
    dsimp only
    rw [htext]
    exact hquoted
  · cases hname

theorem readMembers_isMember (bound : Nat) (cs rest : List Char)
    (members : List (List Char × List Char)) (h : readMembers bound cs = some (members, rest)) :
    ∀ member ∈ members, IsMember member := by
  induction bound generalizing cs members with
  | zero => cases h
  | succ bound ih =>
      rw [readMembers] at h
      obtain ⟨⟨member, behind⟩, hread, h⟩ := Option.bind_eq_some_iff.mp h
      have hmember := readMember_isMember cs behind member hread
      dsimp only at h
      cases hcs : skipSpace behind with
      | nil =>
          rw [hcs] at h
          cases h
      | cons c tail =>
          rw [hcs] at h
          dsimp only at h
          split at h
          · obtain ⟨parts, hparts, heq⟩ := Option.map_eq_some_iff.mp h
            obtain ⟨rfl, rfl⟩ := Prod.mk.inj heq
            exact List.forall_mem_cons.mpr ⟨hmember, ih tail parts.1 hparts⟩
          · split at h
            · obtain ⟨rfl, -⟩ := Prod.mk.inj (Option.some.inj h)
              exact List.forall_mem_singleton.mpr hmember
            · cases h

theorem readObject_isMember (cs : List Char) (members : List (List Char × List Char))
    (h : readObject cs = some members) : ∀ member ∈ members, IsMember member := by
  unfold readObject at h
  obtain ⟨inside, -, h⟩ := Option.bind_eq_some_iff.mp h
  cases hcs : skipSpace inside with
  | nil =>
      rw [hcs] at h
      cases h
  | cons c tail =>
      rw [hcs] at h
      dsimp only at h
      split at h
      · split at h
        · obtain rfl := Option.some.inj h
          exact nofun
        · cases h
      · obtain ⟨⟨found, rest⟩, hread, h⟩ := Option.bind_eq_some_iff.mp h
        dsimp only at h
        split at h
        · obtain rfl := Option.some.inj h
          exact readMembers_isMember _ _ rest found hread
        · cases h

end Runlet.JsonScan
