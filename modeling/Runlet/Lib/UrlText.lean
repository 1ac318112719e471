import Mathlib.Data.List.TakeWhile
import Runlet.Lib.Text

/-!
The host of an http URL, read off its characters: the authority goes up to the
first `/`, `?`, `#` or backslash, the user information up to the last `@`, and
a port behind the host is a colon and a number, which may be empty. A host is
a name as written or what stands between brackets.
-/

namespace Runlet.UrlText

open Text

def endsAuthority (c : Char) : Bool := c == '/' || c == '?' || c == '#' || c == '\\'

def authorityOf (chars : List Char) : List Char := chars.takeWhile fun c => !endsAuthority c

def dropUserinfo (authority : List Char) : List Char :=
  match rsplitOnceChars '@' authority with
  | some (_, target) => target
  | none => authority

inductive HostText where
  | name (chars : List Char)
  | bracketed (chars : List Char)
  deriving DecidableEq

/-- What may follow the host. -/
def validPort : List Char → Bool
  | [] => true
  | c :: digits => c == ':' && (parseDigits 0 digits).any (· ≤ 65535)

/-- `none` when the text is not a host and a port. -/
def hostOf (target : List Char) : Option HostText :=
  match target with
  | '[' :: rest =>
      match splitOnceChars [']'] rest with
      | some (inner, port) => if validPort port then some (.bracketed inner) else none
      | none => none
  | chars =>
      if validPort (chars.dropWhile (· != ':')) then
        some (.name (chars.takeWhile (· != ':')))
      else none

/-- The host of what follows `scheme://`. -/
def authorityHost (chars : List Char) : Option HostText :=
  hostOf (dropUserinfo (authorityOf chars))

def urlHost (url : List Char) : Option HostText :=
  match splitOnceChars [':', '/', '/'] url with
  | some (_, rest) => authorityHost rest
  | none => none

/-- What follows a slash does not matter. -/
theorem authorityHost_append_slash (chars rest : List Char) :
    authorityHost (chars ++ '/' :: rest) = authorityHost chars := by
  unfold authorityHost authorityOf
  congr 2
  induction chars with
  | nil => simp [endsAuthority]
  | cons c tail ih => simp only [List.cons_append, List.takeWhile_cons, ih]

theorem urlHost_eq (scheme chars rest : List Char) (hscheme : ':' ∉ scheme) :
    urlHost (scheme ++ ':' :: '/' :: '/' :: (chars ++ '/' :: rest)) = authorityHost chars := by
  have hsplit : splitOnceChars [':', '/', '/']
      (scheme ++ ':' :: '/' :: '/' :: (chars ++ '/' :: rest)) =
      some (scheme, chars ++ '/' :: rest) :=
    splitOnceChars_append ':' ['/', '/'] scheme (chars ++ '/' :: rest) hscheme
  unfold urlHost
  rw [hsplit]
  exact authorityHost_append_slash chars rest

/-! ### The grammar -/

/-- A host as it is written. -/
def HostText.chars : HostText → List Char
  | .name chars => chars
  | .bracketed inner => '[' :: (inner ++ [']'])

def HostText.WellFormed : HostText → Prop
  | .name chars => ':' ∉ chars ∧ chars.head? ≠ some '['
  | .bracketed inner => ']' ∉ inner

theorem hostOf_name (chars port : List Char) (hname : (HostText.name chars).WellFormed)
    (hport : validPort port = true) : hostOf (chars ++ port) = some (.name chars) := by
  obtain ⟨hcolon, hhead⟩ := hname
  have hstops : ∀ c tail, port = c :: tail → c = ':' := by
    rintro c tail rfl
    simp only [validPort, Bool.and_eq_true, beq_iff_eq] at hport
    exact hport.1
  have hall : ∀ c ∈ chars, (c != ':') = true := by
    intro c hc
    simpa using fun heq : c = ':' => hcolon (heq ▸ hc)
  have htake : (chars ++ port).takeWhile (· != ':') = chars := by
    rw [List.takeWhile_append_of_pos hall]
    cases port with
    | nil => simp
    | cons c tail => simp [hstops c tail rfl]
  have hdrop : (chars ++ port).dropWhile (· != ':') = port := by
    rw [List.dropWhile_append_of_pos hall]
    cases port with
    | nil => simp
    | cons c tail => simp [hstops c tail rfl]
  unfold hostOf
  split
  · rename_i rest hbracket
    cases chars with
    | nil =>
        have := hstops '[' rest hbracket
        simp at this
    | cons c tail =>
        obtain ⟨rfl, -⟩ := List.cons.inj hbracket
        exact absurd rfl hhead
  · rw [hdrop, htake, if_pos hport]

theorem hostOf_bracketed (inner port : List Char) (hinner : ']' ∉ inner)
    (hport : validPort port = true) :
    hostOf ('[' :: (inner ++ ']' :: port)) = some (.bracketed inner) := by
  have hsplit : splitOnceChars [']'] (inner ++ ']' :: port) = some (inner, port) :=
    splitOnceChars_append ']' [] inner port hinner
  simp [hostOf, hsplit, hport]

/-- A text is read as a host exactly when it is that host and a port. -/
theorem hostOf_eq_some_iff (target : List Char) (host : HostText) :
    hostOf target = some host ↔
      host.WellFormed ∧ ∃ port, validPort port = true ∧ target = host.chars ++ port := by
  constructor
  · intro hhost
    unfold hostOf at hhost
    split at hhost
    · rename_i rest
      cases hsplit : splitOnceChars [']'] rest with
      | none => simp [hsplit] at hhost
      | some parts =>
          obtain ⟨inner, port⟩ := parts
          simp only [hsplit] at hhost
          have hrest := splitOnceChars_some _ _ _ _ hsplit
          split at hhost
          · rename_i hok
            cases hhost
            refine ⟨splitOnceChars_before _ _ _ _ hsplit, port, hok, ?_⟩
            simp [HostText.chars, hrest]
          · cases hhost
    · rename_i hbracket
      split at hhost
      · rename_i hok
        cases hhost
        refine ⟨⟨?_, ?_⟩, _, hok, List.takeWhile_append_dropWhile.symm⟩
        · intro hmem
          have := List.all_eq_true.mp List.all_takeWhile _ hmem
          simp at this
        · intro hhead
          cases target with
          | nil => cases hhead
          | cons c rest =>
              by_cases hc : c = ':'
              · simp [hc] at hhead
              · simp only [List.takeWhile_cons, bne_iff_ne, ne_eq, hc, not_false_eq_true,
                  if_true, List.head?_cons, Option.some.injEq] at hhead
                exact hbracket rest (by rw [hhead])
      · cases hhost
  · rintro ⟨hwell, port, hport, rfl⟩
    cases host with
    | name chars => exact hostOf_name chars port hwell hport
    | bracketed inner =>
        have hchars : (HostText.bracketed inner).chars ++ port =
            '[' :: (inner ++ ']' :: port) := by
          simp [HostText.chars]
        rw [hchars]
        exact hostOf_bracketed inner port hwell hport

/-- A text with a host in the place of an authority: `[userinfo@]host[:port]`,
and then nothing or a delimiter and any text. -/
structure Written (text : List Char) (host : HostText) (userinfo port rest : List Char) :
    Prop where
  parts : text = userinfo ++ host.chars ++ port ++ rest
  wellFormed : host.WellFormed
  user : userinfo = [] ∨ ∃ name, userinfo = name ++ ['@']
  port_valid : validPort port = true
  no_at : '@' ∉ host.chars ++ port
  inside : ∀ c ∈ userinfo ++ host.chars ++ port, endsAuthority c = false
  outside : ∀ c tail, rest = c :: tail → endsAuthority c = true

/-- The reader follows the grammar. -/
theorem authorityHost_eq_some_iff (text : List Char) (host : HostText) :
    authorityHost text = some host ↔
      ∃ userinfo port rest, Written text host userinfo port rest := by
  unfold authorityHost
  rw [hostOf_eq_some_iff]
  constructor
  · rintro ⟨hwell, port, hport, htarget⟩
    have htext := (List.takeWhile_append_dropWhile (p := fun c => !endsAuthority c)
      (l := text)).symm
    have hinside : ∀ c ∈ authorityOf text, endsAuthority c = false := by
      intro c hc
      simpa using List.all_eq_true.mp List.all_takeWhile c hc
    have houtside : ∀ c tail, text.dropWhile (fun c => !endsAuthority c) = c :: tail →
        endsAuthority c = true := by
      intro c tail hdrop
      have := List.head?_dropWhile_not (fun c => !endsAuthority c) text
      rw [hdrop] at this
      simpa using this
    unfold dropUserinfo at htarget
    cases hsplit : rsplitOnceChars '@' (authorityOf text) with
    | none =>
        rw [hsplit] at htarget
        simp only at htarget
        refine ⟨[], port, _, ?_, hwell, .inl rfl, hport, ?_, ?_, houtside⟩
        · rw [List.nil_append, ← htarget]
          exact htext
        · rw [← htarget]
          exact rsplitOnceChars_none _ _ hsplit
        · rw [List.nil_append, ← htarget]
          exact hinside
    | some parts =>
        obtain ⟨name, target⟩ := parts
        rw [hsplit] at htarget
        simp only at htarget
        obtain ⟨hauthority, hat⟩ := rsplitOnceChars_some _ _ _ _ hsplit
        have hall : name ++ ['@'] ++ host.chars ++ port = authorityOf text := by
          rw [hauthority, htarget]
          simp
        refine ⟨name ++ ['@'], port, _, ?_, hwell, .inr ⟨name, rfl⟩, hport, ?_, ?_, houtside⟩
        · rw [hall]
          exact htext
        · rw [← htarget]
          exact hat
        · rw [hall]
          exact hinside
  · rintro ⟨userinfo, port, rest, hwritten⟩
    refine ⟨hwritten.wellFormed, port, hwritten.port_valid, ?_⟩
    have hauthority : authorityOf text = userinfo ++ host.chars ++ port := by
      unfold authorityOf
      rw [hwritten.parts, List.takeWhile_append_of_pos]
      · cases hrest : rest with
        | nil => simp
        | cons c tail => simp [hwritten.outside c tail hrest]
      · intro c hc
        simp [hwritten.inside c hc]
    unfold dropUserinfo
    rw [hauthority]
    rcases hwritten.user with hnone | ⟨name, hname⟩
    · rw [hnone, List.nil_append, rsplitOnceChars_of_not_mem '@' _ hwritten.no_at]
    · have hsplit : rsplitOnceChars '@' (userinfo ++ host.chars ++ port) =
          some (name, host.chars ++ port) := by
        have hchars : userinfo ++ host.chars ++ port =
            name ++ '@' :: (host.chars ++ port) := by
          simp [hname]
        rw [hchars]
        exact rsplitOnceChars_append '@' name _ hwritten.no_at
      rw [hsplit]

/-- A delimiter keeps what follows from the reader. -/
theorem Written.append {text userinfo port rest : List Char} {host : HostText}
    (hwritten : Written text host userinfo port rest) (hrest : rest ≠ []) (more : List Char) :
    Written (text ++ more) host userinfo port (rest ++ more) := by
  refine ⟨?_, hwritten.wellFormed, hwritten.user, hwritten.port_valid, hwritten.no_at,
    hwritten.inside, ?_⟩
  · rw [hwritten.parts, List.append_assoc]
  · intro c tail hcons
    obtain ⟨d, others, rfl⟩ := List.exists_cons_of_ne_nil hrest
    obtain ⟨rfl, -⟩ := List.cons.inj hcons
    exact hwritten.outside d others rfl

/-- User information may begin with any text that has no delimiter. -/
theorem Written.prepend {text name port rest : List Char} {host : HostText}
    (hwritten : Written text host (name ++ ['@']) port rest) (before : List Char)
    (hopen : ∀ c ∈ before, endsAuthority c = false) :
    Written (before ++ text) host (before ++ name ++ ['@']) port rest := by
  refine ⟨?_, hwritten.wellFormed, .inr ⟨before ++ name, rfl⟩, hwritten.port_valid,
    hwritten.no_at, ?_, hwritten.outside⟩
  · simp [hwritten.parts]
  · intro c hc
    simp only [List.append_assoc] at hc
    rcases List.mem_append.mp hc with hbefore | hafter
    · exact hopen c hbefore
    · exact hwritten.inside c (by simpa using hafter)

theorem validPort_chars (port : List Char) (hport : validPort port = true) (c : Char)
    (hc : c ∈ port) : c = ':' ∨ (digitValue c).isSome := by
  cases port with
  | nil => cases hc
  | cons first digits =>
      simp only [validPort, Bool.and_eq_true, beq_iff_eq] at hport
      obtain ⟨rfl, hdigits⟩ := hport
      rcases List.mem_cons.mp hc with rfl | hmem
      · exact .inl rfl
      · right
        cases hvalue : parseDigits 0 digits with
        | none => simp [hvalue] at hdigits
        | some value => exact parseDigits_chars 0 value digits hvalue c hmem

/-- Of two parts that a character joins, it is in the one or in the other. -/
theorem join_eq_append {c : Char} {left right front back : List Char}
    (h : left ++ c :: right = front ++ back) :
    (∃ middle, front = left ++ c :: middle ∧ right = middle ++ back) ∨
      ∃ middle, left = front ++ middle ∧ back = middle ++ c :: right := by
  rcases List.append_eq_append_iff.mp h with ⟨middle, hfront, hback⟩ | ⟨middle, hleft, hback⟩
  · cases middle with
    | nil =>
        refine .inr ⟨[], ?_, hback.symm⟩
        simpa using hfront.symm
    | cons d middle =>
        obtain ⟨rfl, hright⟩ := List.cons.inj hback
        exact .inl ⟨middle, hfront, hright⟩
  · exact .inr ⟨middle, hleft, hback⟩

/-- In two texts that a character joins which is no part of a delimiter or a
port, a host is written in the first, in the second, or across both. -/
theorem Written.cases_join {left right userinfo port rest : List Char} {c : Char}
    {host : HostText} (hwritten : Written (left ++ c :: right) host userinfo port rest)
    (hends : endsAuthority c = false) (hat : c ≠ '@')
    (hport : ¬ (c = ':' ∨ (digitValue c).isSome)) :
    (∃ tail, tail ≠ [] ∧ Written left host userinfo port tail) ∨
    (∃ name, (∀ d ∈ left, endsAuthority d = false) ∧
      Written right host (name ++ ['@']) port rest) ∨
    ∃ front back, left = userinfo ++ front ∧ right = back ++ port ++ rest ∧
      host.chars = front ++ c :: back := by
  rcases join_eq_append hwritten.parts with ⟨behind, hauthority, hright⟩ | ⟨tail, hleft, hrest⟩
  · rcases join_eq_append hauthority.symm with ⟨middle, hhost, hbehind⟩ | ⟨middle, hleft, hdigits⟩
    · rcases join_eq_append hhost.symm with ⟨name, huser, hmiddle⟩ | ⟨front, hleft, hchars⟩
      · obtain ⟨inner, hinner⟩ : ∃ inner, name = inner ++ ['@'] := by
          rcases hwritten.user with hnone | ⟨whole, hwhole⟩
          · simp [hnone] at huser
          · rcases join_eq_append (huser.symm.trans hwhole) with ⟨inner, _, hname⟩ | ⟨gap, _, hgap⟩
            · exact ⟨inner, hname⟩
            · have hmem : c ∈ ['@'] := by simp [hgap]
              exact absurd (List.mem_singleton.mp hmem) hat
        subst hinner
        refine .inr (.inl ⟨inner, ?_, ?_⟩)
        · intro d hd
          exact hwritten.inside d (by simp [huser, hd])
        · refine ⟨?_, hwritten.wellFormed, .inr ⟨inner, rfl⟩, hwritten.port_valid,
            hwritten.no_at, ?_, hwritten.outside⟩
          · rw [hright, hbehind, hmiddle]
          · intro d hd
            apply hwritten.inside d
            rw [huser]
            simp only [List.mem_append, List.mem_cons] at hd ⊢
            tauto
      · exact .inr (.inr ⟨front, middle, hleft, by rw [hright, hbehind], hchars⟩)
    · refine absurd (validPort_chars port hwritten.port_valid c ?_) hport
      simp [hdigits]
  · left
    have hne : tail ≠ [] := by
      rintro rfl
      have := hwritten.outside c right hrest
      rw [hends] at this
      cases this
    refine ⟨tail, hne, hleft, hwritten.wellFormed, hwritten.user, hwritten.port_valid,
      hwritten.no_at, hwritten.inside, ?_⟩
    intro d others hcons
    exact hwritten.outside d (others ++ c :: right) (by rw [hrest, hcons]; rfl)

/-- A port that is not just its colon has digits. -/
theorem validPort_digits (port : List Char) (hport : validPort port = true)
    (hcolon : port ≠ [':']) :
    port = [] ∨ ∃ digits value, digits ≠ [] ∧ parseDigits 0 digits = some value ∧
      port = ':' :: digits := by
  cases port with
  | nil => exact .inl rfl
  | cons c digits =>
      right
      simp only [validPort, Bool.and_eq_true, beq_iff_eq] at hport
      obtain ⟨rfl, hdigits⟩ := hport
      cases hvalue : parseDigits 0 digits with
      | none => simp [hvalue] at hdigits
      | some value =>
          refine ⟨digits, value, ?_, hvalue, rfl⟩
          rintro rfl
          exact hcolon rfl

end Runlet.UrlText
