import Runlet.Lib.PercentText
import Runlet.Lib.UrlText

/-!
An http URL as a client sends it. The parser takes the user information off,
lower-cases the host, drops an empty port and the default one and writes any
other as a plain number, and removes the dot segments of the path. A name with
other characters than those of a registered name is rewritten or refused, never
sent as it stands; here it is not read. Which texts are literals in brackets is
a parameter. Addresses are not written again: a parser that shortens an IPv6
literal, or takes a name that ends in a number for an IPv4 address, may send
another text than the one here.
-/

namespace Runlet.UrlText

open Text PercentText

/-! ### Hosts and ports -/

/-- Small letters, digits and the punctuation of a registered name. -/
def nameChar (c : Char) : Bool :=
  (97 ≤ c.toNat && c.toNat ≤ 122) || (48 ≤ c.toNat && c.toNat ≤ 57) ||
    [33, 36, 38, 39, 40, 41, 42, 43, 44, 45, 46, 59, 61, 95, 126].contains c.toNat

/-- The literals that may stand in brackets; none has a delimiter in it. -/
structure Literals where
  accepts : List Char → Bool
  plain : ∀ inner, accepts inner = true →
    ∀ c ∈ inner, c ≠ ']' ∧ c ≠ '@' ∧ endsAuthority c = false

def lowerChars (chars : List Char) : List Char := chars.map lowerAsciiChar

/-- The host in small letters. A literal in brackets and a name that ends in a number are
kept as they are written. -/
def normalHost (literals : Literals) : HostText → Option HostText
  | .name chars =>
      if lowerChars chars ≠ [] ∧ (lowerChars chars).all nameChar then
        some (.name (lowerChars chars))
      else none
  | .bracketed inner =>
      if literals.accepts (lowerChars inner) then some (.bracketed (lowerChars inner)) else none

def defaultPort (scheme : List Char) : Option Nat :=
  if lowerChars scheme = "http".toList then some 80
  else if lowerChars scheme = "https".toList then some 443
  else none

def normalPort (scheme port : List Char) : List Char :=
  match port with
  | ':' :: digits =>
      match parseDigits 0 digits with
      | some value =>
          if digits = [] ∨ defaultPort scheme = some value then []
          else ':' :: Nat.toDigits 10 value
      | none => []
  | _ => []

/-- What the client sends as the host, from the authority of the URL. -/
def normalAuthority (literals : Literals) (scheme authority : List Char) :
    Option (List Char) := do
  let target := dropUserinfo authority
  let host ← hostOf target
  let normal ← normalHost literals host
  some (normal.chars ++ normalPort scheme (target.drop host.chars.length))

/-! ### Paths -/

/-- `.` or `..`, also with encoded dots. -/
def dotSegment (segment : List Char) : Bool :=
  decide (decode segment = [46]) || decide (decode segment = [46, 46])

/-- Two dots drop the segment before them. -/
def afterDots (kept : List (List Char)) (segment : List Char) : List (List Char) :=
  if decode segment = [46, 46] then kept.tail else kept

/-- The segments that stay, with `kept` those before them, the last one first;
dots at the end leave an empty segment. -/
def removeDots (kept : List (List Char)) : List (List Char) → List (List Char)
  | [] => kept.reverse
  | segment :: rest =>
      if dotSegment segment then
        if rest = [] then ([] :: afterDots kept segment).reverse
        else removeDots (afterDots kept segment) rest
      else removeDots (segment :: kept) rest

/-- Backslashes count as slashes, and an empty path is the root. -/
def normalPath (path : List Char) : List Char :=
  match path.map fun c => if c = '\\' then '/' else c with
  | '/' :: rest => '/' :: List.intercalate ['/'] (removeDots [] (splitChars '/' rest))
  | _ => ['/']

/-! ### The whole URL -/

/-- What the request carries of the URL. -/
structure Location where
  host : List Char
  path : List Char
  query : List Char
  deriving DecidableEq

def readLocation (literals : Literals) (url : List Char) : Option Location := do
  let (scheme, rest) ← splitOnceChars [':', '/', '/'] url
  let host ← normalAuthority literals scheme (authorityOf rest)
  let target := (rest.drop (authorityOf rest).length).takeWhile (· != '#')
  some ⟨host, normalPath (target.takeWhile (· != '?')), (target.dropWhile (· != '?')).drop 1⟩

/-! ### Texts that are left as they are -/

def NormalHost (literals : Literals) : HostText → Prop
  | .name chars => chars ≠ [] ∧ ∀ c ∈ chars, nameChar c = true
  | .bracketed inner => literals.accepts inner = true ∧ lowerChars inner = inner

/-- No port, or one that is not the default, without leading zeros. -/
def NormalPort (scheme port : List Char) : Prop :=
  port = [] ∨ ∃ value, value ≤ 65535 ∧ defaultPort scheme ≠ some value ∧
    port = ':' :: Nat.toDigits 10 value

/-- A host and a port in the form a client sends. -/
def NormalAuthority (literals : Literals) (scheme text : List Char) : Prop :=
  ∃ host port, NormalHost literals host ∧ NormalPort scheme port ∧ text = host.chars ++ port

theorem lowerAsciiChar_idem (c : Char) : lowerAsciiChar (lowerAsciiChar c) = lowerAsciiChar c := by
  have hlower : ¬ (65 ≤ (lowerAsciiChar c).toNat ∧ (lowerAsciiChar c).toNat ≤ 90) := by
    unfold lowerAsciiChar
    split
    · rw [toNat_ofNat_ascii _ (by omega)]
      omega
    · assumption
  conv_lhs => rw [lowerAsciiChar, if_neg hlower]

theorem lowerChars_idem (chars : List Char) : lowerChars (lowerChars chars) = lowerChars chars := by
  simp [lowerChars, lowerAsciiChar_idem]

theorem nameChar_lower (c : Char) (hc : nameChar c = true) : lowerAsciiChar c = c := by
  have hupper : ¬ (65 ≤ c.toNat ∧ c.toNat ≤ 90) := by
    rintro ⟨hlow, hhigh⟩
    simp [nameChar] at hc
    omega
  rw [lowerAsciiChar, if_neg hupper]

theorem lowerChars_name (chars : List Char) (hname : ∀ c ∈ chars, nameChar c = true) :
    lowerChars chars = chars := by
  unfold lowerChars
  rw [List.map_congr_left fun c hc => nameChar_lower c (hname c hc), List.map_id']

/-- What is sent as the host is in normal form. -/
theorem normalHost_normal (literals : Literals) (host normal : HostText)
    (h : normalHost literals host = some normal) : NormalHost literals normal := by
  cases host with
  | name chars =>
      simp only [normalHost] at h
      split at h
      · rename_i hname
        cases h
        exact ⟨hname.1, List.all_eq_true.mp hname.2⟩
      · cases h
  | bracketed inner =>
      simp only [normalHost] at h
      split at h
      · rename_i hliteral
        cases h
        exact ⟨hliteral, lowerChars_idem inner⟩
      · cases h

theorem normalHost_fixed (literals : Literals) (host : HostText)
    (hnormal : NormalHost literals host) : normalHost literals host = some host := by
  cases host with
  | name chars =>
      obtain ⟨hne, hname⟩ := hnormal
      simp only [normalHost, lowerChars_name chars hname]
      rw [if_pos ⟨hne, List.all_eq_true.mpr hname⟩]
  | bracketed inner =>
      obtain ⟨hliteral, hlower⟩ := hnormal
      simp only [normalHost, hlower, hliteral, if_true]

theorem normalPort_normal (scheme port : List Char) (hport : validPort port = true) :
    NormalPort scheme (normalPort scheme port) := by
  cases port with
  | nil => exact .inl rfl
  | cons c digits =>
      simp only [validPort, Bool.and_eq_true, beq_iff_eq] at hport
      obtain ⟨rfl, hdigits⟩ := hport
      cases hvalue : parseDigits 0 digits with
      | none => simp [hvalue] at hdigits
      | some value =>
          simp only [normalPort, hvalue]
          split
          · exact .inl rfl
          · rename_i hother
            right
            refine ⟨value, by simpa [hvalue] using hdigits, ?_, rfl⟩
            exact fun heq => hother (.inr heq)

theorem normalPort_fixed (scheme port : List Char) (hnormal : NormalPort scheme port) :
    validPort port = true ∧ normalPort scheme port = port := by
  rcases hnormal with rfl | ⟨value, hbound, hdefault, rfl⟩
  · exact ⟨rfl, rfl⟩
  · have hread := parseDigits_toDigits value
    constructor
    · simp [validPort, hread, hbound]
    · simp [normalPort, hread, hdefault]

/-- What ends an authority or its user information is in none of its normal
parts. -/
theorem NormalAuthority.chars {literals : Literals} {scheme text : List Char}
    (hnormal : NormalAuthority literals scheme text) :
    ∀ c ∈ text, c ≠ '@' ∧ endsAuthority c = false := by
  obtain ⟨host, port, hhost, hport, rfl⟩ := hnormal
  intro c hc
  rcases List.mem_append.mp hc with hc | hc
  · cases host with
    | name chars =>
        have hname := hhost.2 c hc
        constructor
        · rintro rfl
          exact absurd hname (by decide)
        · rw [Bool.eq_false_iff]
          intro hends
          simp only [endsAuthority, Bool.or_eq_true, beq_iff_eq] at hends
          rcases hends with ((rfl | rfl) | rfl) | rfl <;> exact absurd hname (by decide)
    | bracketed inner =>
        simp only [HostText.chars, List.mem_cons, List.mem_append, List.not_mem_nil,
          or_false] at hc
        rcases hc with rfl | hc | rfl
        · decide
        · exact (literals.plain inner hhost.1 c hc).2
        · decide
  · rcases hport with rfl | ⟨value, -, -, rfl⟩
    · cases hc
    · rcases List.mem_cons.mp hc with rfl | hdigit
      · decide
      · have hdigit := Nat.isDigit_of_mem_toDigits (by decide) (by decide) hdigit
        constructor
        · rintro rfl
          exact absurd hdigit (by decide)
        · rw [Bool.eq_false_iff]
          intro hends
          simp only [endsAuthority, Bool.or_eq_true, beq_iff_eq] at hends
          rcases hends with ((rfl | rfl) | rfl) | rfl <;> exact absurd hdigit (by decide)

theorem NormalHost.wellFormed {literals : Literals} {host : HostText}
    (hnormal : NormalHost literals host) : host.WellFormed := by
  cases host with
  | name chars =>
      obtain ⟨-, hname⟩ := hnormal
      constructor
      · intro hcolon
        exact absurd (hname ':' hcolon) (by decide)
      · intro hhead
        exact absurd (hname '[' (List.mem_of_mem_head? hhead)) (by decide)
  | bracketed inner =>
      intro hbracket
      exact (literals.plain inner hnormal.1 ']' hbracket).1 rfl

theorem normalAuthority_normal (literals : Literals) (scheme authority text : List Char)
    (h : normalAuthority literals scheme authority = some text) :
    NormalAuthority literals scheme text := by
  simp only [normalAuthority, Option.bind_eq_bind, Option.bind_eq_some_iff,
    Option.some.injEq] at h
  obtain ⟨host, hhost, normal, hnormal, rfl⟩ := h
  obtain ⟨-, port, hport, htarget⟩ := (hostOf_eq_some_iff _ _).mp hhost
  rw [htarget, List.drop_left]
  exact ⟨normal, _, normalHost_normal literals host normal hnormal,
    normalPort_normal scheme port hport, rfl⟩

/-- A normal authority is sent as it is. -/
theorem normalAuthority_fixed (literals : Literals) (scheme text : List Char)
    (hnormal : NormalAuthority literals scheme text) :
    normalAuthority literals scheme text = some text := by
  have hat : '@' ∉ text := fun hmem => (hnormal.chars '@' hmem).1 rfl
  obtain ⟨host, port, hhost, hport, rfl⟩ := hnormal
  obtain ⟨hvalid, hsame⟩ := normalPort_fixed scheme port hport
  have hread : hostOf (host.chars ++ port) = some host :=
    (hostOf_eq_some_iff _ _).mpr ⟨hhost.wellFormed, port, hvalid, rfl⟩
  simp only [normalAuthority, dropUserinfo, rsplitOnceChars_of_not_mem '@' _ hat, hread,
    Option.bind_eq_bind, Option.bind_some, normalHost_fixed literals host hhost, List.drop_left,
    hsame]

/-! ### Dot segments -/

/-- What is left is what was kept, segments that are no dots, and an empty one
in the place of dots at the end. -/
theorem mem_removeDots (kept segments : List (List Char)) (segment : List Char)
    (hmem : segment ∈ removeDots kept segments) :
    segment = [] ∨ segment ∈ kept ∨ (segment ∈ segments ∧ dotSegment segment = false) := by
  induction segments generalizing kept with
  | nil => exact .inr (.inl (List.mem_reverse.mp hmem))
  | cons first rest ih =>
      have hbefore : ∀ s ∈ afterDots kept first, s ∈ kept := by
        intro s hs
        unfold afterDots at hs
        split at hs
        · exact List.mem_of_mem_tail hs
        · exact hs
      unfold removeDots at hmem
      split at hmem
      · split at hmem
        · rcases List.mem_cons.mp (List.mem_reverse.mp hmem) with hempty | hkept
          · exact .inl hempty
          · exact .inr (.inl (hbefore segment hkept))
        · rcases ih _ hmem with hempty | hkept | ⟨hrest, hplain⟩
          · exact .inl hempty
          · exact .inr (.inl (hbefore segment hkept))
          · exact .inr (.inr ⟨List.mem_cons_of_mem first hrest, hplain⟩)
      · rename_i hdot
        rcases ih _ hmem with hempty | hkept | ⟨hrest, hplain⟩
        · exact .inl hempty
        · rcases List.mem_cons.mp hkept with rfl | hkept
          · exact .inr (.inr ⟨List.mem_cons_self, by simpa using hdot⟩)
          · exact .inr (.inl hkept)
        · exact .inr (.inr ⟨List.mem_cons_of_mem first hrest, hplain⟩)

theorem removeDots_ne_nil (kept segments : List (List Char))
    (hsome : segments = [] → kept ≠ []) : removeDots kept segments ≠ [] := by
  induction segments generalizing kept with
  | nil => simpa [removeDots] using hsome
  | cons first rest ih =>
      unfold removeDots
      split
      · split
        · simp
        · rename_i hrest
          apply ih
          intro hnil
          exact absurd hnil hrest
      · apply ih
        intro _
        simp

theorem removeDots_fixed (kept segments : List (List Char))
    (hplain : ∀ segment ∈ segments, dotSegment segment = false) :
    removeDots kept segments = kept.reverse ++ segments := by
  induction segments generalizing kept with
  | nil => simp [removeDots]
  | cons first rest ih =>
      obtain ⟨hfirst, hrest⟩ := List.forall_mem_cons.mp hplain
      simp only [removeDots, hfirst]
      rw [if_neg (by decide), ih _ hrest]
      simp

/-- A path is sent as it is exactly when it has no dot segments. -/
theorem normalPath_eq_self_iff (rest : List Char) (hback : '\\' ∉ rest) :
    normalPath ('/' :: rest) = '/' :: rest ↔
      ∀ segment ∈ splitChars '/' rest, dotSegment segment = false := by
  have hslashes : ('/' :: rest).map (fun c => if c = '\\' then '/' else c) = '/' :: rest := by
    rw [List.map_congr_left (g := id), List.map_id]
    intro c hc
    rcases List.mem_cons.mp hc with rfl | hc
    · rfl
    · exact if_neg fun heq : c = '\\' => hback (heq ▸ hc)
  have hnormal : normalPath ('/' :: rest) =
      '/' :: List.intercalate ['/'] (removeDots [] (splitChars '/' rest)) := by
    unfold normalPath
    rw [hslashes]
    rfl
  rw [hnormal]
  constructor
  · intro hsame segment hsegment
    have hsplit : splitChars '/' rest = removeDots [] (splitChars '/' rest) := by
      have hjoined := (List.cons.inj hsame).2
      conv_lhs => rw [← hjoined]
      apply splitChars_intercalate
      · exact removeDots_ne_nil _ _ fun hnil => absurd hnil (splitChars_ne_nil '/' rest)
      · intro piece hpiece
        rcases mem_removeDots _ _ _ hpiece with rfl | hkept | ⟨hmem, -⟩
        · simp
        · cases hkept
        · exact not_mem_splitChars '/' rest piece hmem
    rw [hsplit] at hsegment
    rcases mem_removeDots _ _ _ hsegment with rfl | hkept | ⟨-, hplain⟩
    · decide
    · cases hkept
    · exact hplain
  · intro hplain
    rw [removeDots_fixed [] _ hplain, List.reverse_nil, List.nil_append, intercalate_splitChars]

/-! ### URLs that are sent as they are written -/

theorem readLocation_host (literals : Literals) (scheme rest : List Char) (location : Location)
    (hscheme : ':' ∉ scheme)
    (h : readLocation literals (scheme ++ ':' :: '/' :: '/' :: rest) = some location) :
    NormalAuthority literals scheme location.host := by
  have hsplit : splitOnceChars [':', '/', '/'] (scheme ++ ':' :: '/' :: '/' :: rest) =
      some (scheme, rest) := splitOnceChars_append ':' ['/', '/'] scheme rest hscheme
  simp only [readLocation, hsplit, Option.bind_eq_bind, Option.bind_some,
    Option.bind_eq_some_iff, Option.some.injEq] at h
  obtain ⟨host, hhost, rfl⟩ := h
  exact normalAuthority_normal literals scheme _ host hhost

/-- Reading a URL whose host has no delimiter in it. -/
theorem readLocation_parts (literals : Literals) (scheme host path query : List Char)
    (hscheme : ':' ∉ scheme) (hhost : ∀ c ∈ host, endsAuthority c = false)
    (hpath : ∀ c ∈ path, c ≠ '?' ∧ c ≠ '#') (hquery : '#' ∉ query) :
    readLocation literals
        (scheme ++ ':' :: '/' :: '/' :: (host ++ '/' :: (path ++ '?' :: query))) =
      (normalAuthority literals scheme host).map fun sent =>
        ⟨sent, normalPath ('/' :: path), query⟩ := by
  have hsplit : splitOnceChars [':', '/', '/']
      (scheme ++ ':' :: '/' :: '/' :: (host ++ '/' :: (path ++ '?' :: query))) =
      some (scheme, host ++ '/' :: (path ++ '?' :: query)) :=
    splitOnceChars_append ':' ['/', '/'] scheme _ hscheme
  have hauthority : authorityOf (host ++ '/' :: (path ++ '?' :: query)) = host := by
    unfold authorityOf
    rw [List.takeWhile_append_of_pos (fun c hc => by simp [hhost c hc])]
    simp [endsAuthority]
  have htarget : ('/' :: (path ++ '?' :: query)).takeWhile (· != '#') =
      '/' :: (path ++ '?' :: query) := by
    apply List.takeWhile_eq_self_iff.mpr
    intro c hc
    simp only [List.mem_cons, List.mem_append] at hc
    rcases hc with rfl | hc | rfl | hc
    · decide
    · simpa using (hpath c hc).2
    · decide
    · simpa using fun heq : c = '#' => hquery (heq ▸ hc)
  have hquestion : ∀ c ∈ '/' :: path, (c != '?') = true := by
    intro c hc
    rcases List.mem_cons.mp hc with rfl | hc
    · decide
    · simpa using (hpath c hc).1
  have htake : ('/' :: (path ++ '?' :: query)).takeWhile (· != '?') = '/' :: path := by
    rw [← List.cons_append, List.takeWhile_append_of_pos hquestion]
    simp
  have hdrop : ('/' :: (path ++ '?' :: query)).dropWhile (· != '?') = '?' :: query := by
    rw [← List.cons_append, List.dropWhile_append_of_pos hquestion]
    simp
  simp only [readLocation, hsplit, Option.bind_eq_bind, Option.bind_some, hauthority,
    List.drop_left, htarget, htake, hdrop, List.drop_succ_cons, List.drop_zero]
  cases normalAuthority literals scheme host <;> rfl

/-- Host and path reach the other side as they were written exactly when the
host is in normal form and the path has no dot segments; the query always does
then. -/
theorem readLocation_kept_iff (literals : Literals) (scheme host path query : List Char)
    (accept : List Char → Prop) (hscheme : ':' ∉ scheme)
    (hpath : ∀ c ∈ path, c ≠ '?' ∧ c ≠ '#' ∧ c ≠ '\\') (hquery : '#' ∉ query) :
    (∃ location, readLocation literals
        (scheme ++ ':' :: '/' :: '/' :: (host ++ '/' :: (path ++ '?' :: query))) = some location ∧
      location.host = host ∧ location.path = '/' :: path ∧ accept location.query) ↔
    NormalAuthority literals scheme host ∧
      (∀ segment ∈ splitChars '/' path, dotSegment segment = false) ∧ accept query := by
  have hback : '\\' ∉ path := fun hmem => (hpath '\\' hmem).2.2 rfl
  have hparts : NormalAuthority literals scheme host → readLocation literals
      (scheme ++ ':' :: '/' :: '/' :: (host ++ '/' :: (path ++ '?' :: query))) =
        some ⟨host, normalPath ('/' :: path), query⟩ := by
    intro hnormal
    rw [readLocation_parts literals scheme host path query hscheme
      (fun c hc => (hnormal.chars c hc).2) (fun c hc => ⟨(hpath c hc).1, (hpath c hc).2.1⟩) hquery,
      normalAuthority_fixed literals scheme host hnormal]
    rfl
  constructor
  · rintro ⟨location, hread, hhost, hsent, haccept⟩
    have hnormal := readLocation_host literals scheme _ location hscheme hread
    rw [hhost] at hnormal
    rw [hparts hnormal] at hread
    cases hread
    exact ⟨hnormal, (normalPath_eq_self_iff path hback).mp hsent, haccept⟩
  · rintro ⟨hnormal, hsegments, haccept⟩
    exact ⟨_, hparts hnormal, rfl, (normalPath_eq_self_iff path hback).mpr hsegments, haccept⟩

end Runlet.UrlText
