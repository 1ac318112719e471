import Runlet.Lib.UrlText
import Runlet.Core.Ssrf

/-!
The endpoint host of the `s3` capability (`resolve_host` in `s3.rs`): the
scheme, the authority the SSRF guard is asked about, and the host a signed URL
is built with. The guard reads the host by splitting the endpoint itself; the
client reads it off the whole URL. An IP literal is a host text that the
standard library parses as an address, with the brackets of IPv6 taken off.
-/

namespace Runlet.S3

open Text Ssrf UrlText

/-- The fields of the configuration the host depends on. -/
structure S3Config where
  endpoint : String
  bucket : String
  pathStyle : Bool

def eqIgnoreAsciiCase (left right : String) : Bool :=
  toAsciiLowercase left == toAsciiLowercase right

/-- Host and `:port`; only a trailing run of digits is a port. -/
def splitHostPort (authority : String) : String × String :=
  match rsplitOnce ':' authority with
  | some (hostPart, portPart) =>
      if !portPart.isEmpty && portPart.toList.all fun c => (digitValue c).isSome then
        (hostPart, ":" ++ portPart)
      else (authority, "")
  | none => (authority, "")

def endpointPort (scheme portSuffix : String) : Except String Nat :=
  match portSuffix.toList with
  | ':' :: digits =>
      match parseUnsigned 65535 (String.ofList digits) with
      | some port => .ok port
      | none => .error ("invalid s3 endpoint port '" ++ String.ofList digits ++ "'")
  | _ => .ok (if eqIgnoreAsciiCase scheme "https" then 443 else 80)

/-- The host without its brackets, as the guard is given it. -/
def bareHost (hostOnly : String) : String :=
  String.ofList (trimEndMatches ']' (trimStartMatches '[' hostOnly.toList))

def authorityClean (authority : String) : String :=
  (split '/' authority).head?.getD authority

def resolveHost (v6 : V6Text) (lookup : Lookup) (config : S3Config) (allowPrivate : Bool) :
    Except String (String × String) :=
  match splitOnce "://" config.endpoint with
  | none => .error "s3 endpoint must include a scheme (http:// or https://)"
  | some (scheme, rest) =>
      if !eqIgnoreAsciiCase scheme "http" && !eqIgnoreAsciiCase scheme "https" then
        .error ("s3 endpoint scheme must be http or https, got '" ++ scheme ++ "'")
      else
        let authority := authorityClean rest
        if authority.isEmpty then .error "s3 endpoint host is empty"
        else
          let (hostOnly, portSuffix) := splitHostPort authority
          match endpointPort scheme portSuffix with
          | .error err => .error err
          | .ok port =>
              match blockPrivateIp v6 lookup (bareHost hostOnly) port allowPrivate with
              | .error err => .error err
              | .ok () =>
                  if config.pathStyle then .ok (scheme, authority)
                  else .ok (scheme, config.bucket ++ "." ++ hostOnly ++ portSuffix)

/-! ### What the guard looks at -/

theorem dropWhile_of_none (p : Char → Bool) (chars : List Char)
    (hnone : ∀ c ∈ chars, p c = false) : chars.dropWhile p = chars := by
  cases chars with
  | nil => rfl
  | cons c rest => simp [hnone c List.mem_cons_self]

/-- Brackets come off a bracketed text, and a text without any stays as it is. -/
theorem bareHost_plain (chars : List Char) (hplain : ∀ c ∈ chars, c ≠ '[' ∧ c ≠ ']') :
    bareHost (String.ofList chars) = String.ofList chars ∧
      bareHost (String.ofList ('[' :: (chars ++ [']']))) = String.ofList chars := by
  have hend : (chars.reverse.dropWhile (· == ']')).reverse = chars := by
    rw [dropWhile_of_none, List.reverse_reverse]
    intro c hc
    simpa using (hplain c (List.mem_reverse.mp hc)).2
  have hstart : chars.dropWhile (· == '[') = chars := by
    apply dropWhile_of_none
    intro c hc
    simpa using (hplain c hc).1
  have hbracket : (chars ++ [']']).dropWhile (· == '[') = chars ++ [']'] := by
    apply dropWhile_of_none
    intro c hc
    rcases List.mem_append.mp hc with hmem | hlast
    · simpa using (hplain c hmem).1
    · rw [List.mem_singleton.mp hlast]
      rfl
  constructor
  · simp [bareHost, trimStartMatches, trimEndMatches, hstart, hend]
  · simp [bareHost, trimStartMatches, trimEndMatches, hbracket, hend]

theorem splitHostPort_join (authority : String) :
    (splitHostPort authority).1 ++ (splitHostPort authority).2 = authority := by
  unfold splitHostPort rsplitOnce
  cases hsplit : rsplitOnceChars ':' authority.toList with
  | none => simp
  | some parts =>
      obtain ⟨before, after⟩ := parts
      simp only [Option.map_some]
      split
      · apply String.toList_injective
        simpa using (rsplitOnceChars_some _ _ _ _ hsplit).1.symm
      · simp

/-- A port that is there comes off. -/
theorem splitHostPort_port (authority : String) (front digits : List Char) (value : Nat)
    (hne : digits ≠ []) (hdigits : parseDigits 0 digits = some value)
    (hchars : authority.toList = front ++ ':' :: digits) :
    (splitHostPort authority).1 = String.ofList front := by
  have hall := parseDigits_chars 0 value digits hdigits
  have hcolon : ':' ∉ digits := by
    intro hmem
    exact absurd (hall ':' hmem) (by decide)
  have hempty : (String.ofList digits).isEmpty = false := by
    cases digits with
    | nil => exact absurd rfl hne
    | cons c rest => simp
  unfold splitHostPort rsplitOnce
  rw [hchars, rsplitOnceChars_append ':' front digits hcolon]
  simp only [Option.map_some, hempty, String.toList_ofList]
  rw [if_pos]
  simpa using hall

/-- Without one, what follows the last colon is no number and all of the text
is the host. -/
theorem splitHostPort_no_port (authority : String)
    (hlast : ∀ before after, authority.toList = before ++ ':' :: after →
      ∃ c ∈ after, digitValue c = none) : (splitHostPort authority).1 = authority := by
  unfold splitHostPort rsplitOnce
  cases hsplit : rsplitOnceChars ':' authority.toList with
  | none => rfl
  | some parts =>
      obtain ⟨before, after⟩ := parts
      obtain ⟨c, hc, hnone⟩ := hlast before after (rsplitOnceChars_some _ _ _ _ hsplit).1
      simp only [Option.map_some, String.toList_ofList]
      rw [if_neg]
      intro hdigits
      have hall := List.all_eq_true.mp (Bool.and_eq_true_iff.mp hdigits).2 c hc
      simp [hnone] at hall

/-! ### What a client of the URL looks at -/

/-- The address a host text is a literal of. -/
def literalOf : HostText → Option IpAddr
  | .name chars => (parseV4 (String.ofList chars)).map .v4
  | .bracketed chars => (parseV6 (String.ofList chars)).map .v6

def urlLiteral (url : String) : Option IpAddr :=
  (urlHost url.toList).bind literalOf

/-- The address that a text in the place of an authority is read as. -/
def authorityLiteral (text : String) : Option IpAddr :=
  (authorityHost text.toList).bind literalOf

/-- The standard library's parser, with any printer. -/
def stdV6 (fmt : Ipv6Addr → String) : V6Text := ⟨fmt, parseV6⟩

/-- The characters a URL delimits a host with, which no literal has. -/
def delimiters : List Char := ['[', ']', '@', '/', '?', '#', '\\']

/-- A character of a kind is none of those that are not. -/
theorem ne_of_none {kind : Char → Bool} {chars : List Char}
    (hnone : chars.all (fun d => !kind d) = true) (c other : Char) (h : kind c = true)
    (hother : other ∈ chars) : c ≠ other := by
  rintro rfl
  have hc := List.all_eq_true.mp hnone c hother
  rw [h] at hc
  cases hc

theorem groupChar_ne (c other : Char) (h : c = ':' ∨ isGroupChar c = true)
    (hother : other ∈ delimiters) : c ≠ other :=
  @ne_of_none (fun d => d == ':' || isGroupChar d) _ (by decide) c other (by simpa using h)
    hother

theorem digitChar_ne (c other : Char) (h : c = '.' ∨ (digitValue c).isSome)
    (hother : other ∈ ':' :: delimiters) : c ≠ other :=
  @ne_of_none (fun d => d == '.' || (digitValue d).isSome) _ (by decide) c other
    (by simpa using h) hother

/-- An IPv6 text is no dotted one. -/
theorem parseIp_v6 (fmt : Ipv6Addr → String) (text : String) (ip : Ipv6Addr)
    (h : parseV6 text = some ip) : parseIp (stdV6 fmt) text = some (.v6 ip) := by
  have hnone : parseV4 text = none := by
    cases hv4 : parseV4 text with
    | none => rfl
    | some v4 =>
        have hcolon := (parseV6_chars text ip h).1
        exact absurd rfl (digitChar_ne ':' ':' (parseV4_chars text v4 hv4 ':' hcolon) (by decide))
  simp [parseIp, hnone, stdV6, h]

/-- What follows a colon inside a host is no number. -/
theorem host_colon (host : HostText) (hwell : host.WellFormed) (before after : List Char)
    (hsplit : host.chars = before ++ ':' :: after) : ∃ c ∈ after, digitValue c = none := by
  cases host with
  | name name =>
      have hmem : ':' ∈ name := by
        rw [show name = before ++ ':' :: after from hsplit]
        simp
      exact absurd hmem hwell.1
  | bracketed inner =>
      refine ⟨']', ?_, by decide⟩
      have hlast : (':' :: after).getLast? = some ']' := by
        have h := congrArg List.getLast? hsplit
        rw [List.getLast?_append_of_ne_nil _ (by simp)] at h
        rw [← h]
        exact (List.getLast?_concat : (('[' :: inner) ++ [']']).getLast? = some ']')
      cases after with
      | nil => cases hlast
      | cons c rest => exact List.mem_of_getLast? hlast

/-- Where nothing but a host and a port stands, the guard is asked about the
very address that is written there. -/
theorem guard_reads_literal (fmt : Ipv6Addr → String) (authority : String) (addr : IpAddr)
    (host : HostText) (port : List Char)
    (hwritten : Written authority.toList host [] port []) (hcolon : port ≠ [':'])
    (haddr : literalOf host = some addr) :
    parseIp (stdV6 fmt) (bareHost (splitHostPort authority).1) = some addr := by
  have hchars : authority.toList = host.chars ++ port := by
    simpa using hwritten.parts
  have hport := validPort_digits port hwritten.port_valid hcolon
  have hsplit : (splitHostPort authority).1 = String.ofList host.chars := by
    rcases hport with rfl | ⟨digits, value, hne, hdigits, rfl⟩
    · have hall : authority = String.ofList host.chars := by
        apply String.toList_injective
        simpa using hchars
      rw [← hall]
      apply splitHostPort_no_port
      intro before after hsplit
      rw [hchars, List.append_nil] at hsplit
      exact host_colon host hwritten.wellFormed before after hsplit
    · exact splitHostPort_port authority host.chars digits value hne hdigits hchars
  rw [hsplit]
  cases host with
  | name name =>
      obtain ⟨ip, hip, rfl⟩ := Option.map_eq_some_iff.mp haddr
      have hname : ∀ c ∈ name, c ≠ '[' ∧ c ≠ ']' := by
        intro c hc
        have h := parseV4_chars _ ip hip c (by simpa using hc)
        exact ⟨digitChar_ne c '[' h (by decide), digitChar_ne c ']' h (by decide)⟩
      rw [HostText.chars, (bareHost_plain name hname).1]
      simp [parseIp, hip]
  | bracketed inner =>
      obtain ⟨ip, hip, rfl⟩ := Option.map_eq_some_iff.mp haddr
      have hinner : ∀ c ∈ inner, c ≠ '[' ∧ c ≠ ']' := by
        intro c hc
        have h := (parseV6_chars _ ip hip).2 c (by simpa using hc)
        exact ⟨groupChar_ne c '[' h (by decide), groupChar_ne c ']' h (by decide)⟩
      rw [HostText.chars, (bareHost_plain inner hinner).2]
      exact parseIp_v6 fmt _ ip hip

/-! ### The host of a signed URL -/

/-- The authority in the endpoint's text. -/
def endpointAuthority (endpoint : String) : Option String :=
  (splitOnce "://" endpoint).map fun parts => authorityClean parts.2

/-- What stands in the place of the authority: the endpoint's own, behind the
bucket unless the addressing is path-style. -/
def exposed (config : S3Config) (authority : String) : String :=
  if config.pathStyle then authority else config.bucket ++ "." ++ authority

theorem authorityClean_toList (rest : String) :
    (authorityClean rest).toList = rest.toList.takeWhile (· != '/') := by
  unfold authorityClean split
  rw [List.head?_map, splitChars_head]
  simp

theorem scheme_no_colon (scheme name : String) (hname : ':' ∉ (toAsciiLowercase name).toList)
    (heq : eqIgnoreAsciiCase scheme name = true) : ':' ∉ scheme.toList := by
  intro hmem
  apply hname
  rw [← beq_iff_eq.mp heq]
  simp only [toAsciiLowercase, String.toList_ofList, List.mem_map]
  exact ⟨':', hmem, by decide⟩

/-- Everything an accepted endpoint has passed, and the host that is returned
for it. -/
structure Accepted (v6 : V6Text) (lookup : Lookup) (config : S3Config)
    (scheme host authority : String) : Prop where
  found : endpointAuthority config.endpoint = some authority
  no_slash : '/' ∉ authority.toList
  no_colon : ':' ∉ scheme.toList
  guarded : ∃ port, blockPrivateIp v6 lookup (bareHost (splitHostPort authority).1) port
    false = .ok ()
  built : host = exposed config authority

/-- A host is built from the endpoint's authority once the guard let it
through. -/
theorem resolveHost_built (v6 : V6Text) (lookup : Lookup) (config : S3Config)
    (allowPrivate : Bool) (scheme host : String)
    (h : resolveHost v6 lookup config allowPrivate = .ok (scheme, host)) :
    ∃ rest port, splitOnce "://" config.endpoint = some (scheme, rest) ∧ ':' ∉ scheme.toList ∧
      blockPrivateIp v6 lookup (bareHost (splitHostPort (authorityClean rest)).1) port
        allowPrivate = .ok () ∧
      host = exposed config (authorityClean rest) := by
  unfold resolveHost at h
  cases hsplit : splitOnce "://" config.endpoint with
  | none => simp [hsplit] at h
  | some parts =>
      obtain ⟨found, rest⟩ := parts
      simp only [hsplit] at h
      split at h
      · cases h
      · rename_i hscheme
        have hcolon : ':' ∉ found.toList := by
          simp only [Bool.and_eq_true, Bool.not_eq_true', not_and, Bool.not_eq_false] at hscheme
          by_cases hhttp : eqIgnoreAsciiCase found "http" = true
          · exact scheme_no_colon found "http" (by decide) hhttp
          · exact scheme_no_colon found "https" (by decide) (hscheme (by simpa using hhttp))
        split at h
        · cases h
        · cases hport : endpointPort found (splitHostPort (authorityClean rest)).2 with
          | error err => simp [hport] at h
          | ok port =>
              simp only [hport] at h
              cases hblock : blockPrivateIp v6 lookup
                  (bareHost (splitHostPort (authorityClean rest)).1) port allowPrivate with
              | error err => simp [hblock] at h
              | ok passed =>
                  simp only [hblock] at h
                  unfold exposed
                  split at h
                  · rename_i hstyle
                    cases h
                    exact ⟨rest, port, rfl, hcolon, hblock, by simp [hstyle]⟩
                  · rename_i hstyle
                    cases h
                    refine ⟨rest, port, rfl, hcolon, hblock, ?_⟩
                    rw [String.append_assoc, splitHostPort_join]
                    simp [hstyle]

theorem resolveHost_ok (v6 : V6Text) (lookup : Lookup) (config : S3Config)
    (scheme host : String)
    (h : resolveHost v6 lookup config false = .ok (scheme, host)) :
    ∃ authority, Accepted v6 lookup config scheme host authority := by
  obtain ⟨rest, port, hsplit, hcolon, hblock, hbuilt⟩ :=
    resolveHost_built v6 lookup config false scheme host h
  refine ⟨authorityClean rest, ?_, ?_, hcolon, ⟨port, hblock⟩, hbuilt⟩
  · simp [endpointAuthority, hsplit]
  · rw [authorityClean_toList]
    intro hmem
    have := List.all_eq_true.mp List.all_takeWhile _ hmem
    simp at this

/-- The client of a URL reads its host off the exposed text alone. -/
theorem urlLiteral_eq (scheme host rest : String) (hscheme : ':' ∉ scheme.toList) :
    urlLiteral (scheme ++ "://" ++ host ++ "/" ++ rest) = authorityLiteral host := by
  have hchars : (scheme ++ "://" ++ host ++ "/" ++ rest).toList =
      scheme.toList ++ ':' :: '/' :: '/' :: (host.toList ++ '/' :: rest.toList) := by
    simp [String.toList_append]
  unfold urlLiteral authorityLiteral
  rw [hchars, urlHost_eq scheme.toList host.toList rest.toList hscheme]

/-- An address that the text of an authority keeps from the guard: behind user
information, in front of a delimiter or in front of an empty port. -/
def Hides (authority : List Char) (addr : IpAddr) : Prop :=
  ∃ host userinfo port rest, Written authority host userinfo port rest ∧
    literalOf host = some addr ∧ (userinfo ≠ [] ∨ rest ≠ [] ∨ port = [':'])

/-- An address that a bucket in front of the authority brings to light: in the
bucket, which a delimiter ends; in the authority, behind user information; or
begun by the bucket and ended by the authority. -/
inductive Joins (bucket authority : List Char) (addr : IpAddr) : Prop
  | bucket (host : HostText) (userinfo port rest : List Char)
      (hwritten : Written bucket host userinfo port rest) (hrest : rest ≠ [])
      (haddr : literalOf host = some addr)
  | authority (host : HostText) (name port rest : List Char)
      (hopen : ∀ c ∈ bucket, endsAuthority c = false)
      (hwritten : Written authority host (name ++ ['@']) port rest)
      (haddr : literalOf host = some addr)
  | across (host : HostText) (userinfo front back port rest : List Char)
      (hbucket : bucket = userinfo ++ front) (hauthority : authority = back ++ port ++ rest)
      (hhost : host.chars = front ++ '.' :: back)
      (huser : userinfo = [] ∨ ∃ name, userinfo = name ++ ['@'])
      (hopen : ∀ c ∈ userinfo, endsAuthority c = false) (hport : validPort port = true)
      (hrest : ∀ c tail, rest = c :: tail → endsAuthority c = true)
      (haddr : literalOf host = some addr)

/-- An address that the guard is not asked about: the authority hides it, or the
bucket in front of it brings it to light. -/
def Slips (config : S3Config) (authority : String) (addr : IpAddr) : Prop :=
  if config.pathStyle then Hides authority.toList addr
  else Joins config.bucket.toList authority.toList addr

/-- The guard covers a configuration: no private address slips through. -/
def GuardCovers (config : S3Config) : Prop :=
  ∀ authority, endpointAuthority config.endpoint = some authority →
    ∀ addr, isPrivateIp addr = true → ¬ Slips config authority addr

theorem free_of_ne (c : Char) (hne : ∀ other ∈ ['@', '/', '?', '#', '\\'], c ≠ other) :
    c ≠ '@' ∧ endsAuthority c = false := by
  simpa [endsAuthority, and_assoc] using hne

theorem digit_free (c : Char) (h : c = '.' ∨ (digitValue c).isSome) :
    c ≠ '@' ∧ endsAuthority c = false := by
  have hdelimiters : ['@', '/', '?', '#', '\\'] ⊆ ':' :: delimiters := by decide
  exact free_of_ne c fun other hother => digitChar_ne c other h (hdelimiters hother)

theorem group_free (c : Char) (h : c = ':' ∨ isGroupChar c = true) :
    c ≠ '@' ∧ endsAuthority c = false := by
  have hdelimiters : ['@', '/', '?', '#', '\\'] ⊆ delimiters := by decide
  exact free_of_ne c fun other hother => groupChar_ne c other h (hdelimiters hother)

theorem port_free (port : List Char) (hport : validPort port = true) (c : Char) (hc : c ∈ port) :
    c ≠ '@' ∧ endsAuthority c = false := by
  rcases validPort_chars port hport c hc with rfl | hdigit
  · decide
  · exact digit_free c (.inr hdigit)

/-- A literal is made of characters that a URL does not delimit a host with. -/
theorem literal_chars (host : HostText) (addr : IpAddr) (haddr : literalOf host = some addr) :
    host.WellFormed ∧ ∀ c ∈ host.chars, c ≠ '@' ∧ endsAuthority c = false := by
  cases host with
  | name name =>
      obtain ⟨ip, hip, _⟩ := Option.map_eq_some_iff.mp haddr
      have hname : ∀ c ∈ name, c = '.' ∨ (digitValue c).isSome := by
        intro c hc
        exact parseV4_chars _ ip hip c (by simpa using hc)
      refine ⟨⟨?_, ?_⟩, ?_⟩
      · intro hmem
        exact digitChar_ne ':' ':' (hname ':' hmem) (by decide) rfl
      · intro hhead
        exact digitChar_ne '[' '[' (hname '[' (List.mem_of_head? hhead)) (by decide) rfl
      · intro c hc
        exact digit_free c (hname c hc)
  | bracketed inner =>
      obtain ⟨ip, hip, _⟩ := Option.map_eq_some_iff.mp haddr
      have hinner : ∀ c ∈ inner, c = ':' ∨ isGroupChar c = true := by
        intro c hc
        exact (parseV6_chars _ ip hip).2 c (by simpa using hc)
      refine ⟨fun hmem => groupChar_ne ']' ']' (hinner ']' hmem) (by decide) rfl, ?_⟩
      intro c hc
      simp only [HostText.chars, List.mem_cons, List.mem_append, List.not_mem_nil,
        or_false] at hc
      rcases hc with rfl | hc | rfl
      · decide
      · exact group_free c (hinner c hc)
      · decide

theorem authorityLiteral_eq_some_iff (text : String) (addr : IpAddr) :
    authorityLiteral text = some addr ↔ ∃ host userinfo port rest,
      Written text.toList host userinfo port rest ∧ literalOf host = some addr := by
  unfold authorityLiteral
  rw [Option.bind_eq_some_iff]
  constructor
  · rintro ⟨host, hhost, haddr⟩
    obtain ⟨userinfo, port, rest, hwritten⟩ :=
      (authorityHost_eq_some_iff text.toList host).mp hhost
    exact ⟨host, userinfo, port, rest, hwritten, haddr⟩
  · rintro ⟨host, userinfo, port, rest, hwritten, haddr⟩
    exact ⟨host, (authorityHost_eq_some_iff text.toList host).mpr
      ⟨userinfo, port, rest, hwritten⟩, haddr⟩

/-- The literals of `bucket.authority`, by where the dot falls. -/
theorem joined_literal_iff (bucket authority : List Char) (addr : IpAddr) :
    (∃ host userinfo port rest, Written (bucket ++ '.' :: authority) host userinfo port rest ∧
      literalOf host = some addr) ↔ Joins bucket authority addr := by
  constructor
  · rintro ⟨host, userinfo, port, rest, hwritten, haddr⟩
    rcases hwritten.cases_join (by decide) (by decide) (by decide) with
      ⟨tail, hne, hbucket⟩ | ⟨name, hopen, hauthority⟩ | ⟨front, back, hleft, hright, hhost⟩
    · exact .bucket host userinfo port tail hbucket hne haddr
    · exact .authority host name port rest hopen hauthority haddr
    · refine .across host userinfo front back port rest hleft hright hhost hwritten.user ?_
        hwritten.port_valid hwritten.outside haddr
      intro c hc
      exact hwritten.inside c (by simp [hc])
  · intro hjoins
    cases hjoins with
    | bucket host userinfo port rest hwritten hrest haddr =>
        exact ⟨host, userinfo, port, _, hwritten.append hrest _, haddr⟩
    | authority host name port rest hopen hwritten haddr =>
        have hbefore : ∀ c ∈ bucket ++ ['.'], endsAuthority c = false := by
          intro c hc
          rcases List.mem_append.mp hc with hmem | hdot
          · exact hopen c hmem
          · rw [List.mem_singleton.mp hdot]
            decide
        have hjoined := hwritten.prepend (bucket ++ ['.']) hbefore
        exact ⟨host, _, port, rest, by simpa using hjoined, haddr⟩
    | across host userinfo front back port rest hbucket hauthority hhost huser hopen hport hrest
        haddr =>
        obtain ⟨hwell, hfree⟩ := literal_chars host addr haddr
        have hdigits := port_free port hport
        refine ⟨host, userinfo, port, rest, ⟨?_, hwell, huser, hport, ?_, ?_, hrest⟩, haddr⟩
        · simp [hbucket, hauthority, hhost]
        · intro hmem
          rcases List.mem_append.mp hmem with hin | hin
          · exact (hfree '@' hin).1 rfl
          · exact (hdigits '@' hin).1 rfl
        · intro c hc
          rcases List.mem_append.mp hc with hleft | hin
          · rcases List.mem_append.mp hleft with huserinfo | hin
            · exact hopen c huserinfo
            · exact (hfree c hin).2
          · exact (hdigits c hin).2

/-- What the guard let through has no private literal in the authority, except
one that the authority hides. -/
theorem guarded_public_iff (fmt : Ipv6Addr → String) (lookup : Lookup) (authority : String)
    (port : Nat) (addr : IpAddr) (hprivate : isPrivateIp addr = true)
    (hguarded : blockPrivateIp (stdV6 fmt) lookup (bareHost (splitHostPort authority).1) port
      false = .ok ()) :
    authorityLiteral authority = some addr ↔ Hides authority.toList addr := by
  rw [authorityLiteral_eq_some_iff]
  constructor
  · rintro ⟨host, userinfo, portText, rest, hwritten, haddr⟩
    refine ⟨host, userinfo, portText, rest, hwritten, haddr, ?_⟩
    by_contra hplain
    push Not at hplain
    obtain ⟨rfl, rfl, hdigits⟩ := hplain
    have hread := guard_reads_literal fmt authority addr host portText hwritten hdigits haddr
    have hpasses := passesBlock_literal (stdV6 fmt) lookup _ port addr hread
    simp [passesBlock, hguarded, Except.toOption, hprivate] at hpasses
  · rintro ⟨host, userinfo, portText, rest, hwritten, haddr, -⟩
    exact ⟨host, userinfo, portText, rest, hwritten, haddr⟩

/-- For every endpoint, bucket and answer of the resolver: when `resolve_host`
accepts, no URL on its host names a private literal exactly when the guard
covers the configuration. -/
theorem resolveHost_public_iff (fmt : Ipv6Addr → String) (lookup : Lookup)
    (config : S3Config) (scheme host : String)
    (hok : resolveHost (stdV6 fmt) lookup config false = .ok (scheme, host)) :
    (∀ rest addr, urlLiteral (scheme ++ "://" ++ host ++ "/" ++ rest) = some addr →
      isPrivateIp addr = false) ↔ GuardCovers config := by
  obtain ⟨authority, haccepted⟩ := resolveHost_ok (stdV6 fmt) lookup config scheme host hok
  obtain ⟨port, hguarded⟩ := haccepted.guarded
  have hurl : ∀ rest, urlLiteral (scheme ++ "://" ++ host ++ "/" ++ rest) =
      authorityLiteral (exposed config authority) := by
    intro rest
    rw [urlLiteral_eq scheme host rest haccepted.no_colon, haccepted.built]
  have hexposed : ∀ addr, isPrivateIp addr = true →
      (authorityLiteral (exposed config authority) = some addr ↔ Slips config authority addr) := by
    intro addr hprivate
    unfold exposed Slips
    split
    · exact guarded_public_iff fmt lookup authority port addr hprivate hguarded
    · rw [authorityLiteral_eq_some_iff, ← joined_literal_iff]
      simp [String.toList_append]
  constructor
  · intro hpublic other hother addr hprivate hslips
    cases haccepted.found.symm.trans hother
    have hread := (hexposed addr hprivate).mpr hslips
    have hfalse := hpublic "" addr (by rw [hurl, hread])
    cases hfalse.symm.trans hprivate
  · intro hcovers path addr hread
    rw [hurl] at hread
    by_contra hprivate
    rw [Bool.not_eq_false] at hprivate
    exact hcovers authority haccepted.found addr hprivate ((hexposed addr hprivate).mp hread)

/-- An ordinary configuration: no delimiter in the authority, and path-style
addressing or a bucket with a character that no literal has in front of a dot. -/
structure Ordinary (config : S3Config) (authority : String) : Prop where
  plain : ∀ c ∈ authority.toList, c ≠ '@' ∧ endsAuthority c = false
  port : authority.toList.getLast? ≠ some ':'
  bucket : config.pathStyle = false →
    (∀ c ∈ config.bucket.toList, (c ≠ '@' ∧ endsAuthority c = false) ∧ c ≠ '[') ∧
      ∃ c ∈ config.bucket.toList, c ≠ '.' ∧ digitValue c = none

theorem Ordinary.not_hides {config : S3Config} {authority : String}
    (h : Ordinary config authority) (addr : IpAddr) : ¬ Hides authority.toList addr := by
  rintro ⟨host, userinfo, port, rest, hwritten, -, hkept⟩
  have huser : userinfo = [] := by
    rcases hwritten.user with hnone | ⟨name, rfl⟩
    · exact hnone
    · exact absurd rfl (h.plain '@' (by simp [hwritten.parts])).1
  have hrest : rest = [] := by
    cases hcons : rest with
    | nil => rfl
    | cons c tail =>
        have hfree := (h.plain c (by simp [hwritten.parts, hcons])).2
        cases hfree.symm.trans (hwritten.outside c tail hcons)
  rcases hkept with hne | hne | hcolon
  · exact hne huser
  · exact hne hrest
  · apply h.port
    rw [hwritten.parts, hrest, hcolon]
    simp

theorem Ordinary.not_joins {config : S3Config} {authority : String}
    (h : Ordinary config authority) (hstyle : config.pathStyle = false) (addr : IpAddr) :
    ¬ Joins config.bucket.toList authority.toList addr := by
  obtain ⟨hfree, odd, hodd, hdot, hdigit⟩ := h.bucket hstyle
  intro hjoins
  cases hjoins with
  | bucket host userinfo port rest hwritten hrest haddr =>
      obtain ⟨c, tail, hcons⟩ := List.exists_cons_of_ne_nil hrest
      have hc := (hfree c (by simp [hwritten.parts, hcons])).1.2
      cases hc.symm.trans (hwritten.outside c tail hcons)
  | authority host name port rest hopen hwritten haddr =>
      exact absurd rfl (h.plain '@' (by simp [hwritten.parts])).1
  | across host userinfo front back port rest hbucket hauthority hhost huser hopen hport hrest
      haddr =>
      have hfront : config.bucket.toList = front := by
        rcases huser with rfl | ⟨name, rfl⟩
        · exact hbucket
        · exact absurd rfl (hfree '@' (by simp [hbucket])).1.1
      rw [hfront] at hfree hodd
      cases host with
      | name name =>
          obtain ⟨ip, hip, _⟩ := Option.map_eq_some_iff.mp haddr
          have hmem : odd ∈ name := by
            rw [show name = front ++ '.' :: back from hhost]
            exact List.mem_append_left _ hodd
          rcases parseV4_chars _ ip hip odd (by simpa using hmem) with hdotted | hsome
          · exact hdot hdotted
          · simp [hdigit] at hsome
      | bracketed inner =>
          cases front with
          | nil => cases hodd
          | cons c others =>
              obtain ⟨rfl, -⟩ := List.cons.inj hhost
              exact (hfree '[' List.mem_cons_self).2 rfl

/-- The guard covers every ordinary configuration. -/
theorem Ordinary.covers {config : S3Config}
    (h : ∀ authority, endpointAuthority config.endpoint = some authority →
      Ordinary config authority) : GuardCovers config := by
  intro authority hauthority addr _ hslips
  have hordinary := h authority hauthority
  unfold Slips at hslips
  split at hslips
  · exact hordinary.not_hides addr hslips
  · rename_i hstyle
    exact hordinary.not_joins (by simpa using hstyle) addr hslips

/-- A configuration whose endpoint hides a loopback address behind user
information; the guard asks the resolver about a name that does not exist. -/
def hiddenConfig : S3Config := ⟨"http://x@127.0.0.1", "bucket", true⟩

def unresolved : Lookup := fun _ _ => .error "Name or service not known"

theorem hidden_literal_is_signed :
    resolveHost (stdV6 fun _ => "") unresolved hiddenConfig false =
        .ok ("http", "x@127.0.0.1") ∧
      urlLiteral ("http" ++ "://" ++ "x@127.0.0.1" ++ "/" ++ "bucket/key") =
        some (.v4 ⟨127, 0, 0, 1⟩) ∧
      isPrivateIp (.v4 ⟨127, 0, 0, 1⟩) = true := by
  refine ⟨by decide +kernel, by decide +kernel, by decide⟩

/-- An ordinary endpoint with a port. -/
theorem resolveHost_public_iff_plain :
    urlLiteral ("https" ++ "://" ++ "192.0.2.7:9000" ++ "/" ++ "bucket/key") =
        some (.v4 ⟨192, 0, 2, 7⟩) ∧ isPrivateIp (.v4 ⟨192, 0, 2, 7⟩) = false := by
  have hok : resolveHost (stdV6 fun _ => "") unresolved
      ⟨"https://192.0.2.7:9000/x", "bucket", true⟩ false = .ok ("https", "192.0.2.7:9000") := by
    decide +kernel
  have hclean : endpointAuthority "https://192.0.2.7:9000/x" = some "192.0.2.7:9000" := by
    decide +kernel
  have hplain : "192.0.2.7:9000".toList.all (fun c => c != '@' && !endsAuthority c) = true := by
    decide +kernel
  have hcovers : GuardCovers ⟨"https://192.0.2.7:9000/x", "bucket", true⟩ := by
    apply Ordinary.covers
    intro authority hauthority
    cases hclean.symm.trans hauthority
    refine ⟨?_, by decide +kernel, fun hstyle => by cases hstyle⟩
    intro c hc
    simpa using List.all_eq_true.mp hplain c hc
  have hread : urlLiteral ("https" ++ "://" ++ "192.0.2.7:9000" ++ "/" ++ "bucket/key") =
      some (.v4 ⟨192, 0, 2, 7⟩) := by
    decide +kernel
  exact ⟨hread, (resolveHost_public_iff (fun _ => "") unresolved _ "https" "192.0.2.7:9000"
    hok).mpr hcovers "bucket/key" _ hread⟩

end Runlet.S3
