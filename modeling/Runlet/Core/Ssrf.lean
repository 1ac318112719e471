import Runlet.Lib.Text

/-!
The address classifier and the two guards of `ssrf.rs`: `block_private_ip`
runs before a request, `resolve_filtered` inside the resolver the HTTP client
connects with. Name resolution is a parameter, one answer for each lookup.
-/

namespace Runlet.Ssrf

open Text

structure Ipv4Addr where
  a : UInt8
  b : UInt8
  c : UInt8
  d : UInt8
  deriving DecidableEq, Repr

/-- Eight 16-bit segments, most significant first. -/
structure Ipv6Addr where
  s0 : UInt16
  s1 : UInt16
  s2 : UInt16
  s3 : UInt16
  s4 : UInt16
  s5 : UInt16
  s6 : UInt16
  s7 : UInt16
  deriving DecidableEq, Repr

inductive IpAddr where
  | v4 (ip : Ipv4Addr)
  | v6 (ip : Ipv6Addr)
  deriving DecidableEq, Repr

/-- Two segments read as the four octets of an IPv4 address. -/
def ofSegments (hi lo : UInt16) : Ipv4Addr where
  a := UInt8.ofNat (hi.toNat / 256)
  b := UInt8.ofNat (hi.toNat % 256)
  c := UInt8.ofNat (lo.toNat / 256)
  d := UInt8.ofNat (lo.toNat % 256)

/-- Loopback, private, link-local, broadcast, unspecified, CGNAT, multicast
and reserved addresses. -/
def isPrivateV4 (ip : Ipv4Addr) : Bool :=
  ip.a == 127 ||
  (ip.a == 10 || (ip.a == 172 && 16 ≤ ip.b && ip.b ≤ 31) ||
    (ip.a == 192 && ip.b == 168)) ||
  (ip.a == 169 && ip.b == 254) ||
  ip == ⟨255, 255, 255, 255⟩ ||
  ip == ⟨0, 0, 0, 0⟩ ||
  (ip.a == 100 && 64 ≤ ip.b && ip.b ≤ 127) ||
  224 ≤ ip.a

def toIpv4Mapped (ip : Ipv6Addr) : Option Ipv4Addr :=
  if ip.s0 = 0 ∧ ip.s1 = 0 ∧ ip.s2 = 0 ∧ ip.s3 = 0 ∧ ip.s4 = 0 ∧ ip.s5 = 0xffff then
    some (ofSegments ip.s6 ip.s7)
  else none

def v6V4CompatiblePrivate (ip : Ipv6Addr) : Bool :=
  (ip.s0 == 0 && ip.s1 == 0 && ip.s2 == 0 && ip.s3 == 0 && ip.s4 == 0 && ip.s5 == 0) &&
    isPrivateV4 (ofSegments ip.s6 ip.s7)

/-- 6to4 and NAT64 forms of a private IPv4 address. -/
def v6EmbedsPrivateV4 (ip : Ipv6Addr) : Bool :=
  (ip.s0 == 0x2002 && isPrivateV4 (ofSegments ip.s1 ip.s2)) ||
  (ip.s0 == 0x0064 && ip.s1 == 0xff9b && isPrivateV4 (ofSegments ip.s6 ip.s7))

def isPrivateV6 (ip : Ipv6Addr) : Bool :=
  if ip = ⟨0, 0, 0, 0, 0, 0, 0, 1⟩ ∨ ip = ⟨0, 0, 0, 0, 0, 0, 0, 0⟩ then true
  else if (toIpv4Mapped ip).any isPrivateV4 then true
  else
    (ip.s0 &&& 0xfe00) == 0xfc00 ||
    (ip.s0 &&& 0xffc0) == 0xfe80 ||
    (ip.s0 &&& 0xff00) == 0xff00 ||
    v6V4CompatiblePrivate ip ||
    v6EmbedsPrivateV4 ip

def isPrivateIp : IpAddr → Bool
  | .v4 ip => isPrivateV4 ip
  | .v6 ip => isPrivateV6 ip

/-! ### Address texts -/

def fmtV4 (ip : Ipv4Addr) : String :=
  toString ip.a.toNat ++ "." ++ toString ip.b.toNat ++ "." ++
    toString ip.c.toNat ++ "." ++ toString ip.d.toNat

/-- One to three digits, no leading zero, at most 255. -/
def parseOctet (chars : List Char) : Option UInt8 :=
  if chars.length > 3 ∨ (chars.head? = some '0' ∧ chars ≠ ['0']) ∨ chars = [] then none
  else
    match parseDigits 0 chars with
    | none => none
    | some value => if value ≤ 255 then some (UInt8.ofNat value) else none

def parseV4 (text : String) : Option Ipv4Addr :=
  match splitChars '.' text.toList with
  | [a, b, c, d] =>
      match parseOctet a, parseOctet b, parseOctet c, parseOctet d with
      | some a, some b, some c, some d => some ⟨a, b, c, d⟩
      | _, _, _, _ => none
  | _ => none

def hexValue (c : Char) : Option Nat :=
  if 48 ≤ c.toNat ∧ c.toNat ≤ 57 then some (c.toNat - 48)
  else if 97 ≤ c.toNat ∧ c.toNat ≤ 102 then some (c.toNat - 87)
  else if 65 ≤ c.toNat ∧ c.toNat ≤ 70 then some (c.toNat - 55)
  else none

def parseHexDigits : Nat → List Char → Option Nat
  | acc, [] => some acc
  | acc, c :: rest =>
      match hexValue c with
      | none => none
      | some digit => parseHexDigits (acc * 16 + digit) rest

/-- One to four hexadecimal digits. -/
def parseGroup (chars : List Char) : Option UInt16 :=
  if chars = [] ∨ chars.length > 4 then none
  else (parseHexDigits 0 chars).map UInt16.ofNat

/-- The segments of a run of groups. Where `dotted` allows it, a dotted
address may stand for the last two. -/
def parseGroups (dotted : Bool) : List (List Char) → Option (List UInt16)
  | [] => some []
  | [last] =>
      match parseGroup last with
      | some group => some [group]
      | none =>
          if dotted then
            (parseV4 (String.ofList last)).map fun ip =>
              [UInt16.ofNat (ip.a.toNat * 256 + ip.b.toNat),
                UInt16.ofNat (ip.c.toNat * 256 + ip.d.toNat)]
          else none
  | piece :: rest =>
      match parseGroup piece, parseGroups dotted rest with
      | some group, some groups => some (group :: groups)
      | _, _ => none

def ofGroups : List UInt16 → Option Ipv6Addr
  | [s0, s1, s2, s3, s4, s5, s6, s7] => some ⟨s0, s1, s2, s3, s4, s5, s6, s7⟩
  | _ => none

/-- The part on one side of `::`, which may be empty. -/
def parseSide (dotted : Bool) (chars : List Char) : Option (List UInt16) :=
  if chars = [] then some [] else parseGroups dotted (splitChars ':' chars)

/-- Eight segments, or fewer with one `::` for at least one segment of zeros. -/
def parseV6 (text : String) : Option Ipv6Addr :=
  match splitOnceChars [':', ':'] text.toList with
  | none => (parseGroups true (splitChars ':' text.toList)).bind ofGroups
  | some (head, tail) =>
      match parseSide false head, parseSide true tail with
      | some front, some back =>
          if front.length + back.length ≤ 7 then
            ofGroups (front ++ List.replicate (8 - front.length - back.length) 0 ++ back)
          else none
      | _, _ => none

/-- The IPv6 text forms of the standard library: its printer and its parser. -/
structure V6Text where
  fmt : Ipv6Addr → String
  parse : String → Option Ipv6Addr

def fmtIp (v6 : V6Text) : IpAddr → String
  | .v4 ip => fmtV4 ip
  | .v6 ip => v6.fmt ip

/-- `str::parse::<IpAddr>`. -/
def parseIp (v6 : V6Text) (text : String) : Option IpAddr :=
  match parseV4 text with
  | some ip => some (.v4 ip)
  | none => (v6.parse text).map .v6

private theorem octet_text (n : Fin 256) :
    parseOctet (toString n.val).toList = some (UInt8.ofNat n.val) ∧
      '.' ∉ (toString n.val).toList := by
  revert n
  decide +kernel

theorem parseOctet_toString (octet : UInt8) :
    parseOctet (toString octet.toNat).toList = some octet := by
  have h := (octet_text ⟨octet.toNat, octet.toNat_lt⟩).1
  simpa using h

theorem dot_not_mem_octet (octet : UInt8) : '.' ∉ (toString octet.toNat).toList :=
  (octet_text ⟨octet.toNat, octet.toNat_lt⟩).2

/-- The printed form of an IPv4 address reads back. -/
theorem parseV4_fmtV4 (ip : Ipv4Addr) : parseV4 (fmtV4 ip) = some ip := by
  have htext : (fmtV4 ip).toList =
      (toString ip.a.toNat).toList ++ '.' :: ((toString ip.b.toNat).toList ++
        '.' :: ((toString ip.c.toNat).toList ++ '.' ::
          (toString ip.d.toNat).toList)) := by
    simp [fmtV4, String.toList_append]
  unfold parseV4
  rw [htext, splitChars_append_sep _ _ _ (dot_not_mem_octet ip.a),
    splitChars_append_sep _ _ _ (dot_not_mem_octet ip.b),
    splitChars_append_sep _ _ _ (dot_not_mem_octet ip.c),
    splitChars_of_not_mem _ _ (dot_not_mem_octet ip.d)]
  simp only [parseOctet_toString]

theorem parseIp_fmtV4 (v6 : V6Text) (ip : Ipv4Addr) :
    parseIp v6 (fmtV4 ip) = some (.v4 ip) := by
  simp [parseIp, parseV4_fmtV4]

/-- A text that opens with a bracket is no dotted address. -/
theorem parseV4_bracketed (text : String) : parseV4 ("[" ++ text) = none := by
  have htext : ("[" ++ text).toList = '[' :: text.toList := by
    simp [String.toList_append]
  have hoctet : ∀ rest, parseOctet ('[' :: rest) = none := by
    intro rest
    have hdigits : parseDigits 0 ('[' :: rest) = none := rfl
    simp [parseOctet, hdigits]
  unfold parseV4
  rw [htext]
  simp only [splitChars, if_neg (show '[' ≠ '.' by decide)]
  cases splitChars '.' text.toList with
  | nil => rfl
  | cons piece pieces =>
      simp only
      split
      · rename_i heq
        obtain ⟨rfl, -⟩ := List.cons.inj heq
        simp [hoctet]
      · rfl

/-! The characters an address text can hold. -/

theorem parseOctet_chars (chars : List Char) (octet : UInt8)
    (h : parseOctet chars = some octet) : ∀ c ∈ chars, (digitValue c).isSome := by
  unfold parseOctet at h
  split at h
  · cases h
  · cases hdigits : parseDigits 0 chars with
    | none => simp [hdigits] at h
    | some value => exact parseDigits_chars 0 value chars hdigits

theorem parseV4_chars (text : String) (ip : Ipv4Addr) (h : parseV4 text = some ip) :
    ∀ c ∈ text.toList, c = '.' ∨ (digitValue c).isSome := by
  intro c hc
  unfold parseV4 at h
  split at h
  · rename_i a b d e hsplit
    rcases mem_splitChars '.' text.toList c hc with hdot | ⟨piece, hpiece, hmem⟩
    · exact .inl hdot
    · right
      split at h
      · rename_i ha hb hd he
        rw [hsplit] at hpiece
        simp only [List.mem_cons, List.not_mem_nil, or_false] at hpiece
        rcases hpiece with rfl | rfl | rfl | rfl
        · exact parseOctet_chars _ _ ha c hmem
        · exact parseOctet_chars _ _ hb c hmem
        · exact parseOctet_chars _ _ hd c hmem
        · exact parseOctet_chars _ _ he c hmem
      · cases h
  · cases h

/-- The characters of an IPv6 text between its colons. -/
def isGroupChar (c : Char) : Bool := c == '.' || (hexValue c).isSome

theorem isGroupChar_of_digit (c : Char) (h : (digitValue c).isSome) : isGroupChar c = true := by
  unfold digitValue at h
  unfold isGroupChar hexValue
  split at h
  · rename_i hrange
    simp [hrange]
  · cases h

theorem parseGroup_chars (chars : List Char) (group : UInt16)
    (h : parseGroup chars = some group) : ∀ c ∈ chars, isGroupChar c = true := by
  have hhex : ∀ (acc value : Nat) (chars : List Char), parseHexDigits acc chars = some value →
      ∀ c ∈ chars, isGroupChar c = true := by
    intro acc value chars
    induction chars generalizing acc with
    | nil => simp
    | cons c rest ih =>
        intro h other hother
        unfold parseHexDigits at h
        cases hdigit : hexValue c with
        | none => simp [hdigit] at h
        | some digit =>
            simp only [hdigit] at h
            rcases List.mem_cons.mp hother with rfl | hrest
            · simp [isGroupChar, hdigit]
            · exact ih _ h other hrest
  unfold parseGroup at h
  split at h
  · cases h
  · obtain ⟨value, hvalue, -⟩ := Option.map_eq_some_iff.mp h
    exact hhex 0 value chars hvalue

theorem parseGroups_chars (dotted : Bool) (pieces : List (List Char)) (groups : List UInt16)
    (h : parseGroups dotted pieces = some groups) :
    ∀ piece ∈ pieces, ∀ c ∈ piece, isGroupChar c = true := by
  induction pieces generalizing groups with
  | nil => simp
  | cons piece rest ih =>
      cases rest with
      | nil =>
          simp only [parseGroups] at h
          intro other hother
          cases List.mem_singleton.mp hother
          cases hgroup : parseGroup piece with
          | some group => exact parseGroup_chars piece group hgroup
          | none =>
              simp only [hgroup] at h
              split at h
              · obtain ⟨ip, hip, -⟩ := Option.map_eq_some_iff.mp h
                intro c hc
                rcases parseV4_chars _ ip hip c (by simpa using hc) with rfl | hdigit
                · rfl
                · exact isGroupChar_of_digit c hdigit
              · cases h
      | cons next others =>
          simp only [parseGroups] at h
          split at h
          · rename_i group tail hgroup htail
            intro other hother
            rcases List.mem_cons.mp hother with rfl | hothers
            · exact parseGroup_chars _ group hgroup
            · exact ih tail htail other hothers
          · cases h

/-- An IPv6 text has a colon, and nothing but colons, dots and hexadecimal
digits. -/
theorem parseV6_chars (text : String) (ip : Ipv6Addr) (h : parseV6 text = some ip) :
    ':' ∈ text.toList ∧ ∀ c ∈ text.toList, c = ':' ∨ isGroupChar c = true := by
  have hpieces : ∀ dotted chars groups,
      parseGroups dotted (splitChars ':' chars) = some groups →
      ∀ c ∈ chars, c = ':' ∨ isGroupChar c = true := by
    intro dotted chars groups hgroups c hc
    rcases mem_splitChars ':' chars c hc with hcolon | ⟨piece, hpiece, hmem⟩
    · exact .inl hcolon
    · exact .inr (parseGroups_chars dotted _ groups hgroups piece hpiece c hmem)
  have hside : ∀ dotted chars groups, parseSide dotted chars = some groups →
      ∀ c ∈ chars, c = ':' ∨ isGroupChar c = true := by
    intro dotted chars groups hgroups
    unfold parseSide at hgroups
    split at hgroups
    · rename_i hnil
      simp [hnil]
    · exact hpieces dotted chars groups hgroups
  unfold parseV6 at h
  split at h
  · obtain ⟨groups, hgroups, hall⟩ := Option.bind_eq_some_iff.mp h
    refine ⟨?_, hpieces true text.toList groups hgroups⟩
    by_contra hcolon
    rw [splitChars_of_not_mem ':' text.toList hcolon] at hgroups
    simp only [parseGroups] at hgroups
    split at hgroups
    · cases hgroups
      cases hall
    · split at hgroups
      · obtain ⟨v4, -, hpair⟩ := Option.map_eq_some_iff.mp hgroups
        cases hpair
        cases hall
      · cases hgroups
  · rename_i head tail hsplit
    have htext := splitOnceChars_some _ _ _ _ hsplit
    split at h
    · rename_i front back hfront hback
      rw [htext]
      refine ⟨by simp, ?_⟩
      intro c hc
      simp only [List.mem_append, List.mem_cons, List.not_mem_nil, or_false] at hc
      rcases hc with (hhead | hcolon) | htail
      · exact hside false head front hfront c hhead
      · exact .inl (by rcases hcolon with h | h <;> exact h)
      · exact hside true tail back hback c htail
    · cases h

/-! ### The guards -/

/-- One lookup: the addresses a name and port resolve to, or the error. -/
abbrev Lookup := String → Nat → Except String (List IpAddr)

/-- Fails open when the name does not resolve: the connection decides. -/
def blockPrivateIp (v6 : V6Text) (lookup : Lookup) (host : String) (port : Nat)
    (allowPrivate : Bool) : Except String Unit :=
  if allowPrivate then .ok ()
  else
    match parseIp v6 host with
    | some addr =>
        if isPrivateIp addr then
          .error ("requests to private IP " ++ fmtIp v6 addr ++ " are blocked")
        else .ok ()
    | none =>
        match lookup host port with
        | .error _ => .ok ()
        | .ok addrs =>
            match addrs.find? isPrivateIp with
            | none => .ok ()
            | some addr => .error ("host '" ++ host ++ "' resolves to private IP " ++
                fmtIp v6 addr ++ ", blocked")

/-- Whether the pre-check lets a host through. -/
def passesBlock (v6 : V6Text) (lookup : Lookup) (host : String) (port : Nat)
    (allowPrivate : Bool) : Bool :=
  (blockPrivateIp v6 lookup host port allowPrivate).toOption.isSome

theorem passesBlock_literal (v6 : V6Text) (lookup : Lookup) (host : String)
    (port : Nat) (addr : IpAddr) (hparse : parseIp v6 host = some addr) :
    passesBlock v6 lookup host port false = !isPrivateIp addr := by
  unfold passesBlock blockPrivateIp
  cases hprivate : isPrivateIp addr with
  | true => simp [hparse, hprivate, Except.toOption]
  | false => simp [hparse, hprivate, Except.toOption]

/-- A name that yields no address passes: the check fails open. -/
theorem passesBlock_unresolved (v6 : V6Text) (lookup : Lookup) (host : String)
    (port : Nat) (hparse : parseIp v6 host = none)
    (hlookup : (lookup host port).toOption.getD [] = []) :
    passesBlock v6 lookup host port false = true := by
  unfold passesBlock blockPrivateIp
  cases hanswer : lookup host port with
  | error err => simp [hparse, Except.toOption]
  | ok addrs =>
      have hnil : addrs = [] := by simpa [hanswer, Except.toOption] using hlookup
      simp [hparse, hnil, Except.toOption]

/-- The loop of `require_private_target` over the addresses a name resolves to. -/
def requireAllPrivate (v6 : V6Text) (host : String) (resolved : Bool) :
    List IpAddr → Except String Unit
  | [] =>
      if resolved then .ok ()
      else .error ("box-direct target '" ++ host ++ "' did not resolve to any address")
  | addr :: rest =>
      if !isPrivateIp addr then
        .error ("box-direct target '" ++ host ++ "' resolves to public address " ++
          fmtIp v6 addr ++ "; a remote target must go through a broker")
      else requireAllPrivate v6 host true rest

/-- The inverse of `block_private_ip`. It fails closed: a mixed or unresolved name is
refused. -/
def requirePrivateTarget (v6 : V6Text) (lookup : Lookup) (host : String) (port : Nat) :
    Except String Unit :=
  match parseIp v6 host with
  | some addr =>
      if isPrivateIp addr then .ok ()
      else .error ("box-direct target " ++ fmtIp v6 addr ++
        " is a public address; a remote target must go through a broker")
  | none =>
      match lookup host port with
      | .error err => .error ("box-direct target '" ++ host ++ "' did not resolve: " ++ err)
      | .ok addrs => requireAllPrivate v6 host false addrs

theorem requireAllPrivate_ok (v6 : V6Text) (host : String) (resolved : Bool)
    (addrs : List IpAddr) :
    requireAllPrivate v6 host resolved addrs = .ok () ↔
      (resolved = true ∨ addrs ≠ []) ∧ ∀ addr ∈ addrs, isPrivateIp addr = true := by
  induction addrs generalizing resolved with
  | nil =>
      unfold requireAllPrivate
      cases resolved with
      | true => simp
      | false => simp
  | cons addr rest ih =>
      unfold requireAllPrivate
      cases hprivate : isPrivateIp addr with
      | false => simp [hprivate]
      | true => simp [hprivate, ih]

theorem requirePrivateTarget_literal (v6 : V6Text) (lookup : Lookup) (host : String) (port : Nat)
    (addr : IpAddr) (hparse : parseIp v6 host = some addr) :
    requirePrivateTarget v6 lookup host port = .ok () ↔ isPrivateIp addr = true := by
  unfold requirePrivateTarget
  rw [hparse]
  dsimp only
  cases isPrivateIp addr with
  | true => simp
  | false => simp

theorem requirePrivateTarget_name (v6 : V6Text) (lookup : Lookup) (host : String) (port : Nat)
    (hparse : parseIp v6 host = none) :
    requirePrivateTarget v6 lookup host port = .ok () ↔
      ∃ addrs, lookup host port = .ok addrs ∧ addrs ≠ [] ∧
        ∀ addr ∈ addrs, isPrivateIp addr = true := by
  unfold requirePrivateTarget
  rw [hparse]
  cases hlookup : lookup host port with
  | error err => simp
  | ok addrs =>
      dsimp only
      rw [requireAllPrivate_ok]
      simp

/-- Keeps the permitted addresses; an empty answer is an error. -/
def resolveFiltered (lookup : Lookup) (host : String) (allowPrivate : Bool) :
    Except String (List IpAddr) :=
  match lookup host 0 with
  | .error err => .error err
  | .ok addrs =>
      let kept := addrs.filter fun addr => allowPrivate || !isPrivateIp addr
      if kept.isEmpty then
        .error ("host '" ++ host ++ "' has no public address (SSRF-filtered)")
      else .ok kept

/-- The resolver the HTTP client is built with. -/
structure SsrfResolver where
  allowPrivate : Bool
  bypassHosts : List String

def SsrfResolver.resolve (resolver : SsrfResolver) (lower : String → String)
    (lookup : Lookup) (name : String) : Except String (List IpAddr) :=
  resolveFiltered lookup name
    (resolver.allowPrivate || resolver.bypassHosts.contains (lower name))

theorem resolveFiltered_public (lookup : Lookup) (host : String)
    (addrs : List IpAddr) (hok : resolveFiltered lookup host false = .ok addrs) :
    ∀ addr ∈ addrs, isPrivateIp addr = false := by
  intro addr haddr
  unfold resolveFiltered at hok
  cases hlookup : lookup host 0 with
  | error err => simp [hlookup] at hok
  | ok found =>
      simp only [hlookup] at hok
      split at hok
      · cases hok
      · have hkept := Except.ok.inj hok
        rw [← hkept] at haddr
        simpa using (List.mem_filter.mp haddr).2

/-- With the filter lifted, a lone private answer reaches the client. -/
theorem resolveFiltered_bypassed (lookup : Lookup) (host : String) (addr : IpAddr)
    (hlookup : lookup host 0 = .ok [addr]) :
    resolveFiltered lookup host true = .ok [addr] := by
  simp [resolveFiltered, hlookup]

end Runlet.Ssrf
