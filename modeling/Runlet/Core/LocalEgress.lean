import Runlet.Core.Embeddings
import Runlet.Core.Http

/-!
The boot guard on box-direct bindings, `check_local_egress_url`. It takes the host
of the URL as a text, and an IPv6 literal in its brackets is neither read as an
address nor resolved.
-/

namespace Runlet.Http

open Ssrf Text

def checkLocalEgressUrl (net : NetLib) (lookup : Lookup) (url : String) : Except String Unit :=
  match net.parseUrl url with
  | .error err => .error ("invalid box-direct url '" ++ url ++ "': " ++ err)
  | .ok parsed =>
      if !isSchemeAllowed parsed.scheme then
        .error ("box-direct url scheme '" ++ parsed.scheme ++
          "' is not allowed (only http/https)")
      else
        match parsed.host with
        | none => .error ("box-direct url has no host: " ++ url)
        | some host => requirePrivateTarget net.v6 lookup (host.str net) parsed.targetPort

/-- A private literal, or a name that resolves, and to private addresses only. -/
def Colocated (lookup : Lookup) (url : Url) : Prop :=
  (∃ addr, url.host = some (.literal addr) ∧ isPrivateIp addr = true) ∨
  ∃ name addrs, url.host = some (.domain name) ∧ lookup name url.targetPort = .ok addrs ∧
    addrs ≠ [] ∧ ∀ addr ∈ addrs, isPrivateIp addr = true

/-- The guard accepts the co-located targets and no others. -/
def EgressLaw (net : NetLib) (lookup : Lookup) (text : String) (url : Url) : Prop :=
  checkLocalEgressUrl net lookup text = .ok () ↔ Colocated lookup url

/-- The host is an IPv6 literal, and a private one. -/
def PrivateV6Host (url : Url) : Prop :=
  ∃ ip, url.host = some (.literal (.v6 ip)) ∧ isPrivateV6 ip = true

section Guard

variable (net : NetLib) (lookup : Lookup) (text : String) (url : Url)

theorem checkLocalEgressUrl_host (host : Host) (hparse : net.parseUrl text = .ok url)
    (hscheme : isSchemeAllowed url.scheme = true) (hhost : url.host = some host) :
    checkLocalEgressUrl net lookup text =
      requirePrivateTarget net.v6 lookup (host.str net) url.targetPort := by
  unfold checkLocalEgressUrl
  rw [hparse]
  dsimp only
  rw [hscheme, hhost]
  rfl

theorem colocated_literal (addr : IpAddr) (hhost : url.host = some (.literal addr)) :
    Colocated lookup url ↔ isPrivateIp addr = true := by
  unfold Colocated
  rw [hhost]
  constructor
  · rintro (⟨other, hother, hprivate⟩ | ⟨name, addrs, hname, -⟩)
    · obtain rfl := Host.literal.inj (Option.some.inj hother)
      exact hprivate
    · cases hname
  · exact fun hprivate => .inl ⟨addr, rfl, hprivate⟩

theorem colocated_domain (name : String) (hhost : url.host = some (.domain name)) :
    Colocated lookup url ↔
      ∃ addrs, lookup name url.targetPort = .ok addrs ∧ addrs ≠ [] ∧
        ∀ addr ∈ addrs, isPrivateIp addr = true := by
  unfold Colocated
  rw [hhost]
  constructor
  · rintro (⟨addr, haddr, -⟩ | ⟨other, addrs, hother, hresolved⟩)
    · cases haddr
    · obtain rfl := Host.domain.inj (Option.some.inj hother)
      exact ⟨addrs, hresolved⟩
  · rintro ⟨addrs, hresolved⟩
    exact .inr ⟨name, addrs, rfl, hresolved⟩

/-- A text in brackets is refused as a name without an address. -/
theorem requirePrivateTarget_bracketed (hbrackets : BracketsDoNotParse net)
    (hresolve : BracketsDoNotResolve lookup) (inner : String) (port : Nat) :
    requirePrivateTarget net.v6 lookup ("[" ++ inner ++ "]") port ≠ .ok () := by
  rw [Ne, requirePrivateTarget_name _ _ _ _ (parseIp_bracketed net hbrackets inner)]
  rintro ⟨addrs, haddrs, hne, -⟩
  have hnone := hresolve inner port
  rw [haddrs] at hnone
  exact hne hnone

/-- The guard decides co-location for every URL but those whose host is a private IPv6
literal, and refuses those. -/
theorem egressLaw_iff (hbrackets : BracketsDoNotParse net)
    (hresolve : BracketsDoNotResolve lookup)
    (hurls : ∀ text url, net.parseUrl text = .ok url → isSchemeAllowed url.scheme = true →
      url.WellFormed net)
    (hparse : net.parseUrl text = .ok url) (hscheme : isSchemeAllowed url.scheme = true) :
    EgressLaw net lookup text url ↔ ¬PrivateV6Host url := by
  unfold EgressLaw PrivateV6Host
  cases hhost : url.host with
  | none =>
      have hrefused : checkLocalEgressUrl net lookup text ≠ .ok () := by
        unfold checkLocalEgressUrl
        rw [hparse]
        dsimp only
        rw [hscheme, hhost]
        nofun
      have hremote : ¬Colocated lookup url := by
        unfold Colocated
        rw [hhost]
        rintro (⟨addr, haddr, -⟩ | ⟨name, addrs, hname, -⟩)
        · cases haddr
        · cases hname
      refine ⟨?_, fun _ => iff_of_false hrefused hremote⟩
      rintro - ⟨ip, hip, -⟩
      cases hip
  | some host =>
      rw [checkLocalEgressUrl_host net lookup text url host hparse hscheme hhost]
      cases host with
      | domain name =>
          have hname := hurls text url hparse hscheme name hhost
          rw [colocated_domain lookup url name hhost]
          refine ⟨?_, fun _ => requirePrivateTarget_name net.v6 lookup name _ hname⟩
          rintro - ⟨ip, hip, -⟩
          cases hip
      | literal addr =>
          rw [colocated_literal lookup url addr hhost]
          cases addr with
          | v4 ip =>
              refine ⟨?_, fun _ => ?_⟩
              · rintro - ⟨other, hother, -⟩
                cases hother
              · exact requirePrivateTarget_literal net.v6 lookup _ _ _ (parseIp_fmtV4 net.v6 ip)
          | v6 ip =>
              have hrefused := requirePrivateTarget_bracketed net lookup hbrackets hresolve
                (net.v6.fmt ip) url.targetPort
              constructor
              · rintro hlaw ⟨other, hother, hprivate⟩
                cases hother
                exact hrefused (hlaw.mpr hprivate)
              · intro hpublic
                exact iff_of_false hrefused fun hprivate => hpublic ⟨ip, rfl, hprivate⟩

end Guard

/-- No text in brackets is an IPv6 address. -/
theorem parseV6_bracketed (text : String) : parseV6 ("[" ++ text ++ "]") = none := by
  cases hparse : parseV6 ("[" ++ text ++ "]") with
  | none => rfl
  | some ip =>
      have hmem : '[' ∈ ("[" ++ text ++ "]").toList := by simp [String.toList_append]
      rcases (parseV6_chars _ ip hparse).2 '[' hmem with hcolon | hgroup
      · cases hcolon
      · cases hgroup

/-- The library on three bindings. -/
def bindingNet : NetLib where
  parseUrl := fun text =>
    match text with
    | "http://127.0.0.1:9000/" => .ok ⟨"http", some (.literal (.v4 ⟨127, 0, 0, 1⟩)), some 9000⟩
    | "http://[::1]:9000/" => .ok ⟨"http", some (.literal (.v6 .localhost)), some 9000⟩
    | "http://localhost/" => .ok ⟨"http", some (.domain "localhost"), none⟩
    | _ => .error "relative URL without a base"
  lower := toAsciiLowercase
  v6 := ⟨fun ip => if ip = .localhost then "::1" else "::", parseV6⟩

def localhostLookup : Lookup := fun name _ =>
  if name = "localhost" then .ok [.v6 .localhost, .v4 ⟨127, 0, 0, 1⟩]
  else .error "failed to lookup address information"

theorem bindingNet_brackets : BracketsDoNotParse bindingNet := parseV6_bracketed

theorem localhostLookup_brackets : BracketsDoNotResolve localhostLookup := by
  intro text port
  have hne : "[" ++ text ++ "]" ≠ "localhost" := by
    intro heq
    have hlist := congrArg String.toList heq
    simp [String.toList_append] at hlist
  unfold localhostLookup
  rw [if_neg hne]
  rfl

theorem bindingNet_wellFormed (text : String) (url : Url)
    (hparse : bindingNet.parseUrl text = .ok url) : url.WellFormed bindingNet := by
  intro name hhost
  unfold bindingNet at hparse
  simp only at hparse
  split at hparse
  · cases Except.ok.inj hparse
    cases hhost
  · cases Except.ok.inj hparse
    cases hhost
  · cases Except.ok.inj hparse
    cases hhost
    decide
  · cases hparse

/-- The name `localhost`, with a loopback address of either family. -/
theorem egressLaw_localhost :
    checkLocalEgressUrl bindingNet localhostLookup "http://localhost/" = .ok () ∧
    Colocated localhostLookup ⟨"http", some (.domain "localhost"), none⟩ := by
  have haccepted : checkLocalEgressUrl bindingNet localhostLookup "http://localhost/" = .ok () := by
    decide
  refine ⟨haccepted, ?_⟩
  apply ((egressLaw_iff bindingNet localhostLookup "http://localhost/" _ bindingNet_brackets
    localhostLookup_brackets (fun text url hparse _ => bindingNet_wellFormed text url hparse)
    rfl (by decide)).mpr ?_).mp haccepted
  rintro ⟨ip, hip, -⟩
  cases hip

/-- The loopback literal `[::1]` is refused, as a name that does not resolve. -/
theorem egressLaw_loopback :
    BracketsDoNotParse bindingNet ∧ BracketsDoNotResolve localhostLookup ∧
    bindingNet.parseUrl "http://[::1]:9000/" =
      .ok ⟨"http", some (.literal (.v6 .localhost)), some 9000⟩ ∧
    checkLocalEgressUrl bindingNet localhostLookup "http://[::1]:9000/" =
      .error ("box-direct target '[::1]' did not resolve: " ++
        "failed to lookup address information") ∧
    ¬EgressLaw bindingNet localhostLookup "http://[::1]:9000/"
      ⟨"http", some (.literal (.v6 .localhost)), some 9000⟩ := by
  have hrefused : checkLocalEgressUrl bindingNet localhostLookup "http://[::1]:9000/" =
      .error ("box-direct target '[::1]' did not resolve: " ++
        "failed to lookup address information") := by decide
  refine ⟨bindingNet_brackets, localhostLookup_brackets, rfl, hrefused, ?_⟩
  intro hlaw
  have haccepted := hlaw.mpr (.inl ⟨_, rfl, by decide⟩)
  rw [hrefused] at haccepted
  cases haccepted

end Runlet.Http
