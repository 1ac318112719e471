import Runlet.Core.Ssrf

/-!
The URL guard of `http.rs` and the addresses the HTTP client ends up with.
`validate_url` runs on the request URL, `validate_redirect` on every hop, and
the client then connects: to a literal host directly, to a name through the
`SsrfResolver` built from the same allowlist. The URL crate, Unicode case
mapping and the IPv6 text forms are parameters.
-/

namespace Runlet.Http

open Ssrf Text

inductive Host where
  | domain (name : String)
  | literal (addr : IpAddr)
  deriving DecidableEq

/-- A parsed URL; `port` is the explicit one. -/
structure Url where
  scheme : String
  host : Option Host
  port : Option Nat
  deriving DecidableEq

/-- The library functions the guard is built on. -/
structure NetLib where
  parseUrl : String → Except String Url
  lower : String → String
  v6 : V6Text

/-- `host_str`: an IPv6 literal keeps its brackets. -/
def Host.str (net : NetLib) : Host → String
  | .domain name => name
  | .literal (.v4 ip) => fmtV4 ip
  | .literal (.v6 ip) => "[" ++ net.v6.fmt ip ++ "]"

/-- `port_or_known_default`. -/
def Url.portOrKnownDefault (url : Url) : Option Nat :=
  match url.port with
  | some port => some port
  | none =>
      match url.scheme with
      | "http" => some 80
      | "ws" => some 80
      | "https" => some 443
      | "wss" => some 443
      | "ftp" => some 21
      | _ => none

def Url.targetPort (url : Url) : Nat := url.portOrKnownDefault.getD 80

def allowedSchemes : List String := ["http", "https"]

def isSchemeAllowed (scheme : String) : Bool := allowedSchemes.contains scheme

def hostPort (net : NetLib) (host : String) (port : Nat) : String :=
  net.lower host ++ ":" ++ toString port

/-- A bare `host` matches any port, a `host:port` that target only; `*`
matches everything when the operator opted in. -/
def isHostAllowed (net : NetLib) (host : String) (port : Nat)
    (allowed : List String) (wildcardAllowed : Bool) : Bool :=
  (wildcardAllowed && allowed.contains "*") ||
    allowed.any fun entry =>
      net.lower entry == net.lower host || net.lower entry == hostPort net host port

/-- The allowlist names this exact `host:port`. -/
def isLocalBypass (net : NetLib) (host : String) (port : Nat)
    (allowed : List String) : Bool :=
  allowed.any fun entry => net.lower entry == hostPort net host port

/-- The lowercased hosts of the entries that end in a port. -/
def bypassHostSet (net : NetLib) (allowed : List String) : List String :=
  allowed.filterMap fun entry =>
    match rsplitOnce ':' entry with
    | none => none
    | some (host, port) =>
        if (parseUnsigned 65535 port).isSome ∧ host ≠ "" then some (net.lower host)
        else none

def validateUrl (net : NetLib) (lookup : Lookup) (url : String)
    (allowed : List String) (allowPrivate wildcardAllowed : Bool) :
    Except String String :=
  match net.parseUrl url with
  | .error err => .error ("invalid URL '" ++ url ++ "': " ++ err)
  | .ok parsed =>
      if !isSchemeAllowed parsed.scheme then
        .error ("scheme '" ++ parsed.scheme ++ "' is not allowed (only http/https)")
      else
        match parsed.host with
        | none => .error ("URL has no host: " ++ url)
        | some target =>
            let host := target.str net
            let port := parsed.targetPort
            if !isHostAllowed net host port allowed wildcardAllowed then
              .error ("host '" ++ host ++ "' is not in allowed_hosts")
            else if isLocalBypass net host port allowed then .ok host
            else
              match blockPrivateIp net.v6 lookup host port allowPrivate with
              | .error err => .error err
              | .ok () => .ok host

inductive RedirectAction where
  | follow
  | stop
  deriving DecidableEq

def maxRedirects : Nat := 5

/-- The policy on one hop, after `previous` earlier URLs. -/
def validateRedirect (net : NetLib) (lookup : Lookup) (hosts : List String)
    (previous : Nat) (url : Url) (allowPrivate wildcardAllowed : Bool) :
    RedirectAction :=
  if previous ≥ maxRedirects then .stop
  else if !isSchemeAllowed url.scheme then .stop
  else
    let host := (url.host.map (Host.str net)).getD ""
    let port := url.targetPort
    if !isHostAllowed net host port hosts wildcardAllowed then .stop
    else if !isLocalBypass net host port hosts &&
        (blockPrivateIp net.v6 lookup host port allowPrivate).toOption.isNone then .stop
    else .follow

/-- The resolver `inject_http` installs. -/
def requestResolver (net : NetLib) (allowed : List String) (allowPrivate : Bool) :
    SsrfResolver :=
  ⟨allowPrivate, bypassHostSet net allowed⟩

/-- The addresses the resolver hands to the client when it connects to a
host; a literal never reaches the resolver. -/
def handedAddrs (net : NetLib) (allowed : List String) (allowPrivate : Bool)
    (lookup : Lookup) : Host → List IpAddr
  | .literal _ => []
  | .domain name =>
      match (requestResolver net allowed allowPrivate).resolve net.lower lookup name with
      | .ok addrs => addrs
      | .error _ => []

/-! ### When the pre-check accepts -/

/-- The allowlist does not name the URL's `host:port`. -/
def NotListed (net : NetLib) (allowed : List String) (url : Url) (target : Host) : Prop :=
  isLocalBypass net (target.str net) url.targetPort allowed = false

instance (net : NetLib) (allowed : List String) (url : Url) (target : Host) :
    Decidable (NotListed net allowed url target) :=
  inferInstanceAs (Decidable (isLocalBypass _ _ _ _ = false))

/-- For a parsed http(s) URL whose target is not listed, `validate_url`
accepts exactly the allowed hosts that pass the private-address block. -/
theorem validateUrl_ok_iff (net : NetLib) (lookup : Lookup) (text : String)
    (url : Url) (target : Host) (allowed : List String) (wildcardAllowed : Bool)
    (hparse : net.parseUrl text = .ok url)
    (hscheme : isSchemeAllowed url.scheme = true) (hhost : url.host = some target)
    (hlisted : NotListed net allowed url target) :
    (∃ host, validateUrl net lookup text allowed false wildcardAllowed = .ok host) ↔
      isHostAllowed net (target.str net) url.targetPort allowed wildcardAllowed = true ∧
      passesBlock net.v6 lookup (target.str net) url.targetPort false = true := by
  unfold NotListed at hlisted
  simp only [validateUrl, hparse, hscheme, hhost, hlisted, passesBlock]
  cases isHostAllowed net (target.str net) url.targetPort allowed wildcardAllowed with
  | false => simp
  | true =>
      cases blockPrivateIp net.v6 lookup (target.str net) url.targetPort false with
      | error err => simp [Except.toOption]
      | ok _ => simp [Except.toOption]

theorem validateRedirect_follow_iff (net : NetLib) (lookup : Lookup)
    (hosts : List String) (previous : Nat) (url : Url) (target : Host)
    (wildcardAllowed : Bool)
    (hscheme : isSchemeAllowed url.scheme = true) (hhost : url.host = some target)
    (hlisted : NotListed net hosts url target) :
    validateRedirect net lookup hosts previous url false wildcardAllowed = .follow ↔
      previous < maxRedirects ∧
      isHostAllowed net (target.str net) url.targetPort hosts wildcardAllowed = true ∧
      passesBlock net.v6 lookup (target.str net) url.targetPort false = true := by
  unfold NotListed at hlisted
  simp only [validateRedirect, hscheme, hhost, Option.map_some, Option.getD_some,
    hlisted, passesBlock]
  by_cases hhops : previous ≥ maxRedirects
  · simp only [hhops, if_true]
    constructor
    · intro h
      cases h
    · intro h
      omega
  · have hlt : previous < maxRedirects := by omega
    cases isHostAllowed net (target.str net) url.targetPort hosts wildcardAllowed with
    | false => simp [hhops]
    | true =>
        cases blockPrivateIp net.v6 lookup (target.str net) url.targetPort false with
        | error err => simp [hhops, Except.toOption]
        | ok _ => simp [hhops, hlt, Except.toOption]

/-! ### Literal hosts -/

/-- The standard library reads no bracketed text as an IPv6 address. -/
def BracketsDoNotParse (net : NetLib) : Prop :=
  ∀ text, net.v6.parse ("[" ++ text ++ "]") = none

/-- Resolving a bracketed text yields no address. -/
def BracketsDoNotResolve (lookup : Lookup) : Prop :=
  ∀ text port, (lookup ("[" ++ text ++ "]") port).toOption.getD [] = []

theorem parseIp_bracketed (net : NetLib) (hparse : BracketsDoNotParse net)
    (text : String) : parseIp net.v6 ("[" ++ text ++ "]") = none := by
  have hassoc : "[" ++ text ++ "]" = "[" ++ (text ++ "]") := String.append_assoc
  have hv4 : parseV4 ("[" ++ text ++ "]") = none := by
    rw [hassoc]
    exact parseV4_bracketed (text ++ "]")
  simp [parseIp, hv4, hparse text]

/-- For a literal host the guard keeps private addresses out exactly when it
never meets an allowed private address in the bracketed IPv6 form: that form
is read as a name that does not resolve. -/
theorem literal_guard_iff (net : NetLib) (hbrackets : BracketsDoNotParse net)
    (lookup : Lookup) (hresolve : BracketsDoNotResolve lookup)
    (text : String) (url : Url) (addr : IpAddr) (allowed : List String)
    (wildcardAllowed : Bool) (hparse : net.parseUrl text = .ok url)
    (hscheme : isSchemeAllowed url.scheme = true)
    (hhost : url.host = some (.literal addr))
    (hlisted : NotListed net allowed url (.literal addr)) :
    ((∃ host, validateUrl net lookup text allowed false wildcardAllowed = .ok host) →
      isPrivateIp addr = false) ↔
    ¬ ((∃ ip, addr = .v6 ip) ∧ isPrivateIp addr = true ∧
      isHostAllowed net ((Host.literal addr).str net) url.targetPort allowed
        wildcardAllowed = true) := by
  rw [validateUrl_ok_iff net lookup text url (.literal addr) allowed wildcardAllowed
    hparse hscheme hhost hlisted]
  cases addr with
  | v4 ip =>
      have hblock : passesBlock net.v6 lookup ((Host.literal (.v4 ip)).str net)
          url.targetPort false = !isPrivateIp (.v4 ip) :=
        passesBlock_literal net.v6 lookup _ _ (.v4 ip) (parseIp_fmtV4 net.v6 ip)
      rw [hblock]
      constructor
      · rintro - ⟨⟨other, hother⟩, -⟩
        cases hother
      · rintro - ⟨-, hpublic⟩
        simpa using hpublic
  | v6 ip =>
      have hblock : passesBlock net.v6 lookup ((Host.literal (.v6 ip)).str net)
          url.targetPort false = true :=
        passesBlock_unresolved net.v6 lookup _ _
          (parseIp_bracketed net hbrackets (net.v6.fmt ip))
          (hresolve (net.v6.fmt ip) url.targetPort)
      rw [hblock]
      constructor
      · rintro hsafe ⟨-, hprivate, hallowed⟩
        rw [hsafe ⟨hallowed, rfl⟩] at hprivate
        cases hprivate
      · rintro hcond ⟨hallowed, -⟩
        by_contra hprivate
        exact hcond ⟨⟨ip, rfl⟩, by simpa using hprivate, hallowed⟩

def loopbackV6 : Ipv6Addr := ⟨0, 0, 0, 0, 0, 0, 0, 1⟩

/-- The library on three URLs and one IPv6 text. -/
def sampleNet : NetLib where
  parseUrl := fun text =>
    match text with
    | "http://8.8.8.8/" => .ok ⟨"http", some (.literal (.v4 ⟨8, 8, 8, 8⟩)), none⟩
    | "http://[::1]:8080/" => .ok ⟨"http", some (.literal (.v6 loopbackV6)), some 8080⟩
    | "http://internal.example:9999/" =>
        .ok ⟨"http", some (.domain "internal.example"), some 9999⟩
    | _ => .error "relative URL without a base"
  lower := toAsciiLowercase
  v6 := ⟨fun ip => if ip = loopbackV6 then "::1" else "::",
    fun text => if text = "::1" then some loopbackV6 else none⟩

def noAnswer : Lookup := fun _ _ => .error "no answer"

theorem sampleNet_brackets : BracketsDoNotParse sampleNet := by
  intro text
  have hne : "[" ++ text ++ "]" ≠ "::1" := by
    intro heq
    have hlist := congrArg String.toList heq
    simp [String.toList_append] at hlist
  simp [sampleNet, hne]

theorem noAnswer_brackets : BracketsDoNotResolve noAnswer := fun _ _ => rfl

theorem literal_guard_iff_public :
    (∃ host, validateUrl sampleNet noAnswer "http://8.8.8.8/" ["8.8.8.8"] false false =
      .ok host) ∧
    isPrivateIp (.v4 ⟨8, 8, 8, 8⟩) = false := by
  have hok : validateUrl sampleNet noAnswer "http://8.8.8.8/" ["8.8.8.8"] false false =
      .ok "8.8.8.8" := by decide
  refine ⟨⟨_, hok⟩, ?_⟩
  refine (literal_guard_iff sampleNet sampleNet_brackets noAnswer noAnswer_brackets
    "http://8.8.8.8/" _ (.v4 ⟨8, 8, 8, 8⟩) ["8.8.8.8"] false rfl (by decide) rfl
    (by decide)).mpr ?_ ⟨_, hok⟩
  rintro ⟨⟨ip, hip⟩, -⟩
  cases hip

/-- The allowed loopback literal `[::1]` is accepted. -/
theorem literal_guard_accepts_loopback_v6 :
    BracketsDoNotParse sampleNet ∧ BracketsDoNotResolve noAnswer ∧
    sampleNet.parseUrl "http://[::1]:8080/" =
      .ok ⟨"http", some (.literal (.v6 loopbackV6)), some 8080⟩ ∧
    isLocalBypass sampleNet "[::1]" 8080 ["[::1]"] = false ∧
    validateUrl sampleNet noAnswer "http://[::1]:8080/" ["[::1]"] false false =
      .ok "[::1]" ∧
    isPrivateIp (.v6 loopbackV6) = true :=
  ⟨sampleNet_brackets, noAnswer_brackets, rfl, by decide, by decide, by decide⟩

/-! ### Named hosts -/

/-- A URL as the URL crate builds it: a host text that reads as an address is
a literal, never a domain. -/
def Url.WellFormed (net : NetLib) (url : Url) : Prop :=
  ∀ name, url.host = some (.domain name) → parseIp net.v6 name = none

/-- The connect-time filter is lifted for an allowed name: some entry carries
the same host with a port, be it another port. -/
def Exposed (net : NetLib) (allowed : List String) (wildcardAllowed : Bool)
    (url : Url) : Prop :=
  isSchemeAllowed url.scheme = true ∧ ∃ name, url.host = some (.domain name) ∧
    isHostAllowed net name url.targetPort allowed wildcardAllowed = true ∧
    net.lower name ∈ bypassHostSet net allowed

/-- Every address the client is handed for this URL is public. -/
def HandedPublic (net : NetLib) (allowed : List String) (atConnect : Lookup)
    (url : Url) : Prop :=
  ∀ target, url.host = some target →
    ∀ addr ∈ handedAddrs net allowed false atConnect target, isPrivateIp addr = false

theorem handed_public (net : NetLib) (allowed : List String) (atConnect : Lookup)
    (name : String) (hbypass : net.lower name ∉ bypassHostSet net allowed) :
    ∀ addr ∈ handedAddrs net allowed false atConnect (.domain name),
      isPrivateIp addr = false := by
  intro addr haddr
  have hfilter : (requestResolver net allowed false).resolve net.lower atConnect name =
      resolveFiltered atConnect name false := by
    simp [requestResolver, SsrfResolver.resolve, hbypass]
  simp only [handedAddrs, hfilter] at haddr
  cases hresolved : resolveFiltered atConnect name false with
  | error err => simp [hresolved] at haddr
  | ok addrs =>
      rw [hresolved] at haddr
      exact resolveFiltered_public atConnect name addrs hresolved addr haddr

/-- Resolves every name to the loopback address. -/
def loopbackLookup : Lookup := fun _ _ => .ok [.v4 ⟨127, 0, 0, 1⟩]

theorem handed_loopback (net : NetLib) (allowed : List String) (name : String)
    (hbypass : net.lower name ∈ bypassHostSet net allowed) :
    handedAddrs net allowed false loopbackLookup (.domain name) =
      [.v4 ⟨127, 0, 0, 1⟩] := by
  have hfilter : (requestResolver net allowed false).resolve net.lower
      loopbackLookup name = .ok [.v4 ⟨127, 0, 0, 1⟩] := by
    simp only [requestResolver, SsrfResolver.resolve, Bool.false_or]
    rw [List.contains_iff_mem.mpr hbypass]
    exact resolveFiltered_bypassed loopbackLookup name _ rfl
  simp [handedAddrs, hfilter]

theorem validateUrl_scheme (net : NetLib) (lookup : Lookup) (text : String) (url : Url)
    (allowed : List String) (wildcardAllowed : Bool) (host : String)
    (hparse : net.parseUrl text = .ok url)
    (hok : validateUrl net lookup text allowed false wildcardAllowed = .ok host) :
    isSchemeAllowed url.scheme = true := by
  by_contra hscheme
  have hrefused : isSchemeAllowed url.scheme = false := by simpa using hscheme
  simp [validateUrl, hparse, hrefused] at hok

theorem validateRedirect_scheme (net : NetLib) (lookup : Lookup) (hosts : List String)
    (previous : Nat) (url : Url) (wildcardAllowed : Bool)
    (hfollow : validateRedirect net lookup hosts previous url false wildcardAllowed =
      .follow) :
    isSchemeAllowed url.scheme = true := by
  by_contra hscheme
  have hrefused : isSchemeAllowed url.scheme = false := by simpa using hscheme
  unfold validateRedirect at hfollow
  split at hfollow
  · cases hfollow
  · simp [hrefused] at hfollow

/-- What a pre-check that accepts guarantees: it accepts only allowed hosts,
so an unexposed URL is filtered when the client connects. -/
theorem handedPublic_of_not_exposed (net : NetLib) (allowed : List String)
    (wildcardAllowed : Bool) (atConnect : Lookup) (url : Url)
    (hscheme : isSchemeAllowed url.scheme = true)
    (hallowed : ∀ target, url.host = some target →
      isHostAllowed net (target.str net) url.targetPort allowed wildcardAllowed = true)
    (hexposed : ¬ Exposed net allowed wildcardAllowed url) :
    HandedPublic net allowed atConnect url := by
  intro target hhost addr haddr
  cases target with
  | literal ip => cases haddr
  | domain name =>
      have hbypass : net.lower name ∉ bypassHostSet net allowed := by
        intro hmem
        exact hexposed ⟨hscheme, name, hhost, hallowed (.domain name) hhost, hmem⟩
      exact handed_public net allowed atConnect name hbypass addr haddr

/-- Both guards together, over every pair of DNS answers: a target that is not
listed as `host:port` is kept public exactly when its name is not the host of
some other `host:port` entry. The second part is the same for a redirect hop. -/
theorem connect_public_iff (net : NetLib)
    (hurls : ∀ text url, net.parseUrl text = .ok url → isSchemeAllowed url.scheme = true →
      url.WellFormed net)
    (text : String) (url : Url) (allowed : List String) (wildcardAllowed : Bool)
    (hparse : net.parseUrl text = .ok url)
    (hlisted : ∀ target, url.host = some target → NotListed net allowed url target) :
    ((∀ before atConnect host,
      validateUrl net before text allowed false wildcardAllowed = .ok host →
        HandedPublic net allowed atConnect url) ↔
      ¬ Exposed net allowed wildcardAllowed url) ∧
    ∀ previous,
      (∀ before atConnect,
        validateRedirect net before allowed previous url false wildcardAllowed =
          .follow → HandedPublic net allowed atConnect url) ↔
      ¬ (previous < maxRedirects ∧ Exposed net allowed wildcardAllowed url) := by
  have hprivate : isPrivateIp (.v4 ⟨127, 0, 0, 1⟩) = true := by decide
  -- The pre-check meets a name that does not resolve yet, and passes.
  have hpasses : isSchemeAllowed url.scheme = true → ∀ name, url.host = some (.domain name) →
      passesBlock net.v6 (fun _ _ => .error "no answer") name url.targetPort false =
        true := by
    intro hscheme name hhost
    exact passesBlock_unresolved net.v6 _ name _ (hurls text url hparse hscheme name hhost) rfl
  have hhanded : Exposed net allowed wildcardAllowed url →
      ¬ HandedPublic net allowed loopbackLookup url := by
    rintro ⟨-, name, hhost, -, hmem⟩ hpublic
    have h := hpublic (.domain name) hhost (.v4 ⟨127, 0, 0, 1⟩)
      (by rw [handed_loopback net allowed name hmem]; simp)
    rw [hprivate] at h
    cases h
  refine ⟨⟨?_, ?_⟩, fun previous => ⟨?_, ?_⟩⟩
  · intro hsafe hexposed
    obtain ⟨hscheme, name, hhost, hallowed, hmem⟩ := hexposed
    obtain ⟨host, hok⟩ := (validateUrl_ok_iff net (fun _ _ => .error "no answer") text
      url (.domain name) allowed wildcardAllowed hparse hscheme hhost
      (hlisted _ hhost)).mpr ⟨hallowed, hpasses hscheme name hhost⟩
    exact hhanded ⟨hscheme, name, hhost, hallowed, hmem⟩
      (hsafe _ loopbackLookup host hok)
  · intro hexposed before atConnect host hok
    have hscheme := validateUrl_scheme net before text url allowed wildcardAllowed
      host hparse hok
    refine handedPublic_of_not_exposed net allowed wildcardAllowed atConnect url
      hscheme ?_ hexposed
    intro target hhost
    exact ((validateUrl_ok_iff net before text url target allowed wildcardAllowed
      hparse hscheme hhost (hlisted target hhost)).mp ⟨host, hok⟩).1
  · rintro hsafe ⟨hhops, hexposed⟩
    obtain ⟨hscheme, name, hhost, hallowed, hmem⟩ := hexposed
    have hfollow := (validateRedirect_follow_iff net (fun _ _ => .error "no answer")
      allowed previous url (.domain name) wildcardAllowed hscheme hhost
      (hlisted _ hhost)).mpr ⟨hhops, hallowed, hpasses hscheme name hhost⟩
    exact hhanded ⟨hscheme, name, hhost, hallowed, hmem⟩
      (hsafe _ loopbackLookup hfollow)
  · intro hcond before atConnect hfollow
    have hscheme := validateRedirect_scheme net before allowed previous url
      wildcardAllowed hfollow
    intro target hhost
    obtain ⟨hhops, hallowed, -⟩ := (validateRedirect_follow_iff net before allowed
      previous url target wildcardAllowed hscheme hhost (hlisted target hhost)).mp hfollow
    refine handedPublic_of_not_exposed net allowed wildcardAllowed atConnect url
      hscheme ?_ (fun hexposed => hcond ⟨hhops, hexposed⟩) target hhost
    intro other hother
    have heq : target = other := Option.some.inj (hhost.symm.trans hother)
    exact heq ▸ hallowed

theorem sampleNet_wellFormed (text : String) (url : Url)
    (hparse : sampleNet.parseUrl text = .ok url) : url.WellFormed sampleNet := by
  intro name hhost
  unfold sampleNet at hparse
  simp only at hparse
  split at hparse
  · cases Except.ok.inj hparse
    cases hhost
  · cases Except.ok.inj hparse
    cases hhost
  · cases Except.ok.inj hparse
    cases hhost
    decide
  · cases hparse

def publicLookup : Lookup := fun _ _ => .ok [.v4 ⟨93, 184, 216, 34⟩]

/-- A name without any `host:port` entry: the pre-check accepts it, and a later
loopback answer is not handed to the client. -/
theorem connect_public_iff_bare_entry :
    validateUrl sampleNet publicLookup "http://internal.example:9999/"
      ["internal.example"] false false = .ok "internal.example" ∧
    HandedPublic sampleNet ["internal.example"] loopbackLookup
      ⟨"http", some (.domain "internal.example"), some 9999⟩ := by
  have haccepted : validateUrl sampleNet publicLookup "http://internal.example:9999/"
      ["internal.example"] false false = .ok "internal.example" := by decide
  refine ⟨haccepted, ?_⟩
  refine (connect_public_iff sampleNet
    (fun text url hparse _ => sampleNet_wellFormed text url hparse)
    "http://internal.example:9999/" _ ["internal.example"] false rfl ?_).1.mpr ?_
    publicLookup loopbackLookup "internal.example" haccepted
  · intro target hhost
    cases hhost
    decide
  · rintro ⟨-, name, -, -, hmem⟩
    have hempty : bypassHostSet sampleNet ["internal.example"] = [] := by decide
    rw [hempty] at hmem
    cases hmem

def portListed : List String := ["internal.example", "internal.example:8000"]

/-- Port 9999 is not listed, the pre-check sees a public address, and the
resolver still hands out the loopback address: port 8000 is listed. -/
theorem connect_hands_loopback_on_other_port :
    isLocalBypass sampleNet "internal.example" 9999 portListed = false ∧
    validateUrl sampleNet publicLookup "http://internal.example:9999/" portListed
      false false = .ok "internal.example" ∧
    handedAddrs sampleNet portListed false loopbackLookup (.domain "internal.example") =
      [.v4 ⟨127, 0, 0, 1⟩] ∧
    isPrivateIp (.v4 ⟨127, 0, 0, 1⟩) = true := by
  refine ⟨by decide, by decide, by decide, by decide⟩

end Runlet.Http
