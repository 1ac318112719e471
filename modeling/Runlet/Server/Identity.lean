import Runlet.Lib.Text

/-!
The trusted identity of one request: `identity.rs`, the claims a verified
contract carries (`contract.rs`) and the verification of the contract token.
Header values are byte strings, since a value that is not visible ASCII reads
as absent. The signature and claim checks of the JWT library are parameters.
-/

namespace Runlet.Identity

open Text

/-- The request headers: lowercase names, each with its raw value bytes. -/
abbrev HeaderMap := List (String × List UInt8)

/-- The first value under a name; names compare case-insensitively. -/
def HeaderMap.get (headers : HeaderMap) (name : String) : Option (List UInt8) :=
  headers.lookup (toAsciiLowercase name)

def visibleAscii (byte : UInt8) : Bool :=
  (32 ≤ byte.toNat && byte.toNat < 127) || byte.toNat == 9

/-- `HeaderValue::to_str`. -/
def toStr (value : List UInt8) : Option String :=
  if value.all visibleAscii then
    some (String.ofList (value.map fun byte => Char.ofNat byte.toNat))
  else none

/-- A trimmed, non-empty header text. -/
def headerValue (headers : HeaderMap) (name : String) : Option String :=
  (((headers.get name).bind toStr).map trim).filter fun text => text ≠ ""

def headerList (headers : HeaderMap) (name : String) : List String :=
  match headerValue headers name with
  | none => []
  | some raw => ((split ',' raw).map trim).filter fun item => item ≠ ""

/-- `Test` runs never enter the live stream. -/
inductive RunMode where
  | live
  | test
  deriving DecidableEq, Repr

def headerMode (headers : HeaderMap) (name : String) : RunMode :=
  match (headerValue headers name).map toAsciiLowercase with
  | some "test" => .test
  | some "playground" => .test
  | _ => .live

def headerFlag (headers : HeaderMap) (name : String) : Bool :=
  match (headerValue headers name).map toAsciiLowercase with
  | some "true" => true
  | some "1" => true
  | _ => false

inductive LogLevel where
  | trace
  | debug
  | info
  | warn
  | error
  deriving DecidableEq, Repr

def LogLevel.parse (name : String) : Option LogLevel :=
  match name with
  | "trace" => some .trace
  | "debug" => some .debug
  | "info" => some .info
  | "warn" => some .warn
  | "error" => some .error
  | _ => none

/-- The operator-configured header names. -/
structure TrustedHeaders where
  tenant : String
  user : String
  roles : String
  entitlements : String
  suspended : String
  anonymous : String
  plan : String
  scope : String
  mode : String
  capture : String
  logLevel : String
  contract : String

structure TrustedIdentity where
  tenant : Option String
  user : Option String
  roles : List String
  entitlements : List String
  suspended : Bool
  anonymous : Bool
  plan : Option String
  principalKind : Option String
  onBehalfOf : Option String
  scope : Option String
  mode : RunMode
  capture : Bool
  logLevel : Option LogLevel
  deriving DecidableEq

def TrustedIdentity.fromHeaders (headers : HeaderMap) (names : TrustedHeaders) :
    TrustedIdentity where
  tenant := headerValue headers names.tenant
  user := headerValue headers names.user
  roles := headerList headers names.roles
  entitlements := headerList headers names.entitlements
  suspended := headerFlag headers names.suspended
  anonymous := headerFlag headers names.anonymous
  plan := headerValue headers names.plan
  principalKind := none
  onBehalfOf := none
  scope := headerValue headers names.scope
  mode := headerMode headers names.mode
  capture := headerFlag headers names.capture
  logLevel := (headerValue headers names.logLevel).bind fun raw =>
    LogLevel.parse (toAsciiLowercase raw)

/-- The identity a verified contract carries; `suspended` is tri-state. -/
structure VerifiedClaims where
  tenant : Option String
  user : Option String
  principalKind : Option String
  onBehalfOf : Option String
  roles : List String
  entitlements : List String
  suspended : Option Bool
  plan : Option String
  deriving DecidableEq

/-- Overlays verified claims: they win over any header. -/
def TrustedIdentity.applyContract (identity : TrustedIdentity)
    (claims : VerifiedClaims) : TrustedIdentity :=
  { identity with
    tenant := claims.tenant
    user := claims.user
    roles := claims.roles
    entitlements := claims.entitlements
    plan := claims.plan
    principalKind := claims.principalKind
    onBehalfOf := claims.onBehalfOf
    anonymous := false
    suspended := false }

/-- Roles and entitlements are one membership pool. -/
def TrustedIdentity.hasGrant (identity : TrustedIdentity) (needle : String) : Bool :=
  identity.entitlements.contains needle || identity.roles.contains needle

/-! ### The contract token -/

inductive ContractError where
  | malformed
  | unknownKey
  | keysUnavailable
  | invalid
  | unsupportedVersion
  deriving DecidableEq, Repr

def ContractError.code : ContractError → String
  | .malformed => "CONTRACT_MALFORMED"
  | .unknownKey => "CONTRACT_UNKNOWN_KEY"
  | .keysUnavailable => "CONTRACT_KEYS_UNAVAILABLE"
  | .invalid => "CONTRACT_INVALID"
  | .unsupportedVersion => "CONTRACT_VERSION_UNSUPPORTED"

def ContractError.message : ContractError → String
  | .malformed => "identity contract is malformed"
  | .unknownKey => "identity contract signed by an unknown key"
  | .keysUnavailable => "identity verification keys are unavailable"
  | .invalid => "identity contract failed verification"
  | .unsupportedVersion => "identity contract version is not supported"

/-- The claims the box reads from a decoded contract. -/
structure Claims where
  sub : Option String
  workspaceId : Option String
  principalKind : Option String
  onBehalfOf : Option String
  roles : List String
  entitlements : Option (List String)
  suspended : Option Bool
  plan : Option String
  ctr : String

def Claims.intoVerified (claims : Claims) : VerifiedClaims where
  tenant := claims.workspaceId
  user := claims.sub
  principalKind := claims.principalKind
  onBehalfOf := claims.onBehalfOf
  roles := claims.roles
  entitlements := claims.entitlements.getD []
  suspended := claims.suspended
  plan := claims.plan

/-- The verifying keys by `kid` and the instant of the last refresh. -/
structure KeyCache (Key : Type) where
  keys : List (String × Key)
  lastRefresh : Option Nat

/-- What verification takes from outside: the JWT library (`decodeHeader`
yields the optional `kid` of a well-formed header, `decode` the claims when
the signature, `alg`, `iss`, `aud` and `exp` pass) and the JWKS endpoint. -/
structure ContractVerifier (Key : Type) where
  decodeHeader : String → Option (Option String)
  decode : String → Key → Option Claims
  fetchKeys : Option (List (String × Key))
  supportedCtr : List String
  minRefresh : Nat
  now : Nat

variable {Key : Type}

/-- Refetches the JWKS unless one was fetched within `minRefresh`; a failed
fetch keeps the keys and advances only the timestamp. -/
def ContractVerifier.refreshKeys (verifier : ContractVerifier Key)
    (cache : KeyCache Key) : KeyCache Key :=
  match cache.lastRefresh with
  | some last =>
      if verifier.now - last < verifier.minRefresh then cache
      else ⟨verifier.fetchKeys.getD cache.keys, some verifier.now⟩
  | none => ⟨verifier.fetchKeys.getD cache.keys, some verifier.now⟩

/-- The cached key, or one bounded refresh and a second look. -/
def ContractVerifier.keyForKid (verifier : ContractVerifier Key)
    (cache : KeyCache Key) (kid : String) :
    Except ContractError Key × KeyCache Key :=
  match cache.keys.lookup kid with
  | some key => (.ok key, cache)
  | none =>
      let refreshed := verifier.refreshKeys cache
      match refreshed.keys.lookup kid with
      | some key => (.ok key, refreshed)
      | none =>
          if refreshed.keys = [] then (.error .keysUnavailable, refreshed)
          else (.error .unknownKey, refreshed)

def ContractVerifier.verify (verifier : ContractVerifier Key)
    (cache : KeyCache Key) (token : String) :
    Except ContractError VerifiedClaims × KeyCache Key :=
  match verifier.decodeHeader token with
  | none => (.error .malformed, cache)
  | some none => (.error .malformed, cache)
  | some (some kid) =>
      match verifier.keyForKid cache kid with
      | (.error err, cache) => (.error err, cache)
      | (.ok key, cache) =>
          match verifier.decode token key with
          | none => (.error .invalid, cache)
          | some claims =>
              if claims.ctr ∈ verifier.supportedCtr then
                (.ok claims.intoVerified, cache)
              else (.error .unsupportedVersion, cache)

end Runlet.Identity
