import Mathlib.Data.List.Perm.Basic
import Runlet.Lib.PercentText
import Runlet.Lib.TextCodec
import Runlet.Core.S3Requests

/-!
The signing half of `s3.rs`: the encoded paths and query strings, the canonical
request that is signed, and the four things built from them (a presigned URL, a
form upload, a listing URL and a delete URL). The clock, the hash functions and
the percent, hexadecimal, JSON and base64 encoders are parameters. A presigned
query is written out by hand, the other two are sorted at run time.
-/

namespace Runlet.S3

open Text Ssrf Errors Capability PercentText TextCodec

/-- `SEGMENT_SET`: letters, digits and `- _ . ~` are kept. -/
def segmentSet : KeepSet := .of [45, 95, 46, 126] (by decide)

/-- `PATH_SET`: also keeps the slash. -/
def pathSet : KeepSet := .of [45, 95, 46, 126, 47] (by decide)

/-- What is read of the configuration besides the address of the store. -/
structure SigningConfig extends S3Config where
  region : String
  accessKey : String
  secretKey : String
  expires : Nat
  maxExpires : Nat
  maxUploadSize : Nat
  allowDelete : Bool

/-- The outside of signing: the timestamps of this moment (`current_timestamps`
and the expiration derived from them), the resolver, the hashes and the text
encoders. -/
structure SigningEnv where
  v6 : V6Text
  lookup : Lookup
  timestamps : Except String (String × String × Int)
  expiration : Int → Nat → Except String String
  hmacSha256 : Bytes → Bytes → Except String Bytes
  sha256 : Bytes → Bytes
  jsonText : Json → Except String String
  base64 : String → String

/-- The encoders of the crates `percent_encoding` and `hex`. A byte outside the set is
written as a percent sign and two capital digits; `hex` writes two small digits a byte. -/
class TextCrates where
  utf8PercentEncode : KeepSet → String → String
  hexEncode : Bytes → String
  percent_written : ∀ set text, (utf8PercentEncode set text).toList = encode set (utf8 text)
  hex_written : ∀ bytes, (hexEncode bytes).toList = encodeHex bytes

open TextCrates

section Crates

variable [TextCrates]

/-! ### Paths and queries -/

def encodeToken (value : String) : String := utf8PercentEncode segmentSet value

/-- `strip_prefix('/')`, or the key itself. -/
def stripSlash (key : String) : String :=
  match key.toList with
  | '/' :: rest => String.ofList rest
  | _ => key

def uriEncodePath (key : String) : String :=
  "/" ++ utf8PercentEncode pathSet (stripSlash key)

def buildUri (config : S3Config) (key : String) : String :=
  if config.pathStyle then "/" ++ encodeToken config.bucket ++ uriEncodePath key
  else uriEncodePath key

def listUri (config : S3Config) : String :=
  if config.pathStyle then "/" ++ encodeToken config.bucket else "/"

def encodedPair (pair : String × String) : Pair :=
  ((encodeToken pair.1).toList, (encodeToken pair.2).toList)

def canonicalQueryFromPairs (pairs : List (String × String)) : String :=
  String.ofList (joinPairs (sortByKey (pairs.map encodedPair)))

def buildCanonicalQuery (accessKey scope amzDate : String) (expires : Nat) : String :=
  "X-Amz-Algorithm=AWS4-HMAC-SHA256" ++
    "&X-Amz-Credential=" ++ encodeToken (accessKey ++ "/" ++ scope) ++
    "&X-Amz-Date=" ++ encodeToken amzDate ++
    "&X-Amz-Expires=" ++ toString expires ++
    "&X-Amz-SignedHeaders=host"

/-! ### Signatures -/

structure SignInput where
  secretKey : String
  region : String
  datestamp : String
  amzDate : String
  scope : String
  method : String
  canonicalUri : String
  query : String
  host : String

def deriveSigningKey (env : SigningEnv) (secretKey datestamp region : String) :
    Except String Bytes := do
  let kDate ← env.hmacSha256 (utf8 ("AWS4" ++ secretKey)) (utf8 datestamp)
  let kRegion ← env.hmacSha256 kDate (utf8 region)
  let kService ← env.hmacSha256 kRegion (utf8 "s3")
  env.hmacSha256 kService (utf8 "aws4_request")

def canonicalRequest (method canonicalUri query host : String) : String :=
  method ++ "\n" ++ canonicalUri ++ "\n" ++ query ++ "\nhost:" ++ host ++
    "\n\nhost\nUNSIGNED-PAYLOAD"

def sign (env : SigningEnv) (input : SignInput) : Except String String := do
  let hashedRequest := hexEncode (env.sha256
    (utf8 (canonicalRequest input.method input.canonicalUri input.query input.host)))
  let stringToSign := "AWS4-HMAC-SHA256\n" ++ input.amzDate ++ "\n" ++ input.scope ++ "\n" ++
    hashedRequest
  let signingKey ← deriveSigningKey env input.secretKey input.datestamp input.region
  let signature ← env.hmacSha256 signingKey (utf8 stringToSign)
  pure (hexEncode signature)

def credentialScope (config : SigningConfig) (datestamp : String) : String :=
  datestamp ++ "/" ++ config.region ++ "/s3/aws4_request"

def signInput (config : SigningConfig) (amzDate datestamp method host canonicalUri
    query : String) : SignInput :=
  ⟨config.secretKey, config.region, datestamp, amzDate, credentialScope config datestamp, method,
    canonicalUri, query, host⟩

/-- The URL that all three signed requests end in. -/
def signedUrl (env : SigningEnv) (scheme : String) (input : SignInput) :
    Except String String := do
  let signature ← sign env input
  pure (scheme ++ "://" ++ input.host ++ input.canonicalUri ++ "?" ++ input.query ++
    "&X-Amz-Signature=" ++ signature)

/-! ### Presigned URLs -/

def normalizeMethod (raw : String) : Except String String :=
  match String.ofList (raw.toList.map Char.toUpper) with
  | "" => .ok "PUT"
  | "PUT" => .ok "PUT"
  | "GET" => .ok "GET"
  | "HEAD" => .ok "HEAD"
  | "DELETE" => .ok "DELETE"
  | other => .error ("unsupported s3 method: " ++ other)

def clampExpires (requested : Nat) (config : SigningConfig) : Nat :=
  let base := if requested = 0 then config.expires else requested
  max 1 (min base (max config.maxExpires 1))

structure PresignPayload where
  method : String
  key : String
  expires : Nat

/-- The members of the JSON answer. -/
structure PresignOutcome where
  url : String
  method : String
  expires : Nat

def orSigning {α : Type} : Except String α → Except DynamicFault α
  | .ok value => .ok value
  | .error message => .error (s3Signing message)

def presignInput (config : SigningConfig) (amzDate datestamp method host key : String)
    (expires : Nat) : SignInput :=
  signInput config amzDate datestamp method host (buildUri config.toS3Config key)
    (buildCanonicalQuery config.accessKey (credentialScope config datestamp) amzDate expires)

def doPresign (env : SigningEnv) (config : SigningConfig) (payload : PresignPayload)
    (allowPrivate : Bool) : Except DynamicFault PresignOutcome := do
  let method ← orSigning (normalizeMethod payload.method)
  if method = "DELETE" ∧ config.allowDelete = false then
    .error (s3Forbidden "s3 DELETE is disabled (set config.s3.allow_delete = true to enable)")
  else if trim payload.key = "" then
    .error (s3Signing "s3 sign_url requires a non-empty key")
  else do
    let expires := clampExpires payload.expires config
    let (amzDate, datestamp, _) ← orSigning env.timestamps
    let (scheme, host) ← orSigning (resolveHost env.v6 env.lookup config.toS3Config allowPrivate)
    let url ← orSigning (signedUrl env scheme
      (presignInput config amzDate datestamp method host payload.key expires))
    pure ⟨url, method, expires⟩

/-! ### Form uploads -/

def postUrl (scheme host : String) (config : S3Config) : String :=
  if config.pathStyle then scheme ++ "://" ++ host ++ "/" ++ encodeToken config.bucket
  else scheme ++ "://" ++ host ++ "/"

/-- The members of the JSON answer, and the policy its `Policy` field encodes. -/
structure PostForm where
  url : String
  fields : List (String × String)
  policy : Json
  maxBytes : Nat
  expires : Nat

def postPolicy (config : SigningConfig) (expiration key credential amzDate : String) : Json :=
  .obj [("expiration", .str expiration),
    ("conditions", .arr [
      .obj [("bucket", .str config.bucket)],
      .obj [("key", .str key)],
      .obj [("x-amz-algorithm", .str "AWS4-HMAC-SHA256")],
      .obj [("x-amz-credential", .str credential)],
      .obj [("x-amz-date", .str amzDate)],
      .arr [.str "content-length-range", .num "0", .num (toString config.maxUploadSize)]])]

def doPresignPost (env : SigningEnv) (config : SigningConfig) (key : String)
    (requestedExpires : Nat) (allowPrivate : Bool) : Except DynamicFault PostForm :=
  if trim key = "" then .error (s3Signing "s3 upload_form requires a non-empty key")
  else if config.maxUploadSize = 0 then
    .error (s3Signing "config.s3.max_upload_size is required for upload_form")
  else do
    let expires := clampExpires requestedExpires config
    let (amzDate, datestamp, now) ← orSigning env.timestamps
    let (scheme, host) ← orSigning (resolveHost env.v6 env.lookup config.toS3Config allowPrivate)
    let expiration ← orSigning (env.expiration now expires)
    let credential := config.accessKey ++ "/" ++ credentialScope config datestamp
    let policy := postPolicy config expiration key credential amzDate
    let policyText ← orSigning (env.jsonText policy)
    let policyB64 := env.base64 policyText
    let signingKey ← orSigning (deriveSigningKey env config.secretKey datestamp config.region)
    let signature ← orSigning (env.hmacSha256 signingKey (utf8 policyB64))
    pure {
      url := postUrl scheme host config.toS3Config
      fields := [("key", key), ("X-Amz-Algorithm", "AWS4-HMAC-SHA256"),
        ("X-Amz-Credential", credential), ("X-Amz-Date", amzDate), ("Policy", policyB64),
        ("X-Amz-Signature", hexEncode signature)]
      policy := policy
      maxBytes := config.maxUploadSize
      expires := expires }

/-! ### Listing and deletion -/

/-- The parameters every signed query has. -/
def signedPairs (accessKey scope amzDate : String) (expires : Nat) : List (String × String) :=
  [("X-Amz-Algorithm", "AWS4-HMAC-SHA256"), ("X-Amz-Credential", accessKey ++ "/" ++ scope),
    ("X-Amz-Date", amzDate), ("X-Amz-Expires", toString expires),
    ("X-Amz-SignedHeaders", "host")]

def listPairs (config : SigningConfig) (amzDate datestamp keyPrefix : String)
    (token : Option String) : List (String × String) :=
  signedPairs config.accessKey (credentialScope config datestamp) amzDate 60 ++
    [("list-type", "2"), ("max-keys", "1000")] ++
    (if keyPrefix = "" then [] else [("prefix", keyPrefix)]) ++
    (token.elim [] fun continuation => [("continuation-token", continuation)])

def listInput (config : SigningConfig) (amzDate datestamp host keyPrefix : String)
    (token : Option String) : SignInput :=
  signInput config amzDate datestamp "GET" host (listUri config.toS3Config)
    (canonicalQueryFromPairs (listPairs config amzDate datestamp keyPrefix token))

def buildListUrl (env : SigningEnv) (config : SigningConfig) (target : ListTarget)
    (token : Option String) : Except String String := do
  let (amzDate, datestamp, _) ← env.timestamps
  signedUrl env target.scheme
    (listInput config amzDate datestamp target.host target.keyPrefix token)

def deleteInput (config : SigningConfig) (amzDate datestamp host key : String) : SignInput :=
  signInput config amzDate datestamp "DELETE" host (buildUri config.toS3Config key)
    (canonicalQueryFromPairs
      (signedPairs config.accessKey (credentialScope config datestamp) amzDate 60))

def buildDeleteUrl (env : SigningEnv) (config : SigningConfig) (scheme host key : String) :
    Except String String := do
  let (amzDate, datestamp, _) ← env.timestamps
  signedUrl env scheme (deleteInput config amzDate datestamp host key)

/-! ### The paths -/

theorem encodeToken_toList (value : String) :
    (encodeToken value).toList = encode segmentSet (utf8 value) :=
  percent_written segmentSet value

theorem buildUri_toList (config : S3Config) (key : String) :
    (buildUri config key).toList = '/' ::
      if config.pathStyle then
        (encodeToken config.bucket).toList ++ '/' :: encode pathSet (utf8 (stripSlash key))
      else encode pathSet (utf8 (stripSlash key)) := by
  unfold buildUri uriEncodePath
  split <;> simp [percent_written]

theorem listUri_toList (config : S3Config) :
    (listUri config).toList = '/' ::
      if config.pathStyle then (encodeToken config.bucket).toList else [] := by
  unfold listUri
  split <;> simp

/-- A character that is encoded, and is no slash, is not in the path of a
key. -/
theorem not_mem_buildUri (c : Char) (hpercent : c ≠ '%')
    (hpath : pathSet.keep (UInt8.ofNat c.toNat) = false)
    (hsegment : segmentSet.keep (UInt8.ofNat c.toNat) = false) (hslash : c ≠ '/')
    (config : S3Config) (key : String) : c ∉ (buildUri config key).toList := by
  have hkey := not_mem_encode pathSet (utf8 (stripSlash key)) c hpercent hpath
  have hbucket := not_mem_encode segmentSet (utf8 config.bucket) c hpercent hsegment
  unfold buildUri uriEncodePath
  split <;> simp [percent_written, encodeToken_toList, hkey, hbucket, hslash]

/-! ### The parts of a signed URL -/

/-- A signed URL is put together from the parts that were signed. -/
def SignInput.urlOn (input : SignInput) (scheme : String) (signature : Bytes) : String :=
  scheme ++ "://" ++ input.host ++ input.canonicalUri ++ "?" ++ input.query ++
    "&X-Amz-Signature=" ++ hexEncode signature

theorem signedUrl_ok (env : SigningEnv) (scheme url : String) (input : SignInput)
    (hok : signedUrl env scheme input = .ok url) :
    ∃ signature, url = input.urlOn scheme signature := by
  unfold signedUrl at hok
  obtain ⟨text, hsigned, hurl⟩ := (bind_eq_ok_iff _ _ _).mp hok
  unfold sign at hsigned
  obtain ⟨signingKey, -, hsigned⟩ := (bind_eq_ok_iff _ _ _).mp hsigned
  obtain ⟨signature, -, htext⟩ := (bind_eq_ok_iff _ _ _).mp hsigned
  refine ⟨signature, ?_⟩
  rw [← Except.ok.inj hurl, ← Except.ok.inj htext]
  rfl

omit [TextCrates] in
theorem orSigning_ok {α : Type} (result : Except String α) (value : α)
    (hok : orSigning result = .ok value) : result = .ok value := by
  cases result with
  | ok found => rw [Except.ok.inj hok]
  | error message => cases hok

theorem doPresign_ok (env : SigningEnv) (config : SigningConfig) (payload : PresignPayload)
    (allowPrivate : Bool) (outcome : PresignOutcome)
    (hok : doPresign env config payload allowPrivate = .ok outcome) :
    ∃ amzDate datestamp now scheme host signature,
      env.timestamps = .ok (amzDate, datestamp, now) ∧
      resolveHost env.v6 env.lookup config.toS3Config allowPrivate = .ok (scheme, host) ∧
      outcome.url = (presignInput config amzDate datestamp outcome.method host payload.key
        outcome.expires).urlOn scheme signature := by
  unfold doPresign at hok
  obtain ⟨method, -, hok⟩ := (bind_eq_ok_iff _ _ _).mp hok
  simp only at hok
  split at hok
  · cases hok
  · split at hok
    · cases hok
    · obtain ⟨⟨amzDate, datestamp, now⟩, htimestamps, hok⟩ := (bind_eq_ok_iff _ _ _).mp hok
      obtain ⟨⟨scheme, host⟩, hhost, hok⟩ := (bind_eq_ok_iff _ _ _).mp hok
      obtain ⟨url, hurl, hok⟩ := (bind_eq_ok_iff _ _ _).mp hok
      obtain ⟨signature, hparts⟩ := signedUrl_ok _ _ _ _ (orSigning_ok _ _ hurl)
      refine ⟨amzDate, datestamp, now, scheme, host, signature, orSigning_ok _ _ htimestamps,
        orSigning_ok _ _ hhost, ?_⟩
      rw [← Except.ok.inj hok]
      exact hparts

theorem buildListUrl_ok (env : SigningEnv) (config : SigningConfig) (target : ListTarget)
    (token : Option String) (url : String)
    (hok : buildListUrl env config target token = .ok url) :
    ∃ amzDate datestamp now signature, env.timestamps = .ok (amzDate, datestamp, now) ∧
      url = (listInput config amzDate datestamp target.host target.keyPrefix token).urlOn
        target.scheme signature := by
  unfold buildListUrl at hok
  obtain ⟨⟨amzDate, datestamp, now⟩, htimestamps, hurl⟩ := (bind_eq_ok_iff _ _ _).mp hok
  obtain ⟨signature, hparts⟩ := signedUrl_ok _ _ _ _ hurl
  exact ⟨amzDate, datestamp, now, signature, htimestamps, hparts⟩

theorem buildDeleteUrl_ok (env : SigningEnv) (config : SigningConfig)
    (scheme host key url : String) (hok : buildDeleteUrl env config scheme host key = .ok url) :
    ∃ amzDate datestamp now signature, env.timestamps = .ok (amzDate, datestamp, now) ∧
      url = (deleteInput config amzDate datestamp host key).urlOn scheme signature := by
  unfold buildDeleteUrl at hok
  obtain ⟨⟨amzDate, datestamp, now⟩, htimestamps, hurl⟩ := (bind_eq_ok_iff _ _ _).mp hok
  obtain ⟨signature, hparts⟩ := signedUrl_ok _ _ _ _ hurl
  exact ⟨amzDate, datestamp, now, signature, htimestamps, hparts⟩

/-! ### What a canonical query says -/

def decodeToken (chars : List Char) : Option String := fromUtf8 (decode chars)

def decodePair (pair : Pair) : Option (String × String) := do
  let key ← decodeToken pair.1
  let value ← decodeToken pair.2
  pure (key, value)

/-- The parameters of a query, split at `&` and `=` and percent-decoded. -/
def decodeQuery (query : String) : Option (List (String × String)) :=
  (readPairs query.toList).mapM decodePair

theorem decodeToken_encodeToken (value : String) :
    decodeToken (encodeToken value).toList = some value := by
  rw [encodeToken_toList, decodeToken, decode_encode_all, fromUtf8_utf8]

theorem encodeToken_injective (left right : String) (h : encodeToken left = encodeToken right) :
    left = right := by
  have hdecoded := decodeToken_encodeToken left
  rw [h, decodeToken_encodeToken] at hdecoded
  exact (Option.some.inj hdecoded).symm

theorem encodedPair_plain (pair : String × String) : (encodedPair pair).Plain := by
  simp only [Pair.Plain, encodedPair, encodeToken_toList]
  exact ⟨not_mem_encode _ _ _ (by decide) (by decide),
    not_mem_encode _ _ _ (by decide) (by decide), not_mem_encode _ _ _ (by decide) (by decide)⟩

theorem decodePair_encodedPair (pair : String × String) :
    decodePair (encodedPair pair) = some pair := by
  simp [decodePair, encodedPair, decodeToken_encodeToken]

/-- A canonical query splits into the encoded pairs in sorted order. -/
theorem readPairs_canonical (pairs : List (String × String)) :
    readPairs (canonicalQueryFromPairs pairs).toList = sortByKey (pairs.map encodedPair) := by
  rw [canonicalQueryFromPairs, String.toList_ofList]
  apply readPairs_joinPairs
  intro pair hpair
  have hmem := (sortByKey_perm (pairs.map encodedPair)).mem_iff.mp hpair
  obtain ⟨source, -, rfl⟩ := List.mem_map.mp hmem
  exact encodedPair_plain source

theorem encodedKeys_nodup (pairs : List (String × String)) (hkeys : (pairs.map Prod.fst).Nodup) :
    ((pairs.map encodedPair).map Prod.fst).Nodup := by
  have hmap : (pairs.map encodedPair).map Prod.fst =
      (pairs.map Prod.fst).map fun key => (encodeToken key).toList := by
    simp [encodedPair]
  rw [hmap]
  apply hkeys.map
  intro left right heq
  exact encodeToken_injective left right (String.toList_injective heq)

theorem mapM_decodePair (pairs : List (String × String)) :
    (pairs.map encodedPair).mapM decodePair = some pairs := by
  induction pairs with
  | nil => rfl
  | cons pair rest ih =>
      rw [List.map_cons, List.mapM_cons, decodePair_encodedPair, ih]
      rfl

theorem sortByKey_encodedPair (pairs : List (String × String)) :
    ∃ ordered : List (String × String),
      sortByKey (pairs.map encodedPair) = ordered.map encodedPair ∧
      ordered.Perm pairs := by
  have hsorted : Relation.Comp (fun sorted ordered => sorted = List.map encodedPair ordered)
      List.Perm (sortByKey (pairs.map encodedPair)) pairs := by
    rw [List.eq_map_comp_perm]
    exact sortByKey_perm _
  exact hsorted

/-- What is decoded is the pairs themselves, in the order of the query. -/
theorem decodeQuery_canonical (pairs : List (String × String)) :
    ∃ decoded, decodeQuery (canonicalQueryFromPairs pairs) = some decoded ∧
      decoded.Perm pairs := by
  obtain ⟨ordered, hordered, hperm⟩ := sortByKey_encodedPair pairs
  refine ⟨ordered, ?_, hperm⟩
  rw [decodeQuery, readPairs_canonical, hordered, mapM_decodePair]

/-! ### The two ways to write one -/

/-- Characters that stand for themselves in a token. -/
def keptChar (c : Char) : Bool := c.toNat < 128 && segmentSet.keep (UInt8.ofNat c.toNat)

theorem encodeToken_kept (text : String) (hkept : text.toList.all keptChar = true) :
    encodeToken text = text := by
  apply String.toList_injective
  rw [encodeToken_toList, encode_utf8_kept]
  intro c hc
  have hchar := List.all_eq_true.mp hkept c hc
  simpa [keptChar] using hchar

omit [TextCrates] in
theorem keptChar_digit (c : Char) (hdigit : c.isDigit = true) : keptChar c = true := by
  simp only [Char.isDigit, Bool.and_eq_true, decide_eq_true_eq] at hdigit
  have hlow : 48 ≤ c.toNat := UInt32.le_iff_toNat_le.mp hdigit.1
  have hhigh : c.toNat ≤ 57 := UInt32.le_iff_toNat_le.mp hdigit.2
  have hnat : (UInt8.ofNat c.toNat).toNat = c.toNat := by
    rw [UInt8.toNat_ofNat']
    omega
  have halnum : isAlphanumeric (UInt8.ofNat c.toNat) = true := by
    simp only [isAlphanumeric, hnat, Bool.or_eq_true, Bool.and_eq_true, decide_eq_true_eq]
    omega
  simp only [keptChar, segmentSet.alphanumeric _ halnum, Bool.and_true, decide_eq_true_eq]
  omega

theorem encodeToken_nat (value : Nat) : encodeToken (toString value) = toString value := by
  apply encodeToken_kept
  rw [Nat.toString_eq_ofList_toDigits, String.toList_ofList, List.all_eq_true]
  intro c hc
  exact keptChar_digit c (Nat.isDigit_of_mem_toDigits (by decide) (by decide) hc)

/-- The names of the five parameters, in ascending order. -/
def signedKeys : List String :=
  ["X-Amz-Algorithm", "X-Amz-Credential", "X-Amz-Date", "X-Amz-Expires", "X-Amz-SignedHeaders"]

theorem signedKeys_kept (key : String) (hkey : key ∈ signedKeys) : encodeToken key = key := by
  have hall : signedKeys.all (fun key => key.toList.all keptChar) = true := by
    decide +kernel
  exact encodeToken_kept key (List.all_eq_true.mp hall key hkey)

theorem signedPairs_sorted (accessKey scope amzDate : String) (expires : Nat) :
    sortByKey ((signedPairs accessKey scope amzDate expires).map encodedPair) =
      (signedPairs accessKey scope amzDate expires).map encodedPair := by
  have hascending : (signedKeys.map String.toList).Pairwise (· ≤ ·) := by
    decide +kernel
  have hkeys : signedKeys.map (fun key => (encodeToken key).toList) =
      signedKeys.map String.toList := by
    apply List.map_congr_left
    intro key hkey
    rw [signedKeys_kept key hkey]
  rw [← hkeys, List.pairwise_map] at hascending
  apply List.Pairwise.insertionSort_eq
  rw [List.pairwise_map]
  have hfst : (signedPairs accessKey scope amzDate expires).map Prod.fst = signedKeys := rfl
  rw [← hfst, List.pairwise_map] at hascending
  exact hascending

omit [TextCrates] in
theorem ofList_joinPairs_cons (key value : String) (next : Pair) (rest : List Pair) :
    String.ofList (joinPairs ((key.toList, value.toList) :: next :: rest)) =
      key ++ "=" ++ value ++ "&" ++ String.ofList (joinPairs (next :: rest)) := by
  apply String.toList_injective
  simp [joinPairs, List.intercalate]

omit [TextCrates] in
theorem ofList_joinPairs_singleton (key value : String) :
    String.ofList (joinPairs [(key.toList, value.toList)]) = key ++ "=" ++ value := by
  apply String.toList_injective
  simp [joinPairs, List.intercalate]

/-- The five parameters are written by hand as they are sorted. -/
theorem buildCanonicalQuery_eq (accessKey scope amzDate : String) (expires : Nat) :
    buildCanonicalQuery accessKey scope amzDate expires =
      canonicalQueryFromPairs (signedPairs accessKey scope amzDate expires) := by
  have halgorithm := encodeToken_kept "AWS4-HMAC-SHA256" (by decide +kernel)
  have hhost := encodeToken_kept "host" (by decide +kernel)
  have hkeys := signedKeys_kept
  simp only [signedKeys, List.forall_mem_cons] at hkeys
  obtain ⟨hone, htwo, hthree, hfour, hfive, -⟩ := hkeys
  rw [canonicalQueryFromPairs, signedPairs_sorted]
  simp only [signedPairs, List.map_cons, List.map_nil, encodedPair, halgorithm, hhost, hone, htwo,
    hthree, hfour, hfive, encodeToken_nat, ofList_joinPairs_cons, ofList_joinPairs_singleton]
  have hfirst : "X-Amz-Algorithm=AWS4-HMAC-SHA256" =
      "X-Amz-Algorithm" ++ ("=" ++ "AWS4-HMAC-SHA256") := by decide +kernel
  have hcredential : "&X-Amz-Credential=" = "&" ++ ("X-Amz-Credential" ++ "=") := by
    decide +kernel
  have hdate : "&X-Amz-Date=" = "&" ++ ("X-Amz-Date" ++ "=") := by decide +kernel
  have hexpires : "&X-Amz-Expires=" = "&" ++ ("X-Amz-Expires" ++ "=") := by decide +kernel
  have hheaders : "&X-Amz-SignedHeaders=host" =
      "&" ++ ("X-Amz-SignedHeaders" ++ ("=" ++ "host")) := by decide +kernel
  unfold buildCanonicalQuery
  rw [hfirst, hcredential, hdate, hexpires, hheaders]
  simp only [String.append_assoc, -String.reduceAppend]

/-- The two builders agree on the five parameters of a presigned request. And
for all pairs with distinct keys, the canonical query ascends strictly by
encoded key, does not depend on the order of the pairs, and decodes to them. -/
theorem canonicalQuery_law :
    (∀ (accessKey scope amzDate : String) (expires : Nat),
      buildCanonicalQuery accessKey scope amzDate expires =
        canonicalQueryFromPairs (signedPairs accessKey scope amzDate expires)) ∧
    ∀ pairs : List (String × String), (pairs.map Prod.fst).Nodup →
      ((readPairs (canonicalQueryFromPairs pairs).toList).map Prod.fst).Pairwise (· < ·) ∧
      (∀ other : List (String × String), pairs.Perm other →
        canonicalQueryFromPairs other = canonicalQueryFromPairs pairs) ∧
      ∃ decoded, decodeQuery (canonicalQueryFromPairs pairs) = some decoded ∧
        decoded.Perm pairs := by
  refine ⟨buildCanonicalQuery_eq, ?_⟩
  intro pairs hkeys
  have hencoded := encodedKeys_nodup pairs hkeys
  refine ⟨?_, ?_, decodeQuery_canonical pairs⟩
  · rw [readPairs_canonical]
    exact sortByKey_strict _ hencoded
  · intro other hperm
    have hsame := sortByKey_congr _ _ hencoded (hperm.map encodedPair)
    rw [canonicalQueryFromPairs, canonicalQueryFromPairs, hsame]

end Crates

/-- The two encoders as the crates document them. -/
@[reducible]
def documentedCrates : TextCrates where
  utf8PercentEncode set text := String.ofList (encode set (utf8 text))
  hexEncode bytes := String.ofList (encodeHex bytes)
  percent_written _ _ := String.toList_ofList
  hex_written _ := String.toList_ofList

section Documented

attribute [local instance] documentedCrates

/-- A prefix with delimiters in it, in front of the parameter it sorts behind. -/
theorem canonicalQuery_law_prefix :
    canonicalQueryFromPairs [("prefix", "a&b=ü"), ("list-type", "2")] =
        "list-type=2&prefix=a%26b%3D%C3%BC" ∧
      ∃ decoded, decodeQuery "list-type=2&prefix=a%26b%3D%C3%BC" = some decoded ∧
        decoded.Perm [("prefix", "a&b=ü"), ("list-type", "2")] := by
  have hquery : canonicalQueryFromPairs [("prefix", "a&b=ü"), ("list-type", "2")] =
      "list-type=2&prefix=a%26b%3D%C3%BC" := by
    decide +kernel
  obtain ⟨-, -, hdecoded⟩ := canonicalQuery_law.2 [("prefix", "a&b=ü"), ("list-type", "2")]
    (by decide)
  rw [hquery] at hdecoded
  exact ⟨hquery, hdecoded⟩

end Documented

end Runlet.S3
