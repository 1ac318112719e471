import Runlet.Lib.UrlNormal
import Runlet.Core.S3Objects

/-!
What a verifier of Signature Version 4 makes of a signed URL. The code signs
the path, the query and the host it puts into the URL; the verifier sees the
request a client sends for that URL, after the client's parser has normalised
it, and puts the canonical request together again without the signature.
-/

namespace Runlet.S3

open Text Ssrf Errors UrlText PercentText TextCodec TextCrates

section Crates

variable [TextCrates]

/-- The parts of a canonical request that differ between requests. -/
structure Request where
  method : String
  uri : String
  query : String
  host : String
  deriving DecidableEq

def SignInput.request (input : SignInput) : Request :=
  ⟨input.method, input.canonicalUri, input.query, input.host⟩

/-- The addresses that stand in brackets. -/
def v6Literals : Literals where
  accepts := fun inner => (parseV6 (String.ofList inner)).isSome
  plain := by
    intro inner haccepts c hc
    obtain ⟨ip, hip⟩ := Option.isSome_iff_exists.mp haccepts
    have hchar := (parseV6_chars _ ip hip).2 c (by simpa using hc)
    exact ⟨groupChar_ne c ']' hchar (by decide), group_free c hchar⟩

/-- The parameters decoded, without the signature, encoded again and sorted. -/
def verifierQuery (query : List Char) : Option String := do
  let pairs ← decodeQuery (String.ofList query)
  let signed := pairs.filter fun pair => pair.1 != "X-Amz-Signature"
  some (String.ofList (joinPairs (sortByKey (signed.map encodedPair))))

/-- The canonical request a verifier has for a request to a URL. -/
def reconstruct (method url : String) : Option Request := do
  let location ← readLocation v6Literals url.toList
  let query ← verifierQuery location.query
  some ⟨method, String.ofList location.path, query, String.ofList location.host⟩

/-! ### What the endpoint, the bucket and the key may be -/

/-- The host the URLs are built with is written the way clients send it. -/
def NormalEndpoint (config : S3Config) : Prop :=
  ∀ scheme rest, splitOnce "://" config.endpoint = some (scheme, rest) →
    NormalAuthority v6Literals scheme.toList (exposed config (authorityClean rest)).toList

def DotName (text : String) : Prop := text = "." ∨ text = ".."

instance (text : String) : Decidable (DotName text) :=
  inferInstanceAs (Decidable (text = "." ∨ text = ".."))

/-- In the path the bucket is no dots. -/
def PlainBucket (config : S3Config) : Prop := config.pathStyle = true → ¬ DotName config.bucket

/-- No part of the key between slashes is dots. -/
def PlainKey (key : String) : Prop := ∀ piece ∈ split '/' (stripSlash key), ¬ DotName piece

/-! ### Queries -/

theorem hexEncode_kept (bytes : Bytes) : encodeToken (hexEncode bytes) = hexEncode bytes := by
  have hdigit : ∀ value : Fin 16, keptChar (smallHexDigit value) = true := by
    decide
  apply encodeToken_kept
  rw [hex_written, encodeHex, List.all_eq_true]
  intro c hc
  obtain ⟨byte, -, hin⟩ := List.mem_flatMap.mp hc
  have hsize : byte.toNat < 256 := UInt8.toNat_lt_size byte
  simp only [List.mem_cons, List.not_mem_nil, or_false] at hin
  rcases hin with rfl | rfl
  · exact hdigit ⟨byte.toNat / 16, by omega⟩
  · exact hdigit ⟨byte.toNat % 16, by omega⟩

/-- With the signature behind it a canonical query is still a query of encoded
pairs. -/
theorem signedQuery_pairs (pairs : List (String × String)) (signature : Bytes)
    (hne : pairs ≠ []) :
    ∃ ordered : List (String × String), ordered.Perm pairs ∧
      (canonicalQueryFromPairs pairs).toList ++ "&X-Amz-Signature=".toList ++
          (hexEncode signature).toList =
        joinPairs ((ordered ++ [("X-Amz-Signature", hexEncode signature)]).map encodedPair) := by
  have hname : encodeToken "X-Amz-Signature" = "X-Amz-Signature" :=
    encodeToken_kept _ (by decide +kernel)
  obtain ⟨ordered, hordered, hperm⟩ := sortByKey_encodedPair pairs
  have hsome : ordered ≠ [] := by
    intro hnil
    rw [hnil] at hperm
    exact hne hperm.nil_eq.symm
  refine ⟨ordered, hperm, ?_⟩
  rw [List.map_append, List.map_cons, List.map_nil, joinPairs_concat _ _ (by simpa using hsome),
    canonicalQueryFromPairs, hordered, String.toList_ofList]
  simp [encodedPair, hname, hexEncode_kept]

theorem decodeQuery_signed (pairs : List (String × String)) (signature : Bytes)
    (hne : pairs ≠ []) :
    ∃ ordered : List (String × String), ordered.Perm pairs ∧
      decodeQuery (String.ofList ((canonicalQueryFromPairs pairs).toList ++
          "&X-Amz-Signature=".toList ++ (hexEncode signature).toList)) =
        some (ordered ++ [("X-Amz-Signature", hexEncode signature)]) := by
  obtain ⟨ordered, hperm, hwhole⟩ := signedQuery_pairs pairs signature hne
  refine ⟨ordered, hperm, ?_⟩
  rw [hwhole, decodeQuery, String.toList_ofList, readPairs_joinPairs, mapM_decodePair]
  intro pair hpair
  obtain ⟨source, -, rfl⟩ := List.mem_map.mp hpair
  exact encodedPair_plain source

/-- The verifier reads back the query that was signed. -/
theorem verifierQuery_signed (pairs : List (String × String)) (signature : Bytes)
    (hne : pairs ≠ []) (hkeys : (pairs.map Prod.fst).Nodup)
    (hsignature : "X-Amz-Signature" ∉ pairs.map Prod.fst) :
    verifierQuery ((canonicalQueryFromPairs pairs).toList ++
        "&X-Amz-Signature=".toList ++ (hexEncode signature).toList) =
      some (canonicalQueryFromPairs pairs) := by
  obtain ⟨ordered, hperm, hdecoded⟩ := decodeQuery_signed pairs signature hne
  have hfilter : (ordered ++ [("X-Amz-Signature", hexEncode signature)]).filter
      (fun pair => pair.1 != "X-Amz-Signature") = ordered := by
    rw [List.filter_append, List.filter_eq_self.mpr]
    · simp
    · intro pair hpair
      have hmem := List.mem_map_of_mem (f := Prod.fst) (hperm.mem_iff.mp hpair)
      simpa using fun heq : pair.1 = "X-Amz-Signature" => hsignature (heq ▸ hmem)
  have hsorted : sortByKey (ordered.map encodedPair) = sortByKey (pairs.map encodedPair) :=
    (sortByKey_congr _ _ (encodedKeys_nodup pairs hkeys) (hperm.symm.map encodedPair)).symm
  rw [verifierQuery, hdecoded]
  simp only [Option.bind_eq_bind, Option.bind_some, hfilter, hsorted]
  rfl

/-- Other delimiters than those of a query are encoded. -/
theorem not_mem_signedQuery (pairs : List (String × String)) (signature : Bytes)
    (hne : pairs ≠ []) (c : Char) (hamp : c ≠ '&') (hequals : c ≠ '=') (hpercent : c ≠ '%')
    (hkeep : segmentSet.keep (UInt8.ofNat c.toNat) = false) :
    c ∉ (canonicalQueryFromPairs pairs).toList ++ "&X-Amz-Signature=".toList ++
      (hexEncode signature).toList := by
  have htoken : ∀ text : String, c ∉ (encodeToken text).toList := by
    intro text
    rw [encodeToken_toList]
    exact not_mem_encode _ _ _ hpercent hkeep
  obtain ⟨ordered, -, hwhole⟩ := signedQuery_pairs pairs signature hne
  rw [hwhole]
  intro hmem
  rcases mem_joinPairs _ _ hmem with heq | heq | ⟨pair, hpair, hkey | hvalue⟩
  · exact hamp heq
  · exact hequals heq
  · obtain ⟨source, -, rfl⟩ := List.mem_map.mp hpair
    exact htoken source.1 hkey
  · obtain ⟨source, -, rfl⟩ := List.mem_map.mp hpair
    exact htoken source.2 hvalue

/-! ### Requests -/

theorem reconstruct_request_iff (input : SignInput) (url : String) :
    reconstruct input.method url = some input.request ↔
      ∃ location, readLocation v6Literals url.toList = some location ∧
        location.host = input.host.toList ∧ location.path = input.canonicalUri.toList ∧
        verifierQuery location.query = some input.query := by
  simp only [reconstruct, SignInput.request, Option.bind_eq_bind, Option.bind_eq_some_iff,
    Option.some.injEq, Request.mk.injEq, true_and]
  constructor
  · rintro ⟨location, hread, query, hquery, huri, rfl, hhost⟩
    refine ⟨location, hread, ?_, ?_, hquery⟩
    · rw [← hhost, String.toList_ofList]
    · rw [← huri, String.toList_ofList]
  · rintro ⟨location, hread, hhost, hpath, hquery⟩
    refine ⟨location, hread, input.query, hquery, ?_, rfl, ?_⟩
    · rw [hpath, String.ofList_toList]
    · rw [hhost, String.ofList_toList]

/-- What is signed under a URL, with its query a canonical one. -/
structure Signable (input : SignInput) (path : List Char) (pairs : List (String × String)) :
    Prop where
  uri : input.canonicalUri.toList = '/' :: path
  path_chars : ∀ c ∈ path, c ≠ '?' ∧ c ≠ '#' ∧ c ≠ '\\'
  query : input.query = canonicalQueryFromPairs pairs
  nonempty : pairs ≠ []
  keys : (pairs.map Prod.fst).Nodup
  unsigned : "X-Amz-Signature" ∉ pairs.map Prod.fst

/-- The verifier has the request that was signed exactly when the host and the
path survive the client. -/
theorem Signable.verifies_iff {input : SignInput} {path : List Char}
    {pairs : List (String × String)} (hsignable : Signable input path pairs) (scheme : String)
    (signature : Bytes) (hscheme : ':' ∉ scheme.toList) :
    reconstruct input.method (input.urlOn scheme signature) = some input.request ↔
      NormalAuthority v6Literals scheme.toList input.host.toList ∧
        ∀ segment ∈ splitChars '/' path, dotSegment segment = false := by
  have hurl : (input.urlOn scheme signature).toList =
      scheme.toList ++ ':' :: '/' :: '/' :: (input.host.toList ++ '/' :: (path ++
        '?' :: (input.query.toList ++ "&X-Amz-Signature=".toList ++
          (hexEncode signature).toList))) := by
    simp [SignInput.urlOn, hsignable.uri]
  have hsent : verifierQuery (input.query.toList ++ "&X-Amz-Signature=".toList ++
      (hexEncode signature).toList) = some input.query := by
    rw [hsignable.query]
    exact verifierQuery_signed pairs signature hsignable.nonempty hsignable.keys
      hsignable.unsigned
  have hfragment : '#' ∉ input.query.toList ++ "&X-Amz-Signature=".toList ++
      (hexEncode signature).toList := by
    rw [hsignable.query]
    exact not_mem_signedQuery pairs signature hsignable.nonempty '#' (by decide) (by decide)
      (by decide) (by decide)
  rw [reconstruct_request_iff, hurl, hsignable.uri,
    readLocation_kept_iff v6Literals scheme.toList input.host.toList path _
      (fun query => verifierQuery query = some input.query) hscheme hsignable.path_chars hfragment]
  simp only [hsent, and_true]

omit [TextCrates] in
theorem dotSegment_encode (set : KeepSet) (text : String) :
    dotSegment (encode set (utf8 text)) = false ↔ ¬ DotName text := by
  have hone : utf8 text = [46] ↔ text = "." := by
    have hdot : utf8 "." = [46] := by decide +kernel
    rw [← hdot]
    exact ⟨utf8_injective text ".", fun heq => congrArg utf8 heq⟩
  have htwo : utf8 text = [46, 46] ↔ text = ".." := by
    have hdots : utf8 ".." = [46, 46] := by decide +kernel
    rw [← hdots]
    exact ⟨utf8_injective text "..", fun heq => congrArg utf8 heq⟩
  simp [dotSegment, DotName, decode_encode_all, hone, htwo]

omit [TextCrates] in
/-- The segments of an encoded key are those of the key. -/
theorem keySegments_plain_iff (key : String) :
    (∀ segment ∈ splitChars '/' (encode pathSet (utf8 (stripSlash key))),
      dotSegment segment = false) ↔ PlainKey key := by
  rw [splitChars_encode pathSet '/' (by decide) (by decide) (by decide) (by decide)]
  simp only [PlainKey, split, List.forall_mem_map, dotSegment_encode]

theorem bucketSegments_plain_iff (bucket : String) :
    (∀ segment ∈ splitChars '/' (encodeToken bucket).toList, dotSegment segment = false) ↔
      ¬ DotName bucket := by
  have hslash : '/' ∉ encode segmentSet (utf8 bucket) :=
    not_mem_encode _ _ _ (by decide) (by decide)
  rw [encodeToken_toList, splitChars_of_not_mem '/' _ hslash]
  simp [dotSegment_encode]

/-! ### The three kinds of URL -/

/-- The path of an object has dots in it only where the bucket or the key has. -/
theorem objectSegments_plain_iff (config : S3Config) (key : String) :
    (∀ segment ∈ splitChars '/' (if config.pathStyle then
        (encodeToken config.bucket).toList ++ '/' :: encode pathSet (utf8 (stripSlash key))
      else encode pathSet (utf8 (stripSlash key))), dotSegment segment = false) ↔
      PlainBucket config ∧ PlainKey key := by
  have hslash : '/' ∉ (encodeToken config.bucket).toList := by
    rw [encodeToken_toList]
    exact not_mem_encode _ _ _ (by decide) (by decide)
  unfold PlainBucket
  split
  · rename_i hstyle
    have hbucket : dotSegment (encodeToken config.bucket).toList = false ↔
        ¬ DotName config.bucket := by
      rw [encodeToken_toList]
      exact dotSegment_encode segmentSet config.bucket
    rw [splitChars_append_sep '/' _ _ hslash, List.forall_mem_cons, keySegments_plain_iff, hbucket]
    simp [hstyle]
  · rename_i hstyle
    rw [keySegments_plain_iff]
    simp [hstyle]

theorem listSegments_plain_iff (config : S3Config) :
    (∀ segment ∈ splitChars '/' (if config.pathStyle then (encodeToken config.bucket).toList
      else []), dotSegment segment = false) ↔ PlainBucket config := by
  unfold PlainBucket
  split
  · rename_i hstyle
    rw [bucketSegments_plain_iff]
    simp [hstyle]
  · rename_i hstyle
    have hempty : dotSegment [] = false := by decide
    simp [hstyle, splitChars, hempty]

omit [TextCrates] in
theorem signedPairs_keys (accessKey scope amzDate : String) (expires : Nat) :
    ((signedPairs accessKey scope amzDate expires).map Prod.fst).Nodup ∧
      "X-Amz-Signature" ∉ (signedPairs accessKey scope amzDate expires).map Prod.fst := by
  have hfst : (signedPairs accessKey scope amzDate expires).map Prod.fst = signedKeys := rfl
  rw [hfst]
  decide

omit [TextCrates] in
theorem listPairs_keys (config : SigningConfig) (amzDate datestamp keyPrefix : String)
    (token : Option String) :
    ((listPairs config amzDate datestamp keyPrefix token).map Prod.fst).Nodup ∧
      "X-Amz-Signature" ∉ (listPairs config amzDate datestamp keyPrefix token).map Prod.fst := by
  have hfst : (listPairs config amzDate datestamp keyPrefix token).map Prod.fst =
      signedKeys ++ ["list-type", "max-keys"] ++ (if keyPrefix = "" then [] else ["prefix"]) ++
        (if token.isSome then ["continuation-token"] else []) := by
    unfold listPairs
    split <;> cases token <;> rfl
  rw [hfst]
  split <;> split <;> decide

/-- Requests for an object, with any method and with the query of a presigned
URL or of a delete. -/
theorem object_signable (config : SigningConfig)
    (amzDate datestamp method host key query accessKey scope : String) (expires : Nat)
    (hquery : query = canonicalQueryFromPairs (signedPairs accessKey scope amzDate expires)) :
    Signable (signInput config amzDate datestamp method host (buildUri config.toS3Config key) query)
      (if config.pathStyle then
        (encodeToken config.bucket).toList ++ '/' :: encode pathSet (utf8 (stripSlash key))
      else encode pathSet (utf8 (stripSlash key)))
      (signedPairs accessKey scope amzDate expires) where
  uri := buildUri_toList config.toS3Config key
  path_chars := by
    intro c hc
    have hmem : c ∈ (buildUri config.toS3Config key).toList := by
      rw [buildUri_toList]
      exact List.mem_cons_of_mem '/' hc
    refine ⟨?_, ?_, ?_⟩ <;>
      · rintro rfl
        exact not_mem_buildUri _ (by decide) (by decide) (by decide) (by decide) _ key hmem
  query := hquery
  nonempty := by simp [signedPairs]
  keys := (signedPairs_keys accessKey scope amzDate expires).1
  unsigned := (signedPairs_keys accessKey scope amzDate expires).2

theorem list_signable (config : SigningConfig) (amzDate datestamp host keyPrefix : String)
    (token : Option String) :
    Signable (listInput config amzDate datestamp host keyPrefix token)
      (if config.pathStyle then (encodeToken config.bucket).toList else [])
      (listPairs config amzDate datestamp keyPrefix token) where
  uri := listUri_toList config.toS3Config
  path_chars := by
    intro c hc
    split at hc
    · rw [encodeToken_toList] at hc
      refine ⟨?_, ?_, ?_⟩ <;>
        · rintro rfl
          exact not_mem_encode _ _ _ (by decide) (by decide) hc
    · cases hc
  query := rfl
  nonempty := by simp [listPairs, signedPairs]
  keys := (listPairs_keys config amzDate datestamp keyPrefix token).1
  unsigned := (listPairs_keys config amzDate datestamp keyPrefix token).2

theorem presign_verifies_iff (config : SigningConfig)
    (scheme amzDate datestamp method host key : String) (expires : Nat) (signature : Bytes)
    (hscheme : ':' ∉ scheme.toList) :
    reconstruct method ((presignInput config amzDate datestamp method host key expires).urlOn
        scheme signature) =
      some (presignInput config amzDate datestamp method host key expires).request ↔
    NormalAuthority v6Literals scheme.toList host.toList ∧ PlainBucket config.toS3Config ∧
      PlainKey key := by
  rw [← objectSegments_plain_iff config.toS3Config key]
  exact (object_signable config amzDate datestamp method host key
    (buildCanonicalQuery config.accessKey (credentialScope config datestamp) amzDate expires)
    config.accessKey (credentialScope config datestamp) expires
    (buildCanonicalQuery_eq _ _ _ _)).verifies_iff scheme signature hscheme

theorem list_verifies_iff (config : SigningConfig)
    (scheme amzDate datestamp host keyPrefix : String) (token : Option String)
    (signature : Bytes) (hscheme : ':' ∉ scheme.toList) :
    reconstruct "GET" ((listInput config amzDate datestamp host keyPrefix token).urlOn scheme
        signature) =
      some (listInput config amzDate datestamp host keyPrefix token).request ↔
    NormalAuthority v6Literals scheme.toList host.toList ∧ PlainBucket config.toS3Config := by
  rw [← listSegments_plain_iff config.toS3Config]
  exact (list_signable config amzDate datestamp host keyPrefix token).verifies_iff scheme
    signature hscheme

theorem delete_verifies_iff (config : SigningConfig)
    (scheme amzDate datestamp host key : String) (signature : Bytes)
    (hscheme : ':' ∉ scheme.toList) :
    reconstruct "DELETE" ((deleteInput config amzDate datestamp host key).urlOn scheme
        signature) =
      some (deleteInput config amzDate datestamp host key).request ↔
    NormalAuthority v6Literals scheme.toList host.toList ∧ PlainBucket config.toS3Config ∧
      PlainKey key := by
  rw [← objectSegments_plain_iff config.toS3Config key]
  exact (object_signable config amzDate datestamp "DELETE" host key
    (canonicalQueryFromPairs
      (signedPairs config.accessKey (credentialScope config datestamp) amzDate 60))
    config.accessKey (credentialScope config datestamp) 60 rfl).verifies_iff scheme signature
    hscheme

/-- For every configuration, key, prefix and token: what a verifier
reconstructs from a presigned URL, from the URL of a listing and from that of a
delete is the request that was signed, exactly when the endpoint is written in
normal form and neither the bucket in the path nor a part of the key is `.` or
`..`. -/
theorem signed_urls_verify_iff (env : SigningEnv) (config : SigningConfig) (allowPrivate : Bool)
    (scheme host amzDate datestamp : String) (now : Int)
    (hhost : resolveHost env.v6 env.lookup config.toS3Config allowPrivate = .ok (scheme, host))
    (htime : env.timestamps = .ok (amzDate, datestamp, now)) :
    (∀ (payload : PresignPayload) (outcome : PresignOutcome),
      doPresign env config payload allowPrivate = .ok outcome →
      (reconstruct outcome.method outcome.url =
          some (presignInput config amzDate datestamp outcome.method host payload.key
            outcome.expires).request ↔
        NormalEndpoint config.toS3Config ∧ PlainBucket config.toS3Config ∧
          PlainKey payload.key)) ∧
    (∀ (keyPrefix : String) (token : Option String) (url : String),
      buildListUrl env config ⟨scheme, host, keyPrefix⟩ token = .ok url →
      (reconstruct "GET" url =
          some (listInput config amzDate datestamp host keyPrefix token).request ↔
        NormalEndpoint config.toS3Config ∧ PlainBucket config.toS3Config)) ∧
    ∀ key url : String, buildDeleteUrl env config scheme host key = .ok url →
      (reconstruct "DELETE" url =
          some (deleteInput config amzDate datestamp host key).request ↔
        NormalEndpoint config.toS3Config ∧ PlainBucket config.toS3Config ∧ PlainKey key) := by
  obtain ⟨rest, -, hsplit, hcolon, -, hbuilt⟩ := resolveHost_built _ _ _ _ _ _ hhost
  have hnormal : NormalAuthority v6Literals scheme.toList host.toList ↔
      NormalEndpoint config.toS3Config := by
    constructor
    · intro hnormal found other hfound
      rw [hsplit] at hfound
      cases hfound
      rw [← hbuilt]
      exact hnormal
    · intro hendpoint
      rw [hbuilt]
      exact hendpoint scheme rest hsplit
  refine ⟨?_, ?_, ?_⟩
  · intro payload outcome hok
    obtain ⟨date, stamp, time, found, address, signature, htime', hhost', hurl⟩ :=
      doPresign_ok env config payload allowPrivate outcome hok
    cases htime.symm.trans htime'
    cases hhost.symm.trans hhost'
    rw [hurl, ← hnormal]
    exact presign_verifies_iff config scheme amzDate datestamp outcome.method host payload.key
      outcome.expires signature hcolon
  · intro keyPrefix token url hok
    obtain ⟨date, stamp, time, signature, htime', hurl⟩ := buildListUrl_ok _ _ _ _ _ hok
    cases htime.symm.trans htime'
    rw [hurl, ← hnormal]
    exact list_verifies_iff config scheme amzDate datestamp host keyPrefix token signature hcolon
  · intro key url hok
    obtain ⟨date, stamp, time, signature, htime', hurl⟩ := buildDeleteUrl_ok _ _ _ _ _ _ hok
    cases htime.symm.trans htime'
    rw [hurl, ← hnormal]
    exact delete_verifies_iff config scheme amzDate datestamp host key signature hcolon

end Crates

section Documented

attribute [local instance] documentedCrates

/-- A key with dots in it is signed with them and sent without. -/
theorem dot_segments_unverified :
    ∃ outcome, doPresign sampleSigning sampleSigningConfig ⟨"GET", "a/../b.txt", 0⟩ false =
        .ok outcome ∧
      reconstruct outcome.method outcome.url ≠
        some (presignInput sampleSigningConfig "20260604T070000Z" "20260604" outcome.method
          "192.0.2.7:9000" "a/../b.txt" outcome.expires).request := by
  obtain ⟨outcome, hok⟩ := sample_presigns "a/../b.txt" (by decide)
  refine ⟨outcome, hok, ?_⟩
  obtain ⟨date, stamp, time, scheme, host, signature, htime, hhost, hurl⟩ :=
    doPresign_ok _ _ _ _ _ hok
  cases htime
  cases sample_host.symm.trans hhost
  rw [hurl, ne_eq, presign_verifies_iff sampleSigningConfig "https" "20260604T070000Z" "20260604"
    outcome.method "192.0.2.7:9000" "a/../b.txt" outcome.expires signature (by decide)]
  rintro ⟨-, -, hplain⟩
  have hdots : ".." ∈ split '/' (stripSlash "a/../b.txt") := by decide
  exact hplain ".." hdots (.inr rfl)

theorem sample_normal : NormalEndpoint sampleSigningConfig.toS3Config := by
  intro scheme rest hsplit
  have hparts : splitOnce "://" sampleSigningConfig.endpoint =
      some ("https", "192.0.2.7:9000") := by
    decide +kernel
  cases hparts.symm.trans hsplit
  refine ⟨.name "192.0.2.7".toList, ":9000".toList, ⟨by decide, List.all_eq_true.mp (by decide)⟩,
    .inr ⟨9000, by decide, by decide, by decide⟩, by decide +kernel⟩

/-- A key with a space and a slash at the endpoint with a port. -/
theorem signed_urls_verify_iff_plain :
    ∃ outcome, doPresign sampleSigning sampleSigningConfig ⟨"GET", "a b/c.txt", 0⟩ false =
        .ok outcome ∧
      reconstruct outcome.method outcome.url =
        some (presignInput sampleSigningConfig "20260604T070000Z" "20260604" outcome.method
          "192.0.2.7:9000" "a b/c.txt" outcome.expires).request := by
  obtain ⟨outcome, hok⟩ := sample_presigns "a b/c.txt" (by decide)
  have hverifies := (signed_urls_verify_iff sampleSigning sampleSigningConfig false "https"
    "192.0.2.7:9000" "20260604T070000Z" "20260604" 1780556400 sample_host rfl).1 _ outcome hok
  refine ⟨outcome, hok, hverifies.mpr ⟨sample_normal, ?_, ?_⟩⟩
  · intro _
    decide
  · unfold PlainKey
    decide

end Documented

end Runlet.S3
