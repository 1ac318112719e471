import Runlet.Core.S3Recording
import Runlet.Core.S3Signing

/-!
The object each verb of the `s3` capability names. An upload form names its
`key` field, and its policy pins the same text; a signed URL names what its
path decodes to behind the bucket and one slash. The paths are built from the
key without a leading slash, the form from the key as it is.
-/

namespace Runlet.S3

open Text Ssrf Errors Capability PercentText TextCrates

section Crates

variable [TextCrates]

/-- The path of a signed URL: what stands between its host and its query. -/
def urlPath (scheme host url : String) : List Char :=
  (url.toList.drop (scheme ++ "://" ++ host).toList.length).takeWhile (· != '?')

/-- The decoded path behind the bucket and one slash. -/
def urlObject (config : S3Config) (path : List Char) : Option Bytes :=
  match path with
  | '/' :: rest =>
      if config.pathStyle then
        match splitOnceChars ['/'] rest with
        | some (bucket, key) =>
            if decode bucket = utf8 config.bucket then some (decode key) else none
        | none => none
      else some (decode rest)
  | _ => none

/-- The key a condition pins. -/
def conditionKey : Json → Option String
  | .obj [("key", .str key)] => some key
  | _ => none

def policyKey : Json → Option String
  | .obj fields =>
      match fields.lookup "conditions" with
      | some (.arr conditions) => conditions.findSome? conditionKey
      | _ => none
  | _ => none

/-- A key that all three verbs have accepted, with what they returned. -/
structure Acceptance (config : SigningConfig) (key : String) where
  env : SigningEnv
  allowPrivate : Bool
  scheme : String
  host : String
  resolved : resolveHost env.v6 env.lookup config.toS3Config allowPrivate = .ok (scheme, host)
  formExpires : Nat
  form : PostForm
  formed : doPresignPost env config key formExpires allowPrivate = .ok form
  method : String
  urlExpires : Nat
  presigned : PresignOutcome
  signed : doPresign env config ⟨method, key, urlExpires⟩ allowPrivate = .ok presigned
  maxOps : Nat
  outside : Outside
  wired : outside.v6 = env.v6 ∧ outside.lookup = env.lookup ∧
    outside.deleteUrl = buildDeleteUrl env config
  payload : String
  deleteUrl : String
  deletes : deleteTarget ⟨config.toS3Config, config.allowDelete, allowPrivate, maxOps⟩ outside
    payload = .ok (key, deleteUrl)

/-- The objects named by the form field, by the policy, by the presigned URL
and by the URL of the delete request. -/
def Acceptance.objects {config : SigningConfig} {key : String}
    (accepted : Acceptance config key) : List (Option Bytes) :=
  [(accepted.form.fields.lookup "key").map utf8, (policyKey accepted.form.policy).map utf8,
    urlObject config.toS3Config
      (urlPath accepted.scheme accepted.host accepted.presigned.url),
    urlObject config.toS3Config (urlPath accepted.scheme accepted.host accepted.deleteUrl)]

def SameObject (objects : List (Option Bytes)) : Prop :=
  ∃ object, ∀ named ∈ objects, named = some object

def Apart (left right : List (Option Bytes)) : Prop :=
  ∀ named ∈ left, ∀ other ∈ right, named ≠ other

/-! ### What a signed URL names -/

theorem urlPath_urlOn (input : SignInput) (scheme : String) (signature : Bytes)
    (huri : '?' ∉ input.canonicalUri.toList) :
    urlPath scheme input.host (input.urlOn scheme signature) = input.canonicalUri.toList := by
  have hall : ∀ c ∈ input.canonicalUri.toList, (c != '?') = true := by
    intro c hc
    simpa using fun heq : c = '?' => huri (heq ▸ hc)
  have hchars : (input.urlOn scheme signature).toList =
      (scheme ++ "://" ++ input.host).toList ++ (input.canonicalUri.toList ++
        '?' :: (input.query ++ "&X-Amz-Signature=" ++ hexEncode signature).toList) := by
    simp [SignInput.urlOn]
  rw [urlPath, hchars, List.drop_left, List.takeWhile_append_of_pos hall]
  simp

/-- A signed URL for a key names the object its path names. -/
theorem urlObject_urlOn (config : S3Config) (input : SignInput) (scheme key : String)
    (signature : Bytes) (huri : input.canonicalUri = buildUri config key) :
    urlObject config (urlPath scheme input.host (input.urlOn scheme signature)) =
      urlObject config (buildUri config key).toList := by
  have hquery : '?' ∉ input.canonicalUri.toList := by
    rw [huri]
    exact not_mem_buildUri '?' (by decide) (by decide) (by decide) (by decide) config key
  rw [urlPath_urlOn input scheme signature hquery, huri]

/-- The path decodes to the key without a leading slash. -/
theorem urlObject_buildUri (config : S3Config) (key : String) :
    urlObject config (buildUri config key).toList = some (utf8 (stripSlash key)) := by
  rw [buildUri_toList]
  by_cases hstyle : config.pathStyle = true
  · have hslash : '/' ∉ encode segmentSet (utf8 config.bucket) :=
      not_mem_encode _ _ _ (by decide) (by decide)
    have hsplit := splitOnceChars_append '/' [] _ (encode pathSet (utf8 (stripSlash key))) hslash
    rw [List.nil_append] at hsplit
    simp only [urlObject, hstyle, if_true, encodeToken_toList, hsplit, decode_encode_all]
  · simp [urlObject, hstyle, decode_encode_all]

/-- A form upload names the key as it was given, in both places. -/
theorem doPresignPost_ok (env : SigningEnv) (config : SigningConfig) (key : String)
    (requestedExpires : Nat) (allowPrivate : Bool) (form : PostForm)
    (hok : doPresignPost env config key requestedExpires allowPrivate = .ok form) :
    form.fields.lookup "key" = some key ∧ policyKey form.policy = some key := by
  unfold doPresignPost at hok
  split at hok
  · cases hok
  · split at hok
    · cases hok
    · obtain ⟨⟨amzDate, datestamp, now⟩, -, hok⟩ := (bind_eq_ok_iff _ _ _).mp hok
      obtain ⟨⟨scheme, host⟩, -, hok⟩ := (bind_eq_ok_iff _ _ _).mp hok
      obtain ⟨expiration, -, hok⟩ := (bind_eq_ok_iff _ _ _).mp hok
      obtain ⟨policyText, -, hok⟩ := (bind_eq_ok_iff _ _ _).mp hok
      obtain ⟨signingKey, -, hok⟩ := (bind_eq_ok_iff _ _ _).mp hok
      obtain ⟨signature, -, hok⟩ := (bind_eq_ok_iff _ _ _).mp hok
      rw [← Except.ok.inj hok]
      exact ⟨rfl, rfl⟩

omit [TextCrates] in
/-- A delete that gets to its request has a host and a URL on it. -/
theorem deleteTarget_ok (access : S3Access) (outside : Outside) (payload key url : String)
    (hok : deleteTarget access outside payload = .ok (key, url)) :
    ∃ scheme host, resolveHost outside.v6 outside.lookup access.config access.allowPrivate =
        .ok (scheme, host) ∧ outside.deleteUrl scheme host key = .ok url := by
  unfold deleteTarget at hok
  split at hok
  · cases hok
  · cases hpayload : outside.deletePayload payload with
    | error err => simp [hpayload] at hok
    | ok found =>
        simp only [hpayload] at hok
        split at hok
        · cases hok
        · cases hhost : resolveHost outside.v6 outside.lookup access.config
              access.allowPrivate with
          | error err => simp [hhost] at hok
          | ok address =>
              obtain ⟨scheme, host⟩ := address
              simp only [hhost] at hok
              cases hurl : outside.deleteUrl scheme host found with
              | error err => simp [hurl] at hok
              | ok built =>
                  simp only [hurl] at hok
                  cases hclient : outside.client with
                  | error err => simp [hclient] at hok
                  | ok ready =>
                      simp only [hclient] at hok
                      cases Except.ok.inj hok
                      exact ⟨scheme, host, rfl, hurl⟩

/-! ### All verbs together -/

omit [TextCrates] in
theorem stripSlash_eq_iff (key : String) :
    stripSlash key = key ↔ key.toList.head? ≠ some '/' := by
  unfold stripSlash
  split
  · rename_i rest hchars
    rw [hchars]
    simp only [List.head?_cons, ne_eq, not_true_eq_false, iff_false]
    intro hsame
    have hlength := congrArg (fun text : String => text.toList.length) hsame
    simp [hchars] at hlength
  · rename_i hchars
    simp only [true_iff]
    intro hhead
    obtain ⟨rest, hrest⟩ := List.head?_eq_some_iff.mp hhead
    exact hchars rest hrest

/-- The form and the policy name the key, the two URLs name the key without a
leading slash. -/
theorem Acceptance.objects_eq {config : SigningConfig} {key : String}
    (accepted : Acceptance config key) :
    accepted.objects = [some (utf8 key), some (utf8 key), some (utf8 (stripSlash key)),
      some (utf8 (stripSlash key))] := by
  obtain ⟨hfield, hpolicy⟩ := doPresignPost_ok _ _ _ _ _ _ accepted.formed
  have hpresigned : urlObject config.toS3Config
      (urlPath accepted.scheme accepted.host accepted.presigned.url) =
      some (utf8 (stripSlash key)) := by
    obtain ⟨amzDate, datestamp, now, scheme, host, signature, -, hhost, hurl⟩ :=
      doPresign_ok _ _ _ _ _ accepted.signed
    cases accepted.resolved.symm.trans hhost
    rw [hurl]
    have hobject := urlObject_urlOn config.toS3Config (presignInput config amzDate datestamp
      accepted.presigned.method accepted.host key accepted.presigned.expires) accepted.scheme key
      signature rfl
    rw [urlObject_buildUri] at hobject
    exact hobject
  have hdelete : urlObject config.toS3Config
      (urlPath accepted.scheme accepted.host accepted.deleteUrl) =
      some (utf8 (stripSlash key)) := by
    obtain ⟨hv6, hlookup, hbuild⟩ := accepted.wired
    obtain ⟨scheme, host, hhost, hurl⟩ := deleteTarget_ok _ _ _ _ _ accepted.deletes
    rw [hv6, hlookup] at hhost
    cases accepted.resolved.symm.trans hhost
    rw [hbuild] at hurl
    obtain ⟨amzDate, datestamp, now, signature, -, hparts⟩ := buildDeleteUrl_ok _ _ _ _ _ _ hurl
    rw [hparts]
    have hobject := urlObject_urlOn config.toS3Config
      (deleteInput config amzDate datestamp accepted.host key) accepted.scheme key signature rfl
    rw [urlObject_buildUri] at hobject
    exact hobject
  simp only [Acceptance.objects, hfield, hpolicy, hpresigned, hdelete, Option.map_some]

/-- For every configuration and every two keys that all verbs accept: each key
is one object for all of them and different keys are different objects, exactly
when neither key starts with a slash. -/
theorem objects_agree_iff (config : SigningConfig) (left right : String)
    (first : Acceptance config left) (second : Acceptance config right) :
    (SameObject first.objects ∧ SameObject second.objects ∧
      (left ≠ right → Apart first.objects second.objects)) ↔
    left.toList.head? ≠ some '/' ∧ right.toList.head? ≠ some '/' := by
  have hsame : ∀ key, SameObject [some (utf8 key), some (utf8 key),
      some (utf8 (stripSlash key)), some (utf8 (stripSlash key))] ↔
      key.toList.head? ≠ some '/' := by
    intro key
    rw [← stripSlash_eq_iff]
    constructor
    · rintro ⟨object, hall⟩
      have hkey := hall (some (utf8 key)) (by simp)
      have hpath := hall (some (utf8 (stripSlash key))) (by simp)
      exact utf8_injective _ _ (Option.some.inj (hpath.trans hkey.symm))
    · intro hstrip
      refine ⟨utf8 key, ?_⟩
      rw [hstrip]
      simp
  rw [first.objects_eq, second.objects_eq, hsame, hsame]
  constructor
  · rintro ⟨hleft, hright, -⟩
    exact ⟨hleft, hright⟩
  · rintro ⟨hleft, hright⟩
    refine ⟨hleft, hright, ?_⟩
    intro hne
    have hobjects : utf8 left ≠ utf8 right := fun heq => hne (utf8_injective left right heq)
    rw [(stripSlash_eq_iff left).mpr hleft, (stripSlash_eq_iff right).mpr hright]
    simpa [Apart] using hobjects

/-- Stand-ins for the clock and the hashes; the endpoint is a public address. -/
def sampleSigning : SigningEnv where
  v6 := stdV6 fun _ => ""
  lookup := unresolved
  timestamps := .ok ("20260604T070000Z", "20260604", 1780556400)
  expiration := fun _ _ => .ok "2026-06-04T07:15:00.000Z"
  hmacSha256 := fun _ _ => .ok (List.replicate 32 171)
  sha256 := fun _ => List.replicate 32 205
  jsonText := fun _ => .ok "policy"
  base64 := fun _ => "cG9saWN5"

def sampleSigningConfig : SigningConfig where
  endpoint := "https://192.0.2.7:9000"
  bucket := "bucket"
  pathStyle := true
  region := "us-east-1"
  accessKey := "AKIDEXAMPLE"
  secretKey := "secret"
  expires := 900
  maxExpires := 604800
  maxUploadSize := 1048576
  allowDelete := true

omit [TextCrates] in
theorem sample_host :
    resolveHost sampleSigning.v6 sampleSigning.lookup sampleSigningConfig.toS3Config false =
      .ok ("https", "192.0.2.7:9000") := by
  decide +kernel

theorem sample_presigns (key : String) (hkey : trim key ≠ "") :
    ∃ presigned, doPresign sampleSigning sampleSigningConfig ⟨"GET", key, 0⟩ false =
      .ok presigned := by
  have hmethod : orSigning (normalizeMethod "GET") = .ok "GET" := rfl
  unfold doPresign
  rw [sample_host]
  simp only [hmethod, bind, Except.bind]
  rw [if_neg (by decide), if_neg hkey]
  exact ⟨_, rfl⟩

/-- Every key that is not blank is accepted. -/
theorem sample_accepts (key : String) (hkey : trim key ≠ "") :
    Nonempty (Acceptance sampleSigningConfig key) := by
  obtain ⟨form, hform⟩ : ∃ form,
      doPresignPost sampleSigning sampleSigningConfig key 0 false = .ok form := by
    unfold doPresignPost
    rw [if_neg hkey, if_neg (by decide), sample_host]
    exact ⟨_, rfl⟩
  obtain ⟨presigned, hpresigned⟩ := sample_presigns key hkey
  obtain ⟨url, hurl⟩ : ∃ url,
      buildDeleteUrl sampleSigning sampleSigningConfig "https" "192.0.2.7:9000" key = .ok url :=
    ⟨_, rfl⟩
  let outside : Outside :=
    { refusingStore with
      deletePayload := fun _ => .ok key
      deleteUrl := buildDeleteUrl sampleSigning sampleSigningConfig }
  have hdelete : deleteTarget ⟨sampleSigningConfig.toS3Config, true, false, 10⟩ outside "" =
      .ok (key, url) := by
    have hguard : resolveHost (stdV6 fun _ => "") unresolved sampleSigningConfig.toS3Config false =
        .ok ("https", "192.0.2.7:9000") := sample_host
    simp only [deleteTarget, Bool.not_true, Bool.false_eq_true, if_false, outside, if_neg hkey,
      refusingStore, hguard, hurl]
  exact ⟨⟨sampleSigning, false, "https", "192.0.2.7:9000", sample_host, 0, form, hform, "GET", 0,
    presigned, hpresigned, 10, outside, ⟨rfl, rfl, rfl⟩, "", url, hdelete⟩⟩

end Crates

section Documented

attribute [local instance] documentedCrates

/-- For a key with a leading slash the form and the URLs differ, and the URLs
are those of the key without it. -/
theorem leading_slash_aliases :
    ∃ (first : Acceptance sampleSigningConfig "/a.txt")
      (second : Acceptance sampleSigningConfig "a.txt"),
      ¬ SameObject first.objects ∧ ¬ Apart first.objects second.objects := by
  obtain ⟨first⟩ := sample_accepts "/a.txt" (by decide)
  obtain ⟨second⟩ := sample_accepts "a.txt" (by decide)
  have hstrip : stripSlash "/a.txt" = "a.txt" := by decide
  have hplain : stripSlash "a.txt" = "a.txt" := by decide
  refine ⟨first, second, ?_, ?_⟩
  · rw [first.objects_eq, hstrip]
    rintro ⟨object, hall⟩
    have hform := hall (some (utf8 "/a.txt")) (by simp)
    have hurl := hall (some (utf8 "a.txt")) (by simp)
    exact absurd (hform.trans hurl.symm) (by decide +kernel)
  · rw [first.objects_eq, second.objects_eq, hstrip, hplain]
    intro hdisjoint
    exact hdisjoint (some (utf8 "a.txt")) (by simp) (some (utf8 "a.txt")) (by simp) rfl

theorem objects_agree_iff_plain :
    ∃ (first : Acceptance sampleSigningConfig "a b/c.txt")
      (second : Acceptance sampleSigningConfig "a%20b/c.txt"),
      SameObject first.objects ∧ SameObject second.objects ∧
        Apart first.objects second.objects := by
  obtain ⟨first⟩ := sample_accepts "a b/c.txt" (by decide)
  obtain ⟨second⟩ := sample_accepts "a%20b/c.txt" (by decide)
  obtain ⟨hfirst, hsecond, hdisjoint⟩ := (objects_agree_iff sampleSigningConfig "a b/c.txt"
    "a%20b/c.txt" first second).mpr (by decide)
  exact ⟨first, second, hfirst, hsecond, hdisjoint (by decide)⟩

end Documented

end Runlet.S3
