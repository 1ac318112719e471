import Runlet.Core.Datetime

/-!
The `__sys` bridge (`sys.rs`): the always-on `$std.crypto` operations and the
`datetime` domain behind one dispatch, with the plaintext of the operator's
secrets on the native side. Secrets are for use and not for extraction: only an
HMAC reads one, in the position of the key. Digests, encodings and the JSON
parser are parameters; a fresh UUID is a fixed input like the clock.
-/

namespace Runlet.Sys

open Errors Classify Datetime

abbrev Bytes := List UInt8

/-- The plaintext of the secrets by name. -/
abbrev SecretStore := List (String × String)

/-- A keyed hash: fails on a key it does not take, else maps a message to its
digest. -/
abbrev Mac := Bytes → Except String (Bytes → Bytes)

structure SysLib where
  cal : Calendar
  parse : String → Except String Json
  sha256 : Bytes → Bytes
  sha512 : Bytes → Bytes
  macSha256 : Mac
  macSha512 : Mac
  uuid : String
  hexEncode : Bytes → String
  hexDecode : String → Except String Bytes
  base64Encode : Bytes → String
  base64Decode : String → Except String Bytes
  base64urlEncode : Bytes → String
  base64urlDecode : String → Except String Bytes
  percentEncode : String → String
  percentDecode : String → Except String String
  fromUtf8 : Bytes → Except String String

/-- An HMAC takes keys of every length. -/
structure SysLib.Lawful (lib : SysLib) : Prop where
  anyKey256 : ∀ key, ∃ digest, lib.macSha256 key = .ok digest
  anyKey512 : ∀ key, ∃ digest, lib.macSha512 key = .ok digest

def bytesOf (text : String) : Bytes := text.toUTF8.data.toList

def mapErr {α : Type} (f : String → String) : Except String α → Except String α
  | .ok value => .ok value
  | .error err => .error (f err)

variable (lib : SysLib)

def sha256Hex (data : String) : String := lib.hexEncode (lib.sha256 (bytesOf data))

def sha512Hex (data : String) : String := lib.hexEncode (lib.sha512 (bytesOf data))

/-! ### Encodings -/

def encodeBytes (bytes : Bytes) (encoding : String) : Except String String :=
  match encoding with
  | "hex" => .ok (lib.hexEncode bytes)
  | "base64" => .ok (lib.base64Encode bytes)
  | "base64url" => .ok (lib.base64urlEncode bytes)
  | other => .error ("unsupported encoding: '" ++ other ++ "'")

def base64Decode (decode : String → Except String Bytes) (data : String) : Except String Bytes :=
  mapErr ("invalid base64: " ++ ·) (decode data)

def decodeUtf8 (bytes : Bytes) : Except String Json :=
  mapErr ("decoded bytes are not valid utf-8: " ++ ·) ((lib.fromUtf8 bytes).map Json.str)

def urlDecode (data : String) : Except String Json :=
  mapErr ("invalid percent-encoding: " ++ ·) ((lib.percentDecode data).map Json.str)

def encodingDispatch (op : String) (payload : Json) : Except String Json := do
  let data ← fieldStr payload "data"
  match op with
  | "base64_encode" => pure (.str (lib.base64Encode (bytesOf data)))
  | "base64_decode" => do decodeUtf8 lib (← base64Decode lib.base64Decode data)
  | "base64url_encode" => pure (.str (lib.base64urlEncode (bytesOf data)))
  | "base64url_decode" => do decodeUtf8 lib (← base64Decode lib.base64urlDecode data)
  | "hex_encode" => pure (.str (lib.hexEncode (bytesOf data)))
  | "hex_decode" => do decodeUtf8 lib (← mapErr ("invalid hex: " ++ ·) (lib.hexDecode data))
  | "url_encode" => pure (.str (lib.percentEncode data))
  | "url_decode" => urlDecode lib data
  | other => .error ("unknown encoding op: '" ++ other ++ "'")

/-! ### HMAC and the dispatch -/

def keyRef (payload : Json) : Option String := (field "key_ref" payload).bind asStr

/-- A string `key_ref` names a stored secret; anything else leaves the `key`
the script gave. -/
def resolveKey (payload : Json) (secrets : SecretStore) : Except String String :=
  match keyRef payload with
  | some name => okOr ("unknown secret: '" ++ name ++ "'") (secrets.lookup name)
  | none => fieldStr payload "key"

/-- `hmac_sha256` and `hmac_sha512`. -/
def hmacBytes (mac : Mac) (key msg : Bytes) : Except String Bytes := do
  let digest ← mapErr ("hmac key error: " ++ ·) (mac key)
  pure (digest msg)

def hmacOp (payload : Json) (secrets : SecretStore) : Except String Json := do
  let algo ← fieldStr payload "algo"
  let key ← resolveKey payload secrets
  let msg ← fieldStr payload "msg"
  let encoding := ((field "encoding" payload).bind asStr).getD "hex"
  let bytes ← match algo with
    | "sha256" => hmacBytes lib.macSha256 (bytesOf key) (bytesOf msg)
    | "sha512" => hmacBytes lib.macSha512 (bytesOf key) (bytesOf msg)
    | other => .error ("unsupported hmac algorithm: '" ++ other ++ "'")
  let text ← encodeBytes lib bytes encoding
  pure (.str text)

def cryptoDispatch (op : String) (payload : Json) (secrets : SecretStore) :
    Except String Json :=
  match op with
  | "sha256" => do pure (.str (sha256Hex lib (← fieldStr payload "data")))
  | "sha512" => do pure (.str (sha512Hex lib (← fieldStr payload "data")))
  | "hmac" => hmacOp lib payload secrets
  | "uuid" => .ok (.str lib.uuid)
  | "base64_encode" | "base64_decode" | "base64url_encode" | "base64url_decode"
  | "hex_encode" | "hex_decode" | "url_encode" | "url_decode" => encodingDispatch lib op payload
  | other => .error ("unknown crypto op: '" ++ other ++ "'")

def dispatch (domain op payload : String) (secrets : SecretStore) : Except String Json := do
  let parsed ← mapErr ("invalid payload: " ++ ·) (lib.parse payload)
  match domain with
  | "crypto" => cryptoDispatch lib op parsed secrets
  | "datetime" => datetimeDispatch lib.cal op parsed
  | other => .error ("unknown sys domain: '" ++ other ++ "'")

/-! ### What a script can learn of a secret -/

/-- The two stores hold the same names. -/
def SameNames (left right : SecretStore) : Prop :=
  ∀ name, (left.lookup name).isSome = (right.lookup name).isSome

/-- The call is an HMAC whose `key_ref` is a string that names a stored
secret. -/
def ReadsSecret (domain op payload : String) (secrets : SecretStore) : Prop :=
  domain = "crypto" ∧ op = "hmac" ∧ ∃ parsed name, lib.parse payload = .ok parsed ∧
    keyRef parsed = some name ∧ (secrets.lookup name).isSome = true

/-- The HMAC of the message of a payload under a key, for the algorithm it
asks for. -/
def hmacOf (payload : Json) (key : String) : Option Bytes := do
  let algo ← (fieldStr payload "algo").toOption
  let msg ← (fieldStr payload "msg").toOption
  match algo with
  | "sha256" => (hmacBytes lib.macSha256 (bytesOf key) (bytesOf msg)).toOption
  | "sha512" => (hmacBytes lib.macSha512 (bytesOf key) (bytesOf msg)).toOption
  | _ => none

/-- The answer to an HMAC call from its payload and the digest alone. -/
def hmacAnswer (payload : Json) (digest : Option Bytes) : Except String Json := do
  let algo ← fieldStr payload "algo"
  let _ ← fieldStr payload "msg"
  let bytes ← okOr ("unsupported hmac algorithm: '" ++ algo ++ "'") digest
  let text ← encodeBytes lib bytes (((field "encoding" payload).bind asStr).getD "hex")
  pure (.str text)

/-- The error texts of an HMAC call under a stored secret, made of fixed words
and of strings of the payload. -/
def hmacErrorTexts (payload : Json) : List String :=
  ["missing string field 'algo'", "missing string field 'msg'",
    "unsupported hmac algorithm: '" ++ ((field "algo" payload).bind asStr).getD "" ++ "'",
    "unsupported encoding: '" ++ ((field "encoding" payload).bind asStr).getD "hex" ++ "'"]

theorem hmacBytes_ok (mac : Mac) (key msg : Bytes) (h : ∃ digest, mac key = .ok digest) :
    ∃ bytes, hmacBytes mac key msg = .ok bytes := by
  obtain ⟨digest, hdigest⟩ := h
  exact ⟨digest msg, by simp [hmacBytes, hdigest, mapErr, bind, Except.bind, pure, Except.pure]⟩

/-- Once the key is a stored secret, the call depends on its HMAC only. -/
theorem hmacOp_of_secret (hlib : lib.Lawful) (payload : Json) (secrets : SecretStore)
    (name secret : String) (hname : keyRef payload = some name)
    (hsecret : secrets.lookup name = some secret) :
    hmacOp lib payload secrets = hmacAnswer lib payload (hmacOf lib payload secret) := by
  have hkey : resolveKey payload secrets = .ok secret := by
    simp [resolveKey, hname, hsecret, okOr]
  unfold hmacOp hmacAnswer hmacOf
  cases fieldStr payload "algo" with
  | error err => rfl
  | ok algo =>
      cases fieldStr payload "msg" with
      | error err => simp [hkey, bind, Except.bind]
      | ok msg =>
          obtain ⟨short, hshort⟩ := hmacBytes_ok lib.macSha256 (bytesOf secret) (bytesOf msg)
            (hlib.anyKey256 _)
          obtain ⟨long, hlong⟩ := hmacBytes_ok lib.macSha512 (bytesOf secret) (bytesOf msg)
            (hlib.anyKey512 _)
          simp only [hkey, bind, Except.bind, Option.bind, Except.toOption]
          split
          · simp [hshort, okOr]
          · simp [hlong, okOr]
          · simp [okOr]

/-- Whether there is a digest does not depend on the key. -/
theorem hmacOf_isSome (hlib : lib.Lawful) (payload : Json) (left right : String) :
    (hmacOf lib payload left).isSome = (hmacOf lib payload right).isSome := by
  unfold hmacOf
  cases fieldStr payload "algo" with
  | error err => rfl
  | ok algo =>
      cases fieldStr payload "msg" with
      | error err => rfl
      | ok msg =>
          have hok (mac : Mac) (hmac : ∀ key, ∃ digest, mac key = .ok digest) (key : String) :
              (hmacBytes mac (bytesOf key) (bytesOf msg)).toOption.isSome = true := by
            obtain ⟨bytes, hbytes⟩ := hmacBytes_ok mac (bytesOf key) (bytesOf msg) (hmac _)
            rw [hbytes]
            rfl
          simp only [Except.toOption, bind, Option.bind]
          split
          · exact (hok _ hlib.anyKey256 left).trans (hok _ hlib.anyKey256 right).symm
          · exact (hok _ hlib.anyKey512 left).trans (hok _ hlib.anyKey512 right).symm
          · rfl

theorem encodeBytes_error (left right : Bytes) (encoding err : String)
    (h : encodeBytes lib left encoding = .error err) :
    err = "unsupported encoding: '" ++ encoding ++ "'" ∧
      encodeBytes lib right encoding = .error err := by
  unfold encodeBytes at h ⊢
  split at h
  · cases h
  · cases h
  · cases h
  · cases h
    exact ⟨rfl, rfl⟩

/-- An error of an HMAC call has one of the known texts, and with any other
digest in its place the call gives the same error. -/
theorem hmacAnswer_error (payload : Json) (left right : Option Bytes) (err : String)
    (hsome : left.isSome = right.isSome) (h : hmacAnswer lib payload left = .error err) :
    err ∈ hmacErrorTexts payload ∧ hmacAnswer lib payload right = .error err := by
  unfold hmacAnswer fieldStr at h ⊢
  unfold hmacErrorTexts
  cases halgo : (field "algo" payload).bind asStr with
  | none =>
      rw [halgo] at h
      cases h
      exact ⟨by simp, rfl⟩
  | some algo =>
      cases hmsg : (field "msg" payload).bind asStr with
      | none =>
          rw [halgo, hmsg] at h
          cases h
          exact ⟨by simp, rfl⟩
      | some msg =>
          simp only [halgo, hmsg, bind, Except.bind] at h ⊢
          cases left with
          | none =>
              cases right with
              | none =>
                  cases h
                  exact ⟨by simp, rfl⟩
              | some bytes => cases hsome
          | some bytes =>
              cases right with
              | none => cases hsome
              | some other =>
                  simp only [okOr] at h ⊢
                  cases hencode : encodeBytes lib bytes
                      (((field "encoding" payload).bind asStr).getD "hex") with
                  | ok text =>
                      rw [hencode] at h
                      cases h
                  | error encodeErr =>
                      rw [hencode] at h
                      cases h
                      obtain ⟨htext, hother⟩ := encodeBytes_error lib bytes other _ _ hencode
                      rw [hother]
                      exact ⟨by simp [htext], rfl⟩

/-- Any other call is answered without looking at a plaintext. -/
theorem dispatch_of_not_reads (domain op payload : String) (left right : SecretStore)
    (hnames : SameNames left right) (hreads : ¬ ReadsSecret lib domain op payload left) :
    dispatch lib domain op payload left = dispatch lib domain op payload right := by
  unfold dispatch
  cases hparse : lib.parse payload with
  | error err => rfl
  | ok parsed =>
      simp only [mapErr, bind, Except.bind]
      split
      · unfold cryptoDispatch
        split
        case h_3 =>
          have hkey : resolveKey parsed left = resolveKey parsed right := by
            unfold resolveKey
            cases hname : keyRef parsed with
            | none => rfl
            | some name =>
                have hnone : left.lookup name = none := by
                  rw [← Option.not_isSome_iff_eq_none]
                  intro hsome
                  exact hreads ⟨rfl, rfl, parsed, name, hparse, hname, hsome⟩
                have hnone' : right.lookup name = none := by
                  rw [← Option.not_isSome_iff_eq_none, ← hnames name, hnone]
                  exact Bool.false_ne_true
                simp only [hnone, hnone']
          unfold hmacOp
          rw [hkey]
        all_goals rfl
      · rfl
      · rfl

/-- For every call and all stores with the same names: the answer is the same
for both stores unless the call is an HMAC under a stored secret, and then it
is made of the payload and of the HMAC of that secret, and an error is made of
the payload alone: it has a known text and is the same for every plaintext. -/
theorem dispatch_reveals_hmac_only (hlib : lib.Lawful) (domain op payload : String)
    (left right : SecretStore) (hnames : SameNames left right) :
    (¬ ReadsSecret lib domain op payload left →
      dispatch lib domain op payload left = dispatch lib domain op payload right) ∧
    (ReadsSecret lib domain op payload left → ∃ parsed name secret,
      lib.parse payload = .ok parsed ∧ keyRef parsed = some name ∧
      left.lookup name = some secret ∧
      dispatch lib domain op payload left =
        hmacAnswer lib parsed (hmacOf lib parsed secret) ∧
      ∀ err, dispatch lib domain op payload left = .error err →
        err ∈ hmacErrorTexts parsed ∧
        dispatch lib domain op payload right = .error err) := by
  refine ⟨dispatch_of_not_reads lib domain op payload left right hnames, ?_⟩
  rintro ⟨rfl, rfl, parsed, name, hparse, hname, hsome⟩
  obtain ⟨secret, hsecret⟩ := Option.isSome_iff_exists.mp hsome
  obtain ⟨other, hother⟩ := Option.isSome_iff_exists.mp ((hnames name).symm.trans hsome)
  have hdispatch (secrets : SecretStore) :
      dispatch lib "crypto" "hmac" payload secrets = hmacOp lib parsed secrets := by
    simp only [dispatch, hparse, mapErr, bind, Except.bind]
    rfl
  have hleft := hmacOp_of_secret lib hlib parsed left name secret hname hsecret
  have hright := hmacOp_of_secret lib hlib parsed right name other hname hother
  refine ⟨parsed, name, secret, hparse, hname, hsecret, ?_, ?_⟩
  · rw [hdispatch, hleft]
  · intro err herr
    rw [hdispatch, hleft] at herr
    rw [hdispatch, hright]
    exact hmacAnswer_error lib parsed _ _ err (hmacOf_isSome lib hlib parsed secret other) herr

/-! ### A call under a stored secret -/

def sampleCalendar : Calendar where
  Instant := Int
  Zone := Unit
  Date := Unit
  Local := Unit
  now := .ok 1700000000000
  parseRfc3339 _ := none
  parseDate _ := none
  fromMillis ms := some ms
  millis ms := ms
  addMonths _ _ := none
  subMonths _ _ := none
  toRfc3339 _ := ""
  toRfc3339In _ _ := ""
  components _ _ := ⟨1970, 1, 1, 0, 0, 0, 0, 4, 1, 1, 1970⟩
  localDate _ _ := ()
  utc := ()
  parseZone _ := none
  utcMillis _ := 0
  fromLocal _ _ := none
  atTime _ _ _ _ _ := none
  fromYmd _ _ _ := none
  year _ := 1970
  month _ := 1
  day _ := 1
  daysFromMonday _ := 3
  addDays _ _ := none
  subDays _ _ := none
  withDay _ _ := none
  withMonth _ _ := none
  pred _ := none

def hexDigit (n : Nat) : Char := "0123456789abcdef".toList.getD n '0'

def hexText (bytes : Bytes) : String :=
  String.ofList (bytes.flatMap fun byte => [hexDigit (byte.toNat / 16), hexDigit (byte.toNat % 16)])

/-- HMAC-SHA-256 of `hi` under the keys `old` and `new`. -/
def sampleMac : Mac := fun key => .ok fun msg =>
  if msg ≠ bytesOf "hi" then []
  else if key = bytesOf "old" then
    [119, 223, 234, 117, 253, 129, 233, 154, 154, 70, 26, 250, 87, 143, 69, 23, 210, 23, 185, 191,
      4, 135, 165, 63, 203, 83, 3, 255, 86, 218, 182, 151]
  else if key = bytesOf "new" then
    [5, 90, 242, 132, 161, 154, 153, 251, 86, 55, 1, 245, 143, 94, 35, 234, 76, 173, 67, 35, 162,
      215, 99, 71, 161, 217, 49, 120, 43, 182, 219, 205]
  else []

def samplePayload : String := "\x7b\"algo\":\"sha256\",\"key_ref\":\"api\",\"msg\":\"hi\"\x7d"

def sampleParsed : Json :=
  .obj [("algo", .str "sha256"), ("key_ref", .str "api"), ("msg", .str "hi")]

def sampleLib : SysLib where
  cal := sampleCalendar
  parse text :=
    if text = samplePayload then .ok sampleParsed else .error "expected value at line 1 column 1"
  sha256 _ := []
  sha512 _ := []
  macSha256 := sampleMac
  macSha512 _ := .ok fun _ => []
  uuid := "0190b0a0-0000-7000-8000-000000000000"
  hexEncode := hexText
  hexDecode _ := .error "Odd number of digits"
  base64Encode _ := ""
  base64Decode _ := .error "Invalid padding"
  base64urlEncode _ := ""
  base64urlDecode _ := .error "Invalid padding"
  percentEncode text := text
  percentDecode text := .ok text
  fromUtf8 _ := .ok ""

theorem sampleLib_lawful : sampleLib.Lawful :=
  ⟨fun _ => ⟨_, rfl⟩, fun _ => ⟨_, rfl⟩⟩

theorem dispatch_old_key :
    dispatch sampleLib "crypto" "hmac" samplePayload [("api", "old")] =
      .ok (.str "77dfea75fd81e99a9a461afa578f4517d217b9bf0487a53fcb5303ff56dab697") ∧
    ∃ parsed name secret, sampleLib.parse samplePayload = .ok parsed ∧
      keyRef parsed = some name ∧ [("api", "old")].lookup name = some secret ∧
      dispatch sampleLib "crypto" "hmac" samplePayload [("api", "old")] =
        hmacAnswer sampleLib parsed (hmacOf sampleLib parsed secret) ∧
      ∀ err, dispatch sampleLib "crypto" "hmac" samplePayload [("api", "old")] = .error err →
        err ∈ hmacErrorTexts parsed ∧
        dispatch sampleLib "crypto" "hmac" samplePayload [("api", "new")] = .error err := by
  have hnames : SameNames [("api", "old")] [("api", "new")] := by
    intro name
    by_cases hname : name = "api"
    · subst hname
      rfl
    · have hbeq : (name == "api") = false := by simpa using hname
      simp [List.lookup_cons, hbeq]
  have hreads : ReadsSecret sampleLib "crypto" "hmac" samplePayload [("api", "old")] :=
    ⟨rfl, rfl, sampleParsed, "api", by simp [sampleLib], rfl, rfl⟩
  refine ⟨by rfl, ?_⟩
  exact (dispatch_reveals_hmac_only sampleLib sampleLib_lawful "crypto" "hmac" samplePayload
    [("api", "old")] [("api", "new")] hnames).2 hreads

end Runlet.Sys
