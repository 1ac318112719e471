import Runlet.Core.Sys
import Runlet.Lib.Base64
import Runlet.Lib.TextCodec

/-!
`base64`, `base64url`, `hex` and `url` of `$std.crypto`: the wrappers of `js/sys.js` over
the encodings of the `__sys` bridge. A script's text is a row of code units, the bridge
takes a string and works on its UTF-8 bytes, and the answer is a row of code units again.
-/

namespace Runlet.Sys

open Base64 Classify Datetime Errors PercentText TextCodec

/-! ### The libraries behind the encodings -/

/-- `NON_ALPHANUMERIC` -/
def nonAlphanumeric : KeepSet := .of [] rfl

/-- What the libraries document: base64 with padding and base64url without, hexadecimal
written in small digits and read in either case, percent-encoding of all but letters and
digits, and UTF-8 read strictly. -/
structure SysLib.LawfulCodecs (lib : SysLib) : Prop where
  base64_encode : ∀ bytes, standard.padded bytes = some (lib.base64Encode bytes).toList
  base64_decode : ∀ text bytes,
    lib.base64Decode text = .ok bytes ↔ standard.padded.symm text.toList = some bytes
  base64url_encode : ∀ bytes, urlSafe.bare bytes = some (lib.base64urlEncode bytes).toList
  base64url_decode : ∀ text bytes,
    lib.base64urlDecode text = .ok bytes ↔ urlSafe.bare.symm text.toList = some bytes
  hex_encode : ∀ bytes, (lib.hexEncode bytes).toList = encodeHex bytes
  hex_decode : ∀ text bytes, lib.hexDecode text = .ok bytes ↔ decodeHex text.toList = some bytes
  percent_encode : ∀ text,
    (lib.percentEncode text).toList = encode nonAlphanumeric (PercentText.utf8 text)
  percent_decode : ∀ text decoded, lib.percentDecode text = .ok decoded ↔
    PercentText.fromUtf8 (decode text.toList) = some decoded
  from_utf8 : ∀ bytes text,
    lib.fromUtf8 bytes = .ok text ↔ PercentText.fromUtf8 bytes = some text

variable (lib : SysLib) (payloadError : CodeUnits → String) (secrets : SecretStore)

/-! ### The wrappers -/

/-- What a script hands to a codec: a handle of a secret, or what `String` makes of any
other value. -/
inductive Arg where
  | secret (name : String)
  | value (data : CodeUnits)

inductive ScriptValue where
  | text (units : CodeUnits)
  | other (json : Json)

/-- A value of the bridge as the script gets it. -/
def toScript : Json → ScriptValue
  | .str text => .text (encode16 text.toList)
  | value => .other value

def payloadOf (data : String) : Json := .obj [("data", .str data)]

/-- `c(op, { data })`; the bridge refuses half a surrogate pair. -/
def callCrypto (op : String) (data : CodeUnits) : Except String ScriptValue :=
  match ofUnits data with
  | none => .error ("invalid payload: " ++ payloadError data)
  | some text => (cryptoDispatch lib op (payloadOf text) secrets).map toScript

def denySecret (arg : Arg) (verb : String) : Except String CodeUnits :=
  match arg with
  | .secret _ => .error ("a secret cannot be " ++ verb ++ "; use it only as an HMAC key")
  | .value data => .ok data

/-- `codec(encOp, decOp)` -/
structure Codec where
  encOp : String
  decOp : String

def Codec.encode (codec : Codec) (arg : Arg) : Except String ScriptValue := do
  let data ← denySecret arg "encoded"
  callCrypto lib payloadError secrets codec.encOp data

def Codec.decode (codec : Codec) (arg : Arg) : Except String ScriptValue := do
  let data ← denySecret arg "decoded"
  callCrypto lib payloadError secrets codec.decOp data

def base64 : Codec := ⟨"base64_encode", "base64_decode"⟩

def base64url : Codec := ⟨"base64url_encode", "base64url_decode"⟩

def hex : Codec := ⟨"hex_encode", "hex_decode"⟩

def url : Codec := ⟨"url_encode", "url_decode"⟩

/-! ### One call -/

section Calls

variable {lib payloadError secrets}

theorem map_toScript_eq_text {answer : Except String Json} {units : CodeUnits} :
    answer.map toScript = .ok (.text units) ↔
      ∃ text, answer = .ok (.str text) ∧ encode16 text.toList = units := by
  cases answer with
  | error err => simp [Except.map]
  | ok json => cases json <;> simp [Except.map, toScript]

theorem callCrypto_eq_text {op : String} {data units : CodeUnits} :
    callCrypto lib payloadError secrets op data = .ok (.text units) ↔
      ∃ text answer, encode16 text.toList = data ∧
        cryptoDispatch lib op (payloadOf text) secrets = .ok (.str answer) ∧
        encode16 answer.toList = units := by
  unfold callCrypto
  cases hdata : ofUnits data with
  | none =>
      constructor
      · intro h
        cases h
      · rintro ⟨text, _, htext, _⟩
        rw [ofUnits_eq_some.mpr htext] at hdata
        cases hdata
  | some text =>
      rw [map_toScript_eq_text]
      constructor
      · rintro ⟨answer, hanswer, hunits⟩
        exact ⟨text, answer, ofUnits_eq_some.mp hdata, hanswer, hunits⟩
      · rintro ⟨other, answer, hother, hanswer, hunits⟩
        have heq : text = other := by
          rw [← ofUnits_eq_some, hdata] at hother
          exact Option.some.inj hother
        rw [heq]
        exact ⟨answer, hanswer, hunits⟩

theorem decodeUtf8_eq_str (laws : lib.LawfulCodecs) {bytes : Sys.Bytes} {text : String} :
    decodeUtf8 lib bytes = .ok (.str text) ↔ PercentText.utf8 text = bytes := by
  have hread := laws.from_utf8 bytes text
  rw [fromUtf8_eq_some] at hread
  rw [← hread]
  cases hbytes : lib.fromUtf8 bytes with
  | error err => simp [decodeUtf8, hbytes, mapErr, Except.map]
  | ok found => simp [decodeUtf8, hbytes, mapErr, Except.map]

/-- A decoder of bytes, then of UTF-8. -/
theorem decodeWith_eq_str (laws : lib.LawfulCodecs) {answer : Except String Sys.Bytes}
    {label : String → String} {text : String} :
    (mapErr label answer >>= decodeUtf8 lib) = .ok (.str text) ↔
      answer = .ok (PercentText.utf8 text) := by
  cases answer with
  | error err => simp [mapErr, bind, Except.bind]
  | ok bytes =>
      simp only [mapErr, bind, Except.bind, decodeUtf8_eq_str laws, Except.ok.injEq]
      exact eq_comm

theorem codec_encode_value {codec : Codec} {data : CodeUnits} :
    codec.encode lib payloadError secrets (.value data) =
      callCrypto lib payloadError secrets codec.encOp data := rfl

theorem codec_decode_value {codec : Codec} {data : CodeUnits} :
    codec.decode lib payloadError secrets (.value data) =
      callCrypto lib payloadError secrets codec.decOp data := rfl

/-- Only a value that is no secret gets past `denySecret`. -/
theorem encode_eq_text {codec : Codec} {arg : Arg} {units : CodeUnits} :
    codec.encode lib payloadError secrets arg = .ok (.text units) ↔
      ∃ data, arg = .value data ∧
        callCrypto lib payloadError secrets codec.encOp data = .ok (.text units) := by
  cases arg with
  | secret name =>
      constructor
      · intro h
        cases h
      · rintro ⟨data, hdata, _⟩
        cases hdata
  | value data =>
      rw [codec_encode_value]
      constructor
      · intro h
        exact ⟨data, rfl, h⟩
      · rintro ⟨other, hother, h⟩
        cases hother
        exact h

end Calls

/-! ### Codecs over the bytes of a text -/

section Bytewise

/-- The two operations of a codec, over a notation of bytes. -/
structure Codec.Writes (codec : Codec) (e : Base64.Bytes ≃. List Char) : Prop where
  encodes : ∀ text, ∃ answer : String, e (PercentText.utf8 text) = some answer.toList ∧
    cryptoDispatch lib codec.encOp (payloadOf text) secrets = .ok (.str answer)
  decodes : ∀ text, ∃ label answer,
    (∀ bytes, answer = .ok bytes ↔ e.symm text.toList = some bytes) ∧
      cryptoDispatch lib codec.decOp (payloadOf text) secrets =
        (mapErr label answer >>= decodeUtf8 lib)

theorem base64_writes (laws : lib.LawfulCodecs) : base64.Writes lib secrets standard.padded where
  encodes text := ⟨_, laws.base64_encode (PercentText.utf8 text), rfl⟩
  decodes text := ⟨_, _, laws.base64_decode text, rfl⟩

theorem base64url_writes (laws : lib.LawfulCodecs) :
    base64url.Writes lib secrets urlSafe.bare where
  encodes text := ⟨_, laws.base64url_encode (PercentText.utf8 text), rfl⟩
  decodes text := ⟨_, _, laws.base64url_decode text, rfl⟩

variable {lib payloadError secrets}
variable {codec : Codec} {e : Base64.Bytes ≃. List Char}

theorem Codec.Writes.call_encode (h : codec.Writes lib secrets e) {data units : CodeUnits} :
    callCrypto lib payloadError secrets codec.encOp data = .ok (.text units) ↔
      ∃ text answer : String, encode16 text.toList = data ∧
        e (PercentText.utf8 text) = some answer.toList ∧ encode16 answer.toList = units := by
  rw [callCrypto_eq_text]
  apply exists_congr
  intro text
  apply exists_congr
  intro answer
  obtain ⟨written, hwritten, hencodes⟩ := h.encodes text
  rw [hencodes, hwritten]
  constructor
  · rintro ⟨hdata, hanswer, hunits⟩
    cases hanswer
    exact ⟨hdata, rfl, hunits⟩
  · rintro ⟨hdata, hchars, hunits⟩
    have heq : written = answer := String.toList_injective (Option.some.inj hchars)
    exact ⟨hdata, by rw [heq], hunits⟩

theorem Codec.Writes.call_decode (h : codec.Writes lib secrets e) (laws : lib.LawfulCodecs)
    {data units : CodeUnits} :
    callCrypto lib payloadError secrets codec.decOp data = .ok (.text units) ↔
      ∃ answer text : String, encode16 answer.toList = data ∧
        e (PercentText.utf8 text) = some answer.toList ∧ encode16 text.toList = units := by
  rw [callCrypto_eq_text]
  apply exists_congr
  intro answer
  apply exists_congr
  intro text
  obtain ⟨label, read, hread, hdecodes⟩ := h.decodes answer
  rw [hdecodes, decodeWith_eq_str laws, hread, PEquiv.eq_some_iff]

/-- What a codec reads is exactly what it writes. -/
theorem Codec.Writes.inverse (h : codec.Writes lib secrets e) (laws : lib.LawfulCodecs)
    (arg : Arg) (units : CodeUnits) :
    codec.encode lib payloadError secrets arg = .ok (.text units) ↔
      ∃ data, arg = .value data ∧
        codec.decode lib payloadError secrets (.value units) = .ok (.text data) := by
  rw [encode_eq_text]
  apply exists_congr
  intro data
  apply and_congr_right
  intro _
  rw [codec_decode_value, h.call_encode, h.call_decode laws]
  constructor
  · rintro ⟨text, answer, hdata, hwritten, hunits⟩
    exact ⟨answer, text, hunits, hwritten, hdata⟩
  · rintro ⟨answer, text, hunits, hwritten, hdata⟩
    exact ⟨text, answer, hdata, hwritten, hunits⟩

theorem Codec.Writes.round_trip (h : codec.Writes lib secrets e) (laws : lib.LawfulCodecs)
    (text : String) :
    ∃ units, codec.encode lib payloadError secrets (.value (encode16 text.toList)) =
        .ok (.text units) ∧
      codec.decode lib payloadError secrets (.value units) =
        .ok (.text (encode16 text.toList)) := by
  obtain ⟨answer, hanswer, -⟩ := h.encodes text
  have hencode : codec.encode lib payloadError secrets (.value (encode16 text.toList)) =
      .ok (.text (encode16 answer.toList)) := by
    rw [codec_encode_value, h.call_encode]
    exact ⟨text, answer, rfl, hanswer, rfl⟩
  refine ⟨_, hencode, ?_⟩
  obtain ⟨data, hdata, hdecode⟩ := (h.inverse laws _ _).mp hencode
  cases hdata
  exact hdecode

end Bytewise

/-! ### Hexadecimal and percent-encoded texts -/

section Texts

variable {lib payloadError secrets}

theorem hex_call_encode (laws : lib.LawfulCodecs) {data units : CodeUnits} :
    callCrypto lib payloadError secrets hex.encOp data = .ok (.text units) ↔
      ∃ text : String, encode16 text.toList = data ∧
        encode16 (encodeHex (PercentText.utf8 text)) = units := by
  rw [callCrypto_eq_text]
  apply exists_congr
  intro text
  rw [← laws.hex_encode]
  have hencodes : cryptoDispatch lib hex.encOp (payloadOf text) secrets =
      .ok (.str (lib.hexEncode (PercentText.utf8 text))) := rfl
  rw [hencodes]
  constructor
  · rintro ⟨answer, hdata, hanswer, hunits⟩
    cases hanswer
    exact ⟨hdata, hunits⟩
  · rintro ⟨hdata, hunits⟩
    exact ⟨_, hdata, rfl, hunits⟩

theorem hex_call_decode (laws : lib.LawfulCodecs) {data units : CodeUnits} :
    callCrypto lib payloadError secrets hex.decOp data = .ok (.text units) ↔
      ∃ answer text : String, encode16 answer.toList = data ∧
        encodeHex (PercentText.utf8 text) = answer.toList.map lowered ∧
        encode16 text.toList = units := by
  rw [callCrypto_eq_text]
  apply exists_congr
  intro answer
  apply exists_congr
  intro text
  have hdecodes : cryptoDispatch lib hex.decOp (payloadOf answer) secrets =
      (mapErr ("invalid hex: " ++ ·) (lib.hexDecode answer) >>= decodeUtf8 lib) := rfl
  rw [hdecodes, decodeWith_eq_str laws, laws.hex_decode, decodeHex_eq_some]

/-- `hex` reads what it writes, in either case of the digits. -/
theorem hex_inverse (laws : lib.LawfulCodecs) (data units : CodeUnits) :
    hex.decode lib payloadError secrets (.value data) = .ok (.text units) ↔
      hex.encode lib payloadError secrets (.value units) =
        .ok (.text (data.map loweredUnit)) := by
  rw [codec_decode_value, codec_encode_value, hex_call_decode laws, hex_call_encode laws]
  constructor
  · rintro ⟨answer, text, rfl, hwritten, hunits⟩
    refine ⟨text, hunits, encode16_of_decode16 ?_⟩
    rw [decode16_loweredUnit, decode16_encode16, Option.map_some, hwritten]
  · rintro ⟨text, hunits, hwritten⟩
    have hlowered := decode16_encode16 (encodeHex (PercentText.utf8 text))
    rw [hwritten, decode16_loweredUnit] at hlowered
    obtain ⟨chars, hchars, hcase⟩ := Option.map_eq_some_iff.mp hlowered
    refine ⟨String.ofList chars, text, ?_, ?_, hunits⟩
    · rw [String.toList_ofList]
      exact encode16_of_decode16 hchars
    · rw [String.toList_ofList, hcase]

theorem hex_round_trip (laws : lib.LawfulCodecs) (text : String) :
    ∃ units, hex.encode lib payloadError secrets (.value (encode16 text.toList)) =
        .ok (.text units) ∧
      hex.decode lib payloadError secrets (.value units) =
        .ok (.text (encode16 text.toList)) := by
  refine ⟨_, (hex_call_encode laws).mpr ⟨text, rfl, rfl⟩, ?_⟩
  rw [codec_decode_value, hex_call_decode laws]
  refine ⟨String.ofList (encodeHex (PercentText.utf8 text)), text, ?_, ?_, rfl⟩
  · rw [String.toList_ofList]
  · rw [String.toList_ofList, map_lowered_encodeHex]

theorem url_round_trip (laws : lib.LawfulCodecs) (text : String) :
    ∃ units, url.encode lib payloadError secrets (.value (encode16 text.toList)) =
        .ok (.text units) ∧
      url.decode lib payloadError secrets (.value units) =
        .ok (.text (encode16 text.toList)) := by
  have hencodes : cryptoDispatch lib url.encOp (payloadOf text) secrets =
      .ok (.str (lib.percentEncode text)) := rfl
  have hdecodes (data : String) : cryptoDispatch lib url.decOp (payloadOf data) secrets =
      mapErr ("invalid percent-encoding: " ++ ·) ((lib.percentDecode data).map Json.str) := rfl
  have hread : lib.percentDecode (lib.percentEncode text) = .ok text := by
    rw [laws.percent_decode, laws.percent_encode, decode_encode_all, fromUtf8_utf8]
  refine ⟨_, callCrypto_eq_text.mpr ⟨text, _, rfl, hencodes, rfl⟩, ?_⟩
  rw [codec_decode_value, callCrypto_eq_text]
  refine ⟨_, text, rfl, ?_, rfl⟩
  rw [hdecodes, hread]
  rfl

/-- What goes forth and back is a text. -/
theorem text_of_encode {codec : Codec} {data units : CodeUnits}
    (h : codec.encode lib payloadError secrets (.value data) = .ok (.text units)) :
    ∃ text : String, encode16 text.toList = data := by
  obtain ⟨text, _, hdata, _⟩ := callCrypto_eq_text.mp h
  exact ⟨text, hdata⟩

end Texts

/-- The codecs of `$std.crypto` are the inverses of each other. -/
theorem codecs_invert (laws : lib.LawfulCodecs) :
    (∀ codec ∈ [base64, base64url], ∀ arg units,
      codec.encode lib payloadError secrets arg = .ok (.text units) ↔
        ∃ data, arg = .value data ∧
          codec.decode lib payloadError secrets (.value units) = .ok (.text data)) ∧
    (∀ data units, hex.decode lib payloadError secrets (.value data) = .ok (.text units) ↔
      hex.encode lib payloadError secrets (.value units) =
        .ok (.text (data.map loweredUnit))) ∧
    ∀ codec ∈ [base64, base64url, hex, url], ∀ data,
      (∃ units, codec.encode lib payloadError secrets (.value data) = .ok (.text units) ∧
        codec.decode lib payloadError secrets (.value units) = .ok (.text data)) ↔
      ∃ text : String, encode16 text.toList = data := by
  refine ⟨?_, hex_inverse laws, ?_⟩
  · intro codec hcodec
    simp only [List.mem_cons, List.not_mem_nil, or_false] at hcodec
    rcases hcodec with rfl | rfl
    · exact (base64_writes lib secrets laws).inverse laws
    · exact (base64url_writes lib secrets laws).inverse laws
  · intro codec hcodec data
    constructor
    · rintro ⟨units, hencode, _⟩
      exact text_of_encode hencode
    · rintro ⟨text, rfl⟩
      simp only [List.mem_cons, List.not_mem_nil, or_false] at hcodec
      rcases hcodec with rfl | rfl | rfl | rfl
      · exact (base64_writes lib secrets laws).round_trip laws text
      · exact (base64url_writes lib secrets laws).round_trip laws text
      · exact hex_round_trip laws text
      · exact url_round_trip laws text

/-- A library that does what is documented. -/
def documentedLib : SysLib :=
  { sampleLib with
    hexEncode := fun bytes => String.ofList (encodeHex bytes)
    hexDecode := fun text => okOr "Odd number of digits" (decodeHex text.toList)
    base64Encode := fun bytes => ((standard.padded bytes).map String.ofList).getD ""
    base64Decode := fun text => okOr "Invalid padding" (standard.padded.symm text.toList)
    base64urlEncode := fun bytes => ((urlSafe.bare bytes).map String.ofList).getD ""
    base64urlDecode := fun text => okOr "Invalid padding" (urlSafe.bare.symm text.toList)
    percentEncode := fun text => String.ofList (encode nonAlphanumeric (PercentText.utf8 text))
    percentDecode := fun text =>
      okOr "invalid utf-8 sequence" (PercentText.fromUtf8 (decode text.toList))
    fromUtf8 := fun bytes => okOr "invalid utf-8 sequence" (PercentText.fromUtf8 bytes) }

theorem okOr_eq_ok {α : Type} {error : String} {found : Option α} {value : α} :
    okOr error found = .ok value ↔ found = some value := by
  cases found <;> simp [okOr]

theorem documentedLib_lawful : documentedLib.LawfulCodecs where
  base64_encode bytes := by simp [documentedLib, standard.padded_apply]
  base64_decode _ _ := okOr_eq_ok
  base64url_encode bytes := by simp [documentedLib, urlSafe.bare_apply]
  base64url_decode _ _ := okOr_eq_ok
  hex_encode bytes := by simp [documentedLib]
  hex_decode _ _ := okOr_eq_ok
  percent_encode text := by simp [documentedLib]
  percent_decode _ _ := okOr_eq_ok
  from_utf8 _ _ := okOr_eq_ok

/-- The base64 of `hi`. -/
theorem codecs_invert_documented :
    base64.encode documentedLib (fun _ => "") [] (.value (encode16 "hi".toList)) =
        .ok (.text (encode16 "aGk=".toList)) ∧
      base64.decode documentedLib (fun _ => "") [] (.value (encode16 "aGk=".toList)) =
        .ok (.text (encode16 "hi".toList)) := by
  have hencode : base64.encode documentedLib (fun _ => "") [] (.value (encode16 "hi".toList)) =
      .ok (.text (encode16 "aGk=".toList)) := by
    rw [codec_encode_value,
      (base64_writes documentedLib [] documentedLib_lawful).call_encode]
    exact ⟨"hi", "aGk=", rfl, by decide +kernel, rfl⟩
  obtain ⟨data, hdata, hdecode⟩ := ((codecs_invert documentedLib (fun _ => "") []
    documentedLib_lawful).1 base64 List.mem_cons_self _ _).mp hencode
  cases hdata
  exact ⟨hencode, hdecode⟩

end Runlet.Sys
