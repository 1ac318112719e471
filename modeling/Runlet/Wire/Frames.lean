import Runlet.Lib.Framing
import Runlet.Wire.Messages

/-!
The framing functions of `wire.rs` over any message type. A reader is the list
of what its polls will yield: a piece of data of any size, or an I/O error; an
empty piece is how a stream reports its end. The JSON codec is a parameter, as
`serde_json` is not part of the repository. On the targets the code builds for
a `u32` always fits a `usize`, so the second length conversion of `read_frame`
has no failing branch here.
-/

namespace Runlet.Frames

open Framing Wire

inductive ErrorKind where
  | invalidData
  | unexpectedEof
  | other
  deriving DecidableEq

/-- What an I/O error carries: a text of its own or the error of the codec. -/
inductive Payload where
  | text (message : String)
  | serde (message : String)
  deriving DecidableEq

structure IoError where
  kind : ErrorKind
  payload : Payload
  deriving DecidableEq

def tooLargeToEncode : IoError := ⟨.invalidData, .text "frame too large to encode"⟩

def exceedsSizeCap : IoError := ⟨.invalidData, .text "frame exceeds size cap"⟩

/-- What `read_exact` reports when the stream ends early. -/
def earlyEof : IoError := ⟨.unexpectedEof, .text "early eof"⟩

structure Codec (T : Type) where
  serialize : T → Except String Bytes
  deserialize : Bytes → Except String T

/-- The message has an encoding and is read back from it. -/
def Codec.RoundTrips {T : Type} (codec : Codec T) (value : T) : Prop :=
  ∃ bytes, codec.serialize value = .ok bytes ∧ codec.deserialize bytes = .ok value

/-- The two operations `write_frame` uses of a writer. -/
structure AsyncWrite (W : Type) where
  writeAll : W → Bytes → Except IoError W
  flush : W → Except IoError W

/-- A writer that keeps every byte. -/
def buffer : AsyncWrite Bytes := ⟨fun written bytes => .ok (written ++ bytes), .ok⟩

section Functions

variable {T W : Type} (codec : Codec T)

def writeFrame (out : AsyncWrite W) (writer : W) (value : T) : Except IoError W :=
  match codec.serialize value with
  | .error message => .error ⟨.invalidData, .serde message⟩
  | .ok bytes =>
      if bytes.length > 4294967295 then .error tooLargeToEncode
      else if bytes.length > maxFrameBytes then .error exceedsSizeCap
      else do
        let afterHeader ← out.writeAll writer (header bytes.length)
        let afterBody ← out.writeAll afterHeader bytes
        out.flush afterBody

/-- One poll of a reader. -/
inductive Poll where
  | data (bytes : Bytes)
  | failed (error : IoError)
  deriving DecidableEq

/-- Fills a buffer of the given size; a piece that is larger stays queued. -/
def readExact : Nat → List Poll → Except IoError Bytes × List Poll
  | 0, polls => (.ok [], polls)
  | _ + 1, [] => (.error earlyEof, [])
  | _ + 1, .failed error :: rest => (.error error, rest)
  | size + 1, .data piece :: rest =>
      if piece = [] then (.error earlyEof, rest)
      else if size + 1 < piece.length then
        (.ok (piece.take (size + 1)), .data (piece.drop (size + 1)) :: rest)
      else
        match readExact (size + 1 - piece.length) rest with
        | (.ok bytes, left) => (.ok (piece ++ bytes), left)
        | (.error error, left) => (.error error, left)

/-- One frame, or `none` at the end of the stream, and the reader after it. -/
def readFrame (polls : List Poll) : Except IoError (Option T) × List Poll :=
  match readExact 4 polls with
  | (.error error, rest) =>
      if error.kind = .unexpectedEof then (.ok none, rest) else (.error error, rest)
  | (.ok lenBuf, rest) =>
      if headerValue lenBuf > maxFrameBytes then (.error exceedsSizeCap, rest)
      else
        match readExact (headerValue lenBuf) rest with
        | (.error error, left) => (.error error, left)
        | (.ok buf, left) =>
            match codec.deserialize buf with
            | .error message => (.error ⟨.invalidData, .serde message⟩, left)
            | .ok value => (.ok (some value), left)

/-- Writes the messages one after the other; stops at the first refusal. -/
def writeFrames (out : AsyncWrite W) (writer : W) : List T → Except IoError W
  | [] => .ok writer
  | value :: rest => do
      let next ← writeFrame codec out writer value
      writeFrames out next rest

/-- The answers of that many reads in a row. -/
def readFrames (polls : List Poll) : Nat → List (Except IoError (Option T))
  | 0 => []
  | count + 1 =>
      let (answer, rest) := readFrame codec polls
      answer :: readFrames rest count

end Functions

/-- The polls deliver the stream, cut anywhere, and then its end. -/
def Chunked (stream : Bytes) (polls : List Poll) : Prop :=
  ∃ pieces : List Bytes, polls = pieces.map .data ∧ (∀ piece ∈ pieces, piece ≠ []) ∧
    pieces.flatten = stream

theorem chunked_nil (polls : List Poll) (h : Chunked [] polls) : polls = [] := by
  obtain ⟨pieces, rfl, hne, hflat⟩ := h
  cases pieces with
  | nil => rfl
  | cons piece rest =>
      have hpiece : piece = [] := by
        simp only [List.flatten_cons, List.append_eq_nil_iff] at hflat
        exact hflat.1
      exact absurd hpiece (hne piece List.mem_cons_self)

/-- `read_exact` gets the front of the stream, however it was cut. -/
theorem readExact_chunked (wanted rest : Bytes) (polls : List Poll)
    (h : Chunked (wanted ++ rest) polls) :
    ∃ left, readExact wanted.length polls = (.ok wanted, left) ∧ Chunked rest left := by
  obtain ⟨pieces, rfl, hne, hflat⟩ := h
  induction pieces generalizing wanted with
  | nil =>
      obtain ⟨rfl, rfl⟩ : wanted = [] ∧ rest = [] := by simpa using hflat
      exact ⟨[], rfl, [], rfl, by simp, rfl⟩
  | cons piece pieces ih =>
      cases wanted with
      | nil => exact ⟨(piece :: pieces).map .data, rfl, piece :: pieces, rfl, hne, hflat⟩
      | cons first wanted =>
          have hpiece : piece ≠ [] := hne piece List.mem_cons_self
          have hrest : ∀ other ∈ pieces, other ≠ [] :=
            fun other hother => hne other (List.mem_cons_of_mem piece hother)
          rw [List.flatten_cons] at hflat
          simp only [List.length_cons, List.map_cons, readExact, if_neg hpiece]
          rcases List.append_eq_append_iff.mp hflat with
            ⟨missing, hwanted, htail⟩ | ⟨extra, hcut, htail⟩
          · -- the piece is used up, the rest of the buffer comes from later ones
            have hlength : wanted.length + 1 = piece.length + missing.length := by
              have := congrArg List.length hwanted
              simpa using this
            obtain ⟨left, hread, hleft⟩ := ih missing hrest htail
            have hsize : wanted.length + 1 - piece.length = missing.length := by omega
            refine ⟨left, ?_, hleft⟩
            rw [if_neg (by omega), hsize, hread, hwanted]
          · have hlength : piece.length = wanted.length + 1 + extra.length := by
              rw [hcut, List.length_append, List.length_cons]
            cases extra with
            | nil =>
                have hsize : wanted.length + 1 - piece.length = 0 := by
                  simp only [List.length_nil] at hlength
                  omega
                simp only [List.append_nil, List.nil_append] at hcut htail
                refine ⟨pieces.map .data, ?_, pieces, rfl, hrest, htail.symm⟩
                rw [if_neg (by simp only [List.length_nil] at hlength; omega), hsize, hcut]
                simp [readExact]
            | cons next extra =>
                have hlong : wanted.length + 1 < piece.length := by
                  simp only [List.length_cons] at hlength
                  omega
                refine ⟨.data (next :: extra) :: pieces.map .data, ?_,
                  (next :: extra) :: pieces, rfl, ?_, by simpa using htail.symm⟩
                · rw [if_pos hlong, hcut]
                  simp
                · intro other hother
                  rcases List.mem_cons.mp hother with rfl | hmem
                  · simp
                  · exact hrest other hmem

/-- A stream that ends before the buffer is full is an early end, and all of
it has been consumed. -/
theorem readExact_short (size : Nat) (stream : Bytes) (polls : List Poll)
    (h : Chunked stream polls) (hshort : stream.length < size) :
    readExact size polls = (.error earlyEof, []) := by
  obtain ⟨pieces, rfl, hne, rfl⟩ := h
  induction pieces generalizing size with
  | nil =>
      cases size with
      | zero => cases hshort
      | succ size => rfl
  | cons piece pieces ih =>
      cases size with
      | zero => cases hshort
      | succ size =>
          have hpiece : piece ≠ [] := hne piece List.mem_cons_self
          simp only [List.flatten_cons, List.length_append] at hshort
          have htail := ih (size + 1 - piece.length)
            (fun other hother => hne other (List.mem_cons_of_mem piece hother)) (by omega)
          simp only [List.map_cons, readExact, if_neg hpiece]
          rw [if_neg (by omega), htail]

section Results

variable {T : Type} (codec : Codec T)

theorem readFrame_nil : readFrame codec [] = (.ok none, []) := rfl

/-- Past a header within the cap, the answer depends on the payload alone. -/
theorem readFrame_header (lenBuf rest : Bytes) (polls : List Poll)
    (hlen : lenBuf.length = 4) (h : Chunked (lenBuf ++ rest) polls) :
    ∃ left, Chunked rest left ∧ readFrame codec polls =
      if headerValue lenBuf > maxFrameBytes then (.error exceedsSizeCap, left)
      else
        match readExact (headerValue lenBuf) left with
        | (.error error, left) => (.error error, left)
        | (.ok buf, left) =>
            match codec.deserialize buf with
            | .error message => (.error ⟨.invalidData, .serde message⟩, left)
            | .ok value => (.ok (some value), left) := by
  obtain ⟨left, hread, hleft⟩ := readExact_chunked lenBuf rest polls h
  rw [hlen] at hread
  refine ⟨left, hleft, ?_⟩
  simp only [readFrame, hread]

theorem readFrame_frame (value : T) (bytes rest : Bytes) (polls : List Poll)
    (hfits : bytes.length ≤ maxFrameBytes) (hvalue : codec.deserialize bytes = .ok value)
    (h : Chunked (frame bytes ++ rest) polls) :
    ∃ left, readFrame codec polls = (.ok (some value), left) ∧ Chunked rest left := by
  have hheader : headerValue (header bytes.length) = bytes.length := by
    apply headerValue_header
    unfold maxFrameBytes at hfits
    omega
  rw [frame, List.append_assoc] at h
  obtain ⟨afterHeader, hchunked, hread⟩ :=
    readFrame_header codec (header bytes.length) (bytes ++ rest) polls rfl h
  obtain ⟨left, hbody, hleft⟩ := readExact_chunked bytes rest afterHeader hchunked
  refine ⟨left, ?_, hleft⟩
  rw [hread, hheader, if_neg (by omega), hbody]
  simp only [hvalue]

/-- What `write_frame` does to a buffer, for a message that has an encoding. -/
theorem writeFrame_buffer (written : Bytes) (value : T) (bytes : Bytes)
    (hbytes : codec.serialize value = .ok bytes) :
    writeFrame codec buffer written value =
      if bytes.length > 4294967295 then .error tooLargeToEncode
      else if bytes.length > maxFrameBytes then .error exceedsSizeCap
      else .ok (written ++ frame bytes) := by
  simp only [writeFrame, hbytes]
  split
  · rfl
  · split
    · rfl
    · simp [buffer, frame, bind, Except.bind]

theorem writeFrame_refuses_iff (written : Bytes) (value : T) (bytes : Bytes)
    (hbytes : codec.serialize value = .ok bytes) :
    (∃ error, writeFrame codec buffer written value = .error error) ↔
      maxFrameBytes < bytes.length := by
  rw [writeFrame_buffer codec written value bytes hbytes]
  by_cases hcap : maxFrameBytes < bytes.length
  · simp only [hcap, iff_true]
    split
    · exact ⟨_, rfl⟩
    · exact ⟨_, rfl⟩
  · have hencode : ¬ bytes.length > 4294967295 := by
      unfold maxFrameBytes at hcap
      omega
    simp [hencode, hcap]

theorem readFrame_refuses_iff (lenBuf rest : Bytes) (polls : List Poll)
    (hlen : lenBuf.length = 4) (h : Chunked (lenBuf ++ rest) polls) :
    (readFrame codec polls).1 = .error exceedsSizeCap ↔
      maxFrameBytes < headerValue lenBuf := by
  obtain ⟨left, hleft, hread⟩ := readFrame_header codec lenBuf rest polls hlen h
  rw [hread]
  by_cases hcap : maxFrameBytes < headerValue lenBuf
  · simp [hcap]
  · simp only [gt_iff_lt, hcap, if_false, iff_false]
    by_cases hshort : rest.length < headerValue lenBuf
    · rw [readExact_short _ rest left hleft hshort]
      simp [earlyEof, exceedsSizeCap]
    · have hsplit : Chunked
          (rest.take (headerValue lenBuf) ++ rest.drop (headerValue lenBuf)) left := by
        rwa [List.take_append_drop]
      obtain ⟨after, hbody, -⟩ := readExact_chunked _ _ left hsplit
      rw [List.length_take_of_le (by omega)] at hbody
      rw [hbody]
      cases hbuf : codec.deserialize (rest.take (headerValue lenBuf)) with
      | error message => simp [hbuf, exceedsSizeCap]
      | ok value => simp [hbuf]

/-- Every accepted message adds its frame to the buffer. -/
theorem writeFrames_buffer (written : Bytes) (messages : List T) (stream : Bytes)
    (hwrite : writeFrames codec buffer written messages = .ok stream) :
    ∃ bodies : List Bytes, stream = written ++ (bodies.map frame).flatten ∧
      List.Forall₂ (fun value bytes => codec.serialize value = .ok bytes ∧
        bytes.length ≤ maxFrameBytes) messages bodies := by
  induction messages generalizing written with
  | nil =>
      cases hwrite
      exact ⟨[], by simp, .nil⟩
  | cons value rest ih =>
      cases hbytes : codec.serialize value with
      | error message => simp [writeFrames, writeFrame, hbytes, bind, Except.bind] at hwrite
      | ok bytes =>
          have hone := writeFrame_buffer codec written value bytes hbytes
          have hrefuses := writeFrame_refuses_iff codec written value bytes hbytes
          cases hnext : writeFrame codec buffer written value with
          | error error => simp [writeFrames, hnext, bind, Except.bind] at hwrite
          | ok next =>
              have hfits : bytes.length ≤ maxFrameBytes := by
                by_contra hlong
                obtain ⟨error, herror⟩ := hrefuses.mpr (by omega)
                rw [hnext] at herror
                cases herror
              have hcap : ¬ bytes.length > 4294967295 := by
                unfold maxFrameBytes at hfits
                omega
              rw [hnext, if_neg hcap, if_neg (by omega)] at hone
              cases hone
              simp only [writeFrames, hnext, bind, Except.bind] at hwrite
              obtain ⟨bodies, hstream, hbodies⟩ := ih _ hwrite
              refine ⟨bytes :: bodies, ?_, .cons ⟨hbytes, hfits⟩ hbodies⟩
              rw [hstream]
              simp

theorem readFrames_nil (count : Nat) :
    readFrames codec [] count = List.replicate count (.ok none) := by
  induction count with
  | zero => rfl
  | succ count ih => simp [readFrames, readFrame_nil, ih, List.replicate_succ]

/-- Whatever follows the frames of the messages, the reader gets the messages
first and then reads on from there. -/
theorem readFrames_front (messages : List T) (bodies : List Bytes) (tail : Bytes)
    (polls : List Poll) (hround : ∀ value ∈ messages, codec.RoundTrips value)
    (hbodies : List.Forall₂ (fun value bytes => codec.serialize value = .ok bytes ∧
      bytes.length ≤ maxFrameBytes) messages bodies)
    (h : Chunked ((bodies.map frame).flatten ++ tail) polls) :
    ∃ left, Chunked tail left ∧ ∀ extra,
      readFrames codec polls (messages.length + extra) =
        messages.map (fun value => .ok (some value)) ++ readFrames codec left extra := by
  induction hbodies generalizing polls with
  | nil =>
      refine ⟨polls, by simpa using h, ?_⟩
      intro extra
      simp
  | @cons value bytes messages bodies hhead _ ih =>
      obtain ⟨hbytes, hfits⟩ := hhead
      obtain ⟨bytes', hbytes', hvalue⟩ := hround value List.mem_cons_self
      rw [hbytes] at hbytes'
      cases hbytes'
      rw [List.map_cons, List.flatten_cons, List.append_assoc] at h
      obtain ⟨next, hread, hnext⟩ := readFrame_frame codec value bytes _ polls hfits hvalue h
      obtain ⟨left, hleft, hrest⟩ := ih next
        (fun other hother => hround other (List.mem_cons_of_mem value hother)) hnext
      refine ⟨left, hleft, ?_⟩
      intro extra
      have hcount : (value :: messages).length + extra = messages.length + extra + 1 := by
        simp only [List.length_cons]
        omega
      rw [hcount]
      simp only [readFrames, hread, List.map_cons, List.cons_append]
      rw [hrest extra]

theorem readFrames_frames (messages : List T) (bodies : List Bytes) (polls : List Poll)
    (extra : Nat) (hround : ∀ value ∈ messages, codec.RoundTrips value)
    (hbodies : List.Forall₂ (fun value bytes => codec.serialize value = .ok bytes ∧
      bytes.length ≤ maxFrameBytes) messages bodies)
    (h : Chunked (bodies.map frame).flatten polls) :
    readFrames codec polls (messages.length + extra) =
      messages.map (fun value => .ok (some value)) ++ List.replicate extra (.ok none) := by
  obtain ⟨left, hleft, hread⟩ := readFrames_front codec messages bodies [] polls hround hbodies
    (by rwa [List.append_nil])
  rw [hread extra, chunked_nil left hleft, readFrames_nil]

/-- The framing law: the reader gets back what the writer accepted, for every
cut of the stream, and then the end of it as often as it asks; both sides
refuse at the same length. -/
theorem frames_round_trip :
    (∀ (messages : List T) (stream : Bytes) (polls : List Poll) (extra : Nat),
      (∀ value ∈ messages, codec.RoundTrips value) →
      writeFrames codec buffer [] messages = .ok stream → Chunked stream polls →
      readFrames codec polls (messages.length + 1 + extra) =
        messages.map (fun value => .ok (some value)) ++
          List.replicate (1 + extra) (.ok none)) ∧
    (∀ (written : Bytes) (value : T) (bytes : Bytes), codec.serialize value = .ok bytes →
      ((∃ error, writeFrame codec buffer written value = .error error) ↔
        maxFrameBytes < bytes.length)) ∧
    (∀ (lenBuf rest : Bytes) (polls : List Poll), lenBuf.length = 4 →
      Chunked (lenBuf ++ rest) polls →
      ((readFrame codec polls).1 = .error exceedsSizeCap ↔
        maxFrameBytes < headerValue lenBuf)) := by
  refine ⟨?_, writeFrame_refuses_iff codec, readFrame_refuses_iff codec⟩
  intro messages stream polls extra hround hwrite hchunked
  obtain ⟨bodies, hstream, hbodies⟩ := writeFrames_buffer codec [] messages stream hwrite
  rw [List.nil_append] at hstream
  rw [hstream] at hchunked
  rw [Nat.add_assoc]
  exact readFrames_frames codec messages bodies polls (1 + extra) hround hbodies hchunked

end Results

/-- JSON booleans, as the codec writes and reads them. -/
def boolJson : Codec Bool where
  serialize
    | true => .ok [116, 114, 117, 101]
    | false => .ok [102, 97, 108, 115, 101]
  deserialize bytes :=
    if bytes = [116, 114, 117, 101] then .ok true
    else if bytes = [102, 97, 108, 115, 101] then .ok false
    else .error "expected value"

/-- Two frames, cut inside the first header, inside the second payload and
across their border. -/
def samplePieces : List Bytes :=
  [[4, 0], [0, 0, 116, 114, 117, 101, 5], [0, 0, 0, 102, 97], [108, 115, 101]]

theorem frames_round_trip_bools :
    readFrames boolJson (samplePieces.map .data) 3 =
      [.ok (some true), .ok (some false), .ok none] ∧
    ¬ ∃ error, writeFrame boolJson buffer [] true = .error error := by
  have hround : ∀ value ∈ [true, false], boolJson.RoundTrips value := by
    intro value _
    cases value with
    | true => exact ⟨[116, 114, 117, 101], rfl, rfl⟩
    | false => exact ⟨[102, 97, 108, 115, 101], rfl, rfl⟩
  have hchunked : Chunked samplePieces.flatten (samplePieces.map .data) :=
    ⟨samplePieces, rfl, by decide, rfl⟩
  obtain ⟨hread, hwrite, -⟩ := frames_round_trip boolJson
  refine ⟨hread [true, false] samplePieces.flatten (samplePieces.map .data) 0 hround rfl hchunked,
    ?_⟩
  rw [hwrite [] true [116, 114, 117, 101] rfl]
  decide

/-! ### Streams that end inside a frame -/

section Truncation

variable {T : Type} (codec : Codec T)

/-- The messages are returned one by one, and what follows them is an error. -/
def ReportsTruncation (messages : List T) (polls : List Poll) : Prop :=
  ∃ error, readFrames codec polls (messages.length + 1) =
    messages.map (fun value => .ok (some value)) ++ [.error error]

/-- An end of stream inside the header is taken for the end of the session. -/
theorem readFrame_short_header (stream : Bytes) (polls : List Poll)
    (h : Chunked stream polls) (hshort : stream.length < 4) :
    readFrame codec polls = (.ok none, []) := by
  have hread := readExact_short 4 stream polls h hshort
  simp only [readFrame, hread, earlyEof, if_true]

/-- An end of stream inside the payload is an error. -/
theorem readFrame_cut_payload (body cut rest : Bytes) (polls : List Poll)
    (hfits : body.length ≤ maxFrameBytes) (hsplit : cut ++ rest = frame body)
    (hrest : rest ≠ []) (hheader : 4 ≤ cut.length) (h : Chunked cut polls) :
    readFrame codec polls = (.error earlyEof, []) := by
  have htake : cut.take 4 = header body.length := by
    have hall := take_header body []
    rw [List.append_nil, ← hsplit, List.take_append_of_le_length hheader] at hall
    exact hall
  have hvalue : headerValue (cut.take 4) = body.length := by
    rw [htake]
    apply headerValue_header
    unfold maxFrameBytes at hfits
    omega
  have hlength : cut.length + rest.length = 4 + body.length := by
    have := congrArg List.length hsplit
    simpa using this
  have hpos : 0 < rest.length := List.length_pos_iff.mpr hrest
  have hshort : (cut.drop 4).length < body.length := by
    rw [List.length_drop]
    omega
  rw [← List.take_append_drop 4 cut] at h
  obtain ⟨left, hleft, hread⟩ := readFrame_header codec (cut.take 4) (cut.drop 4) polls
    (List.length_take_of_le hheader) h
  rw [hread, hvalue, if_neg (by omega), readExact_short body.length _ left hleft hshort]

/-- With a whole header the stream is not taken for ended. -/
theorem readFrame_whole_header (stream : Bytes) (polls : List Poll)
    (h : Chunked stream polls) (hheader : 4 ≤ stream.length) :
    (readFrame codec polls).1 ≠ .ok none := by
  rw [← List.take_append_drop 4 stream] at h
  obtain ⟨left, hleft, hread⟩ := readFrame_header codec (stream.take 4) (stream.drop 4) polls
    (List.length_take_of_le hheader) h
  rw [hread]
  split
  · simp
  · split
    · simp
    · split
      · simp
      · simp

/-- For all messages, every further frame that is cut off in it and every way
the bytes arrive: the cut is reported exactly when it lies behind the header;
and a reader at a frame boundary answers that the session has ended only if it
has, exactly when no part of a header is left. -/
theorem truncation_reported_iff :
    (∀ (messages : List T) (stream body cut rest : Bytes) (polls : List Poll),
      (∀ value ∈ messages, codec.RoundTrips value) →
      writeFrames codec buffer [] messages = .ok stream → body.length ≤ maxFrameBytes →
      cut ++ rest = frame body → cut ≠ [] → rest ≠ [] → Chunked (stream ++ cut) polls →
      (ReportsTruncation codec messages polls ↔ 4 ≤ cut.length)) ∧
    (∀ (stream : Bytes) (polls : List Poll), Chunked stream polls →
      (((readFrame codec polls).1 = .ok none → stream = []) ↔
        stream = [] ∨ 4 ≤ stream.length)) := by
  constructor
  · intro messages stream body cut rest polls hround hwrite hfits hsplit _ hrest hchunked
    obtain ⟨bodies, hstream, hbodies⟩ := writeFrames_buffer codec [] messages stream hwrite
    rw [hstream, List.nil_append] at hchunked
    obtain ⟨left, hleft, hread⟩ := readFrames_front codec messages bodies cut polls hround
      hbodies hchunked
    have hone : readFrames codec polls (messages.length + 1) =
        messages.map (fun value => .ok (some value)) ++ [(readFrame codec left).1] := hread 1
    unfold ReportsTruncation
    rw [hone]
    by_cases hheader : 4 ≤ cut.length
    · have hcut := readFrame_cut_payload codec body cut rest left hfits hsplit hrest hheader
        hleft
      simp [hheader, hcut]
    · have hcut := readFrame_short_header codec cut left hleft (by omega)
      simp [hheader, hcut]
  · intro stream polls hchunked
    constructor
    · intro hclean
      by_cases hheader : 4 ≤ stream.length
      · exact .inr hheader
      · have hshort := readFrame_short_header codec stream polls hchunked (by omega)
        exact .inl (hclean (by rw [hshort]))
    · rintro (hempty | hheader) hnone
      · exact hempty
      · exact absurd hnone (readFrame_whole_header codec stream polls hchunked hheader)

end Truncation

/-- Two of the four header bytes of a second message arrive: the answer is the
one of a session that was closed. -/
theorem cut_header_reads_as_end :
    [4, 0] ++ [0, 0, 116, 114, 117, 101] = frame [116, 114, 117, 101] ∧
      readFrames boolJson [.data [4, 0, 0, 0, 116, 114, 117, 101, 4, 0]] 2 =
        [.ok (some true), .ok none] ∧
      ¬ ReportsTruncation boolJson [true] [.data [4, 0, 0, 0, 116, 114, 117, 101, 4, 0]] := by
  have hread : readFrames boolJson [.data [4, 0, 0, 0, 116, 114, 117, 101, 4, 0]] 2 =
      [.ok (some true), .ok none] := rfl
  refine ⟨rfl, hread, ?_⟩
  rintro ⟨error, herror⟩
  rw [show [true].length + 1 = 2 from rfl, hread] at herror
  simp at herror

/-- The same message cut in its payload. -/
theorem truncation_reported_iff_payload :
    ReportsTruncation boolJson [true]
      [.data [4, 0, 0, 0, 116, 114], .data [117, 101, 4, 0, 0, 0, 116]] := by
  have hround : ∀ value ∈ [true], boolJson.RoundTrips value := by
    intro value hvalue
    rw [List.mem_singleton.mp hvalue]
    exact ⟨[116, 114, 117, 101], rfl, rfl⟩
  have hchunked : Chunked ([4, 0, 0, 0, 116, 114, 117, 101] ++ [4, 0, 0, 0, 116])
      [.data [4, 0, 0, 0, 116, 114], .data [117, 101, 4, 0, 0, 0, 116]] :=
    ⟨[[4, 0, 0, 0, 116, 114], [117, 101, 4, 0, 0, 0, 116]], rfl, by decide, rfl⟩
  exact ((truncation_reported_iff boolJson).1 [true] _ [116, 114, 117, 101] [4, 0, 0, 0, 116]
    [114, 117, 101] _ hround rfl (by decide) rfl (by decide) (by decide) hchunked).mpr
    (by decide)

end Runlet.Frames
