import Mathlib.Data.List.Basic
import Mathlib.Data.Nat.Basic
import Mathlib.Algebra.Ring.Nat

/-!
Length-prefixed frames: a little-endian `u32` length, then that many bytes.
A reader collects the bytes of one frame piece by piece and never asks for
more than the frame still needs. The same prefix turns a pair of byte strings
into one from which both can be read back.
-/

namespace Runlet.Framing

abbrev Bytes := List UInt8

/-- The four length bytes, least significant first. -/
def header (size : Nat) : Bytes :=
  [UInt8.ofNat size, UInt8.ofNat (size / 256), UInt8.ofNat (size / 65536),
    UInt8.ofNat (size / 16777216)]

def headerValue : Bytes → Nat
  | [a, b, c, d] =>
      a.toNat + 256 * b.toNat + 65536 * c.toNat + 16777216 * d.toNat
  | _ => 0

def frame (body : Bytes) : Bytes := header body.length ++ body

/-- What the bytes collected so far amount to. -/
inductive Progress where
  | missing (count : Nat)
  | tooLarge
  | complete (body : Bytes)
  deriving DecidableEq

def progress (cap : Nat) (got : Bytes) : Progress :=
  if got.length < 4 then .missing (4 - got.length)
  else
    let size := headerValue (got.take 4)
    if size > cap then .tooLarge
    else if got.length < 4 + size then .missing (4 + size - got.length)
    else .complete ((got.drop 4).take size)

/-- The frame at the front of a stream, and the stream after it. -/
def takeFrame (cap : Nat) (stream : Bytes) : Option (Bytes × Bytes) :=
  match progress cap stream with
  | .complete body => some (body, stream.drop (4 + body.length))
  | _ => none

@[simp] theorem header_length (size : Nat) : (header size).length = 4 := rfl

@[simp] theorem frame_length (body : Bytes) : (frame body).length = 4 + body.length := by
  simp [frame]

theorem headerValue_header (size : Nat) (hsize : size < 4294967296) :
    headerValue (header size) = size := by
  simp only [header, headerValue, UInt8.toNat_ofNat']
  omega

theorem take_header (body rest : Bytes) : (frame body ++ rest).take 4 = header body.length := by
  simp [frame, header]

/-- A whole frame is recognised whatever follows it. -/
theorem progress_frame (cap : Nat) (body rest : Bytes) (hfits : body.length ≤ cap)
    (hcap : cap < 4294967296) : progress cap (frame body ++ rest) = .complete body := by
  have hvalue := headerValue_header body.length (by omega)
  unfold progress
  rw [if_neg (by simp; omega)]
  simp only [take_header, hvalue]
  rw [if_neg (by omega), if_neg (by simp)]
  simp [frame, header]

/-- Part of a frame asks for no more than the rest of it. -/
theorem progress_prefix (cap : Nat) (body got rest : Bytes) (hfits : body.length ≤ cap)
    (hcap : cap < 4294967296) (hsplit : got ++ rest = frame body) (hrest : rest ≠ []) :
    ∃ count, progress cap got = .missing count ∧ 0 < count ∧ count ≤ rest.length := by
  have hlength : got.length + rest.length = 4 + body.length := by
    have := congrArg List.length hsplit
    simpa using this
  have hpos : 0 < rest.length := List.length_pos_iff.mpr hrest
  unfold progress
  by_cases hheader : got.length < 4
  · rw [if_pos hheader]
    exact ⟨4 - got.length, rfl, by omega, by omega⟩
  · have htake : got.take 4 = header body.length := by
      have h := take_header body []
      rw [List.append_nil, ← hsplit, List.take_append_of_le_length (by omega)] at h
      exact h
    have hvalue := headerValue_header body.length (by omega)
    rw [if_neg hheader]
    simp only [htake, hvalue]
    rw [if_neg (by omega), if_pos (by omega)]
    exact ⟨4 + body.length - got.length, rfl, by omega, by omega⟩

theorem takeFrame_frame (cap : Nat) (body rest : Bytes) (hfits : body.length ≤ cap)
    (hcap : cap < 4294967296) : takeFrame cap (frame body ++ rest) = some (body, rest) := by
  simp only [takeFrame, progress_frame cap body rest hfits hcap]
  rw [List.drop_append_of_le_length (by simp)]
  simp [← frame_length]

theorem takeFrame_prefix (cap : Nat) (body got rest : Bytes) (hfits : body.length ≤ cap)
    (hcap : cap < 4294967296) (hsplit : got ++ rest = frame body) (hrest : rest ≠ []) :
    takeFrame cap got = none := by
  obtain ⟨count, hprogress, -⟩ := progress_prefix cap body got rest hfits hcap hsplit hrest
  simp [takeFrame, hprogress]

@[simp] theorem takeFrame_nil (cap : Nat) : takeFrame cap [] = none := rfl

/-! ### Pairs of byte strings -/

/-- The low bytes of a number, least significant first. -/
def littleEndian : Nat → Nat → Bytes
  | 0, _ => []
  | width + 1, value => UInt8.ofNat value :: littleEndian width (value / 256)

/-- Two byte strings in one: the length of the first says where it ends. -/
def lengthPrefixed (width : Nat) (first second : Bytes) : Bytes :=
  littleEndian width first.length ++ first ++ second

@[simp] theorem littleEndian_length (width value : Nat) :
    (littleEndian width value).length = width := by
  induction width generalizing value with
  | zero => rfl
  | succ width ih => simp [littleEndian, ih]

theorem littleEndian_injective (width a b : Nat) (ha : a < 256 ^ width)
    (hb : b < 256 ^ width) (h : littleEndian width a = littleEndian width b) : a = b := by
  induction width generalizing a b with
  | zero =>
      rw [Nat.pow_zero] at ha hb
      omega
  | succ width ih =>
      rw [Nat.pow_succ] at ha hb
      obtain ⟨hlow, hhigh⟩ := List.cons.inj h
      have hmod : a % 256 = b % 256 := by
        have := congrArg UInt8.toNat hlow
        simpa using this
      have hdiv : a / 256 = b / 256 := by
        apply ih
        · exact Nat.div_lt_of_lt_mul (Nat.mul_comm _ _ ▸ ha)
        · exact Nat.div_lt_of_lt_mul (Nat.mul_comm _ _ ▸ hb)
        · exact hhigh
      omega

/-- Both strings can be read back, as long as the length fits its field. -/
theorem lengthPrefixed_injective (width : Nat) (first second first' second' : Bytes)
    (hfirst : first.length < 256 ^ width) (hfirst' : first'.length < 256 ^ width)
    (h : lengthPrefixed width first second = lengthPrefixed width first' second') :
    first = first' ∧ second = second' := by
  simp only [lengthPrefixed, List.append_assoc] at h
  obtain ⟨hlength, hrest⟩ := List.append_inj h (by simp)
  have hsame := littleEndian_injective width _ _ hfirst hfirst' hlength
  exact List.append_inj hrest hsame

end Runlet.Framing
