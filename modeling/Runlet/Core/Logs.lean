import Mathlib.Algebra.Ring.Nat
import Mathlib.Data.List.Induction
import Mathlib.Data.String.Basic

/-!
The `log` channel of one execution (`capture_log` in `engine/channels.rs`): a
bounded accumulator of entries under a cap on their number, on the bytes of
each of them and on all bytes together. Sizes are UTF-8 bytes. The texts of a
call and of the entries kept so far are alive together, so their sizes add up
within a `usize` and saturating additions are plain ones. The level is carried
along and never looked at.
-/

namespace Runlet.Logs

variable {Level : Type}

structure LogLimits where
  maxEntries : Nat
  maxEntryBytes : Nat
  maxTotalBytes : Nat

structure PendingLog (Level : Type) where
  level : Level
  template : String
  propertiesJson : String
  message : String
  offsetUs : Option Nat

structure RawLog (Level : Type) where
  level : Level
  template : String
  propertiesJson : String
  message : String
  seq : Nat
  offsetUs : Option Nat

structure LogAccumulator (Level : Type) where
  entries : List (RawLog Level)
  totalBytes : Nat

def LogAccumulator.empty : LogAccumulator Level := ⟨[], 0⟩

/-- Stands for the properties of an entry that was over the limit. -/
def logTruncatedMarker : String := "\x7b\"truncated\":true\x7d"

/-- `text.get(..end)`: the characters of the first `end` bytes, if that is a
character boundary. -/
def prefixOfBytes : List Char → Nat → Option (List Char)
  | _, 0 => some []
  | [], _ + 1 => none
  | c :: rest, n + 1 =>
      if c.utf8Size ≤ n + 1 then (prefixOfBytes rest (n + 1 - c.utf8Size)).map (c :: ·)
      else none

def isCharBoundary (text : List Char) (n : Nat) : Bool := (prefixOfBytes text n).isSome

/-- The loop that walks back to a boundary. -/
def lastBoundary (text : List Char) : Nat → Nat
  | 0 => 0
  | n + 1 => if isCharBoundary text (n + 1) then n + 1 else lastBoundary text n

def truncateOnCharBoundary (text : String) (maxBytes : Nat) : String :=
  if text.utf8ByteSize ≤ maxBytes then text
  else String.ofList ((prefixOfBytes text.toList (lastBoundary text.toList maxBytes)).getD [])

def PendingLog.rawSize (pending : PendingLog Level) : Nat :=
  pending.template.utf8ByteSize + pending.propertiesJson.utf8ByteSize +
    pending.message.utf8ByteSize

/-- Properties and message as they are kept. -/
def PendingLog.trimmed (limits : LogLimits) (pending : PendingLog Level) : String × String :=
  if pending.rawSize > limits.maxEntryBytes then
    let budget := limits.maxEntryBytes - pending.template.utf8ByteSize -
      logTruncatedMarker.utf8ByteSize
    (logTruncatedMarker, truncateOnCharBoundary pending.message budget)
  else (pending.propertiesJson, pending.message)

def captureLog (limits : LogLimits) (acc : LogAccumulator Level)
    (pending : PendingLog Level) : LogAccumulator Level :=
  if acc.entries.length ≥ limits.maxEntries then acc
  else
    let (props, msg) := pending.trimmed limits
    let entrySize := pending.template.utf8ByteSize + props.utf8ByteSize + msg.utf8ByteSize
    if acc.totalBytes + entrySize > limits.maxTotalBytes then acc
    else
      { entries := acc.entries ++ [⟨pending.level, pending.template, props, msg,
          acc.entries.length, pending.offsetUs⟩]
        totalBytes := acc.totalBytes + entrySize }

/-- The calls of one execution, in order. -/
def captureAll (limits : LogLimits) (calls : List (PendingLog Level)) : LogAccumulator Level :=
  calls.foldl (captureLog limits) .empty

def RawLog.size (entry : RawLog Level) : Nat :=
  entry.template.utf8ByteSize + entry.propertiesJson.utf8ByteSize + entry.message.utf8ByteSize

/-! ### Truncation -/

theorem prefixOfBytes_spec (text front : List Char) (n : Nat)
    (h : prefixOfBytes text n = some front) :
    front <+: text ∧ (String.ofList front).utf8ByteSize = n := by
  induction text generalizing n front with
  | nil =>
      cases n with
      | zero =>
          cases h
          exact ⟨List.prefix_refl _, rfl⟩
      | succ n => cases h
  | cons c rest ih =>
      cases n with
      | zero =>
          cases h
          exact ⟨List.prefix_iff_eq_append.mpr rfl, rfl⟩
      | succ n =>
          simp only [prefixOfBytes] at h
          split at h
          · rename_i hfits
            obtain ⟨tail, htail, rfl⟩ := Option.map_eq_some_iff.mp h
            obtain ⟨hstart, hsize⟩ := ih tail _ htail
            refine ⟨List.cons_prefix_cons.mpr ⟨rfl, hstart⟩, ?_⟩
            rw [String.utf8ByteSize_ofList] at hsize ⊢
            rw [String.utf8Len_cons, hsize]
            omega
          · cases h

theorem lastBoundary_spec (text : List Char) (n : Nat) :
    lastBoundary text n ≤ n ∧ isCharBoundary text (lastBoundary text n) = true := by
  induction n with
  | zero =>
      refine ⟨Nat.le_refl _, ?_⟩
      cases text <;> rfl
  | succ n ih =>
      simp only [lastBoundary]
      split
      · rename_i hboundary
        exact ⟨Nat.le_refl _, hboundary⟩
      · exact ⟨Nat.le_succ_of_le ih.1, ih.2⟩

/-- The text that is kept is a prefix in whole characters and within the
budget. -/
theorem truncateOnCharBoundary_spec (text : String) (maxBytes : Nat) :
    (truncateOnCharBoundary text maxBytes).toList <+: text.toList ∧
      (truncateOnCharBoundary text maxBytes).utf8ByteSize ≤ maxBytes := by
  unfold truncateOnCharBoundary
  split
  · rename_i hfits
    exact ⟨List.prefix_refl _, hfits⟩
  · obtain ⟨hle, hboundary⟩ := lastBoundary_spec text.toList maxBytes
    obtain ⟨front, hfront⟩ := Option.isSome_iff_exists.mp hboundary
    obtain ⟨hstart, hsize⟩ := prefixOfBytes_spec _ _ _ hfront
    rw [hfront, Option.getD_some]
    refine ⟨?_, ?_⟩
    · rw [String.toList_ofList]
      exact hstart
    · omega

/-! ### One call -/

/-- The bytes a call takes when it is kept. -/
def PendingLog.keptSize (limits : LogLimits) (pending : PendingLog Level) : Nat :=
  pending.template.utf8ByteSize + (pending.trimmed limits).1.utf8ByteSize +
    (pending.trimmed limits).2.utf8ByteSize

/-- Neither the count nor the total is used up. -/
def LogAccumulator.HasRoom (limits : LogLimits) (acc : LogAccumulator Level) (size : Nat) :
    Prop :=
  acc.entries.length < limits.maxEntries ∧ acc.totalBytes + size ≤ limits.maxTotalBytes

/-- The entry made of a call. -/
def PendingLog.kept (limits : LogLimits) (pending : PendingLog Level) (seq : Nat) :
    RawLog Level :=
  ⟨pending.level, pending.template, (pending.trimmed limits).1, (pending.trimmed limits).2, seq,
    pending.offsetUs⟩

/-- A call that finds room is kept at the end, and any other changes nothing. -/
theorem captureLog_cases (limits : LogLimits) (acc : LogAccumulator Level)
    (pending : PendingLog Level) :
    (acc.HasRoom limits (pending.keptSize limits) ∧ captureLog limits acc pending =
      ⟨acc.entries ++ [pending.kept limits acc.entries.length],
        acc.totalBytes + pending.keptSize limits⟩) ∨
    (¬ acc.HasRoom limits (pending.keptSize limits) ∧ captureLog limits acc pending = acc) := by
  unfold captureLog LogAccumulator.HasRoom PendingLog.keptSize PendingLog.kept
  split
  · right
    refine ⟨?_, rfl⟩
    omega
  · simp only
    split
    · right
      refine ⟨?_, rfl⟩
      omega
    · left
      refine ⟨⟨?_, ?_⟩, rfl⟩
      · omega
      · omega

/-- What is kept of the message. -/
theorem trimmed_message (limits : LogLimits) (pending : PendingLog Level) :
    (pending.trimmed limits).2.toList <+: pending.message.toList := by
  unfold PendingLog.trimmed
  split
  · exact (truncateOnCharBoundary_spec _ _).1
  · exact List.prefix_refl _

/-- The call is too large for an entry, and so is its template with the marker
alone. -/
def PendingLog.Untrimmable (limits : LogLimits) (pending : PendingLog Level) : Prop :=
  limits.maxEntryBytes < pending.rawSize ∧
    limits.maxEntryBytes <
      pending.template.utf8ByteSize + logTruncatedMarker.utf8ByteSize

/-- Exactly these calls are over the limit on an entry when they are kept, and
they are kept without their message. -/
theorem keptSize_le_iff (limits : LogLimits) (pending : PendingLog Level) :
    pending.keptSize limits ≤ limits.maxEntryBytes ↔ ¬ pending.Untrimmable limits := by
  unfold PendingLog.keptSize PendingLog.Untrimmable PendingLog.trimmed
  split
  · have hmessage := (truncateOnCharBoundary_spec pending.message
      (limits.maxEntryBytes - pending.template.utf8ByteSize -
        logTruncatedMarker.utf8ByteSize)).2
    simp only
    omega
  · rename_i hsize
    simp only [PendingLog.rawSize] at hsize ⊢
    omega

theorem keptSize_untrimmable (limits : LogLimits) (pending : PendingLog Level)
    (h : pending.Untrimmable limits) :
    pending.keptSize limits =
      pending.template.utf8ByteSize + logTruncatedMarker.utf8ByteSize := by
  obtain ⟨hsize, htemplate⟩ := h
  have hmessage := (truncateOnCharBoundary_spec pending.message
    (limits.maxEntryBytes - pending.template.utf8ByteSize -
      logTruncatedMarker.utf8ByteSize)).2
  unfold PendingLog.keptSize PendingLog.trimmed
  rw [if_pos hsize]
  simp only
  omega

/-! ### Whole executions -/

/-- The bounds on an accumulator and its bookkeeping. -/
structure Bounded (limits : LogLimits) (acc : LogAccumulator Level) : Prop where
  count : acc.entries.length ≤ limits.maxEntries
  total : acc.totalBytes = (acc.entries.map RawLog.size).sum
  total_le : acc.totalBytes ≤ limits.maxTotalBytes
  entry : ∀ entry ∈ acc.entries, entry.size ≤ limits.maxEntryBytes
  seq : ∀ (i : Nat) (entry : RawLog Level), acc.entries[i]? = some entry → entry.seq = i

/-- What one call may do to the accumulator it finds. -/
def Stored (acc next : LogAccumulator Level) (pending : PendingLog Level) : Prop :=
  next = acc ∨ ∃ entry, next.entries = acc.entries ++ [entry] ∧
    entry.message.toList <+: pending.message.toList

/-- The contract over all the calls of an execution: the bounds hold after
every call, and every call stores its own message or leaves everything as it
was. -/
structure LogContract (limits : LogLimits) (calls : List (PendingLog Level)) : Prop where
  bounded : ∀ before after, calls = before ++ after →
    Bounded limits (captureAll limits before)
  stored : ∀ before pending after, calls = before ++ pending :: after →
    Stored (captureAll limits before) (captureAll limits (before ++ [pending])) pending

theorem captureAll_append (limits : LogLimits) (before : List (PendingLog Level))
    (pending : PendingLog Level) :
    captureAll limits (before ++ [pending]) =
      captureLog limits (captureAll limits before) pending := by
  simp [captureAll]

theorem captureLog_stored (limits : LogLimits) (acc : LogAccumulator Level)
    (pending : PendingLog Level) : Stored acc (captureLog limits acc pending) pending := by
  rcases captureLog_cases limits acc pending with ⟨_, heq⟩ | ⟨_, heq⟩
  · right
    rw [heq]
    exact ⟨_, rfl, trimmed_message limits pending⟩
  · exact .inl heq

/-- A call keeps the bounds unless it is kept although its template leaves no
place for the marker. -/
theorem captureLog_bounded (limits : LogLimits) (acc : LogAccumulator Level)
    (pending : PendingLog Level) (hacc : Bounded limits acc)
    (hfits : acc.HasRoom limits (pending.keptSize limits) →
      ¬ pending.Untrimmable limits) :
    Bounded limits (captureLog limits acc pending) := by
  rcases captureLog_cases limits acc pending with ⟨hroom, heq⟩ | ⟨_, heq⟩
  · have hsize : (pending.kept limits acc.entries.length).size = pending.keptSize limits := rfl
    rw [heq]
    refine ⟨?_, ?_, hroom.2, ?_, ?_⟩
    · rw [List.length_append, List.length_singleton]
      exact hroom.1
    · simp [hacc.total, hsize]
    · intro entry hentry
      rcases List.mem_append.mp hentry with hold | hnew
      · exact hacc.entry entry hold
      · rw [List.mem_singleton.mp hnew, hsize]
        exact (keptSize_le_iff limits pending).mpr (hfits hroom)
    · intro i entry hentry
      by_cases hi : i < acc.entries.length
      · rw [List.getElem?_append_left hi] at hentry
        exact hacc.seq i entry hentry
      · rw [List.getElem?_append_right (by omega)] at hentry
        obtain ⟨hzero, hnew⟩ := List.getElem?_eq_some_iff.mp hentry
        have hlast : i = acc.entries.length := by
          simp only [List.length_singleton] at hzero
          omega
        subst hlast
        simp only [Nat.sub_self, List.getElem_cons_zero] at hnew
        rw [← hnew]
        rfl
  · rw [heq]
    exact hacc

/-- In every execution and for all limits: the contract holds exactly when no
call that is too large, and whose template with the marker is too large as
well, finds room for these two. -/
theorem logContract_iff (limits : LogLimits) (calls : List (PendingLog Level)) :
    LogContract limits calls ↔
      ∀ before pending after, calls = before ++ pending :: after →
        pending.Untrimmable limits →
        ¬ (captureAll limits before).HasRoom limits
          (pending.template.utf8ByteSize + logTruncatedMarker.utf8ByteSize) := by
  constructor
  · intro hcontract before pending after hcalls huntrimmable hroom
    rw [← keptSize_untrimmable limits pending huntrimmable] at hroom
    have hbounded := hcontract.bounded (before ++ [pending]) after (by simp [hcalls])
    rw [captureAll_append] at hbounded
    rcases captureLog_cases limits (captureAll limits before) pending with
      ⟨_, heq⟩ | ⟨hnone, _⟩
    · rw [heq] at hbounded
      have hentry := hbounded.entry (pending.kept limits (captureAll limits before).entries.length)
        (List.mem_append_right _ (List.mem_singleton_self _))
      exact (keptSize_le_iff limits pending).mp hentry huntrimmable
    · exact hnone hroom
  · intro hfits
    refine ⟨?_, ?_⟩
    · intro before
      induction before using List.reverseRecOn with
      | nil =>
          intro after _
          exact ⟨Nat.zero_le _, rfl, Nat.zero_le _, by simp [captureAll, LogAccumulator.empty],
            by simp [captureAll, LogAccumulator.empty]⟩
      | append_singleton before pending ih =>
          intro after hcalls
          have hsplit : calls = before ++ pending :: after := by simp [hcalls]
          rw [captureAll_append]
          apply captureLog_bounded limits _ pending (ih _ hsplit)
          intro hroom huntrimmable
          rw [keptSize_untrimmable limits pending huntrimmable] at hroom
          exact hfits before pending after hsplit huntrimmable hroom
    · intro before pending after _
      rw [captureAll_append]
      exact captureLog_stored limits _ pending

/-- A template of 30 bytes under a limit of 20 bytes an entry is kept with the
marker, 48 bytes in all. -/
def longTemplate : PendingLog Unit :=
  ⟨(), "aaaaaaaaaaaaaaaaaaaaaaaaaaaaaa", "\x7b\x7d", "hi", none⟩

theorem long_template_is_kept :
    ((captureAll ⟨10, 20, 1000⟩ [longTemplate]).entries.map RawLog.size) = [48] ∧
      ¬ LogContract ⟨10, 20, 1000⟩ [longTemplate] := by
  refine ⟨by decide +kernel, ?_⟩
  intro hcontract
  have hbounded := hcontract.bounded [longTemplate] [] rfl
  have hall : ¬ ∀ entry ∈ (captureAll ⟨10, 20, 1000⟩ [longTemplate]).entries,
      entry.size ≤ 20 := by
    decide +kernel
  exact hall hbounded.entry

end Runlet.Logs
