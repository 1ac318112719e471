import Mathlib.Data.List.Perm.Basic
import Mathlib.Data.List.Count
import Runlet.Lib.Transition

/-!
A bounded first-in first-out channel with senders that wait for capacity, one
receiver that writes what it takes out, and a counter of the events that were
given up. Free places go to the longest waiting senders, each of which moves its
event into the buffer when it runs next. Everything that was ever handed to the
channel is kept track of, so that an event that is in none of the accounted
places shows as lost.
-/

namespace Runlet.Channels

open Transition

variable {Event : Type}

structure Channel (Event : Type) where
  capacity : Nat
  isOpen : Bool
  buffer : List Event
  waiting : List Event
  counter : Nat
  handed : List Event
  written : List Event
  dropped : List Event
  lost : List Event

def Channel.new (capacity : Nat) : Channel Event := ⟨capacity, true, [], [], 0, [], [], [], []⟩

inductive Action (Event : Type) where
  /-- A sender that is ready to wait. -/
  | send (event : Event)
  /-- A sender that is not. -/
  | trySend (event : Event)
  /-- The sender at a place of the queue has got capacity. -/
  | enter (place : Nat)
  /-- It has not, and its time is over. -/
  | timeout (place : Nat)
  /-- It finds the channel closed. -/
  | refuse (place : Nat)
  /-- It is cancelled. -/
  | cancel (place : Nat)
  /-- The receiver takes an event out and writes it. -/
  | receive
  /-- The receiver goes away, with what is in the buffer. -/
  | close

/-- The places that are free for waiting senders. -/
def Channel.free (channel : Channel Event) : Nat := channel.capacity - channel.buffer.length

/-- A place is left after all waiting senders have got theirs. -/
def Channel.hasRoom (channel : Channel Event) : Bool := channel.waiting.length < channel.free

def Channel.hand (channel : Channel Event) (event : Event) : Channel Event :=
  { channel with handed := event :: channel.handed }

def Channel.enqueue (channel : Channel Event) (event : Event) : Channel Event :=
  { channel with buffer := channel.buffer ++ [event] }

/-- Drops an event and counts it. -/
def Channel.drop (channel : Channel Event) (event : Event) : Channel Event :=
  { channel with
    dropped := event :: channel.dropped
    counter := channel.counter + 1 }

def Channel.wait (channel : Channel Event) (event : Event) : Channel Event :=
  { channel with waiting := channel.waiting ++ [event] }

def Channel.lose (channel : Channel Event) (event : Event) : Channel Event :=
  { channel with lost := event :: channel.lost }

/-- Takes the sender at a place out of the queue, on to what it does next. -/
def Channel.leave (channel : Channel Event) (place : Nat)
    (next : Channel Event → Event → Channel Event) : Option (Channel Event) :=
  match channel.waiting[place]? with
  | none => none
  | some event => some (next { channel with waiting := channel.waiting.eraseIdx place } event)

/-- `encodes` tells which events the receiver can write. -/
def Channel.step (encodes : Event → Bool) (channel : Channel Event) :
    Action Event → Option (Channel Event)
  | .send event =>
      if !channel.isOpen then some ((channel.hand event).drop event)
      else if channel.hasRoom then some ((channel.hand event).enqueue event)
      else some ((channel.hand event).wait event)
  | .trySend event =>
      if channel.isOpen && channel.hasRoom then some ((channel.hand event).enqueue event)
      else some ((channel.hand event).drop event)
  | .enter place =>
      if channel.isOpen && place < channel.free then channel.leave place Channel.enqueue else none
  | .timeout place =>
      if channel.isOpen && channel.free ≤ place then channel.leave place Channel.drop else none
  | .refuse place => if channel.isOpen then none else channel.leave place Channel.drop
  | .cancel place => channel.leave place Channel.lose
  | .receive =>
      match channel.buffer with
      | [] => none
      | event :: rest =>
          if encodes event then
            some { channel with buffer := rest, written := event :: channel.written }
          else some { channel with buffer := rest, lost := event :: channel.lost }
  | .close =>
      if channel.isOpen then
        some { channel with isOpen := false, buffer := [], lost := channel.buffer ++ channel.lost }
      else none

/-- Every event that was handed over is written, buffered, waiting, or dropped,
and in one of these only. -/
def Channel.Conserved (channel : Channel Event) : Prop :=
  channel.handed.Perm
    (channel.written ++ channel.buffer ++ channel.waiting ++ channel.dropped)

/-- The steps at which an event leaves the books: a waiting sender is
cancelled, the receiver goes away from a buffer that is not empty, or it takes
out an event it cannot write. -/
def Channel.Lossy (encodes : Event → Bool) (channel : Channel Event) : Action Event → Prop
  | .cancel _ => True
  | .receive => ∃ event rest, channel.buffer = event :: rest ∧ encodes event = false
  | .close => channel.buffer ≠ []
  | _ => False

/-! ### The books -/

/-- Every event is accounted for once, the lost ones and those that are just
being moved included, and the counter is the number of drops. -/
structure Balanced (channel : Channel Event) (moved : List Event) : Prop where
  places : ∀ p : Event → Bool, channel.handed.countP p = channel.written.countP p +
    channel.buffer.countP p + channel.waiting.countP p + channel.dropped.countP p +
      channel.lost.countP p + moved.countP p
  counter : channel.counter = channel.dropped.length

theorem balanced_new (capacity : Nat) : Balanced (Channel.new capacity : Channel Event) [] :=
  ⟨fun _ => rfl, rfl⟩

theorem balanced_hand (channel : Channel Event) (event : Event) (h : Balanced channel []) :
    Balanced (channel.hand event) [event] := by
  refine ⟨fun p => ?_, h.counter⟩
  have hplaces := h.places p
  simp only [Channel.hand, List.countP_cons, List.countP_nil] at hplaces ⊢
  omega

theorem balanced_enqueue (channel : Channel Event) (event : Event)
    (h : Balanced channel [event]) : Balanced (channel.enqueue event) [] := by
  refine ⟨fun p => ?_, h.counter⟩
  have hplaces := h.places p
  simp only [Channel.enqueue, List.countP_append, List.countP_nil] at hplaces ⊢
  omega

theorem balanced_wait (channel : Channel Event) (event : Event)
    (h : Balanced channel [event]) : Balanced (channel.wait event) [] := by
  refine ⟨fun p => ?_, h.counter⟩
  have hplaces := h.places p
  simp only [Channel.wait, List.countP_append, List.countP_nil] at hplaces ⊢
  omega

theorem balanced_drop (channel : Channel Event) (event : Event)
    (h : Balanced channel [event]) : Balanced (channel.drop event) [] := by
  refine ⟨fun p => ?_, ?_⟩
  · have hplaces := h.places p
    simp only [Channel.drop, List.countP_cons, List.countP_nil] at hplaces ⊢
    omega
  · simp only [Channel.drop, List.length_cons, h.counter]

theorem balanced_lose (channel : Channel Event) (event : Event)
    (h : Balanced channel [event]) : Balanced (channel.lose event) [] := by
  refine ⟨fun p => ?_, h.counter⟩
  have hplaces := h.places p
  simp only [Channel.lose, List.countP_cons, List.countP_nil] at hplaces ⊢
  omega

/-- A sender that leaves the queue carries its event to its next place. -/
theorem balanced_leave (channel final : Channel Event) (place : Nat)
    (next : Channel Event → Event → Channel Event)
    (hnext : ∀ channel event, Balanced channel [event] → Balanced (next channel event) [])
    (h : Balanced channel []) (hstep : channel.leave place next = some final) :
    Balanced final [] := by
  unfold Channel.leave at hstep
  cases hevent : channel.waiting[place]? with
  | none =>
      rw [hevent] at hstep
      cases hstep
  | some event =>
      rw [hevent] at hstep
      cases hstep
      apply hnext
      refine ⟨fun p => ?_, h.counter⟩
      obtain ⟨hlt, hget⟩ := List.getElem?_eq_some_iff.mp hevent
      have hperm := (List.getElem_cons_eraseIdx_perm hlt).countP_eq p
      have hplaces := h.places p
      rw [hget] at hperm
      simp only [List.countP_cons, List.countP_nil] at hperm hplaces ⊢
      omega

theorem balanced_step (encodes : Event → Bool) (channel : Channel Event) (action : Action Event)
    (next : Channel Event) (h : Balanced channel [])
    (hstep : channel.step encodes action = some next) : Balanced next [] := by
  cases action with
  | send event =>
      have hhand := balanced_hand channel event h
      simp only [Channel.step] at hstep
      split at hstep
      · cases hstep
        exact balanced_drop _ event hhand
      · split at hstep
        · cases hstep
          exact balanced_enqueue _ event hhand
        · cases hstep
          exact balanced_wait _ event hhand
  | trySend event =>
      have hhand := balanced_hand channel event h
      simp only [Channel.step] at hstep
      split at hstep
      · cases hstep
        exact balanced_enqueue _ event hhand
      · cases hstep
        exact balanced_drop _ event hhand
  | enter place =>
      simp only [Channel.step] at hstep
      split at hstep
      · exact balanced_leave channel next place _ balanced_enqueue h hstep
      · cases hstep
  | timeout place =>
      simp only [Channel.step] at hstep
      split at hstep
      · exact balanced_leave channel next place _ balanced_drop h hstep
      · cases hstep
  | refuse place =>
      simp only [Channel.step] at hstep
      split at hstep
      · cases hstep
      · exact balanced_leave channel next place _ balanced_drop h hstep
  | cancel place => exact balanced_leave channel next place _ balanced_lose h hstep
  | receive =>
      simp only [Channel.step] at hstep
      split at hstep
      · cases hstep
      · rename_i event rest hbuffer
        have hplaces := h.places
        rw [hbuffer] at hplaces
        split at hstep
        · cases hstep
          refine ⟨fun p => ?_, h.counter⟩
          have hp := hplaces p
          simp only [List.countP_cons] at hp ⊢
          omega
        · cases hstep
          refine ⟨fun p => ?_, h.counter⟩
          have hp := hplaces p
          simp only [List.countP_cons] at hp ⊢
          omega
  | close =>
      simp only [Channel.step] at hstep
      split at hstep
      · cases hstep
        refine ⟨fun p => ?_, h.counter⟩
        have hp := h.places p
        simp only [List.countP_append, List.countP_nil] at hp ⊢
        omega
      · cases hstep

/-- In balanced books nothing is missing exactly when nothing was lost. -/
theorem conserved_iff (channel : Channel Event) (h : Balanced channel []) :
    channel.Conserved ↔ channel.lost = [] := by
  classical
  constructor
  · intro hconserved
    have hplaces := h.places fun _ => true
    have hperm := hconserved.countP_eq fun _ => true
    simp only [List.countP_append, List.countP_nil] at hperm hplaces
    have hnone : channel.lost.countP (fun _ => true) = 0 := by omega
    rw [List.countP_true] at hnone
    exact List.length_eq_zero_iff.mp hnone
  · intro hlost
    refine List.perm_iff_count.mpr fun event => ?_
    have hplaces := h.places (· == event)
    rw [hlost] at hplaces
    simp only [List.count, List.countP_append, List.countP_nil] at hplaces ⊢
    omega

theorem leave_lost (channel final : Channel Event) (place : Nat)
    (next : Channel Event → Event → Channel Event)
    (hnext : ∀ channel event, (next channel event).lost = channel.lost)
    (hstep : channel.leave place next = some final) : final.lost = channel.lost := by
  unfold Channel.leave at hstep
  split at hstep
  · cases hstep
  · cases hstep
    rw [hnext]

/-- The lossy steps are the ones that lose something. -/
theorem step_lost (encodes : Event → Bool) (channel : Channel Event) (action : Action Event)
    (next : Channel Event) (hstep : channel.step encodes action = some next) :
    (channel.Lossy encodes action → channel.lost.length < next.lost.length) ∧
      (¬ channel.Lossy encodes action → next.lost = channel.lost) := by
  cases action with
  | send event =>
      refine ⟨False.elim, fun _ => ?_⟩
      simp only [Channel.step] at hstep
      split at hstep
      · cases hstep
        rfl
      · split at hstep
        · cases hstep
          rfl
        · cases hstep
          rfl
  | trySend event =>
      refine ⟨False.elim, fun _ => ?_⟩
      simp only [Channel.step] at hstep
      split at hstep
      · cases hstep
        rfl
      · cases hstep
        rfl
  | enter place =>
      refine ⟨False.elim, fun _ => ?_⟩
      simp only [Channel.step] at hstep
      split at hstep
      · exact leave_lost channel next place Channel.enqueue (fun _ _ => rfl) hstep
      · cases hstep
  | timeout place =>
      refine ⟨False.elim, fun _ => ?_⟩
      simp only [Channel.step] at hstep
      split at hstep
      · exact leave_lost channel next place Channel.drop (fun _ _ => rfl) hstep
      · cases hstep
  | refuse place =>
      refine ⟨False.elim, fun _ => ?_⟩
      simp only [Channel.step] at hstep
      split at hstep
      · cases hstep
      · exact leave_lost channel next place Channel.drop (fun _ _ => rfl) hstep
  | cancel place =>
      refine ⟨fun _ => ?_, fun hnot => absurd trivial hnot⟩
      simp only [Channel.step, Channel.leave] at hstep
      split at hstep
      · cases hstep
      · cases hstep
        exact Nat.lt_succ_self _
  | receive =>
      simp only [Channel.step] at hstep
      split at hstep
      · cases hstep
      · rename_i event rest hbuffer
        split at hstep
        · rename_i hencodes
          cases hstep
          refine ⟨?_, fun _ => rfl⟩
          rintro ⟨other, more, hother, hfails⟩
          rw [hbuffer] at hother
          cases hother
          rw [hencodes] at hfails
          cases hfails
        · rename_i hfails
          cases hstep
          refine ⟨fun _ => Nat.lt_succ_self _, fun hnot => ?_⟩
          exact absurd ⟨event, rest, hbuffer, by simpa using hfails⟩ hnot
  | close =>
      simp only [Channel.step] at hstep
      split at hstep
      · cases hstep
        refine ⟨fun hne => ?_, fun hnot => ?_⟩
        · have hpos := List.length_pos_iff.mpr hne
          simp only [List.length_append]
          omega
        · have hempty : channel.buffer = [] := by
            by_contra hne
            exact hnot hne
          simp only [hempty, List.nil_append]
      · cases hstep

end Runlet.Channels
