import Runlet.Lib.Channel

/-!
The event sink (`events.rs`): `usage` and `audit` events go through one bounded
channel, where `record` waits for capacity up to a timeout, and diagnostic `log`
events through another, where `record_log` never waits. Each channel has its own
writer task and its own counter of dropped events. A request that is cancelled
takes the event of a waiting `record` with it, and a writer that goes away takes
what is buffered.
-/

namespace Runlet.Events

open Transition Channels

variable {Event : Type}

structure LogSink (Event : Type) where
  precious : Channel Event
  log : Channel Event

/-- `EventPipeline::spawn`. -/
def LogSink.spawn (bound logBound : Nat) : LogSink Event :=
  ⟨Channel.new (max bound 1), Channel.new (max logBound 1)⟩

inductive SinkAction (Event : Type) where
  | record (event : Event)
  | capacityFreed (place : Nat)
  | timedOut (place : Nat)
  | foundClosed (place : Nat)
  | cancelled (place : Nat)
  | write
  | writerGone
  | recordLog (event : Event)
  | writeLog
  | logWriterGone

def SinkAction.onPrecious : SinkAction Event → Option (Action Event)
  | .record event => some (.send event)
  | .capacityFreed place => some (.enter place)
  | .timedOut place => some (.timeout place)
  | .foundClosed place => some (.refuse place)
  | .cancelled place => some (.cancel place)
  | .write => some .receive
  | .writerGone => some .close
  | _ => none

def SinkAction.onLog : SinkAction Event → Option (Action Event)
  | .recordLog event => some (.trySend event)
  | .writeLog => some .receive
  | .logWriterGone => some .close
  | _ => none

/-- `encodes` tells which events serialize. -/
def LogSink.step (encodes : Event → Bool) (sink : LogSink Event) (action : SinkAction Event) :
    Option (LogSink Event) :=
  match action.onPrecious, action.onLog with
  | some onPrecious, _ =>
      (sink.precious.step encodes onPrecious).map fun next => { sink with precious := next }
  | none, some onLog => (sink.log.step encodes onLog).map fun next => { sink with log := next }
  | none, none => none

/-- The contract of the sink after a run: on both channels every event is in
one accounted place and the counter is the number of drops, and the channel of
`usage` and `audit` events is exactly what it would be without any `log`
traffic. -/
structure SinkContract (encodes : Event → Bool) (bound logBound : Nat)
    (actions : List (SinkAction Event)) (final : LogSink Event) : Prop where
  conserved : final.precious.Conserved
  logConserved : final.log.Conserved
  counted : final.precious.counter = final.precious.dropped.length
  logCounted : final.log.counter = final.log.dropped.length
  isolated : run (Channel.step encodes) (LogSink.spawn bound logBound).precious
    (actions.filterMap SinkAction.onPrecious) = some final.precious

/-- No waiting `record` is cancelled, no writer goes away from buffered events,
and no event fails to serialize. -/
def Kept (encodes : Event → Bool) (sink : LogSink Event) (action : SinkAction Event) : Prop :=
  (∀ onPrecious, action.onPrecious = some onPrecious → ¬ sink.precious.Lossy encodes onPrecious) ∧
    ∀ onLog, action.onLog = some onLog → ¬ sink.log.Lossy encodes onLog

/-- One step is a step of one channel, and the other is left alone. -/
theorem step_cases (encodes : Event → Bool) (sink next : LogSink Event)
    (action : SinkAction Event) (hstep : sink.step encodes action = some next) :
    (∃ onPrecious, action.onPrecious = some onPrecious ∧ action.onLog = none ∧
      sink.precious.step encodes onPrecious = some next.precious ∧ next.log = sink.log) ∨
    (∃ onLog, action.onPrecious = none ∧ action.onLog = some onLog ∧
      sink.log.step encodes onLog = some next.log ∧ next.precious = sink.precious) := by
  have hone : action.onPrecious = none ∨ action.onLog = none := by
    cases action <;> simp [SinkAction.onPrecious, SinkAction.onLog]
  unfold LogSink.step at hstep
  cases hprecious : action.onPrecious with
  | some onPrecious =>
      rw [hprecious] at hstep hone
      have hlog : action.onLog = none := hone.resolve_left (Option.some_ne_none onPrecious)
      obtain ⟨channel, hchannel, rfl⟩ := Option.map_eq_some_iff.mp hstep
      exact .inl ⟨onPrecious, rfl, hlog, hchannel, rfl⟩
  | none =>
      cases hlog : action.onLog with
      | none =>
          rw [hprecious, hlog] at hstep
          cases hstep
      | some onLog =>
          rw [hprecious, hlog] at hstep
          obtain ⟨channel, hchannel, rfl⟩ := Option.map_eq_some_iff.mp hstep
          exact .inr ⟨onLog, rfl, rfl, hchannel, rfl⟩

/-- Both books stay balanced. -/
theorem balanced_run (encodes : Event → Bool) (bound logBound : Nat)
    (actions : List (SinkAction Event)) (final : LogSink Event)
    (hrun : run (LogSink.step encodes) (LogSink.spawn bound logBound) actions = some final) :
    Balanced final.precious [] ∧ Balanced final.log [] := by
  refine run_invariant_of_step (LogSink.step encodes)
    (fun sink => Balanced sink.precious [] ∧ Balanced sink.log []) ?_
    (LogSink.spawn bound logBound) final actions ⟨balanced_new _, balanced_new _⟩ hrun
  rintro sink action next ⟨hprecious, hlog⟩ hstep
  rcases step_cases encodes sink next action hstep with
    ⟨onPrecious, -, -, hchannel, hsame⟩ | ⟨onLog, -, -, hchannel, hsame⟩
  · rw [hsame]
    exact ⟨balanced_step encodes _ onPrecious _ hprecious hchannel, hlog⟩
  · rw [hsame]
    exact ⟨hprecious, balanced_step encodes _ onLog _ hlog hchannel⟩

/-- The events that left the books of either channel. -/
def LogSink.lost (sink : LogSink Event) : Nat := sink.precious.lost.length + sink.log.lost.length

theorem lost_of_kept (encodes : Event → Bool) (sink next : LogSink Event)
    (action : SinkAction Event) (hstep : sink.step encodes action = some next)
    (hkept : Kept encodes sink action) : next.lost = sink.lost := by
  unfold LogSink.lost
  rcases step_cases encodes sink next action hstep with
    ⟨onPrecious, haction, -, hchannel, hsame⟩ | ⟨onLog, -, haction, hchannel, hsame⟩
  · rw [hsame, (step_lost encodes _ onPrecious _ hchannel).2 (hkept.1 onPrecious haction)]
  · rw [hsame, (step_lost encodes _ onLog _ hchannel).2 (hkept.2 onLog haction)]

theorem lost_of_not_kept (encodes : Event → Bool) (sink next : LogSink Event)
    (action : SinkAction Event) (hstep : sink.step encodes action = some next)
    (hnot : ¬ Kept encodes sink action) : sink.lost < next.lost := by
  unfold LogSink.lost
  rcases step_cases encodes sink next action hstep with
    ⟨onPrecious, haction, hother, hchannel, hsame⟩ | ⟨onLog, hother, haction, hchannel, hsame⟩
  · have hlossy : sink.precious.Lossy encodes onPrecious := by
      by_contra hkept
      refine hnot ⟨?_, ?_⟩
      · intro other heq
        rw [haction] at heq
        cases heq
        exact hkept
      · intro other heq
        rw [hother] at heq
        cases heq
    have hless := (step_lost encodes _ onPrecious _ hchannel).1 hlossy
    rw [hsame]
    omega
  · have hlossy : sink.log.Lossy encodes onLog := by
      by_contra hkept
      refine hnot ⟨?_, ?_⟩
      · intro other heq
        rw [hother] at heq
        cases heq
      · intro other heq
        rw [haction] at heq
        cases heq
        exact hkept
    have hless := (step_lost encodes _ onLog _ hchannel).1 hlossy
    rw [hsame]
    omega

/-- For all capacities and every interleaving: the contract of the sink holds
exactly when none of the steps cancels a waiting `record`, takes a writer away
from buffered events, or meets an event that does not serialize. -/
theorem sinkContract_iff (encodes : Event → Bool) (bound logBound : Nat)
    (actions : List (SinkAction Event)) (final : LogSink Event)
    (hrun : run (LogSink.step encodes) (LogSink.spawn bound logBound) actions = some final) :
    SinkContract encodes bound logBound actions final ↔
      Guarded (LogSink.step encodes) (Kept encodes) (LogSink.spawn bound logBound) actions := by
  obtain ⟨hprecious, hlog⟩ := balanced_run encodes bound logBound actions final hrun
  have hmeasure := (measure_eq_iff_guarded (LogSink.step encodes) (Kept encodes) LogSink.lost
    (fun s a next => lost_of_kept encodes s next a)
    (fun s a next => lost_of_not_kept encodes s next a) _ final actions hrun).2
  have hnone : final.lost = (LogSink.spawn bound logBound : LogSink Event).lost ↔
      final.precious.lost = [] ∧ final.log.lost = [] := by
    change final.precious.lost.length + final.log.lost.length = 0 ↔ _
    rw [Nat.add_eq_zero_iff, List.length_eq_zero_iff, List.length_eq_zero_iff]
  rw [← hmeasure, hnone, ← conserved_iff _ hprecious, ← conserved_iff _ hlog]
  constructor
  · exact fun hcontract => ⟨hcontract.conserved, hcontract.logConserved⟩
  · rintro ⟨hconserved, hlogConserved⟩
    refine ⟨hconserved, hlogConserved, hprecious.counter, hlog.counter, ?_⟩
    refine run_project (LogSink.step encodes) (Channel.step encodes) LogSink.precious
      SinkAction.onPrecious ?_ _ final actions hrun
    intro sink action next hstep
    rcases step_cases encodes sink next action hstep with
      ⟨onPrecious, haction, -, hchannel, -⟩ | ⟨onLog, haction, -, -, hsame⟩
    · rw [haction]
      exact hchannel
    · rw [haction]
      exact hsame

/-- A channel of one place: the second event waits, and is written in its
turn. -/
def oneWaits : List (SinkAction Nat) :=
  [.record 1, .record 2, .recordLog 3, .recordLog 4, .write, .capacityFreed 0, .write, .writeLog]

theorem oneWaits_contract :
    ∃ final, run (LogSink.step fun _ => true) (LogSink.spawn 1 1) oneWaits = some final ∧
      final.precious.written = [2, 1] ∧ final.log.dropped = [4] ∧
      SinkContract (fun _ => true) 1 1 oneWaits final := by
  refine ⟨_, rfl, rfl, rfl, ?_⟩
  refine (sinkContract_iff (fun _ => true) 1 1 oneWaits _ rfl).mpr ?_
  refine guarded_of_mem _ _ _ _ ?_
  intro action haction sink
  simp only [oneWaits, List.mem_cons, List.not_mem_nil, or_false] at haction
  rcases haction with rfl | rfl | rfl | rfl | rfl | rfl | rfl | rfl <;>
    simp [Kept, SinkAction.onPrecious, SinkAction.onLog, Channel.Lossy]

/-- The same, but the waiting request is cancelled. -/
def oneCancelled : List (SinkAction Nat) := [.record 1, .record 2, .cancelled 0, .write]

/-- The second event is nowhere, and the counter is at zero. -/
theorem cancelled_record_is_lost :
    ∃ final, run (LogSink.step fun _ => true) (LogSink.spawn 1 1) oneCancelled = some final ∧
      final.precious.handed = [2, 1] ∧ final.precious.written = [1] ∧
      final.precious.counter = 0 ∧
      ¬ SinkContract (fun _ => true) 1 1 oneCancelled final := by
  refine ⟨_, rfl, rfl, rfl, rfl, ?_⟩
  intro hcontract
  have hlength := hcontract.conserved.length_eq
  exact absurd hlength (by decide)

end Runlet.Events
