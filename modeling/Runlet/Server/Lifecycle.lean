import Mathlib.Algebra.Ring.Nat
import Mathlib.Data.Prod.Lex
import Runlet.Lib.Transition
import Runlet.Server.BatchResults
import Runlet.Server.ContextBounds

/-!
The three phases of a batch as a machine: the request future awaits `before`,
spawns one task per item while those already spawned run, joins them, reduces
with `after` and answers (`run_batch` and `fan_out_items` in `batch.rs`). The
tasks interleave in any order; what an invocation does is its pipeline, and
every order of steps is a run of the machine. The log keeps what happened.
-/

namespace Runlet.Lifecycle

open Batch Contexts Errors Execute Gates Identity JsonText Response Telemetry

variable {Key S3 Sys Meta Metrics Egress Effect LogEntry : Type}

inductive Origin where
  | before
  | item (index : Nat)
  | after
  deriving DecidableEq

inductive Happening (S3 Sys : Type) where
  | event (origin : Origin) (event : Event S3 Sys)
  | beforeEnded
  | itemSpawned (index : Nat) (shared : Option String)
  | itemFinished (index : Nat)
  | afterStarted (shared : Option String)

inductive TaskStatus where
  | running
  | finished
  | joined
  deriving DecidableEq

/-- The task of one item: its copy of the shared context, and the events it
has still to go through. -/
structure Task (S3 Sys : Type) where
  shared : Option String
  todo : List (Event S3 Sys)
  status : TaskStatus

inductive Answer (Meta : Type) where
  | refused (status : Nat) (envelope : ErrorEnvelope)
  | responded (response : BatchResponse Meta)

def Answer.status : Answer Meta → Nat
  | .refused status _ => status
  | .responded _ => 200

inductive Stage (S3 Sys Meta : Type) where
  | before (todo : List (Event S3 Sys))
  | fanOut (shared : Option String) (tasks : List (Task S3 Sys))
      (slots : List (Option (RenderedItem Meta)))
  | after (rendered : Rendered Meta) (todo : List (Event S3 Sys)) (summary : Option String)
      (summaryError : Option ErrorEnvelope)
  | answered (answer : Answer Meta)

structure Progress (S3 Sys Meta : Type) where
  stage : Stage S3 Sys Meta
  log : List (Happening S3 Sys)

/-- One step of the future or of one of the tasks. -/
inductive Action where
  | before
  | barrier
  | spawn
  | item (index : Nat)
  | finish (index : Nat)
  | join (index : Nat)
  | reduce
  | after
  | respond
  deriving DecidableEq

section Machine

variable (box : BatchBox Key Meta Metrics Egress)
  (world : BatchWorld Key S3 Sys (ExecResult Metrics Egress Effect LogEntry))
  (identity : Option TrustedIdentity) (partition : Option String)
  (request : BatchRequest S3 Sys)

/-- A batch over its caps is answered with a fixed 400. -/
def start : Progress S3 Sys Meta :=
  match validateBatch box.limits request.items with
  | .error rejection => ⟨.answered (.refused 400 rejection.envelope), []⟩
  | .ok () =>
      ⟨.before (runBeforePhase box world identity partition request.before request.shared).1, []⟩

/-- The events of an item as its fate lets them happen. -/
def itemTrace (shared : Option String) (index : Nat) (item : BatchItem S3 Sys) :
    List (Event S3 Sys) :=
  (world.fate index).cut (runItem box world identity partition shared index item).trace

/-- The end of the barrier: the fan-out, or the projected error. -/
def openBarrier : Stage S3 Sys Meta :=
  match (runBeforePhase box world identity partition request.before request.shared).2 with
  | .error envelope =>
      .answered (.refused (projectEnvelope envelope).status envelope)
  | .ok shared => .fanOut shared [] (List.replicate request.items.length none)

def allJoined (tasks : List (Task S3 Sys)) : Bool :=
  tasks.length == request.items.length && tasks.all fun task => task.status == .joined

/-- The results are rendered once, for the client and for `after`. -/
def closeFanOut (shared : Option String) (slots : List (Option (RenderedItem Meta))) :
    Stage S3 Sys Meta :=
  let rendered := renderSlots box.size box.limits.maxResponseBytes box.emptyMeta 0 slots
  let reduced := runAfterPhase box world identity partition request.after rendered.results
    shared
  .after rendered reduced.1 reduced.2.1 reduced.2.2

def respond (rendered : Rendered Meta) (summary : Option String)
    (summaryError : Option ErrorEnvelope) : Answer Meta :=
  .responded
    { results := rendered.results
      summary := summary
      summaryError := summaryError
      items := request.items.length
      ok := rendered.ok
      failed := rendered.failed }

def step (s : Progress S3 Sys Meta) (action : Action) : Option (Progress S3 Sys Meta) :=
  match action, s with
  | .before, ⟨.before (event :: rest), log⟩ =>
      some ⟨.before rest, log ++ [.event .before event]⟩
  | .barrier, ⟨.before [], log⟩ =>
      some ⟨openBarrier box world identity partition request, log ++ [.beforeEnded]⟩
  | .spawn, ⟨.fanOut shared tasks slots, log⟩ =>
      request.items[tasks.length]?.map fun item =>
        ⟨.fanOut shared (tasks ++
          [⟨shared, itemTrace box world identity partition shared tasks.length item,
            .running⟩]) slots,
          log ++ [.itemSpawned tasks.length shared]⟩
  | .item index, ⟨.fanOut shared tasks slots, log⟩ =>
      match tasks[index]? with
      | some ⟨given, event :: rest, .running⟩ =>
          some ⟨.fanOut shared (tasks.set index ⟨given, rest, .running⟩) slots,
            log ++ [.event (.item index) event]⟩
      | _ => none
  | .finish index, ⟨.fanOut shared tasks slots, log⟩ =>
      match tasks[index]? with
      | some ⟨given, [], .running⟩ =>
          some ⟨.fanOut shared (tasks.set index ⟨given, [], .finished⟩) slots,
            log ++ [.itemFinished index]⟩
      | _ => none
  -- `join_next` is first awaited behind the spawn loop
  | .join index, ⟨.fanOut shared tasks slots, log⟩ =>
      if tasks.length = request.items.length then
        match tasks[index]? with
        | some ⟨given, todo, .finished⟩ =>
            some ⟨.fanOut shared (tasks.set index ⟨given, todo, .joined⟩)
              (joinTask (finishedItem box world identity partition request.items given) slots
                index), log⟩
        | _ => none
      else none
  | .reduce, ⟨.fanOut shared tasks slots, log⟩ =>
      if allJoined request tasks then
        some ⟨closeFanOut box world identity partition request shared slots,
          log ++ (request.after.map fun _ => .afterStarted shared).toList⟩
      else none
  | .after, ⟨.after rendered (event :: rest) summary summaryError, log⟩ =>
      some ⟨.after rendered rest summary summaryError, log ++ [.event .after event]⟩
  | .respond, ⟨.after rendered [] summary summaryError, log⟩ =>
      some ⟨.answered (respond request rendered summary summaryError), log⟩
  | _, _ => none

/-- What one step can do, with all that enables it. -/
inductive Moves : Progress S3 Sys Meta → Progress S3 Sys Meta → Prop where
  | before (log : List (Happening S3 Sys)) (event : Event S3 Sys)
      (rest : List (Event S3 Sys)) :
      Moves ⟨.before (event :: rest), log⟩ ⟨.before rest, log ++ [.event .before event]⟩
  | barrier (log : List (Happening S3 Sys)) :
      Moves ⟨.before [], log⟩
        ⟨openBarrier box world identity partition request, log ++ [.beforeEnded]⟩
  | spawn (log : List (Happening S3 Sys)) (shared : Option String)
      (tasks : List (Task S3 Sys)) (slots : List (Option (RenderedItem Meta)))
      (item : BatchItem S3 Sys) (hitem : request.items[tasks.length]? = some item) :
      Moves ⟨.fanOut shared tasks slots, log⟩
        ⟨.fanOut shared (tasks ++
          [⟨shared, itemTrace box world identity partition shared tasks.length item,
            .running⟩]) slots,
          log ++ [.itemSpawned tasks.length shared]⟩
  | item (log : List (Happening S3 Sys)) (index : Nat) (shared given : Option String)
      (tasks : List (Task S3 Sys)) (slots : List (Option (RenderedItem Meta)))
      (event : Event S3 Sys) (rest : List (Event S3 Sys))
      (htask : tasks[index]? = some ⟨given, event :: rest, .running⟩) :
      Moves ⟨.fanOut shared tasks slots, log⟩
        ⟨.fanOut shared (tasks.set index ⟨given, rest, .running⟩) slots,
          log ++ [.event (.item index) event]⟩
  | finish (log : List (Happening S3 Sys)) (index : Nat) (shared given : Option String)
      (tasks : List (Task S3 Sys)) (slots : List (Option (RenderedItem Meta)))
      (htask : tasks[index]? = some ⟨given, [], .running⟩) :
      Moves ⟨.fanOut shared tasks slots, log⟩
        ⟨.fanOut shared (tasks.set index ⟨given, [], .finished⟩) slots,
          log ++ [.itemFinished index]⟩
  | join (log : List (Happening S3 Sys)) (index : Nat) (shared given : Option String)
      (tasks : List (Task S3 Sys)) (slots : List (Option (RenderedItem Meta)))
      (todo : List (Event S3 Sys)) (hspawned : tasks.length = request.items.length)
      (htask : tasks[index]? = some ⟨given, todo, .finished⟩) :
      Moves ⟨.fanOut shared tasks slots, log⟩
        ⟨.fanOut shared (tasks.set index ⟨given, todo, .joined⟩)
          (joinTask (finishedItem box world identity partition request.items given) slots
            index), log⟩
  | reduce (log : List (Happening S3 Sys)) (shared : Option String)
      (tasks : List (Task S3 Sys)) (slots : List (Option (RenderedItem Meta)))
      (hjoined : allJoined request tasks = true) :
      Moves ⟨.fanOut shared tasks slots, log⟩
        ⟨closeFanOut box world identity partition request shared slots,
          log ++ (request.after.map fun _ => .afterStarted shared).toList⟩
  | after (log : List (Happening S3 Sys)) (rendered : Rendered Meta) (event : Event S3 Sys)
      (rest : List (Event S3 Sys)) (summary : Option String)
      (summaryError : Option ErrorEnvelope) :
      Moves ⟨.after rendered (event :: rest) summary summaryError, log⟩
        ⟨.after rendered rest summary summaryError, log ++ [.event .after event]⟩
  | respond (log : List (Happening S3 Sys)) (rendered : Rendered Meta)
      (summary : Option String) (summaryError : Option ErrorEnvelope) :
      Moves ⟨.after rendered [] summary summaryError, log⟩
        ⟨.answered (respond request rendered summary summaryError), log⟩

theorem step_moves (s next : Progress S3 Sys Meta) (action : Action)
    (hstep : step box world identity partition request s action = some next) :
    Moves box world identity partition request s next := by
  unfold step at hstep
  split at hstep
  · cases hstep
    exact .before _ _ _
  · cases hstep
    exact .barrier _
  · obtain ⟨item, hitem, rfl⟩ := Option.map_eq_some_iff.mp hstep
    exact .spawn _ _ _ _ item hitem
  · split at hstep
    · rename_i htask
      cases hstep
      exact .item _ _ _ _ _ _ _ _ htask
    · cases hstep
  · split at hstep
    · rename_i htask
      cases hstep
      exact .finish _ _ _ _ _ _ htask
    · cases hstep
  · split at hstep
    · rename_i hspawned
      split at hstep
      · rename_i htask
        cases hstep
        exact .join _ _ _ _ _ _ _ hspawned htask
      · cases hstep
    · cases hstep
  · split at hstep
    · rename_i hjoined
      cases hstep
      exact .reduce _ _ _ _ hjoined
    · cases hstep
  · cases hstep
    exact .after _ _ _ _ _ _
  · cases hstep
    exact .respond _ _ _ _
  · cases hstep

end Machine

/-! ### What every run keeps -/

def Answer.outcome : Answer Meta → Except ErrorEnvelope (BatchResponse Meta)
  | .refused _ envelope => .error envelope
  | .responded response => .ok response

def isJoined (tasks : List (Task S3 Sys)) (index : Nat) : Bool :=
  tasks[index]?.any fun task => task.status == .joined

theorem isJoined_set (tasks : List (Task S3 Sys)) (index i : Nat) (old task : Task S3 Sys)
    (hold : tasks[index]? = some old) :
    isJoined (tasks.set index task) i =
      if index = i then task.status == .joined else isJoined tasks i := by
  unfold isJoined
  by_cases hindex : index = i
  · subst hindex
    simp [List.getElem?_set_self', hold]
  · simp [hindex]

theorem isJoined_append (tasks : List (Task S3 Sys)) (task : Task S3 Sys) (i : Nat)
    (htask : task.status = .running) :
    isJoined (tasks ++ [task]) i = isJoined tasks i := by
  unfold isJoined
  rcases Nat.lt_trichotomy i tasks.length with hlt | rfl | hgt
  · rw [List.getElem?_append_left hlt]
  · simp [htask]
  · rw [List.getElem?_eq_none (by simp; omega), List.getElem?_eq_none (by omega)]

section Invariants

variable (box : BatchBox Key Meta Metrics Egress)
  (world : BatchWorld Key S3 Sys (ExecResult Metrics Egress Effect LogEntry))
  (identity : Option TrustedIdentity) (partition : Option String)
  (request : BatchRequest S3 Sys)

/-- The shared context, or why the barrier fails. -/
def built : Except ErrorEnvelope (Option String) :=
  (runBeforePhase box world identity partition request.before request.shared).2

def AllFinished (log : List (Happening S3 Sys)) : Prop :=
  ∀ i < request.items.length, .itemFinished i ∈ log

/-- What must have happened before an entry of the log. -/
def rule (past : List (Happening S3 Sys)) : Happening S3 Sys → Prop
  | .event .before _ => True
  | .beforeEnded => True
  | .itemSpawned _ shared =>
      .beforeEnded ∈ past ∧ built box world identity partition request = .ok shared
  | .event (.item index) event =>
      .beforeEnded ∈ past ∧ ∃ shared, built box world identity partition request = .ok shared ∧
        ∃ item, request.items[index]? = some item ∧
          event ∈ (runItem box world identity partition shared index item).trace
  | .itemFinished _ =>
      .beforeEnded ∈ past ∧ ∃ shared, built box world identity partition request = .ok shared
  | .afterStarted shared =>
      AllFinished request past ∧ built box world identity partition request = .ok shared
  | .event .after event =>
      AllFinished request past ∧
        ∃ shared, built box world identity partition request = .ok shared ∧
          ∃ results, event ∈
            (runAfterPhase box world identity partition request.after results shared).1

theorem cut_subset (fate : Fate) (trace : List (Event S3 Sys)) : fate.cut trace ⊆ trace := by
  cases fate with
  | completes => exact List.Subset.refl _
  | lostBeforeStart => exact (List.takeWhile_prefix _).subset
  | lostAfterStart => exact List.Subset.refl _

/-- The fan-out under way. -/
structure FanningOut (shared : Option String) (tasks : List (Task S3 Sys))
    (slots : List (Option (RenderedItem Meta))) (log : List (Happening S3 Sys)) : Prop where
  valid : validateBatch box.limits request.items = .ok ()
  built : built box world identity partition request = .ok shared
  ended : .beforeEnded ∈ log
  spawned : tasks.length ≤ request.items.length
  given : ∀ task ∈ tasks, task.shared = shared
  todo : ∀ (i : Nat) task, tasks[i]? = some task → ∃ item, request.items[i]? = some item ∧
    ∀ event ∈ task.todo, event ∈ (runItem box world identity partition shared i item).trace
  finished : ∀ (i : Nat) task, tasks[i]? = some task → task.status ≠ .running →
    .itemFinished i ∈ log
  slots : ∀ i : Nat, slots[i]? = if i < request.items.length then
    some (if isJoined tasks i then
      finishedItem box world identity partition request.items shared i else none) else none

/-- The reduce under way: the results are those of the fan-out. -/
structure Reducing (rendered : Rendered Meta) (todo : List (Event S3 Sys))
    (summary : Option String) (summaryError : Option ErrorEnvelope) (log : List (Happening S3 Sys))
    (shared : Option String) : Prop where
  valid : validateBatch box.limits request.items = .ok ()
  built : built box world identity partition request = .ok shared
  finished : AllFinished request log
  results : rendered = runItems box world identity partition request.items shared
  todo : ∀ event ∈ todo, event ∈
    (runAfterPhase box world identity partition request.after rendered.results shared).1
  reduced : (summary, summaryError) = (runAfterPhase box world identity partition request.after
    rendered.results shared).2

structure Settled (answer : Answer Meta) : Prop where
  outcome : answer.outcome = (runPhases box world identity partition request).response
  refused : ∀ status envelope, answer = .refused status envelope → status ≠ 200

def StageInvariant (log : List (Happening S3 Sys)) : Stage S3 Sys Meta → Prop
  | .before _ => validateBatch box.limits request.items = .ok ()
  | .fanOut shared tasks slots =>
      FanningOut box world identity partition request shared tasks slots log
  | .after rendered todo summary summaryError =>
      ∃ shared, Reducing box world identity partition request rendered todo summary summaryError
        log shared
  | .answered answer => Settled box world identity partition request answer

structure Invariant (s : Progress S3 Sys Meta) : Prop where
  ruled : Transition.Ruled (rule box world identity partition request) s.log
  stage : StageInvariant box world identity partition request s.log s.stage

variable {box world identity partition request}

/-- A task that moves on, with what it adds to the log. -/
theorem FanningOut.set {shared : Option String} {tasks : List (Task S3 Sys)}
    {slots : List (Option (RenderedItem Meta))} {log : List (Happening S3 Sys)}
    (h : FanningOut box world identity partition request shared tasks slots log)
    (slots' : List (Option (RenderedItem Meta))) (more : List (Happening S3 Sys))
    (index : Nat) (old task : Task S3 Sys)
    (hold : tasks[index]? = some old) (hshared : task.shared = old.shared)
    (htodo : task.todo ⊆ old.todo)
    (hfinished : task.status ≠ .running → .itemFinished index ∈ log ++ more)
    (hslots : ∀ i : Nat, slots'[i]? = if i < request.items.length then
      some (if isJoined (tasks.set index task) i then
        finishedItem box world identity partition request.items shared i else none)
      else none) :
    FanningOut box world identity partition request shared (tasks.set index task) slots'
      (log ++ more) := by
  refine ⟨h.valid, h.built, List.mem_append_left _ h.ended, ?_, ?_, ?_, ?_, hslots⟩
  · simpa using h.spawned
  · intro other hother
    rcases List.mem_or_eq_of_mem_set hother with hmem | rfl
    · exact h.given other hmem
    · rw [hshared]
      exact h.given old (List.mem_of_getElem? hold)
  · intro i other hother
    by_cases hindex : index = i
    · subst hindex
      obtain ⟨item, hitem, hevents⟩ := h.todo index old hold
      rw [List.getElem?_set_self', hold] at hother
      cases hother
      exact ⟨item, hitem, fun event hevent => hevents event (htodo hevent)⟩
    · rw [List.getElem?_set_ne hindex] at hother
      exact h.todo i other hother
  · intro i other hother hstatus
    by_cases hindex : index = i
    · subst hindex
      rw [List.getElem?_set_self', hold] at hother
      cases hother
      exact hfinished hstatus
    · rw [List.getElem?_set_ne hindex] at hother
      exact List.mem_append_left _ (h.finished i other hother hstatus)

/-- A task that is not joined yet may move on without touching the slots. -/
theorem FanningOut.slots_of_set {shared : Option String} {tasks : List (Task S3 Sys)}
    {slots : List (Option (RenderedItem Meta))} {log : List (Happening S3 Sys)}
    (h : FanningOut box world identity partition request shared tasks slots log)
    (index : Nat) (old task : Task S3 Sys) (hold : tasks[index]? = some old)
    (hbefore : old.status ≠ .joined) (hafter : task.status ≠ .joined) (i : Nat) :
    slots[i]? = if i < request.items.length then
      some (if isJoined (tasks.set index task) i then
        finishedItem box world identity partition request.items shared i else none)
      else none := by
  rw [h.slots i, isJoined_set tasks index i old task hold]
  by_cases hindex : index = i
  · subst hindex
    simp [isJoined, hold, hbefore, hafter]
  · simp [hindex]

theorem FanningOut.spawn {shared : Option String} {tasks : List (Task S3 Sys)}
    {slots : List (Option (RenderedItem Meta))} {log : List (Happening S3 Sys)}
    (h : FanningOut box world identity partition request shared tasks slots log)
    (item : BatchItem S3 Sys) (hitem : request.items[tasks.length]? = some item)
    (todo : List (Event S3 Sys))
    (htodo : todo ⊆ (runItem box world identity partition shared tasks.length item).trace) :
    FanningOut box world identity partition request shared
      (tasks ++ [⟨shared, todo, .running⟩]) slots
      (log ++ [.itemSpawned tasks.length shared]) := by
  refine ⟨h.valid, h.built, List.mem_append_left _ h.ended, ?_, ?_, ?_, ?_, ?_⟩
  · obtain ⟨hlt, _⟩ := List.getElem?_eq_some_iff.mp hitem
    simp only [List.length_append, List.length_singleton]
    omega
  · intro task htask
    rcases List.mem_append.mp htask with hmem | hnew
    · exact h.given task hmem
    · rw [List.mem_singleton.mp hnew]
  · intro i task htask
    rcases Nat.lt_trichotomy i tasks.length with hlt | rfl | hgt
    · rw [List.getElem?_append_left hlt] at htask
      exact h.todo i task htask
    · simp only [List.getElem?_concat_length, Option.some.injEq] at htask
      subst htask
      exact ⟨item, hitem, htodo⟩
    · rw [List.getElem?_eq_none (by simp; omega)] at htask
      cases htask
  · intro i task htask hstatus
    rcases Nat.lt_trichotomy i tasks.length with hlt | rfl | hgt
    · rw [List.getElem?_append_left hlt] at htask
      exact List.mem_append_left _ (h.finished i task htask hstatus)
    · simp only [List.getElem?_concat_length, Option.some.injEq] at htask
      exact absurd (htask ▸ rfl) hstatus
    · rw [List.getElem?_eq_none (by simp; omega)] at htask
      cases htask
  · intro i
    rw [isJoined_append _ _ _ rfl]
    exact h.slots i

theorem FanningOut.join {shared : Option String} {tasks : List (Task S3 Sys)}
    {slots : List (Option (RenderedItem Meta))} {log : List (Happening S3 Sys)}
    (h : FanningOut box world identity partition request shared tasks slots log)
    (index : Nat) (given : Option String) (todo : List (Event S3 Sys))
    (hold : tasks[index]? = some ⟨given, todo, .finished⟩) :
    FanningOut box world identity partition request shared
      (tasks.set index ⟨given, todo, .joined⟩)
      (joinTask (finishedItem box world identity partition request.items given) slots index)
      log := by
  have hgiven : given = shared := h.given _ (List.mem_of_getElem? hold)
  subst hgiven
  have hset := h.set (joinTask (finishedItem box world identity partition request.items given)
    slots index) [] index _ ⟨given, todo, .joined⟩ hold rfl (List.Subset.refl _) ?_ ?_
  · simpa using hset
  · intro _
    exact List.mem_append_left _ (h.finished index _ hold (by simp))
  · intro i
    rw [joinTask_getElem?, h.slots i, isJoined_set tasks index i _ _ hold]
    by_cases hindex : index = i
    · subst hindex
      by_cases hi : index < request.items.length
      · simp [hi, isJoined, hold]
      · simp [hi]
    · simp [hindex]

theorem allJoined_iff (tasks : List (Task S3 Sys)) :
    allJoined request tasks = true ↔ tasks.length = request.items.length ∧
      ∀ task ∈ tasks, task.status = .joined := by
  simp [allJoined]

/-- Once all are joined, every item has finished and every slot holds what its
task handed over. -/
theorem FanningOut.complete {shared : Option String} {tasks : List (Task S3 Sys)}
    {slots : List (Option (RenderedItem Meta))} {log : List (Happening S3 Sys)}
    (h : FanningOut box world identity partition request shared tasks slots log)
    (hjoined : allJoined request tasks = true) :
    AllFinished request log ∧
      renderSlots box.size box.limits.maxResponseBytes box.emptyMeta 0 slots =
        runItems box world identity partition request.items shared := by
  obtain ⟨hlength, hall⟩ := (allJoined_iff tasks).mp hjoined
  have htask : ∀ i < request.items.length, ∃ task, tasks[i]? = some task ∧
      task.status = .joined := by
    intro i hi
    obtain ⟨task, htask⟩ : ∃ task, tasks[i]? = some task :=
      ⟨_, List.getElem?_eq_getElem (hlength ▸ hi)⟩
    exact ⟨task, htask, hall task (List.mem_of_getElem? htask)⟩
  constructor
  · intro i hi
    obtain ⟨task, hget, hstatus⟩ := htask i hi
    exact h.finished i task hget (by simp [hstatus])
  · have hslots : slots = (List.range request.items.length).map
        (finishedItem box world identity partition request.items shared) := by
      apply List.ext_getElem?
      intro i
      rw [h.slots i, List.getElem?_map]
      by_cases hi : i < request.items.length
      · obtain ⟨task, hget, hstatus⟩ := htask i hi
        simp [hi, isJoined, hget, hstatus]
      · simp [hi]
    unfold runItems
    rw [fanOutItems_eq _ _ _ (world.order_perm _), hslots]

/-- The response of a batch within its caps. -/
theorem runPhases_response (hvalid : validateBatch box.limits request.items = .ok ()) :
    (runPhases box world identity partition request).response =
      (built box world identity partition request).map fun shared =>
        let rendered := runItems box world identity partition request.items shared
        let reduced := runAfterPhase box world identity partition request.after
          rendered.results shared
        { results := rendered.results
          summary := reduced.2.1
          summaryError := reduced.2.2
          items := request.items.length
          ok := rendered.ok
          failed := rendered.failed } := by
  simp only [runPhases, hvalid, built]
  cases runBeforePhase box world identity partition request.before request.shared with
  | mk trace shared =>
      cases shared with
      | error envelope => rfl
      | ok text => rfl

theorem projectEnvelope_status_ne (envelope : ErrorEnvelope) :
    (projectEnvelope envelope).status ≠ 200 := by
  unfold projectEnvelope project
  split
  · simp only [Projected.retry]
    split <;> simp
  · have hrange := parkStatus_range envelope.owner envelope.code
    simp only [Projected.park]
    omega

theorem start_invariant :
    Invariant box world identity partition request
      (start box world identity partition request) := by
  unfold start
  cases hvalid : validateBatch box.limits request.items with
  | error rejection =>
      refine ⟨Transition.ruled_nil _, ?_, ?_⟩
      · simp [Answer.outcome, runPhases, hvalid, BatchRun.refused]
      · intro status envelope hrefused
        cases hrefused
        decide
  | ok _ => exact ⟨Transition.ruled_nil _, hvalid⟩

/-- The one step lemma: whatever moves, the log keeps its rule and the stage
its invariant. -/
theorem moves_invariant (s next : Progress S3 Sys Meta)
    (h : Invariant box world identity partition request s)
    (hmove : Moves box world identity partition request s next) :
    Invariant box world identity partition request next := by
  cases hmove with
  | before log event rest =>
      exact ⟨Transition.ruled_concat _ _ _ h.ruled trivial, h.stage⟩
  | barrier log =>
      refine ⟨Transition.ruled_concat _ _ _ h.ruled trivial, ?_⟩
      have hvalid : validateBatch box.limits request.items = .ok () := h.stage
      unfold openBarrier
      cases hbuilt : (runBeforePhase box world identity partition request.before
          request.shared).2 with
      | error envelope =>
          refine ⟨?_, ?_⟩
          · rw [runPhases_response hvalid]
            simp [built, hbuilt, Answer.outcome, Except.map]
          · intro status other hrefused
            cases hrefused
            exact projectEnvelope_status_ne envelope
      | ok shared =>
          refine ⟨hvalid, hbuilt, by simp, by simp, by simp, by simp, by simp, ?_⟩
          intro i
          simp [isJoined, List.getElem?_replicate]
  | spawn log shared tasks slots item hitem =>
      have hfan : FanningOut box world identity partition request shared tasks slots log :=
        h.stage
      exact ⟨Transition.ruled_concat _ _ _ h.ruled ⟨hfan.ended, hfan.built⟩,
        hfan.spawn item hitem _ (cut_subset _ _)⟩
  | item log index shared given tasks slots event rest htask =>
      have hfan : FanningOut box world identity partition request shared tasks slots log :=
        h.stage
      obtain ⟨item, hitem, hevents⟩ := hfan.todo index _ htask
      refine ⟨Transition.ruled_concat _ _ _ h.ruled ⟨hfan.ended, shared, hfan.built, item, hitem,
        hevents event List.mem_cons_self⟩, ?_⟩
      exact hfan.set slots _ index _ _ htask rfl (List.subset_cons_self event rest)
        (fun hstatus => absurd rfl hstatus)
        (hfan.slots_of_set index _ _ htask (by simp) (by simp))
  | finish log index shared given tasks slots htask =>
      have hfan : FanningOut box world identity partition request shared tasks slots log :=
        h.stage
      refine ⟨Transition.ruled_concat _ _ _ h.ruled ⟨hfan.ended, shared, hfan.built⟩, ?_⟩
      exact hfan.set slots _ index _ _ htask rfl (List.Subset.refl _) (fun _ => by simp)
        (hfan.slots_of_set index _ _ htask (by simp) (by simp))
  | join log index shared given tasks slots todo hspawned htask =>
      have hfan : FanningOut box world identity partition request shared tasks slots log :=
        h.stage
      exact ⟨h.ruled, hfan.join index given todo htask⟩
  | reduce log shared tasks slots hjoined =>
      have hfan : FanningOut box world identity partition request shared tasks slots log :=
        h.stage
      obtain ⟨hfinished, hrendered⟩ := hfan.complete hjoined
      refine ⟨?_, shared, hfan.valid, hfan.built, ?_, hrendered, fun _ hevent => hevent, rfl⟩
      · cases request.after with
        | none => simpa using h.ruled
        | some item => exact Transition.ruled_concat _ _ _ h.ruled ⟨hfinished, hfan.built⟩
      · intro i hi
        exact List.mem_append_left _ (hfinished i hi)
  | after log rendered event rest summary summaryError =>
      obtain ⟨shared, hreducing⟩ := h.stage
      refine ⟨Transition.ruled_concat _ _ _ h.ruled
        ⟨hreducing.finished, shared, hreducing.built, _,
          hreducing.todo event List.mem_cons_self⟩, shared, hreducing.valid,
        hreducing.built, ?_, hreducing.results, ?_, hreducing.reduced⟩
      · intro i hi
        exact List.mem_append_left _ (hreducing.finished i hi)
      · intro other hother
        exact hreducing.todo other (List.mem_cons_of_mem _ hother)
  | respond log rendered summary summaryError =>
      obtain ⟨shared, hreducing⟩ := h.stage
      refine ⟨h.ruled, ?_, ?_⟩
      · rw [runPhases_response hreducing.valid, hreducing.built]
        have hreduced := hreducing.reduced
        rw [hreducing.results] at hreduced ⊢
        simp only [Answer.outcome, respond, Except.map]
        rw [← hreduced]
      · intro status envelope hrefused
        cases hrefused

/-- The run lemma. -/
theorem run_keeps_invariant (actions : List Action) (s : Progress S3 Sys Meta)
    (hrun : Transition.run (step box world identity partition request)
      (start box world identity partition request) actions = some s) :
    Invariant box world identity partition request s :=
  Transition.run_invariant_of_step _ (Invariant box world identity partition request)
    (fun s action next h hstep =>
      moves_invariant s next h (step_moves box world identity partition request s next action
        hstep))
    _ s actions start_invariant hrun

end Invariants

/-! ### Every run can be completed -/

def Task.cost (task : Task S3 Sys) : Nat :=
  match task.status with
  | .running => task.todo.length + 2
  | .finished => 1
  | .joined => 0

/-- The stage, the items still to spawn, and the work of the stage. -/
def cost (request : BatchRequest S3 Sys) (s : Progress S3 Sys Meta) : ℕ ×ₗ ℕ ×ₗ ℕ :=
  match s.stage with
  | .before todo => toLex (3, toLex (0, todo.length))
  | .fanOut _ tasks _ =>
      toLex (2, toLex (request.items.length - tasks.length, (tasks.map Task.cost).sum))
  | .after _ todo _ _ => toLex (1, toLex (0, todo.length))
  | .answered _ => toLex (0, toLex (0, 0))

theorem sum_map_set_lt {α : Type} (f : α → Nat) (values : List α) (index : Nat)
    (old value : α) (hold : values[index]? = some old) (hlt : f value < f old) :
    ((values.set index value).map f).sum < (values.map f).sum := by
  induction values generalizing index with
  | nil => simp at hold
  | cons head tail ih =>
      cases index with
      | zero =>
          simp only [List.getElem?_cons_zero, Option.some.injEq] at hold
          subst hold
          simpa using hlt
      | succ rest =>
          simp only [List.getElem?_cons_succ] at hold
          simpa using ih rest hold

theorem cost_set_lt (request : BatchRequest S3 Sys) (shared : Option String)
    (tasks : List (Task S3 Sys)) (slots slots' : List (Option (RenderedItem Meta)))
    (log log' : List (Happening S3 Sys)) (index : Nat) (old task : Task S3 Sys)
    (hold : tasks[index]? = some old) (hlt : task.cost < old.cost) :
    cost request ⟨.fanOut shared (tasks.set index task) slots', log'⟩ <
      cost request ⟨.fanOut shared tasks slots, log⟩ := by
  have hsum := sum_map_set_lt Task.cost tasks index old task hold hlt
  simp only [cost, List.length_set, Prod.Lex.toLex_lt_toLex]
  exact .inr ⟨trivial, .inr ⟨trivial, hsum⟩⟩

section Completion

variable (box : BatchBox Key Meta Metrics Egress)
  (world : BatchWorld Key S3 Sys (ExecResult Metrics Egress Effect LogEntry))
  (identity : Option TrustedIdentity) (partition : Option String)
  (request : BatchRequest S3 Sys)

def Answered (s : Progress S3 Sys Meta) : Prop := ∃ answer, s.stage = .answered answer

/-- A fan-out that is not complete has a task to spawn, to run or to join. -/
theorem fanOut_progress (shared : Option String) (tasks : List (Task S3 Sys))
    (slots : List (Option (RenderedItem Meta))) (log : List (Happening S3 Sys))
    (hspawned : tasks.length ≤ request.items.length) :
    ∃ action next, step box world identity partition request
        ⟨.fanOut shared tasks slots, log⟩ action = some next ∧
      cost request next < cost request ⟨.fanOut shared tasks slots, log⟩ := by
  rcases Nat.lt_or_eq_of_le hspawned with hlt | hall
  · have hspawn : step box world identity partition request ⟨.fanOut shared tasks slots, log⟩
        .spawn = some ⟨.fanOut shared (tasks ++ [⟨shared, itemTrace box world identity partition
          shared tasks.length (request.items.get ⟨tasks.length, hlt⟩), .running⟩]) slots,
          log ++ [.itemSpawned tasks.length shared]⟩ := by
      simp [step, List.getElem?_eq_getElem hlt]
    refine ⟨.spawn, _, hspawn, ?_⟩
    simp only [cost, Prod.Lex.toLex_lt_toLex, List.length_append, List.length_singleton]
    exact .inr ⟨trivial, .inl (by omega)⟩
  · by_cases hjoined : allJoined request tasks = true
    · refine ⟨.reduce, _, if_pos hjoined, ?_⟩
      simp [cost, closeFanOut, Prod.Lex.toLex_lt_toLex]
    · obtain ⟨task, hmem, hstatus⟩ : ∃ task ∈ tasks, task.status ≠ .joined := by
        by_contra hnone
        push Not at hnone
        exact hjoined ((allJoined_iff tasks).mpr ⟨hall, hnone⟩)
      obtain ⟨index, htask⟩ := List.mem_iff_getElem?.mp hmem
      obtain ⟨given, todo, status⟩ := task
      cases status with
      | joined => exact absurd rfl hstatus
      | finished =>
          refine ⟨.join index, _, ?_, cost_set_lt request shared tasks slots
            (joinTask (finishedItem box world identity partition request.items given) slots
              index) log log index _ ⟨given, todo, .joined⟩ htask (by simp [Task.cost])⟩
          simp only [step, hall, htask, if_true]
      | running =>
          cases todo with
          | nil =>
              refine ⟨.finish index, _, ?_, cost_set_lt request shared tasks slots slots log
                (log ++ [.itemFinished index]) index _ ⟨given, [], .finished⟩ htask
                (by simp [Task.cost])⟩
              simp only [step, htask]
          | cons event rest =>
              refine ⟨.item index, _, ?_, cost_set_lt request shared tasks slots slots log
                (log ++ [.event (.item index) event]) index _ ⟨given, rest, .running⟩ htask
                (by simp [Task.cost])⟩
              simp only [step, htask]

theorem progress (s : Progress S3 Sys Meta)
    (h : Invariant box world identity partition request s) (hopen : ¬ Answered s) :
    ∃ action next, step box world identity partition request s action = some next ∧
      cost request next < cost request s := by
  obtain ⟨stage, log⟩ := s
  cases stage with
  | before todo =>
      cases todo with
      | nil =>
          refine ⟨.barrier, _, rfl, ?_⟩
          unfold openBarrier
          split <;> simp [cost, Prod.Lex.toLex_lt_toLex]
      | cons event rest =>
          refine ⟨.before, _, rfl, ?_⟩
          simp [cost, Prod.Lex.toLex_lt_toLex]
  | fanOut shared tasks slots =>
      have hfan : FanningOut box world identity partition request shared tasks slots log :=
        h.stage
      exact fanOut_progress box world identity partition request shared tasks slots log
        hfan.spawned
  | after rendered todo summary summaryError =>
      cases todo with
      | nil =>
          refine ⟨.respond, _, rfl, ?_⟩
          simp [cost, Prod.Lex.toLex_lt_toLex]
      | cons event rest =>
          refine ⟨.after, _, rfl, ?_⟩
          simp [cost, Prod.Lex.toLex_lt_toLex]
  | answered answer => exact absurd ⟨answer, rfl⟩ hopen

/-- No order of steps is a dead end: the batch can always be answered. -/
theorem completes (s : Progress S3 Sys Meta)
    (h : Invariant box world identity partition request s) :
    ∃ more last, Transition.run (step box world identity partition request) s more =
      some last ∧ Answered last :=
  Transition.run_completes _ _ (Invariant box world identity partition request) (cost request)
    (fun s action next hs hstep =>
      moves_invariant s next hs (step_moves box world identity partition request s next action
        hstep))
    (fun s hs hopen => progress box world identity partition request s hs hopen) s h

end Completion

/-! ### The contract of the three phases -/

def Happening.OfItem : Happening S3 Sys → Prop
  | .event (.item _) _ => True
  | .itemSpawned _ _ => True
  | .itemFinished _ => True
  | _ => False

def Happening.OfAfter : Happening S3 Sys → Prop
  | .event .after _ => True
  | .afterStarted _ => True
  | _ => False

def Happening.givenShared : Happening S3 Sys → Option (Option String)
  | .itemSpawned _ shared => some shared
  | .afterStarted shared => some shared
  | _ => none

def Answer.results : Answer Meta → Option (List (ItemEnvelope Meta))
  | .refused _ _ => none
  | .responded response => some response.results

section Contract

variable (box : BatchBox Key Meta Metrics Egress)
  (world : BatchWorld Key S3 Sys (ExecResult Metrics Egress Effect LogEntry))
  (identity : Option TrustedIdentity) (partition : Option String)
  (request : BatchRequest S3 Sys)

def beforeOutcome (item : BatchItem S3 Sys) : LifecyclePhase :=
  phaseOutcome box.codec.toReader box.cfg box.withMetrics box.baseMeta
    (runLifecyclePhase box.state world.before identity partition item item.context).result

/-- There is no `before`, or it returned this. -/
def BeforeReturned (data : Option String) : Prop :=
  match request.before with
  | none => data = none
  | some item => ∃ text, beforeOutcome box world identity partition item = .success text ∧
      data = some text

/-- `before` fails, or the shared context built from its data does not fit. -/
def BarrierFails : Prop :=
  (∃ item envelope, request.before = some item ∧
    beforeOutcome box world identity partition item = .failure envelope) ∨
  ∃ data json, BeforeReturned box world identity partition request data ∧
    buildSharedContext box.codec request.shared data = some json ∧
    box.limits.maxSharedBytes < json.utf8ByteSize

/-- The context an item is executed with: its own text, or its own object with
the shared text under the reserved key. -/
def ItemContext (codec : Codec) (own : String) : Option String → String → Prop
  | none, contextJson => contextJson = own
  | some text, contextJson => Carries codec own [("shared", text)] contextJson

/-- What follows the barrier is given this shared text: in what is handed to
it, and in the context its script is executed with. -/
structure GivenShared (log : List (Happening S3 Sys)) (text : Option String) : Prop where
  handed : ∀ entry ∈ log, ∀ given, entry.givenShared = some given → given = text
  item : ∀ index params, .event (.item index) (.executionStarted params) ∈ log →
    ∃ item, request.items[index]? = some item ∧
      ItemContext box.codec item.context text params.contextJson
  after : ∀ params, .event .after (.executionStarted params) ∈ log →
    ∃ item results, request.after = some item ∧ Carries box.codec item.context
      (("results", results) :: (text.map fun text => ("shared", text)).toList)
      params.contextJson

structure Contract (s : Progress S3 Sys Meta) : Prop where
  barrier : ∀ past entry later, s.log = past ++ entry :: later → entry.OfItem →
    .beforeEnded ∈ past
  aborted : BarrierFails box world identity partition request →
    ∀ entry ∈ s.log, ¬ entry.OfItem ∧ ¬ entry.OfAfter
  status : ∀ answer, s.stage = .answered answer → (answer.status = 200 ↔
    validateBatch box.limits request.items = .ok () ∧
      ¬ BarrierFails box world identity partition request)
  shared : ∃ text, GivenShared box request s.log text
  reduce : ∀ past entry later, s.log = past ++ entry :: later → entry.OfAfter →
    AllFinished request past
  -- any other `after`, in any other run, leaves the status and the results
  isolated : ∀ (after : Option (BatchItem S3 Sys))
    (env : Env Key S3 Sys (ExecResult Metrics Egress Effect LogEntry)) actions s',
    Transition.run
      (step box { world with after := env } identity partition { request with after := after })
      (start box { world with after := env } identity partition { request with after := after })
      actions = some s' →
    ∀ answer answer', s.stage = .answered answer → s'.stage = .answered answer' →
      (answer.status = 200 ↔ answer'.status = 200) ∧ answer.results = answer'.results
  summary : ∀ response, s.stage = .answered (.responded response) →
    (request.after = none → response.summary = none ∧ response.summaryError = none) ∧
    (request.after.isSome → (response.summary.isSome ↔ response.summaryError = none))
  answered : ∃ more last, Transition.run (step box world identity partition request) s more =
    some last ∧ Answered last

theorem shareContext_error_iff (seed data : Option String) :
    (∃ envelope, shareContext box seed data = .error envelope) ↔
      ∃ json, buildSharedContext box.codec seed data = some json ∧
        box.limits.maxSharedBytes < json.utf8ByteSize := by
  unfold shareContext
  cases buildSharedContext box.codec seed data with
  | none => simp
  | some json =>
      by_cases hover : json.utf8ByteSize > box.limits.maxSharedBytes
      · simp [hover]
      · simp [hover]

theorem built_error_iff :
    (∃ envelope, built box world identity partition request = .error envelope) ↔
      BarrierFails box world identity partition request := by
  unfold built BarrierFails BeforeReturned
  cases hbefore : request.before with
  | none =>
      simp only [runBeforePhase]
      rw [shareContext_error_iff]
      simp
  | some item =>
      simp only [runBeforePhase]
      cases houtcome : phaseOutcome box.codec.toReader box.cfg box.withMetrics box.baseMeta
          (runLifecyclePhase box.state world.before identity partition item
            item.context).result with
      | failure envelope => simp [beforeOutcome, houtcome]
      | success data =>
          simp only
          rw [shareContext_error_iff]
          simp [beforeOutcome, houtcome]

theorem runAfterPhase_summary (after : Option (BatchItem S3 Sys))
    (results : List (ItemEnvelope Meta)) (shared : Option String) :
    let reduced := (runAfterPhase box world identity partition after results shared).2
    (after = none → reduced.1 = none ∧ reduced.2 = none) ∧
      (after.isSome → (reduced.1.isSome ↔ reduced.2 = none)) := by
  cases after with
  | none => simp [runAfterPhase]
  | some item =>
      simp only [runAfterPhase]
      split
      · simp
      · split <;> simp

variable {box world identity partition request}

/-- All that an answer can be: a refusal, or the response of the fan-out. -/
theorem Settled.cases {answer : Answer Meta}
    (h : Settled box world identity partition request answer) :
    (∃ status envelope, answer = .refused status envelope ∧ status ≠ 200 ∧
      (validateBatch box.limits request.items = .ok () →
        ∃ failure, built box world identity partition request = .error failure)) ∨
    ∃ shared response, answer = .responded response ∧
      validateBatch box.limits request.items = .ok () ∧
      built box world identity partition request = .ok shared ∧
      response.results = (runItems box world identity partition request.items shared).results ∧
      (response.summary, response.summaryError) = (runAfterPhase box world identity partition
        request.after response.results shared).2 := by
  have houtcome := h.outcome
  cases answer with
  | refused status envelope =>
      refine .inl ⟨status, envelope, rfl, h.refused status envelope rfl, ?_⟩
      intro hvalid
      rw [runPhases_response hvalid] at houtcome
      cases hbuilt : built box world identity partition request with
      | error failure => exact ⟨failure, rfl⟩
      | ok shared =>
          rw [hbuilt] at houtcome
          cases houtcome
  | responded response =>
      cases hvalid : validateBatch box.limits request.items with
      | error rejection =>
          simp only [runPhases, hvalid] at houtcome
          cases houtcome
      | ok _ =>
          rw [runPhases_response hvalid] at houtcome
          cases hbuilt : built box world identity partition request with
          | error failure =>
              rw [hbuilt] at houtcome
              cases houtcome
          | ok shared =>
              rw [hbuilt] at houtcome
              cases houtcome
              exact .inr ⟨shared, _, rfl, rfl, rfl, rfl, rfl⟩

/-- An answer is 200 exactly when it is a response, which needs the caps and
the barrier and nothing else. -/
theorem Settled.status_iff {answer : Answer Meta}
    (h : Settled box world identity partition request answer) :
    answer.status = 200 ↔ validateBatch box.limits request.items = .ok () ∧
      ¬ BarrierFails box world identity partition request := by
  rw [← built_error_iff]
  obtain ⟨status, envelope, rfl, hstatus, hfailure⟩ |
    ⟨shared, response, rfl, hvalid, hbuilt, _, _⟩ := h.cases
  · constructor
    · exact fun hok => absurd hok hstatus
    · rintro ⟨hvalid, hnone⟩
      exact absurd (hfailure hvalid) hnone
  · refine iff_of_true rfl ⟨hvalid, ?_⟩
    rintro ⟨failure, hfailure⟩
    cases hbuilt.symm.trans hfailure

/-- The results of an answer do not mention `after`. -/
theorem Settled.results_eq {answer : Answer Meta}
    (h : Settled box world identity partition request answer) :
    answer.results = match validateBatch box.limits request.items,
        built box world identity partition request with
      | .ok _, .ok shared =>
          some (runItems box world identity partition request.items shared).results
      | _, _ => none := by
  obtain ⟨status, envelope, rfl, _, hfailure⟩ |
    ⟨shared, response, rfl, hvalid, hbuilt, hresults, _⟩ := h.cases
  · cases hvalid : validateBatch box.limits request.items with
    | error rejection => rfl
    | ok _ =>
        obtain ⟨failure, hbuilt⟩ := hfailure hvalid
        rw [hbuilt]
        rfl
  · rw [hvalid, hbuilt]
    exact congrArg some hresults

theorem rule_ofItem (past : List (Happening S3 Sys)) (entry : Happening S3 Sys)
    (hrule : rule box world identity partition request past entry) (hitem : entry.OfItem) :
    .beforeEnded ∈ past ∧ ∃ shared, built box world identity partition request = .ok shared := by
  cases entry with
  | event origin event =>
      cases origin with
      | before => exact hitem.elim
      | item index =>
          obtain ⟨hended, shared, hbuilt, _⟩ := hrule
          exact ⟨hended, shared, hbuilt⟩
      | after => exact hitem.elim
  | beforeEnded => exact hitem.elim
  | itemSpawned index shared => exact ⟨hrule.1, shared, hrule.2⟩
  | itemFinished index => exact hrule
  | afterStarted shared => exact hitem.elim

theorem rule_ofAfter (past : List (Happening S3 Sys)) (entry : Happening S3 Sys)
    (hrule : rule box world identity partition request past entry) (hafter : entry.OfAfter) :
    AllFinished request past ∧
      ∃ shared, built box world identity partition request = .ok shared := by
  cases entry with
  | event origin event =>
      cases origin with
      | before => exact hafter.elim
      | item index => exact hafter.elim
      | after =>
          obtain ⟨hfinished, shared, hbuilt, _⟩ := hrule
          exact ⟨hfinished, shared, hbuilt⟩
  | beforeEnded => exact hafter.elim
  | itemSpawned index shared => exact hafter.elim
  | itemFinished index => exact hafter.elim
  | afterStarted shared => exact ⟨hrule.1, shared, hrule.2⟩

theorem rule_givenShared (past : List (Happening S3 Sys)) (entry : Happening S3 Sys)
    (hrule : rule box world identity partition request past entry) (given : Option String)
    (hgiven : entry.givenShared = some given) :
    built box world identity partition request = .ok given := by
  cases entry with
  | event origin event => cases hgiven
  | beforeEnded => cases hgiven
  | itemSpawned index shared =>
      cases hgiven
      exact hrule.2
  | itemFinished index => cases hgiven
  | afterStarted shared =>
      cases hgiven
      exact hrule.2

theorem itemContext_of_ok (codec : Codec) (own : String) (shared : Option String)
    (contextJson : String) (h : itemContext codec own shared = .ok contextJson) :
    ItemContext codec own shared contextJson := by
  rcases (itemContext_eq_ok_iff codec own shared contextJson).mp h with
    ⟨rfl, hown⟩ | ⟨text, rfl, hmerged⟩
  · exact hown.symm
  · exact contextWithReserved_carries codec own contextJson _ (by simp) hmerged

/-- The log of a batch past its barrier hands out, and executes with, the
shared text the barrier built. -/
theorem givenShared_of_ruled (log : List (Happening S3 Sys)) (text : Option String)
    (hlog : Transition.Ruled (rule box world identity partition request) log)
    (hbuilt : built box world identity partition request = .ok text) :
    GivenShared box request log text := by
  refine ⟨?_, ?_, ?_⟩
  · intro entry hentry given hgiven
    obtain ⟨past, hrule⟩ := hlog.of_mem _ hentry
    cases hbuilt.symm.trans (rule_givenShared past entry hrule given hgiven)
    rfl
  · intro index params hstarted
    obtain ⟨past, _, shared, hshared, item, hitem, hevent⟩ := hlog.of_mem _ hstarted
    cases hbuilt.symm.trans hshared
    refine ⟨item, hitem, itemContext_of_ok _ _ _ _ ?_⟩
    exact runBatchItem_context box.state (world.item index) identity partition box.codec item
      text params hevent
  · intro params hstarted
    obtain ⟨past, _, shared, hshared, results, hevent⟩ := hlog.of_mem _ hstarted
    cases hbuilt.symm.trans hshared
    obtain ⟨⟨item, hafter, hmerged⟩, _⟩ := runAfterPhase_started box world identity partition
      request.after results text params hevent
    refine ⟨item, box.writeResults results, hafter, ?_⟩
    apply contextWithReserved_carries _ _ _ _ _ hmerged
    cases text <;> simp [afterReserved]

/-- Where the barrier fails there is nothing to give it to. -/
theorem givenShared_of_failed (log : List (Happening S3 Sys)) (envelope : ErrorEnvelope)
    (hlog : Transition.Ruled (rule box world identity partition request) log)
    (hbuilt : built box world identity partition request = .error envelope) :
    GivenShared box request log none := by
  refine ⟨?_, ?_, ?_⟩
  · intro entry hentry given hgiven
    obtain ⟨past, hrule⟩ := hlog.of_mem _ hentry
    cases hbuilt.symm.trans (rule_givenShared past entry hrule given hgiven)
  · intro index params hstarted
    obtain ⟨past, _, shared, hshared, _⟩ := hlog.of_mem _ hstarted
    cases hbuilt.symm.trans hshared
  · intro params hstarted
    obtain ⟨past, _, shared, hshared, _⟩ := hlog.of_mem _ hstarted
    cases hbuilt.symm.trans hshared

/-- Whatever the batch, its surroundings and the order of the steps are: every
state a run reaches keeps the contract of the three phases. -/
theorem lifecycle_contract (actions : List Action) (s : Progress S3 Sys Meta)
    (hrun : Transition.run (step box world identity partition request)
      (start box world identity partition request) actions = some s) :
    Contract box world identity partition request s := by
  have h := run_keeps_invariant actions s hrun
  have hsettled : ∀ answer, s.stage = .answered answer →
      Settled box world identity partition request answer := by
    intro answer hanswer
    have hstage := h.stage
    rw [hanswer] at hstage
    exact hstage
  refine ⟨?_, ?_, ?_, ?_, ?_, ?_, ?_, completes box world identity partition request s h⟩
  · intro past entry later hlog hitem
    exact (rule_ofItem past entry (h.ruled past entry later hlog) hitem).1
  · intro hfails entry hentry
    obtain ⟨envelope, herror⟩ := built_error_iff box world identity partition request |>.mpr hfails
    obtain ⟨past, hrule⟩ := h.ruled.of_mem _ hentry
    constructor
    · intro hitem
      obtain ⟨_, shared, hok⟩ := rule_ofItem past entry hrule hitem
      cases herror.symm.trans hok
    · intro hafter
      obtain ⟨_, shared, hok⟩ := rule_ofAfter past entry hrule hafter
      cases herror.symm.trans hok
  · intro answer hanswer
    exact (hsettled answer hanswer).status_iff
  · cases hbuilt : built box world identity partition request with
    | error envelope => exact ⟨none, givenShared_of_failed s.log envelope h.ruled hbuilt⟩
    | ok shared => exact ⟨shared, givenShared_of_ruled s.log shared h.ruled hbuilt⟩
  · intro past entry later hlog hafter
    exact (rule_ofAfter past entry (h.ruled past entry later hlog) hafter).1
  · intro after env others s' hother answer answer' hanswer hanswer'
    have hsettled' := (run_keeps_invariant others s' hother).stage
    rw [hanswer'] at hsettled'
    exact ⟨(hsettled answer hanswer).status_iff.trans (Settled.status_iff hsettled').symm,
      (hsettled answer hanswer).results_eq.trans (Settled.results_eq hsettled').symm⟩
  · intro response hresponse
    obtain ⟨status, envelope, hrefused, _, _⟩ |
      ⟨shared, settled, hresponded, _, _, _, hreduced⟩ := (hsettled _ hresponse).cases
    · cases hrefused
    · cases hresponded
      have hsummary := runAfterPhase_summary box world identity partition request.after
        response.results shared
      rw [← hreduced] at hsummary
      exact hsummary

end Contract

/-- One item and an `after`, one step at a time. -/
def reducedBatch : BatchRequest Unit Unit := { sampleBatch none with after := some sampleItem }

def reducedRun : List Action :=
  [.barrier, .spawn] ++ List.replicate 5 (.item 0) ++ [.finish 0, .join 0, .reduce] ++
    List.replicate 5 .after ++ [.respond]

theorem lifecycle_contract_reduced :
    ∃ s response, Transition.run
        (step (sampleBox 100 1000) sampleWorld none none reducedBatch)
        (start (sampleBox 100 1000) sampleWorld none none reducedBatch) reducedRun = some s ∧
      s.stage = .answered (.responded response) ∧ response.summary = some "1" ∧
      Contract (sampleBox 100 1000) sampleWorld none none reducedBatch s := by
  refine ⟨_, _, rfl, rfl, by rfl, ?_⟩
  exact lifecycle_contract reducedRun _ rfl

end Runlet.Lifecycle
