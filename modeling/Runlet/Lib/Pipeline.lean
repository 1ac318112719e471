import Mathlib.Data.List.Basic

/-!
Straight-line handlers that record what they do. A pipeline is the trace of
its events with a value, or with the error it stopped at; sequencing stops at
the first error and keeps the trace so far. `Ordered rule hist p` says that
every event of `p` meets `rule` against everything that happened before it,
where `hist` is what happened before `p` began.
-/

namespace Runlet

structure Pipeline (Event Err α : Type) where
  trace : List Event
  result : Except Err α

namespace Pipeline

variable {Event Err α β : Type}

/-- Continues with the value, or stops and keeps the trace. -/
def andThen (p : Pipeline Event Err α) (next : α → Pipeline Event Err β) :
    Pipeline Event Err β :=
  match p.result with
  | .error err => ⟨p.trace, .error err⟩
  | .ok value => ⟨p.trace ++ (next value).trace, (next value).result⟩

instance : Monad (Pipeline Event Err) where
  pure value := ⟨[], .ok value⟩
  bind := andThen

def emit (event : Event) : Pipeline Event Err Unit := ⟨[event], .ok ()⟩

/-- Runs `last` on every exit, as the end of a scope drops its values. -/
def onExit (p : Pipeline Event Err α) (last : List Event) : Pipeline Event Err α :=
  ⟨p.trace ++ last, p.result⟩

theorem bind_error (p : Pipeline Event Err α) (next : α → Pipeline Event Err β) (err : Err)
    (herror : p.result = .error err) : (p >>= next) = ⟨p.trace, .error err⟩ := by
  change andThen p next = _
  simp [andThen, herror]

theorem bind_ok (p : Pipeline Event Err α) (next : α → Pipeline Event Err β) (value : α)
    (hok : p.result = .ok value) :
    (p >>= next) = ⟨p.trace ++ (next value).trace, (next value).result⟩ := by
  change andThen p next = _
  simp [andThen, hok]

def Ordered (rule : List Event → Event → Prop) (hist : List Event)
    (p : Pipeline Event Err α) : Prop :=
  ∀ before event rest, p.trace = before ++ event :: rest → rule (hist ++ before) event

theorem ordered_pure (rule : List Event → Event → Prop) (hist : List Event)
    (value : α) : Ordered rule hist (pure value : Pipeline Event Err α) := by
  intro before event rest htrace
  have hnil : ([] : List Event) = before ++ event :: rest := htrace
  simp at hnil

theorem ordered_append (rule : List Event → Event → Prop) (hist first second : List Event)
    (hfirst : ∀ before event rest, first = before ++ event :: rest →
      rule (hist ++ before) event)
    (hsecond : ∀ before event rest, second = before ++ event :: rest →
      rule (hist ++ first ++ before) event)
    (before rest : List Event) (event : Event)
    (htrace : first ++ second = before ++ event :: rest) :
    rule (hist ++ before) event := by
  rcases List.append_eq_append_iff.mp htrace with ⟨left, hbefore, hsplit⟩ | ⟨right, hsplit, hrest⟩
  · have h := hsecond left event rest hsplit
    rw [hbefore, ← List.append_assoc]
    exact h
  · cases right with
    | nil =>
        have h := hsecond [] event rest hrest.symm
        rw [hsplit] at h
        simpa using h
    | cons head tail =>
        have hhead : event = head := (List.cons.inj hrest).1
        subst hhead
        exact hfirst before event tail hsplit

/-- The sequencing rule: the continuation is checked with the events of the
first part in its history, and only for the value the first part returned. -/
theorem ordered_bind (rule : List Event → Event → Prop) (hist : List Event)
    (p : Pipeline Event Err α) (next : α → Pipeline Event Err β)
    (hp : Ordered rule hist p)
    (hnext : ∀ value, p.result = .ok value →
      Ordered rule (hist ++ p.trace) (next value)) :
    Ordered rule hist (p >>= next) := by
  intro before event rest htrace
  change (andThen p next).trace = _ at htrace
  unfold andThen at htrace
  cases hresult : p.result with
  | error err =>
      rw [hresult] at htrace
      exact hp before event rest htrace
  | ok value =>
      rw [hresult] at htrace
      exact ordered_append rule hist p.trace (next value).trace hp
        (hnext value hresult) before rest event htrace

theorem ordered_onExit (rule : List Event → Event → Prop) (hist last : List Event)
    (p : Pipeline Event Err α) (hp : Ordered rule hist p)
    (hlast : ∀ before event rest, last = before ++ event :: rest →
      rule (hist ++ p.trace ++ before) event) :
    Ordered rule hist (p.onExit last) := by
  intro before event rest htrace
  exact ordered_append rule hist p.trace last hp hlast before rest event htrace

/-- Events the rule never constrains need no argument. -/
theorem ordered_of_forall (rule : List Event → Event → Prop) (hist : List Event)
    (p : Pipeline Event Err α)
    (hfree : ∀ event ∈ p.trace, ∀ before, rule before event) :
    Ordered rule hist p := by
  intro before event rest htrace
  exact hfree event (by rw [htrace]; simp) (hist ++ before)

theorem ordered_emit (rule : List Event → Event → Prop) (hist : List Event)
    (event : Event) (hrule : rule hist event) :
    Ordered rule hist (emit event : Pipeline Event Err Unit) := by
  intro before other rest htrace
  have hsingle : [event] = before ++ other :: rest := htrace
  cases before with
  | nil =>
      have hhead : event = other := (List.cons.inj hsingle).1
      subst hhead
      simpa using hrule
  | cons head tail => simp at hsingle

end Pipeline

/-- A sequence of fallible steps has a value exactly when each step has one. -/
theorem bind_eq_ok_iff {ε α β : Type} (first : Except ε α) (next : α → Except ε β)
    (value : β) : (first >>= next) = .ok value ↔ ∃ x, first = .ok x ∧ next x = .ok value := by
  cases first with
  | error err => simp [bind, Except.bind]
  | ok x => simp [bind, Except.bind]

end Runlet
