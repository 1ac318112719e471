import Mathlib.Logic.Basic
import Mathlib.Data.Option.Basic
import Mathlib.Order.WellFounded

/-!
Deterministic transition functions and the runs they generate. A step
function answers `none` when an action is not enabled, so a run is a list of
actions that were all enabled in turn. A guard restricts the actions of a run
by the state in which each of them is taken.
-/

namespace Runlet.Transition

variable {State Action : Type*}

/-- Executes the actions in order; `none` as soon as one is not enabled. -/
def run (step : State → Action → Option State) (s : State) :
    List Action → Option State
  | [] => some s
  | a :: rest => (step s a).bind fun next => run step next rest

/-- Every action of the run meets `guard` in the state just before it. -/
def Guarded (step : State → Action → Option State)
    (guard : State → Action → Prop) (s : State) : List Action → Prop
  | [] => True
  | a :: rest => guard s a ∧
      ∀ next, step s a = some next → Guarded step guard next rest

theorem run_cons_eq_some (step : State → Action → Option State)
    (s final : State) (a : Action) (rest : List Action) :
    run step s (a :: rest) = some final ↔
      ∃ next, step s a = some next ∧ run step next rest = some final := by
  simp only [run, Option.bind_eq_some_iff]

/-- What every guarded step preserves holds at the end of every guarded run. -/
theorem run_invariant (step : State → Action → Option State)
    (guard : State → Action → Prop) (inv : State → Prop)
    (hstep : ∀ s a next, inv s → guard s a → step s a = some next → inv next)
    (s final : State) (actions : List Action) (hs : inv s)
    (hguard : Guarded step guard s actions)
    (hrun : run step s actions = some final) : inv final := by
  induction actions generalizing s with
  | nil =>
      have heq : s = final := Option.some.inj hrun
      exact heq ▸ hs
  | cons a rest ih =>
      obtain ⟨next, hnext, hrest⟩ :=
        (run_cons_eq_some step s final a rest).mp hrun
      obtain ⟨hga, hgrest⟩ := hguard
      exact ih next (hstep s a next hs hga hnext) (hgrest next hnext) hrest

/-- One step of a guarded run whose successor is known. -/
theorem guarded_cons (step : State → Action → Option State)
    (guard : State → Action → Prop) (s next : State) (a : Action) (rest : List Action)
    (hstep : step s a = some next) (ha : guard s a) (hrest : Guarded step guard next rest) :
    Guarded step guard s (a :: rest) := by
  refine ⟨ha, fun other hother => ?_⟩
  rw [hstep] at hother
  cases hother
  exact hrest

/-- A guard that each listed action meets in any state. -/
theorem guarded_of_mem (step : State → Action → Option State)
    (guard : State → Action → Prop) (s : State) (actions : List Action)
    (hall : ∀ a ∈ actions, ∀ s, guard s a) : Guarded step guard s actions := by
  induction actions generalizing s with
  | nil => trivial
  | cons a rest ih =>
      refine ⟨hall a List.mem_cons_self s, fun next _ => ih next ?_⟩
      intro b hb
      exact hall b (List.mem_cons_of_mem a hb)

/-- Evaluates a test on every state of a run. -/
def tested (step : State → Action → Option State) (test : State → Action → Bool)
    (s : State) : List Action → Bool
  | [] => true
  | a :: rest => test s a &&
      match step s a with
      | none => true
      | some next => tested step test next rest

theorem guarded_of_tested (step : State → Action → Option State)
    (guard : State → Action → Prop) (test : State → Action → Bool)
    (htest : ∀ s a, test s a = true → guard s a) (s : State) (actions : List Action)
    (h : tested step test s actions = true) : Guarded step guard s actions := by
  induction actions generalizing s with
  | nil => trivial
  | cons a rest ih =>
      simp only [tested, Bool.and_eq_true] at h
      refine ⟨htest s a h.1, ?_⟩
      intro next hnext
      have hrest := h.2
      simp only [hnext] at hrest
      exact ih next hrest

/-- The unguarded rule: a property every step preserves holds along every run. -/
theorem run_invariant_of_step (step : State → Action → Option State)
    (inv : State → Prop)
    (hstep : ∀ s a next, inv s → step s a = some next → inv next)
    (s final : State) (actions : List Action) (hs : inv s)
    (hrun : run step s actions = some final) : inv final :=
  run_invariant step (fun _ _ => True) inv
    (fun s a next h _ hnext => hstep s a next h hnext) s final actions hs
    (guarded_of_mem step _ s actions fun _ _ _ => trivial) hrun

/-- A quantity that grows at every step outside the guard and at no other is
unchanged at the end of a run exactly when the whole run was guarded. -/
theorem measure_eq_iff_guarded (step : State → Action → Option State)
    (guard : State → Action → Prop) (measure : State → Nat)
    (hkept : ∀ s a next, step s a = some next → guard s a → measure next = measure s)
    (hgrows : ∀ s a next, step s a = some next → ¬ guard s a → measure s < measure next)
    (s final : State) (actions : List Action) (hrun : run step s actions = some final) :
    measure s ≤ measure final ∧
      (measure final = measure s ↔ Guarded step guard s actions) := by
  induction actions generalizing s with
  | nil =>
      have heq : s = final := Option.some.inj hrun
      subst heq
      exact ⟨Nat.le_refl _, ⟨fun _ => trivial, fun _ => rfl⟩⟩
  | cons a rest ih =>
      obtain ⟨next, hnext, hrest⟩ := (run_cons_eq_some step s final a rest).mp hrun
      obtain ⟨hle, hiff⟩ := ih next hrest
      by_cases hguard : guard s a
      · have hsame := hkept s a next hnext hguard
        refine ⟨by omega, ?_⟩
        rw [← hsame, hiff]
        constructor
        · exact fun h => guarded_cons step guard s next a rest hnext hguard h
        · exact fun h => h.2 next hnext
      · have hless := hgrows s a next hnext hguard
        refine ⟨by omega, ?_⟩
        constructor
        · exact fun heq => absurd heq (by omega)
        · exact fun h => absurd h.1 hguard

/-- A part of the state that only some of the actions touch goes through the
run of these actions alone. -/
theorem run_project {Part PartAction : Type*} (step : State → Action → Option State)
    (partStep : Part → PartAction → Option Part) (part : State → Part)
    (select : Action → Option PartAction)
    (hpart : ∀ s a next, step s a = some next →
      match select a with
      | some b => partStep (part s) b = some (part next)
      | none => part next = part s)
    (s final : State) (actions : List Action) (hrun : run step s actions = some final) :
    run partStep (part s) (actions.filterMap select) = some (part final) := by
  induction actions generalizing s with
  | nil =>
      have heq : s = final := Option.some.inj hrun
      subst heq
      rfl
  | cons a rest ih =>
      obtain ⟨next, hnext, hrest⟩ := (run_cons_eq_some step s final a rest).mp hrun
      have hnextPart := hpart s a next hnext
      have hih := ih next hrest
      cases hselect : select a with
      | none =>
          rw [hselect] at hnextPart
          rw [List.filterMap_cons_none hselect, ← hnextPart]
          exact hih
      | some b =>
          rw [hselect] at hnextPart
          rw [List.filterMap_cons_some hselect]
          exact (run_cons_eq_some partStep _ _ b _).mpr ⟨part next, hnextPart, hih⟩

/-- When every state that is not final has an enabled action that brings it
nearer to the end, every run can be continued to a final state. -/
theorem run_completes {Cost : Type*} [LT Cost] [WellFoundedLT Cost]
    (step : State → Action → Option State) (final : State → Prop) (inv : State → Prop)
    (cost : State → Cost)
    (hstep : ∀ s a next, inv s → step s a = some next → inv next)
    (hprogress : ∀ s, inv s → ¬ final s → ∃ a next, step s a = some next ∧ cost next < cost s)
    (s : State) (hs : inv s) :
    ∃ actions last, run step s actions = some last ∧ final last := by
  induction hbound : cost s using WellFoundedLT.induction generalizing s with
  | ind bound ih =>
      by_cases hfinal : final s
      · exact ⟨[], s, rfl, hfinal⟩
      · obtain ⟨a, next, hnext, hless⟩ := hprogress s hs hfinal
        obtain ⟨actions, last, hrun, hlast⟩ :=
          ih (cost next) (hbound ▸ hless) next (hstep s a next hs hnext) rfl
        exact ⟨a :: actions, last, (run_cons_eq_some step s last a actions).mpr
          ⟨next, hnext, hrun⟩, hlast⟩

/-! ### Observers of a run -/

section Observed

variable {Note : Type*} (step : State → Action → Option State)
  (note : Note → State → Action → Note)

/-- What an observer who sees every state and action has noted at the end of a run. -/
def observed (s : State) (noted : Note) : List Action → Note
  | [] => noted
  | a :: rest =>
      match step s a with
      | none => noted
      | some next => observed next (note noted s a) rest

theorem observed_cons (s next : State) (noted : Note) (a : Action) (rest : List Action)
    (hstep : step s a = some next) :
    observed step note s noted (a :: rest) = observed step note next (note noted s a) rest := by
  rw [observed, hstep]

/-- What every guarded step preserves of a state and the notes on it holds at the end of
every guarded run. -/
theorem run_observed (guard : State → Action → Prop) (inv : State → Note → Prop)
    (hstep : ∀ s noted a next, inv s noted → guard s a → step s a = some next →
      inv next (note noted s a))
    (s final : State) (noted : Note) (actions : List Action) (hs : inv s noted)
    (hguard : Guarded step guard s actions) (hrun : run step s actions = some final) :
    inv final (observed step note s noted actions) := by
  induction actions generalizing s noted with
  | nil =>
      have heq : s = final := Option.some.inj hrun
      exact heq ▸ hs
  | cons a rest ih =>
      obtain ⟨next, hnext, hrest⟩ := (run_cons_eq_some step s final a rest).mp hrun
      obtain ⟨hga, hgrest⟩ := hguard
      rw [observed_cons step note s next noted a rest hnext]
      exact ih next (note noted s a) (hstep s noted a next hs hga hnext) (hgrest next hnext) hrest

/-- The unguarded rule. -/
theorem run_observed_of_step (inv : State → Note → Prop)
    (hstep : ∀ s noted a next, inv s noted → step s a = some next → inv next (note noted s a))
    (s final : State) (noted : Note) (actions : List Action) (hs : inv s noted)
    (hrun : run step s actions = some final) :
    inv final (observed step note s noted actions) :=
  run_observed step note (fun _ _ => True) inv
    (fun s noted a next h _ hnext => hstep s noted a next h hnext) s final noted actions hs
    (guarded_of_mem step _ s actions fun _ _ _ => trivial) hrun

end Observed

/-! ### Leaving actions out -/

/-- When a kept action does in every state that agrees what it does in the run, and the
other actions change nothing that the agreement is about, the kept actions of a run make a
run of their own to a state that agrees. -/
theorem run_kept (step : State → Action → Option State) (guard : State → Action → Prop)
    (kept : Action → Bool) (agree : State → State → Prop)
    (hkept : ∀ s other a next, agree s other → guard s a → kept a = true →
      step s a = some next → ∃ next', step other a = some next' ∧ agree next next')
    (hleft : ∀ s other a next, agree s other → guard s a → kept a = false →
      step s a = some next → agree next other)
    (s other final : State) (actions : List Action) (hs : agree s other)
    (hguard : Guarded step guard s actions) (hrun : run step s actions = some final) :
    ∃ final', run step other (actions.filter kept) = some final' ∧ agree final final' := by
  induction actions generalizing s other with
  | nil =>
      have heq : s = final := Option.some.inj hrun
      subst heq
      exact ⟨other, rfl, hs⟩
  | cons a rest ih =>
      obtain ⟨next, hnext, hrest⟩ := (run_cons_eq_some step s final a rest).mp hrun
      obtain ⟨hga, hgrest⟩ := hguard
      cases ha : kept a with
      | true =>
          obtain ⟨next', hnext', hagree⟩ := hkept s other a next hs hga ha hnext
          obtain ⟨final', hfinal, hend⟩ := ih next next' hagree (hgrest next hnext) hrest
          rw [List.filter_cons_of_pos ha]
          exact ⟨final', (run_cons_eq_some step other final' a _).mpr ⟨next', hnext', hfinal⟩, hend⟩
      | false =>
          rw [List.filter_cons_of_neg (by rw [ha]; exact Bool.false_ne_true)]
          exact ih next other (hleft s other a next hs hga ha hnext) (hgrest next hnext) hrest

/-! ### Histories -/

section Histories

variable {Entry : Type*} (rule : List Entry → Entry → Prop)

/-- Every entry of the history meets the rule against what came before it. -/
def Ruled (history : List Entry) : Prop :=
  ∀ past entry later, history = past ++ entry :: later → rule past entry

theorem ruled_nil : Ruled rule [] := by
  intro past entry later h
  simp at h

theorem ruled_concat (history : List Entry) (entry : Entry) (h : Ruled rule history)
    (hentry : rule history entry) : Ruled rule (history ++ [entry]) := by
  intro past other later hsplit
  rcases List.eq_nil_or_concat later with rfl | ⟨init, last, rfl⟩
  · obtain ⟨rfl, hlast⟩ := List.append_inj' hsplit rfl
    cases hlast
    exact hentry
  · have hinit : history ++ [entry] = (past ++ other :: init) ++ [last] := by
      simpa using hsplit
    exact h past other init (List.append_inj' hinit rfl).1

theorem Ruled.of_mem {history : List Entry} (h : Ruled rule history) {entry : Entry}
    (hmem : entry ∈ history) : ∃ past, rule past entry := by
  obtain ⟨past, later, rfl⟩ := List.append_of_mem hmem
  exact ⟨past, h past entry later rfl⟩

end Histories

end Runlet.Transition
