import Mathlib.Logic.Relation
import Runlet.Lib.Transition

/-!
What a party can come to hold. The nodes of a world refer to each other, and the party
holds some of them; it gets at others along what refers to them, makes nodes of its own,
and puts references where it likes among what it got at. Only connectivity begets
connectivity: a node that was there from the start and not connected is never held.
-/

namespace Runlet.Confinement

open Relation Transition

variable {State Action Node : Type*}

structure World (State Node : Type*) where
  known : State → Node → Prop
  holds : State → Node → Prop
  refers : State → Node → Node → Prop

variable (world : World State Node)

/-- The party holds the node, or something it refers to through others. -/
def Connected (s : State) (x : Node) : Prop :=
  ∃ y, world.holds s y ∧ ReflTransGen (world.refers s) y x

/-- A step in which old nodes are held, or referred to anew, only if they were connected. -/
structure Careful (s next : State) : Prop where
  known : ∀ x, world.known s x → world.known next x
  holds : ∀ x, world.holds next x → world.known s x → Connected world s x
  refers : ∀ x y, world.refers next x y → world.known s y →
    world.known s x ∧ world.refers s x y ∨ Connected world s y

variable {world}

theorem Connected.of_holds {s : State} {x : Node} (h : world.holds s x) : Connected world s x :=
  ⟨x, h, .refl⟩

theorem Connected.tail {s : State} {x y : Node} (h : Connected world s x)
    (hxy : world.refers s x y) : Connected world s y := by
  obtain ⟨z, hz, hpath⟩ := h
  exact ⟨z, hz, hpath.tail hxy⟩

/-- What is reached after the step from a connected node, or from a new one. -/
theorem Careful.path {s next : State} (h : Careful world s next) {x y : Node}
    (hx : world.known s x → Connected world s x) (hpath : ReflTransGen (world.refers next) x y)
    (hknown : world.known s y) : Connected world s y := by
  induction hpath with
  | refl => exact hx hknown
  | tail _ hedge ih =>
      rcases h.refers _ _ hedge hknown with ⟨hbefore, hold⟩ | hconnected
      · exact (ih hbefore).tail hold
      · exact hconnected

theorem Careful.connected {s next : State} (h : Careful world s next) {x : Node}
    (hx : Connected world next x) (hknown : world.known s x) : Connected world s x := by
  obtain ⟨y, hy, hpath⟩ := hx
  exact h.path (h.holds y hy) hpath hknown

/-- The rule for runs. -/
theorem run_connected {step : State → Action → Option State}
    (hstep : ∀ s a next, step s a = some next → Careful world s next) {s final : State}
    {actions : List Action} (hrun : run step s actions = some final) {x : Node}
    (hx : Connected world final x) (hknown : world.known s x) : Connected world s x := by
  induction actions generalizing s with
  | nil =>
      have heq : s = final := Option.some.inj hrun
      rwa [heq]
  | cons a rest ih =>
      obtain ⟨next, hnext, hrest⟩ := (run_cons_eq_some step s final a rest).mp hrun
      have hcareful := hstep s a next hnext
      exact hcareful.connected (ih hrest (hcareful.known x hknown)) hknown

/-- What is neither held nor referred to is not connected. -/
theorem not_connected {s : State} {x : Node} (hheld : ¬world.holds s x)
    (hrefers : ∀ y, ¬world.refers s y x) : ¬Connected world s x := by
  rintro ⟨y, hy, hpath⟩
  cases hpath with
  | refl => exact hheld hy
  | tail _ hedge => exact hrefers _ hedge

end Runlet.Confinement
