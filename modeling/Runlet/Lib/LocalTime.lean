import Mathlib.Algebra.Order.Group.Int

/-!
Local times of a zone. A zone is an offset that is constant between its changes;
a local time may be shown by no instant, by one, or by several, and the earliest
of them is found among the offsets of the zone.
-/

namespace Runlet.LocalTime

/-- Offsets below a bound, the first one in force until the first change. -/
structure Zone (bound : Int) where
  initial : Int
  changes : List (Int × Int)
  bounded : ∀ offset ∈ initial :: changes.map Prod.snd, -bound < offset ∧ offset < bound

variable {bound : Int} (zone : Zone bound)

def Zone.offsets : List Int := zone.initial :: zone.changes.map Prod.snd

/-- The offset at an instant: that of the last change up to it. -/
def Zone.offset (t : Int) : Int :=
  zone.changes.foldl (fun current change => if change.1 ≤ t then change.2 else current)
    zone.initial

theorem Zone.offset_mem (t : Int) : zone.offset t ∈ zone.offsets := by
  have hfold (changes : List (Int × Int)) (current : Int) :
      changes.foldl (fun current change => if change.1 ≤ t then change.2 else current) current ∈
        current :: changes.map Prod.snd := by
    induction changes generalizing current with
    | nil => exact List.mem_cons_self ..
    | cons change rest ih =>
        rw [List.foldl_cons, List.map_cons]
        rcases List.mem_cons.mp (ih (if change.1 ≤ t then change.2 else current)) with h | h
        · rw [h]
          split
          · exact List.mem_cons_of_mem _ (List.mem_cons_self ..)
          · exact List.mem_cons_self ..
        · exact List.mem_cons_of_mem _ (List.mem_cons_of_mem _ h)
  exact hfold zone.changes zone.initial

theorem Zone.offset_bounded (t : Int) : -bound < zone.offset t ∧ zone.offset t < bound :=
  zone.bounded _ (zone.offset_mem t)

/-- The instants within a range that show a local time. -/
def Zone.showing (inRange : Int → Bool) (loc : Int) : List Int :=
  (zone.offsets.map fun offset => loc - offset).filter fun t =>
    inRange t && t + zone.offset t == loc

def Zone.earliest (inRange : Int → Bool) (loc : Int) : Option Int :=
  (zone.showing inRange loc).min?

theorem Zone.mem_showing (inRange : Int → Bool) (loc t : Int) :
    t ∈ zone.showing inRange loc ↔ inRange t = true ∧ t + zone.offset t = loc := by
  unfold Zone.showing
  rw [List.mem_filter, Bool.and_eq_true, beq_iff_eq]
  constructor
  · exact fun h => h.2
  · intro h
    refine ⟨List.mem_map.mpr ⟨zone.offset t, zone.offset_mem t, ?_⟩, h⟩
    omega

theorem Zone.earliest_some (inRange : Int → Bool) (loc t : Int)
    (h : zone.earliest inRange loc = some t) :
    (inRange t = true ∧ t + zone.offset t = loc) ∧
      ∀ t', inRange t' = true → t' + zone.offset t' = loc → t ≤ t' := by
  obtain ⟨hmem, hleast⟩ := List.min?_eq_some_iff.mp h
  refine ⟨(zone.mem_showing inRange loc t).mp hmem, ?_⟩
  intro t' hrange hshown
  exact hleast t' ((zone.mem_showing inRange loc t').mpr ⟨hrange, hshown⟩)

theorem Zone.earliest_none (inRange : Int → Bool) (loc : Int)
    (h : zone.earliest inRange loc = none) (t : Int) (hrange : inRange t = true) :
    t + zone.offset t ≠ loc := by
  intro hshown
  have hmem := (zone.mem_showing inRange loc t).mpr ⟨hrange, hshown⟩
  rw [List.min?_eq_none_iff.mp h] at hmem
  cases hmem

/-- A zone without changes. -/
def Zone.fixed (offset : Int) (hoffset : -bound < offset ∧ offset < bound) : Zone bound where
  initial := offset
  changes := []
  bounded := by
    intro other hother
    rwa [List.mem_singleton.mp hother]

end Runlet.LocalTime
