import Runlet.Lib.DecimalRounding
import Runlet.Core.Decimal

/-!
Conversion between major and minor units, as `decimal.rs` does it: one product
or one quotient with a power of ten, and one rounding. A product with a power of
ten is exact or out of range, and so is the quotient of a whole number, so each
direction undoes the other.
-/

namespace Runlet.DecimalOps

open DecimalFormat Text

/-- Results as numbers; the source renders them with all their digits. -/
def toMinor (lib : DecimalLib) (value : Decimal) (placesStr : String) :
    Except String Decimal := do
  let places ← minorPlaces placesStr
  let factor ← scaleFactor places
  let scaled ← okOr (lib.checkedMul value factor)
  pure (scaled.roundDp 0)

def fromMinor (lib : DecimalLib) (value : Decimal) (placesStr : String) :
    Except String Decimal := do
  let places ← minorPlaces placesStr
  let factor ← scaleFactor places
  let major ← okOr (lib.checkedDiv value factor)
  pure (major.roundDp places)

/-- A checked operation returns nothing on overflow only. -/
structure DecimalLib.Complete (lib : DecimalLib) : Prop where
  add : ∀ a b, |a.val + b.val| ≤ 79228162514264337593543950335 →
    (lib.checkedAdd a b).isSome
  sub : ∀ a b, |a.val - b.val| ≤ 79228162514264337593543950335 →
    (lib.checkedSub a b).isSome
  mul : ∀ a b, |a.val * b.val| ≤ 79228162514264337593543950335 →
    (lib.checkedMul a b).isSome
  div : ∀ a b, b.val ≠ 0 → |a.val / b.val| ≤ 79228162514264337593543950335 →
    (lib.checkedDiv a b).isSome

theorem scaleFactor_ok (places : Nat) (hplaces : places ≤ 18) :
    ∃ factor, scaleFactor places = .ok factor := by
  have hle : 10 ^ places ≤ 18446744073709551615 :=
    (Nat.pow_le_pow_right (by omega) hplaces).trans (by decide)
  unfold scaleFactor
  rw [dif_pos hle]
  exact ⟨_, rfl⟩

theorem toMinor_eq_ok_iff (lib : DecimalLib) (value minor : Decimal) (placesStr : String) :
    toMinor lib value placesStr = .ok minor ↔
      ∃ places factor, minorPlaces placesStr = .ok places ∧ scaleFactor places = .ok factor ∧
        totalMinor lib value factor = .ok minor := by
  unfold toMinor
  constructor
  · intro hok
    obtain ⟨places, hplaces, hok⟩ := (bind_eq_ok_iff _ _ _).mp hok
    obtain ⟨factor, hfactor, hok⟩ := (bind_eq_ok_iff _ _ _).mp hok
    exact ⟨places, factor, hplaces, hfactor, hok⟩
  · rintro ⟨places, factor, hplaces, hfactor, hok⟩
    apply (bind_eq_ok_iff _ _ _).mpr
    refine ⟨places, hplaces, ?_⟩
    apply (bind_eq_ok_iff _ _ _).mpr
    exact ⟨factor, hfactor, hok⟩

theorem fromMinor_eq_ok_iff (lib : DecimalLib) (value major : Decimal) (placesStr : String) :
    fromMinor lib value placesStr = .ok major ↔
      ∃ places factor quotient, minorPlaces placesStr = .ok places ∧
        scaleFactor places = .ok factor ∧ lib.checkedDiv value factor = some quotient ∧
        quotient.roundDp places = major := by
  unfold fromMinor
  constructor
  · intro hok
    obtain ⟨places, hplaces, hok⟩ := (bind_eq_ok_iff _ _ _).mp hok
    obtain ⟨factor, hfactor, hok⟩ := (bind_eq_ok_iff _ _ _).mp hok
    obtain ⟨quotient, hquotient, hok⟩ := (bind_eq_ok_iff _ _ _).mp hok
    exact ⟨places, factor, quotient, hplaces, hfactor, (okOr_eq_ok _ _).mp hquotient,
      Except.ok.inj hok⟩
  · rintro ⟨places, factor, quotient, hplaces, hfactor, hquotient, hmajor⟩
    apply (bind_eq_ok_iff _ _ _).mpr
    refine ⟨places, hplaces, ?_⟩
    apply (bind_eq_ok_iff _ _ _).mpr
    refine ⟨factor, hfactor, ?_⟩
    apply (bind_eq_ok_iff _ _ _).mpr
    exact ⟨quotient, (okOr_eq_ok _ _).mpr hquotient, congrArg Except.ok hmajor⟩

/-- What comes out is whole and half away from zero. -/
theorem toMinor_val (lib : DecimalLib) (hlib : lib.Lawful) (value minor : Decimal)
    (placesStr : String) (places : Nat) (hplaces : minorPlaces placesStr = .ok places)
    (hok : toMinor lib value placesStr = .ok minor) :
    minor.val = roundHalfAway (value.val * 10 ^ places) := by
  obtain ⟨places', factor, hplaces', hfactor, htotal⟩ := (toMinor_eq_ok_iff _ _ _ _).mp hok
  cases hplaces.symm.trans hplaces'
  exact totalMinor_val lib hlib value factor minor places (scaleFactor_val _ _ hfactor) htotal

/-- The product stays in range when it leads to a decimal. -/
theorem toMinor_ok (lib : DecimalLib) (hcomplete : lib.Complete) (value : Decimal)
    (placesStr : String) (places : Nat) (hplaces : minorPlaces placesStr = .ok places)
    (hrange : |value.val * 10 ^ places| ≤ 79228162514264337593543950335) :
    ∃ minor, toMinor lib value placesStr = .ok minor := by
  obtain ⟨factor, hfactor⟩ := scaleFactor_ok places (minorPlaces_le _ _ hplaces)
  have hsome := hcomplete.mul value factor
    (by rw [scaleFactor_val _ _ hfactor]; exact hrange)
  obtain ⟨scaled, hscaled⟩ := Option.isSome_iff_exists.mp hsome
  refine ⟨scaled.roundDp 0, (toMinor_eq_ok_iff _ _ _ _).mpr ⟨places, factor, hplaces, hfactor, ?_⟩⟩
  unfold totalMinor
  apply (bind_eq_ok_iff _ _ _).mpr
  exact ⟨scaled, (okOr_eq_ok _ _).mpr hscaled, rfl⟩

/-- A whole number is brought back to major units exactly. -/
theorem fromMinor_whole (lib : DecimalLib) (hlib : lib.Lawful) (hcomplete : lib.Complete)
    (minor : Decimal) (k : Int) (hwhole : minor.val = k) (placesStr : String) (places : Nat)
    (hplaces : minorPlaces placesStr = .ok places) :
    ∃ major, fromMinor lib minor placesStr = .ok major ∧ major.val = k / 10 ^ places := by
  have hle := minorPlaces_le _ _ hplaces
  have hpos : (0 : ℚ) < 10 ^ places := by positivity
  obtain ⟨factor, hfactor⟩ := scaleFactor_ok places hle
  have hscale := scaleFactor_val _ _ hfactor
  have hbound : |(k : ℚ)| ≤ (79228162514264337593543950335 : Nat) := by
    rw [← hwhole]
    exact minor.abs_val_le
  have hfits : k.natAbs ≤ 79228162514264337593543950335 := (natAbs_le_iff k).mpr hbound
  have hsmall : |minor.val / factor.val| ≤ 79228162514264337593543950335 := by
    rw [hscale, hwhole, abs_div, abs_of_pos hpos]
    exact (div_le_self (abs_nonneg _) (one_le_pow₀ (by norm_num))).trans hbound
  have hnonzero : factor.val ≠ 0 := by
    rw [hscale]
    exact hpos.ne'
  obtain ⟨quotient, hquotient⟩ := Option.isSome_iff_exists.mp
    (hcomplete.div minor factor hnonzero hsmall)
  have hrounds := hlib.div minor factor hnonzero
  rw [hquotient, hscale, hwhole] at hrounds
  have hexact : quotient.val = k / 10 ^ places := hrounds.scaled hfits (by omega)
  refine ⟨quotient.roundDp places, (fromMinor_eq_ok_iff _ _ _ _).mpr
    ⟨places, factor, quotient, hplaces, hfactor, hquotient, rfl⟩, ?_⟩
  have hscaled : quotient.val * 10 ^ places = (k : ℚ) := by
    rw [hexact]
    field_simp
  rw [Dec.roundDp_val, hscaled, roundHalfAway_intCast]

/-- Every count up to 18 is accepted as it is written. -/
theorem minorPlaces_toString (places : Nat) (hplaces : places ≤ 18) :
    minorPlaces (toString places) = .ok places := by
  have hall : (List.range 19).all fun p => minorPlaces (toString p) == .ok p := by
    decide +kernel
  have hrun := List.all_eq_true.mp hall places (List.mem_range.mpr (by omega))
  exact eq_of_beq hrun

/-- To minor units and back, for every text of places the source accepts, and
each count up to 18 is one. -/
theorem minor_units_round_trip (lib : DecimalLib) (hlib : lib.Lawful)
    (hcomplete : lib.Complete) (places : Nat) (hplaces : places ≤ 18) :
    (∃ factor, scaleFactor places = .ok factor ∧ factor.val = 10 ^ places) ∧
    minorPlaces (toString places) = .ok places ∧
    ∀ placesStr, minorPlaces placesStr = .ok places →
      (∀ m : Decimal, Whole m → ∃ major minor, fromMinor lib m placesStr = .ok major ∧
        toMinor lib major placesStr = .ok minor ∧ minor.val = m.val) ∧
      ∀ x minor : Decimal, toMinor lib x placesStr = .ok minor →
        ∃ major, fromMinor lib minor placesStr = .ok major ∧
          major.val = roundHalfAway (x.val * 10 ^ places) / 10 ^ places := by
  have hpos : (0 : ℚ) < 10 ^ places := by positivity
  obtain ⟨factor, hfactor⟩ := scaleFactor_ok places hplaces
  refine ⟨⟨factor, hfactor, scaleFactor_val _ _ hfactor⟩, minorPlaces_toString places hplaces,
    ?_⟩
  intro placesStr hparsed
  constructor
  · rintro m ⟨k, hk⟩
    obtain ⟨major, hmajor, hval⟩ :=
      fromMinor_whole lib hlib hcomplete m k hk placesStr places hparsed
    have hscaled : major.val * 10 ^ places = (k : ℚ) := by
      rw [hval]
      field_simp
    obtain ⟨minor, hminor⟩ := toMinor_ok lib hcomplete major placesStr places hparsed
      (by rw [hscaled, ← hk]; exact m.abs_val_le)
    refine ⟨major, minor, hmajor, hminor, ?_⟩
    rw [toMinor_val lib hlib major minor placesStr places hparsed hminor, hscaled,
      roundHalfAway_intCast, hk]
  · intro x minor hminor
    have hval := toMinor_val lib hlib x minor placesStr places hparsed hminor
    exact fromMinor_whole lib hlib hcomplete minor _ hval placesStr places hparsed

theorem nearest_isSome (q : ℚ) (hq : |q| ≤ 79228162514264337593543950335) :
    (nearest q : Option Decimal).isSome := by
  obtain ⟨d, hd⟩ : ∃ d : Decimal, nearest q = some d :=
    nearest_inRange q (hq.trans_lt (by norm_num))
  rw [hd]
  rfl

theorem sampleLib_complete : sampleLib.Complete where
  add := fun _ _ => nearest_isSome _
  sub := fun _ _ => nearest_isSome _
  mul := fun _ _ => nearest_isSome _
  div := by
    intro a b hb hrange
    have hdiv : sampleLib.checkedDiv a b = nearest (a.val / b.val) := by
      simp [sampleLib, hb]
    rw [hdiv]
    exact nearest_isSome _ hrange

/-- 1.005 at two places becomes 101 cents and 1.01. -/
theorem minor_units_round_trip_cents :
    toMinor sampleLib ⟨1005, 3, by decide, by decide⟩ "2" =
      .ok ⟨101, 0, by decide, by decide⟩ ∧
    ∃ major, fromMinor sampleLib ⟨101, 0, by decide, by decide⟩ "2" = .ok major ∧
      major.val = roundHalfAway (1005 / 10 ^ 3 * 10 ^ 2) / 10 ^ 2 := by
  have hok : toMinor sampleLib ⟨1005, 3, by decide, by decide⟩ "2" =
      .ok ⟨101, 0, by decide, by decide⟩ := by decide +kernel
  obtain ⟨major, hmajor, hval⟩ := ((minor_units_round_trip sampleLib sampleLib_lawful
    sampleLib_complete 2 (by decide)).2.2 "2" (by decide +kernel)).2 _ _ hok
  refine ⟨hok, major, hmajor, ?_⟩
  rw [hval]
  simp [Dec.val]

end Runlet.DecimalOps
