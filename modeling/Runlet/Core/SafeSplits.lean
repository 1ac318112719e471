import Runlet.Lib.DecimalRounding
import Runlet.Core.Decimal

/-!
When `allocate` returns shares that add up to the amount. Its sums, products and
quotients are each rounded to a closest decimal, and the floors are taken after that.
The shares add up exactly when, whichever closest decimals are taken, the rounding
moves the floors of the exact quotas no further than the hand-out can make good.
-/

namespace Runlet.DecimalOps

open DecimalFormat Errors Text

/-- A result the decimals have room for. -/
abbrev Ranged (q : ℚ) : Prop := InRange 79228162514264337593543950335 q

theorem ranged_val (d : Decimal) : Ranged d.val :=
  d.abs_val_le.trans_lt (lt_add_one _)

/-! ### The exact quotas -/

/-- A weight's part of the amount. -/
def exactQuota (units : Int) (weights : List Decimal) (weight : Decimal) : ℚ :=
  units * weight.val / (weights.map Dec.val).sum

/-- The units that the floors of the exact quotas leave to hand out. -/
def exactLeftover (units : Int) (weights : List Decimal) : Int :=
  units - (weights.map fun weight => ⌊exactQuota units weights weight⌋).sum

/-! ### Rounded quotas -/

/-- The running sums of decimals are in range, and the last of them is `sum`. -/
def RoundedSum (plus : RoundedOp fun a b : Decimal => a.val + b.val) :
    Decimal → List Decimal → Decimal → Prop
  | acc, [], sum => acc = sum
  | acc, value :: rest, sum =>
      Ranged (acc.val + value.val) ∧ RoundedSum plus (plus.apply acc value) rest sum

/-- One way of rounding an amount's quotas to closest decimals: the sum of the weights,
the products with the amount, the quotients. Nothing leaves the range. -/
structure Roundings (units : Int) (weights : List Decimal) where
  plus : RoundedOp fun a b : Decimal => a.val + b.val
  times : RoundedOp fun a b : Decimal => a.val * b.val
  divided : RoundedOp fun a b : Decimal => a.val / b.val
  amount : Decimal
  mantissa : amount.mantissa = units
  scale : amount.scale = 0
  sum : Decimal
  sums : RoundedSum plus zero weights sum
  positive : 0 < sum.val
  products : ∀ weight ∈ weights, Ranged (amount.val * weight.val)
  quotients : ∀ weight ∈ weights, Ranged ((times.apply amount weight).val / sum.val)
  floors : Ranged (((weights.map fun weight =>
    ⌊(divided.apply (times.apply amount weight) sum).val⌋).sum : Int) : ℚ)

section Roundings

variable {units : Int} {weights : List Decimal} (r : Roundings units weights)

def Roundings.quota (weight : Decimal) : Decimal :=
  r.divided.apply (r.times.apply r.amount weight) r.sum

/-- By how many units the rounding moves the floors of the exact quotas, all together. -/
def Roundings.moved : Int :=
  (weights.map fun weight =>
    ⌊(r.quota weight).val⌋ - ⌊exactQuota units weights weight⌋).sum

end Roundings

/-- However the quotas are rounded, their floors move up by no more units than the exact
ones leave over, and down by no more than the other weights can take. -/
def SplitsSafely (value : Decimal) (places : Nat) (weights : List Decimal) : Prop :=
  ∀ r : Roundings (minorUnits value places) weights,
    r.moved ≤ exactLeftover (minorUnits value places) weights ∧
      exactLeftover (minorUnits value places) weights - weights.length ≤ r.moved

section Roundings

variable {units : Int} {weights : List Decimal} (r : Roundings units weights)

theorem Roundings.moved_eq : r.moved = (weights.map fun weight => ⌊(r.quota weight).val⌋).sum -
    (weights.map fun weight => ⌊exactQuota units weights weight⌋).sum := by
  have hsub := Multiset.sum_map_sub (m := (weights : Multiset Decimal))
    (f := fun weight => ⌊(r.quota weight).val⌋)
    (g := fun weight => ⌊exactQuota units weights weight⌋)
  simp only [Multiset.map_coe, Multiset.sum_coe] at hsub
  exact hsub

theorem Roundings.bounds_iff (left floors : Int)
    (hleft : left = exactLeftover units weights)
    (hfloors : floors = (weights.map fun weight => ⌊(r.quota weight).val⌋).sum) :
    (r.moved ≤ left ∧ left - weights.length ≤ r.moved) ↔
      0 ≤ units - floors ∧ units - floors ≤ weights.length := by
  rw [r.moved_eq, ← hfloors, hleft, exactLeftover]
  omega

theorem Roundings.amount_val : r.amount.val = units := by
  rw [Dec.val, r.mantissa, r.scale, pow_zero, div_one]

end Roundings

/-! ### A run rounds in one of these ways -/

/-- A sum that succeeds goes through the running sums. -/
theorem roundedSum_of_ok {lib : DecimalLib} (hlib : lib.Lawful) (values : List Decimal)
    (acc sum : Decimal)
    (hok : values.foldlM (fun acc value => okOr (lib.checkedAdd acc value)) acc = .ok sum) :
    RoundedSum (.extending lib.checkedAdd hlib.add) acc values sum := by
  induction values generalizing acc with
  | nil => exact Except.ok.inj hok
  | cons value rest ih =>
      rw [List.foldlM_cons] at hok
      obtain ⟨next, hnext, hrest⟩ := (bind_eq_ok_iff _ _ _).mp hok
      have hadd := (okOr_eq_ok _ _).mp hnext
      have hrounds := hlib.add acc value
      rw [hadd] at hrounds
      refine ⟨hrounds.inRange, ?_⟩
      rw [RoundedOp.extending_apply hlib.add hadd]
      exact ih next hrest

/-- Division, nothing by zero. -/
def dividing (lib : DecimalLib) (a b : Decimal) : Option Decimal :=
  if b.val = 0 then none else lib.checkedDiv a b

theorem dividing_rounds {lib : DecimalLib} (hlib : lib.Lawful) (a b : Decimal) :
    Rounds (a.val / b.val) (dividing lib a b) := by
  unfold dividing
  split
  · constructor
    · intro d hd
      cases hd
    · exact fun _ => rfl
  · next hb => exact hlib.div a b hb

theorem quotas_of_ok {lib : DecimalLib} (hlib : lib.Lawful) (total sum : Decimal)
    (hsum : 0 < sum.val) (weights quotas : List Decimal)
    (hok : weights.mapM (roundedQuota lib total sum) = some quotas) :
    (∀ weight ∈ weights, Ranged (total.val * weight.val) ∧
      Ranged (((RoundedOp.extending lib.checkedMul hlib.mul).apply total weight).val / sum.val)) ∧
    quotas = weights.map fun weight =>
      (RoundedOp.extending (dividing lib) (dividing_rounds hlib)).apply
        ((RoundedOp.extending lib.checkedMul hlib.mul).apply total weight) sum := by
  induction weights generalizing quotas with
  | nil =>
      cases Option.some.inj hok
      exact ⟨by simp, rfl⟩
  | cons weight rest ih =>
      rw [List.mapM_cons] at hok
      obtain ⟨quota, hquota, hrest⟩ := Option.bind_eq_some_iff.mp hok
      obtain ⟨others, hothers, hsome⟩ := Option.bind_eq_some_iff.mp hrest
      cases Option.some.inj hsome
      obtain ⟨scaled, hscaled, hdiv⟩ := Option.bind_eq_some_iff.mp hquota
      have hmul := hlib.mul total weight
      rw [hscaled] at hmul
      have happly := RoundedOp.extending_apply hlib.mul hscaled
      have hdividing : dividing lib scaled sum = some quota := by
        rw [dividing, if_neg hsum.ne', hdiv]
      have hover := dividing_rounds hlib scaled sum
      rw [hdividing] at hover
      obtain ⟨hranges, heq⟩ := ih others hothers
      constructor
      · intro other hother
        rcases List.mem_cons.mp hother with rfl | hother
        · rw [happly]
          exact ⟨hmul.inRange, hover.inRange⟩
        · exact hranges other hother
      · rw [List.map_cons, happly, ← heq,
          RoundedOp.extending_apply (dividing_rounds hlib) hdividing]

theorem roundDp_zero_scale (d : Decimal) : (d.roundDp 0).scale = 0 := by
  unfold Dec.roundDp
  split
  · next hscale => exact Nat.le_zero.mp hscale
  · rfl

theorem mantissa_of_scale {d : Decimal} {k : Int} (hscale : d.scale = 0) (hval : d.val = k) :
    d.mantissa = k := by
  rw [Dec.val, hscale, pow_zero, div_one] at hval
  exact_mod_cast hval

theorem totalMinor_scale {lib : DecimalLib} {value scale total : Decimal}
    (hok : totalMinor lib value scale = .ok total) : total.scale = 0 := by
  obtain ⟨scaled, -, hrounded⟩ := (bind_eq_ok_iff _ _ _).mp hok
  rw [← Except.ok.inj hrounded]
  exact roundDp_zero_scale scaled

/-- The shares add up where every rounding is safe. -/
theorem exact_of_splitsSafely {lib : DecimalLib} (hlib : lib.Lawful) {value : Decimal}
    {placesStr weightsJson : String} {places : Nat} {weights shares : List Decimal}
    (hplaces : minorPlaces placesStr = .ok places)
    (hweights : parseWeights lib weightsJson = .ok weights)
    (hsafe : SplitsSafely value places weights)
    (hok : allocate lib value placesStr weightsJson = .ok shares) :
    shares.length = weights.length ∧
      (shares.map Dec.val).sum = minorUnits value places / 10 ^ places := by
  obtain ⟨scale, total, sum, quotas, -, htotal, hval, hsum, hpositive, hquotas, -,
    ⟨allocated, hallocated⟩, hlength, hshares⟩ := allocate_shares lib hlib value placesStr
      weightsJson places weights shares hplaces hweights hok
  obtain ⟨hranges, hquotas⟩ := quotas_of_ok hlib total sum hpositive weights quotas hquotas
  have hfloors : (quotas.map fun quota => ⌊quota.val⌋) = weights.map fun weight =>
      ⌊((RoundedOp.extending (dividing lib) (dividing_rounds hlib)).apply
        ((RoundedOp.extending lib.checkedMul hlib.mul).apply total weight) sum).val⌋ := by
    rw [hquotas, List.map_map]
    rfl
  let r : Roundings (minorUnits value places) weights :=
    { plus := .extending lib.checkedAdd hlib.add
      times := .extending lib.checkedMul hlib.mul
      divided := .extending (dividing lib) (dividing_rounds hlib)
      amount := total
      mantissa := mantissa_of_scale (totalMinor_scale htotal) hval
      scale := totalMinor_scale htotal
      sum := sum
      sums := roundedSum_of_ok hlib weights zero sum hsum
      positive := hpositive
      products := fun weight hweight => (hranges weight hweight).1
      quotients := fun weight hweight => (hranges weight hweight).2
      floors := by
        rw [← hfloors, ← hallocated]
        exact ranged_val allocated }
  refine ⟨hlength, ?_⟩
  rw [hshares, sum_eq_iff]
  apply (r.bounds_iff _ _ rfl _).mp (hsafe r)
  exact congrArg List.sum hfloors

/-! ### Each of these ways is a run -/

/-- A library that answers whenever the exact result is in range. -/
structure Answers (lib : DecimalLib) : Prop where
  add : ∀ a b, Ranged (a.val + b.val) → ∃ d, lib.checkedAdd a b = some d
  sub : ∀ a b, Ranged (a.val - b.val) → ∃ d, lib.checkedSub a b = some d
  mul : ∀ a b, Ranged (a.val * b.val) → ∃ d, lib.checkedMul a b = some d
  div : ∀ a b, b.val ≠ 0 → Ranged (a.val / b.val) → ∃ d, lib.checkedDiv a b = some d

/-- A whole result in range is what the operation gives. -/
theorem whole_answer {q : ℚ} {result : Option Decimal} {k : Int} (hrounds : Rounds q result)
    (hanswers : Ranged q → ∃ d, result = some d) (hexact : q = k) (hrange : Ranged (k : ℚ)) :
    ∃ d, result = some d ∧ d.val = k := by
  rw [hexact] at hrounds hanswers
  obtain ⟨d, hd⟩ := hanswers hrange
  rw [hd] at hrounds
  exact ⟨d, hd, hrounds.int⟩

section Answers

variable {lib : DecimalLib} (hlib : lib.Lawful) (hanswers : Answers lib)

include hlib hanswers

theorem add_whole {a b : Decimal} {k m : Int} (ha : a.val = k) (hb : b.val = m)
    (hrange : Ranged ((k + m : Int) : ℚ)) :
    ∃ d, lib.checkedAdd a b = some d ∧ d.val = ((k + m : Int) : ℚ) := by
  apply whole_answer (hlib.add a b) (hanswers.add a b) _ hrange
  rw [ha, hb]
  push_cast
  rfl

theorem sub_whole {a b : Decimal} {k m : Int} (ha : a.val = k) (hb : b.val = m)
    (hrange : Ranged ((k - m : Int) : ℚ)) :
    ∃ d, lib.checkedSub a b = some d ∧ d.val = ((k - m : Int) : ℚ) := by
  apply whole_answer (hlib.sub a b) (hanswers.sub a b) _ hrange
  rw [ha, hb]
  push_cast
  rfl

/-- Whole numbers whose running sums are in range add up. -/
theorem sumDecimals_answers (floors : List Int) (values : List Decimal) (acc : Decimal) (k : Int)
    (hacc : acc.val = k) (hvalues : List.Forall₂ (fun d m => d.val = ((m : Int) : ℚ)) values floors)
    (hrange : ∀ front, front <+: floors → Ranged ((k + front.sum : Int) : ℚ)) :
    ∃ sum, values.foldlM (fun acc value => okOr (lib.checkedAdd acc value)) acc = .ok sum ∧
      sum.val = ((k + floors.sum : Int) : ℚ) := by
  induction hvalues generalizing acc k with
  | nil => exact ⟨acc, rfl, by rw [hacc, List.sum_nil, add_zero]⟩
  | @cons value m rest floors hvalue _ ih =>
      obtain ⟨next, hnext, hval⟩ := add_whole hlib hanswers hacc hvalue (by
        have hone := hrange [m] (List.prefix_append [m] floors)
        rwa [List.sum_singleton] at hone)
      have hrest : ∀ front, front <+: floors → Ranged ((k + m + front.sum : Int) : ℚ) := by
        intro front hfront
        have hmore := hrange (m :: front) (List.prefix_cons_inj m |>.mpr hfront)
        rwa [List.sum_cons, ← add_assoc] at hmore
      obtain ⟨sum, hsum, htotal⟩ := ih next (k + m) hval hrest
      refine ⟨sum, ?_, ?_⟩
      · rw [List.foldlM_cons]
        apply (bind_eq_ok_iff _ _ _).mpr
        exact ⟨next, (okOr_eq_ok _ _).mpr hnext, hsum⟩
      · rw [htotal, List.sum_cons, add_assoc]

/-- The hand-out succeeds while no share can be raised past the largest mantissa. -/
theorem handOut_answers (order : List (Nat × Decimal)) (shares : List Decimal) (leftover : Decimal)
    (k : Int) (hleftover : leftover.val = k) (hshares : ∀ d ∈ shares, Whole d)
    (hroom : 0 < k → ∀ d ∈ shares, d.val + k ≤ 79228162514264337593543950335) :
    ∃ result, handOut lib order shares leftover = .ok result := by
  induction order generalizing shares leftover k with
  | nil => exact ⟨shares, rfl⟩
  | cons entry rest ih =>
      unfold handOut
      by_cases hnone : leftover.val ≤ 0
      · exact ⟨shares, if_pos hnone⟩
      rw [if_neg hnone]
      have hk : 0 < k := by
        rw [hleftover, not_le] at hnone
        exact_mod_cast hnone
      cases hshare : shares[entry.1]? with
      | none => exact ih shares leftover k hleftover hshares hroom
      | some share =>
          have hmem := List.mem_of_getElem? hshare
          obtain ⟨m, hm⟩ := hshares share hmem
          have hone : one.val = ((1 : Int) : ℚ) := Dec.ofInt_val 1 (by decide)
          have hsmall := hroom hk share hmem
          have hlow := (abs_le.mp share.abs_val_le).1
          have hkq : (1 : ℚ) ≤ k := by exact_mod_cast hk
          rw [hm] at hsmall hlow
          push_cast at hlow
          obtain ⟨raised, hraised, hraisedVal⟩ := add_whole hlib hanswers hm hone (by
            rw [Ranged, InRange, abs_lt]
            push_cast
            constructor <;> linarith)
          have hleft := abs_le.mp leftover.abs_val_le
          rw [hleftover] at hleft
          push_cast at hleft
          obtain ⟨remaining, hremaining, hremainingVal⟩ := sub_whole hlib hanswers hleftover hone (by
            rw [Ranged, InRange, abs_lt]
            push_cast
            constructor <;> linarith)
          have hwhole : ∀ d ∈ shares.set entry.1 raised, Whole d := by
            intro d hd
            rcases List.mem_or_eq_of_mem_set hd with hold | rfl
            · exact hshares d hold
            · exact ⟨m + 1, hraisedVal⟩
          have hmore : 0 < k - 1 → ∀ d ∈ shares.set entry.1 raised,
              d.val + (k - 1 : Int) ≤ 79228162514264337593543950335 := by
            intro _ d hd
            rcases List.mem_or_eq_of_mem_set hd with hold | rfl
            · have hold := hroom hk d hold
              push_cast
              linarith
            · rw [hraisedVal]
              push_cast
              linarith
          obtain ⟨result, hresult⟩ :=
            ih (shares.set entry.1 raised) remaining (k - 1) hremainingVal hwhole hmore
          refine ⟨result, ?_⟩
          apply (bind_eq_ok_iff _ _ _).mpr
          refine ⟨raised, (okOr_eq_ok _ _).mpr hraised, ?_⟩
          apply (bind_eq_ok_iff _ _ _).mpr
          exact ⟨remaining, (okOr_eq_ok _ _).mpr hremaining, hresult⟩

omit hlib in
theorem minorToMajor_answers (scale : Decimal) (places : Nat) (hscale : scale.val = 10 ^ places)
    (minors : List Decimal) :
    ∃ majors, minors.mapM (minorToMajor lib scale places) = .ok majors := by
  induction minors with
  | nil => exact ⟨[], rfl⟩
  | cons minor rest ih =>
      obtain ⟨others, hothers⟩ := ih
      have hpower : (1 : ℚ) ≤ 10 ^ places := one_le_pow₀ (by norm_num)
      have hpositive : (0 : ℚ) < 10 ^ places := by positivity
      obtain ⟨quotient, hquotient⟩ := hanswers.div minor scale (by rw [hscale]; positivity) (by
        rw [hscale, Ranged, InRange, abs_div, abs_of_pos hpositive]
        exact (div_le_self (abs_nonneg _) hpower).trans_lt (ranged_val minor))
      refine ⟨quotient.rescale places :: others, ?_⟩
      rw [List.mapM_cons]
      apply (bind_eq_ok_iff _ _ _).mpr
      refine ⟨quotient.rescale places, ?_, (bind_eq_ok_iff _ _ _).mpr ⟨others, hothers, rfl⟩⟩
      apply (bind_eq_ok_iff _ _ _).mpr
      exact ⟨quotient, (okOr_eq_ok _ _).mpr hquotient, rfl⟩

omit hlib in
theorem floorShares_answers (total sum : Decimal) (quota : Decimal → Decimal)
    (weights : List Decimal)
    (hquotas : ∀ weight ∈ weights, roundedQuota lib total sum weight = some (quota weight)) :
    ∃ remainders, floorShares lib total sum weights =
      .ok ((weights.map quota).map Dec.floor, remainders) := by
  induction weights with
  | nil => exact ⟨[], rfl⟩
  | cons weight rest ih =>
      obtain ⟨others, hothers⟩ := ih fun other hother =>
        hquotas other (List.mem_cons_of_mem weight hother)
      have hlow := Int.floor_le (quota weight).val
      have hhigh := Int.lt_floor_add_one (quota weight).val
      obtain ⟨remainder, hremainder⟩ :=
        hanswers.sub (quota weight) (quota weight).floor (by
          rw [Dec.floor_val, Ranged, InRange, abs_lt]
          push_cast
          constructor <;> linarith)
      refine ⟨remainder :: others, ?_⟩
      unfold floorShares
      apply (bind_eq_ok_iff _ _ _).mpr
      refine ⟨quota weight, (okOr_eq_ok _ _).mpr (hquotas weight List.mem_cons_self), ?_⟩
      apply (bind_eq_ok_iff _ _ _).mpr
      refine ⟨remainder, (okOr_eq_ok _ _).mpr hremainder, ?_⟩
      apply (bind_eq_ok_iff _ _ _).mpr
      exact ⟨_, hothers, rfl⟩

end Answers

/-- The library that rounds so. -/
def Roundings.lib {units : Int} {weights : List Decimal} (r : Roundings units weights)
    (parser : DecimalLib) : DecimalLib :=
  { parser with
    checkedAdd := r.plus.checked
    checkedSub := fun a b => nearest (a.val - b.val)
    checkedMul := r.times.checked
    checkedDiv := fun a b => if b.val = 0 then none else r.divided.checked a b }

section Roundings

variable {units : Int} {weights : List Decimal} (r : Roundings units weights)
  (parser : DecimalLib)

theorem Roundings.lib_lawful : (r.lib parser).Lawful where
  add := r.plus.checked_rounds
  sub := fun _ _ => nearest_rounds _
  mul := r.times.checked_rounds
  div := by
    intro a b hb
    have hdiv : (r.lib parser).checkedDiv a b = r.divided.checked a b := if_neg hb
    rw [hdiv]
    exact r.divided.checked_rounds a b

theorem Roundings.lib_answers : Answers (r.lib parser) where
  add := fun _ _ h => ⟨_, r.plus.checked_eq h⟩
  sub := fun _ _ h => nearest_inRange _ h
  mul := fun _ _ h => ⟨_, r.times.checked_eq h⟩
  div := by
    intro a b hb h
    have hdiv : (r.lib parser).checkedDiv a b = r.divided.checked a b := if_neg hb
    rw [hdiv]
    exact ⟨_, r.divided.checked_eq h⟩

theorem Roundings.lib_sum : sumDecimals (r.lib parser) weights = .ok r.sum := by
  have hrun (acc : Decimal) (values : List Decimal) (h : RoundedSum r.plus acc values r.sum) :
      values.foldlM (fun acc value => okOr ((r.lib parser).checkedAdd acc value)) acc =
        .ok r.sum := by
    induction values generalizing acc with
    | nil => exact congrArg Except.ok h
    | cons value rest ih =>
        obtain ⟨hrange, hrest⟩ := h
        rw [List.foldlM_cons]
        apply (bind_eq_ok_iff _ _ _).mpr
        exact ⟨_, (okOr_eq_ok _ _).mpr (r.plus.checked_eq hrange), ih _ hrest⟩
  exact hrun zero weights r.sums

theorem Roundings.lib_quota (weight : Decimal) (hweight : weight ∈ weights) :
    roundedQuota (r.lib parser) r.amount r.sum weight = some (r.quota weight) := by
  apply Option.bind_eq_some_iff.mpr
  refine ⟨_, r.times.checked_eq (r.products weight hweight), ?_⟩
  have hdiv : (r.lib parser).checkedDiv (r.times.apply r.amount weight) r.sum =
      r.divided.checked (r.times.apply r.amount weight) r.sum := if_neg r.positive.ne'
  rw [hdiv]
  exact r.divided.checked_eq (r.quotients weight hweight)

/-! ### Quotas have the sign of the amount -/

theorem nonneg_of_closest {q : ℚ} {d : Decimal} (hclose : Closest q d) (hrange : Ranged q)
    (hq : 0 ≤ q) : 0 ≤ d.val := by
  have hzero := int_le_of_closest q d hclose (abs_lt.mp hrange).2 0 (by exact_mod_cast hq)
  exact_mod_cast hzero

theorem nonpos_of_closest {q : ℚ} {d : Decimal} (hclose : Closest q d) (hrange : Ranged q)
    (hq : q ≤ 0) : d.val ≤ 0 := by
  have hzero := le_int_of_closest q d hclose (abs_lt.mp hrange).1 0 (by exact_mod_cast hq)
  exact_mod_cast hzero

theorem Roundings.floor_nonneg (hunits : 0 ≤ units) (weight : Decimal)
    (hweight : weight ∈ weights) (hnonneg : 0 ≤ weight.val) : 0 ≤ ⌊(r.quota weight).val⌋ := by
  have hproduct : 0 ≤ r.amount.val * weight.val := by
    rw [r.amount_val]
    exact mul_nonneg (by exact_mod_cast hunits) hnonneg
  have hscaled := nonneg_of_closest (r.times.closest _ _) (r.products weight hweight) hproduct
  have hquotient := div_nonneg hscaled r.positive.le
  exact Int.floor_nonneg.mpr
    (nonneg_of_closest (r.divided.closest _ _) (r.quotients weight hweight) hquotient)

theorem Roundings.floor_nonpos (hunits : units ≤ 0) (weight : Decimal)
    (hweight : weight ∈ weights) (hnonneg : 0 ≤ weight.val) : ⌊(r.quota weight).val⌋ ≤ 0 := by
  have hproduct : r.amount.val * weight.val ≤ 0 := by
    rw [r.amount_val]
    exact mul_nonpos_of_nonpos_of_nonneg (by exact_mod_cast hunits) hnonneg
  have hscaled := nonpos_of_closest (r.times.closest _ _) (r.products weight hweight) hproduct
  have hquotient := div_nonpos_of_nonpos_of_nonneg hscaled r.positive.le
  have hquota := nonpos_of_closest (r.divided.closest _ _) (r.quotients weight hweight) hquotient
  have hfloor := (Int.floor_le (r.quota weight).val).trans hquota
  exact_mod_cast hfloor

/-- The floors of the quotas, and their sum with its bound. -/
theorem Roundings.floors_sign (hnonneg : ∀ weight ∈ weights, 0 ≤ weight.val) :
    (0 ≤ units ∧ ∀ m ∈ weights.map fun weight => ⌊(r.quota weight).val⌋, 0 ≤ m) ∨
    (units ≤ 0 ∧ ∀ m ∈ weights.map fun weight => ⌊(r.quota weight).val⌋, m ≤ 0) := by
  rcases le_total 0 units with hunits | hunits
  · left
    refine ⟨hunits, ?_⟩
    intro m hm
    obtain ⟨weight, hweight, rfl⟩ := List.mem_map.mp hm
    exact r.floor_nonneg hunits weight hweight (hnonneg weight hweight)
  · right
    refine ⟨hunits, ?_⟩
    intro m hm
    obtain ⟨weight, hweight, rfl⟩ := List.mem_map.mp hm
    exact r.floor_nonpos hunits weight hweight (hnonneg weight hweight)

end Roundings

theorem ranged_int {k : Int} (h : Ranged (k : ℚ)) :
    -79228162514264337593543950335 ≤ k ∧ k ≤ 79228162514264337593543950335 := by
  obtain ⟨hlow, hhigh⟩ := abs_lt.mp h
  push_cast at hlow hhigh
  have hlow : -79228162514264337593543950336 < k := by
    have hcast : ((-79228162514264337593543950336 : Int) : ℚ) < k := by
      push_cast
      linarith
    exact_mod_cast hcast
  have hhigh : k < 79228162514264337593543950336 := by
    have hcast : (k : ℚ) < ((79228162514264337593543950336 : Int) : ℚ) := by
      push_cast
      linarith
    exact_mod_cast hcast
  omega

theorem ranged_of_int {k : Int} (hlow : -79228162514264337593543950335 ≤ k)
    (hhigh : k ≤ 79228162514264337593543950335) : Ranged (k : ℚ) := by
  have hlow : ((-79228162514264337593543950335 : Int) : ℚ) ≤ k := Int.cast_le.mpr hlow
  have hhigh : (k : ℚ) ≤ ((79228162514264337593543950335 : Int) : ℚ) := Int.cast_le.mpr hhigh
  push_cast at hlow hhigh
  rw [Ranged, InRange, abs_lt]
  push_cast
  constructor <;> linarith

/-- The running sums of numbers of one sign stay within the last. -/
theorem prefix_ranged (floors : List Int)
    (hsign : (∀ m ∈ floors, 0 ≤ m) ∨ ∀ m ∈ floors, m ≤ 0) (htotal : Ranged (floors.sum : ℚ))
    (front : List Int) (hfront : front <+: floors) : Ranged ((0 + front.sum : Int) : ℚ) := by
  obtain ⟨rest, rfl⟩ := hfront
  obtain ⟨hlow, hhigh⟩ := ranged_int htotal
  rw [List.sum_append] at hlow hhigh
  rw [zero_add]
  rcases hsign with hsign | hsign
  · have hfront : 0 ≤ front.sum :=
      List.sum_nonneg fun m hm => hsign m (List.mem_append_left rest hm)
    have hrest : 0 ≤ rest.sum :=
      List.sum_nonneg fun m hm => hsign m (List.mem_append_right front hm)
    exact ranged_of_int (by omega) (by omega)
  · have hnonpos (part : List Int) (hpart : ∀ m ∈ part, m ≤ 0) : part.sum ≤ 0 := by
      have hle := List.sum_le_card_nsmul part 0 hpart
      rwa [nsmul_zero] at hle
    have hfront := hnonpos front fun m hm => hsign m (List.mem_append_left rest hm)
    have hrest := hnonpos rest fun m hm => hsign m (List.mem_append_right front hm)
    exact ranged_of_int (by omega) (by omega)

/-- The hand-out of a run that rounds so succeeds. -/
theorem Roundings.distributes {units : Int} {weights : List Decimal} (r : Roundings units weights)
    (parser : DecimalLib) (hnonneg : ∀ weight ∈ weights, 0 ≤ weight.val)
    (remainders : List Decimal) :
    ∃ shares, distributeLeftover (r.lib parser) r.amount
      ((weights.map r.quota).map Dec.floor) remainders = .ok shares := by
  have hlib := r.lib_lawful parser
  have hanswers := r.lib_answers parser
  generalize hfloors : (weights.map fun weight => ⌊(r.quota weight).val⌋) = floors
  have hranged : Ranged (floors.sum : ℚ) := hfloors ▸ r.floors
  have hsigns := hfloors ▸ r.floors_sign hnonneg
  have hvals : List.Forall₂ (fun (d : Decimal) (m : Int) => d.val = ((m : Int) : ℚ))
      ((weights.map r.quota).map Dec.floor) floors := by
    rw [← hfloors, List.map_map, List.forall₂_map_left_iff, List.forall₂_map_right_iff,
      List.forall₂_same]
    exact fun weight _ => Dec.floor_val (r.quota weight)
  have hzero : zero.val = ((0 : Int) : ℚ) := Dec.ofInt_val 0 (by decide)
  obtain ⟨allocated, hallocated, hsum⟩ := sumDecimals_answers hlib hanswers floors _ zero 0 hzero
    hvals (prefix_ranged floors (hsigns.imp And.right And.right) hranged)
  rw [zero_add] at hsum
  obtain ⟨hlow, hhigh⟩ := ranged_int hranged
  have hamount : Ranged (units : ℚ) := r.amount_val ▸ ranged_val r.amount
  obtain ⟨hunitsLow, hunitsHigh⟩ := ranged_int hamount
  have hleftoverRange : -79228162514264337593543950335 ≤ units - floors.sum ∧
      units - floors.sum ≤ 79228162514264337593543950335 := by
    rcases hsigns with ⟨hunits, hall⟩ | ⟨hunits, hall⟩
    · have := List.sum_nonneg hall
      omega
    · have hle := List.sum_le_card_nsmul floors 0 hall
      rw [nsmul_zero] at hle
      omega
  obtain ⟨leftover, hleftover, hleftoverVal⟩ := sub_whole hlib hanswers r.amount_val hsum
    (ranged_of_int hleftoverRange.1 hleftoverRange.2)
  have hwhole : ∀ d ∈ (weights.map r.quota).map Dec.floor, Whole d := by
    intro d hd
    obtain ⟨quota, -, rfl⟩ := List.mem_map.mp hd
    exact floor_whole quota
  have hroom : 0 < units - floors.sum → ∀ d ∈ (weights.map r.quota).map Dec.floor,
      d.val + (units - floors.sum : Int) ≤ 79228162514264337593543950335 := by
    intro _ d hd
    obtain ⟨quota, hquota, rfl⟩ := List.mem_map.mp hd
    obtain ⟨weight, hweight, rfl⟩ := List.mem_map.mp hquota
    have hmem : ⌊(r.quota weight).val⌋ ∈ floors := by
      rw [← hfloors]
      exact List.mem_map_of_mem hweight
    rw [Dec.floor_val, ← Int.cast_add]
    have hle : ⌊(r.quota weight).val⌋ + (units - floors.sum) ≤ 79228162514264337593543950335 := by
      rcases hsigns with ⟨hunits, hall⟩ | ⟨hunits, hall⟩
      · have := List.single_le_sum hall _ hmem
        omega
      · have := hall _ hmem
        omega
    exact_mod_cast hle
  obtain ⟨shares, hshares⟩ := handOut_answers hlib hanswers (handOutOrder remainders) _ leftover
    _ hleftoverVal hwhole hroom
  refine ⟨shares, ?_⟩
  unfold distributeLeftover
  apply (bind_eq_ok_iff _ _ _).mpr
  refine ⟨allocated, hallocated, ?_⟩
  apply (bind_eq_ok_iff _ _ _).mpr
  exact ⟨leftover, (okOr_eq_ok _ _).mpr hleftover, hshares⟩

/-- The amount in minor units is found without rounding on the way. -/
theorem totalMinor_answers {lib : DecimalLib} (hlib : lib.Lawful) (hanswers : Answers lib)
    {value scale amount : Decimal} {places : Nat} (hscale : scale.val = 10 ^ places)
    (hmantissa : amount.mantissa = minorUnits value places) (hzero : amount.scale = 0) :
    totalMinor lib value scale = .ok amount := by
  have hrange : Ranged (value.val * scale.val) := by
    rw [hscale]
    by_cases hplaces : value.scale ≤ places
    · have hexact := value.val_mul_pow places hplaces
      have hunits : minorUnits value places = value.mantissa * 10 ^ (places - value.scale) := by
        rw [minorUnits, hexact, roundHalfAway_intCast]
      rw [hexact, ← hunits, ← hmantissa]
      have hamount := ranged_val amount
      rwa [Dec.val, hzero, pow_zero, div_one] at hamount
    · exact (scaled_abs_le value places (by omega)).trans_lt (lt_add_one _)
  obtain ⟨scaled, hscaled⟩ := hanswers.mul value scale hrange
  have htotal : totalMinor lib value scale = .ok (scaled.roundDp 0) := by
    apply (bind_eq_ok_iff _ _ _).mpr
    exact ⟨scaled, (okOr_eq_ok _ _).mpr hscaled, rfl⟩
  have hval := totalMinor_val lib hlib value scale _ places hscale htotal
  have hsame := mantissa_of_scale (roundDp_zero_scale scaled) hval
  rw [htotal]
  have hrounded := roundDp_zero_scale scaled
  generalize scaled.roundDp 0 = total at hsame hrounded
  obtain ⟨mantissa, exponent, hfits, hle⟩ := total
  obtain ⟨mantissa', exponent', hfits', hle'⟩ := amount
  simp only at hmantissa hzero hsame hrounded
  subst hrounded hzero
  cases hsame.trans hmantissa.symm
  rfl

/-- Where the shares of every run add up, every rounding is safe. -/
theorem splitsSafely_of_exact {parser : DecimalLib} {value : Decimal}
    {placesStr weightsJson : String} {places : Nat} {weights : List Decimal}
    (hplaces : minorPlaces placesStr = .ok places)
    (hweights : parseWeights parser weightsJson = .ok weights)
    (hexact : ∀ lib : DecimalLib, lib.Lawful → parseWeights lib weightsJson = .ok weights →
      ∀ shares, allocate lib value placesStr weightsJson = .ok shares →
        (shares.map Dec.val).sum = minorUnits value places / 10 ^ places) :
    SplitsSafely value places weights := by
  intro r
  have hle := minorPlaces_le placesStr places hplaces
  obtain ⟨scale, hscale⟩ : ∃ scale, scaleFactor places = .ok scale := by
    have hfits : 10 ^ places ≤ 18446744073709551615 := by
      calc
        10 ^ places ≤ 10 ^ 18 := Nat.pow_le_pow_right (by decide) hle
        _ ≤ 18446744073709551615 := by decide
    exact ⟨_, dif_pos hfits⟩
  have hscaleVal := scaleFactor_val places scale hscale
  have hnonneg := parseWeights_nonneg parser weightsJson weights hweights
  have hlib := r.lib_lawful parser
  have hanswers := r.lib_answers parser
  have htotal := totalMinor_answers hlib hanswers hscaleVal r.mantissa r.scale
  obtain ⟨remainders, hfloors⟩ := floorShares_answers hanswers r.amount r.sum r.quota weights
    (r.lib_quota parser)
  obtain ⟨minors, hminors⟩ := r.distributes parser hnonneg remainders
  obtain ⟨shares, hshares⟩ := minorToMajor_answers hanswers scale places hscaleVal minors
  have hok : allocate (r.lib parser) value placesStr weightsJson = .ok shares := by
    unfold allocate
    have hparsed : parseWeights (r.lib parser) weightsJson = .ok weights := hweights
    simp only [hplaces, hscale, htotal, hparsed, r.lib_sum parser, bind, Except.bind,
      not_le.mpr r.positive, if_false, hfloors, hminors, hshares]
  obtain ⟨scale', total, sum, quotas, hscale', htotal', -, hsum, -, hquotas, -, -, -, hsums⟩ :=
    allocate_shares _ hlib value placesStr weightsJson places weights shares hplaces hweights hok
  cases hscale.symm.trans hscale'
  cases htotal.symm.trans htotal'
  cases (r.lib_sum parser).symm.trans hsum
  have hsame : quotas = weights.map r.quota := by
    have hmapM (part : List Decimal) (hpart : ∀ weight ∈ part, weight ∈ weights) :
        part.mapM (roundedQuota (r.lib parser) r.amount r.sum) = some (part.map r.quota) := by
      induction part with
      | nil => rfl
      | cons weight rest ih =>
          rw [List.mapM_cons, r.lib_quota parser weight (hpart weight List.mem_cons_self),
            ih fun other hother => hpart other (List.mem_cons_of_mem weight hother)]
          rfl
    exact Option.some.inj (hquotas.symm.trans (hmapM weights fun _ h => h))
  have hfit := hexact _ hlib hweights shares hok
  rw [hsums, sum_eq_iff] at hfit
  apply (r.bounds_iff _ _ rfl _).mpr hfit
  rw [hsame, List.map_map]
  rfl

/-- Over the libraries that keep the contract: a successful allocation returns one share
for each weight, and they add up to the rounded amount, exactly when it splits safely. -/
theorem allocate_exact_iff (parser : DecimalLib) (value : Decimal)
    (placesStr weightsJson : String) (places : Nat) (weights : List Decimal)
    (hplaces : minorPlaces placesStr = .ok places)
    (hweights : parseWeights parser weightsJson = .ok weights) :
    (∀ lib : DecimalLib, lib.Lawful → parseWeights lib weightsJson = .ok weights →
      ∀ shares, allocate lib value placesStr weightsJson = .ok shares →
        shares.length = weights.length ∧
          (shares.map Dec.val).sum = minorUnits value places / 10 ^ places) ↔
    SplitsSafely value places weights := by
  constructor
  · intro hexact
    apply splitsSafely_of_exact hplaces hweights
    exact fun lib hlib hparse shares hok => (hexact lib hlib hparse shares hok).2
  · intro hsafe lib hlib hparse shares hok
    exact exact_of_splitsSafely hlib hplaces hparse hsafe hok

/-- Ten dollars in three: one share gets the odd cent. -/
theorem allocate_exact_iff_thirds :
    allocate sampleLib tenDollars "2" "[1,1,1]" =
      .ok [⟨334, 2, by decide, by decide⟩, ⟨333, 2, by decide, by decide⟩,
        ⟨333, 2, by decide, by decide⟩] ∧
    SplitsSafely tenDollars 2 [one, one, one] := by
  refine ⟨by decide +kernel, ?_⟩
  apply (allocate_exact_iff sampleLib tenDollars "2" "[1,1,1]" 2 [one, one, one]
    (by decide +kernel) (by decide +kernel)).mp
  intro lib hlib hparse shares hok
  apply allocate_exact_of_whole_weights lib hlib tenDollars "2" "[1,1,1]" 2 [one, one, one]
    shares (by decide +kernel) hparse hok _ 2 (by decide) (by decide +kernel) (by decide)
  intro weight hweight
  have hone : weight = one := by simpa using hweight
  exact ⟨1, by rw [hone]; exact Dec.ofInt_val 1 (by decide)⟩

/-- A value a few units below the largest mantissa. -/
def nearLimit : Decimal := ⟨79228162514264337593543950322, 0, by decide, by decide⟩

/-- Each of the three products is rounded up to a whole number, so the floors
already exceed the amount by one unit. -/
theorem allocate_exceeds_amount :
    sampleLib.Lawful ∧
    ((allocate sampleLib nearLimit "0" "[0.3,0.3,0.4]").toOption.map fun shares =>
      (shares.map Dec.val).sum) = some 79228162514264337593543950323 ∧
    (minorUnits nearLimit 0 : ℚ) / 10 ^ 0 = 79228162514264337593543950322 :=
  ⟨sampleLib_lawful, by decide +kernel, by decide +kernel⟩

end Runlet.DecimalOps
