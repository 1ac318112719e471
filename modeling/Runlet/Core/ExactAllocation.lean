import Mathlib.Algebra.BigOperators.Field
import Mathlib.Algebra.BigOperators.Fin
import Mathlib.Data.List.NodupEquivFin
import Runlet.Lib.Apportionment
import Runlet.Core.Decimal

/-!
`allocate` with the decimal operations read as exact arithmetic on rational
numbers: nothing is rounded by an operation and nothing overflows. Read that
way it apportions the amount by largest remainders. A run of the model with
bounded decimals whose operations are all exact returns the same shares.
-/

namespace Runlet.DecimalOps.Exact

open DecimalFormat Errors Text Apportionment

/-! ### The steps over rational numbers -/

def floorShares (totalMinor sumWeights : ℚ) : List ℚ → List ℚ × List ℚ
  | [] => ([], [])
  | weight :: rest =>
      let exact := totalMinor * weight / sumWeights
      let (shares, remainders) := floorShares totalMinor sumWeights rest
      ((⌊exact⌋ : ℚ) :: shares, (exact - ⌊exact⌋) :: remainders)

/-- Larger remainder first, ties by ascending index. -/
def handedBefore (left right : Nat × ℚ) : Prop :=
  right.2 < left.2 ∨ (right.2 = left.2 ∧ left.1 ≤ right.1)

instance : DecidableRel handedBefore := fun left right =>
  inferInstanceAs (Decidable (right.2 < left.2 ∨ (right.2 = left.2 ∧ left.1 ≤ right.1)))

def handOutOrder (remainders : List ℚ) : List (Nat × ℚ) :=
  (remainders.zipIdx.map fun entry => (entry.2, entry.1)).insertionSort handedBefore

def handOut : List (Nat × ℚ) → List ℚ → ℚ → List ℚ
  | [], shares, _ => shares
  | (index, _) :: rest, shares, leftover =>
      if leftover ≤ 0 then shares
      else
        match shares[index]? with
        | none => handOut rest shares leftover
        | some share => handOut rest (shares.set index (share + 1)) (leftover - 1)

def distributeLeftover (totalMinor : ℚ) (shares remainders : List ℚ) : List ℚ :=
  handOut (handOutOrder remainders) shares (totalMinor - shares.sum)

/-- Back to major units, with at most `places` digits. -/
def minorToMajor (scale : ℚ) (places : Nat) (minor : ℚ) : ℚ :=
  roundHalfAway (minor / scale * 10 ^ places) / 10 ^ places

def allocate (lib : DecimalLib) (value : Decimal) (placesStr weightsJson : String) :
    Except String (List ℚ) := do
  let places ← minorPlaces placesStr
  let scale ← scaleFactor places
  let total : ℚ := roundHalfAway (value.val * scale.val)
  let weights ← parseWeights lib weightsJson
  let sumWeights := (weights.map Dec.val).sum
  if sumWeights ≤ 0 then
    .error "allocation weights must sum to a positive value"
  else
    let (floors, remainders) := floorShares total sumWeights (weights.map Dec.val)
    let shares := distributeLeftover total floors remainders
    pure (shares.map (minorToMajor scale.val places))

/-! ### What the steps compute -/

theorem floorShares_eq (totalMinor sumWeights : ℚ) (weights : List ℚ) :
    floorShares totalMinor sumWeights weights =
      (weights.map fun weight => (⌊totalMinor * weight / sumWeights⌋ : ℚ),
        weights.map fun weight => Int.fract (totalMinor * weight / sumWeights)) := by
  induction weights with
  | nil => rfl
  | cons weight rest ih =>
      simp only [floorShares, ih, List.map_cons]
      rfl

/-- The loop raises the shares of the first entries, as many as there are
units. -/
theorem handOut_getElem? (order : List (Nat × ℚ)) (shares : List ℚ) (units : Nat)
    (hunits : units ≤ order.length) (hnodup : (order.map Prod.fst).Nodup)
    (hrange : ∀ entry ∈ order, entry.1 < shares.length) (position : Nat) :
    (handOut order shares units)[position]? = shares[position]?.map fun share =>
      share + if position ∈ (order.map Prod.fst).take units then 1 else 0 := by
  induction order generalizing shares units with
  | nil =>
      have hzero : units = 0 := by simpa using hunits
      simp [handOut, hzero]
  | cons entry rest ih =>
      obtain ⟨index, remainder⟩ := entry
      cases units with
      | zero => simp [handOut]
      | succ units =>
          have hindex : index < shares.length := hrange (index, remainder) List.mem_cons_self
          have hpositive : ¬ ((units + 1 : Nat) : ℚ) ≤ 0 := by
            rw [not_le]
            positivity
          have hless : ((units + 1 : Nat) : ℚ) - 1 = (units : Nat) := by
            push_cast
            ring
          obtain ⟨hfresh, hrest⟩ := List.nodup_cons.mp hnodup
          have hbehind : index ∉ (rest.map Prod.fst).take units :=
            fun hmem => hfresh (List.mem_of_mem_take hmem)
          have hstep := ih (shares.set index (shares[index] + 1)) units (by simpa using hunits)
            hrest (by
              intro other hother
              rw [List.length_set]
              exact hrange other (List.mem_cons_of_mem _ hother))
          simp only [handOut, if_neg hpositive, List.getElem?_eq_getElem hindex, hless, hstep]
          by_cases hposition : position = index
          · subst hposition
            simp [hindex, hbehind]
          · have hne : index ≠ position := fun heq => hposition heq.symm
            simp [List.getElem?_set_ne hne, hposition]

theorem handOutOrder_perm (remainders : List ℚ) :
    (handOutOrder remainders).Perm (remainders.zipIdx.map fun entry => (entry.2, entry.1)) :=
  List.perm_insertionSort handedBefore _

theorem handOutOrder_indices (remainders : List ℚ) :
    ((handOutOrder remainders).map Prod.fst).Perm (List.range remainders.length) := by
  have hfst : (remainders.zipIdx.map fun entry => (entry.2, entry.1)).map Prod.fst =
      List.range remainders.length := by
    rw [List.map_map, List.range_eq_range', ← List.zipIdx_map_snd]
    rfl
  rw [← hfst]
  exact (handOutOrder_perm remainders).map Prod.fst

theorem mem_handOutOrder (remainders : List ℚ) (entry : Nat × ℚ) :
    entry ∈ handOutOrder remainders ↔ remainders[entry.1]? = some entry.2 := by
  rw [(handOutOrder_perm remainders).mem_iff]
  constructor
  · intro hmem
    obtain ⟨source, hsource, rfl⟩ := List.mem_map.mp hmem
    exact List.mk_mem_zipIdx_iff_getElem?.mp hsource
  · intro hsome
    exact List.mem_map.mpr ⟨(entry.2, entry.1), List.mk_mem_zipIdx_iff_getElem?.mpr hsome, rfl⟩

instance : Std.Total handedBefore := ⟨by
  intro left right
  unfold handedBefore
  rcases lt_trichotomy left.2 right.2 with hless | hsame | hmore
  · exact .inr (.inl hless)
  · rcases le_total left.1 right.1 with hle | hle
    · exact .inl (.inr ⟨hsame.symm, hle⟩)
    · exact .inr (.inr ⟨hsame, hle⟩)
  · exact .inl (.inl hmore)⟩

instance : IsTrans (Nat × ℚ) handedBefore := ⟨by
  intro first second third hfirst hsecond
  unfold handedBefore at *
  rcases hfirst with hless | ⟨hsame, hle⟩
  · rcases hsecond with hless' | ⟨hsame', -⟩
    · exact .inl (hless'.trans hless)
    · exact .inl (hsame' ▸ hless)
  · rcases hsecond with hless' | ⟨hsame', hle'⟩
    · exact .inl (hsame ▸ hless')
    · exact .inr ⟨hsame'.trans hsame, hle.trans hle'⟩⟩

/-- The entries in front go first. -/
theorem handOutOrder_ahead (remainders : List ℚ) (units : Nat) (first second : Nat × ℚ)
    (hfirst : first ∈ (handOutOrder remainders).take units)
    (hsecond : second ∈ (handOutOrder remainders).drop units) : handedBefore first second := by
  have hsorted : (handOutOrder remainders).Pairwise handedBefore :=
    List.pairwise_insertionSort handedBefore _
  rw [← List.take_append_drop units (handOutOrder remainders), List.pairwise_append] at hsorted
  exact hsorted.2.2 first hfirst second hsecond

/-! ### Largest remainders -/

/-- The exact share of each weight, in minor units. -/
def quota (total : Int) (weights : List ℚ) (i : Fin weights.length) : ℚ :=
  total * weights[i] / weights.sum

theorem sum_quota (total : Int) (weights : List ℚ) (hsum : weights.sum ≠ 0) :
    ∑ i, quota total weights i = total := by
  have hweights : ∑ i : Fin weights.length, weights[i] = weights.sum :=
    Fin.sum_univ_getElem weights
  unfold quota
  rw [← Finset.sum_div, ← Finset.mul_sum, hweights, mul_div_assoc, div_self hsum, mul_one]

theorem sum_floors (total : Int) (weights : List ℚ) :
    (weights.map fun weight => (⌊(total : ℚ) * weight / weights.sum⌋ : ℚ)).sum =
      ((∑ i, ⌊quota total weights i⌋ : Int) : ℚ) := by
  rw [← Fin.sum_univ_fun_getElem, Int.cast_sum]
  rfl

/-- The first entries of the order, as shares. -/
def raised (total : Int) (weights : List ℚ) : Finset (Fin weights.length) :=
  Finset.univ.filter fun i => i.val ∈ ((handOutOrder (weights.map fun weight =>
    Int.fract ((total : ℚ) * weight / weights.sum))).map Prod.fst).take
      (leftover (quota total weights) total).toNat

theorem card_raised (total : Int) (weights : List ℚ) (hsum : weights.sum ≠ 0) :
    ((raised total weights).card : Int) = leftover (quota total weights) total := by
  obtain ⟨hnonneg, hle⟩ := leftover_bounds (quota total weights) total
    (sum_quota total weights hsum)
  rw [Fintype.card_fin] at hle
  generalize hremainders : (weights.map fun weight =>
    Int.fract ((total : ℚ) * weight / weights.sum)) = remainders
  have hlength : remainders.length = weights.length := by
    rw [← hremainders, List.length_map]
  have hindices := handOutOrder_indices remainders
  have hnodup : ((handOutOrder remainders).map Prod.fst).Nodup :=
    hindices.nodup_iff.mpr List.nodup_range
  have himage : (raised total weights).image Fin.val =
      (((handOutOrder remainders).map Prod.fst).take
        (leftover (quota total weights) total).toNat).toFinset := by
    ext index
    simp only [raised, hremainders, Finset.mem_image, Finset.mem_filter, Finset.mem_univ,
      true_and, List.mem_toFinset]
    constructor
    · rintro ⟨i, hi, rfl⟩
      exact hi
    · intro hmem
      have hrange : index ∈ List.range remainders.length :=
        hindices.mem_iff.mp (List.mem_of_mem_take hmem)
      exact ⟨⟨index, by rw [← hlength]; exact List.mem_range.mp hrange⟩, hmem, rfl⟩
  have hcard : (raised total weights).card = (leftover (quota total weights) total).toNat := by
    rw [← Finset.card_image_of_injective _ Fin.val_injective, himage,
      List.toFinset_card_of_nodup (hnodup.sublist (List.take_sublist _ _)), List.length_take,
      hindices.length_eq, List.length_range, hlength]
    omega
  rw [hcard]
  omega

/-- The shares that are raised go before all others. -/
theorem raised_ahead (total : Int) (weights : List ℚ) (i j : Fin weights.length)
    (hi : i ∈ raised total weights) (hj : j ∉ raised total weights) :
    Ahead (quota total weights) i j := by
  simp only [raised, Finset.mem_filter, Finset.mem_univ, true_and] at hi hj
  generalize hremainders : (weights.map fun weight =>
    Int.fract ((total : ℚ) * weight / weights.sum)) = remainders at hi hj
  have hremainder : ∀ (k : Fin weights.length) (remainder : ℚ),
      (k.val, remainder) ∈ handOutOrder remainders →
      remainder = Int.fract (quota total weights k) := by
    intro k remainder hmem
    have hsome := (mem_handOutOrder remainders _).mp hmem
    rw [← hremainders, List.getElem?_map, List.getElem?_eq_getElem k.isLt] at hsome
    exact (Option.some.inj hsome).symm
  rw [← List.map_take] at hi hj
  obtain ⟨⟨first, r⟩, hfirst, heq⟩ := List.mem_map.mp hi
  cases heq
  have hall : j.val ∈ (handOutOrder remainders).map Prod.fst := by
    apply (handOutOrder_indices remainders).mem_iff.mpr
    rw [← hremainders, List.length_map]
    exact List.mem_range.mpr j.isLt
  obtain ⟨⟨second, s⟩, hsecond, heq⟩ := List.mem_map.mp hall
  cases heq
  have hbehind : (j.val, s) ∈ (handOutOrder remainders).drop
      (leftover (quota total weights) total).toNat := by
    rw [← List.take_append_drop (leftover (quota total weights) total).toNat
      (handOutOrder remainders)] at hsecond
    rcases List.mem_append.mp hsecond with hfront | hback
    · exact absurd (List.mem_map.mpr ⟨(j.val, s), hfront, rfl⟩) hj
    · exact hback
  have hr := hremainder i r (List.mem_of_mem_take hfirst)
  have hs := hremainder j s (List.mem_of_mem_drop hbehind)
  have hbefore := handOutOrder_ahead remainders _ _ _ hfirst hbehind
  unfold handedBefore at hbefore
  rw [hr, hs] at hbefore
  rcases hbefore with hless | ⟨hsame, hle⟩
  · exact .inl hless
  · refine .inr ⟨hsame, lt_of_le_of_ne hle ?_⟩
    rintro rfl
    exact hj hi

theorem distributeLeftover_eq (total : Int) (weights : List ℚ) (hsum : weights.sum ≠ 0) :
    distributeLeftover total (floorShares total weights.sum weights).1
        (floorShares total weights.sum weights).2 =
      List.ofFn fun i => ((⌊quota total weights i⌋ +
        if i ∈ raised total weights then 1 else 0 : Int) : ℚ) := by
  obtain ⟨hnonneg, hle⟩ := leftover_bounds (quota total weights) total
    (sum_quota total weights hsum)
  rw [Fintype.card_fin] at hle
  have hunits : (total : ℚ) - ((∑ i, ⌊quota total weights i⌋ : Int) : ℚ) =
      ((leftover (quota total weights) total).toNat : ℚ) := by
    rw [← Int.cast_natCast, Int.toNat_of_nonneg hnonneg, leftover]
    push_cast
    rfl
  rw [floorShares_eq, distributeLeftover, sum_floors, hunits]
  have hindices := handOutOrder_indices (weights.map fun weight =>
    Int.fract ((total : ℚ) * weight / weights.sum))
  rw [List.length_map] at hindices
  apply List.ext_getElem?
  intro position
  rw [handOut_getElem?]
  · rw [List.getElem?_map, List.getElem?_ofFn]
    by_cases hposition : position < weights.length
    · rw [List.getElem?_eq_getElem hposition, dif_pos hposition]
      simp only [Option.map_some, raised, Finset.mem_filter, Finset.mem_univ, true_and]
      congr 1
      push_cast
      rfl
    · rw [List.getElem?_eq_none (not_lt.mp hposition), dif_neg hposition]
      rfl
  · rw [← List.length_map (f := Prod.fst), hindices.length_eq, List.length_range]
    omega
  · exact hindices.nodup_iff.mpr List.nodup_range
  · intro entry hentry
    rw [List.length_map]
    exact List.mem_range.mp (hindices.mem_iff.mp (List.mem_map_of_mem hentry))

theorem minorToMajor_whole (places : Nat) (minor : Int) :
    minorToMajor (10 ^ places) places minor = minor / 10 ^ places := by
  have hunits : (minor : ℚ) / 10 ^ places * 10 ^ places = minor := by
    field_simp
  rw [minorToMajor, hunits, roundHalfAway_intCast]

/-- For every amount, number of places and list of weights with a positive sum:
with exact operations `allocate` returns, in minor units, the shares of the
largest-remainder method, and a weight of zero gets a share of zero. -/
theorem allocate_largest_remainder (lib : DecimalLib) (value : Decimal)
    (placesStr weightsJson : String) (places : Nat) (weights : List Decimal)
    (hplaces : minorPlaces placesStr = .ok places)
    (hweights : parseWeights lib weightsJson = .ok weights)
    (hpositive : 0 < (weights.map Dec.val).sum) :
    ∃ minors : Fin (weights.map Dec.val).length → Int,
      allocate lib value placesStr weightsJson =
        .ok (List.ofFn fun i => (minors i : ℚ) / 10 ^ places) ∧
      LargestRemainder (quota (minorUnits value places) (weights.map Dec.val))
        (minorUnits value places) minors ∧
      ∀ i, (weights.map Dec.val)[i] = 0 → minors i = 0 := by
  have hle := minorPlaces_le placesStr places hplaces
  obtain ⟨scale, hscale⟩ : ∃ scale, scaleFactor places = .ok scale := by
    have hfits : 10 ^ places ≤ 18446744073709551615 := by
      calc
        10 ^ places ≤ 10 ^ 18 := Nat.pow_le_pow_right (by decide) hle
        _ ≤ 18446744073709551615 := by decide
    exact ⟨_, dif_pos hfits⟩
  have hscaleVal := scaleFactor_val places scale hscale
  have hsum := hpositive.ne'
  have hlargest := largestRemainder_of_raised (quota (minorUnits value places)
    (weights.map Dec.val)) (minorUnits value places) _ (card_raised _ _ hsum)
    (fun i hi j hj => raised_ahead _ _ i j hi hj)
  refine ⟨_, ?_, hlargest, ?_⟩
  · have hdistributed := distributeLeftover_eq (minorUnits value places) _ hsum
    have hunits : roundHalfAway (value.val * 10 ^ places) = minorUnits value places := rfl
    unfold allocate
    simp only [hplaces, hscale, hweights, hscaleVal, hunits, bind, Except.bind,
      not_le.mpr hpositive, if_false, pure, Except.pure, hdistributed, List.map_ofFn]
    congr 1
    congr 1
    funext i
    exact minorToMajor_whole places _
  · intro i hzero
    have hquota : quota (minorUnits value places) (weights.map Dec.val) i = 0 := by
      rw [quota, hzero, mul_zero, zero_div]
    have hwhole := hlargest.whole (sum_quota _ _ hsum) i (by rw [hquota, Int.fract_zero])
    rw [hwhole, hquota, Int.floor_zero]

/-- Ten dollars in three, in exact arithmetic. -/
theorem allocate_largest_remainder_thirds :
    ∃ minors : Fin ([one, one, one].map Dec.val).length → Int,
      allocate sampleLib tenDollars "2" "[1,1,1]" =
        .ok (List.ofFn fun i => (minors i : ℚ) / 10 ^ 2) ∧
      LargestRemainder (quota (minorUnits tenDollars 2) ([one, one, one].map Dec.val))
        (minorUnits tenDollars 2) minors := by
  obtain ⟨minors, hok, hlargest, -⟩ := allocate_largest_remainder sampleLib tenDollars "2"
    "[1,1,1]" 2 [one, one, one] (by decide +kernel) (by decide +kernel) (by decide +kernel)
  exact ⟨minors, hok, hlargest⟩

/-! ### Runs of the bounded model that are exact -/

/-- Operations that return nothing but exact results. -/
structure ExactOps (lib : DecimalLib) : Prop where
  add : ∀ a b d, lib.checkedAdd a b = some d → d.val = a.val + b.val
  sub : ∀ a b d, lib.checkedSub a b = some d → d.val = a.val - b.val
  mul : ∀ a b d, lib.checkedMul a b = some d → d.val = a.val * b.val
  div : ∀ a b d, b.val ≠ 0 → lib.checkedDiv a b = some d → d.val = a.val / b.val

section Refinement

variable {lib : DecimalLib} (hlib : ExactOps lib)

include hlib

theorem sumDecimals_exact (values : List Decimal) (acc sum : Decimal)
    (hok : values.foldlM (fun acc value => okOr (lib.checkedAdd acc value)) acc = .ok sum) :
    sum.val = acc.val + (values.map Dec.val).sum := by
  induction values generalizing acc with
  | nil =>
      cases Except.ok.inj hok
      simp
  | cons value rest ih =>
      rw [List.foldlM_cons] at hok
      obtain ⟨next, hnext, hrest⟩ := (bind_eq_ok_iff _ _ _).mp hok
      rw [ih next hrest, hlib.add _ _ _ ((okOr_eq_ok _ _).mp hnext), List.map_cons,
        List.sum_cons]
      ring

theorem floorShares_exact (total sumWeights : Decimal) (hsum : sumWeights.val ≠ 0)
    (weights floors remainders : List Decimal)
    (hok : DecimalOps.floorShares lib total sumWeights weights = .ok (floors, remainders)) :
    floorShares total.val sumWeights.val (weights.map Dec.val) =
      (floors.map Dec.val, remainders.map Dec.val) := by
  induction weights generalizing floors remainders with
  | nil =>
      obtain ⟨rfl, rfl⟩ := Prod.mk.inj (Except.ok.inj hok)
      rfl
  | cons weight rest ih =>
      unfold DecimalOps.floorShares at hok
      obtain ⟨exact, hexact, hok⟩ := (bind_eq_ok_iff _ _ _).mp hok
      obtain ⟨remainder, hremainder, hok⟩ := (bind_eq_ok_iff _ _ _).mp hok
      obtain ⟨⟨restFloors, restRemainders⟩, hrest, hok⟩ := (bind_eq_ok_iff _ _ _).mp hok
      obtain ⟨rfl, rfl⟩ := Prod.mk.inj (Except.ok.inj hok)
      obtain ⟨scaled, hscaled, hdivided⟩ :=
        Option.bind_eq_some_iff.mp ((okOr_eq_ok _ _).mp hexact)
      have hquota : exact.val = total.val * weight.val / sumWeights.val := by
        rw [hlib.div _ _ _ hsum hdivided, hlib.mul _ _ _ hscaled]
      have hleft : remainder.val = exact.val - ⌊exact.val⌋ := by
        rw [hlib.sub _ _ _ ((okOr_eq_ok _ _).mp hremainder), Dec.floor_val]
      simp only [List.map_cons, floorShares, ih restFloors restRemainders hrest, Dec.floor_val,
        hleft, hquota]

theorem handOut_exact (order : List (Nat × Decimal)) (shares result : List Decimal)
    (left : Decimal) (hone : one.val = 1)
    (hok : DecimalOps.handOut lib order shares left = .ok result) :
    handOut (order.map fun entry => (entry.1, entry.2.val)) (shares.map Dec.val) left.val =
      result.map Dec.val := by
  induction order generalizing shares left with
  | nil =>
      cases Except.ok.inj hok
      rfl
  | cons entry rest ih =>
      unfold DecimalOps.handOut at hok
      simp only [List.map_cons, handOut]
      split at hok
      · rename_i hnone
        cases Except.ok.inj hok
        rw [if_pos hnone]
      · rename_i hsome
        rw [if_neg hsome, List.getElem?_map]
        cases hshare : shares[entry.1]? with
        | none =>
            simp only [hshare] at hok
            exact ih shares left hok
        | some share =>
            simp only [hshare] at hok
            obtain ⟨raised, hraised, hok⟩ := (bind_eq_ok_iff _ _ _).mp hok
            obtain ⟨remaining, hremaining, hok⟩ := (bind_eq_ok_iff _ _ _).mp hok
            have hup := hlib.add _ _ _ ((okOr_eq_ok _ _).mp hraised)
            have hdown := hlib.sub _ _ _ ((okOr_eq_ok _ _).mp hremaining)
            rw [hone] at hup hdown
            have hrest := ih (shares.set entry.1 raised) remaining hok
            rw [List.map_set, hup, hdown] at hrest
            exact hrest

omit hlib in
theorem handOutOrder_val (remainders : List Decimal) :
    handOutOrder (remainders.map Dec.val) =
      (DecimalOps.handOutOrder remainders).map fun entry => (entry.1, entry.2.val) := by
  have hsource : ((remainders.map Dec.val).zipIdx.map fun entry => (entry.2, entry.1)) =
      (remainders.zipIdx.map fun entry => (entry.2, entry.1)).map
        fun entry : Nat × Decimal => (entry.1, entry.2.val) := by
    rw [List.zipIdx_map, List.map_map, List.map_map]
    rfl
  unfold handOutOrder DecimalOps.handOutOrder
  rw [hsource]
  refine (List.map_insertionSort (r := DecimalOps.handedBefore) (s := handedBefore) _ _ ?_).symm
  intro left _ right _
  exact Iff.rfl

theorem minorToMajor_exact (scale : Decimal) (places : Nat) (hscale : scale.val ≠ 0)
    (minors majors : List Decimal)
    (hok : minors.mapM (DecimalOps.minorToMajor lib scale places) = .ok majors) :
    (minors.map Dec.val).map (minorToMajor scale.val places) = majors.map Dec.val := by
  induction minors generalizing majors with
  | nil =>
      cases Except.ok.inj hok
      rfl
  | cons minor rest ih =>
      rw [List.mapM_cons] at hok
      obtain ⟨major, hmajor, hok⟩ := (bind_eq_ok_iff _ _ _).mp hok
      obtain ⟨others, hrest, hok⟩ := (bind_eq_ok_iff _ _ _).mp hok
      cases Except.ok.inj hok
      unfold DecimalOps.minorToMajor at hmajor
      obtain ⟨quotient, hquotient, hmajor⟩ := (bind_eq_ok_iff _ _ _).mp hmajor
      have hval : major.val = minorToMajor scale.val places minor.val := by
        rw [← Except.ok.inj hmajor, Dec.rescale_round,
          hlib.div _ _ _ hscale ((okOr_eq_ok _ _).mp hquotient), minorToMajor]
      rw [List.map_cons, List.map_cons, List.map_cons, hval, ih others hrest]

/-- A run whose operations were all exact returns the shares of the exact
reading. -/
theorem allocate_refines (value : Decimal) (placesStr weightsJson : String)
    (shares : List Decimal)
    (hok : DecimalOps.allocate lib value placesStr weightsJson = .ok shares) :
    allocate lib value placesStr weightsJson = .ok (shares.map Dec.val) := by
  have hzero : zero.val = 0 := by
    rw [zero, Dec.ofInt_val, Int.cast_zero]
  have hone : one.val = 1 := by
    rw [one, Dec.ofInt_val, Int.cast_one]
  unfold DecimalOps.allocate at hok
  obtain ⟨places, hplaces, hok⟩ := (bind_eq_ok_iff _ _ _).mp hok
  obtain ⟨scale, hscale, hok⟩ := (bind_eq_ok_iff _ _ _).mp hok
  obtain ⟨total, htotal, hok⟩ := (bind_eq_ok_iff _ _ _).mp hok
  obtain ⟨weights, hweights, hok⟩ := (bind_eq_ok_iff _ _ _).mp hok
  obtain ⟨sumWeights, hsumWeights, hok⟩ := (bind_eq_ok_iff _ _ _).mp hok
  have hsum : sumWeights.val = (weights.map Dec.val).sum := by
    rw [sumDecimals_exact hlib weights zero sumWeights hsumWeights, hzero, zero_add]
  have hscaleVal : scale.val ≠ 0 := by
    rw [scaleFactor_val places scale hscale]
    positivity
  have htotalVal : total.val = roundHalfAway (value.val * scale.val) := by
    unfold totalMinor at htotal
    obtain ⟨scaled, hscaled, hrounded⟩ := (bind_eq_ok_iff _ _ _).mp htotal
    rw [← Except.ok.inj hrounded, Dec.roundDp_val, hlib.mul _ _ _ ((okOr_eq_ok _ _).mp hscaled)]
    simp
  split at hok
  · cases hok
  · rename_i hpositive
    obtain ⟨⟨floors, remainders⟩, hfloors, hok⟩ := (bind_eq_ok_iff _ _ _).mp hok
    obtain ⟨minors, hminors, hmajors⟩ := (bind_eq_ok_iff _ _ _).mp hok
    unfold DecimalOps.distributeLeftover at hminors
    obtain ⟨allocated, hallocated, hminors⟩ := (bind_eq_ok_iff _ _ _).mp hminors
    obtain ⟨left, hleft, hminors⟩ := (bind_eq_ok_iff _ _ _).mp hminors
    have hshares := floorShares_exact hlib total sumWeights
      (fun heq => hpositive (le_of_eq heq)) weights floors remainders hfloors
    have hleftVal : left.val = total.val - (floors.map Dec.val).sum := by
      rw [hlib.sub _ _ _ ((okOr_eq_ok _ _).mp hleft),
        sumDecimals_exact hlib floors zero allocated hallocated, hzero, zero_add]
    have hhanded := handOut_exact hlib _ floors minors left hone hminors
    rw [← handOutOrder_val, hleftVal] at hhanded
    rw [hsum] at hpositive hshares
    rw [htotalVal] at hshares hhanded
    unfold allocate
    simp only [hplaces, hscale, hweights, bind, Except.bind, if_neg hpositive, hshares,
      distributeLeftover, hhanded, minorToMajor_exact hlib scale places hscaleVal minors shares
        hmajors, pure, Except.pure]

end Refinement

end Runlet.DecimalOps.Exact
