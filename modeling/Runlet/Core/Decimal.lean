import Mathlib.Data.List.Sort
import Mathlib.Algebra.BigOperators.Group.List.Basic
import Runlet.Lib.DecimalFormat
import Runlet.Lib.Pipeline
import Runlet.Lib.Text
import Runlet.Core.Errors

/-!
The allocation core of `decimal.rs`: splitting an amount over weights by the
largest-remainder method on minor units. The decimal type is the 96-bit format
with scales up to 28; its checked operations are parameters that return a
closest representable value or nothing.
-/

namespace Runlet.DecimalOps

open DecimalFormat Errors Text

/-- `rust_decimal::Decimal`. -/
abbrev Decimal := Dec 79228162514264337593543950335 28

def zero : Decimal := .ofInt 0 (by decide)

def one : Decimal := .ofInt 1 (by decide)

/-- The library behind the module: the checked operations, text parsing and
the JSON array of weights. -/
structure DecimalLib where
  checkedAdd : Decimal → Decimal → Option Decimal
  checkedSub : Decimal → Decimal → Option Decimal
  checkedMul : Decimal → Decimal → Option Decimal
  checkedDiv : Decimal → Decimal → Option Decimal
  fromStr : String → Except String Decimal
  parseArray : String → Except String (List Json)
  render : Json → String

/-- Every checked operation rounds its exact result. -/
structure DecimalLib.Lawful (lib : DecimalLib) : Prop where
  add : ∀ a b, Rounds (a.val + b.val) (lib.checkedAdd a b)
  sub : ∀ a b, Rounds (a.val - b.val) (lib.checkedSub a b)
  mul : ∀ a b, Rounds (a.val * b.val) (lib.checkedMul a b)
  div : ∀ a b, b.val ≠ 0 → Rounds (a.val / b.val) (lib.checkedDiv a b)

def okOr (result : Option Decimal) : Except String Decimal :=
  match result with
  | some value => .ok value
  | none => .error "decimal overflow"

def parseDecimal (lib : DecimalLib) (text : String) : Except String Decimal :=
  match lib.fromStr (trim text) with
  | .ok value => .ok value
  | .error err => .error ("invalid decimal '" ++ text ++ "': " ++ err)

/-- A `u32` count of places. -/
def parsePlaces (text : String) : Except String Nat :=
  match parseUnsigned 4294967295 (trim text) with
  | some places => .ok places
  | none => .error ("invalid places: '" ++ text ++ "'")

/-- The minor-unit exponent: two by default, at most 18. -/
def minorPlaces (text : String) : Except String Nat :=
  if trim text = "" then .ok 2
  else
    match parsePlaces (trim text) with
    | .error err => .error err
    | .ok places =>
        if places > 18 then
          .error ("minor-unit places too large: " ++ toString places ++ " (max 18)")
        else .ok places

/-- `10 ^ places`, computed in a `u64`. -/
def scaleFactor (places : Nat) : Except String Decimal :=
  if h : 10 ^ places ≤ 18446744073709551615 then
    .ok (.ofInt ((10 ^ places : Nat) : Int) (by rw [Int.natAbs_natCast]; omega))
  else .error "minor-unit scale overflow"

def weightToDecimal (lib : DecimalLib) (value : Json) : Except String Decimal :=
  let text := match value with
    | .str text => text
    | other => lib.render other
  match parseDecimal lib text with
  | .error err => .error err
  | .ok weight =>
      if weight.val < 0 then
        .error ("allocation weight cannot be negative: '" ++ text ++ "'")
      else .ok weight

def parseWeights (lib : DecimalLib) (weightsJson : String) : Except String (List Decimal) :=
  match lib.parseArray weightsJson with
  | .error err => .error ("invalid allocation weights: " ++ err)
  | .ok [] => .error "allocation needs at least one weight"
  | .ok raw => raw.mapM (weightToDecimal lib)

def sumDecimals (lib : DecimalLib) (values : List Decimal) : Except String Decimal :=
  values.foldlM (fun acc value => okOr (lib.checkedAdd acc value)) zero

/-- A proportional share as the library computes it. -/
def roundedQuota (lib : DecimalLib) (totalMinor sumWeights weight : Decimal) :
    Option Decimal :=
  (lib.checkedMul totalMinor weight).bind fun scaled => lib.checkedDiv scaled sumWeights

/-- The floors of the shares and their remainders, index by index. -/
def floorShares (lib : DecimalLib) (totalMinor sumWeights : Decimal) :
    List Decimal → Except String (List Decimal × List Decimal)
  | [] => .ok ([], [])
  | weight :: rest => do
      let exact ← okOr (roundedQuota lib totalMinor sumWeights weight)
      let remainder ← okOr (lib.checkedSub exact exact.floor)
      let (shares, remainders) ← floorShares lib totalMinor sumWeights rest
      pure (exact.floor :: shares, remainder :: remainders)

/-- Larger remainder first, ties by ascending index. -/
def handedBefore (left right : Nat × Decimal) : Prop :=
  right.2.val < left.2.val ∨ (right.2.val = left.2.val ∧ left.1 ≤ right.1)

instance : DecidableRel handedBefore := fun left right =>
  inferInstanceAs (Decidable (right.2.val < left.2.val ∨
    (right.2.val = left.2.val ∧ left.1 ≤ right.1)))

def handOutOrder (remainders : List Decimal) : List (Nat × Decimal) :=
  (remainders.zipIdx.map fun entry => (entry.2, entry.1)).insertionSort handedBefore

/-- One minor unit at a time, until nothing is left over or the order ends. -/
def handOut (lib : DecimalLib) :
    List (Nat × Decimal) → List Decimal → Decimal → Except String (List Decimal)
  | [], shares, _ => .ok shares
  | (index, _) :: rest, shares, leftover =>
      if leftover.val ≤ 0 then .ok shares
      else
        match shares[index]? with
        | none => handOut lib rest shares leftover
        | some share => do
            let raised ← okOr (lib.checkedAdd share one)
            let remaining ← okOr (lib.checkedSub leftover one)
            handOut lib rest (shares.set index raised) remaining

def distributeLeftover (lib : DecimalLib) (totalMinor : Decimal)
    (shares remainders : List Decimal) : Except String (List Decimal) := do
  let allocated ← sumDecimals lib shares
  let leftover ← okOr (lib.checkedSub totalMinor allocated)
  handOut lib (handOutOrder remainders) shares leftover

/-- Back to major units, padded to `places` digits. -/
def minorToMajor (lib : DecimalLib) (scale : Decimal) (places : Nat) (minor : Decimal) :
    Except String Decimal := do
  let major ← okOr (lib.checkedDiv minor scale)
  pure (major.rescale places)

/-- The amount in minor units, rounded half away from zero. -/
def totalMinor (lib : DecimalLib) (value scale : Decimal) : Except String Decimal := do
  let scaled ← okOr (lib.checkedMul value scale)
  pure (scaled.roundDp 0)

/-- The shares as numbers; the source renders each with all its digits. -/
def allocate (lib : DecimalLib) (value : Decimal) (placesStr weightsJson : String) :
    Except String (List Decimal) := do
  let places ← minorPlaces placesStr
  let scale ← scaleFactor places
  let total ← totalMinor lib value scale
  let weights ← parseWeights lib weightsJson
  let sumWeights ← sumDecimals lib weights
  if sumWeights.val ≤ 0 then
    .error "allocation weights must sum to a positive value"
  else do
    let (floors, remainders) ← floorShares lib total sumWeights weights
    let shares ← distributeLeftover lib total floors remainders
    shares.mapM (minorToMajor lib scale places)

/-! ### The steps of a successful allocation -/

theorem okOr_eq_ok (result : Option Decimal) (d : Decimal) :
    okOr result = .ok d ↔ result = some d := by
  cases result <;> simp [okOr]

/-- The number is a whole number of minor units. -/
def Whole (d : Decimal) : Prop := ∃ k : Int, d.val = k

theorem minorPlaces_le (text : String) (places : Nat)
    (hok : minorPlaces text = .ok places) : places ≤ 18 := by
  unfold minorPlaces at hok
  split at hok
  · have := Except.ok.inj hok
    omega
  · cases hparse : parsePlaces (trim text) with
    | error err => simp [hparse] at hok
    | ok parsed =>
        simp only [hparse] at hok
        split at hok
        · cases hok
        · have := Except.ok.inj hok
          omega

theorem scaleFactor_val (places : Nat) (scale : Decimal)
    (hok : scaleFactor places = .ok scale) : scale.val = 10 ^ places := by
  unfold scaleFactor at hok
  split at hok
  · have heq := Except.ok.inj hok
    rw [← heq, Dec.ofInt_val]
    push_cast
    rfl
  · cases hok

/-- The product with a power of ten is exact: it is an integer, or it keeps
the mantissa with a smaller scale. -/
theorem mul_pow_exact (lib : DecimalLib) (hlib : lib.Lawful) (value scale : Decimal)
    (places : Nat) (hscale : scale.val = 10 ^ places) (scaled : Decimal)
    (hmul : lib.checkedMul value scale = some scaled) :
    scaled.val = value.val * 10 ^ places := by
  have hrounds := hlib.mul value scale
  rw [hmul, hscale] at hrounds
  by_cases hplaces : value.scale ≤ places
  · rw [value.val_mul_pow places hplaces] at hrounds ⊢
    exact hrounds.int
  · have hsplit : (10 : ℚ) ^ value.scale = 10 ^ (value.scale - places) * 10 ^ places := by
      rw [← pow_add, Nat.sub_add_cancel (by omega)]
    have hval : value.val * 10 ^ places =
        (value.mantissa : ℚ) / 10 ^ (value.scale - places) := by
      rw [Dec.val, hsplit]
      field_simp
    rw [hval] at hrounds ⊢
    exact hrounds.scaled value.fits (by have := value.scaleLe; omega)

theorem totalMinor_val (lib : DecimalLib) (hlib : lib.Lawful) (value scale total : Decimal)
    (places : Nat) (hscale : scale.val = 10 ^ places)
    (hok : totalMinor lib value scale = .ok total) :
    total.val = roundHalfAway (value.val * 10 ^ places) := by
  unfold totalMinor at hok
  obtain ⟨scaled, hscaled, hrounded⟩ := (bind_eq_ok_iff _ _ _).mp hok
  have hmul := (okOr_eq_ok _ _).mp hscaled
  have hexact := mul_pow_exact lib hlib value scale places hscale scaled hmul
  have heq := Except.ok.inj hrounded
  rw [← heq, Dec.roundDp_val, hexact]
  simp

theorem sumDecimals_whole (lib : DecimalLib) (hlib : lib.Lawful) (values : List Decimal)
    (acc sum : Decimal) (hacc : Whole acc) (hvalues : ∀ d ∈ values, Whole d)
    (hok : values.foldlM (fun acc value => okOr (lib.checkedAdd acc value)) acc = .ok sum) :
    sum.val = acc.val + (values.map Dec.val).sum := by
  induction values generalizing acc with
  | nil =>
      have heq : acc = sum := Except.ok.inj hok
      simp [heq]
  | cons value rest ih =>
      rw [List.foldlM_cons] at hok
      obtain ⟨next, hnext, hrest⟩ := (bind_eq_ok_iff _ _ _).mp hok
      have hadd := (okOr_eq_ok _ _).mp hnext
      obtain ⟨k, hk⟩ := hacc
      obtain ⟨m, hm⟩ := hvalues value List.mem_cons_self
      have hrounds := hlib.add acc value
      rw [hadd, hk, hm, ← Int.cast_add] at hrounds
      have hval := hrounds.int
      have hsum := ih next ⟨k + m, hval⟩
        (fun d hd => hvalues d (List.mem_cons_of_mem value hd)) hrest
      rw [hsum, hval, List.map_cons, List.sum_cons, hk, hm]
      push_cast
      ring

/-- The floors are the floors of the rounded quotas, one for each weight. -/
theorem floorShares_spec (lib : DecimalLib) (total sumWeights : Decimal)
    (weights floors remainders : List Decimal)
    (hok : floorShares lib total sumWeights weights = .ok (floors, remainders)) :
    remainders.length = weights.length ∧
    ∃ quotas, weights.mapM (roundedQuota lib total sumWeights) = some quotas ∧
      quotas.length = weights.length ∧ floors = quotas.map Dec.floor := by
  induction weights generalizing floors remainders with
  | nil =>
      obtain ⟨rfl, rfl⟩ := Prod.mk.inj (Except.ok.inj hok)
      exact ⟨rfl, [], rfl, rfl, rfl⟩
  | cons weight rest ih =>
      unfold floorShares at hok
      obtain ⟨exact, hexact, hok⟩ := (bind_eq_ok_iff _ _ _).mp hok
      obtain ⟨remainder, hremainder, hok⟩ := (bind_eq_ok_iff _ _ _).mp hok
      obtain ⟨⟨restFloors, restRemainders⟩, hrest, hok⟩ := (bind_eq_ok_iff _ _ _).mp hok
      obtain ⟨rfl, rfl⟩ := Prod.mk.inj (Except.ok.inj hok)
      obtain ⟨hlength, quotas, hquotas, hcount, hfloors⟩ := ih restFloors restRemainders hrest
      have hquota := (okOr_eq_ok _ _).mp hexact
      refine ⟨by simp [hlength], exact :: quotas, ?_, by simp [hcount], by simp [hfloors]⟩
      simp [List.mapM_cons, hquota, hquotas]

theorem floor_whole (d : Decimal) : Whole d.floor := ⟨⌊d.val⌋, d.floor_val⟩

theorem handOutOrder_spec (remainders : List Decimal) :
    (handOutOrder remainders).length = remainders.length ∧
    ∀ entry ∈ handOutOrder remainders, entry.1 < remainders.length := by
  unfold handOutOrder
  refine ⟨by simp, ?_⟩
  intro entry hentry
  have hmem := (List.perm_insertionSort handedBefore _).mem_iff.mp hentry
  obtain ⟨⟨d, index⟩, hsource, rfl⟩ := List.mem_map.mp hmem
  have := List.snd_lt_of_mem_zipIdx hsource
  simpa using this

/-- Raising one share by one unit raises the sum by one. -/
private theorem sum_set_raised (shares : List Decimal) (index : Nat) (share raised : Decimal)
    (hshare : shares[index]? = some share) (hraised : raised.val = share.val + 1) :
    ((shares.set index raised).map Dec.val).sum = (shares.map Dec.val).sum + 1 := by
  induction shares generalizing index with
  | nil => cases hshare
  | cons head tail ih =>
      cases index with
      | zero =>
          have heq : head = share := Option.some.inj hshare
          simp only [List.set_cons_zero, List.map_cons, List.sum_cons, hraised, heq]
          ring
      | succ index =>
          have htail := ih index hshare
          simp only [List.set_cons_succ, List.map_cons, List.sum_cons, htail]
          ring

/-- One unit goes to the share of the first entry. -/
theorem handOut_cons (lib : DecimalLib) (hlib : lib.Lawful) (entry : Nat × Decimal)
    (rest : List (Nat × Decimal)) (shares result : List Decimal) (leftover : Decimal) (k : Int)
    (hleftover : leftover.val = k) (hk : 0 < k) (hshares : ∀ d ∈ shares, Whole d)
    (hindex : entry.1 < shares.length)
    (hok : handOut lib (entry :: rest) shares leftover = .ok result) :
    ∃ share raised remaining, ∃ m : Int, shares[entry.1]? = some share ∧ share.val = m ∧
      raised.val = ((m + 1 : Int) : ℚ) ∧ remaining.val = ((k - 1 : Int) : ℚ) ∧
        handOut lib rest (shares.set entry.1 raised) remaining = .ok result := by
  obtain ⟨share, hshare⟩ : ∃ share, shares[entry.1]? = some share :=
    ⟨shares[entry.1], List.getElem?_eq_getElem hindex⟩
  have hsome : ¬leftover.val ≤ 0 := by
    rw [hleftover, not_le]
    exact_mod_cast hk
  unfold handOut at hok
  rw [if_neg hsome] at hok
  simp only [hshare] at hok
  obtain ⟨raised, hraised, hok⟩ := (bind_eq_ok_iff _ _ _).mp hok
  obtain ⟨remaining, hremaining, hok⟩ := (bind_eq_ok_iff _ _ _).mp hok
  obtain ⟨m, hm⟩ := hshares share (List.mem_of_getElem? hshare)
  have hone : one.val = ((1 : Int) : ℚ) := Dec.ofInt_val 1 (by decide)
  refine ⟨share, raised, remaining, m, hshare, hm, ?_, ?_, hok⟩
  · have hrounds := hlib.add share one
    rw [(okOr_eq_ok _ _).mp hraised, hm, hone, ← Int.cast_add] at hrounds
    exact hrounds.int
  · have hrounds := hlib.sub leftover one
    rw [(okOr_eq_ok _ _).mp hremaining, hleftover, hone, ← Int.cast_sub] at hrounds
    exact hrounds.int

/-- Nothing is left over. -/
theorem handOut_done (lib : DecimalLib) (order : List (Nat × Decimal))
    (shares result : List Decimal) (leftover : Decimal) (hnone : leftover.val ≤ 0)
    (hok : handOut lib order shares leftover = .ok result) : shares = result := by
  cases order with
  | nil => exact Except.ok.inj hok
  | cons entry rest =>
      unfold handOut at hok
      rw [if_pos hnone] at hok
      exact Except.ok.inj hok

/-- The loop hands out the leftover as far as it is positive and the order
has entries: the sum grows by exactly that much. -/
theorem handOut_spec (lib : DecimalLib) (hlib : lib.Lawful)
    (order : List (Nat × Decimal)) (shares result : List Decimal) (leftover : Decimal)
    (k : Int) (hleftover : leftover.val = k) (hshares : ∀ d ∈ shares, Whole d)
    (horder : ∀ entry ∈ order, entry.1 < shares.length)
    (hok : handOut lib order shares leftover = .ok result) :
    result.length = shares.length ∧ (∀ d ∈ result, Whole d) ∧
      (result.map Dec.val).sum = (shares.map Dec.val).sum +
        ((min (max k 0) order.length : Int) : ℚ) := by
  induction order generalizing shares leftover k with
  | nil =>
      have heq : shares = result := Except.ok.inj hok
      subst heq
      refine ⟨rfl, hshares, ?_⟩
      have hzero : min (max k 0) (([] : List (Nat × Decimal)).length : Int) = 0 := by
        simp only [List.length_nil]
        omega
      rw [hzero]
      simp
  | cons entry rest ih =>
      rcases le_or_gt k 0 with hk | hk
      · have hnone : leftover.val ≤ 0 := by
          rw [hleftover]
          exact_mod_cast hk
        have heq := handOut_done lib (entry :: rest) shares result leftover hnone hok
        subst heq
        have hzero : min (max k 0) ((entry :: rest).length : Int) = 0 := by
          have : (0 : Int) ≤ (entry :: rest).length := Int.natCast_nonneg _
          omega
        refine ⟨rfl, hshares, ?_⟩
        rw [hzero]
        simp
      · have hindex : entry.1 < shares.length := horder entry List.mem_cons_self
        obtain ⟨share, raised, remaining, m, hshare, hm, hraised, hremaining, hrest⟩ :=
          handOut_cons lib hlib entry rest shares result leftover k hleftover hk hshares hindex hok
        have hshares' : ∀ d ∈ shares.set entry.1 raised, Whole d := by
          intro d hd
          rcases List.mem_or_eq_of_mem_set hd with hold | rfl
          · exact hshares d hold
          · exact ⟨m + 1, hraised⟩
        have horder' : ∀ other ∈ rest, other.1 < (shares.set entry.1 raised).length := by
          intro other hother
          rw [List.length_set]
          exact horder other (List.mem_cons_of_mem entry hother)
        obtain ⟨hlength, hwhole, hsum⟩ := ih (shares.set entry.1 raised) remaining (k - 1)
          hremaining hshares' horder' hrest
        refine ⟨by rw [hlength, List.length_set], hwhole, ?_⟩
        have hstep : min (max k 0) ((entry :: rest).length : Int) =
            min (max (k - 1) 0) (rest.length : Int) + 1 := by
          rw [List.length_cons]
          push_cast
          omega
        rw [hsum, hstep, sum_set_raised shares entry.1 share raised hshare
          (by rw [hraised, hm]; push_cast; ring)]
        push_cast
        ring

/-- Going back to major units divides every share exactly. -/
theorem minorToMajor_sum (lib : DecimalLib) (hlib : lib.Lawful) (scale : Decimal)
    (places : Nat) (hplaces : places ≤ 18) (hscale : scale.val = 10 ^ places)
    (minors majors : List Decimal) (hwhole : ∀ d ∈ minors, Whole d)
    (hok : minors.mapM (minorToMajor lib scale places) = .ok majors) :
    majors.length = minors.length ∧
      (majors.map Dec.val).sum = (minors.map Dec.val).sum / 10 ^ places := by
  induction minors generalizing majors with
  | nil =>
      have heq : [] = majors := Except.ok.inj hok
      subst heq
      simp
  | cons minor rest ih =>
      rw [List.mapM_cons] at hok
      obtain ⟨major, hmajor, hok⟩ := (bind_eq_ok_iff _ _ _).mp hok
      obtain ⟨restMajors, hrest, hok⟩ := (bind_eq_ok_iff _ _ _).mp hok
      have heq : major :: restMajors = majors := Except.ok.inj hok
      subst heq
      obtain ⟨hlength, hsum⟩ := ih restMajors
        (fun d hd => hwhole d (List.mem_cons_of_mem minor hd)) hrest
      obtain ⟨k, hk⟩ := hwhole minor List.mem_cons_self
      have hval : major.val = minor.val / 10 ^ places := by
        unfold minorToMajor at hmajor
        obtain ⟨quotient, hquotient, hmajor⟩ := (bind_eq_ok_iff _ _ _).mp hmajor
        have hrounds := hlib.div minor scale (by rw [hscale]; positivity)
        rw [(okOr_eq_ok _ _).mp hquotient, hscale, hk] at hrounds
        have hfits : k.natAbs ≤ 79228162514264337593543950335 := by
          rw [natAbs_le_iff, ← hk]
          exact minor.abs_val_le
        have hexact := hrounds.scaled hfits (by omega)
        rw [← Except.ok.inj hmajor, Dec.rescale_val quotient places k hexact, hk]
      refine ⟨by simp [hlength], ?_⟩
      simp only [List.map_cons, List.sum_cons, hsum, hval]
      ring

/-! ### Exactness -/

/-- The amount in minor units, half away from zero: the amount to split. -/
def minorUnits (value : Decimal) (places : Nat) : Int :=
  roundHalfAway (value.val * 10 ^ places)

theorem floors_sum (quotas : List Decimal) :
    ((quotas.map Dec.floor).map Dec.val).sum =
      (((quotas.map fun quota => ⌊quota.val⌋).sum : Int) : ℚ) := by
  induction quotas with
  | nil => simp
  | cons quota rest ih =>
      simp only [List.map_cons, List.sum_cons, ih, Dec.floor_val]
      push_cast
      ring

/-- The sum of the shares before they go back to major units. -/
theorem distributeLeftover_sum (lib : DecimalLib) (hlib : lib.Lawful) (total : Decimal)
    (units : Int) (htotal : total.val = units) (quotas remainders shares : List Decimal)
    (hlength : remainders.length = quotas.length)
    (hok : distributeLeftover lib total (quotas.map Dec.floor) remainders = .ok shares) :
    (∃ allocated : Decimal,
        allocated.val = (((quotas.map fun quota => ⌊quota.val⌋).sum : Int) : ℚ)) ∧
      shares.length = quotas.length ∧ (∀ d ∈ shares, Whole d) ∧
      (shares.map Dec.val).sum =
        (((quotas.map fun quota => ⌊quota.val⌋).sum +
          min (max (units - (quotas.map fun quota => ⌊quota.val⌋).sum) 0)
            (quotas.length : Int) : Int) : ℚ) := by
  have hwhole : ∀ d ∈ quotas.map Dec.floor, Whole d := by
    intro d hd
    obtain ⟨quota, _, rfl⟩ := List.mem_map.mp hd
    exact floor_whole quota
  unfold distributeLeftover at hok
  obtain ⟨allocated, hallocated, hok⟩ := (bind_eq_ok_iff _ _ _).mp hok
  obtain ⟨leftover, hleftover, hok⟩ := (bind_eq_ok_iff _ _ _).mp hok
  have hzero : zero.val = ((0 : Int) : ℚ) := Dec.ofInt_val 0 (by decide)
  have hallocatedVal : allocated.val =
      (((quotas.map fun quota => ⌊quota.val⌋).sum : Int) : ℚ) := by
    have hsum := sumDecimals_whole lib hlib _ zero allocated ⟨0, hzero⟩ hwhole hallocated
    rw [hsum, floors_sum, hzero]
    simp
  have hleftoverVal : leftover.val =
      ((units - (quotas.map fun quota => ⌊quota.val⌋).sum : Int) : ℚ) := by
    have hrounds := hlib.sub total allocated
    rw [(okOr_eq_ok _ _).mp hleftover, htotal, hallocatedVal, ← Int.cast_sub] at hrounds
    exact hrounds.int
  obtain ⟨horderLength, horder⟩ := handOutOrder_spec remainders
  have horder' : ∀ entry ∈ handOutOrder remainders,
      entry.1 < (quotas.map Dec.floor).length := by
    intro entry hentry
    rw [List.length_map, ← hlength]
    exact horder entry hentry
  obtain ⟨hresultLength, hresultWhole, hresultSum⟩ := handOut_spec lib hlib _ _ shares
    leftover _ hleftoverVal hwhole horder' hok
  refine ⟨⟨allocated, hallocatedVal⟩, by rw [hresultLength, List.length_map], hresultWhole, ?_⟩
  rw [hresultSum, floors_sum, horderLength, hlength]
  push_cast
  ring

/-- A successful allocation, step by step: the floors of the rounded quotas,
raised by one unit each as far as the amount and the weights go. -/
theorem allocate_shares (lib : DecimalLib) (hlib : lib.Lawful) (value : Decimal)
    (placesStr weightsJson : String) (places : Nat) (weights shares : List Decimal)
    (hplaces : minorPlaces placesStr = .ok places)
    (hweights : parseWeights lib weightsJson = .ok weights)
    (hok : allocate lib value placesStr weightsJson = .ok shares) :
    ∃ scale total sumWeights quotas, scaleFactor places = .ok scale ∧
      totalMinor lib value scale = .ok total ∧
      total.val = minorUnits value places ∧
      sumDecimals lib weights = .ok sumWeights ∧ 0 < sumWeights.val ∧
      weights.mapM (roundedQuota lib total sumWeights) = some quotas ∧
      quotas.length = weights.length ∧
      (∃ allocated : Decimal,
        allocated.val = (((quotas.map fun quota => ⌊quota.val⌋).sum : Int) : ℚ)) ∧
      shares.length = weights.length ∧
      (shares.map Dec.val).sum =
        (((quotas.map fun quota => ⌊quota.val⌋).sum +
          min (max (minorUnits value places -
            (quotas.map fun quota => ⌊quota.val⌋).sum) 0) (weights.length : Int) : Int) : ℚ) /
          10 ^ places := by
  have hle := minorPlaces_le placesStr places hplaces
  unfold allocate at hok
  obtain ⟨places', hplaces', hok⟩ := (bind_eq_ok_iff _ _ _).mp hok
  cases hplaces.symm.trans hplaces'
  obtain ⟨scale, hscale, hok⟩ := (bind_eq_ok_iff _ _ _).mp hok
  obtain ⟨total, htotal, hok⟩ := (bind_eq_ok_iff _ _ _).mp hok
  obtain ⟨weights', hweights', hok⟩ := (bind_eq_ok_iff _ _ _).mp hok
  cases hweights.symm.trans hweights'
  obtain ⟨sumWeights, hsumWeights, hok⟩ := (bind_eq_ok_iff _ _ _).mp hok
  split at hok
  · cases hok
  · rename_i hpositive
    obtain ⟨⟨floors, remainders⟩, hfloors, hrest⟩ := (bind_eq_ok_iff _ _ _).mp hok
    obtain ⟨minors, hminors, hmajors⟩ := (bind_eq_ok_iff _ _ _).mp hrest
    have hscaleVal := scaleFactor_val places scale hscale
    have htotalVal := totalMinor_val lib hlib value scale total places hscaleVal htotal
    obtain ⟨hlength, quotas, hquotas, hquotaCount, rfl⟩ :=
      floorShares_spec lib total sumWeights weights floors remainders hfloors
    obtain ⟨hallocated, hminorLength, hminorWhole, hminorSum⟩ := distributeLeftover_sum lib hlib total
      (minorUnits value places) htotalVal quotas remainders minors
      (by rw [hlength, hquotaCount]) hminors
    obtain ⟨hmajorLength, hmajorSum⟩ := minorToMajor_sum lib hlib scale places hle
      hscaleVal minors shares hminorWhole hmajors
    refine ⟨scale, total, sumWeights, quotas, hscale, htotal, htotalVal, hsumWeights,
      not_le.mp hpositive, hquotas, hquotaCount, hallocated, ?_, ?_⟩
    · rw [hmajorLength, hminorLength, hquotaCount]
    · rw [hmajorSum, hminorSum, hquotaCount]

/-- The sum is the amount exactly when neither end of the hand-out is hit. -/
theorem sum_eq_iff (floors units : Int) (count places : Nat) :
    ((floors + min (max (units - floors) 0) (count : Int) : Int) : ℚ) / 10 ^ places =
      units / 10 ^ places ↔ 0 ≤ units - floors ∧ units - floors ≤ count := by
  rw [div_left_inj' (by positivity), Int.cast_inj]
  omega

/-- The library with exact-then-nearest arithmetic, on the texts of the two
runs below. -/
def sampleLib : DecimalLib where
  checkedAdd := fun a b => nearest (a.val + b.val)
  checkedSub := fun a b => nearest (a.val - b.val)
  checkedMul := fun a b => nearest (a.val * b.val)
  checkedDiv := fun a b => if b.val = 0 then none else nearest (a.val / b.val)
  fromStr := fun text =>
    match text with
    | "1" => .ok one
    | "0.3" => .ok ⟨3, 1, by decide, by decide⟩
    | "0.4" => .ok ⟨4, 1, by decide, by decide⟩
    | _ => .error "Invalid decimal: unknown character"
  parseArray := fun text =>
    match text with
    | "[1,1,1]" => .ok [.num "1", .num "1", .num "1"]
    | "[0.3,0.3,0.4]" => .ok [.num "0.3", .num "0.3", .num "0.4"]
    | _ => .error "expected value at line 1 column 1"
  render := fun value =>
    match value with
    | .num literal => literal
    | _ => "null"

theorem sampleLib_lawful : sampleLib.Lawful where
  add := fun _ _ => nearest_rounds _
  sub := fun _ _ => nearest_rounds _
  mul := fun _ _ => nearest_rounds _
  div := by
    intro a b hb
    have hdiv : sampleLib.checkedDiv a b = nearest (a.val / b.val) := by
      simp [sampleLib, hb]
    rw [hdiv]
    exact nearest_rounds _

def tenDollars : Decimal := ⟨1000, 2, by decide, by decide⟩

/-! ### Whole weights -/

theorem weightToDecimal_nonneg (lib : DecimalLib) (value : Json) (weight : Decimal)
    (hok : weightToDecimal lib value = .ok weight) : 0 ≤ weight.val := by
  unfold weightToDecimal at hok
  simp only at hok
  split at hok
  · cases hok
  · split at hok
    · cases hok
    · cases hok
      linarith

theorem parseWeights_nonneg (lib : DecimalLib) (weightsJson : String)
    (weights : List Decimal) (hok : parseWeights lib weightsJson = .ok weights) :
    ∀ weight ∈ weights, 0 ≤ weight.val := by
  have hall (raw : List Json) (weights : List Decimal)
      (hraw : raw.mapM (weightToDecimal lib) = .ok weights) :
      ∀ weight ∈ weights, 0 ≤ weight.val := by
    induction raw generalizing weights with
    | nil =>
        cases Except.ok.inj hraw
        intro weight hweight
        cases hweight
    | cons head rest ih =>
        rw [List.mapM_cons] at hraw
        obtain ⟨first, hfirst, hraw⟩ := (bind_eq_ok_iff _ _ _).mp hraw
        obtain ⟨others, hothers, hraw⟩ := (bind_eq_ok_iff _ _ _).mp hraw
        cases Except.ok.inj hraw
        intro weight hweight
        rcases List.mem_cons.mp hweight with rfl | hrest
        · exact weightToDecimal_nonneg lib head weight hfirst
        · exact ih others hothers weight hrest
  unfold parseWeights at hok
  split at hok
  · cases hok
  · cases hok
  · exact hall _ weights hok

/-- A sum within less than one unit of a whole amount has fitting floors. -/
theorem floors_fit_of_drift (quotas : List Decimal) (units : Int)
    (hdrift : |(quotas.map Dec.val).sum - units| < 1) :
    0 ≤ units - (quotas.map fun quota => ⌊quota.val⌋).sum ∧
      units - (quotas.map fun quota => ⌊quota.val⌋).sum ≤ quotas.length := by
  have hbounds : (((quotas.map fun quota => ⌊quota.val⌋).sum : Int) : ℚ) ≤
      (quotas.map Dec.val).sum ∧
      (quotas.map Dec.val).sum ≤
        (((quotas.map fun quota => ⌊quota.val⌋).sum + quotas.length : Int) : ℚ) := by
    clear hdrift
    induction quotas with
    | nil => simp
    | cons quota rest ih =>
        have hle := Int.floor_le quota.val
        have hlt := Int.lt_floor_add_one quota.val
        simp only [List.map_cons, List.sum_cons, List.length_cons]
        generalize (rest.map fun quota => ⌊quota.val⌋).sum = floors at ih ⊢
        push_cast at ih ⊢
        constructor <;> linarith
  obtain ⟨hlow, hhigh⟩ := abs_lt.mp hdrift
  generalize (quotas.map fun quota => ⌊quota.val⌋).sum = floors at hbounds ⊢
  have hupper : (floors : ℚ) < ((units + 1 : Int) : ℚ) := by
    push_cast
    linarith
  have hlower : ((units - 1 : Int) : ℚ) < ((floors + quotas.length : Int) : ℚ) := by
    push_cast at hbounds ⊢
    linarith
  have hupper' := Int.cast_lt.mp hupper
  have hlower' := Int.cast_lt.mp hlower
  omega

/-- With whole weights the products are exact, and each quota is off by at most
half a unit of the last digit the division has room for. -/
theorem quotas_drift (lib : DecimalLib) (hlib : lib.Lawful) (total sumWeights : Decimal)
    (units : Int) (htotal : total.val = units) (hpositive : 0 < sumWeights.val)
    (digits : Nat) (hdigits : digits ≤ 28)
    (hroom : |(units : ℚ)| * 10 ^ digits ≤ 79228162514264337593543950335)
    (weights quotas : List Decimal)
    (hwhole : ∀ weight ∈ weights, Whole weight)
    (hshare : ∀ weight ∈ weights, 0 ≤ weight.val ∧ weight.val ≤ sumWeights.val)
    (hquotas : weights.mapM (roundedQuota lib total sumWeights) = some quotas) :
    |(quotas.map Dec.val).sum - units * (weights.map Dec.val).sum / sumWeights.val| ≤
      weights.length * (1 / 2 / 10 ^ digits) := by
  induction weights generalizing quotas with
  | nil =>
      cases Option.some.inj hquotas
      simp
  | cons weight rest ih =>
      rw [List.mapM_cons] at hquotas
      obtain ⟨quota, hquota, hrest⟩ := Option.bind_eq_some_iff.mp hquotas
      obtain ⟨others, hothers, hsome⟩ := Option.bind_eq_some_iff.mp hrest
      cases Option.some.inj hsome
      obtain ⟨scaled, hscaled, hdiv⟩ := Option.bind_eq_some_iff.mp hquota
      obtain ⟨k, hk⟩ := hwhole weight List.mem_cons_self
      have hproduct : scaled.val = units * weight.val := by
        have hrounds := hlib.mul total weight
        rw [hscaled, htotal, hk, ← Int.cast_mul] at hrounds
        rw [hrounds.int, hk]
        push_cast
        ring
      have herror : |quota.val - units * weight.val / sumWeights.val| ≤
          1 / 2 / 10 ^ digits := by
        have hrounds := hlib.div scaled sumWeights hpositive.ne'
        rw [hdiv, hproduct] at hrounds
        refine hrounds.error_le digits hdigits ?_
        obtain ⟨hnonneg, hle⟩ := hshare weight List.mem_cons_self
        have hpart : |units * weight.val / sumWeights.val| ≤ |(units : ℚ)| := by
          rw [abs_div, abs_mul, abs_of_nonneg hnonneg, abs_of_pos hpositive,
            div_le_iff₀ hpositive]
          exact mul_le_mul_of_nonneg_left hle (abs_nonneg _)
        refine le_trans (mul_le_mul_of_nonneg_right hpart (by positivity)) ?_
        exact_mod_cast hroom
      have hothersDrift := ih others
        (fun other hother => hwhole other (List.mem_cons_of_mem weight hother))
        (fun other hother => hshare other (List.mem_cons_of_mem weight hother)) hothers
      simp only [List.map_cons, List.sum_cons, List.length_cons]
      have hsplit : quota.val + (others.map Dec.val).sum -
          units * (weight.val + (rest.map Dec.val).sum) / sumWeights.val =
          (quota.val - units * weight.val / sumWeights.val) +
          ((others.map Dec.val).sum -
            units * (rest.map Dec.val).sum / sumWeights.val) := by ring
      rw [hsplit]
      refine (abs_add_le _ _).trans ?_
      push_cast
      linarith

/-- Whole weights split every amount exactly that leaves the division enough
digits: `10 ^ digits` times the amount still fits the mantissa, and there are
fewer than `2 * 10 ^ digits` weights. -/
theorem allocate_exact_of_whole_weights (lib : DecimalLib) (hlib : lib.Lawful)
    (value : Decimal) (placesStr weightsJson : String) (places : Nat)
    (weights shares : List Decimal) (hplaces : minorPlaces placesStr = .ok places)
    (hweights : parseWeights lib weightsJson = .ok weights)
    (hok : allocate lib value placesStr weightsJson = .ok shares)
    (hwhole : ∀ weight ∈ weights, Whole weight) (digits : Nat) (hdigits : digits ≤ 28)
    (hroom : |(minorUnits value places : ℚ)| * 10 ^ digits ≤
      79228162514264337593543950335)
    (hcount : weights.length < 2 * 10 ^ digits) :
    shares.length = weights.length ∧
      (shares.map Dec.val).sum = minorUnits value places / 10 ^ places := by
  obtain ⟨scale, total, sumWeights, quotas, -, -, htotal, hsumWeights, hpositive, hquotas,
    hquotaCount, -, hlength, hsum⟩ := allocate_shares lib hlib value placesStr weightsJson
      places weights shares hplaces hweights hok
  have hnonneg := parseWeights_nonneg lib weightsJson weights hweights
  have hzero : zero.val = ((0 : Int) : ℚ) := Dec.ofInt_val 0 (by decide)
  have hsumVal : sumWeights.val = (weights.map Dec.val).sum := by
    rw [sumDecimals_whole lib hlib weights zero sumWeights ⟨0, hzero⟩ hwhole hsumWeights,
      hzero]
    simp
  have hshare : ∀ weight ∈ weights, 0 ≤ weight.val ∧ weight.val ≤ sumWeights.val := by
    intro weight hweight
    refine ⟨hnonneg weight hweight, ?_⟩
    rw [hsumVal]
    refine List.single_le_sum ?_ _ (List.mem_map_of_mem hweight)
    intro x hx
    obtain ⟨other, hother, rfl⟩ := List.mem_map.mp hx
    exact hnonneg other hother
  have hdrift := quotas_drift lib hlib total sumWeights (minorUnits value places) htotal
    hpositive digits hdigits hroom weights quotas hwhole hshare hquotas
  rw [← hsumVal, mul_div_assoc, div_self hpositive.ne', mul_one] at hdrift
  have hsmall : (weights.length : ℚ) * (1 / 2 / 10 ^ digits) < 1 := by
    have hcast : (weights.length : ℚ) < 2 * 10 ^ digits := by exact_mod_cast hcount
    have hpos : (0 : ℚ) < 10 ^ digits := by positivity
    rw [div_div, mul_one_div, div_lt_one (by positivity)]
    exact hcast
  have hfit := floors_fit_of_drift quotas (minorUnits value places)
    (hdrift.trans_lt hsmall)
  rw [hquotaCount] at hfit
  refine ⟨hlength, ?_⟩
  rw [hsum, sum_eq_iff]
  exact hfit

end Runlet.DecimalOps
