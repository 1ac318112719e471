import Runlet.Core.ListValues
import Runlet.Lib.Pipeline

/-!
The column aggregates of `list.js`: sums and averages by one left fold, minimum
and maximum by another. A column becomes a money column at its first money
value; what stands before it has been read as numbers by then.
-/

namespace Runlet.ListUtil

open MoneyUtil

variable {D O : Type}

/-- A value that is aggregated. -/
inductive Amount (D : Type) where
  | decimal (d : D)
  | money (m : Money D)
  deriving DecidableEq

/-! ### Money -/

def sameCurrency (self other : Money D) : Except String Unit :=
  if self.currency ≠ other.currency then
    .error ("currency mismatch: " ++ self.currency ++ " vs " ++ other.currency ++
      " (no implicit conversion)")
  else .ok ()

def addMoney (ar : Arith D) (self other : Money D) : Except String (Money D) := do
  sameCurrency self other
  let amount ← ar.add self.amount other.amount
  pure ⟨amount, self.currency⟩

def divMoney (ar : Arith D) (self : Money D) (n : Nat) : Except String (Money D) := do
  let amount ← ar.div self.amount n
  pure ⟨amount, self.currency⟩

/-- A decimal compares with money by its amount; money only with money. -/
def Amount.cmp (ar : Arith D) : Amount D → Amount D → Except String Ordering
  | .decimal a, .decimal b => .ok (compare (ar.val a) (ar.val b))
  | .decimal a, .money b => .ok (compare (ar.val a) (ar.val b.amount))
  | .money a, .money b => do
      sameCurrency a b
      pure (compare (ar.val a.amount) (ar.val b.amount))
  | .money _, .decimal _ => .error "can only compare money with money"

/-- Money, else a decimal, else nothing: the value is skipped. -/
def aggOf (ar : Arith D) (v : Value D O) : Except String (Option (Amount D)) :=
  match moneyOf v with
  | some m => .ok (some (.money m))
  | none => (numOf ar v).map fun d => d.map .decimal

/-! ### Totals -/

/-- The running totals; `sum` keeps no counts. -/
structure Totals (D : Type) where
  money : Option (Money D)
  moneyCount : Nat
  dec : D
  decCount : Nat

def totalStep (ar : Arith D) (t : Totals D) (v : Value D O) : Except String (Totals D) :=
  match moneyOf v, t.money with
  | some m, none => .ok { t with money := some m, moneyCount := t.moneyCount + 1 }
  | some m, some total => do
      let total ← addMoney ar total m
      pure { t with money := some total, moneyCount := t.moneyCount + 1 }
  | none, some _ => .ok t
  | none, none => do
      match ← numOf ar v with
      | some d =>
          let dec ← ar.add t.dec d
          pure { t with dec := dec, decCount := t.decCount + 1 }
      | none => pure t

def totals (ar : Arith D) (column : List (Value D O)) : Except String (Totals D) := do
  let zero ← ar.parse "0"
  column.foldlM (totalStep ar) ⟨none, 0, zero, 0⟩

def sum (ar : Arith D) (column : List (Value D O)) : Except String (Amount D) := do
  let t ← totals ar column
  match t.money with
  | some total => pure (.money total)
  | none => pure (.decimal t.dec)

/-- Nothing for a column without values. -/
def avg (ar : Arith D) (column : List (Value D O)) : Except String (Option (Amount D)) := do
  let t ← totals ar column
  match t.money with
  | some total => do
      let mean ← divMoney ar total t.moneyCount
      pure (some (.money mean))
  | none =>
      if t.decCount = 0 then pure none
      else do
        let mean ← ar.div t.dec t.decCount
        pure (some (.decimal mean))

/-! ### Extremes -/

def extremeStep (ar : Arith D) (keepLeft : Ordering → Bool) (best : Option (Amount D))
    (v : Value D O) : Except String (Option (Amount D)) := do
  match ← aggOf ar v, best with
  | none, best => pure best
  | some val, none => pure (some val)
  | some val, some b => do
      let order ← val.cmp ar b
      pure (some (if keepLeft order then val else b))

def extremum (ar : Arith D) (keepLeft : Ordering → Bool) (column : List (Value D O)) :
    Except String (Option (Amount D)) :=
  column.foldlM (extremeStep ar keepLeft) none

def min (ar : Arith D) (column : List (Value D O)) : Except String (Option (Amount D)) :=
  extremum ar (· == .lt) column

def max (ar : Arith D) (column : List (Value D O)) : Except String (Option (Amount D)) :=
  extremum ar (· == .gt) column

/-- The values of one field. -/
def column (property : Property D O) (field : Option String) (records : List (Value D O)) :
    List (Value D O) :=
  records.map fun r => fieldOf property r field

/-- The money values of a column. -/
def moneys (values : List (Value D O)) : List (Money D) := values.filterMap moneyOf

@[simp] theorem moneys_nil : moneys ([] : List (Value D O)) = [] := rfl

theorem moneys_cons_some (v : Value D O) (rest : List (Value D O)) (m : Money D)
    (hm : moneyOf v = some m) : moneys (v :: rest) = m :: moneys rest :=
  List.filterMap_cons_some hm

theorem moneys_cons_none (v : Value D O) (rest : List (Value D O)) (hm : moneyOf v = none) :
    moneys (v :: rest) = moneys rest :=
  List.filterMap_cons_none hm

theorem moneys_cons_eq_nil (v : Value D O) (rest : List (Value D O)) :
    moneys (v :: rest) = [] ↔ moneyOf v = none ∧ moneys rest = [] := by
  cases hv : moneyOf v with
  | none => simp [moneys_cons_none v rest hv]
  | some m => simp [moneys_cons_some v rest m hv]

theorem moneyOf_of_moneys_nil (values : List (Value D O)) (hnone : moneys values = [])
    (v : Value D O) (hv : v ∈ values) : moneyOf v = none :=
  List.filterMap_eq_nil_iff.mp hnone v hv

theorem moneys_filter (values : List (Value D O)) :
    moneys (values.filter fun v => (moneyOf v).isSome) = moneys values := by
  unfold moneys
  rw [List.filterMap_filter]
  apply List.filterMap_congr
  intro v _
  cases moneyOf v <;> rfl

/-! ### Runs that throw -/

def Throws {α : Type} (result : Except String α) : Prop := ∃ err, result = .error err

theorem throws_bind {α β : Type} (first : Except String α) (next : α → Except String β) :
    Throws (first >>= next) ↔ Throws first ∨ ∃ x, first = .ok x ∧ Throws (next x) := by
  cases first with
  | error err => simp [Throws, bind, Except.bind]
  | ok x => simp [Throws, bind, Except.bind]

theorem bind_eq_error_iff {α β : Type} (first : Except String α) (next : α → Except String β)
    (err : String) : (first >>= next) = .error err ↔
      first = .error err ∨ ∃ x, first = .ok x ∧ next x = .error err := by
  cases first with
  | error found => simp [bind, Except.bind]
  | ok x => simp [bind, Except.bind]

theorem not_throws_iff {α : Type} (result : Except String α) :
    ¬ Throws result ↔ ∃ x, result = .ok x := by
  cases result <;> simp [Throws]

/-- A fold throws when one of its items throws in every state. -/
theorem foldlM_throws {S V : Type} (step : S → V → Except String S) (v : V)
    (hstep : ∀ s, Throws (step s v)) (values : List V) (hv : v ∈ values) (s : S) :
    Throws (values.foldlM step s) := by
  induction values generalizing s with
  | nil => cases hv
  | cons x rest ih =>
      rw [List.foldlM_cons, throws_bind]
      rcases List.mem_cons.mp hv with rfl | hrest
      · exact .inl (hstep s)
      · cases hx : step s x with
        | error err => exact .inl ⟨err, rfl⟩
        | ok next => exact .inr ⟨next, rfl, ih hrest next⟩

/-- The error of a fold is one of its steps', in a state the run can reach. -/
theorem foldlM_error {S V : Type} (step : S → V → Except String S) (Reached : S → Prop)
    (values : List V) (hstep : ∀ s, Reached s → ∀ v ∈ values, ∀ next,
      step s v = .ok next → Reached next) (s : S) (hs : Reached s) (err : String)
    (herror : values.foldlM step s = .error err) :
    ∃ s, Reached s ∧ ∃ v ∈ values, step s v = .error err := by
  induction values generalizing s with
  | nil => cases herror
  | cons x rest ih =>
      rw [List.foldlM_cons] at herror
      cases hx : step s x with
      | error found =>
          rw [hx] at herror
          cases herror
          exact ⟨s, hs, x, List.mem_cons_self, hx⟩
      | ok next =>
          rw [hx] at herror
          obtain ⟨s', hs', v, hv, hfound⟩ := ih
            (fun s hs v hv => hstep s hs v (List.mem_cons_of_mem x hv)) next
            (hstep s hs x List.mem_cons_self next hx) herror
          exact ⟨s', hs', v, List.mem_cons_of_mem x hv, hfound⟩

/-! ### Single steps -/

theorem totalStep_skip (ar : Arith D) (t : Totals D) (v : Value D O) (total : Money D)
    (ht : t.money = some total) (hv : moneyOf v = none) : totalStep ar t v = .ok t := by
  simp only [totalStep, hv, ht]

theorem totalStep_first (ar : Arith D) (t : Totals D) (v : Value D O) (m : Money D)
    (ht : t.money = none) (hv : moneyOf v = some m) :
    totalStep ar t v =
      .ok { t with money := some m, moneyCount := t.moneyCount + 1 } := by
  simp only [totalStep, hv, ht]

theorem totalStep_add (ar : Arith D) (t : Totals D) (v : Value D O) (total m : Money D)
    (ht : t.money = some total) (hv : moneyOf v = some m) :
    totalStep ar t v = (addMoney ar total m >>= fun total =>
      pure { t with money := some total, moneyCount := t.moneyCount + 1 }) := by
  simp only [totalStep, hv, ht]

theorem totalStep_blank (ar : Arith D) (t : Totals D) (v : Value D O) (ht : t.money = none)
    (hv : moneyOf v = none) (hnum : numOf ar v = .ok none) :
    totalStep ar t v = .ok t := by
  simp only [totalStep, hv, ht, hnum]
  rfl

theorem totalStep_read (ar : Arith D) (t : Totals D) (v : Value D O) (d : D)
    (ht : t.money = none) (hv : moneyOf v = none) (hnum : numOf ar v = .ok (some d)) :
    totalStep ar t v = (ar.add t.dec d >>= fun dec =>
      pure { t with dec := dec, decCount := t.decCount + 1 }) := by
  simp only [totalStep, hv, ht, hnum]
  rfl

theorem totalStep_bad (ar : Arith D) (t : Totals D) (v : Value D O) (ht : t.money = none)
    (hv : moneyOf v = none) (hnum : Throws (numOf ar v)) :
    Throws (totalStep ar t v) := by
  simp only [totalStep, hv, ht]
  exact (throws_bind _ _).mpr (.inl hnum)

theorem aggOf_money (ar : Arith D) (v : Value D O) (m : Money D) (hv : moneyOf v = some m) :
    aggOf ar v = .ok (some (.money m)) := by
  simp only [aggOf, hv]

theorem aggOf_number (ar : Arith D) (v : Value D O) (hv : moneyOf v = none) :
    aggOf ar v = (numOf ar v).map fun d => d.map .decimal := by
  simp only [aggOf, hv]

/-- What a value that is no money gives an extreme. -/
theorem aggOf_cases (ar : Arith D) (v : Value D O) (hv : moneyOf v = none) :
    Throws (aggOf ar v) ∨ aggOf ar v = .ok none ∨
      ∃ d, aggOf ar v = .ok (some (.decimal d)) := by
  rw [aggOf_number ar v hv]
  cases numOf ar v with
  | error err => exact .inl ⟨err, rfl⟩
  | ok d =>
      cases d with
      | none => exact .inr (.inl rfl)
      | some d => exact .inr (.inr ⟨d, rfl⟩)

theorem extremeStep_none (ar : Arith D) (keepLeft : Ordering → Bool)
    (best : Option (Amount D)) (v : Value D O) (hv : aggOf ar v = .ok none) :
    extremeStep ar keepLeft best v = .ok best := by
  simp only [extremeStep, hv]
  rfl

theorem extremeStep_first (ar : Arith D) (keepLeft : Ordering → Bool) (v : Value D O)
    (val : Amount D) (hv : aggOf ar v = .ok (some val)) :
    extremeStep ar keepLeft none v = .ok (some val) := by
  simp only [extremeStep, hv]
  rfl

theorem extremeStep_some (ar : Arith D) (keepLeft : Ordering → Bool) (v : Value D O)
    (val b : Amount D) (hv : aggOf ar v = .ok (some val)) :
    extremeStep ar keepLeft (some b) v = (val.cmp ar b >>= fun order =>
      pure (some (if keepLeft order then val else b))) := by
  simp only [extremeStep, hv]
  rfl

theorem extremeStep_bad (ar : Arith D) (keepLeft : Ordering → Bool)
    (best : Option (Amount D)) (v : Value D O) (hv : Throws (aggOf ar v)) :
    Throws (extremeStep ar keepLeft best v) :=
  (throws_bind _ _).mpr (.inl hv)

end Runlet.ListUtil
