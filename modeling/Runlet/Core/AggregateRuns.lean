import Mathlib.Algebra.BigOperators.Group.List.Basic
import Runlet.Core.Aggregates

/-!
The two folds behind the aggregates, over exact arithmetic: what the totals hold
of a column of numbers or of money, which columns throw, and which value an
extreme finds.
-/

namespace Runlet.ListUtil

open MoneyUtil

variable {O : Type}

/-- Exact additions; parsing and division are any functions. -/
structure ExactArith where
  parse : String → Except String ℚ
  div : ℚ → Nat → Except String ℚ
  zero : parse "0" = .ok 0

def ExactArith.arith (ea : ExactArith) : Arith ℚ :=
  ⟨id, ea.parse, fun a b => .ok (a + b), ea.div⟩

/-! ### Runs of totals -/

theorem addMoney_same (ea : ExactArith) (a b : Money ℚ) (hsame : a.currency = b.currency) :
    addMoney ea.arith a b = .ok ⟨a.amount + b.amount, a.currency⟩ := by
  unfold addMoney sameCurrency
  rw [if_neg (not_not.mpr hsame)]
  rfl

theorem addMoney_mismatch (ea : ExactArith) (a b : Money ℚ) (hne : a.currency ≠ b.currency) :
    Throws (addMoney ea.arith a b) := by
  unfold addMoney sameCurrency
  rw [if_pos hne]
  exact ⟨_, rfl⟩

/-- The totals after another amount in the currency. -/
def Totals.plus (t : Totals ℚ) (total m : Money ℚ) : Totals ℚ :=
  { t with
    money := some ⟨total.amount + m.amount, total.currency⟩
    moneyCount := t.moneyCount + 1 }

theorem totalStep_same (ea : ExactArith) (t : Totals ℚ) (v : Value ℚ O) (total m : Money ℚ)
    (ht : t.money = some total) (hv : moneyOf v = some m)
    (hsame : total.currency = m.currency) :
    totalStep ea.arith t v = .ok (t.plus total m) := by
  rw [totalStep_add ea.arith t v total m ht hv, addMoney_same ea total m hsame]
  rfl

theorem totalStep_mismatch (ea : ExactArith) (t : Totals ℚ) (v : Value ℚ O)
    (total m : Money ℚ) (ht : t.money = some total) (hv : moneyOf v = some m)
    (hne : total.currency ≠ m.currency) : Throws (totalStep ea.arith t v) := by
  rw [totalStep_add ea.arith t v total m ht hv]
  exact (throws_bind _ _).mpr (.inl (addMoney_mismatch ea total m hne))

theorem totalStep_number (ea : ExactArith) (t : Totals ℚ) (v : Value ℚ O) (d : ℚ)
    (ht : t.money = none) (hv : moneyOf v = none) (hnum : numOf ea.arith v = .ok (some d)) :
    totalStep ea.arith t v =
      .ok { t with dec := t.dec + d, decCount := t.decCount + 1 } := by
  simp only [totalStep, hv, ht, hnum]
  rfl

/-- Behind the first money value only money counts. -/
theorem totals_money (ea : ExactArith) (values : List (Value ℚ O)) (t : Totals ℚ)
    (total : Money ℚ) (ht : t.money = some total)
    (hsame : ∀ m ∈ moneys values, m.currency = total.currency) :
    values.foldlM (totalStep ea.arith) t = .ok { t with
      money := some ⟨total.amount + ((moneys values).map Money.amount).sum, total.currency⟩
      moneyCount := t.moneyCount + (moneys values).length } := by
  induction values generalizing t total with
  | nil =>
      cases t
      simp only [List.foldlM_nil, moneys_nil, List.map_nil, List.sum_nil, add_zero,
        List.length_nil] at ht ⊢
      rw [ht]
      rfl
  | cons v rest ih =>
      rw [List.foldlM_cons]
      cases hv : moneyOf v with
      | none =>
          rw [moneys_cons_none v rest hv] at hsame ⊢
          rw [totalStep_skip ea.arith t v total ht hv]
          exact ih t total ht hsame
      | some m =>
          rw [moneys_cons_some v rest m hv] at hsame ⊢
          have hm : total.currency = m.currency := (hsame m List.mem_cons_self).symm
          rw [totalStep_same ea t v total m ht hv hm]
          refine (ih (t.plus total m) ⟨total.amount + m.amount, total.currency⟩ rfl
            (fun x hx => hsame x (List.mem_cons_of_mem m hx))).trans ?_
          simp only [Totals.plus, List.map_cons, List.sum_cons, List.length_cons, add_assoc,
            add_comm 1]

/-- Another currency is an error. -/
theorem totals_mismatch (ea : ExactArith) (values : List (Value ℚ O)) (t : Totals ℚ)
    (total : Money ℚ) (ht : t.money = some total) (m : Money ℚ) (hm : m ∈ moneys values)
    (hne : total.currency ≠ m.currency) : Throws (values.foldlM (totalStep ea.arith) t) := by
  induction values generalizing t total with
  | nil => cases hm
  | cons v rest ih =>
      rw [List.foldlM_cons]
      cases hv : moneyOf v with
      | none =>
          rw [moneys_cons_none v rest hv] at hm
          rw [totalStep_skip ea.arith t v total ht hv]
          exact ih t total ht hm hne
      | some x =>
          rw [moneys_cons_some v rest x hv] at hm
          by_cases hx : total.currency = x.currency
          · rw [totalStep_same ea t v total x ht hv hx]
            rcases List.mem_cons.mp hm with rfl | hrest
            · exact absurd hx hne
            · exact ih _ ⟨total.amount + x.amount, total.currency⟩ rfl hrest hne
          · exact (throws_bind _ _).mpr (.inl (totalStep_mismatch ea t v total x ht hv hx))

/-- Of two currencies one differs from the first. -/
theorem other_currency (m : Money ℚ) (rest : List (Money ℚ))
    (htwo : ∃ a ∈ m :: rest, ∃ b ∈ m :: rest, a.currency ≠ b.currency) :
    ∃ x ∈ rest, m.currency ≠ x.currency := by
  by_contra hsame
  have hall : ∀ a ∈ m :: rest, a.currency = m.currency := by
    intro a ha
    rcases List.mem_cons.mp ha with rfl | ha
    · rfl
    · by_contra hne
      exact hsame ⟨a, ha, fun h => hne h.symm⟩
  obtain ⟨a, ha, b, hb, hne⟩ := htwo
  exact hne ((hall a ha).trans (hall b hb).symm)

theorem totals_two_currencies (ea : ExactArith) (values : List (Value ℚ O)) (t : Totals ℚ)
    (ht : t.money = none)
    (htwo : ∃ a ∈ moneys values, ∃ b ∈ moneys values, a.currency ≠ b.currency) :
    Throws (values.foldlM (totalStep ea.arith) t) := by
  induction values generalizing t with
  | nil =>
      obtain ⟨a, ha, -⟩ := htwo
      cases ha
  | cons v rest ih =>
      rw [List.foldlM_cons]
      cases hv : moneyOf v with
      | some m =>
          rw [moneys_cons_some v rest m hv] at htwo
          obtain ⟨x, hx, hne⟩ := other_currency m (moneys rest) htwo
          rw [totalStep_first ea.arith t v m ht hv]
          exact totals_mismatch ea rest _ m rfl x hx hne
      | none =>
          rw [moneys_cons_none v rest hv] at htwo
          cases hnum : numOf ea.arith v with
          | error err =>
              exact (throws_bind _ _).mpr (.inl (totalStep_bad ea.arith t v ht hv ⟨err, hnum⟩))
          | ok d =>
              cases d with
              | none =>
                  rw [totalStep_blank ea.arith t v ht hv hnum]
                  exact ih t ht htwo
              | some d =>
                  rw [totalStep_number ea t v d ht hv hnum]
                  exact ih _ ht htwo

/-- Among blanks the first money value starts the total. -/
theorem totals_blank (ea : ExactArith) (values : List (Value ℚ O)) (t : Totals ℚ)
    (ht : t.money = none)
    (hblank : ∀ v ∈ values, moneyOf v = none → numOf ea.arith v = .ok none)
    (m : Money ℚ) (rest : List (Money ℚ)) (hmoneys : moneys values = m :: rest)
    (hsame : ∀ x ∈ rest, x.currency = m.currency) :
    values.foldlM (totalStep ea.arith) t = .ok { t with
      money := some ⟨((m :: rest).map Money.amount).sum, m.currency⟩
      moneyCount := t.moneyCount + (m :: rest).length } := by
  induction values generalizing t with
  | nil => cases hmoneys
  | cons v tail ih =>
      rw [List.foldlM_cons]
      cases hv : moneyOf v with
      | none =>
          rw [moneys_cons_none v tail hv] at hmoneys
          rw [totalStep_blank ea.arith t v ht hv (hblank v List.mem_cons_self hv)]
          exact ih t ht (fun x hx => hblank x (List.mem_cons_of_mem v hx)) hmoneys
      | some x =>
          rw [moneys_cons_some v tail x hv] at hmoneys
          obtain ⟨rfl, rfl⟩ := List.cons.inj hmoneys
          rw [totalStep_first ea.arith t v x ht hv]
          refine (totals_money ea tail _ x rfl hsame).trans ?_
          simp only [List.map_cons, List.sum_cons, List.length_cons, add_assoc, add_comm 1]

/-- The numbers of a column without money. -/
def numbers (ea : ExactArith) (values : List (Value ℚ O)) : List ℚ :=
  values.filterMap fun v => (numOf ea.arith v).toOption.join

theorem totals_numbers (ea : ExactArith) (values : List (Value ℚ O)) (t : Totals ℚ)
    (ht : t.money = none) (hnone : moneys values = [])
    (hread : ∀ v ∈ values, ¬ Throws (numOf ea.arith v)) :
    values.foldlM (totalStep ea.arith) t = .ok { t with
      dec := t.dec + (numbers ea values).sum
      decCount := t.decCount + (numbers ea values).length } := by
  induction values generalizing t with
  | nil => simp [numbers, pure, Except.pure]
  | cons v rest ih =>
      rw [List.foldlM_cons]
      obtain ⟨hv, hnone⟩ := (moneys_cons_eq_nil v rest).mp hnone
      obtain ⟨d, hnum⟩ := (not_throws_iff _).mp (hread v List.mem_cons_self)
      have hrest : ∀ x ∈ rest, ¬ Throws (numOf ea.arith x) := fun x hx =>
        hread x (List.mem_cons_of_mem v hx)
      cases d with
      | none =>
          have hskip : numbers ea (v :: rest) = numbers ea rest :=
            List.filterMap_cons_none (by rw [hnum]; rfl)
          rw [totalStep_blank ea.arith t v ht hv hnum, hskip]
          exact ih t ht hnone hrest
      | some d =>
          have htake : numbers ea (v :: rest) = d :: numbers ea rest :=
            List.filterMap_cons_some (by rw [hnum]; rfl)
          rw [totalStep_number ea t v d ht hv hnum, htake]
          refine (ih { t with dec := t.dec + d, decCount := t.decCount + 1 } ht hnone
            hrest).trans ?_
          simp only [List.sum_cons, List.length_cons, add_assoc, add_comm 1]

theorem totals_bad (ea : ExactArith) (values : List (Value ℚ O)) (t : Totals ℚ)
    (ht : t.money = none) (hnone : moneys values = []) (v : Value ℚ O) (hv : v ∈ values)
    (hbad : Throws (numOf ea.arith v)) : Throws (values.foldlM (totalStep ea.arith) t) := by
  induction values generalizing t with
  | nil => cases hv
  | cons x rest ih =>
      rw [List.foldlM_cons]
      obtain ⟨hx, hnone⟩ := (moneys_cons_eq_nil x rest).mp hnone
      rcases List.mem_cons.mp hv with rfl | hrest
      · exact (throws_bind _ _).mpr (.inl (totalStep_bad ea.arith t v ht hx hbad))
      · cases hnum : numOf ea.arith x with
        | error err =>
            exact (throws_bind _ _).mpr (.inl (totalStep_bad ea.arith t x ht hx ⟨err, hnum⟩))
        | ok d =>
            cases d with
            | none =>
                rw [totalStep_blank ea.arith t x ht hx hnum]
                exact ih t ht hnone hrest
            | some d =>
                rw [totalStep_number ea t x d ht hx hnum]
                exact ih _ ht hnone hrest

/-! ### Runs of extremes -/

/-- A decimal, or money of one currency. -/
def Amount.tag : Amount ℚ → Option String
  | .decimal _ => none
  | .money m => some m.currency

def Amount.value : Amount ℚ → ℚ
  | .decimal d => d
  | .money m => m.amount

theorem amount_eq (a b : Amount ℚ) (htag : a.tag = b.tag) (hvalue : a.value = b.value) :
    a = b := by
  cases a with
  | decimal d =>
      cases b with
      | decimal e => exact congrArg Amount.decimal hvalue
      | money m => cases htag
  | money m =>
      cases b with
      | decimal e => cases htag
      | money n =>
          cases m
          cases n
          simp_all [Amount.tag, Amount.value]

theorem cmp_same_tag (ea : ExactArith) (a b : Amount ℚ) (htag : a.tag = b.tag) :
    a.cmp ea.arith b = .ok (compare a.value b.value) := by
  cases a with
  | decimal d =>
      cases b with
      | decimal e => rfl
      | money m => cases htag
  | money m =>
      cases b with
      | decimal e => cases htag
      | money n =>
          have hsame : m.currency = n.currency := Option.some.inj htag
          simp only [Amount.cmp, sameCurrency, hsame, ne_eq, not_true, if_false]
          rfl

/-- The first of the amounts in an order of their values. -/
def Best (g : ℚ → ℚ) (amounts : List (Amount ℚ)) : Option (Amount ℚ) → Prop
  | none => amounts = []
  | some a => a ∈ amounts ∧ ∀ b ∈ amounts, g a.value ≤ g b.value

def amounts (ea : ExactArith) (values : List (Value ℚ O)) : List (Amount ℚ) :=
  values.filterMap fun v => (aggOf ea.arith v).toOption.join

/-- The comparison keeps the left value when it comes first in the order. -/
def Keeps (keepLeft : Ordering → Bool) (g : ℚ → ℚ) : Prop :=
  ∀ x y : ℚ, keepLeft (compare x y) = decide (g x < g y)

theorem min_keeps : Keeps (· == .lt) id := by
  intro x y
  rcases lt_trichotomy x y with h | h | h
  · simp [compare_lt_iff_lt.mpr h, h]
  · simp [h]
  · simp [compare_gt_iff_gt.mpr h, h.le]

theorem max_keeps : Keeps (· == .gt) Neg.neg := by
  intro x y
  rcases lt_trichotomy x y with h | h | h
  · simp [compare_lt_iff_lt.mpr h, h.le]
  · simp [h]
  · simp [compare_gt_iff_gt.mpr h, h]

theorem best_step (keepLeft : Ordering → Bool) (g : ℚ → ℚ) (hkeeps : Keeps keepLeft g)
    (seen : List (Amount ℚ)) (b val : Amount ℚ) (hbest : Best g seen (some b)) :
    Best g (seen ++ [val])
      (some (if keepLeft (compare val.value b.value) then val else b)) := by
  obtain ⟨hmem, hleast⟩ := hbest
  rw [hkeeps]
  by_cases hlt : g val.value < g b.value
  · rw [if_pos (decide_eq_true hlt)]
    refine ⟨List.mem_append_right _ List.mem_cons_self, ?_⟩
    intro x hx
    rcases List.mem_append.mp hx with hx | hx
    · exact hlt.le.trans (hleast x hx)
    · rw [List.mem_singleton.mp hx]
  · rw [if_neg (by simpa using hlt)]
    refine ⟨List.mem_append_left _ hmem, ?_⟩
    intro x hx
    rcases List.mem_append.mp hx with hx | hx
    · exact hleast x hx
    · rw [List.mem_singleton.mp hx]
      exact not_lt.mp hlt

/-- Over values of one kind the run finds the first in the order. -/
theorem extremum_run (ea : ExactArith) (keepLeft : Ordering → Bool) (g : ℚ → ℚ)
    (hkeeps : Keeps keepLeft g) (tag : Option String) (values : List (Value ℚ O))
    (hread : ∀ v ∈ values, ¬ Throws (aggOf ea.arith v))
    (htag : ∀ a ∈ amounts ea values, a.tag = tag) (seen : List (Amount ℚ))
    (best : Option (Amount ℚ)) (hbest : Best g seen best) (hseen : ∀ a ∈ seen, a.tag = tag) :
    ∃ final, values.foldlM (extremeStep ea.arith keepLeft) best = .ok final ∧
      Best g (seen ++ amounts ea values) final := by
  induction values generalizing seen best with
  | nil =>
      refine ⟨best, rfl, ?_⟩
      rw [show amounts ea ([] : List (Value ℚ O)) = [] from rfl, List.append_nil]
      exact hbest
  | cons v rest ih =>
      rw [List.foldlM_cons]
      obtain ⟨o, ho⟩ := (not_throws_iff _).mp (hread v List.mem_cons_self)
      have hrest : ∀ x ∈ rest, ¬ Throws (aggOf ea.arith x) := fun x hx =>
        hread x (List.mem_cons_of_mem v hx)
      cases o with
      | none =>
          have hskip : amounts ea (v :: rest) = amounts ea rest :=
            List.filterMap_cons_none (by rw [ho]; rfl)
          rw [hskip] at htag ⊢
          rw [extremeStep_none ea.arith keepLeft best v ho]
          exact ih hrest htag seen best hbest hseen
      | some val =>
          have htake : amounts ea (v :: rest) = val :: amounts ea rest :=
            List.filterMap_cons_some (by rw [ho]; rfl)
          rw [htake] at htag ⊢
          have hval := htag val List.mem_cons_self
          have hnext : ∀ a ∈ seen ++ [val], a.tag = tag := by
            intro a ha
            rcases List.mem_append.mp ha with ha | ha
            · exact hseen a ha
            · rw [List.mem_singleton.mp ha]
              exact hval
          have htail : ∀ a ∈ amounts ea rest, a.tag = tag := fun a ha =>
            htag a (List.mem_cons_of_mem val ha)
          rw [show seen ++ val :: amounts ea rest = (seen ++ [val]) ++ amounts ea rest by simp]
          cases best with
          | none =>
              have hempty : seen = [] := hbest
              rw [extremeStep_first ea.arith keepLeft v val ho]
              refine ih hrest htail (seen ++ [val]) (some val) ?_ hnext
              subst hempty
              refine ⟨List.mem_cons_self, ?_⟩
              intro x hx
              rw [List.mem_singleton.mp hx]
          | some b =>
              have hcmp := cmp_same_tag ea val b (hval.trans (hseen b hbest.1).symm)
              rw [extremeStep_some ea.arith keepLeft v val b ho, hcmp]
              exact ih hrest htail (seen ++ [val]) _
                (best_step keepLeft g hkeeps seen b val hbest) hnext

/-- Once a decimal leads, money cannot be compared with it. -/
theorem extremum_decimal_money (ea : ExactArith) (keepLeft : Ordering → Bool)
    (values : List (Value ℚ O)) (lead : ℚ) (hmoney : moneys values ≠ []) :
    Throws (values.foldlM (extremeStep ea.arith keepLeft) (some (.decimal lead))) := by
  induction values generalizing lead with
  | nil => exact absurd rfl hmoney
  | cons v rest ih =>
      rw [List.foldlM_cons]
      cases hv : moneyOf v with
      | some m =>
          apply (throws_bind _ _).mpr
          rw [extremeStep_some ea.arith keepLeft v _ _ (aggOf_money ea.arith v m hv)]
          exact .inl ((throws_bind _ _).mpr (.inl ⟨_, rfl⟩))
      | none =>
          rw [moneys_cons_none v rest hv] at hmoney
          rcases aggOf_cases ea.arith v hv with hbad | hnone | ⟨d, hd⟩
          · exact (throws_bind _ _).mpr (.inl (extremeStep_bad ea.arith keepLeft _ v hbad))
          · rw [extremeStep_none ea.arith keepLeft _ v hnone]
            exact ih lead hmoney
          · rw [extremeStep_some ea.arith keepLeft v _ _ hd]
            change Throws (List.foldlM _ (some (if _ then Amount.decimal d
              else Amount.decimal lead)) rest)
            split
            · exact ih d hmoney
            · exact ih lead hmoney

/-- Money that leads meets another currency, or the decimal that replaced it does. -/
theorem extremum_other_currency (ea : ExactArith) (keepLeft : Ordering → Bool)
    (values : List (Value ℚ O)) (lead other : Money ℚ) (hother : other ∈ moneys values)
    (hne : lead.currency ≠ other.currency) :
    Throws (values.foldlM (extremeStep ea.arith keepLeft) (some (.money lead))) := by
  induction values generalizing lead with
  | nil => cases hother
  | cons v rest ih =>
      rw [List.foldlM_cons]
      cases hv : moneyOf v with
      | some m =>
          rw [moneys_cons_some v rest m hv] at hother
          rw [extremeStep_some ea.arith keepLeft v _ _ (aggOf_money ea.arith v m hv)]
          by_cases hsame : m.currency = lead.currency
          · have hrest : other ∈ moneys rest := by
              rcases List.mem_cons.mp hother with rfl | hrest
              · exact absurd hsame.symm hne
              · exact hrest
            rw [cmp_same_tag ea (.money m) (.money lead) (congrArg some hsame)]
            change Throws (List.foldlM _ (some (if _ then Amount.money m
              else Amount.money lead)) rest)
            split
            · exact ih m hrest (hsame ▸ hne)
            · exact ih lead hrest hne
          · refine (throws_bind _ _).mpr (.inl ((throws_bind _ _).mpr (.inl ?_)))
            simp only [Amount.cmp, sameCurrency, ne_eq, hsame, not_false_iff, if_true]
            exact ⟨_, rfl⟩
      | none =>
          rw [moneys_cons_none v rest hv] at hother
          rcases aggOf_cases ea.arith v hv with hbad | hnone | ⟨d, hd⟩
          · exact (throws_bind _ _).mpr (.inl (extremeStep_bad ea.arith keepLeft _ v hbad))
          · rw [extremeStep_none ea.arith keepLeft _ v hnone]
            exact ih lead hother hne
          · rw [extremeStep_some ea.arith keepLeft v _ _ hd]
            change Throws (List.foldlM _ (some (if _ then Amount.decimal d
              else Amount.money lead)) rest)
            split
            · exact extremum_decimal_money ea keepLeft rest d (List.ne_nil_of_mem hother)
            · exact ih lead hother hne

theorem extremum_two_currencies (ea : ExactArith) (keepLeft : Ordering → Bool)
    (values : List (Value ℚ O))
    (htwo : ∃ a ∈ moneys values, ∃ b ∈ moneys values, a.currency ≠ b.currency) :
    Throws (extremum ea.arith keepLeft values) := by
  unfold extremum
  induction values with
  | nil =>
      obtain ⟨a, ha, -⟩ := htwo
      cases ha
  | cons v rest ih =>
      rw [List.foldlM_cons]
      cases hv : moneyOf v with
      | some m =>
          rw [moneys_cons_some v rest m hv] at htwo
          obtain ⟨x, hx, hne⟩ := other_currency m (moneys rest) htwo
          rw [extremeStep_first ea.arith keepLeft v _ (aggOf_money ea.arith v m hv)]
          exact extremum_other_currency ea keepLeft rest m x hx hne
      | none =>
          rw [moneys_cons_none v rest hv] at htwo
          rcases aggOf_cases ea.arith v hv with hbad | hnone | ⟨d, hd⟩
          · exact (throws_bind _ _).mpr (.inl (extremeStep_bad ea.arith keepLeft _ v hbad))
          · rw [extremeStep_none ea.arith keepLeft _ v hnone]
            exact ih htwo
          · obtain ⟨a, ha, -⟩ := htwo
            rw [extremeStep_first ea.arith keepLeft v _ hd]
            exact extremum_decimal_money ea keepLeft rest d (List.ne_nil_of_mem ha)

/-- Numbers compare with whatever leads. -/
theorem extremum_numbers (ea : ExactArith) (keepLeft : Ordering → Bool)
    (values : List (Value ℚ O)) (best : Option (Amount ℚ)) (hnone : moneys values = [])
    (hread : ∀ v ∈ values, ¬ Throws (numOf ea.arith v)) :
    ¬ Throws (values.foldlM (extremeStep ea.arith keepLeft) best) := by
  induction values generalizing best with
  | nil => exact (not_throws_iff _).mpr ⟨best, rfl⟩
  | cons v rest ih =>
      rw [List.foldlM_cons]
      obtain ⟨hv, hnone⟩ := (moneys_cons_eq_nil v rest).mp hnone
      have hrest : ∀ x ∈ rest, ¬ Throws (numOf ea.arith x) := fun x hx =>
        hread x (List.mem_cons_of_mem v hx)
      rcases aggOf_cases ea.arith v hv with hbad | hskip | ⟨d, hd⟩
      · rw [aggOf_number ea.arith v hv] at hbad
        obtain ⟨o, ho⟩ := (not_throws_iff _).mp (hread v List.mem_cons_self)
        rw [ho] at hbad
        obtain ⟨err, herr⟩ := hbad
        cases herr
      · rw [extremeStep_none ea.arith keepLeft best v hskip]
        exact ih best hnone hrest
      · cases best with
        | none =>
            rw [extremeStep_first ea.arith keepLeft v _ hd]
            exact ih _ hnone hrest
        | some b =>
            rw [extremeStep_some ea.arith keepLeft v _ b hd]
            cases b <;> exact ih _ hnone hrest

end Runlet.ListUtil
