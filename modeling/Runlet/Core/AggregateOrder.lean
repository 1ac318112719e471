import Runlet.Core.AggregateRuns

/-!
The aggregates of a column in any order, over exact arithmetic. A money column
forgets its other values only when they come after its first money value; before
it they are parsed, and an extreme they hold cannot be compared with money. So
the order matters exactly when one currency stands beside other values that are
not blank.
-/

namespace Runlet.ListUtil

open MoneyUtil

variable {O : Type}

/-- Equal results, or none on either side. -/
def Agree {α : Type} (first second : Except String α) : Prop :=
  (Throws first ∧ Throws second) ∨ ∃ x, first = .ok x ∧ second = .ok x

structure AggregatesAgree (ea : ExactArith) (first second : List (Value ℚ O)) : Prop where
  sum : Agree (sum ea.arith first) (sum ea.arith second)
  avg : Agree (avg ea.arith first) (avg ea.arith second)
  min : Agree (min ea.arith first) (min ea.arith second)
  max : Agree (max ea.arith first) (max ea.arith second)

/-- No order of the records changes an aggregate, and money values alone decide
in a column that has one. -/
structure OrderFree (ea : ExactArith) (property : Property ℚ O) (field : Option String)
    (records : List (Value ℚ O)) : Prop where
  perm : ∀ reordered, reordered.Perm records →
    AggregatesAgree ea (column property field reordered) (column property field records)
  moneyOnly : moneys (column property field records) ≠ [] →
    AggregatesAgree ea (column property field records)
      ((column property field records).filter fun v => (moneyOf v).isSome)

/-- No money, money of two currencies, or nothing beside the money. -/
def Unmixed (ea : ExactArith) (values : List (Value ℚ O)) : Prop :=
  moneys values = [] ∨
  (∃ m ∈ moneys values, ∃ m' ∈ moneys values, m.currency ≠ m'.currency) ∨
  ∀ v ∈ values, moneyOf v = none → numOf ea.arith v = .ok none

/-! ### Agreement -/

theorem Agree.refl {α : Type} (result : Except String α) : Agree result result := by
  cases result with
  | error err => exact .inl ⟨⟨err, rfl⟩, ⟨err, rfl⟩⟩
  | ok x => exact .inr ⟨x, rfl, rfl⟩

theorem Agree.bind {α β : Type} {first second : Except String α} (h : Agree first second)
    (next : α → Except String β) : Agree (first >>= next) (second >>= next) := by
  rcases h with ⟨hfirst, hsecond⟩ | ⟨x, rfl, rfl⟩
  · exact .inl ⟨(throws_bind _ _).mpr (.inl hfirst), (throws_bind _ _).mpr (.inl hsecond)⟩
  · exact Agree.refl _

theorem Agree.throws_iff {α : Type} {first second : Except String α}
    (h : Agree first second) : Throws first ↔ Throws second := by
  rcases h with ⟨hfirst, hsecond⟩ | ⟨x, rfl, rfl⟩
  · exact iff_of_true hfirst hsecond
  · rfl

theorem aggregatesAgree_of (ea : ExactArith) (first second : List (Value ℚ O))
    (htotals : Agree (totals ea.arith first) (totals ea.arith second))
    (hmin : Agree (min ea.arith first) (min ea.arith second))
    (hmax : Agree (max ea.arith first) (max ea.arith second)) :
    AggregatesAgree ea first second where
  sum := htotals.bind _
  avg := htotals.bind _
  min := hmin
  max := hmax

/-! ### Columns that agree -/

theorem totals_eq (ea : ExactArith) (values : List (Value ℚ O)) :
    totals ea.arith values = values.foldlM (totalStep ea.arith) ⟨none, 0, 0, 0⟩ := by
  have hzero : ea.arith.parse "0" = .ok 0 := ea.zero
  unfold totals
  rw [hzero]
  rfl

theorem best_unique (g : ℚ → ℚ) (hg : Function.Injective g) (tag : Option String)
    (first second : List (Amount ℚ)) (hperm : second.Perm first)
    (htag : ∀ a ∈ first, a.tag = tag) (x y : Option (Amount ℚ)) (hx : Best g first x)
    (hy : Best g second y) : x = y := by
  cases x with
  | none =>
      cases y with
      | none => rfl
      | some b =>
          have hmem := hperm.mem_iff.mp hy.1
          rw [show first = [] from hx] at hmem
          cases hmem
  | some a =>
      cases y with
      | none =>
          have hmem := hperm.mem_iff.mpr hx.1
          rw [show second = [] from hy] at hmem
          cases hmem
      | some b =>
          have hb := hperm.mem_iff.mp hy.1
          have hle := hx.2 b hb
          have hge := hy.2 a (hperm.mem_iff.mpr hx.1)
          rw [amount_eq a b ((htag a hx.1).trans (htag b hb).symm)
            (hg (le_antisymm hle hge))]

theorem agree_extremum (ea : ExactArith) (keepLeft : Ordering → Bool) (g : ℚ → ℚ)
    (hkeeps : Keeps keepLeft g) (hg : Function.Injective g) (tag : Option String)
    (first second : List (Value ℚ O)) (hfirst : ∀ v ∈ first, ¬ Throws (aggOf ea.arith v))
    (hsecond : ∀ v ∈ second, ¬ Throws (aggOf ea.arith v))
    (htag : ∀ a ∈ amounts ea first, a.tag = tag)
    (hperm : (amounts ea second).Perm (amounts ea first)) :
    Agree (extremum ea.arith keepLeft second) (extremum ea.arith keepLeft first) := by
  obtain ⟨x, hx, hbestx⟩ := extremum_run ea keepLeft g hkeeps tag first hfirst htag [] none rfl
    (by simp)
  obtain ⟨y, hy, hbesty⟩ := extremum_run ea keepLeft g hkeeps tag second hsecond
    (fun a ha => htag a (hperm.mem_iff.mp ha)) [] none rfl (by simp)
  rw [List.nil_append] at hbestx hbesty
  have hsame := best_unique g hg tag _ _ hperm htag x y hbestx hbesty
  exact .inr ⟨x, hsame ▸ hy, hx⟩

theorem aggregatesAgree_of_extremes (ea : ExactArith) (tag : Option String)
    (first second : List (Value ℚ O))
    (htotals : Agree (totals ea.arith second) (totals ea.arith first))
    (hfirst : ∀ v ∈ first, ¬ Throws (aggOf ea.arith v))
    (hsecond : ∀ v ∈ second, ¬ Throws (aggOf ea.arith v))
    (htag : ∀ a ∈ amounts ea first, a.tag = tag)
    (hperm : (amounts ea second).Perm (amounts ea first)) :
    AggregatesAgree ea second first :=
  aggregatesAgree_of ea second first htotals
    (agree_extremum ea _ id min_keeps Function.injective_id tag first second hfirst hsecond
      htag hperm)
    (agree_extremum ea _ Neg.neg max_keeps neg_injective tag first second hfirst hsecond
      htag hperm)

theorem aggregatesAgree_of_throws (ea : ExactArith) (first second : List (Value ℚ O))
    (hthrows : ∀ values, values = first ∨ values = second →
      Throws (totals ea.arith values) ∧
        ∀ keepLeft, Throws (extremum ea.arith keepLeft values)) :
    AggregatesAgree ea second first := by
  have hfirst := hthrows first (.inl rfl)
  have hsecond := hthrows second (.inr rfl)
  exact aggregatesAgree_of ea second first (.inl ⟨hsecond.1, hfirst.1⟩)
    (.inl ⟨hsecond.2 _, hfirst.2 _⟩) (.inl ⟨hsecond.2 _, hfirst.2 _⟩)

/-- Without money any order gives the same numbers, or meets the same bad value. -/
theorem agree_numbers (ea : ExactArith) (first second : List (Value ℚ O))
    (hperm : second.Perm first) (hnone : moneys first = []) :
    AggregatesAgree ea second first := by
  have hnone' : moneys second = [] := by
    have hmoneys := hperm.filterMap moneyOf
    rw [show first.filterMap moneyOf = [] from hnone, List.perm_nil] at hmoneys
    exact hmoneys
  by_cases hbad : ∃ v ∈ first, Throws (numOf ea.arith v)
  · obtain ⟨v, hv, hthrows⟩ := hbad
    have hrun : ∀ values : List (Value ℚ O), v ∈ values → moneys values = [] →
        Throws (totals ea.arith values) ∧
          ∀ keepLeft, Throws (extremum ea.arith keepLeft values) := by
      intro values hmem hempty
      constructor
      · rw [totals_eq]
        exact totals_bad ea values _ rfl hempty v hmem hthrows
      · intro keepLeft
        apply foldlM_throws _ v _ values hmem
        intro best
        apply extremeStep_bad
        rw [aggOf_number ea.arith v (moneyOf_of_moneys_nil values hempty v hmem)]
        obtain ⟨err, herr⟩ := hthrows
        exact ⟨err, by rw [herr]; rfl⟩
    apply aggregatesAgree_of_throws
    rintro values (rfl | rfl)
    · exact hrun _ hv hnone
    · exact hrun _ (hperm.mem_iff.mpr hv) hnone'
  · have hread : ∀ v ∈ first, ¬ Throws (numOf ea.arith v) := fun v hv h => hbad ⟨v, hv, h⟩
    have hread' : ∀ v ∈ second, ¬ Throws (numOf ea.arith v) := fun v hv =>
      hread v (hperm.mem_iff.mp hv)
    have hagg : ∀ values : List (Value ℚ O), moneys values = [] →
        (∀ v ∈ values, ¬ Throws (numOf ea.arith v)) →
        ∀ v ∈ values, ¬ Throws (aggOf ea.arith v) := by
      intro values hempty hnum v hv hthrows
      rw [aggOf_number ea.arith v (moneyOf_of_moneys_nil values hempty v hv)] at hthrows
      obtain ⟨o, ho⟩ := (not_throws_iff _).mp (hnum v hv)
      rw [ho] at hthrows
      obtain ⟨err, herr⟩ := hthrows
      cases herr
    have hnumbers : (numbers ea second).Perm (numbers ea first) := hperm.filterMap _
    have htotals : Agree (totals ea.arith second) (totals ea.arith first) := by
      rw [totals_eq, totals_eq, totals_numbers ea first _ rfl hnone hread,
        totals_numbers ea second _ rfl hnone' hread', hnumbers.sum_eq, hnumbers.length_eq]
      exact Agree.refl _
    apply aggregatesAgree_of_extremes ea none first second htotals (hagg first hnone hread)
      (hagg second hnone' hread') _ (hperm.filterMap _)
    intro a ha
    obtain ⟨v, hv, hval⟩ := List.mem_filterMap.mp ha
    rcases aggOf_cases ea.arith v (moneyOf_of_moneys_nil first hnone v hv) with hb | hn | ⟨d, hd⟩
    · exact absurd hb (hagg first hnone hread v hv)
    · rw [hn] at hval
      cases hval
    · rw [hd] at hval
      cases hval
      rfl

theorem agree_two_currencies (ea : ExactArith) (first second : List (Value ℚ O))
    (hmoneys : ∀ m, m ∈ moneys second ↔ m ∈ moneys first)
    (htwo : ∃ a ∈ moneys first, ∃ b ∈ moneys first, a.currency ≠ b.currency) :
    AggregatesAgree ea second first := by
  have hrun : ∀ values : List (Value ℚ O),
      (∃ a ∈ moneys values, ∃ b ∈ moneys values, a.currency ≠ b.currency) →
      Throws (totals ea.arith values) ∧
        ∀ keepLeft, Throws (extremum ea.arith keepLeft values) := by
    intro values hvalues
    constructor
    · rw [totals_eq]
      exact totals_two_currencies ea values _ rfl hvalues
    · intro keepLeft
      exact extremum_two_currencies ea keepLeft values hvalues
  apply aggregatesAgree_of_throws
  rintro values (rfl | rfl)
  · exact hrun _ htwo
  · apply hrun
    simp only [hmoneys]
    exact htwo

theorem amounts_blank (ea : ExactArith) (values : List (Value ℚ O))
    (hblank : ∀ v ∈ values, moneyOf v = none → numOf ea.arith v = .ok none) :
    amounts ea values = (moneys values).map .money ∧
      ∀ v ∈ values, ¬ Throws (aggOf ea.arith v) := by
  have hagg : ∀ v ∈ values, aggOf ea.arith v = .ok ((moneyOf v).map .money) := by
    intro v hv
    cases hm : moneyOf v with
    | some m => exact aggOf_money ea.arith v m hm
    | none =>
        rw [aggOf_number ea.arith v hm, hblank v hv hm]
        rfl
  constructor
  · unfold amounts moneys
    rw [List.map_filterMap]
    apply List.filterMap_congr
    intro v hv
    rw [hagg v hv]
    cases moneyOf v <;> rfl
  · intro v hv
    rw [hagg v hv]
    exact (not_throws_iff _).mpr ⟨_, rfl⟩

/-- Beside blanks only the money values matter. -/
theorem agree_blank (ea : ExactArith) (first second : List (Value ℚ O))
    (hperm : (moneys second).Perm (moneys first))
    (hblank : ∀ v ∈ first, moneyOf v = none → numOf ea.arith v = .ok none)
    (hblank' : ∀ v ∈ second, moneyOf v = none → numOf ea.arith v = .ok none)
    (hmoneys : moneys first ≠ [])
    (hsame : ∀ a ∈ moneys first, ∀ b ∈ moneys first, a.currency = b.currency) :
    AggregatesAgree ea second first := by
  obtain ⟨m, rest, hm⟩ := List.exists_cons_of_ne_nil hmoneys
  have hnonempty : moneys second ≠ [] := by
    intro hnil
    rw [hnil, List.nil_perm] at hperm
    exact hmoneys hperm
  obtain ⟨m', rest', hm'⟩ := List.exists_cons_of_ne_nil hnonempty
  have hmem : m ∈ moneys first := by
    rw [hm]
    exact List.mem_cons_self
  have hcurrency : ∀ x ∈ moneys first, x.currency = m.currency := fun x hx =>
    hsame x hx m hmem
  have hcurrency' : ∀ x ∈ moneys second, x.currency = m.currency := fun x hx =>
    hcurrency x (hperm.mem_iff.mp hx)
  obtain ⟨hamounts, hread⟩ := amounts_blank ea first hblank
  obtain ⟨hamounts', hread'⟩ := amounts_blank ea second hblank'
  have hhead : m'.currency = m.currency := hcurrency' m' (by rw [hm']; exact List.mem_cons_self)
  have htotals : Agree (totals ea.arith second) (totals ea.arith first) := by
    rw [totals_eq, totals_eq,
      totals_blank ea first _ rfl hblank m rest hm
        (fun x hx => hcurrency x (by rw [hm]; exact List.mem_cons_of_mem m hx)),
      totals_blank ea second _ rfl hblank' m' rest' hm'
        (fun x hx => (hcurrency' x (by rw [hm']; exact List.mem_cons_of_mem m' hx)).trans
          hhead.symm),
      ← hm, ← hm', (hperm.map Money.amount).sum_eq, hperm.length_eq, hhead]
    exact Agree.refl _
  apply aggregatesAgree_of_extremes ea (some m.currency) first second htotals hread hread'
  · intro a ha
    rw [hamounts] at ha
    obtain ⟨x, hx, rfl⟩ := List.mem_map.mp ha
    exact congrArg some (hcurrency x hx)
  · rw [hamounts, hamounts']
    exact hperm.map _

/-! ### Every order -/

theorem orderFree_of_unmixed (ea : ExactArith) (property : Property ℚ O)
    (field : Option String) (records : List (Value ℚ O))
    (hunmixed : Unmixed ea (column property field records)) :
    OrderFree ea property field records := by
  have hcolumn : ∀ reordered : List (Value ℚ O), reordered.Perm records →
      (column property field reordered).Perm (column property field records) :=
    fun reordered hperm => hperm.map _
  by_cases hnone : moneys (column property field records) = []
  · refine ⟨?_, fun h => absurd hnone h⟩
    intro reordered hperm
    exact agree_numbers ea _ _ (hcolumn reordered hperm) hnone
  by_cases htwo : ∃ a ∈ moneys (column property field records),
      ∃ b ∈ moneys (column property field records), a.currency ≠ b.currency
  · constructor
    · intro reordered hperm
      apply agree_two_currencies ea _ _ _ htwo
      intro m
      exact ((hcolumn reordered hperm).filterMap moneyOf).mem_iff
    · intro _
      apply agree_two_currencies ea
      · intro m
        rw [moneys_filter]
      · rw [moneys_filter]
        exact htwo
  have hblank := (hunmixed.resolve_left hnone).resolve_left htwo
  have hsame : ∀ a ∈ moneys (column property field records),
      ∀ b ∈ moneys (column property field records), a.currency = b.currency := by
    intro a ha b hb
    by_contra hne
    exact htwo ⟨a, ha, b, hb, hne⟩
  constructor
  · intro reordered hperm
    apply agree_blank ea _ _ ((hcolumn reordered hperm).filterMap moneyOf) hblank _ hnone hsame
    intro v hv
    exact hblank v ((hcolumn reordered hperm).mem_iff.mp hv)
  · intro _
    have hfilter := moneys_filter (column property field records)
    apply agree_blank ea
    · rw [hfilter]
    · intro v hv
      exact hblank v (List.mem_of_mem_filter hv)
    · exact hblank
    · rw [hfilter]
      exact hnone
    · rw [hfilter]
      exact hsame

/-- The money values of a column in front of the others. -/
theorem money_first (property : Property ℚ O) (field : Option String)
    (records : List (Value ℚ O)) : ∃ reordered front back, reordered.Perm records ∧
      column property field reordered = front ++ back ∧ moneys back = [] ∧
      (∀ v ∈ front, (moneyOf v).isSome) ∧
      moneys front = moneys (column property field records) := by
  refine ⟨_, (column property field records).filter fun v => (moneyOf v).isSome,
    (column property field records).filter fun v => !(moneyOf v).isSome,
    List.filter_append_perm (fun r => (moneyOf (fieldOf property r field)).isSome) records,
    ?_, ?_, ?_, moneys_filter _⟩
  · unfold column
    rw [List.map_append, List.filter_map, List.filter_map]
    rfl
  · apply List.filterMap_eq_nil_iff.mpr
    intro v hv
    have hsome := (List.mem_filter.mp hv).2
    cases hm : moneyOf v with
    | none => rfl
    | some m => simp [hm] at hsome
  · intro v hv
    exact (List.mem_filter.mp hv).2

/-- With the money values in front a sum passes over everything behind. -/
theorem sum_money_first (ea : ExactArith) (front back : List (Value ℚ O))
    (hback : moneys back = []) (hfront : ∀ v ∈ front, (moneyOf v).isSome)
    (hmoney : moneys front ≠ [])
    (hsame : ∀ a ∈ moneys front, ∀ b ∈ moneys front, a.currency = b.currency) :
    ¬ Throws (sum ea.arith (front ++ back)) := by
  cases front with
  | nil => exact absurd rfl hmoney
  | cons v rest =>
      obtain ⟨m, hv⟩ := Option.isSome_iff_exists.mp (hfront v List.mem_cons_self)
      rw [moneys_cons_some v rest m hv] at hsame
      have hmoneys : moneys (rest ++ back) = moneys rest := by
        unfold moneys at hback ⊢
        rw [List.filterMap_append, hback, List.append_nil]
      unfold sum
      rw [totals_eq, List.cons_append, List.foldlM_cons, totalStep_first ea.arith _ v m rfl hv]
      rw [not_throws_iff]
      refine ⟨.money ⟨m.amount + ((moneys (rest ++ back)).map Money.amount).sum, m.currency⟩, ?_⟩
      apply (bind_eq_ok_iff _ _ _).mpr
      refine ⟨_, totals_money ea (rest ++ back) _ m rfl ?_, rfl⟩
      intro x hx
      rw [hmoneys] at hx
      exact hsame x (List.mem_cons_of_mem m hx) m List.mem_cons_self

theorem min_money_first (ea : ExactArith) (front back : List (Value ℚ O))
    (hback : moneys back = []) (hfront : ∀ v ∈ front, (moneyOf v).isSome)
    (m : Money ℚ) (hsame : ∀ a ∈ moneys front, a.currency = m.currency)
    (hread : ∀ v ∈ back, ¬ Throws (numOf ea.arith v)) :
    ¬ Throws (min ea.arith (front ++ back)) := by
  have hblank : ∀ v ∈ front, moneyOf v = none → numOf ea.arith v = .ok none := by
    intro v hv hnone
    have hsome := hfront v hv
    rw [hnone] at hsome
    cases hsome
  obtain ⟨hamounts, hagg⟩ := amounts_blank ea front hblank
  obtain ⟨best, hbest, -⟩ := extremum_run ea _ id min_keeps (some m.currency) front hagg
    (by
      intro a ha
      rw [hamounts] at ha
      obtain ⟨x, hx, rfl⟩ := List.mem_map.mp ha
      exact congrArg some (hsame x hx)) [] none rfl (by simp)
  unfold min extremum
  rw [List.foldlM_append, throws_bind, hbest]
  rintro (⟨err, herr⟩ | ⟨x, hx, hthrows⟩)
  · cases herr
  · exact extremum_numbers ea _ back x hback hread hthrows

/-- Any value can be brought to the front of the list. -/
theorem value_first (ea : ExactArith) (property : Property ℚ O) (field : Option String)
    (records : List (Value ℚ O)) (hfree : OrderFree ea property field records)
    (hmoney : moneys (column property field records) ≠ []) (v : Value ℚ O)
    (hv : v ∈ column property field records) :
    ∃ rest, AggregatesAgree ea (v :: rest) (column property field records) ∧
      (moneyOf v = none → moneys rest ≠ []) := by
  obtain ⟨r, hr, rfl⟩ := List.mem_map.mp hv
  obtain ⟨before, after, rfl⟩ := List.append_of_mem hr
  refine ⟨column property field (before ++ after),
    hfree.perm (r :: (before ++ after)) List.perm_middle.symm, ?_⟩
  intro hnone hnil
  have hall : (moneys (column property field (r :: (before ++ after)))).Perm
      (moneys (column property field (before ++ r :: after))) :=
    ((List.perm_middle.symm).map _).filterMap _
  rw [show column property field (r :: (before ++ after)) =
    fieldOf property r field :: column property field (before ++ after) from rfl,
    moneys_cons_none _ _ hnone, hnil, List.nil_perm] at hall
  exact hmoney hall

theorem unmixed_of_orderFree (ea : ExactArith) (property : Property ℚ O)
    (field : Option String) (records : List (Value ℚ O))
    (hfree : OrderFree ea property field records) :
    Unmixed ea (column property field records) := by
  by_contra hmixed
  unfold Unmixed at hmixed
  simp only [not_or, not_forall] at hmixed
  obtain ⟨hmoney, htwo, x, hx, hxnone, hxnum⟩ := hmixed
  have hsame : ∀ a ∈ moneys (column property field records),
      ∀ b ∈ moneys (column property field records), a.currency = b.currency := by
    intro a ha b hb
    by_contra hne
    exact htwo ⟨a, ha, b, hb, hne⟩
  obtain ⟨reordered, front, back, hperm, hsplit, hback, hfront, hmoneys⟩ :=
    money_first property field records
  have hmoneyFirst := hfree.perm reordered hperm
  rw [hsplit] at hmoneyFirst
  have hmem : ∀ v ∈ back, v ∈ column property field records := by
    intro v hv
    apply (hperm.map fun r => fieldOf property r field).mem_iff.mp
    change v ∈ column property field reordered
    rw [hsplit]
    exact List.mem_append_right _ hv
  have hlead := value_first ea property field records hfree hmoney
  by_cases hbad : ∃ v ∈ column property field records,
      moneyOf v = none ∧ Throws (numOf ea.arith v)
  · obtain ⟨v, hv, hnone, hthrows⟩ := hbad
    obtain ⟨rest, hagree, -⟩ := hlead v hv
    have hsum : Throws (sum ea.arith (v :: rest)) := by
      unfold sum
      rw [totals_eq, List.foldlM_cons]
      apply (throws_bind _ _).mpr
      refine .inl ((throws_bind _ _).mpr (.inl ?_))
      exact totalStep_bad ea.arith _ v rfl hnone hthrows
    rw [hagree.sum.throws_iff, ← hmoneyFirst.sum.throws_iff] at hsum
    exact sum_money_first ea front back hback hfront (by rw [hmoneys]; exact hmoney)
      (by rw [hmoneys]; exact hsame) hsum
  · have hread : ∀ v ∈ column property field records, moneyOf v = none →
        ¬ Throws (numOf ea.arith v) := fun v hv hnone h => hbad ⟨v, hv, hnone, h⟩
    obtain ⟨rest, hagree, hrest⟩ := hlead x hx
    obtain ⟨d, hd⟩ : ∃ d, numOf ea.arith x = .ok (some d) := by
      obtain ⟨o, ho⟩ := (not_throws_iff _).mp (hread x hx hxnone)
      cases o with
      | none => exact absurd ho hxnum
      | some d => exact ⟨d, ho⟩
    have hmin : Throws (min ea.arith (x :: rest)) := by
      have hagg : aggOf ea.arith x = .ok (some (.decimal d)) := by
        rw [aggOf_number ea.arith x hxnone, hd]
        rfl
      unfold min extremum
      rw [List.foldlM_cons, extremeStep_first ea.arith _ x _ hagg]
      exact extremum_decimal_money ea _ rest d (hrest hxnone)
    rw [hagree.min.throws_iff, ← hmoneyFirst.min.throws_iff] at hmin
    obtain ⟨m, more, hm⟩ := List.exists_cons_of_ne_nil hmoney
    have hfirst : m ∈ moneys (column property field records) := by
      rw [hm]
      exact List.mem_cons_self
    apply min_money_first ea front back hback hfront m _ _ hmin
    · intro a ha
      rw [hmoneys] at ha
      exact hsame a ha m hfirst
    · intro v hv
      exact hread v (hmem v hv) (moneyOf_of_moneys_nil back hback v hv)

/-- Every aggregate is free of the order, and a money column of its other
values, exactly when the column is unmixed. -/
theorem aggregates_order_free_iff (ea : ExactArith) (property : Property ℚ O)
    (field : Option String) (records : List (Value ℚ O)) :
    OrderFree ea property field records ↔ Unmixed ea (column property field records) :=
  ⟨unmixed_of_orderFree ea property field records,
    orderFree_of_unmixed ea property field records⟩

/-- Every text reads as zero. -/
def sampleArith : ExactArith where
  parse := fun _ => .ok 0
  div := fun total n => .ok (total / n)
  zero := rfl

def three : Value ℚ Empty := .decimal 3

def fiveDollars : Value ℚ Empty := .money ⟨5, "USD"⟩

/-- A number in front of money makes the minimum throw; behind it, it is
compared. -/
theorem min_depends_on_order :
    Throws (min sampleArith.arith (column (fun v _ => v) none [three, fiveDollars])) ∧
    ¬ Throws (min sampleArith.arith (column (fun v _ => v) none [fiveDollars, three])) ∧
    ¬ OrderFree sampleArith (fun v _ => v) none [fiveDollars, three] := by
  have hthrows : Throws
      (min sampleArith.arith (column (fun v _ => v) none [three, fiveDollars])) :=
    ⟨"can only compare money with money", rfl⟩
  have hreturns : ¬ Throws
      (min sampleArith.arith (column (fun v _ => v) none [fiveDollars, three])) :=
    (not_throws_iff _).mpr ⟨_, rfl⟩
  refine ⟨hthrows, hreturns, ?_⟩
  intro hfree
  have hagree := (hfree.perm [three, fiveDollars] (List.Perm.swap _ _ _)).min
  exact hreturns (hagree.throws_iff.mp hthrows)

end Runlet.ListUtil
