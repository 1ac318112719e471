import Runlet.Core.Grouping

/-!
Equality of field values in `where`, `unique`, `unique_by` and `group_by`: each
goes by identity keys, which are texts for the wrapper values. Two decimals of
one value and different scales have different texts, so the verbs agree with the
canonical value only while a value keeps one scale.
-/

namespace Runlet.ListUtil

open DecimalOps DictUtil JsObject MoneyUtil NumberText

variable {D O R K : Type}

/-- The keys that were seen, and the records that brought them. -/
def uniqueStep [DecidableEq K] (keyOf : R → K) (state : List K × List R) (r : R) :
    List K × List R :=
  if keyOf r ∈ state.1 then state else (state.1 ++ [keyOf r], state.2 ++ [r])

/-- Keeps the first record of each key, in order. -/
def uniqueBy [DecidableEq K] (keyOf : R → K) (records : List R) : List R :=
  (records.foldl (uniqueStep keyOf) ([], [])).2

/-- The key of a record in a set: numbers that are none equal each other. -/
def fieldKey (texts : Texts D) (property : Property D O) (field : Option String)
    (record : Value D O) : Value D O := idOf texts (fieldOf property record field)

/-- Records whose fields all equal those of the match. -/
def whereMatch [DecidableEq D] [DecidableEq O] (texts : Texts D) (property : Property D O)
    (records : List (Value D O)) (pairs : List (String × Value D O)) : List (Value D O) :=
  records.filter fun r => pairs.all fun pair =>
    idEq texts (fieldOf property r (some pair.1)) pair.2

/-- Different values have different texts, and only money has a space. -/
structure Texts.Lawful (texts : Texts D) : Prop where
  decimal : Function.Injective texts.decimal
  noSpace : ∀ d, ' ' ∉ (texts.decimal d).toList
  iso : Function.Injective texts.iso

/-- Whether two wrapper values of one kind are equal by canonical value. -/
def sameValue : Value Decimal O → Value Decimal O → Option Bool
  | .decimal a, .decimal b => some (a.val = b.val)
  | .money a, .money b => some (a.amount.val = b.amount.val ∧ a.currency = b.currency)
  | .datetime a _, .datetime b _ => some (a = b)
  | .text a, .text b => some (a = b)
  | _, _ => none

section

variable [DecidableEq O] (texts : Texts Decimal) (objectText : O → Except String String)
  (property : Property Decimal O) (field : Option String) (records : List (Value Decimal O))

/-- The four verbs treat wrapper values of one kind as equal exactly by their
canonical value, keep first occurrences and keep the order. -/
structure ByCanonicalValue : Prop where
  selects : ∀ a ∈ records, ∀ b ∈ records, ∀ same name, field = some name →
    sameValue (fieldOf property a field) (fieldOf property b field) = some same →
    (b ∈ whereMatch texts property records [(name, fieldOf property a field)] ↔ same = true)
  collapses : ∀ a ∈ records, ∀ b ∈ records, ∀ same,
    sameValue (fieldOf property a field) (fieldOf property b field) = some same →
    (uniqueBy (fieldKey texts property field) [a, b] = [a] ↔ same = true)
  gathers : ∀ d, groupBy (groupKey texts objectText property field) records = .ok d →
    ∀ a ∈ records, ∀ b ∈ records, ∀ same,
    sameValue (fieldOf property a field) (fieldOf property b field) = some same →
    ((∃ k group, d.obj.get? k = some group ∧ a ∈ group ∧ b ∈ group) ↔ same = true)
  first : ∀ before r after, records = before ++ r :: after →
    (∀ x ∈ before, (sameValue (fieldOf property x field) (fieldOf property r field)).isSome) →
    uniqueBy (fieldKey texts property field) (before ++ [r]) =
      uniqueBy (fieldKey texts property field) before ++
        if ∃ x ∈ before, sameValue (fieldOf property x field) (fieldOf property r field) =
          some true then [] else [r]
  order : (∀ pairs, (whereMatch texts property records pairs).Sublist records) ∧
    (uniqueBy (fieldKey texts property field) records).Sublist records ∧
    ∀ d, groupBy (groupKey texts objectText property field) records = .ok d →
      ∀ k group, d.obj.get? k = some group → group.Sublist records

/-- Every value is written one way, and no key is the one that objects lose. -/
structure OneText : Prop where
  decimals : ∀ a ∈ records, ∀ b ∈ records, ∀ x y : Decimal,
    fieldOf property a field = .decimal x → fieldOf property b field = .decimal y →
    x.val = y.val → x = y
  amounts : ∀ a ∈ records, ∀ b ∈ records, ∀ x y : Money Decimal,
    fieldOf property a field = .money x → fieldOf property b field = .money y →
    x.amount.val = y.amount.val → x.currency = y.currency → x.amount = y.amount
  proto : (∀ r ∈ records, ∃ k, groupKey texts objectText property field r = .ok k) →
    ∀ r ∈ records,
      (sameValue (fieldOf property r field) (fieldOf property r field)).isSome →
      groupKey texts objectText property field r ≠ .ok "__proto__"

end

/-! ### Unique records -/

theorem mem_uniqueStep [DecidableEq K] (keyOf : R → K) (state : List K × List R) (r : R)
    (k : K) : k ∈ (uniqueStep keyOf state r).1 ↔ k ∈ state.1 ∨ keyOf r = k := by
  unfold uniqueStep
  split
  · rename_i hmem
    constructor
    · exact .inl
    · rintro (hk | rfl)
      · exact hk
      · exact hmem
  · rw [List.mem_append, List.mem_singleton, eq_comm (a := k)]

theorem mem_uniqueRun [DecidableEq K] (keyOf : R → K) (records : List R)
    (state : List K × List R) (k : K) :
    k ∈ (records.foldl (uniqueStep keyOf) state).1 ↔
      k ∈ state.1 ∨ ∃ x ∈ records, keyOf x = k := by
  induction records generalizing state with
  | nil => simp
  | cons r rest ih =>
      rw [List.foldl_cons, ih, mem_uniqueStep, or_assoc]
      simp only [List.mem_cons, exists_eq_or_imp]

/-- One more record stays exactly when its key is new. -/
theorem uniqueBy_concat [DecidableEq K] (keyOf : R → K) (records : List R) (r : R) :
    uniqueBy keyOf (records ++ [r]) =
      uniqueBy keyOf records ++ if ∃ x ∈ records, keyOf x = keyOf r then [] else [r] := by
  have hseen := mem_uniqueRun keyOf records ([], []) (keyOf r)
  simp only [List.not_mem_nil, false_or] at hseen
  unfold uniqueBy
  rw [List.foldl_append, List.foldl_cons, List.foldl_nil, uniqueStep]
  simp only [hseen]
  split
  · rw [List.append_nil]
  · rfl

theorem uniqueBy_sublist [DecidableEq K] (keyOf : R → K) (records : List R) :
    (uniqueBy keyOf records).Sublist records := by
  induction records using List.reverseRecOn with
  | nil => exact List.Sublist.refl []
  | append_singleton records r ih =>
      rw [uniqueBy_concat]
      apply List.Sublist.append ih
      split
      · exact List.nil_sublist [r]
      · exact List.Sublist.refl [r]

theorem uniqueBy_pair [DecidableEq K] (keyOf : R → K) (a b : R) :
    uniqueBy keyOf [a, b] = [a] ↔ keyOf a = keyOf b := by
  have hone : uniqueBy keyOf [a] = [a] := rfl
  rw [show [a, b] = [a] ++ [b] from rfl, uniqueBy_concat, hone]
  simp

/-! ### Keys and canonical values -/

theorem money_key_injective (texts : Texts D) (htexts : texts.Lawful) (x y : Money D)
    (heq : texts.decimal x.amount ++ " " ++ x.currency =
      texts.decimal y.amount ++ " " ++ y.currency) : x = y := by
  have hsplit : ∀ m : Money D, Text.splitOnceChars [' ']
      (texts.decimal m.amount ++ " " ++ m.currency).toList =
        some ((texts.decimal m.amount).toList, m.currency.toList) := by
    intro m
    have hchars : (texts.decimal m.amount ++ " " ++ m.currency).toList =
        (texts.decimal m.amount).toList ++ ' ' :: m.currency.toList := by
      simp [String.toList_append]
    rw [hchars]
    exact Text.splitOnceChars_append ' ' [] _ _ (htexts.noSpace m.amount)
  have hparts := hsplit x
  rw [heq, hsplit y, Option.some_inj, Prod.mk.injEq] at hparts
  have hamount := htexts.decimal (String.toList_injective hparts.1)
  have hcurrency := String.toList_injective hparts.2
  cases x
  cases y
  simp_all

/-- Wrapper values of one kind with one key are equal. -/
theorem same_of_key (texts : Texts Decimal) (htexts : texts.Lawful) (v w : Value Decimal O)
    (same : Bool) (hsame : sameValue v w = some same) (hkey : idOf texts v = idOf texts w) :
    same = true := by
  unfold sameValue at hsame
  split at hsame
  · have heq := htexts.decimal (Value.string.inj hkey)
    cases hsame
    simp [heq]
  · have heq := money_key_injective texts htexts _ _ (Value.string.inj hkey)
    cases hsame
    simp [heq]
  · have heq := htexts.iso (Value.string.inj hkey)
    cases hsame
    simp [heq]
  · have heq := Value.string.inj hkey
    cases hsame
    simp [heq]
  · cases hsame

/-- Equal wrapper values have one key when each is written one way. -/
theorem key_of_same (texts : Texts Decimal) (v w : Value Decimal O)
    (hdecimal : ∀ x y : Decimal, v = .decimal x → w = .decimal y → x.val = y.val → x = y)
    (hmoney : ∀ x y : Money Decimal, v = .money x → w = .money y →
      x.amount.val = y.amount.val → x.currency = y.currency → x.amount = y.amount)
    (hsame : sameValue v w = some true) : idOf texts v = idOf texts w := by
  unfold sameValue at hsame
  split at hsame
  · rename_i a b
    have heq := hdecimal a b rfl rfl (by simpa using hsame)
    rw [heq]
  · rename_i a b
    obtain ⟨hval, hcurrency⟩ : a.amount.val = b.amount.val ∧ a.currency = b.currency := by
      simpa using hsame
    have hamount := hmoney a b rfl rfl hval hcurrency
    simp only [idOf, hamount, hcurrency]
  · have heq := by simpa using hsame
    simp only [idOf, heq]
  · have heq := by simpa using hsame
    simp only [idOf, heq]
  · cases hsame

theorem wrapper_key (texts : Texts Decimal) (v w : Value Decimal O) (same : Bool)
    (hsame : sameValue v w = some same) :
    ∃ s t, idOf texts v = .string s ∧ idOf texts w = .string t := by
  unfold sameValue at hsame
  split at hsame
  · exact ⟨_, _, rfl, rfl⟩
  · exact ⟨_, _, rfl, rfl⟩
  · exact ⟨_, _, rfl, rfl⟩
  · exact ⟨_, _, rfl, rfl⟩
  · cases hsame

theorem same_self (texts : Texts Decimal) (htexts : texts.Lawful) (v : Value Decimal O)
    (hsome : (sameValue v v).isSome) : sameValue v v = some true := by
  obtain ⟨same, hsame⟩ := Option.isSome_iff_exists.mp hsome
  rw [hsame, same_of_key texts htexts v v same hsame rfl]

theorem isSome_of_same (v w : Value Decimal O) (same : Bool) (hsame : sameValue v w = some same) :
    (sameValue v v).isSome := by
  unfold sameValue at hsame
  split at hsame
  · rfl
  · rfl
  · rfl
  · rfl
  · cases hsame

/-! ### The four verbs -/

section

variable [DecidableEq O] (texts : Texts Decimal) (objectText : O → Except String String)
  (property : Property Decimal O) (field : Option String) (records : List (Value Decimal O))

omit [DecidableEq O] in
theorem groupKey_wrapper (r : Value Decimal O) (s : String)
    (hkey : idOf texts (fieldOf property r field) = .string s) :
    groupKey texts objectText property field r = .ok s := by
  unfold groupKey
  rw [hkey]
  rfl

theorem mem_whereMatch (name : String) (v b : Value Decimal O) (hb : b ∈ records) (s t : String)
    (hs : idOf texts v = .string s)
    (ht : idOf texts (fieldOf property b (some name)) = .string t) :
    b ∈ whereMatch texts property records [(name, v)] ↔ s = t := by
  unfold whereMatch idEq strictEq
  rw [List.mem_filter]
  simp [hb, hs, ht, eq_comm]

omit [DecidableEq O] in
/-- Two records with keys are in one group exactly when the keys are one, and
not the one that is lost. -/
theorem common_group (d : Dct (List (Value Decimal O)))
    (hok : groupBy (groupKey texts objectText property field) records = .ok d)
    (a b : Value Decimal O) (ha : a ∈ records) (hb : b ∈ records) (s t : String)
    (hs : groupKey texts objectText property field a = .ok s)
    (ht : groupKey texts objectText property field b = .ok t) :
    (∃ k group, d.obj.get? k = some group ∧ a ∈ group ∧ b ∈ group) ↔
      s = t ∧ s ≠ "__proto__" := by
  have hget := groupBy_get? _ records d hok
  constructor
  · rintro ⟨k, group, hgroup, hamem, hbmem⟩
    rw [hget] at hgroup
    split at hgroup
    · rename_i hkey
      cases hgroup
      have hka := of_decide_eq_true (List.mem_filter.mp hamem).2
      have hkb := of_decide_eq_true (List.mem_filter.mp hbmem).2
      rw [hs, Except.ok.injEq] at hka
      rw [ht, Except.ok.injEq] at hkb
      exact ⟨hka.trans hkb.symm, hka ▸ hkey.1⟩
    · cases hgroup
  · rintro ⟨rfl, hproto⟩
    refine ⟨s, _, (hget s).trans (if_pos ⟨hproto, a, ha, hs⟩), ?_, ?_⟩
    · exact List.mem_filter.mpr ⟨ha, decide_eq_true hs⟩
    · exact List.mem_filter.mpr ⟨hb, decide_eq_true ht⟩

theorem byCanonicalValue_of_oneText (htexts : texts.Lawful)
    (hone : OneText texts objectText property field records) :
    ByCanonicalValue texts objectText property field records := by
  have hkey : ∀ a ∈ records, ∀ b ∈ records, ∀ same,
      sameValue (fieldOf property a field) (fieldOf property b field) = some same →
      (idOf texts (fieldOf property a field) = idOf texts (fieldOf property b field) ↔
        same = true) := by
    intro a ha b hb same hsame
    constructor
    · exact same_of_key texts htexts _ _ same hsame
    · rintro rfl
      exact key_of_same texts _ _ (hone.decimals a ha b hb) (hone.amounts a ha b hb) hsame
  refine ⟨?_, ?_, ?_, ?_, ?_⟩
  · intro a ha b hb same name hname hsame
    obtain ⟨s, t, hs, ht⟩ := wrapper_key texts _ _ same hsame
    have hiff := hkey a ha b hb same hsame
    rw [hs, ht, Value.string.injEq] at hiff
    rw [← hiff]
    subst hname
    exact mem_whereMatch texts property records name _ b hb s t hs ht
  · intro a ha b hb same hsame
    rw [uniqueBy_pair, ← hkey a ha b hb same hsame]
    rfl
  · intro d hok a ha b hb same hsame
    obtain ⟨s, t, hs, ht⟩ := wrapper_key texts _ _ same hsame
    have hiff := hkey a ha b hb same hsame
    rw [hs, ht, Value.string.injEq] at hiff
    have hgroupKey := groupKey_wrapper texts objectText property field
    have hproto := hone.proto ((groupBy_ok_iff _ records).mp ⟨d, hok⟩) a ha
      (isSome_of_same _ _ same hsame)
    rw [hgroupKey a s hs, Ne, Except.ok.injEq] at hproto
    rw [common_group texts objectText property field records d hok a b ha hb s t
      (hgroupKey a s hs) (hgroupKey b t ht), hiff, and_iff_left hproto]
  · intro before r after hrecords hkind
    rw [uniqueBy_concat]
    congr 1
    have hmem : ∀ x ∈ before, x ∈ records := by
      intro x hx
      rw [hrecords]
      exact List.mem_append_left _ hx
    have hr : r ∈ records := by
      rw [hrecords]
      exact List.mem_append_right _ List.mem_cons_self
    apply if_congr _ rfl rfl
    apply exists_congr
    intro x
    apply and_congr_right
    intro hx
    obtain ⟨same, hsame⟩ := Option.isSome_iff_exists.mp (hkind x hx)
    unfold fieldKey
    rw [hkey x (hmem x hx) r hr same hsame, hsame, Option.some_inj]
  · refine ⟨fun _ => List.filter_sublist, uniqueBy_sublist _ records, ?_⟩
    intro d hok k group hgroup
    rw [groupBy_get? _ records d hok] at hgroup
    split at hgroup
    · cases hgroup
      exact List.filter_sublist
    · cases hgroup

theorem oneText_of_byCanonicalValue (htexts : texts.Lawful)
    (hverbs : ByCanonicalValue texts objectText property field records) :
    OneText texts objectText property field records := by
  refine ⟨?_, ?_, ?_⟩
  · intro a ha b hb x y hx hy hval
    have hpair := (hverbs.collapses a ha b hb true (by simp [hx, hy, sameValue, hval])).mpr rfl
    rw [uniqueBy_pair, fieldKey, fieldKey, hx, hy] at hpair
    exact htexts.decimal (Value.string.inj hpair)
  · intro a ha b hb x y hx hy hval hcurrency
    have hpair := (hverbs.collapses a ha b hb true
      (by simp [hx, hy, sameValue, hval, hcurrency])).mpr rfl
    rw [uniqueBy_pair, fieldKey, fieldKey, hx, hy] at hpair
    rw [money_key_injective texts htexts x y (Value.string.inj hpair)]
  · intro hkeys r hr hkind hproto
    obtain ⟨d, hok⟩ := (groupBy_ok_iff _ records).mpr hkeys
    have hgroup := (hverbs.gathers d hok r hr r hr true
      (same_self texts htexts _ hkind)).mpr rfl
    rw [common_group texts objectText property field records d hok r r hr hr _ _ hproto
      hproto] at hgroup
    exact hgroup.2 rfl

/-- The verbs go by canonical value exactly when every value is written one way. -/
theorem canonical_identity_iff (htexts : texts.Lawful) :
    ByCanonicalValue texts objectText property field records ↔
      OneText texts objectText property field records :=
  ⟨oneText_of_byCanonicalValue texts objectText property field records htexts,
    byCanonicalValue_of_oneText texts objectText property field records htexts⟩

end

/-- The renderings of the engine's decimals; instants as their milliseconds. -/
def sampleTexts : Texts Decimal where
  decimal := fun d => decimalText d.mantissa d.scale
  iso := fun ms => decimalText ms 0

theorem sampleTexts_lawful : sampleTexts.Lawful where
  decimal := by
    intro a b heq
    obtain ⟨hmantissa, hscale⟩ := decimalText_injective _ _ _ _ heq
    cases a
    cases b
    simp_all
  noSpace := by
    intro d hspace
    rcases mem_decimalText _ _ _ hspace with h | h | h
    · exact absurd h (by decide)
    · exact absurd h (by decide)
    · exact absurd h (by decide)
  iso := by
    intro a b heq
    exact (decimalText_injective _ _ _ _ heq).1

def noObject : Empty → Except String String := fun o => nomatch o

/-- Two equal amounts in different currencies stay apart. -/
theorem canonical_identity_iff_money :
    ByCanonicalValue sampleTexts noObject (fun v _ => v) none
      [.money ⟨one, "USD"⟩, .money ⟨one, "EUR"⟩, .money ⟨one, "USD"⟩] := by
  apply (canonical_identity_iff sampleTexts noObject (fun v _ => v) none _
    sampleTexts_lawful).mpr
  refine ⟨?_, ?_, ?_⟩
  · intro a ha b _ x y hx
    simp only [List.mem_cons, List.not_mem_nil, or_false] at ha
    rcases ha with rfl | rfl | rfl <;> cases hx
  · intro a ha b hb x y hx hy _ _
    simp only [List.mem_cons, List.not_mem_nil, or_false] at ha hb
    rcases ha with rfl | rfl | rfl <;> rcases hb with rfl | rfl | rfl <;> cases hx <;> cases hy <;>
      rfl
  · intro _ r hr _
    simp only [List.mem_cons, List.not_mem_nil, or_false] at hr
    rcases hr with rfl | rfl | rfl <;> decide +kernel

/-- One and one with two decimal places have one value and two keys. -/
theorem scale_splits_value :
    sampleTexts.Lawful ∧ ¬ ByCanonicalValue sampleTexts noObject (fun v _ => v) none
      [.decimal one, .decimal ⟨100, 2, by decide, by decide⟩] := by
  refine ⟨sampleTexts_lawful, ?_⟩
  intro hverbs
  have hpair := (hverbs.collapses _ List.mem_cons_self _
    (List.mem_cons_of_mem _ List.mem_cons_self) true (by decide +kernel)).mpr rfl
  revert hpair
  decide +kernel

end Runlet.ListUtil
