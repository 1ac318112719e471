import Runlet.Core.LatencyHistogram
import Runlet.Lib.Ledger
import Runlet.Lib.Transition

/-!
One scrape of a latency histogram while any number of threads observe. An
observation is up to three atomic additions, a scrape fourteen loads, and they
interleave freely. A scrape tears an observation whose bucket it reads after,
and whose count it reads before, the addition; an observation beyond the last
bound is counted and in no bucket.
-/

namespace Runlet.Metrics

open Ledger Transition

/-- Where a thread stands in `observe`, named after what comes next. -/
inductive Observer where
  | idle
  | counting (micros : UInt64)
  | summing (micros : UInt64)
  deriving DecidableEq

structure State where
  histogram : LatencyHistogram
  observers : List Observer
  scraper : Scraper
  deriving DecidableEq

/-- An atomic operation of the thread with an index, or the next load. -/
inductive Action where
  | observe (i : Nat) (micros : UInt64)
  | count (i : Nat)
  | sum (i : Nat)
  | load
  deriving DecidableEq

def State.init (threads : Nat) : State :=
  ⟨.default, List.replicate threads .idle, .start⟩

def step (s : State) : Action → Option State
  | .observe i micros =>
      match s.observers[i]? with
      | some .idle => some
          { s with
            histogram := s.histogram.bump micros
            observers := s.observers.set i (.counting micros) }
      | _ => none
  | .count i =>
      match s.observers[i]? with
      | some (.counting micros) => some
          { s with
            histogram := { s.histogram with count := s.histogram.count + 1 }
            observers := s.observers.set i (.summing micros) }
      | _ => none
  | .sum i =>
      match s.observers[i]? with
      | some (.summing micros) => some
          { s with
            histogram := { s.histogram with sumUs := s.histogram.sumUs + micros }
            observers := s.observers.set i .idle }
      | _ => none
  | .load => (s.scraper.load s.histogram).map fun scraper => { s with scraper := scraper }

/-! ### Torn observations -/

/-- One, if an observation goes to a bucket from the `k`-th on. -/
def ahead (k : Nat) (micros : UInt64) : Nat :=
  match bucketOf micros with
  | none => 0
  | some i => if k ≤ i.val then 1 else 0

/-- The observation is in its bucket, if it has one, and not counted yet. -/
def Observer.uncounted : Observer → Nat
  | .counting _ => 1
  | _ => 0

/-- The observation is in a bucket and not counted yet. -/
def Observer.held : Observer → Nat
  | .counting micros => ahead 0 micros
  | _ => 0

/-- The observation is beyond the last bound and not counted yet. -/
def Observer.outlier : Observer → Nat
  | .counting micros => if 10000000 < micros then 1 else 0
  | _ => 0

/-- One, if the count has been loaded and the bucket of the observation has not. -/
def Scraper.unread : Scraper → UInt64 → Nat
  | .start, _ => 0
  | .loading _ _ lines, micros => ahead lines.length micros
  | .done _, _ => 0

/-- The observations started, those beyond the last bound that were counted when the count
was loaded, and the torn ones: in a bucket before that is loaded, counted after the count
was. -/
structure Tally where
  started : Nat
  outliers : Nat
  torn : Nat

def Tally.zero : Tally := ⟨0, 0, 0⟩

def Tally.after (tally : Tally) (s : State) : Action → Tally
  | .observe _ micros =>
      { tally with started := tally.started + 1, torn := tally.torn + s.scraper.unread micros }
  | .count i =>
      match s.scraper, s.observers[i]? with
      | .start, some observer => { tally with outliers := tally.outliers + observer.outlier }
      | _, _ => tally
  | .sum _ => tally
  | .load =>
      match s.scraper with
      | .start => { tally with torn := tally.torn + total Observer.held s.observers }
      | _ => tally

/-- The tally at the end of a run. -/
def tallyOf (s : State) (actions : List Action) : Tally :=
  observed step Tally.after s .zero actions

/-! ### What the buckets hold -/

/-- The observations in the buckets from the `k`-th on. -/
def LatencyHistogram.rest (histogram : LatencyHistogram) (k : Nat) : Nat :=
  total UInt64.toNat (histogram.buckets.toList.drop k)

theorem rest_next (histogram : LatencyHistogram) (k : Nat) (hk : k < 12) :
    histogram.rest k = histogram.buckets[k].toNat + histogram.rest (k + 1) := by
  unfold LatencyHistogram.rest
  rw [List.drop_eq_getElem_cons (by rwa [Vector.length_toList]), total_cons, Vector.getElem_toList]

theorem rest_end (histogram : LatencyHistogram) : histogram.rest 12 = 0 := by
  unfold LatencyHistogram.rest
  rw [List.drop_of_length_le (by rw [Vector.length_toList])]
  rfl

theorem rest_bump (histogram : LatencyHistogram) (micros : UInt64) (k : Nat)
    (hroom : histogram.rest 0 + 1 < 2 ^ 64) :
    (histogram.bump micros).rest k = histogram.rest k + ahead k micros := by
  unfold LatencyHistogram.bump ahead
  cases hbucket : bucketOf micros with
  | none => rfl
  | some i =>
      have hlength : i.val < histogram.buckets.toList.length := by
        rw [Vector.length_toList]
        exact i.isLt
      have hle : histogram.buckets[i].toNat ≤ histogram.rest 0 := by
        apply Ledger.le_total
        rw [List.drop_zero]
        exact Vector.getElem_toList .. ▸ List.getElem_mem hlength
      have hvalue : (histogram.buckets[i] + 1).toNat = histogram.buckets[i].toNat + 1 := by
        rw [UInt64.toNat_add]
        exact Nat.mod_eq_of_lt (Nat.lt_of_le_of_lt (Nat.succ_le_succ hle) hroom)
      unfold LatencyHistogram.rest
      dsimp only
      rw [Vector.toList_set, List.drop_set]
      by_cases hread : i.val < k
      · rw [if_pos hread, if_neg (Nat.not_le.mpr hread)]
        rfl
      · have hold : (histogram.buckets.toList.drop k)[i.val - k]? = some histogram.buckets[i] := by
          rw [List.getElem?_drop, Nat.add_sub_cancel' (Nat.not_lt.mp hread),
            List.getElem?_eq_getElem hlength, Vector.getElem_toList]
          rfl
        have hset := total_set UInt64.toNat _ _ _ (histogram.buckets[i] + 1) hold
        rw [if_neg hread, if_pos (Nat.not_lt.mp hread)]
        rw [hvalue] at hset
        omega

/-- The observation is no further ahead of a later bucket. -/
theorem ahead_le (k : Nat) (micros : UInt64) : ahead k micros ≤ ahead 0 micros := by
  unfold ahead
  cases bucketOf micros with
  | none => exact Nat.le_refl 0
  | some i =>
      dsimp only
      rw [if_pos (Nat.zero_le i.val)]
      split
      · exact Nat.le_refl 1
      · exact Nat.zero_le 1

/-- An observation is in a bucket or an outlier. -/
theorem held_add_outlier (micros : UInt64) :
    (Observer.counting micros).held + (Observer.counting micros).outlier = 1 := by
  have hnone := bucketOf_eq_none micros
  dsimp only [Observer.held, Observer.outlier, ahead]
  cases hbucket : bucketOf micros with
  | none => rw [if_pos (hnone.mp hbucket)]
  | some i =>
      have hwithin : ¬10000000 < micros := by
        intro hbeyond
        cases hbucket.symm.trans (hnone.mpr hbeyond)
      dsimp only
      rw [if_pos (Nat.zero_le i.val), if_neg hwithin]

/-! ### What a scrape accounts for -/

/-- What the scrape has read and still will is what it loaded as the count, but for the
observations that were torn and those that are in no bucket. -/
def Scraper.Level (scraper : Scraper) (histogram : LatencyHistogram) (observers : List Observer)
    (tally : Tally) : Prop :=
  match scraper with
  | .start =>
      tally.torn = 0 ∧
        histogram.rest 0 + tally.outliers =
          histogram.count.toNat + Ledger.total Observer.held observers
  | .loading total cumulative lines =>
      cumulative.toNat + histogram.rest lines.length ≤ histogram.rest 0 ∧
        cumulative.toNat + histogram.rest lines.length + tally.outliers = total.toNat + tally.torn
  | .done series =>
      (series.buckets.getLastD 0).toNat + tally.outliers = series.inf.toNat + tally.torn

structure Balanced (s : State) (tally : Tally) : Prop where
  shaped : s.scraper.Shaped
  counted : s.histogram.count.toNat + total Observer.uncounted s.observers = tally.started
  stored : s.histogram.rest 0 ≤ tally.started
  level : s.scraper.Level s.histogram s.observers tally

theorem total_replicate_idle (units : Observer → Nat) (hidle : units .idle = 0) (threads : Nat) :
    total units (List.replicate threads .idle) = 0 := by
  apply (total_eq_zero_iff units _).mpr
  intro observer hobserver
  rw [List.eq_of_mem_replicate hobserver, hidle]

theorem balanced_init (threads : Nat) : Balanced (State.init threads) .zero := by
  have hcounting := total_replicate_idle Observer.uncounted rfl threads
  have hholding := total_replicate_idle Observer.held rfl threads
  refine ⟨trivial, ?_, Nat.le_refl 0, rfl, ?_⟩
  · exact congrArg (0 + ·) hcounting
  · exact (congrArg (0 + ·) hholding).symm

theorem step_observe_eq_some (s next : State) (i : Nat) (micros : UInt64)
    (hstep : step s (.observe i micros) = some next) :
    s.observers[i]? = some .idle ∧
      next = { s with
        histogram := s.histogram.bump micros
        observers := s.observers.set i (.counting micros) } := by
  dsimp only [step] at hstep
  split at hstep
  · next hidle => exact ⟨hidle, (Option.some.inj hstep).symm⟩
  · cases hstep

theorem step_count_eq_some (s next : State) (i : Nat) (hstep : step s (.count i) = some next) :
    ∃ micros, s.observers[i]? = some (.counting micros) ∧
      next = { s with
        histogram := { s.histogram with count := s.histogram.count + 1 }
        observers := s.observers.set i (.summing micros) } := by
  dsimp only [step] at hstep
  split at hstep
  · next micros hcounting => exact ⟨micros, hcounting, (Option.some.inj hstep).symm⟩
  · cases hstep

theorem step_sum_eq_some (s next : State) (i : Nat) (hstep : step s (.sum i) = some next) :
    ∃ micros, s.observers[i]? = some (.summing micros) ∧
      next = { s with
        histogram := { s.histogram with sumUs := s.histogram.sumUs + micros }
        observers := s.observers.set i .idle } := by
  dsimp only [step] at hstep
  split at hstep
  · next micros hsumming => exact ⟨micros, hsumming, (Option.some.inj hstep).symm⟩
  · cases hstep

theorem step_load_eq_some (s next : State) (hstep : step s .load = some next) :
    ∃ scraper, s.scraper.load s.histogram = some scraper ∧
      next = { s with scraper := scraper } := by
  obtain ⟨scraper, hload, heq⟩ := Option.map_eq_some_iff.mp hstep
  exact ⟨scraper, hload, heq.symm⟩

theorem Tally.after_count_started (tally : Tally) (s : State) (i : Nat) :
    (tally.after s (.count i)).started = tally.started := by
  dsimp only [after]
  split <;> rfl

theorem Tally.after_load_started (tally : Tally) (s : State) :
    (tally.after s .load).started = tally.started := by
  dsimp only [after]
  split <;> rfl

theorem Tally.started_le (tally : Tally) (s : State) (a : Action) :
    tally.started ≤ (tally.after s a).started := by
  cases a with
  | observe i micros => exact Nat.le_succ _
  | count i => exact Nat.le_of_eq (tally.after_count_started s i).symm
  | sum i => exact Nat.le_refl _
  | load => exact Nat.le_of_eq (tally.after_load_started s).symm

theorem LatencyHistogram.bump_count (histogram : LatencyHistogram) (micros : UInt64) :
    (histogram.bump micros).count = histogram.count := by
  unfold bump
  cases bucketOf micros <;> rfl

theorem Balanced.observe {s next : State} {tally : Tally} (h : Balanced s tally) (i : Nat)
    (micros : UInt64) (hroom : tally.started + 1 < 2 ^ 64)
    (hstep : step s (.observe i micros) = some next) :
    Balanced next (tally.after s (.observe i micros)) := by
  obtain ⟨hidle, rfl⟩ := step_observe_eq_some s next i micros hstep
  have hbump := fun k => rest_bump s.histogram micros k
    (Nat.lt_of_le_of_lt (Nat.succ_le_succ h.stored) hroom)
  have huncounted := total_set Observer.uncounted _ _ _ (.counting micros) hidle
  have hheld := total_set Observer.held _ _ _ (.counting micros) hidle
  have hone := held_add_outlier micros
  have hstored := h.stored
  have hcounted := h.counted
  dsimp only [Observer.uncounted, Observer.held] at huncounted hheld hone
  refine ⟨h.shaped, ?_, ?_, ?_⟩
  · rw [LatencyHistogram.bump_count]
    dsimp only [Tally.after]
    omega
  · rw [hbump 0]
    dsimp only [Tally.after]
    omega
  · have hlevel := h.level
    dsimp only [Tally.after]
    cases hscraper : s.scraper with
    | start =>
        rw [hscraper] at hlevel
        obtain ⟨htorn, hall⟩ := hlevel
        refine ⟨htorn, ?_⟩
        rw [hbump 0, LatencyHistogram.bump_count]
        dsimp only
        omega
    | loading total cumulative lines =>
        rw [hscraper] at hlevel
        obtain ⟨hless, hall⟩ := hlevel
        have hahead := ahead_le lines.length micros
        dsimp only [Scraper.Level, Scraper.unread]
        rw [hbump 0, hbump lines.length]
        omega
    | done series =>
        rw [hscraper] at hlevel
        exact hlevel

theorem Balanced.count {s next : State} {tally : Tally} (h : Balanced s tally) (i : Nat)
    (hroom : tally.started < 2 ^ 64) (hstep : step s (.count i) = some next) :
    Balanced next (tally.after s (.count i)) := by
  obtain ⟨micros, hcounting, rfl⟩ := step_count_eq_some s next i hstep
  have huncounted := total_set Observer.uncounted _ _ _ (.summing micros) hcounting
  have hheld := total_set Observer.held _ _ _ (.summing micros) hcounting
  have hone := held_add_outlier micros
  have hcounted := h.counted
  dsimp only [Observer.uncounted] at huncounted
  have hsummed : Observer.held (.summing micros) = 0 := rfl
  have hcount : (s.histogram.count + 1).toNat = s.histogram.count.toNat + 1 := by
    rw [UInt64.toNat_add]
    apply Nat.mod_eq_of_lt
    change s.histogram.count.toNat + 1 < 2 ^ 64
    omega
  have hstarted := tally.after_count_started s i
  refine ⟨h.shaped, ?_, ?_, ?_⟩
  · rw [hstarted, hcount]
    dsimp only
    omega
  · rw [hstarted]
    exact h.stored
  · have hlevel := h.level
    dsimp only [Tally.after]
    rw [hcounting]
    cases hscraper : s.scraper with
    | start =>
        rw [hscraper] at hlevel
        obtain ⟨htorn, hall⟩ := hlevel
        refine ⟨htorn, ?_⟩
        dsimp only
        rw [hcount]
        change s.histogram.rest 0 + (tally.outliers + _) = _
        omega
    | loading total cumulative lines =>
        rw [hscraper] at hlevel
        exact hlevel
    | done series =>
        rw [hscraper] at hlevel
        exact hlevel

theorem Balanced.sum {s next : State} {tally : Tally} (h : Balanced s tally) (i : Nat)
    (hstep : step s (.sum i) = some next) : Balanced next (tally.after s (.sum i)) := by
  obtain ⟨micros, hsumming, rfl⟩ := step_sum_eq_some s next i hstep
  have huncounted := total_set Observer.uncounted _ _ _ .idle hsumming
  have hheld := total_set Observer.held _ _ _ .idle hsumming
  refine ⟨h.shaped, ?_, h.stored, ?_⟩
  · exact (congrArg (s.histogram.count.toNat + ·) huncounted).trans h.counted
  · have hlevel := h.level
    dsimp only [Tally.after]
    cases hscraper : s.scraper with
    | start =>
        rw [hscraper] at hlevel
        obtain ⟨htorn, hall⟩ := hlevel
        refine ⟨htorn, hall.trans ?_⟩
        exact congrArg (s.histogram.count.toNat + ·) hheld.symm
    | loading total cumulative lines =>
        rw [hscraper] at hlevel
        exact hlevel
    | done series =>
        rw [hscraper] at hlevel
        exact hlevel

theorem Balanced.load {s next : State} {tally : Tally} (h : Balanced s tally)
    (hroom : tally.started < 2 ^ 64) (hstep : step s .load = some next) :
    Balanced next (tally.after s .load) := by
  obtain ⟨scraper, hload, rfl⟩ := step_load_eq_some s next hstep
  have hstarted := tally.after_load_started s
  refine ⟨h.shaped.load s.histogram hload, ?_, ?_, ?_⟩
  · rw [hstarted]
    exact h.counted
  · rw [hstarted]
    exact h.stored
  · have hlevel := h.level
    have hshaped := h.shaped
    have hstored := h.stored
    dsimp only [Tally.after]
    cases hscraper : s.scraper with
    | start =>
        rw [hscraper] at hlevel hload
        obtain ⟨htorn, hall⟩ := hlevel
        cases hload
        dsimp only [Scraper.Level, List.length_nil]
        have hzero : (0 : UInt64).toNat = 0 := rfl
        rw [hzero]
        omega
    | loading total cumulative lines =>
        rw [hscraper] at hlevel hload hshaped
        obtain ⟨hless, hall⟩ := hlevel
        by_cases hmore : lines.length < 12
        · rw [Scraper.load_next s.histogram total cumulative lines hmore] at hload
          cases hload
          have hnext := rest_next s.histogram lines.length hmore
          have hadd := saturatingAdd_toNat cumulative s.histogram.buckets[lines.length] (by omega)
          dsimp only [Scraper.Level]
          rw [hadd, List.length_append, List.length_singleton]
          omega
        · rw [Scraper.load_last s.histogram total cumulative lines hmore] at hload
          cases hload
          have hlength := Accumulated.length hshaped
          have hend : lines.length = 12 := by omega
          rw [hend, rest_end] at hall
          dsimp only [Scraper.Level]
          rw [Accumulated.last hshaped]
          exact hall
    | done series =>
        rw [hscraper] at hload
        cases hload

theorem Balanced.step {s next : State} {tally : Tally} {a : Action} (h : Balanced s tally)
    (hroom : (tally.after s a).started < 2 ^ 64) (hstep : Metrics.step s a = some next) :
    Balanced next (tally.after s a) := by
  have hbefore := Nat.lt_of_le_of_lt (tally.started_le s a) hroom
  cases a with
  | observe i micros => exact h.observe i micros hroom hstep
  | count i => exact h.count i hbefore hstep
  | sum i => exact h.sum i hstep
  | load => exact h.load hbefore hstep

/-- While no counter can wrap. -/
theorem balanced_run (threads : Nat) (actions : List Action) (s : State)
    (hrun : run step (State.init threads) actions = some s)
    (hroom : (tallyOf (State.init threads) actions).started < 2 ^ 64) :
    Balanced s (tallyOf (State.init threads) actions) := by
  refine run_observed_of_step step Tally.after
    (fun s tally => tally.started < 2 ^ 64 → Balanced s tally) ?_ (State.init threads) s .zero
    actions (fun _ => balanced_init threads) hrun hroom
  intro s tally a next h hstep hroom
  exact (h (Nat.lt_of_le_of_lt (tally.started_le s a) hroom)).step hroom hstep

theorem shaped_run (threads : Nat) (actions : List Action) (s : State)
    (hrun : run step (State.init threads) actions = some s) : s.scraper.Shaped := by
  refine run_invariant_of_step step (fun s => s.scraper.Shaped) ?_ (State.init threads) s actions
    trivial hrun
  intro s a next h hstep
  cases a with
  | observe i micros =>
      obtain ⟨_, rfl⟩ := step_observe_eq_some s next i micros hstep
      exact h
  | count i =>
      obtain ⟨_, _, rfl⟩ := step_count_eq_some s next i hstep
      exact h
  | sum i =>
      obtain ⟨_, _, rfl⟩ := step_sum_eq_some s next i hstep
      exact h
  | load =>
      obtain ⟨_, hload, rfl⟩ := step_load_eq_some s next hstep
      exact h.load s.histogram hload

/-- The scrape's own account, from the last bucket to the count. -/
theorem scrape_balance (threads : Nat) (actions : List Action) (s : State) (series : Series)
    (hrun : run step (State.init threads) actions = some s) (hdone : s.scraper = .done series)
    (hroom : (tallyOf (State.init threads) actions).started < 2 ^ 64) :
    (series.buckets.getLastD 0).toNat + (tallyOf (State.init threads) actions).outliers =
      series.inf.toNat + (tallyOf (State.init threads) actions).torn := by
  have hlevel := (balanced_run threads actions s hrun hroom).level
  rw [hdone] at hlevel
  exact hlevel

/-! ### The rendered histogram -/

/-- What a reader of a histogram expects of a scrape. -/
structure Series.WellFormed (series : Series) : Prop where
  sorted : series.buckets.Pairwise (· ≤ ·)
  covered : series.buckets.getLastD 0 ≤ series.inf
  total : series.inf = series.count

/-- What holds of a scrape that other threads run into. -/
structure ScrapeLaw (series : Series) (tally : Tally) : Prop where
  sorted : series.buckets.Pairwise (· ≤ ·)
  total : series.inf = series.count
  balance : tally.started < 2 ^ 64 →
    (series.buckets.getLastD 0).toNat + tally.outliers = series.inf.toNat + tally.torn
  covered : tally.started < 2 ^ 64 →
    (series.buckets.getLastD 0 ≤ series.inf ↔ tally.torn ≤ tally.outliers)

/-- Whatever falls between the loads of a scrape, the values do not decrease and `+Inf` is the
rendered count. The buckets stay within it just if the scrape tears no more observations than
there were outliers. -/
theorem scrapeLaw (threads : Nat) (actions : List Action) (s : State) (series : Series)
    (hrun : run step (State.init threads) actions = some s) (hdone : s.scraper = .done series) :
    ScrapeLaw series (tallyOf (State.init threads) actions) := by
  have hshaped := shaped_run threads actions s hrun
  have hbalance := scrape_balance threads actions s series hrun hdone
  rw [hdone] at hshaped
  refine ⟨Series.Shaped.sorted hshaped, Series.Shaped.total hshaped, hbalance, ?_⟩
  intro hroom
  have hall := hbalance hroom
  rw [UInt64.le_iff_toNat_le]
  omega

/-- One observation is torn and the other is an outlier. -/
def outlierActions : List Action :=
  [.observe 0 50000000, .count 0, .load, .observe 1 3000, .count 1, .sum 0] ++
    List.replicate 13 .load

theorem scrapeLaw_outlier : ∃ s series,
    run step (State.init 2) outlierActions = some s ∧ s.scraper = .done series ∧
      tallyOf (State.init 2) outlierActions = ⟨2, 1, 1⟩ ∧
        ScrapeLaw series (tallyOf (State.init 2) outlierActions) :=
  ⟨_, ⟨[0, 1, 1, 1, 1, 1, 1, 1, 1, 1, 1, 1], 1, 50000000, 1⟩, rfl, rfl, rfl,
    scrapeLaw 2 outlierActions _ _ rfl rfl⟩

/-- An observation falls between the load of the count and that of its bucket. -/
def tornActions : List Action :=
  [.load, .observe 0 3000, .count 0, .sum 0] ++ List.replicate 13 .load

theorem scrapeLaw_torn : ∃ s series,
    run step (State.init 1) tornActions = some s ∧ s.scraper = .done series ∧
      ¬series.WellFormed := by
  refine ⟨_, ⟨[0, 1, 1, 1, 1, 1, 1, 1, 1, 1, 1, 1], 0, 3000, 0⟩, rfl, rfl, ?_⟩
  intro h
  exact absurd h.covered (by decide)

/-! ### Scrapes at rest -/

/-- No observation is under way while the scrape loads. -/
def Quiet (s : State) : Action → Prop
  | .observe _ _ => ∀ total cumulative lines, s.scraper ≠ .loading total cumulative lines
  | .load => s.scraper = .start → ∀ observer ∈ s.observers, observer = .idle
  | _ => True

theorem quiet_torn (tally : Tally) (s : State) (a : Action) (hquiet : Quiet s a) :
    (tally.after s a).torn = tally.torn := by
  cases a with
  | observe i micros =>
      dsimp only [Tally.after]
      cases hscraper : s.scraper with
      | start => rfl
      | loading total cumulative lines => exact absurd hscraper (hquiet total cumulative lines)
      | done series => rfl
  | count i =>
      dsimp only [Tally.after]
      split <;> rfl
  | sum i => rfl
  | load =>
      dsimp only [Tally.after]
      split
      · next hstart =>
        have hholding : total Observer.held s.observers = 0 := by
          apply (total_eq_zero_iff Observer.held s.observers).mpr
          intro observer hobserver
          rw [hquiet hstart observer hobserver]
          rfl
        rw [hholding, Nat.add_zero]
      · rfl

theorem wellFormed_of_quiet (threads : Nat) (actions : List Action) (s : State) (series : Series)
    (hrun : run step (State.init threads) actions = some s) (hdone : s.scraper = .done series)
    (hroom : (tallyOf (State.init threads) actions).started < 2 ^ 64)
    (hquiet : Guarded step Quiet (State.init threads) actions) : series.WellFormed := by
  have htorn : (tallyOf (State.init threads) actions).torn = 0 := by
    apply run_observed step Tally.after Quiet (fun _ tally => tally.torn = 0) _
      (State.init threads) s .zero actions rfl hquiet hrun
    intro s tally a next hzero hguard _
    rw [quiet_torn tally s a hguard]
    exact hzero
  have hshaped := shaped_run threads actions s hrun
  have hall := scrape_balance threads actions s series hrun hdone hroom
  rw [hdone] at hshaped
  refine ⟨Series.Shaped.sorted hshaped, ?_, Series.Shaped.total hshaped⟩
  rw [UInt64.le_iff_toNat_le]
  omega

end Runlet.Metrics
