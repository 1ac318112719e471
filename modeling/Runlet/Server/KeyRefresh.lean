import Mathlib.Logic.Function.Basic
import Mathlib.Data.List.Basic
import Runlet.Lib.Transition
import Runlet.Server.Identity

/-!
Concurrent callers of `key_for_kid` (`contract.rs`) over one key cache. Every
lock is held for one look or one write only: the cache is read, the refresh
window is checked, the JWKS is fetched without a lock, and the result is
written. Steps of different callers interleave freely, time passes between
them, and a caller may be dropped where it stands. Fetches are numbered in the
order in which they start.
-/

namespace Runlet.KeyRefresh

open Identity Transition

variable {Key : Type}

/-- Where a caller stands; the numbers are those of its fetch. -/
inductive Phase (Key : Type) where
  | absent
  | looking (kid : String)
  | missed (kid : String)
  | cleared (kid : String)
  | fetching (kid : String) (fetch : Nat)
  | fetched (kid : String) (fetch : Nat) (result : Option (List (String × Key)))
  | retrying (kid : String)
  | unresolved (kid : String)
  | done (result : Except ContractError Key)

/-- Between the window check it passed and its cache write. -/
def Phase.refreshing : Phase Key → Bool
  | .cleared _ => true
  | .fetching _ _ => true
  | .fetched _ _ _ => true
  | _ => false

/-- The fetch it started and has not written yet. -/
def Phase.fetch : Phase Key → Option Nat
  | .fetching _ fetch => some fetch
  | .fetched _ fetch _ => some fetch
  | _ => none

/-- The cache and the callers, with the start times of all fetches and the
fetches whose keys were written, both latest first. -/
structure State (Key : Type) where
  now : Nat
  cache : KeyCache Key
  callers : Nat → Phase Key
  starts : List Nat
  writes : List Nat

def State.init (now : Nat) : State Key := ⟨now, ⟨[], none⟩, fun _ => .absent, [], []⟩

inductive Action (Key : Type) where
  | arrive (i : Nat) (kid : String)
  | read (i : Nat)
  | check (i : Nat)
  | start (i : Nat)
  | complete (i : Nat) (result : Option (List (String × Key)))
  | write (i : Nat)
  | classify (i : Nat)
  | drop (i : Nat)
  | tick (elapsed : Nat)

def State.move (s : State Key) (i : Nat) (phase : Phase Key) : State Key :=
  { s with callers := Function.update s.callers i phase }

@[simp] theorem move_self (s : State Key) (i : Nat) (phase : Phase Key) :
    (s.move i phase).callers i = phase := by
  simp [State.move]

theorem move_other (s : State Key) (i j : Nat) (phase : Phase Key) (h : j ≠ i) :
    (s.move i phase).callers j = s.callers j := by
  simp [State.move, h]

/-- The last refresh is too recent for another one. -/
def State.windowClosed (minRefresh : Nat) (s : State Key) : Bool :=
  match s.cache.lastRefresh with
  | some last => s.now - last < minRefresh
  | none => false

def step (minRefresh : Nat) (s : State Key) : Action Key → Option (State Key)
  | .arrive i kid =>
      match s.callers i with
      | .absent => some (s.move i (.looking kid))
      | _ => none
  | .read i =>
      match s.callers i with
      | .looking kid =>
          match s.cache.keys.lookup kid with
          | some key => some (s.move i (.done (.ok key)))
          | none => some (s.move i (.missed kid))
      | .retrying kid =>
          match s.cache.keys.lookup kid with
          | some key => some (s.move i (.done (.ok key)))
          | none => some (s.move i (.unresolved kid))
      | _ => none
  | .check i =>
      match s.callers i with
      | .missed kid =>
          if s.windowClosed minRefresh then some (s.move i (.retrying kid))
          else some (s.move i (.cleared kid))
      | _ => none
  | .start i =>
      match s.callers i with
      | .cleared kid =>
          some { s.move i (.fetching kid s.starts.length) with starts := s.now :: s.starts }
      | _ => none
  | .complete i result =>
      match s.callers i with
      | .fetching kid fetch => some (s.move i (.fetched kid fetch result))
      | _ => none
  | .write i =>
      match s.callers i with
      | .fetched kid _ none =>
          some { s.move i (.retrying kid) with cache := ⟨s.cache.keys, some s.now⟩ }
      | .fetched kid fetch (some keys) =>
          some { s.move i (.retrying kid) with
            cache := ⟨keys, some s.now⟩
            writes := fetch :: s.writes }
      | _ => none
  | .classify i =>
      match s.callers i with
      | .unresolved _ =>
          if s.cache.keys.isEmpty then some (s.move i (.done (.error .keysUnavailable)))
          else some (s.move i (.done (.error .unknownKey)))
      | _ => none
  | .drop i => some (s.move i .absent)
  | .tick elapsed => some { s with now := s.now + elapsed }

/-! ### The contract and when it holds -/

/-- Fetches start at least `minRefresh` apart, a failed fetch takes no key
away, and key sets are written in the order in which their fetches started. -/
structure RefreshContract (minRefresh : Nat) (s : State Key) : Prop where
  spaced : s.starts.Pairwise fun later earlier => earlier + minRefresh ≤ later
  failureKeeps : ∀ i kid fetch next, s.callers i = .fetched kid fetch none →
    step minRefresh s (.write i) = some next → next.cache.keys = s.cache.keys
  ordered : s.writes.Pairwise fun later earlier => earlier < later

/-- Nobody passes the window while another caller is between its own check
and its write, and nobody is dropped with a fetch that is not written. -/
def Undisturbed (minRefresh : Nat) (s : State Key) : Action Key → Prop
  | .check i => s.windowClosed minRefresh = false → ∀ j, j ≠ i → (s.callers j).refreshing = false
  | .drop i => (s.callers i).fetch = none
  | _ => True

structure Inv (minRefresh : Nat) (s : State Key) : Prop where
  alone : ∀ i j, (s.callers i).refreshing = true → (s.callers j).refreshing = true → i = j
  latest : ∀ i fetch, (s.callers i).fetch = some fetch →
    fetch + 1 = s.starts.length ∧ ∀ w ∈ s.writes, w < fetch
  cleared : ∀ i kid, s.callers i = .cleared kid → ∀ t ∈ s.starts, t + minRefresh ≤ s.now
  settled : (∀ i, (s.callers i).fetch = none) →
    ∀ t ∈ s.starts, ∃ last, s.cache.lastRefresh = some last ∧ t ≤ last
  past : ∀ t ∈ s.starts, t ≤ s.now
  started : ∀ w ∈ s.writes, w < s.starts.length
  spaced : s.starts.Pairwise fun later earlier => earlier + minRefresh ≤ later
  ordered : s.writes.Pairwise fun later earlier => earlier < later

theorem inv_init (minRefresh now : Nat) : Inv minRefresh (State.init now : State Key) where
  alone _ _ h := nomatch h
  latest _ _ h := nomatch h
  cleared _ _ h := nomatch h
  settled _ _ h := nomatch h
  past _ h := nomatch h
  started _ h := nomatch h
  spaced := .nil
  ordered := .nil

theorem refreshing_of_fetch (phase : Phase Key) (fetch : Nat) (h : phase.fetch = some fetch) :
    phase.refreshing = true := by
  cases phase with
  | fetching kid n => rfl
  | fetched kid n result => rfl
  | _ => cases h

/-- A caller without a fetch moves to a phase outside the refresh. -/
theorem inv_move (minRefresh : Nat) (s : State Key) (i : Nat) (phase : Phase Key)
    (hinv : Inv minRefresh s) (hfrom : (s.callers i).fetch = none)
    (hto : phase.refreshing = false) : Inv minRefresh (s.move i phase) := by
  have hfetch : phase.fetch = none := by
    cases hphase : phase.fetch with
    | none => rfl
    | some fetch =>
        rw [refreshing_of_fetch phase fetch hphase] at hto
        cases hto
  have hsame (j : Nat) (hj : ((s.move i phase).callers j).refreshing = true) :
      j ≠ i ∧ (s.move i phase).callers j = s.callers j := by
    by_cases hji : j = i
    · subst hji
      rw [move_self, hto] at hj
      cases hj
    · exact ⟨hji, move_other s i j phase hji⟩
  refine ⟨?_, ?_, ?_, ?_, hinv.past, hinv.started, hinv.spaced, hinv.ordered⟩
  · intro j k hj hk
    have hj' := (hsame j hj).2 ▸ hj
    have hk' := (hsame k hk).2 ▸ hk
    exact hinv.alone j k hj' hk'
  · intro j fetch hj
    have hsame' := hsame j (refreshing_of_fetch _ fetch hj)
    exact hinv.latest j fetch (hsame'.2 ▸ hj)
  · intro j kid hj
    have hsame' := hsame j (by rw [hj]; rfl)
    exact hinv.cleared j kid (hsame'.2 ▸ hj)
  · intro hall
    apply hinv.settled
    intro j
    by_cases hji : j = i
    · subst hji
      exact hfrom
    · rw [← move_other s i j phase hji]
      exact hall j

theorem inv_check (minRefresh : Nat) (s : State Key) (i : Nat) (kid : String)
    (hinv : Inv minRefresh s) (hphase : s.callers i = .missed kid)
    (hopen : s.windowClosed minRefresh = false)
    (hothers : ∀ j, j ≠ i → (s.callers j).refreshing = false) :
    Inv minRefresh (s.move i (.cleared kid)) := by
  have hnone (j : Nat) : (s.callers j).refreshing = false := by
    by_cases hji : j = i
    · rw [hji, hphase]
      rfl
    · exact hothers j hji
  have hfetch (j : Nat) : (s.callers j).fetch = none := by
    cases hj : (s.callers j).fetch with
    | none => rfl
    | some fetch =>
        have hrefreshing := refreshing_of_fetch _ fetch hj
        rw [hnone j] at hrefreshing
        cases hrefreshing
  have hself (j : Nat) (hj : ((s.move i (.cleared kid)).callers j).refreshing = true) :
      j = i := by
    by_contra hji
    rw [move_other s i j _ hji, hnone] at hj
    cases hj
  refine ⟨?_, ?_, ?_, ?_, hinv.past, hinv.started, hinv.spaced, hinv.ordered⟩
  · intro j k hj hk
    rw [hself j hj, hself k hk]
  · intro j fetch hj
    have hji := hself j (refreshing_of_fetch _ fetch hj)
    subst hji
    rw [move_self] at hj
    cases hj
  · intro j other _ t ht
    obtain ⟨last, hlast, hle⟩ := hinv.settled hfetch t ht
    have hpast := hinv.past t ht
    simp only [State.windowClosed, hlast, decide_eq_false_iff_not, Nat.not_lt] at hopen
    change t + minRefresh ≤ s.now
    omega
  · exact fun _ => hinv.settled hfetch

/-- While one caller is in its refresh, no other has a fetch. -/
theorem others_idle (minRefresh : Nat) (s : State Key) (hinv : Inv minRefresh s) (i j : Nat)
    (hi : (s.callers i).refreshing = true) (hji : j ≠ i) :
    (s.callers j).refreshing = false := by
  rw [← Bool.not_eq_true]
  exact fun hj => hji (hinv.alone j i hj hi)

theorem inv_start (minRefresh : Nat) (s : State Key) (i : Nat) (kid : String)
    (hinv : Inv minRefresh s) (hphase : s.callers i = .cleared kid) :
    Inv minRefresh { s.move i (.fetching kid s.starts.length) with
      starts := s.now :: s.starts } := by
  have hi : (s.callers i).refreshing = true := by rw [hphase]; rfl
  have hself (j : Nat)
      (hj : ((s.move i (.fetching kid s.starts.length)).callers j).refreshing = true) :
      j = i := by
    by_contra hji
    rw [move_other s i j _ hji, others_idle minRefresh s hinv i j hi hji] at hj
    cases hj
  have hclear := hinv.cleared i kid hphase
  refine ⟨?_, ?_, ?_, ?_, ?_, ?_, ?_, hinv.ordered⟩
  · intro j k hj hk
    rw [hself j hj, hself k hk]
  · intro j fetch hj
    have hji := hself j (refreshing_of_fetch _ fetch hj)
    subst hji
    simp only [move_self, Phase.fetch, Option.some.injEq] at hj
    subst hj
    exact ⟨rfl, hinv.started⟩
  · intro j other hj
    have hji := hself j (by rw [hj]; rfl)
    subst hji
    simp only [move_self] at hj
    cases hj
  · intro hall
    have hnone := hall i
    simp only [move_self] at hnone
    cases hnone
  · intro t ht
    rcases List.mem_cons.mp ht with rfl | ht
    · exact Nat.le_refl _
    · exact hinv.past t ht
  · intro w hw
    exact Nat.lt_succ_of_lt (hinv.started w hw)
  · exact List.pairwise_cons.mpr ⟨hclear, hinv.spaced⟩

theorem inv_complete (minRefresh : Nat) (s : State Key) (i fetch : Nat) (kid : String)
    (result : Option (List (String × Key))) (hinv : Inv minRefresh s)
    (hphase : s.callers i = .fetching kid fetch) :
    Inv minRefresh (s.move i (.fetched kid fetch result)) := by
  have hsame (j : Nat) : ((s.move i (.fetched kid fetch result)).callers j).fetch =
        (s.callers j).fetch ∧
      ((s.move i (.fetched kid fetch result)).callers j).refreshing =
        (s.callers j).refreshing := by
    by_cases hji : j = i
    · subst hji
      rw [move_self, hphase]
      exact ⟨rfl, rfl⟩
    · rw [move_other s i j _ hji]
      exact ⟨rfl, rfl⟩
  refine ⟨?_, ?_, ?_, ?_, hinv.past, hinv.started, hinv.spaced, hinv.ordered⟩
  · intro j k hj hk
    rw [(hsame j).2] at hj
    rw [(hsame k).2] at hk
    exact hinv.alone j k hj hk
  · intro j n hj
    rw [(hsame j).1] at hj
    exact hinv.latest j n hj
  · intro j other hj
    by_cases hji : j = i
    · subst hji
      rw [move_self] at hj
      cases hj
    · rw [move_other s i j _ hji] at hj
      exact hinv.cleared j other hj
  · intro hall
    exact hinv.settled fun j => (hsame j).1 ▸ hall j

/-- A write ends the only refresh there is. -/
theorem inv_write (minRefresh : Nat) (s : State Key) (i fetch : Nat) (kid : String)
    (result : Option (List (String × Key))) (keys : List (String × Key)) (writes : List Nat)
    (hinv : Inv minRefresh s) (hphase : s.callers i = .fetched kid fetch result)
    (hwrites : writes = s.writes ∨ writes = fetch :: s.writes) :
    Inv minRefresh { s.move i (.retrying kid) with
      cache := ⟨keys, some s.now⟩
      writes := writes } := by
  have hi : (s.callers i).refreshing = true := by rw [hphase]; rfl
  have hnone (j : Nat) : ((s.move i (.retrying kid)).callers j).refreshing = false := by
    by_cases hji : j = i
    · subst hji
      rw [move_self]
      rfl
    · rw [move_other s i j _ hji]
      exact others_idle minRefresh s hinv i j hi hji
  obtain ⟨hlast, hlater⟩ := hinv.latest i fetch (by rw [hphase]; rfl)
  refine ⟨?_, ?_, ?_, ?_, hinv.past, ?_, hinv.spaced, ?_⟩
  · intro j k hj
    rw [hnone j] at hj
    cases hj
  · intro j n hj
    have hj' := refreshing_of_fetch _ n hj
    rw [hnone j] at hj'
    cases hj'
  · intro j other hj
    have hj' := hnone j
    rw [hj] at hj'
    cases hj'
  · intro _ t ht
    exact ⟨s.now, rfl, hinv.past t ht⟩
  · intro w hw
    rcases hwrites with rfl | rfl
    · exact hinv.started w hw
    · rcases List.mem_cons.mp hw with rfl | hw
      · change w < s.starts.length
        omega
      · exact hinv.started w hw
  · rcases hwrites with rfl | rfl
    · exact hinv.ordered
    · exact List.pairwise_cons.mpr ⟨hlater, hinv.ordered⟩

theorem inv_tick (minRefresh : Nat) (s : State Key) (elapsed : Nat) (hinv : Inv minRefresh s) :
    Inv minRefresh { s with now := s.now + elapsed } where
  alone := hinv.alone
  latest := hinv.latest
  cleared i kid hi t ht := Nat.le_add_right_of_le (hinv.cleared i kid hi t ht)
  settled := hinv.settled
  past t ht := Nat.le_add_right_of_le (hinv.past t ht)
  started := hinv.started
  spaced := hinv.spaced
  ordered := hinv.ordered

theorem inv_step (minRefresh : Nat) (s : State Key) (action : Action Key) (next : State Key)
    (hinv : Inv minRefresh s) (hguard : Undisturbed minRefresh s action)
    (hstep : step minRefresh s action = some next) : Inv minRefresh next := by
  cases action with
  | arrive i kid =>
      simp only [step] at hstep
      split at hstep
      · rename_i hphase
        cases hstep
        exact inv_move minRefresh s i _ hinv (by rw [hphase]; rfl) rfl
      · cases hstep
  | read i =>
      simp only [step] at hstep
      split at hstep
      · rename_i kid hphase
        have hnone : (s.callers i).fetch = none := by rw [hphase]; rfl
        split at hstep
        · cases hstep
          exact inv_move minRefresh s i _ hinv hnone rfl
        · cases hstep
          exact inv_move minRefresh s i _ hinv hnone rfl
      · rename_i kid hphase
        have hnone : (s.callers i).fetch = none := by rw [hphase]; rfl
        split at hstep
        · cases hstep
          exact inv_move minRefresh s i _ hinv hnone rfl
        · cases hstep
          exact inv_move minRefresh s i _ hinv hnone rfl
      · cases hstep
  | check i =>
      simp only [step] at hstep
      split at hstep
      · rename_i kid hphase
        split at hstep
        · cases hstep
          exact inv_move minRefresh s i _ hinv (by rw [hphase]; rfl) rfl
        · rename_i hopen
          have hopen' : s.windowClosed minRefresh = false := by simpa using hopen
          cases hstep
          exact inv_check minRefresh s i kid hinv hphase hopen' (hguard hopen')
      · cases hstep
  | start i =>
      simp only [step] at hstep
      split at hstep
      · rename_i kid hphase
        cases hstep
        exact inv_start minRefresh s i kid hinv hphase
      · cases hstep
  | complete i result =>
      simp only [step] at hstep
      split at hstep
      · rename_i kid fetch hphase
        cases hstep
        exact inv_complete minRefresh s i fetch kid result hinv hphase
      · cases hstep
  | write i =>
      simp only [step] at hstep
      split at hstep
      · rename_i kid fetch hphase
        cases hstep
        exact inv_write minRefresh s i fetch kid none _ _ hinv hphase (.inl rfl)
      · rename_i kid fetch keys hphase
        cases hstep
        exact inv_write minRefresh s i fetch kid (some keys) _ _ hinv hphase (.inr rfl)
      · cases hstep
  | classify i =>
      simp only [step] at hstep
      split at hstep
      · rename_i kid hphase
        have hnone : (s.callers i).fetch = none := by rw [hphase]; rfl
        split at hstep
        · cases hstep
          exact inv_move minRefresh s i _ hinv hnone rfl
        · cases hstep
          exact inv_move minRefresh s i _ hinv hnone rfl
      · cases hstep
  | drop i =>
      cases hstep
      exact inv_move minRefresh s i _ hinv hguard rfl
  | tick elapsed =>
      cases hstep
      exact inv_tick minRefresh s elapsed hinv

/-- In any state, a failed fetch is written without touching the keys. -/
theorem failed_write_keeps (minRefresh : Nat) (s : State Key) (i fetch : Nat) (kid : String)
    (next : State Key) (hphase : s.callers i = .fetched kid fetch none)
    (hstep : step minRefresh s (.write i) = some next) : next.cache.keys = s.cache.keys := by
  simp only [step, hphase, Option.some.injEq] at hstep
  rw [← hstep]

/-- For every number of callers and every interleaving in which refreshes do
not overlap and none is dropped before its write, the contract holds in every
state that is reached. -/
theorem refreshContract_of_undisturbed (minRefresh now : Nat) (actions : List (Action Key))
    (final : State Key) (hrun : run (step minRefresh) (State.init now) actions = some final)
    (hguard : Guarded (step minRefresh) (Undisturbed minRefresh) (State.init now) actions) :
    RefreshContract minRefresh final := by
  have hinv : Inv minRefresh final :=
    run_invariant (step minRefresh) (Undisturbed minRefresh) (Inv minRefresh)
      (inv_step minRefresh) (State.init now) final actions (inv_init minRefresh now) hguard hrun
  exact ⟨hinv.spaced, fun i kid fetch next => failed_write_keeps minRefresh final i fetch kid next,
    hinv.ordered⟩

/-- Two callers with unknown keys, 60 s between refreshes: the first refresh
ends before the second caller looks at the window. -/
def oneAfterTheOther : List (Action Unit) :=
  [.arrive 0 "a", .arrive 1 "b", .read 0, .read 1, .check 0, .start 0,
    .complete 0 (some [("a", ())]), .write 0, .check 1, .read 1, .classify 1, .read 0]

theorem oneAfterTheOther_contract :
    ∃ final, run (step 60) (State.init 0) oneAfterTheOther = some final ∧
      RefreshContract 60 final := by
  refine ⟨_, rfl, ?_⟩
  refine refreshContract_of_undisturbed 60 0 oneAfterTheOther _ rfl ?_
  refine guarded_cons _ _ _ _ _ _ rfl trivial ?_
  refine guarded_cons _ _ _ _ _ _ rfl trivial ?_
  refine guarded_cons _ _ _ _ _ _ rfl trivial ?_
  refine guarded_cons _ _ _ _ _ _ rfl trivial ?_
  refine guarded_cons _ _ _ _ _ _ rfl ?_ ?_
  · intro _ j hj
    by_cases hone : j = 1
    · rw [hone]
      rfl
    · simp [State.move, State.init, hj, hone, Phase.refreshing]
  refine guarded_cons _ _ _ _ _ _ rfl trivial ?_
  refine guarded_cons _ _ _ _ _ _ rfl trivial ?_
  refine guarded_cons _ _ _ _ _ _ rfl trivial ?_
  refine guarded_cons _ _ _ _ _ _ rfl ?_ ?_
  · -- the window is closed by now
    intro hopen
    cases hopen
  refine guarded_cons _ _ _ _ _ _ rfl trivial ?_
  refine guarded_cons _ _ _ _ _ _ rfl trivial ?_
  exact guarded_cons _ _ _ _ _ _ rfl trivial trivial

/-- Both callers pass the window before the first write: two fetches start
within a second, and the keys of the first replace those of the second. -/
def bothPass : List (Action Unit) :=
  [.arrive 0 "a", .arrive 1 "b", .read 0, .read 1, .check 0, .check 1, .start 0, .tick 1, .start 1,
    .complete 1 (some [("b", ())]), .write 1, .complete 0 (some [("a", ())]), .write 0]

theorem overlapping_refreshes :
    ∃ final, run (step 60) (State.init 0) bothPass = some final ∧
      final.starts = [1, 0] ∧ final.writes = [0, 1] ∧ final.cache.keys = [("a", ())] ∧
      ¬ RefreshContract 60 final := by
  refine ⟨_, rfl, rfl, rfl, rfl, ?_⟩
  intro hcontract
  have hspaced : ([1, 0] : List Nat).Pairwise fun later earlier => earlier + 60 ≤ later :=
    hcontract.spaced
  exact absurd hspaced (by decide)

end Runlet.KeyRefresh
