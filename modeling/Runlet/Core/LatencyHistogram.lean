import Mathlib.Data.List.Basic
import Mathlib.Algebra.Ring.Nat

/-!
The latency histogram of `metrics.rs`. The buckets are stored one by one and
added up when the series is rendered: `render_series` is a loop of loads, first
of the count, then of the buckets in order, last of the sum.
-/

namespace Runlet.Metrics

/-- Upper bounds in microseconds, inclusive. -/
def latencyBucketsUs : Vector UInt64 12 :=
  #v[1000, 5000, 10000, 25000, 50000, 100000, 250000, 500000, 1000000, 2500000, 5000000, 10000000]

/-- The same bounds in seconds. -/
def latencyBucketLabels : List String :=
  ["0.001", "0.005", "0.01", "0.025", "0.05", "0.1", "0.25", "0.5", "1", "2.5", "5", "10"]

structure LatencyHistogram where
  buckets : Vector UInt64 12
  sumUs : UInt64
  count : UInt64
  deriving DecidableEq

def LatencyHistogram.default : LatencyHistogram := ⟨Vector.replicate 12 0, 0, 0⟩

/-- The first bucket whose bound an observation is within. -/
def bucketOf (micros : UInt64) : Option (Fin 12) :=
  (List.finRange 12).find? fun i => micros ≤ latencyBucketsUs[i]

/-- `fetch_add` on the bucket of an observation. -/
def LatencyHistogram.bump (histogram : LatencyHistogram) (micros : UInt64) : LatencyHistogram :=
  match bucketOf micros with
  | none => histogram
  | some i => { histogram with buckets := histogram.buckets.set i (histogram.buckets[i] + 1) }

def saturatingAdd (a b : UInt64) : UInt64 :=
  if a.toNat + b.toNat < 2 ^ 64 then a + b else 0xffffffffffffffff

/-! ### The rendered series -/

/-- The values of a rendered series. -/
structure Series where
  buckets : List UInt64
  inf : UInt64
  sumUs : UInt64
  count : UInt64
  deriving DecidableEq

def bucketLabels (extra le : String) : String :=
  if extra = "" then "\x7ble=\"" ++ le ++ "\"\x7d" else "\x7b" ++ extra ++ ",le=\"" ++ le ++ "\"\x7d"

/-- Microseconds as seconds, with six digits behind the point. -/
def seconds (micros : UInt64) : String :=
  let frac := toString (micros.toNat % 1000000)
  toString (micros.toNat / 1000000) ++ "." ++ String.ofList (List.replicate (6 - frac.length) '0') ++
    frac

def Series.lines (series : Series) (name extra : String) : List String :=
  let suffix := if extra = "" then "" else "\x7b" ++ extra ++ "\x7d"
  List.zipWith (fun label value =>
      name ++ "_bucket" ++ bucketLabels extra label ++ " " ++ toString value.toNat)
    latencyBucketLabels series.buckets ++
  [name ++ "_bucket" ++ bucketLabels extra "+Inf" ++ " " ++ toString series.inf.toNat,
    name ++ "_sum" ++ suffix ++ " " ++ seconds series.sumUs,
    name ++ "_count" ++ suffix ++ " " ++ toString series.count.toNat]

/-- What a scrape reads. -/
def Series.text (series : Series) (name extra : String) : String :=
  "\n".intercalate (series.lines name extra)

/-- Where `render_series` stands between its loads. -/
inductive Scraper where
  | start
  | loading (total cumulative : UInt64) (lines : List UInt64)
  | done (series : Series)
  deriving DecidableEq

/-- The next load. -/
def Scraper.load (histogram : LatencyHistogram) : Scraper → Option Scraper
  | .start => some (.loading histogram.count 0 [])
  | .loading total cumulative lines =>
      if hmore : lines.length < 12 then
        let cumulative := saturatingAdd cumulative histogram.buckets[lines.length]
        some (.loading total cumulative (lines ++ [cumulative]))
      else some (.done ⟨lines, total, histogram.sumUs, total⟩)
  | .done _ => none

example : ({ buckets := [1], inf := 2, sumUs := 83000, count := 2 } : Series).lines "x" "" =
    ["x_bucket\x7ble=\"0.001\"\x7d 1", "x_bucket\x7ble=\"+Inf\"\x7d 2", "x_sum 0.083000",
      "x_count 2"] := by decide

/-! ### Buckets -/

theorem bucket_bound_le (i : Fin 12) : latencyBucketsUs[i] ≤ 10000000 := by
  revert i
  decide

/-- Only an observation over ten seconds is in no bucket. -/
theorem bucketOf_eq_none (micros : UInt64) : bucketOf micros = none ↔ 10000000 < micros := by
  unfold bucketOf
  rw [List.find?_eq_none]
  simp only [decide_eq_true_eq, UInt64.not_le]
  constructor
  · intro h
    exact h (Fin.last 11) (List.mem_finRange _)
  · intro h i _
    exact UInt64.lt_of_le_of_lt (bucket_bound_le i) h

/-! ### Values in order -/

theorem saturatingAdd_toNat (a b : UInt64) (hroom : a.toNat + b.toNat < 2 ^ 64) :
    (saturatingAdd a b).toNat = a.toNat + b.toNat := by
  unfold saturatingAdd
  rw [if_pos hroom, UInt64.toNat_add, Nat.mod_eq_of_lt hroom]

theorem le_saturatingAdd (a b : UInt64) : a ≤ saturatingAdd a b := by
  rw [UInt64.le_iff_toNat_le]
  by_cases hroom : a.toNat + b.toNat < 2 ^ 64
  · rw [saturatingAdd_toNat a b hroom]
    exact Nat.le_add_right _ _
  · unfold saturatingAdd
    rw [if_neg hroom]
    exact Nat.le_of_lt_succ a.toNat_lt

/-- The values so far do not decrease, and the one that is added up is the last. -/
structure Accumulated (cumulative : UInt64) (lines : List UInt64) : Prop where
  length : lines.length ≤ 12
  sorted : lines.Pairwise (· ≤ ·)
  last : lines.getLastD 0 = cumulative
  bounded : ∀ line ∈ lines, line ≤ cumulative

theorem accumulated_nil : Accumulated 0 [] :=
  ⟨Nat.zero_le _, .nil, rfl, nofun⟩

theorem Accumulated.next {cumulative : UInt64} {lines : List UInt64}
    (h : Accumulated cumulative lines) (hmore : lines.length < 12) (bucket : UInt64) :
    Accumulated (saturatingAdd cumulative bucket) (lines ++ [saturatingAdd cumulative bucket]) := by
  have hnext := le_saturatingAdd cumulative bucket
  refine ⟨?_, ?_, List.getLastD_concat .., ?_⟩
  · rw [List.length_append, List.length_singleton]
    exact hmore
  · apply List.pairwise_append.mpr
    refine ⟨h.sorted, List.pairwise_singleton _ _, ?_⟩
    intro line hline other hother
    rw [List.mem_singleton.mp hother]
    exact UInt64.le_trans (h.bounded line hline) hnext
  · intro line hline
    rcases List.mem_append.mp hline with hold | hnew
    · exact UInt64.le_trans (h.bounded line hold) hnext
    · rw [List.mem_singleton.mp hnew]
      exact UInt64.le_refl _

theorem Scraper.load_next (histogram : LatencyHistogram) (total cumulative : UInt64)
    (lines : List UInt64) (hmore : lines.length < 12) :
    (Scraper.loading total cumulative lines).load histogram =
      some (.loading total (saturatingAdd cumulative histogram.buckets[lines.length])
        (lines ++ [saturatingAdd cumulative histogram.buckets[lines.length]])) := dif_pos hmore

theorem Scraper.load_last (histogram : LatencyHistogram) (total cumulative : UInt64)
    (lines : List UInt64) (hdone : ¬lines.length < 12) :
    (Scraper.loading total cumulative lines).load histogram =
      some (.done ⟨lines, total, histogram.sumUs, total⟩) := dif_neg hdone

/-- What holds of the values whatever is loaded. -/
structure Series.Shaped (series : Series) : Prop where
  length : series.buckets.length = 12
  sorted : series.buckets.Pairwise (· ≤ ·)
  total : series.inf = series.count

def Scraper.Shaped : Scraper → Prop
  | .start => True
  | .loading _ cumulative lines => Accumulated cumulative lines
  | .done series => series.Shaped

theorem Scraper.Shaped.load {scraper next : Scraper} (h : scraper.Shaped)
    (histogram : LatencyHistogram) (hload : scraper.load histogram = some next) : next.Shaped := by
  cases scraper with
  | start =>
      cases hload
      exact accumulated_nil
  | loading total cumulative lines =>
      by_cases hmore : lines.length < 12
      · rw [load_next histogram total cumulative lines hmore] at hload
        cases hload
        exact Accumulated.next h hmore _
      · rw [load_last histogram total cumulative lines hmore] at hload
        cases hload
        have hlength := Accumulated.length h
        refine ⟨?_, Accumulated.sorted h, rfl⟩
        dsimp only
        omega
  | done series => cases hload

end Runlet.Metrics
