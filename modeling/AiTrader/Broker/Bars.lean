import AiTrader.Domain.Models
import AiTrader.Lib.Buckets
import AiTrader.Lib.Totals
import Mathlib.Algebra.BigOperators.Group.List.Basic
import Mathlib.Algebra.Group.WithOne.Defs
import Mathlib.Algebra.Order.Ring.Int
import Mathlib.Data.Rat.Floor

/-!
# Bars rolled up

`aggregate` makes coarser bars of finer ones: the bars of one bucket, in order of time, become one bar that opens
with the first, closes with the last and has the extremes and the volume of them all.

What one bar says about prices and volume is a `Candle`. Candles that follow each other combine to one, and that is
associative, so a rolled-up bar is the product of the candles of its group (`rollUp_eq_some`). Rolling up in two
steps is then rolling up at once (`aggregate_aggregate`): the buckets of the longer period are those of the
shorter, one after the other, and a product does not mind how it is bracketed.
-/

namespace AiTrader

open Lib

/-! ### Aggregation -/

/-- `int` of a timestamp: towards zero. -/
def epoch (ts : ℚ) : ℤ := if 0 ≤ ts then ⌊ts⌋ else ⌈ts⌉

/-- The start of the bucket that holds the time, for a positive period. -/
def bucketStart (period : ℕ) (ts : ℚ) : ℤ := epoch ts - epoch ts % period

/-- One bar of a sorted group. -/
def rollUp (period : ℕ) (start : ℤ) : List Bar → Option Bar
  | [] => none
  | first :: rest => some
      { symbol := first.symbol
        ts := start
        openPrice := first.openPrice
        high := (rest.map Bar.high).foldl max first.high
        low := (rest.map Bar.low).foldl min first.low
        close := (rest.getLastD first).close
        volume := ((first :: rest).map Bar.volume).sum
        period }

/-- Roll finer bars up into `period`-second bars. -/
def aggregate (bars : List Bar) (period : ℕ) : List Bar :=
  let buckets := Dict.groupBy (fun b => bucketStart period b.ts) bars
  let starts := buckets.keys.insertionSort (· ≤ ·)
  starts.filterMap fun start => rollUp period start (sortBy Bar.ts ((buckets.get? start).getD []))

/-! ### Buckets in time -/

theorem epoch_mono {t t' : ℚ} (h : t ≤ t') : epoch t ≤ epoch t' := by
  unfold epoch
  split_ifs with ht ht'
  · exact Int.floor_le_floor h
  · exact absurd (ht.trans h) ht'
  · exact (Int.ceil_le.mpr (by simpa using le_of_not_ge ht)).trans (Int.floor_nonneg.mpr ‹_›)
  · exact Int.ceil_le_ceil h

@[simp] theorem epoch_intCast (n : ℤ) : epoch n = n := by
  unfold epoch
  split_ifs <;> simp

theorem bucketStart_eq_mul (period : ℕ) (ts : ℚ) : bucketStart period ts = period * (epoch ts / period) := by
  have hdiv := Int.mul_ediv_add_emod (epoch ts) period
  unfold bucketStart
  omega

theorem bucketStart_mono (period : ℕ) {t t' : ℚ} (h : t ≤ t') : bucketStart period t ≤ bucketStart period t' := by
  rcases period.eq_zero_or_pos with rfl | hpos
  · simp [bucketStart]
  · rw [bucketStart_eq_mul, bucketStart_eq_mul]
    have hdiv := Int.ediv_le_ediv (Int.natCast_pos.mpr hpos) (epoch_mono h)
    exact mul_le_mul_of_nonneg_left hdiv (Int.natCast_nonneg period)

theorem bucketStart_bucketStart {p q : ℕ} (hdvd : p ∣ q) (ts : ℚ) :
    bucketStart q (bucketStart p ts) = bucketStart q ts := by
  obtain ⟨k, rfl⟩ := hdvd
  rcases p.eq_zero_or_pos with rfl | hpos
  · simp [bucketStart]
  · have hstart : bucketStart p ts / (p * k : ℕ) = epoch ts / (p * k : ℕ) := by
      rw [bucketStart_eq_mul, Nat.cast_mul, Int.mul_ediv_mul_of_pos _ _ (Int.natCast_pos.mpr hpos),
        Int.ediv_ediv_of_nonneg (Int.natCast_nonneg p)]
    rw [bucketStart_eq_mul (p * k), bucketStart_eq_mul (p * k), epoch_intCast, hstart]

/-! ### The candle of a bar -/

/-- What a bar says about prices and volume. -/
structure Candle where
  symbol : String
  openPrice : ℚ
  high : ℚ
  low : ℚ
  close : ℚ
  volume : ℚ
  deriving DecidableEq

namespace Candle

/-- Two candles, the second after the first. -/
instance : Semigroup Candle where
  mul c d :=
    { symbol := c.symbol
      openPrice := c.openPrice
      high := max c.high d.high
      low := min c.low d.low
      close := d.close
      volume := c.volume + d.volume }
  mul_assoc a b c := by
    show Candle.mk _ _ _ _ _ _ = Candle.mk _ _ _ _ _ _
    rw [Candle.mk.injEq]
    exact ⟨rfl, rfl, max_assoc _ _ _, min_assoc _ _ _, rfl, add_assoc _ _ _⟩

/-- The bar of a candle. -/
def bar (period : ℕ) (start : ℤ) (c : Candle) : Bar where
  symbol := c.symbol
  ts := start
  openPrice := c.openPrice
  high := c.high
  low := c.low
  close := c.close
  volume := c.volume
  period

end Candle

def Bar.candle (b : Bar) : Candle where
  symbol := b.symbol
  openPrice := b.openPrice
  high := b.high
  low := b.low
  close := b.close
  volume := b.volume

@[simp] theorem Candle.candle_bar (period : ℕ) (start : ℤ) (c : Candle) : (c.bar period start).candle = c := rfl

/-- The candles of a group, combined; of no bars there is none. -/
def candles (group : List Bar) : WithOne Candle := (group.map fun b => (b.candle : WithOne Candle)).prod

theorem candles_flatMap {κ : Type} (ks : List κ) (group : κ → List Bar) :
    candles (ks.flatMap group) = (ks.map fun k => candles (group k)).prod := by
  rw [candles, List.map_flatMap, List.flatMap_def, List.prod_flatten, List.map_map]
  rfl

/-- The candle of a group that begins with `first`. -/
def groupCandle (first : Bar) (rest : List Bar) : Candle where
  symbol := first.symbol
  openPrice := first.openPrice
  high := (rest.map Bar.high).foldl max first.high
  low := (rest.map Bar.low).foldl min first.low
  close := (rest.getLastD first).close
  volume := ((first :: rest).map Bar.volume).sum

@[simp] theorem groupCandle_nil (b : Bar) : groupCandle b [] = b.candle := by simp [groupCandle, Bar.candle]

theorem groupCandle_cons (first next : Bar) (rest : List Bar) :
    groupCandle first (next :: rest) = first.candle * groupCandle next rest := by
  have hhigh : (rest.map Bar.high).foldl max (max first.high next.high) =
      max first.high ((rest.map Bar.high).foldl max next.high) := List.foldl_assoc
  have hlow : (rest.map Bar.low).foldl min (min first.low next.low) =
      min first.low ((rest.map Bar.low).foldl min next.low) := List.foldl_assoc
  show Candle.mk _ _ _ _ _ _ = Candle.mk _ _ _ _ _ _
  rw [Candle.mk.injEq]
  refine ⟨rfl, rfl, hhigh, hlow, ?_, ?_⟩
  · rw [List.getLastD_cons]
    rfl
  · rw [List.map_cons, List.sum_cons]
    rfl

theorem candles_cons (first : Bar) (rest : List Bar) :
    candles (first :: rest) = (groupCandle first rest : WithOne Candle) := by
  induction rest generalizing first with
  | nil =>
    rw [groupCandle_nil]
    simp [candles]
  | cons next rest ih =>
    rw [groupCandle_cons, WithOne.coe_mul, ← ih next, candles, List.map_cons, List.prod_cons]
    rfl

theorem rollUp_eq_some {period : ℕ} {start : ℤ} {group : List Bar} {B : Bar} :
    rollUp period start group = some B ↔
      ∃ c : Candle, candles group = (c : WithOne Candle) ∧ c.bar period start = B := by
  cases group with
  | nil =>
    refine iff_of_false (fun h => nomatch h) ?_
    rintro ⟨c, hc, -⟩
    exact WithOne.one_ne_coe hc
  | cons first rest =>
    rw [candles_cons]
    simp only [WithOne.coe_inj, exists_eq_left']
    exact Option.some_inj

theorem rollUp_congr {group group' : List Bar} (h : candles group = candles group') (period : ℕ) (start : ℤ) :
    rollUp period start group = rollUp period start group' := by
  apply Option.ext
  intro B
  rw [rollUp_eq_some, rollUp_eq_some, h]

theorem candles_rollUp (period : ℕ) (start : ℤ) (group : List Bar) :
    candles (rollUp period start group).toList = candles group := by
  cases group with
  | nil => rfl
  | cons first rest =>
    rw [candles_cons]
    refine (candles_cons _ []).trans ?_
    rw [groupCandle_nil]
    rfl

theorem total_volume_rollUp (period : ℕ) (start : ℤ) (group : List Bar) :
    total Bar.volume (rollUp period start group).toList = total Bar.volume group := by
  cases group with
  | nil => rfl
  | cons first rest => simp [rollUp, total]

theorem ts_of_rollUp {period : ℕ} {start : ℤ} {group : List Bar} {B : Bar}
    (h : rollUp period start group = some B) : B.ts = start := by
  obtain ⟨c, -, rfl⟩ := rollUp_eq_some.mp h
  rfl

/-! ### The buckets of an aggregation -/

/-- The bars of one bucket, in order of time. -/
def bucket (bars : List Bar) (period : ℕ) (start : ℤ) : List Bar :=
  sortBy Bar.ts (bars.filter fun b => bucketStart period b.ts = start)

/-- The starts of the buckets that hold a bar. -/
def starts (bars : List Bar) (period : ℕ) : List ℤ :=
  (Dict.groupBy (fun b => bucketStart period b.ts) bars).keys.insertionSort (· ≤ ·)

variable {bars : List Bar} {period p q : ℕ} {start : ℤ} {B : Bar}

theorem aggregate_eq (bars : List Bar) (period : ℕ) :
    aggregate bars period = (starts bars period).flatMap fun start =>
      (rollUp period start (bucket bars period start)).toList := by
  rw [aggregate]
  simp only [Dict.get?_groupBy]
  exact List.filterMap_eq_flatMap_toList _ _

theorem mem_starts : start ∈ starts bars period ↔ ∃ b ∈ bars, bucketStart period b.ts = start := by
  rw [starts, List.mem_insertionSort]
  exact Dict.mem_keys_groupBy

theorem starts_increasing (bars : List Bar) (period : ℕ) : (starts bars period).Pairwise (· < ·) := by
  have hnodup : (starts bars period).Nodup := (List.perm_insertionSort _ _).nodup_iff.mpr (Dict.nodup _)
  have hsorted : (starts bars period).Pairwise (· ≤ ·) := List.pairwise_insertionSort _ _
  exact (hsorted.and hnodup).imp fun h => lt_of_le_of_ne h.1 h.2

theorem mem_aggregate : B ∈ aggregate bars period ↔
    ∃ b ∈ bars,
      rollUp period (bucketStart period b.ts) (bucket bars period (bucketStart period b.ts)) = some B := by
  rw [aggregate_eq]
  simp only [List.mem_flatMap, mem_starts, Option.mem_toList]
  constructor
  · rintro ⟨_, ⟨b, hb, rfl⟩, hB⟩
    exact ⟨b, hb, hB⟩
  · rintro ⟨b, hb, hB⟩
    exact ⟨_, ⟨b, hb, rfl⟩, hB⟩

theorem exists_rollUp {b : Bar} (hb : b ∈ bars) (period : ℕ) :
    ∃ B, rollUp period (bucketStart period b.ts) (bucket bars period (bucketStart period b.ts)) = some B := by
  have hmem : b ∈ bucket bars period (bucketStart period b.ts) :=
    mem_sortBy.mpr (List.mem_filter.mpr ⟨hb, by simp⟩)
  cases hgroup : bucket bars period (bucketStart period b.ts) with
  | nil =>
    rw [hgroup] at hmem
    cases hmem
  | cons first rest => exact ⟨_, rfl⟩

theorem map_ts_aggregate (bars : List Bar) (period : ℕ) :
    (aggregate bars period).map Bar.ts = (starts bars period).map fun start : ℤ => (start : ℚ) := by
  have hone : ∀ start ∈ starts bars period,
      (rollUp period start (bucket bars period start)).toList.map Bar.ts = [(start : ℚ)] := by
    intro start hstart
    obtain ⟨b, hb, rfl⟩ := mem_starts.mp hstart
    obtain ⟨B, hB⟩ := exists_rollUp hb period
    rw [hB, Option.toList_some, List.map_singleton, ts_of_rollUp hB]
  rw [aggregate_eq, List.map_flatMap, List.flatMap_congr hone, List.map_eq_flatMap]

theorem chronological_aggregate (bars : List Bar) (period : ℕ) :
    Chronological Bar.ts (aggregate bars period) := by
  have hstarts : ((starts bars period).map fun start : ℤ => (start : ℚ)).Pairwise (· < ·) :=
    List.pairwise_map.mpr ((starts_increasing bars period).imp fun hlt => by exact_mod_cast hlt)
  rw [← map_ts_aggregate, List.pairwise_map] at hstarts
  exact hstarts

theorem le_ts_of_mem_aggregate {first : Bar} {rest : List Bar} (h : Chronological Bar.ts (first :: rest))
    (hB : B ∈ aggregate (first :: rest) period) : (bucketStart period first.ts : ℚ) ≤ B.ts := by
  obtain ⟨b, hb, hroll⟩ := mem_aggregate.mp hB
  have hfirst : first.ts ≤ b.ts := by
    rcases List.mem_cons.mp hb with rfl | hb
    · exact le_rfl
    · exact ((List.pairwise_cons.mp h).1 b hb).le
  rw [ts_of_rollUp hroll]
  exact_mod_cast bucketStart_mono period hfirst

theorem head_aggregate {first : Bar} {rest : List Bar} (h : Chronological Bar.ts (first :: rest)) (period : ℕ) :
    ∃ head later, aggregate (first :: rest) period = head :: later ∧ head.ts = bucketStart period first.ts := by
  obtain ⟨B, hB⟩ := @exists_rollUp (first :: rest) first List.mem_cons_self period
  have hmem : B ∈ aggregate (first :: rest) period := mem_aggregate.mpr ⟨first, List.mem_cons_self, hB⟩
  cases haggregate : aggregate (first :: rest) period with
  | nil =>
    rw [haggregate] at hmem
    cases hmem
  | cons head later =>
    refine ⟨head, later, rfl, le_antisymm ?_ ?_⟩
    · have hsorted := chronological_aggregate (first :: rest) period
      rw [haggregate] at hmem hsorted
      rw [← ts_of_rollUp hB]
      rcases List.mem_cons.mp hmem with rfl | hlater
      · exact le_rfl
      · exact ((List.pairwise_cons.mp hsorted).1 B hlater).le
    · exact le_ts_of_mem_aggregate h (by rw [haggregate]; exact List.mem_cons_self)

/-! ### Aggregation composes -/

theorem filter_aggregate (hdvd : p ∣ q) (bars : List Bar) (start : ℤ) :
    ((aggregate bars p).filter fun B => bucketStart q B.ts = start) =
      aggregate (bars.filter fun b => bucketStart q b.ts = start) p := by
  have hbucket : ∀ b : Bar, bucketStart q b.ts = start →
      bucket (bars.filter fun b => bucketStart q b.ts = start) p (bucketStart p b.ts) =
        bucket bars p (bucketStart p b.ts) := by
    intro b hb
    rw [bucket, bucket, List.filter_filter]
    congr 1
    refine List.filter_congr fun a _ => ?_
    by_cases ha : bucketStart p a.ts = bucketStart p b.ts
    · have hsame : bucketStart q a.ts = start := by
        rw [← bucketStart_bucketStart hdvd, ha, bucketStart_bucketStart hdvd, hb]
      simp [ha, hsame]
    · simp [ha]
  refine Chronological.ext (List.Pairwise.filter _ (chronological_aggregate bars p))
    (chronological_aggregate _ p) fun B => ?_
  simp only [List.mem_filter, mem_aggregate, decide_eq_true_eq]
  constructor
  · rintro ⟨⟨b, hb, hB⟩, hstart⟩
    rw [ts_of_rollUp hB, bucketStart_bucketStart hdvd] at hstart
    exact ⟨b, ⟨hb, hstart⟩, by rw [hbucket b hstart, hB]⟩
  · rintro ⟨b, ⟨hb, hstart⟩, hB⟩
    rw [hbucket b hstart] at hB
    refine ⟨⟨b, hb, hB⟩, ?_⟩
    rw [ts_of_rollUp hB, bucketStart_bucketStart hdvd, hstart]

theorem candles_aggregate (period : ℕ) (hdistinct : (bars.map Bar.ts).Nodup) :
    candles (aggregate bars period) = candles (sortBy Bar.ts bars) := by
  have hsorted : sortBy Bar.ts bars = (starts bars period).flatMap (bucket bars period) :=
    sortBy_eq_flatMap (fun _ _ => bucketStart_mono period) (starts_increasing bars period)
      (fun b hb => mem_starts.mpr ⟨b, hb, rfl⟩) hdistinct
  rw [hsorted, aggregate_eq, candles_flatMap, candles_flatMap]
  simp only [candles_rollUp]

theorem rollUp_aggregate (hdvd : p ∣ q) (hdistinct : (bars.map Bar.ts).Nodup) (start : ℤ) :
    rollUp q start (bucket (aggregate bars p) q start) = rollUp q start (bucket bars q start) := by
  apply rollUp_congr
  have hpart := chronological_aggregate (bars.filter fun b => bucketStart q b.ts = start) p
  rw [bucket, filter_aggregate hdvd, hpart.sortBy_eq]
  exact candles_aggregate p (hdistinct.sublist (List.filter_sublist.map Bar.ts))

theorem total_volume_aggregate (bars : List Bar) (period : ℕ) :
    total Bar.volume (aggregate bars period) = total Bar.volume bars := by
  have hsort : ((starts bars period).flatMap (bucket bars period)).Perm
      ((starts bars period).flatMap fun start => bars.filter fun b => bucketStart period b.ts = start) :=
    List.Perm.flatMap_left _ fun start _ => perm_sortBy _
  have hbuckets := perm_flatMap_filter (starts_increasing bars period).nodup
    fun b hb => mem_starts.mpr ⟨b, hb, rfl⟩
  rw [aggregate_eq, total_flatMap]
  simp only [total_volume_rollUp]
  rw [← total_flatMap]
  exact total_perm Bar.volume (hsort.trans hbuckets)

/-- **Aggregation composes**, and every aggregation preserves the volume. -/
theorem aggregate_aggregate (hdvd : p ∣ q) (hdistinct : (bars.map Bar.ts).Nodup) :
    aggregate (aggregate bars p) q = aggregate bars q ∧
      ∀ (bars : List Bar) (period : ℕ),
        ((aggregate bars period).map Bar.volume).sum = (bars.map Bar.volume).sum := by
  refine ⟨?_, total_volume_aggregate⟩
  refine Chronological.ext (chronological_aggregate _ q) (chronological_aggregate _ q) fun B => ?_
  rw [mem_aggregate, mem_aggregate]
  constructor
  · rintro ⟨A, hA, hB⟩
    obtain ⟨b, hb, hroll⟩ := mem_aggregate.mp hA
    rw [rollUp_aggregate hdvd hdistinct, ts_of_rollUp hroll, bucketStart_bucketStart hdvd] at hB
    exact ⟨b, hb, hB⟩
  · rintro ⟨b, hb, hB⟩
    obtain ⟨A, hA⟩ := exists_rollUp hb p
    refine ⟨A, mem_aggregate.mpr ⟨b, hb, hA⟩, ?_⟩
    rw [rollUp_aggregate hdvd hdistinct, ts_of_rollUp hA, bucketStart_bucketStart hdvd, hB]

/-- A five-second bar that rises by two. -/
def risingBar (ts openPrice volume : ℚ) : Bar where
  symbol := "AAPL"
  ts
  openPrice
  high := openPrice + 2
  low := openPrice
  close := openPrice + 2
  volume
  period := 5

/-- Three bars, not in order of time. -/
def unsortedBars : List Bar := [risingBar 390 101 40, risingBar 65 100 30, risingBar 5 98 20]

theorem aggregate_aggregate_unsorted :
    aggregate (aggregate unsortedBars 60) 300 = aggregate unsortedBars 300 ∧
      ∀ (bars : List Bar) (period : ℕ),
        ((aggregate bars period).map Bar.volume).sum = (bars.map Bar.volume).sum :=
  aggregate_aggregate (by decide) (by decide)

example : (aggregate unsortedBars 300).map (fun B => (B.ts, B.openPrice, B.close, B.volume)) =
    [(0, 98, 102, 50), (300, 101, 103, 40)] := by decide +kernel

end AiTrader
