import AiTrader.Analytics.Smoothing
import Mathlib.Algebra.Order.BigOperators.Group.List
import Mathlib.Order.Interval.Set.OrdConnected
import Mathlib.Tactic.FieldSimp
import Mathlib.Tactic.Linarith
import Mathlib.Tactic.Ring

/-!
# Averages stay inside their data

A step of either smoothing is a weighted mean of the last value and the next number, so a set without gaps that
holds the numbers read so far holds the value (`Averaging.mem_of_mem`). The least and the largest of them bound
one such set. The numbers that are not negative are another, which is why the average true range is one of them.

The sets without gaps are the invariant of the induction along the values (`smoothed_induction`): the first value is a
mean of the numbers read so far, and every later one lies between its predecessor and the next number. Nothing else
about the weights is used, and both smoothings have one between zero and one.
-/

namespace AiTrader.Indicators

/-! ### Means -/

theorem mean_mem {s : Set ℚ} (hs : s.OrdConnected) {x : List ℚ} (hne : x ≠ []) (hx : ∀ v ∈ x, v ∈ s) :
    mean x ∈ s := by
  have hlength : (x.length : ℚ) ≠ 0 := by exact_mod_cast (List.length_pos_iff.mpr hne).ne'
  have hsum : (x.map fun _ => mean x).sum = (x.map id).sum := by
    rw [List.map_const', List.sum_replicate, nsmul_eq_mul, List.map_id, mean, mul_div_cancel₀ _ hlength]
  obtain ⟨low, hlow, hle⟩ := List.exists_le_of_sum_le hne id (fun _ => mean x) hsum.ge
  obtain ⟨high, hhigh, hge⟩ := List.exists_le_of_sum_le hne (fun _ => mean x) id hsum.le
  exact hs.out (hx low hlow) (hx high hhigh) ⟨hle, hge⟩

/-- Every step lies between the last value and the next number. -/
def Averaging (next : ℚ → ℚ → ℚ) : Prop := ∀ last v, next last v ∈ Set.uIcc last v

variable {next : ℚ → ℚ → ℚ} {x : List ℚ} {period : ℕ}

theorem averaging_of_weight {w : ℚ} (hlow : 0 ≤ w) (hhigh : w ≤ 1)
    (hstep : ∀ last v, next last v = (1 - w) * last + w * v) : Averaging next := by
  intro last v
  rw [hstep]
  rcases le_total last v with h | h
  · have hrise : 0 ≤ w * (v - last) := mul_nonneg hlow (sub_nonneg.mpr h)
    have hrest : 0 ≤ (1 - w) * (v - last) := mul_nonneg (sub_nonneg.mpr hhigh) (sub_nonneg.mpr h)
    rw [Set.uIcc_of_le h]
    constructor <;> linarith
  · have hfall : 0 ≤ w * (last - v) := mul_nonneg hlow (sub_nonneg.mpr h)
    have hrest : 0 ≤ (1 - w) * (last - v) := mul_nonneg (sub_nonneg.mpr hhigh) (sub_nonneg.mpr h)
    rw [Set.uIcc_of_ge h]
    constructor <;> linarith

theorem averaging_ema (hpos : 0 < period) :
    Averaging fun last v => 2 / (period + 1) * v + (1 - 2 / (period + 1)) * last := by
  have hperiod : (1 : ℚ) ≤ period := by exact_mod_cast hpos
  have hlow : (0 : ℚ) ≤ 2 / (period + 1) := div_nonneg zero_le_two (by linarith)
  have hhigh : (2 : ℚ) / (period + 1) ≤ 1 := by
    rw [div_le_one₀ (by linarith)]
    linarith
  exact averaging_of_weight hlow hhigh fun _ _ => add_comm _ _

theorem averaging_wilderSmooth (hpos : 0 < period) :
    Averaging fun last v => (last * (period - 1) + v) / period := by
  have hperiod : (1 : ℚ) ≤ period := by exact_mod_cast hpos
  have hlow : (0 : ℚ) ≤ 1 / period := div_nonneg zero_le_one (by linarith)
  have hhigh : (1 : ℚ) / period ≤ 1 := by
    rw [div_le_one₀ (by linarith)]
    exact hperiod
  refine averaging_of_weight hlow hhigh fun last v => ?_
  field_simp

/-! ### Smoothing -/

theorem Averaging.mem_of_mem (hnext : Averaging next) (hpos : 0 < period) {s : Set ℚ} (hs : s.OrdConnected) :
    ∀ i v, (smoothed next x period)[i]? = some (some v) → (∀ u ∈ x.take (i + 1), u ∈ s) → v ∈ s := by
  refine smoothed_induction (motive := fun i v => (∀ u ∈ x.take (i + 1), u ∈ s) → v ∈ s) hpos ?_ ?_
  · intro hlength hx
    have hwarm : period - 1 + 1 = period := by omega
    rw [hwarm] at hx
    refine mean_mem hs (List.ne_nil_of_length_pos ?_) hx
    rw [List.length_take]
    omega
  · intro i last v _ hentry hlast hx
    have hv : v ∈ x.take (i + 1 + 1) := by
      apply List.mem_of_getElem? (i := i + 1)
      rw [List.getElem?_take_of_lt (by omega), hentry]
    have hold : last ∈ s := hlast fun u hu => hx u ((List.take_prefix_take_left (by omega)).subset hu)
    exact hs.uIcc_subset hold (hx v hv) (hnext last v)

/-- The values of an average of a series: as many as there are numbers, none before index `period - 1`, each
between the least and the largest of the numbers up to its index. -/
structure StaysInside (x : List ℚ) (period : ℕ) (values : List (Option ℚ)) : Prop where
  length_eq : values.length = x.length
  undefined_iff : ∀ i < x.length, values[i]? = some none ↔ i < period - 1
  bounded : ∀ i v, values[i]? = some (some v) →
    ∃ low ∈ (x.take (i + 1)).min?, ∃ high ∈ (x.take (i + 1)).max?, low ≤ v ∧ v ≤ high

theorem Averaging.staysInside (hnext : Averaging next) (hpos : 0 < period) (x : List ℚ) :
    StaysInside x period (smoothed next x period) where
  length_eq := length_smoothed next x period
  undefined_iff i hi := by
    rw [smoothed_undefined_iff hpos hi]
    omega
  bounded i v hv := by
    have hi : i < x.length := by
      rw [← length_smoothed next x period]
      exact (List.getElem?_eq_some_iff.mp hv).1
    have hne : x.take (i + 1) ≠ [] := by
      apply List.ne_nil_of_length_pos
      rw [List.length_take]
      omega
    obtain ⟨low, hlow⟩ := Option.isSome_iff_exists.mp (List.isSome_min?_of_ne_nil hne)
    obtain ⟨high, hhigh⟩ := Option.isSome_iff_exists.mp (List.isSome_max?_of_ne_nil hne)
    have hmem : v ∈ Set.Icc low high := hnext.mem_of_mem hpos Set.ordConnected_Icc i v hv fun u hu =>
      ⟨(List.min?_eq_some_iff.mp hlow).2 u hu, (List.max?_eq_some_iff.mp hhigh).2 u hu⟩
    exact ⟨low, hlow, high, hhigh, hmem.1, hmem.2⟩

theorem wilderSmooth_nonneg (hpos : 0 < period) (hx : ∀ v ∈ x, 0 ≤ v) {v : ℚ}
    (hv : some v ∈ wilderSmooth x period) : 0 ≤ v := by
  obtain ⟨i, hi⟩ := List.mem_iff_getElem?.mp hv
  exact (averaging_wilderSmooth hpos).mem_of_mem hpos Set.ordConnected_Ici i v hi
    fun u hu => hx u (List.mem_of_mem_take hu)

/-! ### True ranges -/

theorem rangeAfter_nonneg (prev high low : ℚ) : 0 ≤ rangeAfter prev high low :=
  (abs_nonneg (low - prev)).trans (le_max_right _ _)

theorem trueRange_nonneg {highs lows : List ℚ} (h : List.Forall₂ (· ≤ ·) lows highs) (closes : List ℚ) :
    ∀ v ∈ trueRange highs lows closes, 0 ≤ v := by
  cases h with
  | nil => exact fun v hv => absurd hv List.not_mem_nil
  | @cons low high lows highs hle _ =>
    intro v hv
    rw [trueRange, List.mem_cons] at hv
    rcases hv with rfl | hv
    · exact sub_nonneg.mpr hle
    · obtain ⟨i, hi, rfl⟩ := List.mem_iff_getElem.mp hv
      rw [List.getElem_zipWith]
      exact rangeAfter_nonneg _ _ _

theorem atr_nonneg (hpos : 0 < period) {highs lows closes : List ℚ} (h : List.Forall₂ (· ≤ ·) lows highs) {v : ℚ}
    (hv : some v ∈ atr highs lows closes period) : 0 ≤ v :=
  wilderSmooth_nonneg hpos (trueRange_nonneg h closes) hv

/-- **Smoothing stays inside its data**, and the average true range of bars whose highs are at least their lows
is not negative. -/
theorem smoothing_staysInside (period : ℕ) (hpos : 1 ≤ period) :
    (∀ x, StaysInside x period (ema x period)) ∧ (∀ x, StaysInside x period (wilderSmooth x period)) ∧
      ∀ highs lows closes : List ℚ, lows.length = highs.length → closes.length = highs.length →
        (∀ (i : ℕ) (high low : ℚ), highs[i]? = some high → lows[i]? = some low → low ≤ high) →
          ∀ v, some v ∈ atr highs lows closes period → 0 ≤ v := by
  refine ⟨(averaging_ema hpos).staysInside hpos, (averaging_wilderSmooth hpos).staysInside hpos, ?_⟩
  intro highs lows closes hlength _ hle v hv
  have hbars : List.Forall₂ (· ≤ ·) lows highs := by
    rw [List.forall₂_iff_get]
    refine ⟨hlength, fun i hlow hhigh => ?_⟩
    exact hle i _ _ (List.getElem?_eq_getElem hhigh) (List.getElem?_eq_getElem hlow)
  exact atr_nonneg hpos hbars hv

/-- Three numbers and two bars, with a period of two. -/
theorem smoothing_staysInside_two :
    StaysInside [1, 2, 4] 2 [none, some (3 / 2), some (19 / 6)] ∧
      StaysInside [1, 2, 4] 2 [none, some (3 / 2), some (11 / 4)] ∧
        atr [3, 5] [1, 4] [2, 5] 2 = [none, some (5 / 2)] ∧ ∀ v, some v ∈ atr [3, 5] [1, 4] [2, 5] 2 → 0 ≤ v := by
  have hema : ema [1, 2, 4] 2 = [none, some (3 / 2), some (19 / 6)] := by decide +kernel
  have hwilder : wilderSmooth [1, 2, 4] 2 = [none, some (3 / 2), some (11 / 4)] := by decide +kernel
  obtain ⟨hemas, hwilders, hatr⟩ := smoothing_staysInside 2 (by decide)
  refine ⟨hema ▸ hemas _, hwilder ▸ hwilders _, by decide +kernel, hatr _ _ _ rfl rfl fun i high low => ?_⟩
  rcases i with _ | _ | i
  · rintro ⟨⟩ ⟨⟩
    decide
  · rintro ⟨⟩ ⟨⟩
    decide
  · rintro ⟨⟩

end AiTrader.Indicators
