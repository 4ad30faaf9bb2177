import AiTrader.Analytics.Indicators

/-!
# Recursive averages

`smoothed` is defined from index `period - 1` on. What holds of the seed and is kept by a step holds of every
defined value (`smoothed_induction`).

A value at an index depends on the numbers up to that index, through the seed, which is made of the first `period` of
them, and one step for each number after that. The averages of the indicators differ in the step alone: the
exponential one weighs the new number with two parts in `period + 1`, Wilder's with one in `period`.
-/

namespace AiTrader.Indicators

variable {next : ℚ → ℚ → ℚ} {x : List ℚ} {period : ℕ}

@[simp] theorem length_undefined (x : List ℚ) : (undefined x).length = x.length := List.length_map _

theorem getElem?_undefined {i : ℕ} (h : i < x.length) : (undefined x)[i]? = some none := by
  rw [undefined, List.getElem?_map, List.getElem?_eq_getElem h]
  rfl

@[simp] theorem length_smoothed (next : ℚ → ℚ → ℚ) (x : List ℚ) (period : ℕ) :
    (smoothed next x period).length = x.length := by
  unfold smoothed
  split_ifs with h
  · exact length_undefined x
  · obtain ⟨hpos, hlength⟩ := not_or.mp h
    simp only [List.length_append, List.length_replicate, List.length_map, List.length_scanl, List.length_drop]
    omega

theorem getElem?_smoothed_of_lt {i : ℕ} (hi : i + 1 < period) (hx : i < x.length) :
    (smoothed next x period)[i]? = some none := by
  unfold smoothed
  split_ifs with h
  · exact getElem?_undefined hx
  · rw [List.getElem?_append_left (by rw [List.length_replicate]; omega), List.getElem?_replicate,
      if_pos (by omega)]

theorem getElem?_smoothed_of_le {i : ℕ} (hpos : 0 < period) (hi : period ≤ i + 1) (hx : i < x.length) :
    (smoothed next x period)[i]? =
      some (some (((x.drop period).take (i + 1 - period)).foldl next (mean (x.take period)))) := by
  have hshift : i - (period - 1) = i + 1 - period := by omega
  unfold smoothed
  rw [if_neg (by omega), List.getElem?_append_right (by rw [List.length_replicate]; omega),
    List.length_replicate, hshift, List.getElem?_map, List.getElem?_scanl,
    if_pos (by rw [List.length_drop]; omega)]
  rfl

theorem smoothed_undefined_iff {i : ℕ} (hpos : 0 < period) (hx : i < x.length) :
    (smoothed next x period)[i]? = some none ↔ i + 1 < period := by
  constructor
  · intro h
    by_contra hle
    rw [getElem?_smoothed_of_le hpos (by omega) hx] at h
    cases h
  · exact fun hlt => getElem?_smoothed_of_lt hlt hx

theorem smoothed_induction {motive : ℕ → ℚ → Prop} (hpos : 0 < period)
    (hseed : period ≤ x.length → motive (period - 1) (mean (x.take period)))
    (hnext : ∀ i last v, period ≤ i + 1 → x[i + 1]? = some v → motive i last → motive (i + 1) (next last v)) :
    ∀ i v, (smoothed next x period)[i]? = some (some v) → motive i v := by
  have hfold : ∀ k, period + k ≤ x.length →
      motive (period - 1 + k) (((x.drop period).take k).foldl next (mean (x.take period))) := by
    intro k
    induction k with
    | zero => exact fun hx => hseed (by omega)
    | succ k ih =>
      intro hx
      have hentry : (x.drop period)[k]? = some (x[period + k]) := by
        rw [List.getElem?_drop, List.getElem?_eq_getElem]
      have hindex : period - 1 + k + 1 = period + k := by omega
      rw [List.take_add_one, hentry, Option.toList_some, List.foldl_append, ← Nat.add_assoc]
      exact hnext _ _ _ (by omega) (by rw [hindex, List.getElem?_eq_getElem]) (ih (by omega))
  intro i v hv
  have hx : i < x.length := by
    rw [← length_smoothed next x period]
    exact (List.getElem?_eq_some_iff.mp hv).1
  by_cases hi : i + 1 < period
  · rw [getElem?_smoothed_of_lt hi hx] at hv
    cases hv
  · rw [getElem?_smoothed_of_le hpos (by omega) hx] at hv
    cases hv
    have hvalue := hfold (i + 1 - period) (by omega)
    rwa [show period - 1 + (i + 1 - period) = i by omega] at hvalue

end AiTrader.Indicators
