import AiTrader.Analytics.Averages
import Mathlib.Tactic.FieldSimp
import Mathlib.Tactic.Linarith
import Mathlib.Tactic.Positivity
import Mathlib.Tactic.Ring

/-!
# The relative strength index

The gains and the losses of a series are smoothed side by side. Reflecting the series swaps them, and
`rsiValue` of the swapped averages is the complement to 100, its two special cases included.

The averages of gains and losses are Wilder's, and so not negative (`wilderSmooth_nonneg`); where both are zero the
value is 50 by definition, and where only the losses are it is 100. The quotient lies between 0 and 100 in every other
case. One place in front belongs to the first difference, so the undefined values are those of the first `period`
indices.
-/

namespace AiTrader.Indicators

/-! ### One value -/

theorem rsiValue_mem {gain loss : ℚ} (hgain : 0 ≤ gain) (hloss : 0 ≤ loss) :
    0 ≤ rsiValue gain loss ∧ rsiValue gain loss ≤ 100 := by
  unfold rsiValue
  split_ifs with hnone hall
  · norm_num
  · norm_num
  · have hratio : 0 ≤ gain / loss := div_nonneg hgain hloss
    have hone : 1 ≤ 1 + gain / loss := by linarith
    have hupper : 100 / (1 + gain / loss) ≤ 100 := div_le_self (by norm_num) hone
    have hlower : 0 ≤ 100 / (1 + gain / loss) := by positivity
    constructor <;> linarith

theorem rsiValue_swap {gain loss : ℚ} (hgain : 0 ≤ gain) (hloss : 0 ≤ loss) :
    rsiValue loss gain = 100 - rsiValue gain loss := by
  unfold rsiValue
  rcases hgain.eq_or_lt with rfl | hgain
  · rcases hloss.eq_or_lt with rfl | hloss
    · norm_num
    · rw [if_neg (fun h => hloss.ne' h.2), if_pos ⟨rfl, hloss⟩, if_neg (fun h => hloss.ne' h.1),
        if_neg (fun h => hloss.ne' h.1)]
      norm_num
  · rcases hloss.eq_or_lt with rfl | hloss
    · rw [if_neg (fun h => hgain.ne' h.1), if_neg (fun h => hgain.ne' h.1), if_neg (fun h => hgain.ne' h.2),
        if_pos ⟨rfl, hgain⟩]
      norm_num
    · rw [if_neg (fun h => hgain.ne' h.1), if_neg (fun h => hgain.ne' h.1), if_neg (fun h => hloss.ne' h.1),
        if_neg (fun h => hloss.ne' h.1)]
      have hsum : gain + loss ≠ 0 := by positivity
      have hsum' : loss + gain ≠ 0 := by positivity
      field_simp
      ring

/-! ### The two series -/

/-- The rises between neighbours. -/
def gains (closes : List ℚ) : List ℚ := (diff closes).map fun d => if 0 < d then d else 0

/-- The falls between neighbours. -/
def losses (closes : List ℚ) : List ℚ := (diff closes).map fun d => if d < 0 then -d else 0

@[simp] theorem length_diff (closes : List ℚ) : (diff closes).length = closes.length - 1 := by
  simp [diff]

@[simp] theorem length_gains (closes : List ℚ) : (gains closes).length = closes.length - 1 := by
  simp [gains]

@[simp] theorem length_losses (closes : List ℚ) : (losses closes).length = closes.length - 1 := by
  simp [losses]

theorem gains_nonneg {closes : List ℚ} : ∀ v ∈ gains closes, 0 ≤ v := by
  intro v hv
  obtain ⟨d, -, rfl⟩ := List.mem_map.mp hv
  split_ifs with h
  · exact h.le
  · exact le_refl 0

theorem losses_nonneg {closes : List ℚ} : ∀ v ∈ losses closes, 0 ≤ v := by
  intro v hv
  obtain ⟨d, -, rfl⟩ := List.mem_map.mp hv
  split_ifs with h
  · exact (neg_pos.mpr h).le
  · exact le_refl 0

theorem diff_reflect (K : ℚ) (closes : List ℚ) :
    diff (closes.map fun c => K - c) = (diff closes).map fun d => -d := by
  unfold diff
  rw [← List.map_tail, List.zipWith_map, List.map_zipWith]
  congr 1
  funext later earlier
  ring

theorem gains_reflect (K : ℚ) (closes : List ℚ) : gains (closes.map fun c => K - c) = losses closes := by
  unfold gains losses
  rw [diff_reflect, List.map_map]
  refine List.map_congr_left fun d _ => ?_
  simp only [Function.comp_apply, neg_pos]

theorem losses_reflect (K : ℚ) (closes : List ℚ) : losses (closes.map fun c => K - c) = gains closes := by
  unfold gains losses
  rw [diff_reflect, List.map_map]
  refine List.map_congr_left fun d _ => ?_
  simp only [Function.comp_apply, neg_neg, Left.neg_neg_iff]

/-! ### The index -/

/-- The index of two averages that may be undefined. -/
def strength (gain loss : Option ℚ) : Option ℚ := do return rsiValue (← gain) (← loss)

section

variable {closes : List ℚ} {period : ℕ}

theorem rsi_of_short (h : closes.length < period + 1) : rsi closes period = undefined closes := if_pos h

theorem rsi_of_long (h : ¬ closes.length < period + 1) : rsi closes period =
    none :: List.zipWith strength (wilderSmooth (gains closes) period) (wilderSmooth (losses closes) period) :=
  if_neg h

@[simp] theorem length_rsi (closes : List ℚ) (period : ℕ) : (rsi closes period).length = closes.length := by
  by_cases h : closes.length < period + 1
  · rw [rsi_of_short h, length_undefined]
  · rw [rsi_of_long h]
    simp only [List.length_cons, List.length_zipWith, wilderSmooth, length_smoothed, length_gains,
      length_losses]
    omega

theorem rsi_undefined_iff (hpos : 0 < period) {i : ℕ} (hi : i < closes.length) :
    (rsi closes period)[i]? = some none ↔ i < period := by
  by_cases h : closes.length < period + 1
  · rw [rsi_of_short h, getElem?_undefined hi]
    simp only [true_iff]
    omega
  · rw [rsi_of_long h]
    cases i with
    | zero => simpa using hpos
    | succ i =>
      have hgains : i < (gains closes).length := by rw [length_gains]; omega
      have hlosses : i < (losses closes).length := by rw [length_losses]; omega
      rw [List.getElem?_cons_succ, List.getElem?_zipWith]
      by_cases hi : i + 1 < period
      · simp only [wilderSmooth, getElem?_smoothed_of_lt hi hgains, getElem?_smoothed_of_lt hi hlosses]
        simp [strength, hi]
      · have hle : period ≤ i + 1 := by omega
        simp only [wilderSmooth, getElem?_smoothed_of_le hpos hle hgains,
          getElem?_smoothed_of_le hpos hle hlosses]
        simp [strength, hi]

theorem exists_averages (hpos : 0 < period) {r : ℚ} (hr : some r ∈ rsi closes period) :
    ∃ gain loss, 0 ≤ gain ∧ 0 ≤ loss ∧ rsiValue gain loss = r := by
  by_cases h : closes.length < period + 1
  · rw [rsi_of_short h] at hr
    obtain ⟨_, -, hnone⟩ := List.mem_map.mp hr
    cases hnone
  · rw [rsi_of_long h, List.mem_cons] at hr
    rcases hr with hnone | hr
    · cases hnone
    · obtain ⟨i, hi, hvalue⟩ := List.mem_iff_getElem.mp hr
      have hlengths := hi
      rw [List.length_zipWith, lt_min_iff] at hlengths
      have hgain := List.getElem_mem hlengths.1
      have hloss := List.getElem_mem hlengths.2
      rw [List.getElem_zipWith] at hvalue
      generalize (wilderSmooth (gains closes) period)[i] = gain at hgain hvalue
      generalize (wilderSmooth (losses closes) period)[i] = loss at hloss hvalue
      cases gain with
      | none => cases hvalue
      | some gain =>
        cases loss with
        | none => cases hvalue
        | some loss =>
          exact ⟨gain, loss, wilderSmooth_nonneg hpos gains_nonneg hgain,
            wilderSmooth_nonneg hpos losses_nonneg hloss, Option.some.inj hvalue⟩

theorem strength_swap (hpos : 0 < period) {gain loss : Option ℚ}
    (hgain : gain ∈ wilderSmooth (gains closes) period) (hloss : loss ∈ wilderSmooth (losses closes) period) :
    strength loss gain = (strength gain loss).map fun r => 100 - r := by
  cases gain with
  | none => cases loss <;> rfl
  | some gain =>
    cases loss with
    | none => rfl
    | some loss =>
      have hswap := rsiValue_swap (wilderSmooth_nonneg hpos gains_nonneg hgain)
        (wilderSmooth_nonneg hpos losses_nonneg hloss)
      simp [strength, hswap]

theorem rsi_reflect (hpos : 0 < period) (K : ℚ) :
    rsi (closes.map fun c => K - c) period = (rsi closes period).map (Option.map fun r => 100 - r) := by
  by_cases h : closes.length < period + 1
  · rw [rsi_of_short h, rsi_of_short (by rwa [List.length_map])]
    simp only [undefined, List.map_map]
    rfl
  · rw [rsi_of_long h, rsi_of_long (by rwa [List.length_map]), gains_reflect, losses_reflect, List.map_cons,
      Option.map_none]
    congr 1
    apply List.ext_getElem
    · simp [wilderSmooth]
    · intro i hi hj
      simp only [List.length_map, List.length_zipWith, lt_min_iff] at hj
      simp only [List.getElem_zipWith, List.getElem_map]
      exact strength_swap hpos (List.getElem_mem hj.1) (List.getElem_mem hj.2)

end

/-- The index is defined from `period` on, lies between 0 and 100, and is taken to its complement when the
series is reflected. -/
structure WellFormedRsi (closes : List ℚ) (period : ℕ) : Prop where
  length_eq : (rsi closes period).length = closes.length
  undefined_iff : ∀ i < closes.length, (rsi closes period)[i]? = some none ↔ i < period
  bounded : ∀ r, some r ∈ rsi closes period → 0 ≤ r ∧ r ≤ 100
  reflected : ∀ K : ℚ,
    rsi (closes.map fun c => K - c) period = (rsi closes period).map (Option.map fun r => 100 - r)

/-- **RSI is well formed for every series and every period from one on.** -/
theorem rsi_wellFormed (closes : List ℚ) (period : ℕ) (hpos : 1 ≤ period) : WellFormedRsi closes period where
  length_eq := length_rsi closes period
  undefined_iff _ hi := rsi_undefined_iff hpos hi
  bounded r hr := by
    obtain ⟨gain, loss, hgain, hloss, rfl⟩ := exists_averages hpos hr
    exact rsiValue_mem hgain hloss
  reflected K := rsi_reflect hpos K

/-- Two rises and a fall, with a period of two. -/
theorem rsi_wellFormed_zigzag :
    WellFormedRsi [1, 2, 3, 2] 2 ∧ rsi [1, 2, 3, 2] 2 = [none, none, some 100, some 50] :=
  ⟨rsi_wellFormed [1, 2, 3, 2] 2 (by decide), by decide +kernel⟩

end AiTrader.Indicators
