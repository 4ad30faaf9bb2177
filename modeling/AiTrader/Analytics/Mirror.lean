import AiTrader.Analytics.Features
import AiTrader.Analytics.Ranking
import Mathlib.Data.List.TakeWhile

/-!
# The score and the side of the market

Mirroring a pack turns every rise in it into a fall of the same size. The components of the score are
absolute values and two-sided tests, so they do not see the side; the exception is the bonus for the
agreement of EMA and MACD, which counts a histogram of zero as agreement with a falling trend only.

The score is split into the trend bonus and the rest. The rest is the same in the mirror term by term
(`sidelessScore_mirror`). The bonus is too where the histogram is not zero, as both of its comparisons turn around;
where it is zero with a trend, exactly one of the two packs gets it, and half a point survives the rounding to four
places (`roundTo_ne`).
-/

namespace AiTrader

open Lib

namespace FeaturePack

/-- The pack of the mirrored market. -/
def mirror (f : FeaturePack) : FeaturePack :=
  { f with
    vwapDistanceAtr := -f.vwapDistanceAtr
    gapPct := -f.gapPct
    emaTrend := -f.emaTrend
    macd := -f.macd
    macdSignal := -f.macdSignal
    rsi := 100 - f.rsi
    openingRangePosition := f.openingRangePosition.map (1 - ·) }

/-- EMA and MACD agree on a trend. -/
def TrendAgrees (f : FeaturePack) : Prop := f.emaTrend ≠ 0 ∧ (0 < f.macd - f.macdSignal ↔ 0 < f.emaTrend)

instance (f : FeaturePack) : Decidable f.TrendAgrees := inferInstanceAs (Decidable (_ ∧ _))

def trendBonus (f : FeaturePack) : ℚ := if f.TrendAgrees then 1 / 2 else 0

end FeaturePack

/-- The bonus for a price outside the opening range. -/
def breakoutBonus (position : Option ℚ) : ℚ :=
  match position with
  | some position => if 1 < position ∨ position < 0 then 1 else 0
  | none => 0

theorem breakoutBonus_mirror (position : Option ℚ) :
    breakoutBonus (position.map fun p => 1 - p) = breakoutBonus position := by
  cases position with
  | none => rfl
  | some p =>
    have hside : (1 < 1 - p ∨ 1 - p < 0) ↔ (1 < p ∨ p < 0) := by
      constructor
      · rintro (h | h)
        · exact .inr (by linarith)
        · exact .inl (by linarith)
      · rintro (h | h)
        · exact .inr (by linarith)
        · exact .inl (by linarith)
    simp only [breakoutBonus, Option.map_some, hside]

def spreadPenalty (spreadPct : Option ℚ) : ℚ :=
  match spreadPct with
  | some spread => if 3 / 1000 < spread then 3 else 0
  | none => 0

/-- The score before it is rounded, without the trend bonus. -/
def sidelessScore (f : FeaturePack) (scannerRank : ℚ) : ℚ :=
  min f.rvol 5 * 2 +
    (if 1 / 2 ≤ f.atrPct ∧ f.atrPct ≤ 6 then min f.atrPct 4 else if 6 < f.atrPct then -1 else 0) +
    min |f.vwapDistanceAtr| 3 + |f.rsi - 50| / 25 + breakoutBonus f.openingRangePosition +
    min (|f.gapPct| / 2) 2 + scannerRank - spreadPenalty f.spreadPct -
    if f.avgVolume ≠ 0 ∧ f.avgVolume < 300000 then 2 else 0

theorem scoreSymbol_eq (f : FeaturePack) (scannerRank : ℚ) :
    scoreSymbol f scannerRank = Decimal.roundTo 4 (sidelessScore f scannerRank + f.trendBonus) := by
  show Decimal.roundTo 4 (_ + f.trendBonus + breakoutBonus f.openingRangePosition + _ + _ -
    spreadPenalty f.spreadPct - _) = _
  unfold sidelessScore
  congr 1
  ring

theorem sidelessScore_mirror (f : FeaturePack) (scannerRank : ℚ) :
    sidelessScore f.mirror scannerRank = sidelessScore f scannerRank := by
  have hrsi : |100 - f.rsi - 50| = |f.rsi - 50| := by
    rw [show 100 - f.rsi - 50 = -(f.rsi - 50) by ring, abs_neg]
  unfold sidelessScore FeaturePack.mirror
  simp only [abs_neg, hrsi, breakoutBonus_mirror]

namespace FeaturePack

theorem trendAgrees_mirror {f : FeaturePack} (h : f.macd ≠ f.macdSignal) :
    f.mirror.TrendAgrees ↔ f.TrendAgrees := by
  have hhist : 0 < -f.macd - -f.macdSignal ↔ ¬ 0 < f.macd - f.macdSignal := by
    rw [not_lt, sub_nonpos, sub_neg_eq_add, neg_add_eq_sub, sub_pos]
    exact ⟨le_of_lt, fun hle => lt_of_le_of_ne hle h⟩
  have htrend : f.emaTrend ≠ 0 → (0 < -f.emaTrend ↔ ¬ 0 < f.emaTrend) := by omega
  unfold TrendAgrees mirror
  rw [hhist, neg_ne_zero]
  exact and_congr_right fun hne => by rw [htrend hne, not_iff_not]

theorem trendAgrees_of_axis {f : FeaturePack} (h : f.macd = f.macdSignal) :
    f.TrendAgrees ↔ f.emaTrend < 0 := by
  unfold TrendAgrees
  rw [h, sub_self]
  constructor
  · rintro ⟨hne, hside⟩
    have hpos : ¬ 0 < f.emaTrend := fun hpos => lt_irrefl _ (hside.mpr hpos)
    omega
  · intro hneg
    exact ⟨hneg.ne, fun h => absurd h (lt_irrefl _), fun h => absurd h (by omega)⟩

theorem trendBonus_mirror {f : FeaturePack} (h : f.emaTrend = 0 ∨ f.macd ≠ f.macdSignal) :
    f.mirror.trendBonus = f.trendBonus := by
  rcases h with htrend | hhist
  · have hleft : ¬ f.mirror.TrendAgrees := fun h => h.1 (neg_eq_zero.mpr htrend)
    have hright : ¬ f.TrendAgrees := fun h => h.1 htrend
    rw [trendBonus, trendBonus, if_neg hleft, if_neg hright]
  · unfold trendBonus
    simp only [trendAgrees_mirror hhist]

theorem trendBonus_of_axis {f : FeaturePack} (htrend : f.emaTrend ≠ 0) (h : f.macd = f.macdSignal) :
    |f.mirror.trendBonus - f.trendBonus| = 1 / 2 := by
  have hmirror : f.mirror.TrendAgrees ↔ -f.emaTrend < 0 := trendAgrees_of_axis (congrArg Neg.neg h)
  unfold trendBonus
  simp only [trendAgrees_of_axis h, hmirror]
  rcases lt_or_gt_of_ne htrend with hneg | hpos
  · rw [if_neg (by omega), if_pos hneg, zero_sub, abs_neg, abs_of_pos (by norm_num)]
  · rw [if_pos (by omega), if_neg (by omega), sub_zero, abs_of_pos (by norm_num)]

end FeaturePack

theorem roundTo_ne {x y : ℚ} (h : |x - y| = 1 / 2) : Decimal.roundTo 4 x ≠ Decimal.roundTo 4 y := by
  intro heq
  have hsame : Decimal.roundHalfEven (x * 10 ^ 4) = Decimal.roundHalfEven (y * 10 ^ 4) := by
    have hcast := (div_left_inj' (by norm_num)).mp heq
    exact_mod_cast hcast
  have hx := abs_le.mp (Decimal.abs_roundHalfEven_sub_le (x * 10 ^ 4))
  have hy := abs_le.mp (Decimal.abs_roundHalfEven_sub_le (y * 10 ^ 4))
  rw [hsame] at hx
  generalize (Decimal.roundHalfEven (y * 10 ^ 4) : ℚ) = rounded at hx hy
  rcases abs_choice (x - y) with habs | habs
  · linarith [hx.1, hy.2]
  · linarith [hx.2, hy.1]

/-- **The score is the same on both sides of the mirror exactly when EMA shows no trend or the MACD histogram
is not zero.** -/
theorem scoreSymbol_mirror_iff (f : FeaturePack) (scannerRank : ℚ) :
    scoreSymbol f.mirror scannerRank = scoreSymbol f scannerRank ↔
      f.emaTrend = 0 ∨ f.macd ≠ f.macdSignal := by
  rw [scoreSymbol_eq, scoreSymbol_eq, sidelessScore_mirror]
  constructor
  · intro hscore
    by_contra haxis
    obtain ⟨htrend, hhist⟩ := not_or.mp haxis
    refine roundTo_ne ?_ hscore
    rw [add_sub_add_left_eq_sub]
    exact FeaturePack.trendBonus_of_axis htrend (not_not.mp hhist)
  · intro h
    rw [FeaturePack.trendBonus_mirror h]

/-! ### Histories too short for the MACD -/

open Indicators

theorem lastValid_of_forall_none {x : List (Option ℚ)} (default : ℚ) (h : ∀ v ∈ x, v = none) :
    lastValid x default = default := by
  have hnil : x.reduceOption = [] := by
    rw [List.reduceOption, List.filterMap_eq_nil_iff]
    exact h
  rw [lastValid, hnil]
  rfl

theorem eq_none_of_mem_undefined {x : List ℚ} {v : Option ℚ} (h : v ∈ undefined x) : v = none := by
  obtain ⟨_, _, rfl⟩ := List.mem_map.mp h
  rfl

theorem eq_none_of_mem_minus {x y : List (Option ℚ)} (h : ∀ v ∈ y, v = none) {v : Option ℚ}
    (hv : v ∈ minus x y) : v = none := by
  obtain ⟨i, hi, rfl⟩ := List.mem_iff_getElem.mp hv
  have hlengths : i < min x.length y.length := by rwa [minus, List.length_zipWith] at hi
  obtain ⟨hx, hy⟩ := lt_min_iff.mp hlengths
  simp only [minus, List.getElem_zipWith, h _ (List.getElem_mem hy)]
  cases x[i] <;> rfl

theorem macd_of_short {std : List ℚ → ℚ} {symbol : String} {intraday daily : List Bar} {quote : Option Quote}
    {openingRangeBars : ℕ} {f : FeaturePack}
    (h : buildFeaturePack std symbol intraday daily quote openingRangeBars = some f)
    (hshort : intraday.length < 26) : f.macd = 0 ∧ f.macdSignal = 0 := by
  unfold buildFeaturePack at h
  split_ifs at h
  cases h
  have hslow : ∀ v ∈ ema (intraday.map fun b => b.close) 26, v = none := by
    intro v hv
    rw [ema, smoothed, if_pos (.inr (by rwa [List.length_map]))] at hv
    exact eq_none_of_mem_undefined hv
  have hline : ∀ v ∈ minus (ema (intraday.map fun b => b.close) 12) (ema (intraday.map fun b => b.close) 26),
      v = none := fun v hv => eq_none_of_mem_minus hslow hv
  refine ⟨lastValid_of_forall_none 0 hline, lastValid_of_forall_none 0 ?_⟩
  intro v hv
  rcases List.mem_append.mp hv with hv | hv
  · exact hline v (List.takeWhile_subset _ hv)
  · have hempty : (minus (ema (intraday.map fun b => b.close) 12)
        (ema (intraday.map fun b => b.close) 26)).dropWhile Option.isNone = [] := by
      rw [List.dropWhile_eq_nil_iff]
      intro w hw
      rw [hline w hw]
      rfl
    rw [hempty, ema, smoothed, if_pos (.inr (by decide))] at hv
    exact eq_none_of_mem_undefined hv

/-- Twenty-one bars at 100 and one at 101. -/
def risingBars : List Bar := flatBars "AAPL" 100 6300 21 ++ [flatBar "AAPL" 101 6300]

/-- The pack of a rising market whose MACD is not warmed up loses half a point in the mirror. -/
theorem score_risingBars : risingBars.length = 22 ∧
    ∀ std : List ℚ → ℚ, ∃ f, buildFeaturePack std "AAPL" risingBars [] none 3 = some f ∧
      scoreSymbol f.mirror 0 ≠ scoreSymbol f 0 := by
  have hprice : ¬ packPrice risingBars none ≤ 0 := by decide +kernel
  have hscores : scoreSymbol (featurePack (fun _ => 0) "AAPL" risingBars [] none 3).mirror 0 ≠
      scoreSymbol (featurePack (fun _ => 0) "AAPL" risingBars [] none 3) 0 := by decide +kernel
  refine ⟨rfl, fun std => ⟨featurePack std "AAPL" risingBars [] none 3, ?_, ?_⟩⟩
  · rw [buildFeaturePack, if_neg (by decide), if_neg hprice]
  · -- the bands are the only part of a pack that the deviation enters, and the score does not read them
    exact hscores

end AiTrader
