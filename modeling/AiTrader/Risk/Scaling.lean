import AiTrader.Risk.Sizing

/-!
# How the size scales

Conviction, equity and buying power enter the share count through its budgets only; the prices, and with them
every refusal but that of an account without equity, do not depend on them (`Sizeable`). So the count is a floor
of a budget that grows, under ceilings that grow (`size_monotone`).

The scalar of the conviction lies between a half and one, so the risk budget at any conviction is at most twice
the one at none, and a floor of twice as much is at most twice the floor and one.

The sizer is brought into this form once (`sizedQuantity_of_sizeable`); the two halves of the law then speak of
integers. The one is the monotonicity of floors and minima, the other that a floor of at most twice as much exceeds
twice the floor by one at most (`floor_div_le_two_mul`), and that the ceilings and the lower bound of zero do not
change this (`max_min_le`).
-/

namespace AiTrader

open Lib

/-- The quantity of the order, zero when there is none. -/
def sizedQuantity (proposal : TradeProposal) (features : FeaturePack) (account : AccountSnapshot)
    (quote : Option Quote) (cfg : RiskConfig) (limitOffsetPct : ℚ) : ℤ :=
  ((sizeProposal proposal features account quote cfg limitOffsetPct).map SizedOrder.quantity).getD 0

namespace Sizing

/-- The action and the prices allow an order. -/
def Sizeable (proposal : TradeProposal) (features : FeaturePack) (quote : Option Quote)
    (limitOffsetPct : ℚ) : Prop :=
  let isLong := decide (proposal.action = .buy)
  let p := prices proposal features (basePrice features quote) limitOffsetPct isLong
  (proposal.action = .buy ∨ proposal.action = .sell) ∧ 0 < basePrice features quote ∧
    isValid p isLong = true ∧ 0 < |p.entry - p.stop|

/-- What the count stays under besides the risk budget. -/
def ceiling (entry : ℚ) (features : FeaturePack) (account : AccountSnapshot) (cfg : RiskConfig) : ℤ :=
  let shares := min (affordable (maxNotional account cfg) entry) (affordable (usableBuyingPower account cfg) entry)
  if 0 < features.avgVolume then min shares ⌊features.avgVolume * (5 / 1000)⌋ else shares

variable {proposal : TradeProposal} {features : FeaturePack} {account : AccountSnapshot}
  {quote : Option Quote} {cfg : RiskConfig} {limitOffsetPct : ℚ}

theorem shares_eq_min (budget stopDistance entry : ℚ) :
    shares budget stopDistance entry features account cfg =
      min ⌊budget / stopDistance⌋ (ceiling entry features account cfg) := by
  unfold shares ceiling
  dsimp only
  split_ifs
  · rw [min_assoc, min_assoc, min_assoc]
  · rw [min_assoc]

/-- The shares of the order before they are refused for being too few. -/
def count (proposal : TradeProposal) (features : FeaturePack) (account : AccountSnapshot)
    (quote : Option Quote) (cfg : RiskConfig) (limitOffsetPct : ℚ) : ℤ :=
  let p := prices proposal features (basePrice features quote) limitOffsetPct (decide (proposal.action = .buy))
  shares (riskBudget proposal.conviction account.equity cfg) |p.entry - p.stop| p.entry features account cfg

theorem sizedQuantity_of_sizeable (h : Sizeable proposal features quote limitOffsetPct)
    (hequity : 0 < account.equity) :
    sizedQuantity proposal features account quote cfg limitOffsetPct =
      max 0 (count proposal features account quote cfg limitOffsetPct) := by
  obtain ⟨haction, hprice, hvalid, hdistance⟩ := h
  have hneither : ¬ (proposal.action ≠ .buy ∧ proposal.action ≠ .sell) := by tauto
  unfold sizedQuantity sizeProposal
  dsimp only
  rw [if_neg hneither, if_neg (not_le.mpr hequity), if_neg (not_le.mpr hprice), hvalid, Bool.not_true,
    if_neg Bool.false_ne_true, if_neg (not_le.mpr hdistance)]
  split_ifs with hfew
  · have hcount : count proposal features account quote cfg limitOffsetPct ≤ 0 := Int.lt_add_one_iff.mp hfew
    exact (max_eq_left hcount).symm
  · have hcount : 1 ≤ count proposal features account quote cfg limitOffsetPct := not_lt.mp hfew
    exact (max_eq_right (zero_le_one.trans hcount)).symm

theorem sizedQuantity_of_not (h : ¬ (Sizeable proposal features quote limitOffsetPct ∧ 0 < account.equity)) :
    sizedQuantity proposal features account quote cfg limitOffsetPct = 0 := by
  cases hsized : sizeProposal proposal features account quote cfg limitOffsetPct with
  | none => rw [sizedQuantity, hsized]; rfl
  | some order =>
    obtain ⟨isLong, p, shares, rfl, rfl, -, haction, hequity, hprice, hvalid, hdistance, -⟩ :=
      sizeProposal_eq_some hsized
    exact absurd ⟨⟨haction, hprice, hvalid, hdistance⟩, hequity⟩ h

theorem sizedQuantity_nonneg : 0 ≤ sizedQuantity proposal features account quote cfg limitOffsetPct := by
  by_cases h : Sizeable proposal features quote limitOffsetPct ∧ 0 < account.equity
  · rw [sizedQuantity_of_sizeable h.1 h.2]
    exact le_max_left _ _
  · rw [sizedQuantity_of_not h]

/-! ### The budgets -/

theorem convictionScalar_mono {conviction conviction' : ℚ} (h : conviction ≤ conviction') :
    convictionScalar conviction ≤ convictionScalar conviction' :=
  max_le_max le_rfl (min_le_min le_rfl (by linarith))

theorem half_le_convictionScalar (conviction : ℚ) : 1 / 2 ≤ convictionScalar conviction := le_max_left _ _

theorem convictionScalar_zero : convictionScalar 0 = 1 / 2 := by decide +kernel

theorem affordable_mono {budget budget' : ℚ} (h : budget ≤ budget') (entry : ℚ) :
    affordable budget entry ≤ affordable budget' entry := by
  unfold affordable
  split_ifs with hentry
  · exact Int.floor_mono (div_le_div_of_nonneg_right h hentry.le)
  · exact le_rfl

theorem ceiling_mono (hcfg : cfg.Accepted) {account' : AccountSnapshot} (hequity : account.equity ≤ account'.equity)
    (hpower : account.buyingPower ≤ account'.buyingPower) (entry : ℚ) :
    ceiling entry features account cfg ≤ ceiling entry features account' cfg := by
  have hnotional : maxNotional account cfg ≤ maxNotional account' cfg :=
    mul_le_mul_of_nonneg_right hequity hcfg.notional_pos.le
  have husable : usableBuyingPower account cfg ≤ usableBuyingPower account' cfg :=
    mul_le_mul_of_nonneg_right hpower (sub_nonneg.mpr hcfg.reserve_lt_one.le)
  have hmoney := min_le_min (affordable_mono hnotional entry) (affordable_mono husable entry)
  unfold ceiling
  dsimp only
  split_ifs
  · exact min_le_min hmoney le_rfl
  · exact hmoney

theorem riskBudget_mono (hcfg : cfg.Accepted) (hfloor : 0 ≤ cfg.minRiskPerTradePct) {conviction conviction' : ℚ}
    (hconviction : conviction ≤ conviction') {equity equity' : ℚ} (hpos : 0 < equity) (hequity : equity ≤ equity') :
    riskBudget conviction equity cfg ≤ riskBudget conviction' equity' cfg := by
  have hcap : equity * cfg.maxRiskPerTradePct ≤ equity' * cfg.maxRiskPerTradePct :=
    mul_le_mul_of_nonneg_right hequity hcfg.maxRisk_pos.le
  have hscalar : 0 ≤ convictionScalar conviction := by linarith [half_le_convictionScalar conviction]
  have hcap' : 0 ≤ equity' * cfg.maxRiskPerTradePct := (mul_pos (hpos.trans_le hequity) hcfg.maxRisk_pos).le
  refine max_le_max ?_ (mul_le_mul_of_nonneg_right hequity hfloor)
  exact mul_le_mul hcap (convictionScalar_mono hconviction) hscalar hcap'

theorem riskBudget_le_two_mul (hcfg : cfg.Accepted) (hfloor : 0 ≤ cfg.minRiskPerTradePct) {equity : ℚ}
    (hpos : 0 < equity) (conviction : ℚ) : riskBudget conviction equity cfg ≤ 2 * riskBudget 0 equity cfg := by
  have hcap : 0 ≤ equity * cfg.maxRiskPerTradePct := (mul_pos hpos hcfg.maxRisk_pos).le
  have hleast : 0 ≤ equity * cfg.minRiskPerTradePct := mul_nonneg hpos.le hfloor
  have hnone : equity * cfg.maxRiskPerTradePct * (1 / 2) ≤ riskBudget 0 equity cfg := by
    rw [← convictionScalar_zero]
    exact le_max_left _ _
  have hleast' : equity * cfg.minRiskPerTradePct ≤ riskBudget 0 equity cfg := le_max_right _ _
  refine max_le ?_ (by linarith)
  calc equity * cfg.maxRiskPerTradePct * convictionScalar conviction
      ≤ equity * cfg.maxRiskPerTradePct * 1 := mul_le_mul_of_nonneg_left (convictionScalar_le_one _) hcap
    _ ≤ 2 * riskBudget 0 equity cfg := by linarith

theorem floor_div_le_two_mul {budget budget' unit : ℚ} (hunit : 0 < unit) (h : budget' ≤ 2 * budget) :
    ⌊budget' / unit⌋ ≤ 2 * ⌊budget / unit⌋ + 1 := by
  have hquotient : budget' / unit ≤ 2 * (budget / unit) := by
    rw [← mul_div_assoc]
    exact div_le_div_of_nonneg_right h hunit.le
  have hnext := Int.lt_floor_add_one (budget / unit)
  have hlow := Int.floor_le (budget' / unit)
  have hlt : (⌊budget' / unit⌋ : ℚ) < 2 * ⌊budget / unit⌋ + 2 := by linarith
  have hlt' : ⌊budget' / unit⌋ < 2 * ⌊budget / unit⌋ + 2 := by exact_mod_cast hlt
  omega

theorem max_min_le {few many : ℤ} (hdouble : many ≤ 2 * few + 1) (hfew : 0 ≤ few) (most : ℤ) :
    max 0 (min many most) ≤ 2 * max 0 (min few most) + 1 := by
  omega

end Sizing

/-! ### Two runs -/

section

open Sizing

variable {raw cfg : RiskConfig} {warnings : List String}

theorem sizedQuantity_mono (hcfg : raw.validate = .ok (cfg, warnings)) (proposal : TradeProposal)
    (features : FeaturePack) (account : AccountSnapshot) (quote : Option Quote) (limitOffsetPct : ℚ)
    {conviction equity buyingPower : ℚ} (hconviction : proposal.conviction ≤ conviction)
    (hequity : account.equity ≤ equity) (hpower : account.buyingPower ≤ buyingPower) :
    sizedQuantity proposal features account quote cfg limitOffsetPct ≤
      sizedQuantity { proposal with conviction } features { account with equity, buyingPower } quote cfg
        limitOffsetPct := by
  have haccepted : cfg.Accepted := RiskConfig.accepted_of_validate hcfg
  have hfloor : 0 ≤ cfg.minRiskPerTradePct := (RiskConfig.minRisk_pos_of_validate hcfg).le
  by_cases h : Sizeable proposal features quote limitOffsetPct ∧ 0 < account.equity
  swap
  · rw [sizedQuantity_of_not h]
    exact sizedQuantity_nonneg
  obtain ⟨hsizeable, hpos⟩ := h
  have hsizeable' : Sizeable { proposal with conviction } features quote limitOffsetPct := hsizeable
  rw [sizedQuantity_of_sizeable hsizeable hpos, sizedQuantity_of_sizeable hsizeable' (hpos.trans_le hequity)]
  refine max_le_max le_rfl ?_
  unfold count
  dsimp only
  rw [shares_eq_min, shares_eq_min]
  have hbudget := riskBudget_mono haccepted hfloor hconviction hpos hequity
  have hceiling : ∀ entry : ℚ, ceiling entry features account cfg ≤
      ceiling entry features { account with equity, buyingPower } cfg :=
    fun entry => ceiling_mono haccepted hequity hpower entry
  exact min_le_min (Int.floor_mono (div_le_div_of_nonneg_right hbudget (abs_nonneg _))) (hceiling _)

theorem sizedQuantity_le_two_mul (hcfg : raw.validate = .ok (cfg, warnings)) (proposal : TradeProposal)
    (features : FeaturePack) (account : AccountSnapshot) (quote : Option Quote) (limitOffsetPct : ℚ) :
    sizedQuantity proposal features account quote cfg limitOffsetPct ≤
      2 * sizedQuantity { proposal with conviction := 0 } features account quote cfg limitOffsetPct + 1 := by
  have haccepted : cfg.Accepted := RiskConfig.accepted_of_validate hcfg
  have hfloor : 0 ≤ cfg.minRiskPerTradePct := (RiskConfig.minRisk_pos_of_validate hcfg).le
  by_cases h : Sizeable proposal features quote limitOffsetPct ∧ 0 < account.equity
  swap
  · have hnone : 0 ≤ sizedQuantity { proposal with conviction := 0 } features account quote cfg limitOffsetPct :=
      sizedQuantity_nonneg
    rw [sizedQuantity_of_not h]
    omega
  obtain ⟨hsizeable, hpos⟩ := h
  have hsizeable' : Sizeable { proposal with conviction := 0 } features quote limitOffsetPct := hsizeable
  rw [sizedQuantity_of_sizeable hsizeable hpos, sizedQuantity_of_sizeable hsizeable' hpos]
  unfold count
  dsimp only
  rw [shares_eq_min, shares_eq_min]
  have hdistance := hsizeable.2.2.2
  have hdouble := floor_div_le_two_mul hdistance (riskBudget_le_two_mul haccepted hfloor hpos proposal.conviction)
  have hleast : 0 ≤ riskBudget 0 account.equity cfg :=
    (mul_nonneg hpos.le hfloor).trans (le_max_right _ _)
  have hsome := Int.floor_nonneg.mpr (div_nonneg hleast hdistance.le)
  exact max_min_le hdouble hsome _

/-- **Size is monotone** in conviction, equity and buying power, and conviction can at most double it, up to one
share. -/
theorem size_monotone (hcfg : raw.validate = .ok (cfg, warnings)) (proposal : TradeProposal)
    (features : FeaturePack) (account : AccountSnapshot) (quote : Option Quote) (limitOffsetPct : ℚ) :
    (∀ conviction equity buyingPower : ℚ, proposal.conviction ≤ conviction → account.equity ≤ equity →
      account.buyingPower ≤ buyingPower →
        sizedQuantity proposal features account quote cfg limitOffsetPct ≤
          sizedQuantity { proposal with conviction } features { account with equity, buyingPower } quote cfg
            limitOffsetPct) ∧
      sizedQuantity proposal features account quote cfg limitOffsetPct ≤
        2 * sizedQuantity { proposal with conviction := 0 } features account quote cfg limitOffsetPct + 1 :=
  ⟨fun _ _ _ hconviction hequity hpower => sizedQuantity_mono hcfg _ _ _ _ _ hconviction hequity hpower,
    sizedQuantity_le_two_mul hcfg _ _ _ _ _⟩

end

/-- With a stop thirteen and a half dollars away the risk budget binds: thirty-three shares at a conviction of
0.8, eighteen at none. -/
theorem size_monotone_breakout :
    sizedQuantity breakoutProposal { breakoutFeatures with atr := 9 } breakoutAccount none {} (1 / 1000) ≤
      2 * sizedQuantity { breakoutProposal with conviction := 0 } { breakoutFeatures with atr := 9 }
        breakoutAccount none {} (1 / 1000) + 1 :=
  (size_monotone validate_defaults _ _ _ _ _).2

end AiTrader
