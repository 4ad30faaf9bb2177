import AiTrader.Risk.Engine

/-!
# Sizing

`size_proposal` turns an ATR multiple and an R multiple into prices and a share count. The share count is
the risk budget over the stop distance, clamped by three further budgets; each clamp is a floor of a
quotient, so the product stays within its budget (`mul_le_of_le_floor_div`).

`sizing_within_budgets`: an order that comes out keeps every budget, and the gate's checks of the quantity,
the risk, the notional and the buying power do not fire for it.

Prices are rounded to whole cents before the stop distance is taken, and the gate recomputes risk and notional from
the rounded prices; so the budgets are compared with the same numbers. A budget that is negative or zero gives no
shares, and an order needs one share at least, so an order that comes out has positive budgets
(`mul_le_of_le_affordable`).
-/

namespace AiTrader

open Lib

/-- Below this the trade is not worth the commission. -/
def minShares : ℤ := 1

/-- Conviction mapped onto `[0.5, 1]` of the risk budget. -/
def convictionScalar (conviction : ℚ) : ℚ := max (1 / 2) (min 1 (1 / 2 + 1 / 2 * conviction))

def computeStopDistance (proposal : TradeProposal) (features : FeaturePack) : ℚ :=
  let atrStop := proposal.stopAtrMultiple * features.atr
  let minStop := features.price * (15 / 10000)
  max (max atrStop minStop) (1 / 100)

def roundToTick (price : ℚ) (tick : ℚ := 1 / 100) : ℚ :=
  Decimal.roundTo 2 (Decimal.roundHalfEven (price / tick) * tick)

theorem roundToTick_eq (price : ℚ) : roundToTick price = Decimal.roundHalfEven (price * 100) / 100 := by
  have hwhole : ∀ n : ℤ, Decimal.roundTo 2 (n * (1 / 100)) = n / 100 := fun n => by
    have hcents : (n * (1 / 100) * 10 ^ 2 : ℚ) = n := by ring
    rw [Decimal.roundTo, hcents, Decimal.roundHalfEven_intCast]
    norm_num
  rw [roundToTick, hwhole, div_div_eq_mul_div, div_one]

theorem roundToTick_cents (cents : ℤ) : roundToTick (cents / 100) = cents / 100 := by
  rw [roundToTick_eq, div_mul_cancel₀ _ (by norm_num), Decimal.roundHalfEven_intCast]

theorem abs_roundToTick_sub_le (price : ℚ) : |roundToTick price - price| ≤ 1 / 200 := by
  have hnear := abs_le.mp (Decimal.abs_roundHalfEven_sub_le (price * 100))
  rw [roundToTick_eq, abs_le]
  constructor <;> linarith

/-- The three prices of a bracket. -/
structure Prices where
  entry : ℚ
  stop : ℚ
  target : ℚ

namespace Sizing

/-- The live quote if it is usable, else the last computed price. -/
def basePrice (features : FeaturePack) (quote : Option Quote) : ℚ :=
  match quote with
  | some q => if q.isUsable then (truthy q.mid).getD features.price else features.price
  | none => features.price

/-- A marketable limit entry with its stop and target, in whole ticks. -/
def prices (proposal : TradeProposal) (features : FeaturePack) (price limitOffsetPct : ℚ)
    (isLong : Bool) : Prices :=
  let offset := price * limitOffsetPct
  let entry := roundToTick (if isLong then price + offset else price - offset)
  let stopDistance := computeStopDistance proposal features
  let targetDistance := stopDistance * proposal.targetRMultiple
  { entry
    stop := roundToTick (if isLong then entry - stopDistance else entry + stopDistance)
    target := roundToTick (if isLong then entry + targetDistance else entry - targetDistance) }

/-- The stop and the target lie on their sides of the entry. -/
def isValid (p : Prices) (isLong : Bool) : Bool :=
  if isLong then decide (p.stop < p.entry ∧ p.entry < p.target)
  else decide (p.target < p.entry ∧ p.entry < p.stop)

/-- The configured fraction of equity, scaled by conviction, but not below its floor. -/
def riskBudget (conviction equity : ℚ) (cfg : RiskConfig) : ℚ :=
  max (equity * cfg.maxRiskPerTradePct * convictionScalar conviction) (equity * cfg.minRiskPerTradePct)

/-- The shares a budget pays for at a price. -/
def affordable (budget entry : ℚ) : ℤ := if 0 < entry then ⌊budget / entry⌋ else 0

def maxNotional (account : AccountSnapshot) (cfg : RiskConfig) : ℚ :=
  account.equity * cfg.maxPositionNotionalPct

def usableBuyingPower (account : AccountSnapshot) (cfg : RiskConfig) : ℚ :=
  account.buyingPower * (1 - cfg.buyingPowerReservePct)

/-- The share count: the risk budget over the stop distance, clamped by notional, by buying power, and by
half a percent of the daily volume where that is known. -/
def shares (budget stopDistance entry : ℚ) (features : FeaturePack) (account : AccountSnapshot)
    (cfg : RiskConfig) : ℤ :=
  let shares := ⌊budget / stopDistance⌋
  let shares := min shares (affordable (maxNotional account cfg) entry)
  let shares := min shares (affordable (usableBuyingPower account cfg) entry)
  if 0 < features.avgVolume then min shares ⌊features.avgVolume * (5 / 1000)⌋ else shares

/-- The order that comes out. -/
def sizedOrder (proposal : TradeProposal) (p : Prices) (shares : ℤ) : SizedOrder where
  proposal
  symbol := proposal.symbol
  action := proposal.action
  quantity := shares
  entryPrice := p.entry
  stopPrice := p.stop
  targetPrice := p.target
  riskAmount := shares * |p.entry - p.stop|
  notional := shares * p.entry

end Sizing

/-- `size_proposal`. -/
def sizeProposal (proposal : TradeProposal) (features : FeaturePack) (account : AccountSnapshot)
    (quote : Option Quote) (cfg : RiskConfig) (limitOffsetPct : ℚ := 1 / 1000) : Option SizedOrder :=
  if proposal.action ≠ .buy ∧ proposal.action ≠ .sell then none
  else if account.equity ≤ 0 then none
  else
    let price := Sizing.basePrice features quote
    if price ≤ 0 then none
    else
      let isLong := decide (proposal.action = .buy)
      let p := Sizing.prices proposal features price limitOffsetPct isLong
      if !Sizing.isValid p isLong then none
      else
        let budget := Sizing.riskBudget proposal.conviction account.equity cfg
        let stopDistance := |p.entry - p.stop|
        if stopDistance ≤ 0 then none
        else
          let shares := Sizing.shares budget stopDistance p.entry features account cfg
          if shares < minShares then none else some (Sizing.sizedOrder proposal p shares)

namespace Sizing

/-! ### One clamp -/

theorem mul_le_of_le_floor_div {n : ℤ} {budget unit : ℚ} (hunit : 0 < unit) (h : n ≤ ⌊budget / unit⌋) :
    n * unit ≤ budget := by
  have hquotient : (n : ℚ) ≤ budget / unit := Int.le_floor.mp h
  exact (le_div_iff₀ hunit).mp hquotient

theorem mul_le_of_le_affordable {n : ℤ} {budget entry : ℚ} (hone : 1 ≤ n) (h : n ≤ affordable budget entry) :
    n * entry ≤ budget := by
  unfold affordable at h
  split_ifs at h with hentry
  · exact mul_le_of_le_floor_div hentry h
  · omega

section

variable {budget stopDistance entry : ℚ} {features : FeaturePack} {account : AccountSnapshot}
  {cfg : RiskConfig}

/-- The share count is below every one of its clamps. -/
theorem shares_le : shares budget stopDistance entry features account cfg ≤ ⌊budget / stopDistance⌋ ∧
    shares budget stopDistance entry features account cfg ≤ affordable (maxNotional account cfg) entry ∧
    shares budget stopDistance entry features account cfg ≤
      affordable (usableBuyingPower account cfg) entry ∧
    (0 < features.avgVolume →
      shares budget stopDistance entry features account cfg ≤ ⌊features.avgVolume * (5 / 1000)⌋) := by
  unfold shares
  dsimp only
  split_ifs with hvolume
  · refine ⟨?_, ?_, ?_, fun _ => min_le_right _ _⟩ <;> apply (min_le_left _ _).trans
    · exact (min_le_left _ _).trans (min_le_left _ _)
    · exact (min_le_left _ _).trans (min_le_right _ _)
    · exact min_le_right _ _
  · refine ⟨?_, ?_, min_le_right _ _, fun h => absurd h hvolume⟩
    · exact (min_le_left _ _).trans (min_le_left _ _)
    · exact (min_le_left _ _).trans (min_le_right _ _)

end

theorem convictionScalar_le_one (conviction : ℚ) : convictionScalar conviction ≤ 1 :=
  max_le (by norm_num) (min_le_left _ _)

theorem riskBudget_le {cfg : RiskConfig} (hcfg : cfg.Accepted) {equity : ℚ} (hequity : 0 < equity)
    (conviction : ℚ) : riskBudget conviction equity cfg ≤ equity * cfg.maxRiskPerTradePct := by
  apply max_le
  · have hcap : 0 ≤ equity * cfg.maxRiskPerTradePct := (mul_pos hequity hcfg.maxRisk_pos).le
    exact mul_le_of_le_one_right hcap (convictionScalar_le_one conviction)
  · exact mul_le_mul_of_nonneg_left hcfg.minRisk_le hequity.le

end Sizing

/-! ### What comes out -/

section

variable {proposal : TradeProposal} {features : FeaturePack} {account : AccountSnapshot}
  {quote : Option Quote} {cfg : RiskConfig} {limitOffsetPct : ℚ} {order : SizedOrder}

theorem sizeProposal_eq_some (h : sizeProposal proposal features account quote cfg limitOffsetPct = some order) :
    ∃ (isLong : Bool) (p : Prices) (shares : ℤ),
      isLong = decide (proposal.action = .buy) ∧
        p = Sizing.prices proposal features (Sizing.basePrice features quote) limitOffsetPct isLong ∧
        shares = Sizing.shares (Sizing.riskBudget proposal.conviction account.equity cfg)
          |p.entry - p.stop| p.entry features account cfg ∧
        (proposal.action = .buy ∨ proposal.action = .sell) ∧ 0 < account.equity ∧
        0 < Sizing.basePrice features quote ∧ Sizing.isValid p isLong = true ∧ 0 < |p.entry - p.stop| ∧
        minShares ≤ shares ∧ order = Sizing.sizedOrder proposal p shares := by
  unfold sizeProposal at h
  dsimp only at h
  split_ifs at h with haction hequity hprice hvalid hdistance hshares
  refine ⟨_, _, _, rfl, rfl, rfl, ?_, not_le.mp hequity, not_le.mp hprice, by simpa using hvalid,
    not_le.mp hdistance, not_lt.mp hshares, (Option.some.inj h).symm⟩
  by_contra hneither
  exact haction (not_or.mp hneither)

/-- An order that keeps every budget of the account and the configuration. -/
structure WithinBudgets (order : SizedOrder) (features : FeaturePack) (account : AccountSnapshot)
    (cfg : RiskConfig) : Prop where
  quantity : 1 ≤ order.quantity
  risk : order.quantity * |order.entryPrice - order.stopPrice| ≤ account.equity * cfg.maxRiskPerTradePct
  notional : order.quantity * order.entryPrice ≤ account.equity * cfg.maxPositionNotionalPct
  buyingPower :
    order.quantity * order.entryPrice ≤ account.buyingPower * (1 - cfg.buyingPowerReservePct)
  volume : 0 < features.avgVolume → (order.quantity : ℚ) ≤ 5 / 1000 * features.avgVolume
  riskAmount_eq : order.riskAmount = order.quantity * |order.entryPrice - order.stopPrice|
  notional_eq : order.notional = order.quantity * order.entryPrice

theorem cost_le_of_sized (h : sizeProposal proposal features account quote cfg limitOffsetPct = some order) :
    order.quantity * order.entryPrice ≤ Sizing.maxNotional account cfg ∧
      order.quantity * order.entryPrice ≤ Sizing.usableBuyingPower account cfg := by
  obtain ⟨isLong, p, shares, -, -, hshares, -, -, -, -, -, hone, rfl⟩ := sizeProposal_eq_some h
  obtain ⟨-, hnotional, hpower, -⟩ := @Sizing.shares_le
    (Sizing.riskBudget proposal.conviction account.equity cfg) |p.entry - p.stop| p.entry features account cfg
  rw [← hshares] at hnotional hpower
  exact ⟨Sizing.mul_le_of_le_affordable hone hnotional, Sizing.mul_le_of_le_affordable hone hpower⟩

theorem withinBudgets_of_sized (hcfg : cfg.Accepted)
    (h : sizeProposal proposal features account quote cfg limitOffsetPct = some order) :
    WithinBudgets order features account cfg := by
  obtain ⟨hcost, hpower⟩ := cost_le_of_sized h
  obtain ⟨isLong, p, shares, -, -, hshares, -, hequity, -, -, hdistance, hone, rfl⟩ := sizeProposal_eq_some h
  obtain ⟨hrisk, -, -, hvolume⟩ := @Sizing.shares_le
    (Sizing.riskBudget proposal.conviction account.equity cfg) |p.entry - p.stop| p.entry features account cfg
  rw [← hshares] at hrisk hvolume
  refine ⟨hone, ?_, hcost, hpower, fun hknown => ?_, rfl, rfl⟩
  · calc (shares : ℚ) * |p.entry - p.stop|
        ≤ Sizing.riskBudget proposal.conviction account.equity cfg :=
          Sizing.mul_le_of_le_floor_div hdistance hrisk
      _ ≤ account.equity * cfg.maxRiskPerTradePct := Sizing.riskBudget_le hcfg hequity _
  · rw [mul_comm]
    exact Int.le_floor.mp (hvolume hknown)

open RiskEngine

theorem WithinBudgets.passes (h : WithinBudgets order features account cfg) (hcfg : cfg.Accepted)
    (hequity : 0 < account.equity) {ctx : RiskContext} (hctx : ctx.account = account) :
    checkQuantity order = [] ∧ checkTradeRisk cfg order ctx = [] ∧ checkNotional cfg order ctx = [] ∧
      checkBuyingPower cfg order ctx = [] := by
  subst hctx
  have htolerance : ∀ {cap : ℚ}, 0 < cap → cap ≤ cap * (102 / 100) := by
    intro cap hcap
    linarith
  refine ⟨?_, ?_, ?_, ?_⟩ <;> refine failIf_eq_nil.mpr (decide_eq_false (not_lt.mpr ?_))
  · exact h.quantity
  · rw [mul_comm |_|]
    exact h.risk.trans (htolerance (mul_pos hequity hcfg.maxRisk_pos))
  · rw [h.notional_eq]
    exact h.notional.trans (htolerance (mul_pos hequity hcfg.notional_pos))
  · rw [h.notional_eq]
    exact h.buyingPower

/-- **Sizing never exceeds any budget**: with a configuration the validators accept, an order that
`size_proposal` returns has at least one share, keeps the caps on risk, notional, buying power and volume,
and records its risk and notional as they are; so the gate's checks of these never fire for it. -/
theorem sizing_within_budgets {raw : RiskConfig} {warnings : List String}
    (hcfg : raw.validate = .ok (cfg, warnings))
    (h : sizeProposal proposal features account quote cfg limitOffsetPct = some order) :
    WithinBudgets order features account cfg ∧ ∀ ctx : RiskContext, ctx.account = account →
      checkQuantity order = [] ∧ checkTradeRisk cfg order ctx = [] ∧ checkNotional cfg order ctx = [] ∧
        checkBuyingPower cfg order ctx = [] := by
  have haccepted : cfg.Accepted := RiskConfig.accepted_of_validate hcfg
  have hbudgets := withinBudgets_of_sized haccepted h
  obtain ⟨_, _, _, -, -, -, -, hequity, -⟩ := sizeProposal_eq_some h
  exact ⟨hbudgets, fun ctx hctx => hbudgets.passes haccepted hequity hctx⟩

end

theorem validate_defaults : ({} : RiskConfig).validate = .ok ({}, []) := by decide +kernel

def breakoutProposal : TradeProposal where
  symbol := "AAPL"
  action := .buy
  conviction := 8 / 10
  horizonMinutes := 60

def breakoutFeatures : FeaturePack := { price := 100, atr := 1, avgVolume := 1000000 }

def breakoutAccount : AccountSnapshot where
  accountId := "DU1"
  equity := 100000
  cash := 100000
  buyingPower := 100000
  asOf := 0

/-- Here the notional is the budget that binds. -/
theorem sizing_within_budgets_breakout : WithinBudgets
    (Sizing.sizedOrder breakoutProposal { entry := 1001 / 10, stop := 986 / 10, target := 1031 / 10 } 99)
    breakoutFeatures breakoutAccount {} :=
  (sizing_within_budgets validate_defaults
    (show sizeProposal breakoutProposal breakoutFeatures breakoutAccount none {} = _ by decide +kernel)).1

end AiTrader
