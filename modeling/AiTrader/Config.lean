import AiTrader.Domain.Enums
import AiTrader.HardLimits
import AiTrader.Lib.Text
import Mathlib.Tactic.NormNum
import Mathlib.Algebra.Order.Ring.Rat

/-!
# Configuration

The sections of the strategy file that the modelled functions read, with their defaults.

A `RiskConfig` is accepted after three stages: the range of each field, the orderings between fields, and
the clamping to the hard limits, which never refuses. What an accepted configuration promises is
`RiskConfig.Accepted`.

The errors of the ranges are collected; the orderings are looked at when there are none, and the first that fails is
reported. Clamping comes last, so the orderings are those of the configuration as it was written; they survive because
a cap is lowered together with its floor (`accepted_of_validate`).
-/

namespace AiTrader

/-- Every number the risk gate enforces. -/
structure RiskConfig where
  maxRiskPerTradePct : ℚ := 5 / 1000
  minRiskPerTradePct : ℚ := 15 / 10000
  maxPositionNotionalPct : ℚ := 10 / 100
  maxConcurrentPositions : ℤ := 5
  maxNewEntriesPerCycle : ℤ := 2
  dailyLossLimitPct : ℚ := 2 / 100
  maxTradesPerDay : ℤ := 40
  priceCollarPct : ℚ := 2 / 100
  maxSpreadPct : ℚ := 5 / 1000
  minAvgVolume : ℚ := 500000
  minPrice : ℚ := 3
  maxPrice : ℚ := 2000
  maxQuoteAgeSeconds : ℚ := 15
  maxAccountAgeSeconds : ℚ := 120
  buyingPowerReservePct : ℚ := 20 / 100
  symbolCooldownSeconds : ℚ := 300
  flipFlopGuardSeconds : ℚ := 600
  noEntryMinutesBeforeClose : ℤ := 20
  flattenMinutesBeforeClose : ℤ := 10
  maxOrdersPerMinute : ℤ := 6
  maxDecisionAgeSeconds : ℚ := 120
  allowShorts : Bool := false
  requireRiskOfficer : Bool := true
  killSwitchAction : KillSwitchAction := .haltNewEntries
  deriving DecidableEq

/-- A constraint on the value of a field. -/
inductive Bound
  | gt (bound : ℚ)
  | ge (bound : ℚ)
  | lt (bound : ℚ)
  | le (bound : ℚ)
  deriving DecidableEq

def Bound.holds (value : ℚ) : Bound → Bool
  | gt bound => decide (bound < value)
  | ge bound => decide (bound ≤ value)
  | lt bound => decide (value < bound)
  | le bound => decide (value ≤ bound)

/-- Why a configuration is refused. -/
inductive ConfigError
  | outOfRange (field : String) (bound : Bound)
  | valueError (message : String)
  deriving DecidableEq

/-- One error for a field that misses a bound: the first that it misses. -/
def fieldErrors (field : String) (value : ℚ) (bounds : List Bound) : List ConfigError :=
  ((bounds.find? fun b => !b.holds value).map (.outOfRange field)).toList

theorem fieldErrors_eq_nil {field : String} {value : ℚ} {bounds : List Bound} :
    fieldErrors field value bounds = [] ↔ ∀ b ∈ bounds, b.holds value = true := by
  rw [fieldErrors, Option.toList_eq_nil_iff, Option.map_eq_none_iff, List.find?_eq_none]
  simp

namespace RiskConfig

/-- The declared ranges of the numeric fields. -/
def rangeErrors (c : RiskConfig) : List ConfigError :=
  [fieldErrors "max_risk_per_trade_pct" c.maxRiskPerTradePct [.le (5 / 100), .gt 0],
    fieldErrors "min_risk_per_trade_pct" c.minRiskPerTradePct [.le (5 / 100), .gt 0],
    fieldErrors "max_position_notional_pct" c.maxPositionNotionalPct [.le 1, .gt 0],
    fieldErrors "max_concurrent_positions" c.maxConcurrentPositions [.le 50, .ge 1],
    fieldErrors "max_new_entries_per_cycle" c.maxNewEntriesPerCycle [.le 20, .ge 1],
    fieldErrors "daily_loss_limit_pct" c.dailyLossLimitPct [.le (5 / 10), .gt 0],
    fieldErrors "max_trades_per_day" c.maxTradesPerDay [.ge 1],
    fieldErrors "price_collar_pct" c.priceCollarPct [.le (5 / 10), .gt 0],
    fieldErrors "max_spread_pct" c.maxSpreadPct [.le (1 / 10), .gt 0],
    fieldErrors "min_avg_volume" c.minAvgVolume [.ge 0],
    fieldErrors "min_price" c.minPrice [.ge 0],
    fieldErrors "max_price" c.maxPrice [.gt 0],
    fieldErrors "max_quote_age_seconds" c.maxQuoteAgeSeconds [.gt 0],
    fieldErrors "max_account_age_seconds" c.maxAccountAgeSeconds [.gt 0],
    fieldErrors "buying_power_reserve_pct" c.buyingPowerReservePct [.lt 1, .ge 0],
    fieldErrors "symbol_cooldown_seconds" c.symbolCooldownSeconds [.ge 0],
    fieldErrors "flip_flop_guard_seconds" c.flipFlopGuardSeconds [.ge 0],
    fieldErrors "no_entry_minutes_before_close" c.noEntryMinutesBeforeClose [.ge 0],
    fieldErrors "flatten_minutes_before_close" c.flattenMinutesBeforeClose [.ge 0],
    fieldErrors "max_orders_per_minute" c.maxOrdersPerMinute [.ge 1],
    fieldErrors "max_decision_age_seconds" c.maxDecisionAgeSeconds [.gt 0]].flatten

/-- `_check_ordering`: the message it raises. -/
def checkOrdering (c : RiskConfig) : Option String :=
  if c.maxRiskPerTradePct < c.minRiskPerTradePct then
    some "min_risk_per_trade_pct must be <= max_risk_per_trade_pct"
  else if c.noEntryMinutesBeforeClose < c.flattenMinutesBeforeClose then
    some "flatten_minutes_before_close must be <= no_entry_minutes_before_close"
  else if c.maxPrice ≤ c.minPrice then some "min_price must be < max_price"
  else none

open HardLimits in
/-- `_clamp_to_hard_limits`. The floor on the risk follows the clamped cap. -/
def clampToHardLimits (c : RiskConfig) : RiskConfig :=
  { c with
    maxRiskPerTradePct := clamp c.maxRiskPerTradePct absMaxRiskPerTradePct
    minRiskPerTradePct := min c.minRiskPerTradePct (clamp c.maxRiskPerTradePct absMaxRiskPerTradePct)
    maxPositionNotionalPct := clamp c.maxPositionNotionalPct absMaxPositionNotionalPct
    maxConcurrentPositions := clamp c.maxConcurrentPositions absMaxConcurrentPositions
    maxNewEntriesPerCycle := clamp c.maxNewEntriesPerCycle absMaxNewEntriesPerCycle
    dailyLossLimitPct := clamp c.dailyLossLimitPct absMaxDailyLossPct
    maxTradesPerDay := clamp c.maxTradesPerDay absMaxTradesPerDay
    maxOrdersPerMinute := clamp c.maxOrdersPerMinute absMaxOrdersPerMinute
    priceCollarPct := clamp c.priceCollarPct absMaxPriceCollarPct
    maxSpreadPct := clamp c.maxSpreadPct absMaxSpreadPct
    maxQuoteAgeSeconds := clamp c.maxQuoteAgeSeconds absMaxQuoteAgeSeconds
    maxAccountAgeSeconds := clamp c.maxAccountAgeSeconds absMaxAccountAgeSeconds
    maxDecisionAgeSeconds := clamp c.maxDecisionAgeSeconds absMaxDecisionAgeSeconds }

open HardLimits in
/-- `clamp_warnings`, in the order in which the fields are clamped. -/
def clampWarnings (c : RiskConfig) : List String :=
  clampWarning c.maxRiskPerTradePct absMaxRiskPerTradePct "max_risk_per_trade_pct" ++
    clampWarning c.maxPositionNotionalPct absMaxPositionNotionalPct "max_position_notional_pct" ++
    clampIntWarning c.maxConcurrentPositions absMaxConcurrentPositions "max_concurrent_positions" ++
    clampIntWarning c.maxNewEntriesPerCycle absMaxNewEntriesPerCycle "max_new_entries_per_cycle" ++
    clampWarning c.dailyLossLimitPct absMaxDailyLossPct "daily_loss_limit_pct" ++
    clampIntWarning c.maxTradesPerDay absMaxTradesPerDay "max_trades_per_day" ++
    clampIntWarning c.maxOrdersPerMinute absMaxOrdersPerMinute "max_orders_per_minute" ++
    clampWarning c.priceCollarPct absMaxPriceCollarPct "price_collar_pct" ++
    clampWarning c.maxSpreadPct absMaxSpreadPct "max_spread_pct" ++
    clampWarning c.maxQuoteAgeSeconds absMaxQuoteAgeSeconds "max_quote_age_seconds" ++
    clampWarning c.maxAccountAgeSeconds absMaxAccountAgeSeconds "max_account_age_seconds" ++
    clampWarning c.maxDecisionAgeSeconds absMaxDecisionAgeSeconds "max_decision_age_seconds"

/-- Building a `RiskConfig` from the values of its fields: the object and its `clamp_warnings`. -/
def validate (c : RiskConfig) : Except (List ConfigError) (RiskConfig × List String) :=
  match c.rangeErrors with
  | [] =>
    match c.checkOrdering with
    | some message => .error [.valueError message]
    | none => .ok (c.clampToHardLimits, c.clampWarnings)
  | errors => .error errors

/-- What the validators promise of a configuration. -/
structure Accepted (c : RiskConfig) : Prop where
  maxRisk_pos : 0 < c.maxRiskPerTradePct
  minRisk_le : c.minRiskPerTradePct ≤ c.maxRiskPerTradePct
  notional_pos : 0 < c.maxPositionNotionalPct
  positions_pos : 1 ≤ c.maxConcurrentPositions
  cycleEntries_pos : 1 ≤ c.maxNewEntriesPerCycle
  trades_pos : 1 ≤ c.maxTradesPerDay
  orders_pos : 1 ≤ c.maxOrdersPerMinute
  collar_pos : 0 < c.priceCollarPct
  collar_le : c.priceCollarPct ≤ 5 / 100
  minPrice_nonneg : 0 ≤ c.minPrice
  quoteAge_pos : 0 < c.maxQuoteAgeSeconds
  accountAge_pos : 0 < c.maxAccountAgeSeconds
  decisionAge_pos : 0 < c.maxDecisionAgeSeconds
  reserve_nonneg : 0 ≤ c.buyingPowerReservePct
  reserve_lt_one : c.buyingPowerReservePct < 1

theorem validate_eq_ok {c : RiskConfig} {out : RiskConfig × List String} (h : c.validate = .ok out) :
    c.rangeErrors = [] ∧ c.checkOrdering = none ∧ out.1 = c.clampToHardLimits := by
  unfold validate at h
  split at h
  · rename_i hrange
    split at h
    · cases h
    · rename_i hordering
      cases h
      exact ⟨hrange, hordering, rfl⟩
  · cases h

/-- **What the validators let through satisfies what they promise.** -/
theorem accepted_of_validate {c : RiskConfig} {out : RiskConfig × List String}
    (h : c.validate = .ok out) : out.1.Accepted := by
  obtain ⟨hrange, -, hout⟩ := validate_eq_ok h
  rw [rangeErrors, List.flatten_eq_nil_iff] at hrange
  simp only [List.forall_mem_cons, List.not_mem_nil, false_implies, implies_true, and_true,
    fieldErrors_eq_nil, Bound.holds, decide_eq_true_eq] at hrange
  obtain ⟨hmaxRisk, -, hnotional, hpositions, hentries, -, htrades, hcollar, -, -, hminPrice, -,
    hquoteAge, haccountAge, hreserve, -, -, -, -, horders, hdecisionAge⟩ := hrange
  have hpos : ∀ {value ceiling : ℚ}, 0 < value → 0 < ceiling → 0 < HardLimits.clamp value ceiling := by
    intro value ceiling hvalue hceiling
    rw [HardLimits.clamp_eq_min]
    exact lt_min hvalue hceiling
  have hone : ∀ {value ceiling : ℤ}, (1 : ℚ) ≤ value → 1 ≤ ceiling →
      1 ≤ HardLimits.clamp value ceiling := by
    intro value ceiling hvalue hceiling
    rw [HardLimits.clamp_eq_min]
    exact le_min (by exact_mod_cast hvalue) hceiling
  rw [hout]
  exact
    { maxRisk_pos := hpos hmaxRisk.2 (by decide +kernel)
      minRisk_le := min_le_right _ _
      notional_pos := hpos hnotional.2 (by decide +kernel)
      positions_pos := hone hpositions.2 (by decide)
      cycleEntries_pos := hone hentries.2 (by decide)
      trades_pos := hone htrades (by decide)
      orders_pos := hone horders (by decide)
      collar_pos := hpos hcollar.2 (by decide +kernel)
      collar_le := by
        show HardLimits.clamp c.priceCollarPct HardLimits.absMaxPriceCollarPct ≤ 5 / 100
        rw [HardLimits.clamp_eq_min]
        exact min_le_right _ _
      minPrice_nonneg := hminPrice
      quoteAge_pos := hpos hquoteAge (by decide +kernel)
      accountAge_pos := hpos haccountAge (by decide +kernel)
      decisionAge_pos := hpos hdecisionAge (by decide +kernel)
      reserve_nonneg := hreserve.2
      reserve_lt_one := hreserve.1 }

theorem band_of_validate {c : RiskConfig} {out : RiskConfig × List String} (h : c.validate = .ok out) :
    out.1.minPrice < out.1.maxPrice ∧ 0 ≤ out.1.minAvgVolume := by
  obtain ⟨hrange, hordering, hout⟩ := validate_eq_ok h
  unfold checkOrdering at hordering
  split_ifs at hordering with hrisk hcutoff hband
  rw [rangeErrors, List.flatten_eq_nil_iff] at hrange
  simp only [List.forall_mem_cons, List.not_mem_nil, false_implies, implies_true, and_true,
    fieldErrors_eq_nil, Bound.holds, decide_eq_true_eq] at hrange
  obtain ⟨-, -, -, -, -, -, -, -, -, hvolume, -⟩ := hrange
  rw [hout]
  exact ⟨not_le.mp hband, hvolume⟩

theorem cutoff_of_validate {c : RiskConfig} {out : RiskConfig × List String} (h : c.validate = .ok out) :
    0 ≤ out.1.noEntryMinutesBeforeClose := by
  obtain ⟨hrange, -, hout⟩ := validate_eq_ok h
  rw [rangeErrors, List.flatten_eq_nil_iff] at hrange
  simp only [List.forall_mem_cons, List.not_mem_nil, false_implies, implies_true, and_true,
    fieldErrors_eq_nil, Bound.holds, decide_eq_true_eq] at hrange
  obtain ⟨-, -, -, -, -, -, -, -, -, -, -, -, -, -, -, -, -, hcutoff, -⟩ := hrange
  rw [hout]
  exact_mod_cast hcutoff

theorem minRisk_pos_of_validate {c : RiskConfig} {out : RiskConfig × List String} (h : c.validate = .ok out) :
    0 < out.1.minRiskPerTradePct := by
  have hcap := (accepted_of_validate h).maxRisk_pos
  obtain ⟨hrange, -, hout⟩ := validate_eq_ok h
  rw [rangeErrors, List.flatten_eq_nil_iff] at hrange
  simp only [List.forall_mem_cons, List.not_mem_nil, false_implies, implies_true, and_true,
    fieldErrors_eq_nil, Bound.holds, decide_eq_true_eq] at hrange
  obtain ⟨-, hfloor, -⟩ := hrange
  rw [hout] at hcap ⊢
  exact lt_min hfloor.2 hcap

end RiskConfig

/-- The loops' periods and the session windows. -/
structure CadenceConfig where
  premarketStartMinutesBeforeOpen : ℤ := 150
  openingRangeMinutes : ℤ := 15
  approvalTimeoutSeconds : ℚ := 600
  deriving DecidableEq

structure BrokerConfig where
  orderTimeoutSeconds : ℚ := 90
  limitOffsetPct : ℚ := 1 / 1000
  deriving DecidableEq

structure UniverseConfig where
  focusListSize : ℕ := 20
  deriving DecidableEq

structure StrategyConfig where
  risk : RiskConfig := {}
  cadence : CadenceConfig := {}
  broker : BrokerConfig := {}
  deriving DecidableEq

/-! ### Mode -/

/-- The trading mode and the other two of the three live-trading locks, from the environment. -/
structure Secrets where
  tradingMode : TradingMode := .paper
  allowLiveTrading : Bool := false
  ibAccountId : String := ""
  deriving DecidableEq

structure Settings where
  secrets : Secrets
  strategy : StrategyConfig := {}
  deriving DecidableEq

/-- `acct.startswith(("DU", "DF"))`. -/
def isPaperAccount (acct : String) : Bool :=
  "DU".toList.isPrefixOf acct.toList || "DF".toList.isPrefixOf acct.toList

namespace Settings

def isLive (s : Settings) : Bool := decide (s.secrets.tradingMode = .live)

open Lib in
/-- `verify_live_interlock`: the message it raises. -/
def verifyLiveInterlock (s : Settings) (connectedAccountId : String) : Except String Unit :=
  let acct := upper connectedAccountId
  if !s.isLive then
    if acct ≠ "" ∧ isPaperAccount acct = false then
      .error ("TRADING_MODE=paper but connected account " ++ pyRepr acct ++ " is not a paper " ++
        "account (paper accounts start with DU/DF). Refusing to start.")
    else .ok ()
  else if !s.secrets.allowLiveTrading then
    .error ("TRADING_MODE=live but ALLOW_LIVE_TRADING is not true. " ++
      "Both must be set to trade real money.")
  else if s.secrets.ibAccountId = "" then
    .error "TRADING_MODE=live requires IB_ACCOUNT_ID to be set explicitly."
  else if acct ≠ upper s.secrets.ibAccountId then
    .error ("Connected account " ++ pyRepr acct ++ " does not match configured " ++
      "IB_ACCOUNT_ID " ++ pyRepr s.secrets.ibAccountId ++ ".")
  else if isPaperAccount acct then
    .error ("TRADING_MODE=live but account " ++ pyRepr acct ++ " is a paper account.")
  else .ok ()

end Settings

end AiTrader
