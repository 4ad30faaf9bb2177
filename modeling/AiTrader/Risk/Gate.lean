import AiTrader.Risk.Sizing
import Mathlib.Tactic.Linarith

/-!
# What the gate demands of an order

An order record may say anything: its notional is a field of its own, its stop and target may lie on
either side. What an approval by `evaluate` says about such a record, and what it leaves open.

The gate recomputes the risk from quantity and prices. It reads the notional off the record, and it never
compares the stop or the target with the entry: `gate_sound_iff`. Its shorting check asks whether the symbol
is held, not how much of it: `sells_covered_iff`.

Both results are exact because an order that passes the checks on itself is approved in some context
(`exists_approval`): a calm market, an account large enough, and the given positions.

The calm context of the other direction is built from the order: its quote is at the entry price, its account has room
for whatever notional the record claims, its caps are not reached and nothing has happened to the symbol. Every check
passes in it that does not look at the order alone (`Unopposed.passes`), and the positions are left open, so that the
two results can choose them.
-/

namespace AiTrader

open Lib RiskEngine

/-- The stop lies on the loss side of the entry and the target on the profit side; everything but a BUY goes
out as a SELL. -/
def SizedOrder.Bracketed (order : SizedOrder) : Prop :=
  if order.action = .buy then order.stopPrice < order.entryPrice ∧ order.entryPrice < order.targetPrice
  else order.targetPrice < order.entryPrice ∧ order.entryPrice < order.stopPrice

instance (order : SizedOrder) : Decidable order.Bracketed := by
  unfold SizedOrder.Bracketed
  infer_instance

/-- The caps hold for the order's own quantity and prices, and its bracket is the right way round. -/
structure Sound (cfg : RiskConfig) (order : SizedOrder) (account : AccountSnapshot) : Prop where
  notional : order.quantity * order.entryPrice ≤ account.equity * cfg.maxPositionNotionalPct * (102 / 100)
  buyingPower :
    order.quantity * order.entryPrice ≤ account.buyingPower * (1 - cfg.buyingPowerReservePct)
  risk : order.quantity * |order.entryPrice - order.stopPrice| ≤
    account.equity * cfg.maxRiskPerTradePct * (102 / 100)
  bracketed : order.Bracketed

/-- The quantity or the entry price alone make the gate refuse the order. -/
def Refused (cfg : RiskConfig) (order : SizedOrder) : Prop :=
  order.quantity < 1 ∨ order.entryPrice ≤ 0 ∨ order.entryPrice < cfg.minPrice ∨ cfg.maxPrice < order.entryPrice

namespace RiskEngine

variable {e : RiskEngine} {cfg : RiskConfig} {order : SizedOrder} {ctx : RiskContext} {now : Now}

/-! ### What an approval says about the order -/

theorem Passed.quantity_pos (h : Passed e order ctx now) : 1 ≤ order.quantity := by
  have hcheck := failIf_eq_nil.mp h.quantity
  simpa using hcheck

theorem Passed.inBand (h : Passed e order ctx now) :
    e.cfg.minPrice ≤ order.entryPrice ∧ order.entryPrice ≤ e.cfg.maxPrice := by
  have hcheck := failIf_eq_nil.mp h.priceBand
  simpa using hcheck

theorem Passed.usable (h : Passed e order ctx now) : ∃ q m, ctx.quote = some q ∧ q.mid = some m ∧ 0 < m := by
  have hcheck := h.quote
  unfold checkQuote at hcheck
  cases hquote : ctx.quote with
  | none =>
    rw [hquote] at hcheck
    cases hcheck
  | some q =>
    rw [hquote] at hcheck
    simp only [List.append_eq_nil_iff, failIf_eq_nil, Bool.not_eq_false'] at hcheck
    have husable := hcheck.1.1.2
    rw [Quote.isUsable, Bool.and_eq_true] at husable
    cases hmid : q.mid with
    | none => simp [hmid] at husable
    | some m =>
      rw [hmid] at husable
      exact ⟨q, m, rfl, hmid, of_decide_eq_true husable.2⟩

theorem Passed.entryPrice_pos (h : Passed e order ctx now) (hcfg : e.cfg.Accepted) : 0 < order.entryPrice := by
  obtain ⟨q, m, hquote, hmid, hm⟩ := h.usable
  have hcheck := h.collar
  have htruthy : (ctx.quote.bind fun q => truthy q.mid) = some m := by
    rw [hquote, Option.bind_some, hmid, truthy_some hm.ne']
  unfold checkCollar at hcheck
  rw [htruthy] at hcheck
  have hdeviation : |order.entryPrice - m| / m ≤ e.cfg.priceCollarPct := by
    simpa using failIf_eq_nil.mp hcheck
  have hnear : |order.entryPrice - m| ≤ 5 / 100 * m :=
    (div_le_iff₀ hm).mp (hdeviation.trans hcfg.collar_le)
  have hlow := (abs_le.mp hnear).1
  linarith

theorem Passed.not_refused (h : Passed e order ctx now) (hcfg : e.cfg.Accepted) : ¬ Refused e.cfg order := by
  rintro (hquantity | hentry | hlow | hhigh)
  · exact absurd h.quantity_pos (not_le.mpr hquantity)
  · exact absurd (h.entryPrice_pos hcfg) (not_lt.mpr hentry)
  · exact absurd h.inBand.1 (not_le.mpr hlow)
  · exact absurd h.inBand.2 (not_le.mpr hhigh)

/-- Check 12 trusts nothing but quantity and prices. -/
theorem Passed.risk_le (h : Passed e order ctx now) :
    order.quantity * |order.entryPrice - order.stopPrice| ≤
      ctx.account.equity * e.cfg.maxRiskPerTradePct * (102 / 100) := by
  have hcheck := failIf_eq_nil.mp h.tradeRisk
  rw [mul_comm]
  simpa using hcheck

theorem Passed.notional_le (h : Passed e order ctx now) :
    order.notional ≤ ctx.account.equity * e.cfg.maxPositionNotionalPct * (102 / 100) := by
  have hcheck := failIf_eq_nil.mp h.notional
  simpa using hcheck

theorem Passed.notional_le_buyingPower (h : Passed e order ctx now) :
    order.notional ≤ ctx.account.buyingPower * (1 - e.cfg.buyingPowerReservePct) := by
  have hcheck := failIf_eq_nil.mp h.buyingPower
  simpa using hcheck

theorem sound_of_passed (h : Passed e order ctx now)
    (hnotional : order.quantity * order.entryPrice ≤ order.notional) (hbracketed : order.Bracketed) :
    Sound e.cfg order ctx.account where
  notional := hnotional.trans h.notional_le
  buyingPower := hnotional.trans h.notional_le_buyingPower
  risk := h.risk_le
  bracketed := hbracketed

theorem Passed.held_long (h : Passed e order ctx now) (hshorts : e.cfg.allowShorts = false)
    (hsell : order.action = .sell) :
    ∃ p, ctx.account.openPositions.get? order.symbol = some p ∧ p.isLong = true := by
  have hshort := failIf_eq_nil.mp h.short
  have hsame := (List.append_eq_nil_iff.mp h.duplicate).2
  rw [hshorts, hsell] at hshort
  cases hheld : ctx.account.openPositions.get? order.symbol with
  | none => simp [Dict.contains, hheld] at hshort
  | some p =>
    refine ⟨p, rfl, ?_⟩
    rw [hheld, hsell] at hsame
    simpa using failIf_eq_nil.mp hsame

/-! ### A context in which it is approved -/

def quietNow : Now := .sample 0 0

/-- An equity under whose caps the order's risk and notional fit. -/
def ampleEquity (cfg : RiskConfig) (order : SizedOrder) : ℚ :=
  |order.entryPrice - order.stopPrice| * |(order.quantity : ℚ)| / cfg.maxRiskPerTradePct +
    |order.notional| / cfg.maxPositionNotionalPct

/-- A calm market at the order's own price. The buying power just pays for the notional. -/
def quietContext (cfg : RiskConfig) (order : SizedOrder) (positions : Dict String Position) : RiskContext where
  account :=
    { accountId := ""
      equity := ampleEquity cfg order
      cash := 0
      buyingPower := order.notional / (1 - cfg.buyingPowerReservePct)
      positions
      asOf := 0 }
  quote := some { symbol := order.symbol, last := some order.entryPrice, updatedAt := 0 }
  phase := .rth
  minutesToClose := none
  isLive := false
  startingEquity := 0

/-- The positions do not stand in the way: none, or for a SELL the symbol held long. -/
def Unopposed (order : SizedOrder) (positions : Dict String Position) : Prop :=
  (order.action ≠ .sell ∧ positions = Dict.empty) ∨
    order.action = .sell ∧
      ∃ p, (positions.filter fun _ p => !p.isFlat).get? order.symbol = some p ∧ p.isLong = true

theorem Unopposed.passes (hcfg : cfg.Accepted) {positions : Dict String Position}
    (h : Unopposed order positions) :
    checkPositions cfg order (quietContext cfg order positions) = [] ∧
      checkDuplicate order (quietContext cfg order positions) = [] ∧
      checkShort cfg order (quietContext cfg order positions) = [] := by
  have hopen : (quietContext cfg order positions).account.openPositions =
      positions.filter fun _ p => !p.isFlat := rfl
  unfold checkPositions checkDuplicate checkShort
  rw [hopen]
  rcases h with ⟨hsell, rfl⟩ | ⟨hsell, p, hheld, hlong⟩
  · have hnone : ((Dict.empty : Dict String Position).filter fun _ p => !p.isFlat).get? order.symbol = none :=
      rfl
    have hcount : ((Dict.empty : Dict String Position).filter fun _ p => !p.isFlat).keys.length = 0 := rfl
    refine ⟨?_, ?_, ?_⟩
    · rw [failIf_eq_nil, hcount]
      have hone := hcfg.positions_pos
      simp
      omega
    · rw [hnone]
      simp [failIf, quietContext]
    · simp [failIf, hsell]
  · have hcontains : (positions.filter fun _ p => !p.isFlat).contains order.symbol = true := by
      rw [Dict.contains, hheld]
      rfl
    refine ⟨?_, ?_, ?_⟩
    · simp [failIf, hcontains]
    · simp [failIf, quietContext, hheld, hlong, hsell]
    · simp [failIf, hcontains]

theorem quietContext_caps (hcfg : cfg.Accepted) (order : SizedOrder)
    (positions : Dict String Position) :
    checkTradeRisk cfg order (quietContext cfg order positions) = [] ∧
      checkNotional cfg order (quietContext cfg order positions) = [] ∧
      checkBuyingPower cfg order (quietContext cfg order positions) = [] := by
  have hrisk := hcfg.maxRisk_pos
  have hnotional := hcfg.notional_pos
  have hreserve : 0 < 1 - cfg.buyingPowerReservePct := sub_pos.mpr hcfg.reserve_lt_one
  have hriskPart : 0 ≤ |order.entryPrice - order.stopPrice| * |(order.quantity : ℚ)| / cfg.maxRiskPerTradePct :=
    div_nonneg (mul_nonneg (abs_nonneg _) (abs_nonneg _)) hrisk.le
  have hnotionalPart : 0 ≤ |order.notional| / cfg.maxPositionNotionalPct :=
    div_nonneg (abs_nonneg _) hnotional.le
  refine ⟨?_, ?_, ?_⟩ <;> refine failIf_eq_nil.mpr (decide_eq_false (not_lt.mpr ?_))
  · calc |order.entryPrice - order.stopPrice| * order.quantity
        ≤ |order.entryPrice - order.stopPrice| * |(order.quantity : ℚ)| :=
          mul_le_mul_of_nonneg_left (le_abs_self _) (abs_nonneg _)
      _ = |order.entryPrice - order.stopPrice| * |(order.quantity : ℚ)| / cfg.maxRiskPerTradePct *
            cfg.maxRiskPerTradePct := (div_mul_cancel₀ _ hrisk.ne').symm
      _ ≤ ampleEquity cfg order * cfg.maxRiskPerTradePct :=
          mul_le_mul_of_nonneg_right (le_add_of_nonneg_right hnotionalPart) hrisk.le
      _ ≤ ampleEquity cfg order * cfg.maxRiskPerTradePct * (102 / 100) := by
          have hcap : 0 ≤ ampleEquity cfg order * cfg.maxRiskPerTradePct :=
            mul_nonneg (add_nonneg hriskPart hnotionalPart) hrisk.le
          linarith
  · calc order.notional ≤ |order.notional| := le_abs_self _
      _ = |order.notional| / cfg.maxPositionNotionalPct * cfg.maxPositionNotionalPct :=
          (div_mul_cancel₀ _ hnotional.ne').symm
      _ ≤ ampleEquity cfg order * cfg.maxPositionNotionalPct :=
          mul_le_mul_of_nonneg_right (le_add_of_nonneg_left hriskPart) hnotional.le
      _ ≤ ampleEquity cfg order * cfg.maxPositionNotionalPct * (102 / 100) := by
          have hcap : 0 ≤ ampleEquity cfg order * cfg.maxPositionNotionalPct :=
            mul_nonneg (add_nonneg hriskPart hnotionalPart) hnotional.le
          linarith
  · exact (div_mul_cancel₀ _ hreserve.ne').ge

theorem exists_approval (hcfg : cfg.Accepted) (horder : ¬ Refused cfg order)
    {positions : Dict String Position} (hpositions : Unopposed order positions) :
    Passed { cfg, killSwitch := {} } order (quietContext cfg order positions) quietNow := by
  obtain ⟨hquantity, hentry, hlow, hhigh⟩ := by simpa only [Refused, not_or, not_lt, not_le] using horder
  obtain ⟨hslot, hduplicate, hshort⟩ := hpositions.passes hcfg
  obtain ⟨hrisk, hnotional, hpower⟩ := quietContext_caps hcfg order positions
  have hmid : (quietContext cfg order positions).quote.bind (fun q => truthy q.mid) =
      some order.entryPrice := by
    simp [quietContext, Quote.mid, truthy, hentry.ne']
  exact
    { killSwitch := rfl
      interlock := by simp [checkInterlock, quietContext, failIf]
      phase := rfl
      cutoff := rfl
      accountAge := by
        simpa [checkAccountAge, failIf_eq_nil, quietContext, quietNow, AccountSnapshot.ageSeconds]
          using hcfg.accountAge_pos.le
      decisionAge := failIf_eq_nil.mpr (decide_eq_false (not_lt.mpr hcfg.decisionAge_pos.le))
      quote := by
        simpa [checkQuote, failIf_eq_nil, quietContext, quietNow, Quote.isUsable, Quote.mid,
          Quote.spreadPct, Quote.spread, Quote.ageSeconds, hentry] using hcfg.quoteAge_pos.le
      quantity := by simpa [checkQuantity, failIf_eq_nil] using hquantity
      collar := by
        rw [checkCollar, hmid]
        simpa [failIf_eq_nil] using hcfg.collar_pos.le
      priceBand := by simpa [checkPriceBand, failIf_eq_nil] using ⟨hlow, hhigh⟩
      volume := by simp [checkVolume, failIf_eq_nil, quietContext]
      tradeRisk := hrisk
      notional := hnotional
      buyingPower := hpower
      positions := hslot
      cycleEntries := failIf_eq_nil.mpr (decide_eq_false (not_le.mpr (Int.lt_of_add_one_le
        hcfg.cycleEntries_pos)))
      dailyLimit := by simp [checkDailyLimit, failIf_eq_nil, breaches, quietContext]
      tradeCap := failIf_eq_nil.mpr (decide_eq_false (not_le.mpr (Int.lt_of_add_one_le hcfg.trades_pos)))
      orderRate := by
        have hone := hcfg.orders_pos
        simp [checkOrderRate, failIf_eq_nil, recentOrders]
        omega
      duplicate := hduplicate
      cooldown := rfl
      flipFlop := rfl
      short := hshort
      riskOfficer := by simp [checkRiskOfficer, failIf_eq_nil, quietContext] }

end RiskEngine

section

variable {raw cfg : RiskConfig} {warnings : List String}

theorem exists_unopposed (order : SizedOrder) : ∃ positions, Unopposed order positions := by
  by_cases hsell : order.action = .sell
  · let p : Position := { symbol := order.symbol, quantity := 1, avgCost := 1 }
    refine ⟨Dict.empty.set order.symbol p, Or.inr ⟨hsell, p, ?_, decide_eq_true one_pos⟩⟩
    rw [Dict.get?_eq_some_iff, Dict.mem_entries_filter, Dict.mem_entries_set]
    exact ⟨Or.inl ⟨rfl, rfl⟩, by simp [p, Position.isFlat]⟩
  · exact ⟨Dict.empty, Or.inl ⟨hsell, rfl⟩⟩

/-- **What the gate guarantees about an order it approves, whoever made the record.** In every context the
caps hold for the order's own quantity and prices and its bracket is the right way round precisely when the
record does not understate its notional and has its stop and target where they belong; orders that are
refused for their quantity or price aside. -/
theorem gate_sound_iff (hcfg : raw.validate = .ok (cfg, warnings)) (order : SizedOrder) :
    (∀ (e : RiskEngine) (ctx : RiskContext) (now : Now), e.cfg = cfg →
        (e.evaluate order ctx now).1.approved = true → Sound cfg order ctx.account) ↔
      Refused cfg order ∨ order.quantity * order.entryPrice ≤ order.notional ∧ order.Bracketed := by
  have haccepted : cfg.Accepted := RiskConfig.accepted_of_validate hcfg
  constructor
  · intro h
    rw [or_iff_not_imp_left]
    intro horder
    obtain ⟨positions, hpositions⟩ := exists_unopposed order
    have hpassed := exists_approval haccepted horder hpositions
    have hsound := h _ _ _ rfl (approved_evaluate.mpr hpassed)
    refine ⟨?_, hsound.bracketed⟩
    -- the buying power of that context pays for the recorded notional and no more
    have hreserve : 1 - cfg.buyingPowerReservePct ≠ 0 := (sub_pos.mpr haccepted.reserve_lt_one).ne'
    exact hsound.buyingPower.trans_eq (div_mul_cancel₀ _ hreserve)
  · rintro h e ctx now rfl happroved
    have hpassed := approved_evaluate.mp happroved
    rcases h with hrefused | ⟨hnotional, hbracketed⟩
    · exact absurd hrefused (hpassed.not_refused haccepted)
    · exact sound_of_passed hpassed hnotional hbracketed

/-- The account holds the symbol long, in at least the order's quantity. -/
def Covered (order : SizedOrder) (positions : Dict String Position) : Prop :=
  ∃ p, positions.get? order.symbol = some p ∧ 0 < p.quantity ∧ order.quantity ≤ p.quantity

/-- **With shorts off, what an approved SELL leaves of the position.** In every context with the given
positions an approved SELL is covered precisely when no long position smaller than the order is held;
orders that are refused for their quantity or price aside. -/
theorem sells_covered_iff (hcfg : raw.validate = .ok (cfg, warnings)) (hshorts : cfg.allowShorts = false)
    (order : SizedOrder) (hsell : order.action = .sell) (positions : Dict String Position) :
    (∀ (e : RiskEngine) (ctx : RiskContext) (now : Now), e.cfg = cfg → ctx.account.positions = positions →
        (e.evaluate order ctx now).1.approved = true → Covered order positions) ↔
      Refused cfg order ∨ ∀ p, positions.get? order.symbol = some p → 0 < p.quantity →
        order.quantity ≤ p.quantity := by
  have haccepted : cfg.Accepted := RiskConfig.accepted_of_validate hcfg
  constructor
  · intro h
    rw [or_iff_not_imp_left]
    intro horder p hheld hlong
    have hopen : (quietContext cfg order positions).account.openPositions.get? order.symbol = some p :=
      AccountSnapshot.get?_openPositions.mpr ⟨hheld, hlong.ne'⟩
    have hpassed := exists_approval haccepted horder (Or.inr ⟨hsell, p, hopen, decide_eq_true hlong⟩)
    obtain ⟨p', hheld', _, hquantity⟩ := h _ _ _ rfl rfl (approved_evaluate.mpr hpassed)
    rw [hheld] at hheld'
    cases hheld'
    exact hquantity
  · rintro h e ctx now rfl rfl happroved
    have hpassed := approved_evaluate.mp happroved
    rcases h with hrefused | hsmall
    · exact absurd hrefused (hpassed.not_refused haccepted)
    · obtain ⟨p, hheld, hlong⟩ := hpassed.held_long hshorts hsell
      have hposition := (AccountSnapshot.get?_openPositions.mp hheld).1
      have hpos : 0 < p.quantity := of_decide_eq_true hlong
      exact ⟨p, hposition, hpos, hsmall p hposition hpos⟩

end

/-! ### Records the sizer never emits -/

/-- A record that claims a notional of one dollar, with its stop above the entry of a BUY. -/
def understated : SizedOrder where
  proposal := breakoutProposal
  symbol := "AAPL"
  action := .buy
  quantity := 1000
  entryPrice := 100
  stopPrice := 1001 / 10
  targetPrice := 90
  riskAmount := 1
  notional := 1

def openMarket (positions : Dict String Position) : RiskContext where
  account := { breakoutAccount with positions }
  quote := some { symbol := "AAPL", last := some 100, updatedAt := 0 }
  phase := .rth
  minutesToClose := some 200
  isLive := false
  startingEquity := 100000

theorem gate_sound_iff_understated :
    (∀ (e : RiskEngine) (ctx : RiskContext) (now : Now), e.cfg = {} →
        (e.evaluate understated ctx now).1.approved = true → Sound {} understated ctx.account) ↔
      Refused {} understated ∨
        understated.quantity * understated.entryPrice ≤ understated.notional ∧ understated.Bracketed :=
  gate_sound_iff validate_defaults understated

/-- A hundred thousand dollars of stock pass a cap of ten thousand. -/
theorem understated_approved :
    (RiskEngine.evaluate { cfg := {}, killSwitch := {} } understated (openMarket Dict.empty)
        quietNow).1.approved = true ∧
      ¬ Sound {} understated (openMarket Dict.empty).account := by
  refine ⟨by decide +kernel, fun h => ?_⟩
  exact absurd h.notional (by decide +kernel)

def oversold : SizedOrder :=
  { understated with
    action := .sell, quantity := 50, stopPrice := 101, targetPrice := 98, riskAmount := 50, notional := 5000 }

def tenShares : Dict String Position :=
  Dict.empty.set "AAPL" { symbol := "AAPL", quantity := 10, avgCost := 90 }

theorem sells_covered_iff_oversold :
    (∀ (e : RiskEngine) (ctx : RiskContext) (now : Now), e.cfg = {} → ctx.account.positions = tenShares →
        (e.evaluate oversold ctx now).1.approved = true → Covered oversold tenShares) ↔
      Refused {} oversold ∨ ∀ p, tenShares.get? oversold.symbol = some p → 0 < p.quantity →
        oversold.quantity ≤ p.quantity :=
  sells_covered_iff validate_defaults rfl oversold rfl tenShares

/-- Fifty shares are sold where ten are held: filled, the account is forty short. -/
theorem oversold_approved :
    (RiskEngine.evaluate { cfg := {}, killSwitch := {} } oversold (openMarket tenShares)
        quietNow).1.approved = true ∧
      ¬ Covered oversold tenShares := by
  refine ⟨by decide +kernel, ?_⟩
  rintro ⟨p, hheld, _, hquantity⟩
  have hten : tenShares.get? oversold.symbol = some { symbol := "AAPL", quantity := 10, avgCost := 90 } := by
    decide +kernel
  rw [hten] at hheld
  cases hheld
  exact absurd hquantity (by decide +kernel)

end AiTrader
