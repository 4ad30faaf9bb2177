import AiTrader.Broker.MarketData
import AiTrader.Risk.Gate

/-!
# Missing market data at the gate

Absence is written differently at every layer: a ticker has no time and its quote is stamped with the
present; it has no bid or ask and its quote falls back on the last price or yesterday's close, without a
spread; the average volume is unknown and is zero. None of the three is refused by the gate. A fourth is, by
luck: before the first halted tick the value is NaN, and `bool` of that is true. So the gate fails closed
precisely for tickers that carry all of it and for those that it never approves (`fails_closed_iff`).
-/

namespace AiTrader

open Lib RiskEngine

/-- A live positive bid and ask, no further apart than allowed, a ticker time that is no older than allowed,
and a known average volume that is large enough. -/
structure MarketDataPresent (cfg : RiskConfig) (t : Ticker) (avgVolume : ℚ) (now : Now) : Prop where
  live : ∃ bid ask, known t.bid = some bid ∧ known t.ask = some ask ∧ 0 < bid ∧ 0 < ask ∧
    (ask - bid) / ((bid + ask) / 2) ≤ cfg.maxSpreadPct
  fresh : ∃ time, t.time = some time ∧ now.epoch - time ≤ cfg.maxQuoteAgeSeconds
  volume_pos : 0 < avgVolume
  volume : cfg.minAvgVolume ≤ avgVolume

/-- Every approval of an order on the quote of this ticker, in whatever context, finds its market data
present. -/
def FailsClosed (cfg : RiskConfig) (ticker : Option Ticker) (avgVolume : ℚ) : Prop :=
  ∀ (e : RiskEngine) (order : SizedOrder) (ctx : RiskContext) (now : Now) (symbol : String) (utcnow : ℚ),
    e.cfg = cfg → ctx.quote = getQuote ticker symbol utcnow → ctx.avgVolume = avgVolume →
      (e.evaluate order ctx now).1.approved = true → ∃ t ∈ ticker, MarketDataPresent cfg t avgVolume now

/-- Bid, ask, time and volume are all there. -/
def Complete (t : Ticker) (avgVolume : ℚ) : Prop :=
  (∃ bid ask, known t.bid = some bid ∧ known t.ask = some ask ∧ 0 < bid ∧ 0 < ask) ∧ t.time.isSome = true ∧
    avgVolume ≠ 0

/-- The mid that a ticker's quote has at any moment. -/
def Ticker.mid (t : Ticker) : Option ℚ := (t.quote "" 0).mid

/-- The spread that a ticker's quote has at any moment. -/
def Ticker.spreadPct (t : Ticker) : Option ℚ := (t.quote "" 0).spreadPct

/-- An order can be priced on this mid: the collar around it meets the price band. -/
def Priceable (cfg : RiskConfig) (mid : ℚ) : Prop :=
  0 < mid ∧ cfg.minPrice ≤ mid * (1 + cfg.priceCollarPct) ∧ mid * (1 - cfg.priceCollarPct) ≤ cfg.maxPrice

/-- What the gate accepts of a ticker. -/
structure Tradeable (cfg : RiskConfig) (t : Ticker) (avgVolume : ℚ) : Prop where
  open_ : t.halted = some 0
  priced : ∃ mid, t.mid = some mid ∧ Priceable cfg mid
  narrow : ∀ spread ∈ t.spreadPct, spread ≤ cfg.maxSpreadPct
  liquid : avgVolume = 0 ∨ cfg.minAvgVolume ≤ avgVolume

theorem checkQuote_eq_nil {cfg : RiskConfig} {ctx : RiskContext} {now : Now} {q : Quote}
    (hquote : ctx.quote = some q) :
    checkQuote cfg ctx now = [] ↔ q.halted = false ∧ q.isUsable = true ∧
      q.ageSeconds now.epoch ≤ cfg.maxQuoteAgeSeconds ∧ ∀ spread ∈ q.spreadPct, spread ≤ cfg.maxSpreadPct := by
  unfold checkQuote
  rw [hquote]
  simp only [List.append_eq_nil_iff, failIf_eq_nil, Bool.not_eq_false', decide_eq_false_iff_not, not_lt,
    and_assoc]
  cases q.spreadPct with
  | none => simp
  | some spread => simp [failIf_eq_nil]

section Tradeable

variable {raw cfg : RiskConfig} {warnings : List String} {t : Ticker} {avgVolume : ℚ}

theorem tradeable_of_passed {e : RiskEngine} {order : SizedOrder} {ctx : RiskContext} {now : Now}
    {symbol : String} {utcnow : ℚ} (h : Passed e order ctx now)
    (hquote : ctx.quote = some (t.quote symbol utcnow)) : Tradeable e.cfg t ctx.avgVolume := by
  obtain ⟨hhalted, -, -, hspread⟩ := (checkQuote_eq_nil hquote).mp h.quote
  obtain ⟨q, mid, hq, hmid, hpos⟩ := h.usable
  obtain rfl := Option.some.inj (hquote.symm.trans hq)
  have hopen : t.halted = some 0 := by simpa [Ticker.quote, Ticker.isHalted] using hhalted
  refine ⟨hopen, ⟨mid, hmid, hpos, ?_⟩, hspread, ?_⟩
  · -- the entry price lies within the collar and within the band
    have hcollar := h.collar
    have htruthy : (ctx.quote.bind fun q => truthy q.mid) = some mid := by
      rw [hquote, Option.bind_some, hmid, truthy_some hpos.ne']
    unfold checkCollar at hcollar
    rw [htruthy] at hcollar
    have hdeviation : |order.entryPrice - mid| / mid ≤ e.cfg.priceCollarPct := by
      simpa using failIf_eq_nil.mp hcollar
    have hnear := abs_le.mp ((div_le_iff₀ hpos).mp hdeviation)
    have hband := h.inBand
    constructor <;> linarith [hnear.1, hnear.2, hband.1, hband.2]
  · have hvolume := failIf_eq_nil.mp h.volume
    simp only [decide_eq_false_iff_not, not_and, not_lt] at hvolume
    exact or_iff_not_imp_left.mpr hvolume

/-- The price of an order that the gate accepts on a mid: the nearest one in the band. -/
def nearestInBand (cfg : RiskConfig) (mid : ℚ) : ℚ := max cfg.minPrice (min mid cfg.maxPrice)

theorem nearestInBand_near (hband : cfg.minPrice < cfg.maxPrice) (hcollar : 0 < cfg.priceCollarPct) {mid : ℚ}
    (h : Priceable cfg mid) :
    |nearestInBand cfg mid - mid| / mid ≤ cfg.priceCollarPct ∧ cfg.minPrice ≤ nearestInBand cfg mid ∧
      nearestInBand cfg mid ≤ cfg.maxPrice := by
  obtain ⟨hpos, hlow, hhigh⟩ := h
  refine ⟨(div_le_iff₀ hpos).mpr (abs_le.mpr ?_), le_max_left _ _, max_le hband.le (min_le_right _ _)⟩
  have hmargin := mul_pos hcollar hpos
  unfold nearestInBand
  constructor
  · rcases min_choice mid cfg.maxPrice with hmin | hmin
    · have hle := le_max_right cfg.minPrice (min mid cfg.maxPrice)
      linarith
    · have hle := le_max_right cfg.minPrice (min mid cfg.maxPrice)
      linarith
  · have hmid := min_le_left mid cfg.maxPrice
    rcases max_choice cfg.minPrice (min mid cfg.maxPrice) with hmax | hmax <;> rw [hmax] <;> linarith

/-- One share at a price. -/
def oneShare (price : ℚ) : SizedOrder where
  proposal := breakoutProposal
  symbol := "AAPL"
  action := .buy
  quantity := 1
  entryPrice := price
  stopPrice := price
  targetPrice := price
  riskAmount := 0
  notional := 0

/-- The quiet market with the ticker's quote and a volume, at the time of the quote. -/
def tickerContext (cfg : RiskConfig) (t : Ticker) (avgVolume price : ℚ) : RiskContext :=
  let quiet := quietContext cfg (oneShare price) Dict.empty
  { quiet with
    account := { quiet.account with asOf := t.time.getD 0 }
    quote := some (t.quote "AAPL" 0)
    avgVolume }

def tickerNow (t : Ticker) : Now := { quietNow with epoch := t.time.getD 0 }

/-- What is tradeable is approved in some context. -/
theorem passed_of_tradeable (hcfg : raw.validate = .ok (cfg, warnings)) (h : Tradeable cfg t avgVolume)
    {mid : ℚ} (hmid : t.mid = some mid) (hpriceable : Priceable cfg mid) :
    Passed { cfg, killSwitch := {} } (oneShare (nearestInBand cfg mid))
      (tickerContext cfg t avgVolume (nearestInBand cfg mid)) (tickerNow t) := by
  have haccepted : cfg.Accepted := RiskConfig.accepted_of_validate hcfg
  obtain ⟨hband, -⟩ := RiskConfig.band_of_validate hcfg
  obtain ⟨hdeviation, hlow, hhigh⟩ := nearestInBand_near hband haccepted.collar_pos hpriceable
  have hmid' : (t.quote "AAPL" 0).mid = some mid := hmid
  have hprice : 0 < nearestInBand cfg mid := by
    have hnear := (abs_le.mp ((div_le_iff₀ hpriceable.1).mp hdeviation)).1
    have hcollar := mul_le_mul_of_nonneg_right haccepted.collar_le hpriceable.1.le
    linarith [hpriceable.1]
  have horder : ¬ Refused cfg (oneShare (nearestInBand cfg mid)) := by
    rintro (hquantity | hentry | hbelow | habove)
    · exact lt_irrefl (1 : ℤ) hquantity
    · exact absurd hentry (not_le.mpr hprice)
    · exact absurd hbelow (not_lt.mpr hlow)
    · exact absurd habove (not_lt.mpr hhigh)
  have hquiet := exists_approval haccepted horder (Or.inl ⟨by simp [oneShare], rfl⟩ : Unopposed _ Dict.empty)
  exact
    { killSwitch := rfl
      interlock := hquiet.interlock
      phase := hquiet.phase
      cutoff := hquiet.cutoff
      accountAge := by
        simpa [checkAccountAge, failIf_eq_nil, tickerContext, tickerNow, AccountSnapshot.ageSeconds]
          using haccepted.accountAge_pos.le
      decisionAge := hquiet.decisionAge
      quote := by
        have hage : (t.quote "AAPL" 0).ageSeconds (tickerNow t).epoch = 0 := sub_self _
        have hopen : (t.quote "AAPL" 0).halted = false := by simp [Ticker.quote, Ticker.isHalted, h.open_]
        have husable : (t.quote "AAPL" 0).isUsable = true := by
          rw [Quote.isUsable, hmid', hopen]
          simpa using hpriceable.1
        refine (checkQuote_eq_nil rfl).mpr ⟨hopen, husable, ?_, h.narrow⟩
        rw [hage]
        exact haccepted.quoteAge_pos.le
      quantity := hquiet.quantity
      collar := by
        have htruthy : ((tickerContext cfg t avgVolume (nearestInBand cfg mid)).quote.bind
            fun q => truthy q.mid) = some mid := by
          show truthy (t.quote "AAPL" 0).mid = some mid
          rw [hmid', truthy_some hpriceable.1.ne']
        rw [checkCollar, htruthy]
        exact failIf_eq_nil.mpr (decide_eq_false (not_lt.mpr hdeviation))
      priceBand := hquiet.priceBand
      volume := by
        refine failIf_eq_nil.mpr (decide_eq_false ?_)
        rintro ⟨hknown, hlow⟩
        exact absurd (h.liquid.resolve_left hknown) (not_le.mpr hlow)
      tradeRisk := hquiet.tradeRisk
      notional := hquiet.notional
      buyingPower := hquiet.buyingPower
      positions := hquiet.positions
      cycleEntries := hquiet.cycleEntries
      dailyLimit := hquiet.dailyLimit
      tradeCap := hquiet.tradeCap
      orderRate := hquiet.orderRate
      duplicate := hquiet.duplicate
      cooldown := hquiet.cooldown
      flipFlop := hquiet.flipFlop
      short := hquiet.short
      riskOfficer := hquiet.riskOfficer }

theorem present_of_passed {e : RiskEngine} {order : SizedOrder} {ctx : RiskContext} {now : Now}
    {symbol : String} {utcnow : ℚ} (hvolume : 0 ≤ e.cfg.minAvgVolume) (h : Passed e order ctx now)
    (hquote : ctx.quote = some (t.quote symbol utcnow)) (hcomplete : Complete t ctx.avgVolume) :
    MarketDataPresent e.cfg t ctx.avgVolume now := by
  obtain ⟨⟨bid, ask, hbid, hask, hbidPos, haskPos⟩, htime, hknown⟩ := hcomplete
  obtain ⟨time, htime⟩ := Option.isSome_iff_exists.mp htime
  have htradeable := tradeable_of_passed h hquote
  have hfloor := htradeable.liquid.resolve_left hknown
  refine ⟨⟨bid, ask, hbid, hask, hbidPos, haskPos, htradeable.narrow _ ?_⟩, ⟨time, htime, ?_⟩, ?_, hfloor⟩
  · have hmid : t.mid = some ((bid + ask) / 2) := by
      simp [Ticker.mid, Ticker.quote, Quote.mid, hbid, hask, hbidPos, haskPos]
    have hspread : (t.quote "" 0).spread = some (ask - bid) := by
      simp [Ticker.quote, Quote.spread, hbid, hask, hbidPos, haskPos]
    have hne : (bid + ask) / 2 ≠ 0 := by linarith
    show (t.quote "" 0).spreadPct = _
    unfold Quote.spreadPct
    rw [hspread, show (t.quote "" 0).mid = _ from hmid]
    exact if_neg hne
  · obtain ⟨-, -, hage, -⟩ := (checkQuote_eq_nil hquote).mp h.quote
    have hupdated : (t.quote symbol utcnow).updatedAt = time := by simp [Ticker.quote, htime]
    rwa [Quote.ageSeconds, hupdated] at hage
  · rcases hvolume.lt_or_eq with hpos | hzero
    · exact hpos.trans_le hfloor
    · exact lt_of_le_of_ne (hzero.trans_le hfloor) hknown.symm

/-- **When the gate fails closed on missing market data.** For every configuration that the validators accept,
every ticker on record or none, and every average volume: every order that is approved on its quote, in
whatever context, has a live bid and ask, a ticker time and a known volume within the limits precisely when
the ticker is never tradeable or carries all of them. -/
theorem fails_closed_iff (hcfg : raw.validate = .ok (cfg, warnings)) (ticker : Option Ticker)
    (avgVolume : ℚ) :
    FailsClosed cfg ticker avgVolume ↔
      ∀ t ∈ ticker, Tradeable cfg t avgVolume → Complete t avgVolume := by
  obtain ⟨-, hvolume⟩ := RiskConfig.band_of_validate hcfg
  constructor
  · intro hcloses t hmem htradeable
    obtain ⟨mid, hmid, hpriceable⟩ := htradeable.priced
    have hpassed := passed_of_tradeable hcfg htradeable hmid hpriceable
    obtain ⟨t', hmem', hpresent⟩ := hcloses _ _ _ _ "AAPL" 0 rfl (by rw [Option.mem_def.mp hmem]; rfl) rfl
      (approved_evaluate.mpr hpassed)
    obtain rfl := Option.some.inj ((Option.mem_def.mp hmem).symm.trans hmem')
    obtain ⟨bid, ask, hbid, hask, hbidPos, haskPos, -⟩ := hpresent.live
    obtain ⟨time, htime, -⟩ := hpresent.fresh
    exact ⟨⟨bid, ask, hbid, hask, hbidPos, haskPos⟩, by rw [htime]; rfl, hpresent.volume_pos.ne'⟩
  · rintro hall e order ctx now symbol utcnow rfl hquote rfl happroved
    have hpassed := approved_evaluate.mp happroved
    cases hticker : ticker with
    | none =>
      obtain ⟨q, -, hq, -⟩ := hpassed.usable
      rw [hquote, hticker] at hq
      cases hq
    | some t =>
      have hquote' : ctx.quote = some (t.quote symbol utcnow) := by rw [hquote, hticker]; rfl
      have hcomplete := hall t (Option.mem_def.mpr hticker) (tradeable_of_passed hpassed hquote')
      exact ⟨t, rfl, present_of_passed hvolume hpassed hquote' hcomplete⟩

end Tradeable

/-! #### Yesterday's close -/

/-- Nothing has been traded or quoted today, and the contract is not halted. -/
def closeOnly : Ticker := { close := some 100, halted := some 0 }

def liveTicker : Ticker :=
  { time := some 0, bid := some (9995 / 100), ask := some (10005 / 100), last := some 100, halted := some 0 }

theorem fails_closed_live : FailsClosed {} (some liveTicker) 1000000 := by
  refine (fails_closed_iff validate_defaults (some liveTicker) 1000000).mpr fun t hmem _ => ?_
  obtain rfl := Option.some.inj hmem
  exact ⟨⟨9995 / 100, 10005 / 100, by decide +kernel, by decide +kernel, by decide +kernel, by decide +kernel⟩,
    rfl, by decide +kernel⟩

/-- An order at yesterday's close is approved: no bid, no ask, no time, no volume. -/
theorem fails_closed_closeOnly :
    ¬ ∀ (raw cfg : RiskConfig) (warnings : List String) (ticker : Option Ticker) (avgVolume : ℚ),
      raw.validate = .ok (cfg, warnings) → FailsClosed cfg ticker avgVolume := by
  intro h
  have hcloses := h {} {} [] (some closeOnly) 0 validate_defaults
  obtain ⟨t, hmem, hpresent⟩ := hcloses { cfg := {}, killSwitch := {} } (oneShare 100)
    (tickerContext {} closeOnly 0 100) (tickerNow closeOnly) "AAPL" 0 rfl rfl rfl (by decide +kernel)
  exact absurd hpresent.volume_pos (lt_irrefl 0)

end AiTrader
