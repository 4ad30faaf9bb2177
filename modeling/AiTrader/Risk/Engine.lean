import AiTrader.Broker.Orders
import AiTrader.Config
import AiTrader.Risk.KillSwitch
import Mathlib.Tactic.MkIffOfInductiveProp

/-!
# The risk gate

`RiskEngine.evaluate` runs every check and vetoes on any failure. Each check is a definition of its own
that returns the failures it adds, so that the verdict is a statement about their concatenation
(`approved_evaluate`): an approved order has passed every check, and what each check then says is one
lemma about it.

`evaluate` also writes: reading the kill switch can latch it, check 17 remembers a breach of the daily
loss limit, and check 19 forgets orders older than a minute.

The checks are independent of each other, and few look at what a proof is about: check 20 alone at the working
symbols, check 22 alone at the closes (`passed_iff_workingSymbols`, `passed_iff_lastClose`). A submission evaluates
once, looks at the kill switch once more and then hands the bracket over: `submitStart_cases` has its two outcomes,
and what it does to the switch, the flag and the order times stands beside it.
-/

namespace AiTrader

open Lib

/-- Everything the gate needs to judge one order. `minutesToClose` is missing when there is no session to
close, which the source writes as infinity. -/
structure RiskContext where
  account : AccountSnapshot
  quote : Option Quote
  phase : SessionPhase
  minutesToClose : Option ℚ
  isLive : Bool
  startingEquity : ℚ
  entriesThisCycle : ℤ := 0
  tradesToday : ℤ := 0
  workingSymbols : List String := []
  lastEntry : Dict String ℚ := Dict.empty
  lastClose : Dict String ℚ := Dict.empty
  decisionAgeSeconds : ℚ := 0
  riskOfficerApproved : Bool := true
  riskOfficerComment : String := ""
  avgVolume : ℚ := 0

structure RiskEngine where
  cfg : RiskConfig
  killSwitch : KillSwitch
  store : Option StateStore := none
  orderTimes : List ℚ := []
  dailyLossTripped : Bool := false

/-- A failed check. -/
structure Failure where
  reason : RejectReason
  detail : String
  deriving DecidableEq

namespace RiskEngine

/-! ### The checks -/

/-- One failure if the condition holds. -/
def failIf (condition : Bool) (reason : RejectReason) (detail : String) : List Failure :=
  if condition then [{ reason, detail }] else []

theorem failIf_eq_nil {condition : Bool} {reason : RejectReason} {detail : String} :
    failIf condition reason detail = [] ↔ condition = false := by
  cases condition <;> simp [failIf]

section Checks

variable (cfg : RiskConfig) (order : SizedOrder) (ctx : RiskContext) (now : Now)

/-- 1. Kill switch, as it reads after the look. -/
def checkKillSwitch (ks : KillSwitch) : List Failure :=
  failIf ks.isTripped .killSwitch (orElseText ks.reason "kill switch active")

/-- 2. Live/paper interlock. -/
def checkInterlock : List Failure :=
  let acct := ctx.account
  failIf (ctx.isLive && acct.isPaper) .tradingModeInterlock
      ("live mode but account " ++ acct.accountId ++ " is a paper account") ++
    failIf (!ctx.isLive && !acct.isPaper && decide (acct.accountId ≠ "")) .tradingModeInterlock
      ("paper mode but account " ++ acct.accountId ++ " is not a paper account")

/-- 3. Session phase. -/
def checkPhase : List Failure :=
  failIf (!ctx.phase.isTradeable) .marketClosed ("session phase is " ++ ctx.phase.value)

/-- 4. Too close to the close for a new position. -/
def checkCutoff : List Failure :=
  match ctx.minutesToClose with
  | none => []
  | some minutes =>
    failIf (decide (minutes ≤ cfg.noEntryMinutesBeforeClose)) .tooLateInSession
      (Decimal.fixed 0 minutes ++ " min to close, cutoff is " ++
        toString cfg.noEntryMinutesBeforeClose)

/-- 5. Account state freshness. -/
def checkAccountAge : List Failure :=
  let age := ctx.account.ageSeconds now.epoch
  failIf (decide (cfg.maxAccountAgeSeconds < age)) .staleAccountState
    ("account snapshot is " ++ Decimal.fixed 0 age ++ "s old (max " ++
      Decimal.fixed 0 cfg.maxAccountAgeSeconds ++ "s)")

/-- 6. Decision freshness. -/
def checkDecisionAge : List Failure :=
  failIf (decide (cfg.maxDecisionAgeSeconds < ctx.decisionAgeSeconds)) .staleMarketData
    ("decision is " ++ Decimal.fixed 0 ctx.decisionAgeSeconds ++ "s old (max " ++
      Decimal.fixed 0 cfg.maxDecisionAgeSeconds ++ "s)")

/-- 7. Market data present and usable. -/
def checkQuote : List Failure :=
  match ctx.quote with
  | none => [{ reason := .noMarketData, detail := "no quote available" }]
  | some q =>
    let age := q.ageSeconds now.epoch
    failIf q.halted .halted "contract is halted" ++
      failIf (!q.isUsable) .noMarketData "quote has no usable price" ++
      failIf (decide (cfg.maxQuoteAgeSeconds < age)) .staleMarketData
        ("quote is " ++ Decimal.fixed 0 age ++ "s old (max " ++
          Decimal.fixed 0 cfg.maxQuoteAgeSeconds ++ "s)") ++
      match q.spreadPct with
      | none => []
      | some sp =>
        failIf (decide (cfg.maxSpreadPct < sp)) .spreadTooWide
          ("spread " ++ Decimal.fixed 2 (sp * 100) ++ "% exceeds " ++
            Decimal.fixed 2 (cfg.maxSpreadPct * 100) ++ "%")

/-- 8. Quantity sanity. -/
def checkQuantity : List Failure :=
  failIf (decide (order.quantity < 1)) .zeroQuantity ("quantity is " ++ toString order.quantity)

/-- 9. Price collar. -/
def checkCollar : List Failure :=
  match ctx.quote.bind fun q => truthy q.mid with
  | none => []
  | some mid =>
    let deviation := |order.entryPrice - mid| / mid
    failIf (decide (cfg.priceCollarPct < deviation)) .priceCollar
      ("limit " ++ Decimal.fixed 2 order.entryPrice ++ " is " ++ Decimal.fixed 2 (deviation * 100) ++
        "% from mid " ++ Decimal.fixed 2 mid ++ " (max " ++
        Decimal.fixed 2 (cfg.priceCollarPct * 100) ++ "%)")

/-- 10. Price band. -/
def checkPriceBand : List Failure :=
  failIf (!decide (cfg.minPrice ≤ order.entryPrice ∧ order.entryPrice ≤ cfg.maxPrice)) .illiquid
    ("price " ++ Decimal.fixed 2 order.entryPrice ++ " outside [" ++ Decimal.shortest cfg.minPrice ++
      ", " ++ Decimal.shortest cfg.maxPrice ++ "]")

/-- 11. Liquidity; an unknown volume passes. -/
def checkVolume : List Failure :=
  failIf (decide (ctx.avgVolume ≠ 0 ∧ ctx.avgVolume < cfg.minAvgVolume)) .illiquid
    ("average volume " ++ Decimal.grouped 0 ctx.avgVolume ++ " below " ++
      Decimal.grouped 0 cfg.minAvgVolume)

/-- 12. Per-trade risk, recomputed independently of the sizer, with 2% tolerance for tick rounding. -/
def checkTradeRisk : List Failure :=
  let maxRisk := ctx.account.equity * cfg.maxRiskPerTradePct
  let actualRisk := |order.entryPrice - order.stopPrice| * order.quantity
  failIf (decide (maxRisk * (102 / 100) < actualRisk)) .perTradeRiskExceeded
    ("risk $" ++ Decimal.grouped 2 actualRisk ++ " exceeds cap $" ++ Decimal.grouped 2 maxRisk)

/-- 13. Position notional. -/
def checkNotional : List Failure :=
  let maxNotional := ctx.account.equity * cfg.maxPositionNotionalPct
  failIf (decide (maxNotional * (102 / 100) < order.notional)) .positionNotionalExceeded
    ("notional $" ++ Decimal.grouped 2 order.notional ++ " exceeds cap $" ++
      Decimal.grouped 2 maxNotional)

/-- 14. Buying power. -/
def checkBuyingPower : List Failure :=
  let usable := ctx.account.buyingPower * (1 - cfg.buyingPowerReservePct)
  failIf (decide (usable < order.notional)) .insufficientBuyingPower
    ("notional $" ++ Decimal.grouped 2 order.notional ++ " exceeds usable buying power $" ++
      Decimal.grouped 2 usable)

/-- 15. Concurrent positions. -/
def checkPositions : List Failure :=
  let openCount : ℤ := ctx.account.openPositions.keys.length
  failIf (!ctx.account.openPositions.contains order.symbol &&
      decide (cfg.maxConcurrentPositions ≤ openCount)) .maxPositionsReached
    (toString openCount ++ " positions open, max " ++ toString cfg.maxConcurrentPositions)

/-- 16. Entries per cycle. -/
def checkCycleEntries : List Failure :=
  failIf (decide (cfg.maxNewEntriesPerCycle ≤ ctx.entriesThisCycle)) .maxEntriesPerCycle
    (toString ctx.entriesThisCycle ++ " entries already this cycle")

/-- The day's P&L as a fraction of the starting equity. -/
def pnlPct (account : AccountSnapshot) (startingEquity : ℚ) : ℚ :=
  (account.equity - startingEquity) / startingEquity

/-- There is a baseline and the loss against it has reached the limit. -/
def breaches (account : AccountSnapshot) (startingEquity : ℚ) : Bool :=
  decide (0 < startingEquity ∧ pnlPct account startingEquity ≤ -cfg.dailyLossLimitPct)

/-- 17. Daily loss limit. -/
def checkDailyLimit : List Failure :=
  failIf (breaches cfg ctx.account ctx.startingEquity) .dailyLossLimit
    ("day P&L " ++ Decimal.fixed 2 (pnlPct ctx.account ctx.startingEquity * 100) ++
      "% breached limit -" ++ Decimal.fixed 2 (cfg.dailyLossLimitPct * 100) ++ "%")

/-- 18. Daily trade cap. -/
def checkTradeCap : List Failure :=
  failIf (decide (cfg.maxTradesPerDay ≤ ctx.tradesToday)) .dailyTradeCap
    (toString ctx.tradesToday ++ " trades today, max " ++ toString cfg.maxTradesPerDay)

/-- `_check_order_rate`, the forgetting: orders of the last minute. -/
def recentOrders (orderTimes : List ℚ) : List ℚ := orderTimes.dropWhile fun t => t ≤ now.mono - 60

/-- 19. Order rate. -/
def checkOrderRate (orderTimes : List ℚ) : List Failure :=
  failIf (!decide (((recentOrders now orderTimes).length : ℤ) < cfg.maxOrdersPerMinute)) .dailyTradeCap
    ("order rate exceeded " ++ toString cfg.maxOrdersPerMinute ++ "/minute")

/-- 20. Duplicate or already working. -/
def checkDuplicate : List Failure :=
  failIf (decide (order.symbol ∈ ctx.workingSymbols)) .duplicateOrder
      "an order for this symbol is already working" ++
    match ctx.account.openPositions.get? order.symbol with
    | none => []
    | some existing =>
      failIf ((existing.isLong && decide (order.action = .buy)) ||
          (!existing.isLong && decide (order.action = .sell))) .duplicateOrder
        "already holding this position"

/-- 21. Cooldown. -/
def checkCooldown : List Failure :=
  match ctx.lastEntry.get? order.symbol with
  | none => []
  | some last =>
    failIf (decide (now.mono - last < cfg.symbolCooldownSeconds)) .cooldown
      ("entered " ++ Decimal.fixed 0 (now.mono - last) ++ "s ago, cooldown is " ++
        Decimal.fixed 0 cfg.symbolCooldownSeconds ++ "s")

/-- 22. Flip-flop guard. -/
def checkFlipFlop : List Failure :=
  match ctx.lastClose.get? order.symbol with
  | none => []
  | some closed =>
    failIf (decide (now.mono - closed < cfg.flipFlopGuardSeconds)) .flipFlopGuard
      ("closed " ++ Decimal.fixed 0 (now.mono - closed) ++ "s ago; not reversing within " ++
        Decimal.fixed 0 cfg.flipFlopGuardSeconds ++ "s")

/-- 23. Shorting. -/
def checkShort : List Failure :=
  failIf (decide (order.action = .sell) && !ctx.account.openPositions.contains order.symbol &&
    !cfg.allowShorts) .tradingModeInterlock "short selling is disabled"

/-- 24. Risk Officer veto. -/
def checkRiskOfficer : List Failure :=
  failIf (cfg.requireRiskOfficer && !ctx.riskOfficerApproved) .riskOfficerVeto
    (orElseText (String.ofList (ctx.riskOfficerComment.toList.take 200)) "risk officer declined")

end Checks

/-- Every check, in order. -/
def failures (e : RiskEngine) (order : SizedOrder) (ctx : RiskContext) (now : Now) :
    List Failure :=
  let cfg := e.cfg
  [checkKillSwitch (e.killSwitch.look now), checkInterlock ctx, checkPhase ctx, checkCutoff cfg ctx,
    checkAccountAge cfg ctx now, checkDecisionAge cfg ctx, checkQuote cfg ctx now,
    checkQuantity order, checkCollar cfg order ctx, checkPriceBand cfg order, checkVolume cfg ctx,
    checkTradeRisk cfg order ctx, checkNotional cfg order ctx, checkBuyingPower cfg order ctx,
    checkPositions cfg order ctx, checkCycleEntries cfg ctx, checkDailyLimit cfg ctx,
    checkTradeCap cfg ctx, checkOrderRate cfg now e.orderTimes, checkDuplicate order ctx,
    checkCooldown cfg order ctx now, checkFlipFlop cfg order ctx now, checkShort cfg order ctx,
    checkRiskOfficer cfg ctx].flatten

/-- What the checks leave of the engine. -/
def checked (e : RiskEngine) (ctx : RiskContext) (now : Now) : RiskEngine :=
  { e with
    killSwitch := e.killSwitch.look now
    orderTimes := recentOrders now e.orderTimes
    dailyLossTripped := e.dailyLossTripped || breaches e.cfg ctx.account ctx.startingEquity }

def evaluate (e : RiskEngine) (order : SizedOrder) (ctx : RiskContext) (now : Now) :
    RiskVerdict × RiskEngine :=
  match e.failures order ctx now with
  | [] => (.ok order.symbol, e.checked ctx now)
  | first :: _ => (.reject first.reason first.detail order.symbol, e.checked ctx now)

/-! ### The only path to the broker -/

/-- `_persist`: a write that raises is logged and forgotten. -/
def persist (e : RiskEngine) (cycleId : String) (order : SizedOrder) (verdict : RiskVerdict) :
    RiskEngine :=
  { e with
    store := e.store.map fun s =>
      (s.saveRiskEvent
        { cycleId, symbol := order.symbol, approved := verdict.approved, reason := verdict.reason
          detail := verdict.detail }).getD s }

/-- The engine after its kill switch has been read. -/
def lookSwitch (e : RiskEngine) (now : Now) : RiskEngine :=
  { e with killSwitch := e.killSwitch.look now }

/-- `_record_order`. -/
def recordOrder (e : RiskEngine) (now : Now) : RiskEngine :=
  { e with orderTimes := e.orderTimes ++ [now.mono] }

/-- `submit` up to the call of `place_bracket`: the verdict it returns, or the approval it goes on
with. -/
def submitStart (e : RiskEngine) (order : SizedOrder) (ctx : RiskContext) (cycleId : String)
    (wired : Bool) (now : Now) : RiskEngine × Except RiskVerdict RiskVerdict :=
  let verdict := (e.evaluate order ctx now).1
  let e := (e.evaluate order ctx now).2.persist cycleId order verdict
  if !verdict.approved then (e, .error verdict)
  else
    let e := e.lookSwitch now
    if e.killSwitch.isTripped then
      let late := RiskVerdict.reject .killSwitch "tripped after evaluation" order.symbol
      (e.persist cycleId order late, .error late)
    else if wired then (e, .ok verdict)
    else (e, .error (.reject .tradingModeInterlock "no order manager wired" order.symbol))

/-- `submit` from the end of `place_bracket` on. -/
def submitFinish (e : RiskEngine) (order : SizedOrder) (verdict : RiskVerdict)
    (placement : Except String Unit) (now : Now) : RiskEngine × RiskVerdict :=
  match placement with
  | .ok () => (e.recordOrder now, verdict)
  | .error exc => (e, .reject .duplicateOrder ("placement failed: " ++ exc) order.symbol)

/-- The whole of `submit`, with nothing else running while the order is placed. -/
def submit (e : RiskEngine) (order : SizedOrder) (ctx : RiskContext) (cycleId : String) (wired : Bool)
    (placement : Except String Unit) (now : Now) : RiskEngine × RiskVerdict :=
  match e.submitStart order ctx cycleId wired now with
  | (e, .error verdict) => (e, verdict)
  | (e, .ok verdict) => e.submitFinish order verdict placement now

/-! ### The out-of-band check -/

def checkDailyLoss (e : RiskEngine) (account : AccountSnapshot) (startingEquity : ℚ) (now : Now) :
    Bool × RiskEngine :=
  if startingEquity ≤ 0 ∨ e.dailyLossTripped = true then (e.dailyLossTripped, e)
  else if pnlPct account startingEquity ≤ -e.cfg.dailyLossLimitPct then
    let reason :=
      "daily loss limit breached: " ++ Decimal.fixed 2 (pnlPct account startingEquity * 100) ++
        "% (limit -" ++ Decimal.fixed 2 (e.cfg.dailyLossLimitPct * 100) ++ "%)"
    (true, { e with dailyLossTripped := true, killSwitch := e.killSwitch.trip reason none now })
  else (false, e)

def resetForNewSession (e : RiskEngine) : RiskEngine :=
  { e with dailyLossTripped := false, orderTimes := [] }

theorem dailyLossTripped_checkDailyLoss (e : RiskEngine) (account : AccountSnapshot) (startingEquity : ℚ) (now : Now) :
    (e.checkDailyLoss account startingEquity now).2.dailyLossTripped =
      (e.dailyLossTripped || breaches e.cfg account startingEquity) := by
  unfold checkDailyLoss breaches
  split_ifs with hearly hpnl
  · rcases hearly with hbase | hset
    · simp [not_lt.mpr hbase]
    · simp [hset]
  · have hpos : 0 < startingEquity := not_le.mp (not_or.mp hearly).1
    simp [hpos, hpnl]
  · simp [hpnl]

/-! ### What a verdict says -/

/-- Every check has passed. -/
@[mk_iff] structure Passed (e : RiskEngine) (order : SizedOrder) (ctx : RiskContext) (now : Now) : Prop where
  killSwitch : checkKillSwitch (e.killSwitch.look now) = []
  interlock : checkInterlock ctx = []
  phase : checkPhase ctx = []
  cutoff : checkCutoff e.cfg ctx = []
  accountAge : checkAccountAge e.cfg ctx now = []
  decisionAge : checkDecisionAge e.cfg ctx = []
  quote : checkQuote e.cfg ctx now = []
  quantity : checkQuantity order = []
  collar : checkCollar e.cfg order ctx = []
  priceBand : checkPriceBand e.cfg order = []
  volume : checkVolume e.cfg ctx = []
  tradeRisk : checkTradeRisk e.cfg order ctx = []
  notional : checkNotional e.cfg order ctx = []
  buyingPower : checkBuyingPower e.cfg order ctx = []
  positions : checkPositions e.cfg order ctx = []
  cycleEntries : checkCycleEntries e.cfg ctx = []
  dailyLimit : checkDailyLimit e.cfg ctx = []
  tradeCap : checkTradeCap e.cfg ctx = []
  orderRate : checkOrderRate e.cfg now e.orderTimes = []
  duplicate : checkDuplicate order ctx = []
  cooldown : checkCooldown e.cfg order ctx now = []
  flipFlop : checkFlipFlop e.cfg order ctx now = []
  short : checkShort e.cfg order ctx = []
  riskOfficer : checkRiskOfficer e.cfg ctx = []

variable {e : RiskEngine} {order : SizedOrder} {ctx : RiskContext} {now : Now}

theorem failures_eq_nil_iff : e.failures order ctx now = [] ↔ Passed e order ctx now := by
  rw [passed_iff, failures, List.flatten_eq_nil_iff]
  simp only [List.forall_mem_cons, List.not_mem_nil, false_implies, implies_true, and_true]

/-- **An order is approved exactly when every check passes.** -/
theorem approved_evaluate : (e.evaluate order ctx now).1.approved = true ↔ Passed e order ctx now := by
  rw [← failures_eq_nil_iff, evaluate]
  cases e.failures order ctx now with
  | nil => simp
  | cons first rest => simp

theorem evaluate_snd : (e.evaluate order ctx now).2 = e.checked ctx now := by
  rw [evaluate]
  cases e.failures order ctx now <;> rfl

theorem Passed.not_tripped (h : Passed e order ctx now) : e.killSwitch.isTripped = false := by
  have hcheck := failIf_eq_nil.mp h.killSwitch
  rwa [KillSwitch.isTripped_look] at hcheck

theorem Passed.tradesToday_lt (h : Passed e order ctx now) : ctx.tradesToday < e.cfg.maxTradesPerDay := by
  have hcheck := failIf_eq_nil.mp h.tradeCap
  simpa using hcheck

theorem Passed.entriesThisCycle_lt (h : Passed e order ctx now) :
    ctx.entriesThisCycle < e.cfg.maxNewEntriesPerCycle := by
  have hcheck := failIf_eq_nil.mp h.cycleEntries
  simpa using hcheck

theorem Passed.slot (h : Passed e order ctx now)
    (hnew : order.symbol ∉ ctx.account.openPositions.keys) :
    (ctx.account.openPositions.keys.length : ℤ) < e.cfg.maxConcurrentPositions := by
  have hcheck := failIf_eq_nil.mp h.positions
  rw [Bool.and_eq_false_iff] at hcheck
  rcases hcheck with hheld | hcount
  · exact absurd (Dict.contains_iff.mp (by simpa using hheld)) hnew
  · simpa using hcount

theorem Passed.rate_lt (h : Passed e order ctx now) :
    ((recentOrders now e.orderTimes).length : ℤ) < e.cfg.maxOrdersPerMinute := by
  have hcheck := failIf_eq_nil.mp h.orderRate
  simpa using hcheck

theorem Passed.not_working (h : Passed e order ctx now) : order.symbol ∉ ctx.workingSymbols := by
  have hcheck := (List.append_eq_nil_iff.mp h.duplicate).1
  simpa using failIf_eq_nil.mp hcheck

theorem passed_iff_workingSymbols (e : RiskEngine) (order : SizedOrder) (ctx : RiskContext) (now : Now) :
    Passed e order ctx now ↔
      Passed e order { ctx with workingSymbols := [] } now ∧ order.symbol ∉ ctx.workingSymbols := by
  constructor
  · intro h
    refine ⟨{ h with duplicate := ?_ }, h.not_working⟩
    exact (List.append_eq_nil_iff.mp h.duplicate).2
  · rintro ⟨h, hworking⟩
    refine { h with duplicate := List.append_eq_nil_iff.mpr ⟨?_, ?_⟩ }
    · exact failIf_eq_nil.mpr (decide_eq_false hworking)
    · exact (List.append_eq_nil_iff.mp h.duplicate).2

theorem passed_iff_lastClose (e : RiskEngine) (order : SizedOrder) (ctx : RiskContext) (now : Now) :
    Passed e order ctx now ↔
      Passed e order { ctx with lastClose := Dict.empty } now ∧
        ∀ closed, ctx.lastClose.get? order.symbol = some closed →
          e.cfg.flipFlopGuardSeconds ≤ now.mono - closed := by
  have hguard : checkFlipFlop e.cfg order ctx now = [] ↔
      ∀ closed, ctx.lastClose.get? order.symbol = some closed →
        e.cfg.flipFlopGuardSeconds ≤ now.mono - closed := by
    unfold checkFlipFlop
    cases ctx.lastClose.get? order.symbol with
    | none => simp
    | some closed => simp [failIf_eq_nil]
  constructor
  · exact fun h => ⟨{ h with flipFlop := rfl }, hguard.mp h.flipFlop⟩
  · exact fun h => { h.1 with flipFlop := hguard.mpr h.2 }

/-! ### What `submit` leaves -/

@[simp] theorem cfg_evaluate : (e.evaluate order ctx now).2.cfg = e.cfg := by
  rw [evaluate_snd]
  rfl

/-- `submit` goes on to `place_bracket` with an approval of the gate, and otherwise returns a rejection. -/
theorem submitStart_cases (e : RiskEngine) (order : SizedOrder) (ctx : RiskContext) (cycleId : String)
    (wired : Bool) (now : Now) :
    (e.submitStart order ctx cycleId wired now).1.cfg = e.cfg ∧
      ((∃ verdict, (e.submitStart order ctx cycleId wired now).2 = .error verdict ∧
          verdict.approved = false) ∨
        ∃ verdict, (e.submitStart order ctx cycleId wired now).2 = .ok verdict ∧
          verdict.approved = true ∧ Passed e order ctx now) := by
  unfold submitStart
  dsimp only
  by_cases happroved : (e.evaluate order ctx now).1.approved = true
  · rw [if_neg (by simp [happroved])]
    split_ifs
    · exact ⟨cfg_evaluate, Or.inl ⟨_, rfl, rfl⟩⟩
    · exact ⟨cfg_evaluate, Or.inr ⟨_, rfl, happroved, approved_evaluate.mp happroved⟩⟩
    · exact ⟨cfg_evaluate, Or.inl ⟨_, rfl, rfl⟩⟩
  · rw [if_pos (by simp [happroved])]
    exact ⟨cfg_evaluate, Or.inl ⟨_, rfl, by simpa using happroved⟩⟩

theorem Passed.submitStart (h : Passed e order ctx now) (cycleId : String) :
    ∃ verdict, verdict.approved = true ∧ (e.submitStart order ctx cycleId true now).2 = .ok verdict := by
  have happroved := approved_evaluate.mpr h
  refine ⟨(e.evaluate order ctx now).1, happroved, ?_⟩
  have hswitch : (((e.evaluate order ctx now).2.persist cycleId order (e.evaluate order ctx now).1).lookSwitch
      now).killSwitch.isTripped = false := by
    refine (KillSwitch.isTripped_look _ now).trans ?_
    show (e.evaluate order ctx now).2.killSwitch.isTripped = false
    rw [evaluate_snd]
    exact (KillSwitch.isTripped_look _ now).trans h.not_tripped
  unfold RiskEngine.submitStart
  dsimp only
  rw [if_neg (by simp [happroved]), hswitch, if_neg Bool.false_ne_true, if_pos rfl]

@[simp] theorem isTripped_submitStart (e : RiskEngine) (order : SizedOrder) (ctx : RiskContext)
    (cycleId : String) (wired : Bool) (now : Now) :
    (e.submitStart order ctx cycleId wired now).1.killSwitch.isTripped = e.killSwitch.isTripped := by
  have hevaluate : (e.evaluate order ctx now).2.killSwitch.isTripped = e.killSwitch.isTripped := by
    rw [evaluate_snd]
    exact e.killSwitch.isTripped_look now
  unfold submitStart
  dsimp only
  split_ifs
  · exact hevaluate
  · exact (KillSwitch.isTripped_look _ now).trans hevaluate
  · exact (KillSwitch.isTripped_look _ now).trans hevaluate
  · exact (KillSwitch.isTripped_look _ now).trans hevaluate

theorem orderTimes_submitStart (e : RiskEngine) (order : SizedOrder) (ctx : RiskContext) (cycleId : String)
    (wired : Bool) (now : Now) :
    (e.submitStart order ctx cycleId wired now).1.orderTimes = recentOrders now e.orderTimes := by
  have hevaluate : (e.evaluate order ctx now).2.orderTimes = recentOrders now e.orderTimes := by
    rw [evaluate_snd]
    rfl
  unfold submitStart
  dsimp only
  split_ifs <;> exact hevaluate

theorem dailyLossTripped_submitStart (e : RiskEngine) (order : SizedOrder) (ctx : RiskContext) (cycleId : String)
    (wired : Bool) (now : Now) : (e.submitStart order ctx cycleId wired now).1.dailyLossTripped =
      (e.dailyLossTripped || breaches e.cfg ctx.account ctx.startingEquity) := by
  have hevaluate : (e.evaluate order ctx now).2.dailyLossTripped =
      (e.dailyLossTripped || breaches e.cfg ctx.account ctx.startingEquity) := by
    rw [evaluate_snd]
    rfl
  unfold submitStart
  dsimp only
  split_ifs <;> exact hevaluate

theorem dailyLossTripped_submitFinish (verdict : RiskVerdict) (placement : Except String Unit) :
    (e.submitFinish order verdict placement now).1.dailyLossTripped = e.dailyLossTripped := by
  cases placement <;> rfl

@[simp] theorem isTripped_submitFinish (verdict : RiskVerdict) (placement : Except String Unit) :
    (e.submitFinish order verdict placement now).1.killSwitch.isTripped = e.killSwitch.isTripped := by
  cases placement <;> rfl

@[simp] theorem cfg_submitFinish (verdict : RiskVerdict) (placement : Except String Unit) :
    (e.submitFinish order verdict placement now).1.cfg = e.cfg := by
  cases placement <;> rfl

end RiskEngine

end AiTrader
