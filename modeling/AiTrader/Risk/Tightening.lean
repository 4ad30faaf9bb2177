import AiTrader.Risk.Gate

/-!
# Two gates, one stricter

`Tightens` compares two configurations limit by limit, in everything the checks read. Each check compares with
its limit one way only, so a check that passes under the stricter configuration passes under the looser one, with
one exception. Check 14 multiplies the limit by the buying power: where that is negative, holding more of it
back leaves a cap that is higher, and an order record with a negative notional can then pass under the stricter
reserve alone. Checks 12 and 13 multiply by the equity, which a passed check 12 shows not to be negative.

`tightening_never_authorises` excludes the exception and no more.
-/

namespace AiTrader

open Lib

namespace RiskConfig

/-- The first configuration is at least as strict as the second, in every limit that the checks read. -/
structure Tightens (strict loose : RiskConfig) : Prop where
  maxRisk : strict.maxRiskPerTradePct ≤ loose.maxRiskPerTradePct
  notional : strict.maxPositionNotionalPct ≤ loose.maxPositionNotionalPct
  positions : strict.maxConcurrentPositions ≤ loose.maxConcurrentPositions
  cycleEntries : strict.maxNewEntriesPerCycle ≤ loose.maxNewEntriesPerCycle
  dailyLoss : strict.dailyLossLimitPct ≤ loose.dailyLossLimitPct
  trades : strict.maxTradesPerDay ≤ loose.maxTradesPerDay
  collar : strict.priceCollarPct ≤ loose.priceCollarPct
  spread : strict.maxSpreadPct ≤ loose.maxSpreadPct
  volume : loose.minAvgVolume ≤ strict.minAvgVolume
  minPrice : loose.minPrice ≤ strict.minPrice
  maxPrice : strict.maxPrice ≤ loose.maxPrice
  quoteAge : strict.maxQuoteAgeSeconds ≤ loose.maxQuoteAgeSeconds
  accountAge : strict.maxAccountAgeSeconds ≤ loose.maxAccountAgeSeconds
  decisionAge : strict.maxDecisionAgeSeconds ≤ loose.maxDecisionAgeSeconds
  reserve : loose.buyingPowerReservePct ≤ strict.buyingPowerReservePct
  cooldown : loose.symbolCooldownSeconds ≤ strict.symbolCooldownSeconds
  flipFlop : loose.flipFlopGuardSeconds ≤ strict.flipFlopGuardSeconds
  cutoff : loose.noEntryMinutesBeforeClose ≤ strict.noEntryMinutesBeforeClose
  orders : strict.maxOrdersPerMinute ≤ loose.maxOrdersPerMinute
  shorts : strict.allowShorts = true → loose.allowShorts = true
  officer : loose.requireRiskOfficer = true → strict.requireRiskOfficer = true

end RiskConfig

namespace RiskEngine

theorem failIf_mono {condition condition' : Bool} {reason reason' : RejectReason} {detail detail' : String}
    (h : condition = true → condition' = true) (hpass : failIf condition' reason' detail' = []) :
    failIf condition reason detail = [] := by
  rw [failIf_eq_nil] at hpass ⊢
  rw [← Bool.not_eq_true] at hpass ⊢
  exact mt h hpass

theorem failIf_decide_mono {p q : Prop} [Decidable p] [Decidable q] {reason reason' : RejectReason}
    {detail detail' : String} (h : p → q) (hpass : failIf (decide q) reason' detail' = []) :
    failIf (decide p) reason detail = [] :=
  failIf_mono (fun hp => decide_eq_true (h (of_decide_eq_true hp))) hpass

variable {e : RiskEngine} {order : SizedOrder} {ctx : RiskContext} {now : Now}

/-! ### The caps that are fractions -/

theorem Passed.equity_nonneg (h : Passed e order ctx now) (hcfg : e.cfg.Accepted) : 0 ≤ ctx.account.equity := by
  have hquantity : (0 : ℚ) ≤ order.quantity := by exact_mod_cast zero_le_one.trans h.quantity_pos
  have hrisk := (mul_nonneg hquantity (abs_nonneg (order.entryPrice - order.stopPrice))).trans h.risk_le
  by_contra hnegative
  have hcap := mul_neg_of_neg_of_pos (not_le.mp hnegative) hcfg.maxRisk_pos
  linarith

theorem cap_mono {equity strict loose amount : ℚ} (hequity : 0 ≤ equity) (h : strict ≤ loose)
    (hover : equity * loose * (102 / 100) < amount) : equity * strict * (102 / 100) < amount := by
  have hcap := mul_le_mul_of_nonneg_left h hequity
  linarith

theorem usable_mono {power strict loose notional : ℚ} (hstrict : strict < 1) (h : loose ≤ strict)
    (hsign : 0 ≤ notional ∨ 0 ≤ power) (hwithin : notional ≤ power * (1 - strict)) :
    notional ≤ power * (1 - loose) := by
  have hpower : 0 ≤ power := by
    rcases hsign with hnotional | hpower
    · by_contra hnegative
      have hless := mul_neg_of_neg_of_pos (not_le.mp hnegative) (sub_pos.mpr hstrict)
      linarith
    · exact hpower
  exact hwithin.trans (mul_le_mul_of_nonneg_left (by linarith) hpower)

/-! ### A looser configuration -/

section Loosen

variable {strict loose : RiskConfig} (htighter : strict.Tightens loose)
include htighter

theorem checkCutoff_loosen (h : checkCutoff strict ctx = []) : checkCutoff loose ctx = [] := by
  unfold checkCutoff at h ⊢
  cases hminutes : ctx.minutesToClose with
  | none => rfl
  | some minutes =>
    rw [hminutes] at h
    have hlimit : (loose.noEntryMinutesBeforeClose : ℚ) ≤ strict.noEntryMinutesBeforeClose := by
      exact_mod_cast htighter.cutoff
    exact failIf_decide_mono (fun hlate => hlate.trans hlimit) h

theorem checkQuote_loosen (h : checkQuote strict ctx now = []) : checkQuote loose ctx now = [] := by
  unfold checkQuote at h ⊢
  cases hquote : ctx.quote with
  | none =>
    rw [hquote] at h
    exact h
  | some q =>
    rw [hquote] at h
    obtain ⟨hfirst, hspread⟩ := List.append_eq_nil_iff.mp h
    obtain ⟨husable, hage⟩ := List.append_eq_nil_iff.mp hfirst
    refine List.append_eq_nil_iff.mpr ⟨List.append_eq_nil_iff.mpr ⟨husable, ?_⟩, ?_⟩
    · exact failIf_decide_mono htighter.quoteAge.trans_lt hage
    · cases hsp : q.spreadPct with
      | none => rfl
      | some sp =>
        rw [hsp] at hspread
        exact failIf_decide_mono htighter.spread.trans_lt hspread

theorem checkCollar_loosen (h : checkCollar strict order ctx = []) : checkCollar loose order ctx = [] := by
  unfold checkCollar at h ⊢
  cases hmid : ctx.quote.bind fun q => truthy q.mid with
  | none => rfl
  | some mid =>
    rw [hmid] at h
    exact failIf_decide_mono htighter.collar.trans_lt h

theorem checkPositions_loosen (h : checkPositions strict order ctx = []) : checkPositions loose order ctx = [] := by
  refine failIf_mono (fun hfull => ?_) h
  obtain ⟨hnew, hcount⟩ := Bool.and_eq_true_iff.mp hfull
  exact Bool.and_eq_true_iff.mpr ⟨hnew, decide_eq_true (htighter.positions.trans (of_decide_eq_true hcount))⟩

theorem checkCooldown_loosen (h : checkCooldown strict order ctx now = []) : checkCooldown loose order ctx now = [] := by
  unfold checkCooldown at h ⊢
  cases hlast : ctx.lastEntry.get? order.symbol with
  | none => rfl
  | some last =>
    rw [hlast] at h
    exact failIf_decide_mono (fun hrecent => hrecent.trans_le htighter.cooldown) h

theorem checkFlipFlop_loosen (h : checkFlipFlop strict order ctx now = []) : checkFlipFlop loose order ctx now = [] := by
  unfold checkFlipFlop at h ⊢
  cases hclosed : ctx.lastClose.get? order.symbol with
  | none => rfl
  | some closed =>
    rw [hclosed] at h
    exact failIf_decide_mono (fun hrecent => hrecent.trans_le htighter.flipFlop) h

theorem checkShort_loosen (h : checkShort strict order ctx = []) : checkShort loose order ctx = [] := by
  refine failIf_mono (fun hshort => ?_) h
  obtain ⟨hnaked, hoff⟩ := Bool.and_eq_true_iff.mp hshort
  refine Bool.and_eq_true_iff.mpr ⟨hnaked, ?_⟩
  rw [Bool.not_eq_true', ← Bool.not_eq_true] at hoff ⊢
  exact mt htighter.shorts hoff

theorem checkRiskOfficer_loosen (h : checkRiskOfficer strict ctx = []) : checkRiskOfficer loose ctx = [] := by
  refine failIf_mono (fun hveto => ?_) h
  obtain ⟨hrequired, hdeclined⟩ := Bool.and_eq_true_iff.mp hveto
  exact Bool.and_eq_true_iff.mpr ⟨htighter.officer hrequired, hdeclined⟩

theorem Passed.loosen (hcfg : strict.Accepted) (hsign : 0 ≤ order.notional ∨ 0 ≤ ctx.account.buyingPower)
    (h : Passed { e with cfg := strict } order ctx now) : Passed { e with cfg := loose } order ctx now where
  killSwitch := h.killSwitch
  interlock := h.interlock
  phase := h.phase
  cutoff := checkCutoff_loosen htighter h.cutoff
  accountAge := failIf_decide_mono htighter.accountAge.trans_lt h.accountAge
  decisionAge := failIf_decide_mono htighter.decisionAge.trans_lt h.decisionAge
  quote := checkQuote_loosen htighter h.quote
  quantity := h.quantity
  collar := checkCollar_loosen htighter h.collar
  priceBand := by
    have hband := h.inBand
    refine failIf_eq_nil.mpr ?_
    rw [decide_eq_true ⟨htighter.minPrice.trans hband.1, hband.2.trans htighter.maxPrice⟩, Bool.not_true]
  volume := failIf_decide_mono (And.imp_right fun hthin => hthin.trans_le htighter.volume) h.volume
  tradeRisk := failIf_decide_mono (cap_mono (h.equity_nonneg hcfg) htighter.maxRisk) h.tradeRisk
  notional := failIf_decide_mono (cap_mono (h.equity_nonneg hcfg) htighter.notional) h.notional
  buyingPower := by
    have hwithin := usable_mono hcfg.reserve_lt_one htighter.reserve hsign h.notional_le_buyingPower
    exact failIf_eq_nil.mpr (decide_eq_false (not_lt.mpr hwithin))
  positions := checkPositions_loosen htighter h.positions
  cycleEntries := failIf_decide_mono htighter.cycleEntries.trans h.cycleEntries
  dailyLimit := by
    have hlimit := neg_le_neg htighter.dailyLoss
    exact failIf_decide_mono (And.imp_right fun hloss => hloss.trans hlimit) h.dailyLimit
  tradeCap := failIf_decide_mono htighter.trades.trans h.tradeCap
  orderRate := by
    have hrate := h.rate_lt.trans_le htighter.orders
    refine failIf_eq_nil.mpr ?_
    rw [decide_eq_true hrate, Bool.not_true]
  duplicate := h.duplicate
  cooldown := checkCooldown_loosen htighter h.cooldown
  flipFlop := checkFlipFlop_loosen htighter h.flipFlop
  short := checkShort_loosen htighter h.short
  riskOfficer := checkRiskOfficer_loosen htighter h.riskOfficer

end Loosen

end RiskEngine

/-! ### A lighter context -/

/-- What a context counts and remembers of the session. -/
structure Tally where
  entriesThisCycle : ℤ
  tradesToday : ℤ
  workingSymbols : List String
  lastEntry : Dict String ℚ
  lastClose : Dict String ℚ

/-- The counters are lower, and what is remembered is left of the context's own. -/
structure Tally.Within (t : Tally) (ctx : RiskContext) : Prop where
  entries : t.entriesThisCycle ≤ ctx.entriesThisCycle
  trades : t.tradesToday ≤ ctx.tradesToday
  working : ∀ s ∈ t.workingSymbols, s ∈ ctx.workingSymbols
  lastEntry : ∀ s, ∀ last ∈ t.lastEntry.get? s, ctx.lastEntry.get? s = some last
  lastClose : ∀ s, ∀ closed ∈ t.lastClose.get? s, ctx.lastClose.get? s = some closed

def RiskContext.withTally (ctx : RiskContext) (t : Tally) : RiskContext :=
  { ctx with
    entriesThisCycle := t.entriesThisCycle
    tradesToday := t.tradesToday
    workingSymbols := t.workingSymbols
    lastEntry := t.lastEntry
    lastClose := t.lastClose }

namespace RiskEngine

variable {e : RiskEngine} {order : SizedOrder} {ctx : RiskContext} {now : Now}

theorem Passed.lighten {t : Tally} (ht : t.Within ctx) (h : Passed e order ctx now) :
    Passed e order (ctx.withTally t) now :=
  { h with
    cycleEntries := failIf_decide_mono (fun hfull => hfull.trans ht.entries) h.cycleEntries
    tradeCap := failIf_decide_mono (fun hfull => hfull.trans ht.trades) h.tradeCap
    duplicate := by
      obtain ⟨hworking, hheld⟩ := List.append_eq_nil_iff.mp h.duplicate
      exact List.append_eq_nil_iff.mpr ⟨failIf_decide_mono (ht.working order.symbol) hworking, hheld⟩
    cooldown := by
      have hcheck := h.cooldown
      unfold checkCooldown at hcheck ⊢
      cases hlast : (ctx.withTally t).lastEntry.get? order.symbol with
      | none => rfl
      | some last =>
        rw [ht.lastEntry _ last hlast] at hcheck
        exact hcheck
    flipFlop := by
      have hcheck := h.flipFlop
      unfold checkFlipFlop at hcheck ⊢
      cases hclosed : (ctx.withTally t).lastClose.get? order.symbol with
      | none => rfl
      | some closed =>
        rw [ht.lastClose _ closed hclosed] at hcheck
        exact hcheck }

theorem Passed.without_officer (h : Passed e order { ctx with riskOfficerApproved := true } now) :
    Passed { e with cfg := { e.cfg with requireRiskOfficer := false } } order ctx now :=
  { h with riskOfficer := rfl }

/-- **Tightening never authorises.** For every order, context, history and switch: what the gate approves under
the stricter of two configurations it approves under the looser, where the order's notional or the buying power
is not negative; with lower counters and with working symbols, entries or closes removed it still approves; and
what it approves on the officer's word it approves without asking the officer. -/
theorem tightening_never_authorises {raw strict : RiskConfig} {warnings : List String}
    (hstrict : raw.validate = .ok (strict, warnings)) {loose : RiskConfig} (htighter : strict.Tightens loose)
    (e : RiskEngine) (order : SizedOrder) (ctx : RiskContext) (now : Now) :
    (0 ≤ order.notional ∨ 0 ≤ ctx.account.buyingPower →
        (evaluate { e with cfg := strict } order ctx now).1.approved = true →
          (evaluate { e with cfg := loose } order ctx now).1.approved = true) ∧
      (∀ t : Tally, t.Within ctx → (e.evaluate order ctx now).1.approved = true →
        (e.evaluate order (ctx.withTally t) now).1.approved = true) ∧
      ((e.evaluate order { ctx with riskOfficerApproved := true } now).1.approved = true →
        (evaluate { e with cfg := { e.cfg with requireRiskOfficer := false } } order ctx now).1.approved = true) := by
  have haccepted : strict.Accepted := RiskConfig.accepted_of_validate hstrict
  refine ⟨fun hsign h => ?_, fun t ht h => ?_, fun h => ?_⟩
  · exact approved_evaluate.mpr (Passed.loosen htighter haccepted hsign (approved_evaluate.mp h))
  · exact approved_evaluate.mpr ((approved_evaluate.mp h).lighten ht)
  · exact approved_evaluate.mpr (approved_evaluate.mp h).without_officer

end RiskEngine

/-! #### A reserve of a half -/

open RiskEngine

def halfReserve : RiskConfig := { buyingPowerReservePct := 1 / 2 }

theorem validate_halfReserve : halfReserve.validate = .ok (halfReserve, []) := by decide +kernel

theorem tightens_halfReserve : halfReserve.Tightens {} := by
  constructor <;> decide +kernel

/-- A record that claims a notional of minus seventy dollars. -/
def owed : SizedOrder :=
  { understated with quantity := 1, stopPrice := 99, targetPrice := 102, notional := -70 }

/-- The account owes a hundred dollars of buying power. -/
def overdrawn : RiskContext :=
  { openMarket Dict.empty with account := { breakoutAccount with buyingPower := -100 } }

/-- Half of the debt is more than the record claims, four fifths of it are less. -/
theorem halfReserve_authorises :
    ¬ ∀ (rawStrict strict rawLoose loose : RiskConfig) (warnings warnings' : List String) (e : RiskEngine)
      (order : SizedOrder) (ctx : RiskContext) (now : Now), rawStrict.validate = .ok (strict, warnings) →
      rawLoose.validate = .ok (loose, warnings') → strict.Tightens loose →
      (evaluate { e with cfg := strict } order ctx now).1.approved = true →
        (evaluate { e with cfg := loose } order ctx now).1.approved = true := by
  intro h
  have hloose := h halfReserve halfReserve {} {} [] [] { cfg := {}, killSwitch := {} } owed overdrawn quietNow
    validate_halfReserve validate_defaults tightens_halfReserve (by decide +kernel)
  exact absurd hloose (by decide +kernel)

theorem tightening_understated :
    (evaluate { cfg := halfReserve, killSwitch := {} } understated (openMarket Dict.empty) quietNow).1.approved = true ∧
      (evaluate { cfg := {}, killSwitch := {} } understated (openMarket Dict.empty) quietNow).1.approved = true :=
  have happroved : (evaluate { cfg := halfReserve, killSwitch := {} } understated (openMarket Dict.empty)
    quietNow).1.approved = true := by decide +kernel
  ⟨happroved, (tightening_never_authorises validate_halfReserve tightens_halfReserve
    { cfg := {}, killSwitch := {} } understated (openMarket Dict.empty) quietNow).1
      (Or.inl (by decide +kernel)) happroved⟩

end AiTrader
