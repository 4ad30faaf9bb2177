import AiTrader.Engine.Calendar
import AiTrader.Engine.Execute
import AiTrader.Engine.Rollover
import AiTrader.Risk.Gate

/-!
# The no-entry cutoff

`_maybe_run_cycle` reads the calendar once and hands the reading to `DecisionCycle.run`. The account fetch, the
model call and the officer's reviews come after it, and then checks 3 and 4 of the gate look at the reading.
Only the ages of the account snapshot and of the decision (checks 5 and 6) bound what has passed since.

`cutoff_at_placement_iff` says for which times of these steps every entry of a cycle is placed before the cutoff,
whatever the decision is.

One direction is arithmetic over the times of a cycle: a bracket is sent in the turn of its proposal, the gate has
compared the calendar's reading with the window, and the two ages bound how long ago that was. For the other, a cycle
is built that sends a bracket at any moment the ages allow: a quiet account and market in which an order of every
symbol passes the gate (`passed_quiet`), with proposals without features in front of it that are turned down without a
call (`placedFrom_unlisted`).
-/

namespace AiTrader

open Lib RiskEngine

namespace MarketCalendar

variable (c : MarketCalendar) (cutoff : ℤ) (now : ℚ)

/-- An entry may be placed: the phase is tradeable, and there are more than `cutoff` minutes to the close. -/
def InTime : Prop :=
  (c.info now).phase.isTradeable = true ∧ ∀ minutes ∈ (c.info now).minutesToClose, (cutoff : ℚ) < minutes

/-- From the open of a session until `cutoff` minutes before its close. -/
def EntryWindow : Prop := ∃ bounds ∈ c.sessionBounds (c.etDate now), bounds.1 ≤ now ∧ now < bounds.2 - 60 * cutoff

instance : Decidable (c.EntryWindow cutoff now) :=
  match h : c.sessionBounds (c.etDate now) with
  | none => isFalse fun ⟨_, hmem, _⟩ => by simp [h] at hmem
  | some bounds => decidable_of_iff (bounds.1 ≤ now ∧ now < bounds.2 - 60 * cutoff) (by simp [EntryWindow, h])

variable {c cutoff now}

theorem inTime_iff (hcutoff : 0 ≤ cutoff) : c.InTime cutoff now ↔ c.EntryWindow cutoff now := by
  unfold InTime EntryWindow info
  cases c.sessionBounds (c.etDate now) with
  | none => simp [SessionPhase.isTradeable]
  | some bounds =>
    have hcutoff : (0 : ℚ) ≤ cutoff := by exact_mod_cast hcutoff
    simp only [Option.mem_def, Option.some.injEq, forall_eq', exists_eq_left', isTradeable_phaseOf]
    rw [lt_div_iff₀ (by norm_num)]
    constructor
    · rintro ⟨⟨hopen, -⟩, hearly⟩
      exact ⟨hopen, by linarith⟩
    · rintro ⟨hopen, hearly⟩
      exact ⟨⟨hopen, by linarith⟩, by linarith⟩

end MarketCalendar

/-! ### The entries of a cycle -/

def BrokerRequest.isBracket : BrokerRequest → Bool
  | .placeBracket _ _ _ => true
  | _ => false

namespace CycleWorld

variable (w : CycleWorld) (decision : CycleDecision)

/-- The proposal has the bracket of its entry placed. -/
def placesAt (t : Turn) (proposal : TradeProposal) (s : Executing) : Bool :=
  ((w.executeOne decision t proposal s).requests.drop s.requests.length).any BrokerRequest.isBracket

/-- The moments at which the proposals from the `i`-th on have theirs placed, as `executeFrom` goes through
them. -/
def placedFrom : ℕ → List TradeProposal → Executing → List Now
  | _, [], _ => []
  | i, proposal :: rest, s =>
    if s.raised.isSome then []
    else
      (if w.placesAt decision (w.turn i) proposal s then [(w.turn i).now] else []) ++
        placedFrom (i + 1) rest (w.executeOne decision (w.turn i) proposal s)

/-- The moments at which the entries of one `_execute` are placed. -/
def placed (desk : CloseDesk) (record : CycleRecord) : List Now :=
  w.placedFrom decision 0 decision.proposals { desk, record }

/-- The desk when the gate is asked: the officer has been asked before, where that is required. -/
def reviewed (t : Turn) (desk : CloseDesk) : CloseDesk :=
  if w.settings.strategy.risk.requireRiskOfficer then t.reviewing desk else desk

/-- What runs while the cycle waits leaves the limits. -/
def KeepsLimits : Prop := ∀ i desk, ∀ f ∈ [(w.turn i).reviewing, (w.turn i).sending], (f desk).risk.cfg = desk.risk.cfg

variable {w : CycleWorld} {decision : CycleDecision} {t : Turn} {proposal : TradeProposal} {s : Executing}

theorem countP_executeOne (t : Turn) (proposal : TradeProposal) (s : Executing) :
    (w.executeOne decision t proposal s).requests.countP BrokerRequest.isBracket =
      s.requests.countP BrokerRequest.isBracket + (w.placesAt decision t proposal s).toNat := by
  obtain ⟨sent, hsent, hcases⟩ := @requests_executeOne w decision t proposal s
  rw [placesAt, hsent, List.drop_left, List.countP_append]
  rcases hcases with rfl | ⟨entry, stop, target, rfl⟩ | ⟨exit, rfl⟩ <;> simp [BrokerRequest.isBracket]

theorem countP_executeFrom (i : ℕ) (ps : List TradeProposal) (s : Executing) :
    (w.executeFrom decision i ps s).requests.countP BrokerRequest.isBracket =
      s.requests.countP BrokerRequest.isBracket + (w.placedFrom decision i ps s).length := by
  induction ps generalizing i s with
  | nil => rfl
  | cons p ps ih =>
    rw [executeFrom, placedFrom]
    by_cases hraised : s.raised.isSome = true
    · rw [if_pos hraised, if_pos hraised]
      rfl
    · rw [if_neg hraised, if_neg hraised, ih, countP_executeOne, List.length_append, Nat.add_assoc]
      cases w.placesAt decision (w.turn i) p s <;> rfl

theorem length_placed (desk : CloseDesk) (record : CycleRecord) :
    (w.placed decision desk record).length =
      (w.execute decision desk record).requests.countP BrokerRequest.isBracket := by
  have hcount := @countP_executeFrom w decision 0 decision.proposals { desk, record }
  rw [List.countP_nil, Nat.zero_add] at hcount
  exact hcount.symm

theorem requests_submit (desk : CloseDesk) (sized : SizedOrder) (ctx : RiskContext) :
    ((s.submit w t desk sized ctx).requests.drop s.requests.length).any BrokerRequest.isBracket = true ↔
      desk.risk.Passed sized ctx t.now ∧ desk.orders.admits sized w.cycleId t.now = true := by
  have hplacing := desk.gate.placing_iff sized ctx w.cycleId t.now
  refine Iff.trans ?_ hplacing
  unfold Executing.submit
  dsimp only
  split
  · rename_i verdict hreturned
    rw [requests_judged, hreturned]
    simp
  · rename_i verdict hsubmit
    rw [requests_judged, hsubmit]
    simp [BrokerRequest.isBracket]

theorem placesAt_iff :
    w.placesAt decision t proposal s = true ↔
      proposal.action ≠ .close ∧ ¬ proposal.conviction < 55 / 100 ∧
        ∃ features ∈ w.features.get? proposal.symbol,
          ∃ sized ∈ sizeProposal proposal features w.account t.quote w.settings.strategy.risk
            w.settings.strategy.broker.limitOffsetPct,
          ∃ age, decision.ageSeconds t.now.epoch = .ok age ∧
            (w.reviewed t s.desk).app.executionMode ≠ .manual ∧
              (w.reviewed t s.desk).risk.Passed sized (w.context t (w.reviewed t s.desk) features age) t.now ∧
                (w.reviewed t s.desk).orders.admits sized w.cycleId t.now = true := by
  have hnothing : ∀ s' : Executing, s'.requests = s.requests →
      (s'.requests.drop s.requests.length).any BrokerRequest.isBracket = false := fun s' hsame => by
    rw [hsame, List.drop_length, List.any_nil]
  unfold placesAt executeOne
  by_cases hclose : proposal.action = .close
  · rw [if_pos hclose]
    rcases s.requests_close w t proposal.symbol with hnone | ⟨exit, hexit⟩
    · simp [hnothing _ hnone, hclose]
    · simp [hexit, hclose, BrokerRequest.isBracket]
  rw [if_neg hclose]
  cases hfeatures : w.features.get? proposal.symbol with
  | none => simp [hnothing (s.reject _ _ _) rfl]
  | some features =>
    dsimp only
    by_cases hconviction : proposal.conviction < 55 / 100
    · rw [if_pos hconviction]
      simp [hnothing (s.reject _ _ _) rfl, hconviction]
    rw [if_neg hconviction]
    cases hsized : sizeProposal proposal features w.account t.quote w.settings.strategy.risk
        w.settings.strategy.broker.limitOffsetPct with
    | none => simp [hnothing (s.reject _ _ _) rfl, hsized]
    | some sized =>
      dsimp only
      unfold Executing.enter
      dsimp only
      rw [← reviewed]
      cases hage : decision.ageSeconds t.now.epoch with
      | error exc => simp
      | ok age =>
        dsimp only
        by_cases hmanual : (w.reviewed t s.desk).app.executionMode = .manual
        · rw [if_pos hmanual]
          simp [hmanual]
        · rw [if_neg hmanual, requests_submit]
          simp [hclose, hconviction, hsized, hmanual]

/-! ### The limits through a cycle -/

theorem cfg_reviewed (hkept : w.KeepsLimits) (i : ℕ) (desk : CloseDesk) :
    (w.reviewed (w.turn i) desk).risk.cfg = desk.risk.cfg := by
  unfold reviewed
  split_ifs
  · exact hkept i desk _ List.mem_cons_self
  · rfl

theorem cfg_close (hkept : w.KeepsLimits) (i : ℕ) (s : Executing) (symbol : String) :
    (s.close w (w.turn i) symbol).desk.risk.cfg = s.desk.risk.cfg := by
  rcases s.close_limits w (w.turn i) symbol with ⟨-, hcfg⟩ | ⟨desk, ⟨-, hbefore⟩, -, hafter⟩
  · exact hcfg
  · exact hafter.trans ((hkept i desk _ (List.mem_cons_of_mem _ List.mem_cons_self)).trans hbefore)

theorem cfg_judged (symbol : String) (verdict : RiskVerdict) (now : Now) :
    (s.judged symbol verdict now).desk.risk.cfg = s.desk.risk.cfg := by
  unfold Executing.judged
  dsimp only
  split_ifs <;> rfl

theorem cfg_submit (hkept : w.KeepsLimits) (i : ℕ) (s : Executing) (desk : CloseDesk) (sized : SizedOrder)
    (ctx : RiskContext) : (s.submit w (w.turn i) desk sized ctx).desk.risk.cfg = desk.risk.cfg := by
  obtain ⟨hcfg, -⟩ := desk.gate.submit_cases sized ctx w.cycleId (w.turn i).now
  unfold Executing.submit
  dsimp only
  split
  · rw [cfg_judged]
    exact hcfg
  · rw [cfg_judged]
    refine (Desk.cfg_finish _ _ _ _).trans ?_
    exact (hkept i _ _ (List.mem_cons_of_mem _ List.mem_cons_self)).trans hcfg

theorem cfg_executeOne (hkept : w.KeepsLimits) (i : ℕ) (proposal : TradeProposal) (s : Executing) :
    (w.executeOne decision (w.turn i) proposal s).desk.risk.cfg = s.desk.risk.cfg := by
  unfold executeOne
  by_cases hclose : proposal.action = .close
  · rw [if_pos hclose, cfg_close hkept]
  rw [if_neg hclose]
  cases w.features.get? proposal.symbol with
  | none => rfl
  | some features =>
    dsimp only
    split_ifs
    · rfl
    · cases sizeProposal proposal features w.account (w.turn i).quote w.settings.strategy.risk
          w.settings.strategy.broker.limitOffsetPct with
      | none => rfl
      | some sized =>
        have hreviewed := cfg_reviewed hkept i s.desk
        dsimp only
        unfold Executing.enter
        rw [← reviewed]
        dsimp only
        cases decision.ageSeconds (w.turn i).now.epoch with
        | error exc => exact hreviewed
        | ok age =>
          dsimp only
          split_ifs
          · exact hreviewed
          · rw [cfg_submit hkept, hreviewed]

theorem exists_of_mem_placedFrom (hkept : w.KeepsLimits) {i : ℕ} {ps : List TradeProposal} {s : Executing}
    {now : Now} (h : now ∈ w.placedFrom decision i ps s) :
    ∃ j proposal s', now = (w.turn j).now ∧ s'.desk.risk.cfg = s.desk.risk.cfg ∧
      w.placesAt decision (w.turn j) proposal s' = true := by
  induction ps generalizing i s with
  | nil => cases h
  | cons p ps ih =>
    rw [placedFrom] at h
    by_cases hraised : s.raised.isSome = true
    · rw [if_pos hraised] at h
      cases h
    · rw [if_neg hraised] at h
      rcases List.mem_append.mp h with hnow | hlater
      · split_ifs at hnow with hplaces
        · exact ⟨i, p, s, List.mem_singleton.mp hnow, rfl, hplaces⟩
        · cases hnow
      · obtain ⟨j, proposal, s', hnow, hcfg, hplaces⟩ := ih hlater
        exact ⟨j, proposal, s', hnow, hcfg.trans (cfg_executeOne hkept i p s), hplaces⟩

end CycleWorld

/-! ### The times of a cycle -/

/-- The times of the steps that lead to an entry. -/
structure CycleTimes where
  calendar : MarketCalendar
  /-- When the calendar is read. -/
  began : ℚ
  /-- The time of the account snapshot. -/
  asOf : ℚ
  /-- The time that the decision gives for itself. -/
  decidedAt : Stamp
  /-- The clock at the gate, for the order of each proposal. -/
  gate : ℕ → Now

/-- Orders can be priced: the band has a price in whole cents. -/
def RiskConfig.Priced (cfg : RiskConfig) : Prop :=
  ∃ cents : ℤ, 0 < cents ∧ cfg.minPrice ≤ cents / 100 ∧ (cents / 100 : ℚ) ≤ cfg.maxPrice

namespace CycleTimes

variable (times : CycleTimes) (cfg : RiskConfig)

/-- A cycle with these times and limits, whatever else it meets. -/
structure Met (w : CycleWorld) (decision : CycleDecision) (desk : CloseDesk) : Prop where
  phase : w.phase = (times.calendar.info times.began).phase
  minutesToClose : w.minutesToClose = (times.calendar.info times.began).minutesToClose
  asOf : w.account.asOf = times.asOf
  decidedAt : decision.decidedAt = times.decidedAt
  gate : ∀ i, (w.turn i).now = times.gate i
  limits : w.settings.strategy.risk = cfg
  wired : desk.risk.cfg = cfg
  kept : w.KeepsLimits
  admissible : ∀ p ∈ decision.proposals, p.Admissible
  distinct : (decision.proposals.map TradeProposal.symbol).Nodup

/-- Every entry that such a cycle places is placed in time. -/
def PlacesInTime : Prop :=
  ∀ w decision desk record, times.Met cfg w decision desk →
    ∀ now ∈ w.placed decision desk record, times.calendar.InTime cfg.noEntryMinutesBeforeClose now.epoch

/-- At the gate of the `i`-th proposal the account snapshot and the decision are young enough. -/
def Young (i : ℕ) : Prop :=
  (times.gate i).epoch - times.asOf ≤ cfg.maxAccountAgeSeconds ∧
    ∃ stamp, times.decidedAt = .aware stamp ∧ (times.gate i).epoch - stamp ≤ cfg.maxDecisionAgeSeconds

def OpenAt (now : ℚ) : Prop := times.calendar.EntryWindow cfg.noEntryMinutesBeforeClose now

variable {times cfg} {raw : RiskConfig} {warnings : List String}

theorem inTime_iff_openAt (hcfg : raw.validate = .ok (cfg, warnings)) (now : ℚ) :
    times.calendar.InTime cfg.noEntryMinutesBeforeClose now ↔ times.OpenAt cfg now :=
  MarketCalendar.inTime_iff (RiskConfig.cutoff_of_validate hcfg)

theorem Met.of_placed {w : CycleWorld} {decision : CycleDecision} {desk : CloseDesk} {record : CycleRecord}
    (h : times.Met cfg w decision desk) (hcfg : raw.validate = .ok (cfg, warnings)) {now : Now}
    (hnow : now ∈ w.placed decision desk record) :
    cfg.Priced ∧ times.OpenAt cfg times.began ∧ ∃ i, now = times.gate i ∧ times.Young cfg i := by
  obtain ⟨i, p, s, rfl, hlimits, hplaces⟩ := CycleWorld.exists_of_mem_placedFrom h.kept hnow
  obtain ⟨-, -, features, -, sized, hsized, age, hage, -, hpassed, -⟩ := CycleWorld.placesAt_iff.mp hplaces
  have hgate : (w.reviewed (w.turn i) s.desk).risk.cfg = cfg :=
    (CycleWorld.cfg_reviewed h.kept i s.desk).trans (hlimits.trans h.wired)
  refine ⟨?_, ?_, i, h.gate i, ?_, ?_⟩
  · have hpos := hpassed.entryPrice_pos (by rw [hgate]; exact RiskConfig.accepted_of_validate hcfg)
    have hband := hpassed.inBand
    obtain ⟨isLong, prices, shares, -, rfl, -, -, -, -, -, -, -, rfl⟩ := sizeProposal_eq_some hsized
    rw [hgate] at hband
    have hcents : ∀ price, 0 < roundToTick price → cfg.minPrice ≤ roundToTick price →
        roundToTick price ≤ cfg.maxPrice → cfg.Priced := by
      intro price hpos hlow hhigh
      rw [roundToTick_eq] at hpos hlow hhigh
      refine ⟨Decimal.roundHalfEven (price * 100), ?_, hlow, hhigh⟩
      exact_mod_cast (div_pos_iff_of_pos_right (by norm_num : (0 : ℚ) < 100)).mp hpos
    exact hcents _ hpos hband.1 hband.2
  · refine (inTime_iff_openAt hcfg times.began).mp ⟨?_, fun minutes hminutes => ?_⟩
    · have hphase := failIf_eq_nil.mp hpassed.phase
      rw [← h.phase]
      simpa [CycleWorld.context] using hphase
    · have hcutoff := hpassed.cutoff
      have hread : (w.context (w.turn i) (w.reviewed (w.turn i) s.desk) features age).minutesToClose =
          some minutes := h.minutesToClose.trans hminutes
      rw [checkCutoff, hread, hgate] at hcutoff
      simpa using failIf_eq_nil.mp hcutoff
  · have haccount := failIf_eq_nil.mp hpassed.accountAge
    rw [hgate] at haccount
    rw [← h.gate i, ← h.asOf]
    exact not_lt.mp (of_decide_eq_false haccount)
  · have hdecision := failIf_eq_nil.mp hpassed.decisionAge
    rw [hgate] at hdecision
    have hyoung : age ≤ cfg.maxDecisionAgeSeconds := not_lt.mp (of_decide_eq_false hdecision)
    rw [← h.decidedAt, ← h.gate i]
    unfold CycleDecision.ageSeconds at hage
    split at hage
    · rename_i stamp hstamp
      refine ⟨stamp, hstamp, ?_⟩
      rwa [Except.ok.inj hage]
    · cases hage

/-! ### A cycle in which nothing else is wrong -/

def buy (symbol : String) : TradeProposal := { symbol, action := .buy, conviction := 1, horizonMinutes := 60 }

/-- Symbols without features. -/
def unlisted (k : ℕ) : String := String.ofList (List.replicate (k + 1) 'Z')

/-- The `i`-th proposal is the first whose symbol has features. -/
def latestBuy (times : CycleTimes) (i : ℕ) : CycleDecision where
  proposals := (List.range i).map (fun k => buy (unlisted k)) ++ [buy "AAPL"]
  decidedAt := times.decidedAt

/-- An account that pays for a share under every limit. -/
def amplyFunded (cfg : RiskConfig) (price asOf : ℚ) : AccountSnapshot where
  accountId := "DU1"
  equity := (price + 1) / cfg.maxRiskPerTradePct + price / cfg.maxPositionNotionalPct
  cash := 0
  buyingPower := price / (1 - cfg.buyingPowerReservePct)
  asOf

/-- AAPL trades at the price, the officer agrees, and nothing else runs. -/
def quietWorld (times : CycleTimes) (cfg : RiskConfig) (price : ℚ) : CycleWorld where
  settings := { secrets := {}, strategy := { risk := cfg, broker := { limitOffsetPct := 0 } } }
  account := amplyFunded cfg price times.asOf
  phase := (times.calendar.info times.began).phase
  minutesToClose := (times.calendar.info times.began).minutesToClose
  features := Dict.empty.set "AAPL" { price }
  cycleId := "c1"
  turn i :=
    { quote := some { symbol := "AAPL", last := some price, updatedAt := (times.gate i).epoch }
      critique := { approve := true }
      now := times.gate i
      later := times.gate i }

def quietDesk (cfg : RiskConfig) : CloseDesk where
  app := {}
  risk := { cfg, killSwitch := {} }
  orders := {}

theorem unlisted_ne (k : ℕ) : unlisted k ≠ "AAPL" := by
  intro h
  have hchars := congrArg String.toList h
  rw [unlisted, String.toList_ofList, List.replicate_succ] at hchars
  exact absurd (List.cons.inj hchars).1 (by decide)

theorem unlisted_injective : Function.Injective unlisted := by
  intro k l h
  have hchars := congrArg (fun s => s.toList.length) h
  simpa [unlisted] using hchars

theorem nodup_latestBuy (i : ℕ) : ((times.latestBuy i).proposals.map TradeProposal.symbol).Nodup := by
  have hsymbols : (times.latestBuy i).proposals.map TradeProposal.symbol =
      (List.range i).map unlisted ++ ["AAPL"] := by
    simp [latestBuy, buy]
  rw [hsymbols, List.nodup_append]
  refine ⟨List.nodup_range.map unlisted_injective, List.nodup_singleton _, fun symbol hmem other hother => ?_⟩
  obtain ⟨k, -, rfl⟩ := List.mem_map.mp hmem
  rw [List.mem_singleton.mp hother]
  exact unlisted_ne k

theorem met_quietWorld (times : CycleTimes) (cfg : RiskConfig) (price : ℚ) (i : ℕ) :
    times.Met cfg (times.quietWorld cfg price) (times.latestBuy i) (quietDesk cfg) where
  phase := rfl
  minutesToClose := rfl
  asOf := rfl
  decidedAt := rfl
  gate := fun _ => rfl
  limits := rfl
  wired := rfl
  kept := by
    intro i desk f hf
    have hid : f = id := by simpa [quietWorld] using hf
    rw [hid]
    rfl
  admissible := by
    have hbuy : ∀ symbol, (buy symbol).Admissible := fun symbol => by
      refine ⟨?_, ?_, ?_⟩ <;> norm_num [buy]
    intro p hp
    rcases List.mem_append.mp hp with hearlier | hlast
    · obtain ⟨k, -, rfl⟩ := List.mem_map.mp hearlier
      exact hbuy _
    · rw [List.mem_singleton.mp hlast]
      exact hbuy _
  distinct := nodup_latestBuy i

theorem prices_quiet {cents : ℤ} (hcents : 0 < cents) :
    let prices := Sizing.prices (buy "AAPL") { price := cents / 100 } (cents / 100) 0 true
    prices.entry = cents / 100 ∧ Sizing.isValid prices true = true ∧ 0 < |prices.entry - prices.stop| ∧
      |prices.entry - prices.stop| ≤ cents / 100 + 1 := by
  have hprice : (0 : ℚ) < cents / 100 := div_pos (by exact_mod_cast hcents) (by norm_num)
  have hentry : roundToTick (cents / 100 + cents / 100 * 0) = cents / 100 := by
    rw [mul_zero, add_zero, roundToTick_cents]
  have hdistance : 1 / 100 ≤ computeStopDistance (buy "AAPL") { price := cents / 100 } ∧
      computeStopDistance (buy "AAPL") { price := cents / 100 } ≤ cents / 100 + 1 / 100 := by
    refine ⟨le_max_right _ _, max_le (max_le ?_ ?_) ?_⟩
    · norm_num
      linarith
    · dsimp only
      linarith
    · linarith
  generalize hstop : computeStopDistance (buy "AAPL") { price := cents / 100 } = distance at hdistance
  have hnear := abs_le.mp (abs_roundToTick_sub_le (cents / 100 - distance))
  have hfar := abs_le.mp (abs_roundToTick_sub_le (cents / 100 + distance * 2))
  simp only [Sizing.prices, Sizing.isValid, if_true, hstop, hentry, decide_eq_true_eq]
  have hbelow : roundToTick (cents / 100 - distance) < cents / 100 := by linarith
  have habove : (cents / 100 : ℚ) < roundToTick (cents / 100 + distance * 2) := by linarith
  rw [abs_of_pos (sub_pos.mpr hbelow)]
  exact ⟨trivial, ⟨hbelow, habove⟩, sub_pos.mpr hbelow, by linarith⟩

theorem one_le_shares_quiet (hcfg : cfg.Accepted) {price distance : ℚ} (hprice : 0 < price)
    (hdistance : 0 < distance) (hnear : distance ≤ price + 1) (asOf : ℚ) :
    1 ≤ Sizing.shares (Sizing.riskBudget 1 (amplyFunded cfg price asOf).equity cfg) distance price { price }
      (amplyFunded cfg price asOf) cfg := by
  have hrisk := hcfg.maxRisk_pos
  have hnotional := hcfg.notional_pos
  have hreserve : 0 < 1 - cfg.buyingPowerReservePct := sub_pos.mpr hcfg.reserve_lt_one
  have hbudget : distance ≤ Sizing.riskBudget 1 (amplyFunded cfg price asOf).equity cfg := by
    have hpart : 0 ≤ price / cfg.maxPositionNotionalPct * cfg.maxRiskPerTradePct :=
      mul_nonneg (div_nonneg hprice.le hnotional.le) hrisk.le
    have hscalar : convictionScalar 1 = 1 := by norm_num [convictionScalar]
    refine hnear.trans (le_max_of_le_left ?_)
    rw [hscalar, mul_one, amplyFunded, add_mul, div_mul_cancel₀ _ hrisk.ne']
    exact le_add_of_nonneg_right hpart
  have hvalue : price ≤ Sizing.maxNotional (amplyFunded cfg price asOf) cfg := by
    have hpart : 0 ≤ (price + 1) / cfg.maxRiskPerTradePct * cfg.maxPositionNotionalPct :=
      mul_nonneg (div_nonneg (by linarith) hrisk.le) hnotional.le
    rw [Sizing.maxNotional, amplyFunded, add_mul, div_mul_cancel₀ _ hnotional.ne']
    exact le_add_of_nonneg_left hpart
  have hpower : price ≤ Sizing.usableBuyingPower (amplyFunded cfg price asOf) cfg := by
    rw [Sizing.usableBuyingPower, amplyFunded, div_mul_cancel₀ _ hreserve.ne']
  have haffords : ∀ budget, price ≤ budget → 1 ≤ Sizing.affordable budget price := fun budget hbudget => by
    rwa [Sizing.affordable, if_pos hprice, Int.le_floor, Int.cast_one, one_le_div hprice]
  have hfloor : 1 ≤ ⌊Sizing.riskBudget 1 (amplyFunded cfg price asOf).equity cfg / distance⌋ := by
    rwa [Int.le_floor, Int.cast_one, one_le_div hdistance]
  simp only [Sizing.shares, lt_self_iff_false, if_false]
  exact le_min (le_min hfloor (haffords _ hvalue)) (haffords _ hpower)

theorem exists_sized_quiet (hcfg : cfg.Accepted) {cents : ℤ} (hcents : 0 < cents) (i : ℕ) :
    ∃ sized, sizeProposal (buy "AAPL") { price := cents / 100 } (amplyFunded cfg (cents / 100) times.asOf)
        ((times.quietWorld cfg (cents / 100)).turn i).quote cfg 0 = some sized ∧
      sized.action = .buy ∧ sized.entryPrice = cents / 100 := by
  have hprice : (0 : ℚ) < cents / 100 := div_pos (by exact_mod_cast hcents) (by norm_num)
  obtain ⟨hentry, hvalid, hdistance, hnear⟩ := prices_quiet hcents
  have hbase : Sizing.basePrice { price := cents / 100 } ((times.quietWorld cfg (cents / 100)).turn i).quote =
      cents / 100 := by
    simp only [Sizing.basePrice, quietWorld, Quote.mid, truthy_some hprice.ne', Option.getD_some, ite_self]
  have hequity : 0 < (amplyFunded cfg (cents / 100) times.asOf).equity :=
    add_pos (div_pos (by linarith) hcfg.maxRisk_pos) (div_pos hprice hcfg.notional_pos)
  have hshares := one_le_shares_quiet hcfg hprice hdistance hnear times.asOf
  have hlong : decide ((buy "AAPL").action = .buy) = true := rfl
  unfold sizeProposal
  rw [if_neg (fun h => h.1 rfl), if_neg (not_le.mpr hequity)]
  dsimp only
  rw [hbase, if_neg (not_le.mpr hprice), hlong, hvalid, if_neg (by decide), if_neg (not_le.mpr hdistance),
    if_neg (not_lt.mpr (by rw [hentry] at hshares ⊢; exact hshares))]
  exact ⟨_, rfl, rfl, hentry⟩

theorem passed_quiet (hcfg : raw.validate = .ok (cfg, warnings)) {price : ℚ} (hprice : 0 < price)
    (hlow : cfg.minPrice ≤ price) (hhigh : price ≤ cfg.maxPrice)
    (hopen : times.OpenAt cfg times.began) {i : ℕ} (hyoung : times.Young cfg i) {sized : SizedOrder}
    (hsized : sizeProposal (buy "AAPL") { price } (amplyFunded cfg price times.asOf)
      ((times.quietWorld cfg price).turn i).quote cfg 0 = some sized)
    (haction : sized.action = .buy) (hentry : sized.entryPrice = price) :
    ∃ age, (times.latestBuy i).ageSeconds (times.gate i).epoch = .ok age ∧
      (quietDesk cfg).risk.Passed sized
        ((times.quietWorld cfg price).context ((times.quietWorld cfg price).turn i) (quietDesk cfg)
          { price } age) (times.gate i) := by
  have haccepted : cfg.Accepted := RiskConfig.accepted_of_validate hcfg
  have hbudgets := withinBudgets_of_sized haccepted hsized
  obtain ⟨_, _, _, -, -, -, -, hequity, -⟩ := sizeProposal_eq_some hsized
  obtain ⟨hphase, hminutes⟩ := (inTime_iff_openAt hcfg times.began).mpr hopen
  obtain ⟨haccount, stamp, hstamp, hdecision⟩ := hyoung
  have horder : ¬ Refused cfg sized := by
    rw [Refused, hentry]
    rintro (hquantity | hpos | hbelow | habove)
    · exact absurd hbudgets.quantity (not_le.mpr hquantity)
    · exact absurd hprice (not_lt.mpr hpos)
    · exact absurd hlow (not_le.mpr hbelow)
    · exact absurd hhigh (not_le.mpr habove)
  have hunopposed : Unopposed sized Dict.empty := Or.inl ⟨by rw [haction]; decide, rfl⟩
  have hquiet := exists_approval haccepted horder hunopposed
  have hage : (times.latestBuy i).ageSeconds (times.gate i).epoch = .ok ((times.gate i).epoch - stamp) := by
    rw [CycleDecision.ageSeconds, show (times.latestBuy i).decidedAt = .aware stamp from hstamp]
  obtain ⟨hquantity, hrisk, hnotional, hpower⟩ := hbudgets.passes haccepted hequity
    (show ((times.quietWorld cfg price).context ((times.quietWorld cfg price).turn i) (quietDesk cfg)
      { price } ((times.gate i).epoch - stamp)).account = _ from rfl)
  refine ⟨_, hage, ?_⟩
  exact
    { killSwitch := rfl
      interlock := by
        have hpaper : (amplyFunded cfg price times.asOf).isPaper = true := by
          show ("DU".toList.isPrefixOf ("DU1".toList.map Char.toUpper) ||
            "DF".toList.isPrefixOf ("DU1".toList.map Char.toUpper)) = true
          decide
        simp [checkInterlock, failIf, CycleWorld.context, quietWorld, hpaper, Settings.isLive]
      phase := failIf_eq_nil.mpr (by simpa [CycleWorld.context, quietWorld] using hphase)
      cutoff := by
        unfold checkCutoff
        split
        · rfl
        · rename_i minutes hread
          exact failIf_eq_nil.mpr (decide_eq_false (not_le.mpr (hminutes minutes hread)))
      accountAge := failIf_eq_nil.mpr (decide_eq_false (not_lt.mpr haccount))
      decisionAge := failIf_eq_nil.mpr (decide_eq_false (not_lt.mpr hdecision))
      quote := by
        simpa [checkQuote, failIf_eq_nil, CycleWorld.context, quietWorld, Quote.isUsable, Quote.mid,
          Quote.spreadPct, Quote.spread, Quote.ageSeconds, quietDesk, hprice] using haccepted.quoteAge_pos.le
      quantity := hquantity
      collar := by
        have hmid : ((times.quietWorld cfg price).context ((times.quietWorld cfg price).turn i)
            (quietDesk cfg) { price } ((times.gate i).epoch - stamp)).quote.bind
              (fun q => truthy q.mid) = some price := truthy_some hprice.ne'
        rw [checkCollar, hmid, hentry]
        simpa [failIf_eq_nil, quietDesk] using haccepted.collar_pos.le
      priceBand := hquiet.priceBand
      volume := hquiet.volume
      tradeRisk := hrisk
      notional := hnotional
      buyingPower := hpower
      positions := hquiet.positions
      cycleEntries := hquiet.cycleEntries
      dailyLimit := by simp [checkDailyLimit, failIf_eq_nil, breaches, CycleWorld.context, quietDesk]
      tradeCap := hquiet.tradeCap
      orderRate := hquiet.orderRate
      duplicate := hquiet.duplicate
      cooldown := rfl
      flipFlop := rfl
      short := hquiet.short
      riskOfficer := by simp [checkRiskOfficer, failIf_eq_nil, CycleWorld.context, quietWorld] }

theorem placedFrom_unlisted {w : CycleWorld} {decision : CycleDecision} (ks : List ℕ)
    (hfeatures : ∀ k ∈ ks, w.features.get? (unlisted k) = none) (rest : List TradeProposal) (i : ℕ) (s : Executing)
    (hraised : s.raised = none) :
    ∃ record, w.placedFrom decision i (ks.map (fun k => buy (unlisted k)) ++ rest) s =
      w.placedFrom decision (i + ks.length) rest { s with record } := by
  induction ks generalizing i s with
  | nil => exact ⟨s.record, rfl⟩
  | cons k ks ih =>
    have hone : w.executeOne decision (w.turn i) (buy (unlisted k)) s =
        s.reject (unlisted k) "NO_FEATURES" "no data" := by
      have hopen : ¬ (buy (unlisted k)).action = .close := by simp [buy]
      have hmissing : w.features.get? (buy (unlisted k)).symbol = none := hfeatures k List.mem_cons_self
      rw [CycleWorld.executeOne, if_neg hopen, hmissing]
      rfl
    have hnothing : w.placesAt decision (w.turn i) (buy (unlisted k)) s = false := by
      rw [CycleWorld.placesAt, hone]
      show (s.requests.drop s.requests.length).any BrokerRequest.isBracket = false
      rw [List.drop_length, List.any_nil]
    obtain ⟨record, hrest⟩ := ih (fun l hl => hfeatures l (List.mem_cons_of_mem _ hl)) (i + 1)
      (s.reject (unlisted k) "NO_FEATURES" "no data") hraised
    refine ⟨record, ?_⟩
    rw [List.map_cons, List.cons_append, CycleWorld.placedFrom, if_neg (by simp [hraised]), hnothing,
      if_neg Bool.false_ne_true, hone, List.nil_append, hrest, List.length_cons, Nat.add_assoc, Nat.add_comm 1]
    rfl

theorem gate_mem_placed (hcfg : raw.validate = .ok (cfg, warnings)) {cents : ℤ} (hcents : 0 < cents)
    (hlow : cfg.minPrice ≤ cents / 100) (hhigh : (cents / 100 : ℚ) ≤ cfg.maxPrice)
    (hopen : times.OpenAt cfg times.began) {i : ℕ} (hyoung : times.Young cfg i) :
    times.gate i ∈ (times.quietWorld cfg (cents / 100)).placed (times.latestBuy i) (quietDesk cfg) {} := by
  have hprice : (0 : ℚ) < cents / 100 := div_pos (by exact_mod_cast hcents) (by norm_num)
  obtain ⟨sized, hsized, haction, hentry⟩ :=
    @exists_sized_quiet times cfg (RiskConfig.accepted_of_validate hcfg) cents hcents i
  obtain ⟨age, hage, hpassed⟩ := passed_quiet hcfg hprice hlow hhigh hopen hyoung hsized haction hentry
  have hunlisted : ∀ k ∈ List.range i, (times.quietWorld cfg (cents / 100)).features.get? (unlisted k) = none :=
    fun k _ => Dict.get?_set_ne _ _ (unlisted_ne k)
  obtain ⟨record, hplaced⟩ := @placedFrom_unlisted (times.quietWorld cfg (cents / 100)) (times.latestBuy i)
    (List.range i) hunlisted [buy "AAPL"] 0 { desk := quietDesk cfg } rfl
  have hreviewed : ∀ j, (times.quietWorld cfg (cents / 100)).reviewed
      ((times.quietWorld cfg (cents / 100)).turn j) (quietDesk cfg) = quietDesk cfg := fun j => by
    unfold CycleWorld.reviewed
    exact ite_self _
  have hplaces : (times.quietWorld cfg (cents / 100)).placesAt (times.latestBuy i)
      ((times.quietWorld cfg (cents / 100)).turn i) (buy "AAPL") { desk := quietDesk cfg, record } = true := by
    refine CycleWorld.placesAt_iff.mpr ⟨by decide, by norm_num [buy], { price := cents / 100 }, ?_, sized, hsized,
      age, hage, ?_⟩
    · exact Dict.get?_set_self _ _ _
    · rw [hreviewed]
      exact ⟨by simp [quietDesk], hpassed, rfl⟩
  rw [List.length_range, Nat.zero_add] at hplaced
  show times.gate i ∈ (times.quietWorld cfg (cents / 100)).placedFrom (times.latestBuy i) 0
    ((List.range i).map (fun k => buy (unlisted k)) ++ [buy "AAPL"]) { desk := quietDesk cfg }
  rw [hplaced, CycleWorld.placedFrom, if_neg (by simp), if_pos hplaces]
  exact List.mem_append_left _ (List.mem_singleton.mpr rfl)

/-- **When the cutoff holds at the moment of placement.** For every accepted configuration and all times of a
cycle's steps: every entry that such a cycle places, whatever its decision is and whatever else it meets, is placed
in a tradeable phase with more than `no_entry_minutes_before_close` minutes to the close, precisely if no price in
whole cents lies in the price band, or the calendar is read outside the entry window, or every moment lies inside it
at which a proposal comes to the gate while the account snapshot and the decision are young enough. -/
theorem cutoff_at_placement_iff (hcfg : raw.validate = .ok (cfg, warnings)) (times : CycleTimes) :
    times.PlacesInTime cfg ↔
      (cfg.Priced → times.OpenAt cfg times.began →
        ∀ i, times.Young cfg i → times.OpenAt cfg (times.gate i).epoch) := by
  constructor
  · rintro hplaces ⟨cents, hcents, hlow, hhigh⟩ hopen i hyoung
    have hplaced := gate_mem_placed hcfg hcents hlow hhigh hopen hyoung
    exact (inTime_iff_openAt hcfg _).mp
      (hplaces _ _ _ {} (times.met_quietWorld cfg (cents / 100) i) _ hplaced)
  · intro hopen w decision desk record hmet now hnow
    obtain ⟨hpriced, hbegan, i, rfl, hyoung⟩ := hmet.of_placed hcfg hnow
    exact (inTime_iff_openAt hcfg _).mpr (hopen hpriced hbegan i hyoung)

/-! #### A minute at the model -/

open TradingEngine (dailySessions clock)

/-- The account is fetched within a second, the model takes a minute, and the gate is asked a second later. -/
def minuteLong (began : ℚ) : CycleTimes where
  calendar := dailySessions
  began
  asOf := began + 1
  decidedAt := .aware (began + 61)
  gate _ := clock 0 (began + 62)

theorem cutoff_at_placement_iff_midday : (minuteLong 60000).PlacesInTime {} := by
  refine (cutoff_at_placement_iff validate_defaults (minuteLong 60000)).mpr fun _ _ i _ => ?_
  show dailySessions.EntryWindow 20 (clock 0 (60000 + 62)).epoch
  decide +kernel

/-- The calendar is read with twenty and a half minutes to the close. When the entry is placed there are less than
twenty. -/
theorem placed_after_cutoff :
    (minuteLong 74370).Met {} ((minuteLong 74370).quietWorld {} 100) ((minuteLong 74370).latestBuy 0) (quietDesk {}) ∧
      (((minuteLong 74370).quietWorld {} 100).placed ((minuteLong 74370).latestBuy 0) (quietDesk {}) {}).map
        Now.epoch = [74432] ∧
      (dailySessions.info 74432).minutesToClose = some (292 / 15) ∧
      ¬ ∀ (times : CycleTimes) (raw cfg : RiskConfig) (warnings : List String),
        raw.validate = .ok (cfg, warnings) → times.PlacesInTime cfg := by
  have hmet := (minuteLong 74370).met_quietWorld {} 100 0
  have hplaced : (((minuteLong 74370).quietWorld {} 100).placed ((minuteLong 74370).latestBuy 0) (quietDesk {})
      {}).map Now.epoch = [74432] := by decide +kernel
  have hminutes : (dailySessions.info 74432).minutesToClose = some (292 / 15) := by decide +kernel
  refine ⟨hmet, hplaced, hminutes, fun hall => ?_⟩
  obtain ⟨now, hnow, hepoch⟩ := List.mem_map.mp (by rw [hplaced]; exact List.mem_singleton.mpr rfl)
  obtain ⟨-, hearly⟩ := hall (minuteLong 74370) {} {} [] validate_defaults _ _ _ {} hmet now hnow
  rw [hepoch] at hearly
  exact absurd (hearly _ hminutes) (by norm_num)

end CycleTimes

end AiTrader
