import AiTrader.Engine.Rollover

/-!
# Orders and the gateway

Every call of `place_bracket` is to find the gateway tradeable. `_maybe_run_cycle` tests it before the cycle
and never again, and `approve_proposal` does not test it, nor does `submit`.

`Gated` is the condition on the submissions: a cycle submits only if nothing has cut the gateway since the
cycle began, and an entry is approved by a person only while the gateway is tradeable.

Nothing but the gateway's own steps changes whether it is tradeable, and the history notes when it is cut during a
cycle. So from the test of `_maybe_run_cycle` on, the gateway is tradeable at a submission of the cycle exactly as
long as nothing has cut it; the invariant (`GateInv`) keeps this for the place where the decision loop is suspended.
An approved entry has no such test behind it, and the condition speaks of the moment of the click.
-/

namespace AiTrader

open Lib

namespace TradingEngine

/-- The law. -/
def PlacedTradeable (s : TradingEngine) : Prop :=
  ∀ a ∈ s.history.attempts, a.placed = true → a.tradeable = true

instance : DecidablePred PlacedTradeable := fun s =>
  inferInstanceAs (Decidable (∀ a ∈ s.history.attempts, a.placed = true → a.tradeable = true))

/-- The condition on the steps. -/
def Gated (s : TradingEngine) : Event → Bool
  | .proposed _ _ _ _ => match s.decision with
    | .cycle _ _ (.deciding _) => decide (s.app.executionMode = .manual) || !s.history.interrupted
    | _ => true
  | .clicked id _ _ => match s.app.pendingApprovals.find? fun p => p.id = id with
    | some approval => decide (approval.kind ≠ .entry) || s.gateway.isTradeable
    | none => true
  | _ => true

/-- What holds between two steps. -/
structure GateInv (s : TradingEngine) : Prop where
  notReady : s.gateway.NotReady
  cycle : s.decision.inCycle = true → s.history.interrupted = false → s.gateway.isTradeable = true
  law : s.PlacedTradeable

variable {s s' : TradingEngine}

theorem GateInv.elsewhere (h : s.GateInv) (hgateway : s'.gateway = s.gateway)
    (hattempts : s'.history.attempts = s.history.attempts)
    (hinterrupted : s'.history.interrupted = s.history.interrupted)
    (hcycle : s'.decision.inCycle = true → s.decision.inCycle = true) : s'.GateInv := by
  refine ⟨?_, ?_, ?_⟩
  · rw [hgateway]
    exact h.notReady
  · rw [hgateway, hinterrupted]
    exact fun hin => h.cycle (hcycle hin)
  · rw [PlacedTradeable, hattempts]
    exact h.law

theorem GateInv.calm (h : s.GateInv) (hcalm : Calm s s') : s'.GateInv := by
  refine h.elsewhere hcalm.gateway (hcalm.same History.attempts fun _ _ => rfl)
    (hcalm.same History.interrupted fun _ _ => rfl) fun hin => ?_
  cases hdecision : s'.decision with
  | cycle day session suspended =>
    obtain ⟨before, hbefore⟩ := hcalm.cycle day session suspended hdecision
    rw [hbefore]
    rfl
  | idle => rw [hdecision] at hin; cases hin
  | premarket suspended => rw [hdecision] at hin; cases hin

theorem GateInv.gateway (h : s.GateInv) (e : Gateway.Event) : (s.act (.gateway e)).GateInv where
  notReady := h.notReady.step e
  cycle := by
    intro hin hcalm
    obtain ⟨hbefore, hcut⟩ := Bool.or_eq_false_iff.mp hcalm
    exact Gateway.isTradeable_step h.notReady (h.cycle hin hbefore) hcut
  law := h.law

theorem GateInv.submitted (h : s.GateInv) {order : SizedOrder} {ctx : RiskContext} {cycleId : String}
    (htradeable : s.gateway.isTradeable = true) : (s.submit order ctx cycleId).1.GateInv := by
  obtain ⟨placed, risk, orders, heq, _, _⟩ := s.submit_cases order ctx cycleId
  rw [heq]
  refine ⟨h.notReady, h.cycle, fun a ha hplaced => ?_⟩
  rcases List.mem_append.mp ha with ha | ha
  · exact h.law a ha hplaced
  · rw [List.mem_singleton.mp ha]
    exact htradeable

theorem GateInv.noteVerdict (h : s.GateInv) (symbol : String) (verdict : RiskVerdict) :
    (s.noteVerdict symbol verdict).GateInv := by
  rcases s.noteVerdict_cases symbol verdict with ⟨_, heq⟩ | ⟨_, heq⟩
  · rw [heq]
    exact h
  · rw [heq]
    exact h.elsewhere rfl rfl rfl id

theorem GateInv.finishEntry (h : s.GateInv) (entry : Submission)
    (reply : Except String (List BrokerOrderStatus)) : (s.finishEntry entry reply).GateInv := by
  obtain ⟨risk, orders, verdict, _, heq⟩ := s.finishEntry_cases entry reply
  rw [heq]
  have hmoved : GateInv { s with orders, risk } := h.elsewhere rfl rfl rfl id
  exact hmoved.noteVerdict entry.symbol verdict

theorem GateInv.proposed (h : s.GateInv) {order : SizedOrder} {i : EntryInputs}
    {cycleId approvalId : String} (hgated : s.Gated (.proposed order i cycleId approvalId) = true) :
    (s.proposed order i cycleId approvalId).GateInv := by
  unfold TradingEngine.proposed
  split
  · rename_i day session account hdecision
    split_ifs with hmanual
    · exact h.elsewhere rfl rfl rfl id
    · have hcalm : s.history.interrupted = false := by
        simpa [Gated, hdecision, hmanual] using hgated
      have hin : s.decision.inCycle = true := by rw [hdecision]; rfl
      have hsubmitted : (s.submit order (s.context account session i) cycleId).1.GateInv :=
        h.submitted (h.cycle hin hcalm)
      dsimp only
      split
      · exact hsubmitted.noteVerdict order.symbol _
      · refine hsubmitted.elsewhere rfl rfl rfl fun _ => ?_
        rw [decision_submit]
        exact hin
  · exact h

theorem GateInv.clicked (h : s.GateInv) {id : String} {resized : Option SizedOrder} {i : EntryInputs}
    (hgated : s.Gated (.clicked id resized i) = true) : (s.clicked id resized i).GateInv := by
  unfold TradingEngine.clicked
  cases hfind : s.app.pendingApprovals.find? fun p => p.id = id with
  | none => exact h
  | some approval =>
    have hremoved : GateInv { s with
        app := { s.app with pendingApprovals := s.app.pendingApprovals.erase approval } } :=
      h.elsewhere rfl rfl rfl fun hin => hin
    dsimp only
    split
    · rename_i hkind _ _
      have htradeable : s.gateway.isTradeable = true := by
        simpa [Gated, hfind, hkind] using hgated
      split
      · exact (hremoved.submitted htradeable).noteVerdict approval.symbol _
      · exact (hremoved.submitted htradeable).elsewhere rfl rfl rfl fun hin => hin
    · exact hremoved

theorem GateInv.decisionTick (h : s.GateInv) (deterministicOnly : Bool) :
    (s.decisionTick deterministicOnly).GateInv := by
  unfold TradingEngine.decisionTick
  dsimp only
  split_ifs with hclosed
  · exact h
  · exact h.elsewhere rfl rfl rfl id
  · exact h.elsewhere rfl rfl rfl fun hin => nomatch hin
  · exact h.elsewhere rfl rfl rfl id
  · simp only [Bool.or_eq_true, Bool.not_eq_true', not_or, Bool.not_eq_false] at hclosed
    exact ⟨h.notReady, fun _ _ => hclosed.2, h.law⟩

theorem GateInv.planFetched (h : s.GateInv) (loop : PlanningLoop) (reply : Except String AccountSnapshot) :
    (s.planFetched loop reply).GateInv := by
  unfold TradingEngine.planFetched
  split_ifs
  · cases reply with
    | ok account =>
      have hreset : ((s.resetForNewSession account).notePlan account).GateInv := h.elsewhere rfl rfl rfl fun hin => hin
      exact hreset.calm (calm_suspendIn _ loop .planning)
    | error error => exact h.calm (calm_rest s loop)
  · exact h

theorem GateInv.cyclePlaced (h : s.GateInv) (reply : Except String (List BrokerOrderStatus)) :
    (s.cyclePlaced reply).GateInv := by
  unfold TradingEngine.cyclePlaced
  split
  · rename_i day session account entry hdecision
    have hin : s.decision.inCycle = true := by rw [hdecision]; rfl
    have hback : GateInv { s with decision := .cycle day session (.deciding account) } :=
      h.elsewhere rfl rfl rfl fun _ => hin
    exact hback.finishEntry entry reply
  · exact h

theorem GateInv.act (h : s.GateInv) (e : Event) (hgated : s.Gated e = true) : (s.act e).GateInv := by
  cases e with
  | gateway e => exact h.gateway e
  | scheduleTicked =>
    unfold TradingEngine.act TradingEngine.scheduleTick
    dsimp only
    split_ifs <;> exact h.elsewhere rfl rfl rfl id
  | planFetched loop reply => exact h.planFetched loop reply
  | planned loop ok =>
    show (s.planned loop ok).GateInv
    unfold TradingEngine.planned
    split_ifs
    · refine GateInv.calm ?_ (calm_rest _ loop)
      exact h.elsewhere rfl rfl rfl id
    · exact h
  | eodReviewed ok =>
    show (s.eodReviewed ok).GateInv
    unfold TradingEngine.eodReviewed
    split
    · split_ifs <;> exact h.elsewhere rfl rfl rfl id
    · exact h
  | decisionTicked deterministicOnly =>
    unfold TradingEngine.act
    dsimp only
    split
    · exact h.decisionTick deterministicOnly
    · exact h
  | proposed order i cycleId approvalId => exact h.proposed hgated
  | cyclePlaced reply => exact h.cyclePlaced reply
  | closeProposed symbol p cycleId approvalId =>
    show (s.closeProposed symbol p cycleId approvalId).GateInv
    unfold TradingEngine.closeProposed
    split
    · exact h.elsewhere rfl rfl rfl id
    · exact h
  | clicked id resized i => exact h.clicked hgated
  | approvalPlaced i reply =>
    show (s.approvalPlaced i reply).GateInv
    unfold TradingEngine.approvalPlaced
    split
    · have hback : GateInv { s with approvals := s.approvals.eraseIdx i } :=
        h.elsewhere rfl rfl rfl fun hin => hin
      exact hback.finishEntry _ reply
    · exact h
  | _ => exact h.calm (calm_act s rfl)

theorem GateInv.restarted (h : s.GateInv) (orders : OrderManager) (accountId : String)
    (reply : Except String AccountSnapshot) : (s.restarted orders accountId reply).GateInv := by
  have hstop : s.stop.GateInv := h.calm (calm_stop s)
  unfold TradingEngine.restarted
  split
  · exact hstop
  · dsimp only
    split
    · exact hstop
    · exact ⟨fun hin => (nomatch hin), fun hin => (nomatch hin), h.law⟩

theorem GateInv.step (h : s.GateInv) (e : Event) (hgated : s.Gated e = true) : (s.step e).GateInv :=
  step_cases h (fun _ _ _ => h.elsewhere rfl rfl rfl fun hin => hin)
    (fun orders accountId reply _ => h.restarted orders accountId reply) (h.act e hgated)

/-- **No order is sent while the gateway is not tradeable** in every run whose submissions meet the
condition. -/
theorem placed_while_tradeable (cfg : StrategyConfig) (isLive : Bool) (calendar : MarketCalendar)
    (now : Now) (killSwitch : KillSwitch) (store : StateStore) (positions : Dict String Position)
    (events : List Event)
    (hgated : Trace.Each step (fun s e => s.Gated e = true)
      (off cfg isLive calendar now killSwitch store positions) events) :
    Trace.Always step PlacedTradeable (off cfg isLive calendar now killSwitch store positions) events := by
  have hstep : ∀ s e, GateInv s → s.Gated e = true → GateInv (s.step e) :=
    fun _ e h hgated => h.step e hgated
  have hoff : (off cfg isLive calendar now killSwitch store positions).GateInv :=
    ⟨fun hin => (nomatch hin), fun hin => (nomatch hin), fun _ ha => (nomatch ha)⟩
  exact Trace.always_of_inductive hstep (fun _ h => h.law) hoff hgated

/-! ### A cut gateway -/

/-- Started before the open, with the planning pass, and then a cycle up to its first proposal. -/
def morningCycle : List Event :=
  .restarted {} "DU1" (.ok (accountAt (clock 0 45000) 100000)) :: planningPass (clock 0 45000) ++
    [.advanced (clock 0 56000), .decisionTicked false,
      .cycleFetched (.ok (accountAt (clock 0 56000) 100000))]

/-- Before the first start of day 0. -/
def beforeStart : TradingEngine := off {} false dailySessions (clock 0 45000) {} {} Dict.empty

def propose (symbol : String) : Event :=
  .proposed (smallEntry symbol) (entryInputs symbol (clock 0 56000)) "c1" "a1"

theorem placed_while_tradeable_morning :
    Trace.Always step PlacedTradeable beforeStart (morningCycle ++ [propose "AAPL"]) :=
  placed_while_tradeable {} false dailySessions (clock 0 45000) {} {} Dict.empty _ (by decide +kernel)

def droppedAttempt : Attempt where
  day := 0
  isTradingDay := true
  startingEquity := 100000
  tradesToday := 0
  dailyLossTripped := false
  reset := some { day := 0, equity := 100000, before := 0 }
  approved := 0
  tradeable := false
  placed := true

/-- The socket drops while the models of the cycle think: the entry they come back with is sent. -/
theorem placed_on_dropped_gateway :
    (Trace.run step beforeStart
        (morningCycle ++ [.gateway .dropped, propose "AAPL"])).history.attempts.getLast? =
      some droppedAttempt ∧
      ¬ Trace.Always step PlacedTradeable beforeStart
        (morningCycle ++ [.gateway .dropped, propose "AAPL"]) := by
  have hlast : (Trace.run step beforeStart
      (morningCycle ++ [.gateway .dropped, propose "AAPL"])).history.attempts.getLast? =
      some droppedAttempt := by
    decide +kernel
  refine ⟨hlast, fun h => ?_⟩
  have htradeable := h.last _ (List.mem_of_getLast? hlast) rfl
  cases htradeable

end TradingEngine

end AiTrader
