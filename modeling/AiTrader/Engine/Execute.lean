import AiTrader.Agents.Decision
import AiTrader.Engine.Closing
import AiTrader.Engine.Submission
import AiTrader.Risk.Sizing

/-!
# Carrying out a decision

`DecisionCycle._execute` goes through the proposals of a decision one by one: a CLOSE is handed to
`_handle_close`, an entry is sized, reviewed by the risk officer where that is required, and submitted to the
gate, or queued for a person in manual mode. Where it is suspended (in the review and in the calls on the
broker) the rest of the program runs on the same desk; what that does is an arbitrary function of the `Turn`, as
are the clock and the replies.

The laws about a decision are proved one proposal at a time. `executeOne_cases` and its relatives say what a proposal
can add: at most one request, one verdict, one count. What runs while a proposal is suspended is arbitrary, so a lemma
about the desk speaks of the desk the proposal finds, not of the one the decision began with; only what belongs to the
cycle alone, its record and its snapshot, is carried along.
-/

namespace AiTrader

open Lib

/-- The advisory second opinion. -/
structure RiskCritique where
  approve : Bool := false
  concerns : List String := []
  comment : String := ""

/-- `critique.comment or "; ".join(critique.concerns[:2])`. -/
def RiskCritique.summary (c : RiskCritique) : String :=
  orElseText c.comment ("; ".intercalate (c.concerns.take 2))

/-- What the cycle meets at one of its proposals. -/
structure Turn where
  quote : Option Quote := none
  critique : RiskCritique := {}
  /-- What runs while the officer is asked. -/
  reviewing : CloseDesk → CloseDesk := id
  /-- The clock at the gate. -/
  now : Now
  approvalId : String := ""
  exitQuote : Option Quote := none
  cancelled : ManagedOrder → CancelReply := fun _ => .sent
  /-- What runs while the broker is called. -/
  sending : CloseDesk → CloseDesk := id
  placed : Except String (List BrokerOrderStatus) := .ok []
  exited : Except String BrokerOrderStatus := .error ""
  /-- The clock at the broker's answer. -/
  later : Now

/-- What a cycle is run with. -/
structure CycleWorld where
  settings : Settings
  account : AccountSnapshot
  phase : SessionPhase
  minutesToClose : Option ℚ
  features : Dict String FeaturePack
  cycleId : String
  /-- The turns of the proposals, by their position. -/
  turn : ℕ → Turn

/-- An `_execute` between two proposals. -/
structure Executing where
  desk : CloseDesk
  record : CycleRecord := {}
  /-- The gate's verdicts so far. -/
  verdicts : List RiskVerdict := []
  /-- The decision ages the gate has been given. -/
  ages : List ℚ := []
  /-- What has been sent to the broker. -/
  requests : List BrokerRequest := []
  /-- The exception that has ended it. -/
  raised : Option String := none

namespace CloseDesk

/-- The gate and the order manager of the desk. -/
def gate (d : CloseDesk) : Desk := { risk := d.risk, orders := d.orders }

def withGate (d : CloseDesk) (gate : Desk) : CloseDesk := { d with risk := gate.risk, orders := gate.orders }

/-- The two desks have the same counter of the cycle and the same limits. -/
def SameLimits (d d' : CloseDesk) : Prop :=
  d'.app.entriesThisCycle = d.app.entriesThisCycle ∧ d'.risk.cfg = d.risk.cfg

end CloseDesk

namespace Executing

variable (s : Executing) (w : CycleWorld) (t : Turn)

def reject (symbol reason detail : String) : Executing :=
  { s with
    record := { s.record with
      rejected := s.record.rejected + 1
      rejections := s.record.rejections ++ [{ symbol, reason, detail }] } }

/-- What becomes of the verdict of a submission. -/
def judged (symbol : String) (verdict : RiskVerdict) (now : Now) : Executing :=
  let s := { s with verdicts := s.verdicts ++ [verdict] }
  if verdict.approved then
    { s with
      desk := { s.desk with app := s.desk.app.noteEntry symbol now }
      record := { s.record with approved := s.record.approved + 1 } }
  else s.reject symbol verdict.reasonText verdict.detail

/-- A CLOSE: `_handle_close`, with the `close_position` it calls. -/
def close (symbol : String) : Executing :=
  let verdicts := match w.account.openPositions.get? symbol with
    | none => []
    | some _ => [s.desk.risk.evaluateClose symbol t.quote w.phase s.desk.orders.workingSymbols t.now]
  let handled := s.desk.handleClose symbol w.account w.phase t.quote s.record w.cycleId t.approvalId t.now
  let s := { s with verdicts := s.verdicts ++ verdicts }
  match handled.call with
  | none => { s with desk := handled.desk, record := handled.record }
  | some call =>
    let closed := handled.desk.orders.closePosition call t.cancelled t.exitQuote t.now
    let cancels := closed.cancels.filterMap fun c => (truthy c.1.ibOrderId).map .cancelOrder
    let desk := t.sending { handled.desk with orders := closed.orders }
    let result : OrderManager × Except String Unit := match t.exited with
      | .ok status => (desk.orders.applyStatus status t.later, .ok ())
      | .error exc => (desk.orders, .error exc)
    let finished := { desk with orders := result.1 }.closeHandled symbol handled.record result.2 t.later
    { s with
      desk := finished.desk
      record := finished.record
      requests := s.requests ++ cancels ++ [.placeSingle closed.exit] }

theorem close_of_not_held {s : Executing} {w : CycleWorld} {t : Turn} {symbol : String}
    (h : w.account.openPositions.get? symbol = none) :
    s.close w t symbol =
      { s with
        record := { s.record with
          rejections := s.record.rejections ++
            [{ symbol, reason := "NO_POSITION", detail := "nothing to close" }] } } := by
  unfold close CloseDesk.handleClose
  rw [h]
  dsimp only
  rw [List.append_nil]

theorem requests_close (s : Executing) (w : CycleWorld) (t : Turn) (symbol : String) :
    (s.close w t symbol).requests = s.requests ∨
      ∃ exit, (s.close w t symbol).requests = s.requests ++ [.placeSingle exit] := by
  unfold close CloseDesk.handleClose
  cases hheld : w.account.openPositions.get? symbol with
  | none => exact Or.inl rfl
  | some position =>
    dsimp only
    by_cases happroved :
        (s.desk.risk.evaluateClose symbol t.quote w.phase s.desk.orders.workingSymbols t.now).approved = true
    · rw [happroved]
      by_cases hmanual : s.desk.app.executionMode = .manual
      · refine Or.inl ?_
        simp only [Bool.not_true, Bool.false_eq_true, if_false, if_pos hmanual]
      · have hadmits : s.desk.Admits symbol w.phase t.quote t.now := RiskEngine.approved_evaluateClose.mp happroved
        simp only [Bool.not_true, Bool.false_eq_true, if_false, if_neg hmanual, OrderManager.closePosition,
          CloseDesk.cancelSymbolOrders_of_admits hadmits, List.filterMap_nil, List.append_nil]
        exact Or.inr ⟨_, rfl⟩
    · refine Or.inl ?_
      simp only [happroved, Bool.not_false, if_true]

theorem close_limits (s : Executing) (w : CycleWorld) (t : Turn) (symbol : String) :
    s.desk.SameLimits (s.close w t symbol).desk ∨
      ∃ desk, s.desk.SameLimits desk ∧ (t.sending desk).SameLimits (s.close w t symbol).desk := by
  unfold close CloseDesk.handleClose
  cases w.account.openPositions.get? symbol with
  | none => exact Or.inl ⟨rfl, rfl⟩
  | some position =>
    dsimp only
    by_cases happroved :
        (s.desk.risk.evaluateClose symbol t.quote w.phase s.desk.orders.workingSymbols t.now).approved = true
    · by_cases hmanual : s.desk.app.executionMode = .manual
      · simp only [happroved, Bool.not_true, Bool.false_eq_true, if_false, if_pos hmanual]
        exact Or.inl ⟨rfl, rfl⟩
      · simp only [happroved, Bool.not_true, Bool.false_eq_true, if_false, if_neg hmanual]
        refine Or.inr ⟨{ s.desk with
          risk := s.desk.risk.lookSwitch t.now
          orders := (s.desk.orders.closePosition
            { symbol, quantity := position.quantity, isLong := position.isLong, reason := "model requested exit" }
            t.cancelled t.exitQuote t.now).orders }, ⟨rfl, rfl⟩, ?_⟩
        cases t.exited with
        | ok status => exact ⟨rfl, rfl⟩
        | error exc => exact ⟨rfl, rfl⟩
    · simp only [happroved, Bool.not_false, if_true]
      exact Or.inl ⟨rfl, rfl⟩

end Executing

/-- The `RiskContext` of an entry. -/
def CycleWorld.context (w : CycleWorld) (t : Turn) (desk : CloseDesk) (features : FeaturePack) (age : ℚ) :
    RiskContext :=
  let officer := w.settings.strategy.risk.requireRiskOfficer
  { account := w.account
    quote := t.quote
    phase := w.phase
    minutesToClose := w.minutesToClose
    isLive := w.settings.isLive
    startingEquity := desk.app.startingEquity
    entriesThisCycle := desk.app.entriesThisCycle
    tradesToday := desk.app.tradesToday
    workingSymbols := desk.orders.workingSymbols
    lastEntry := desk.app.lastEntry
    lastClose := desk.app.lastClose
    decisionAgeSeconds := age
    riskOfficerApproved := !officer || t.critique.approve
    riskOfficerComment := if officer then t.critique.summary else ""
    avgVolume := features.avgVolume }

namespace Executing

variable (s : Executing) (w : CycleWorld) (t : Turn)

/-- A sized entry at the gate. -/
def submit (desk : CloseDesk) (sized : SizedOrder) (ctx : RiskContext) : Executing :=
  let s := { s with ages := s.ages ++ [ctx.decisionAgeSeconds] }
  let out := desk.gate.submit sized ctx w.cycleId t.now
  let desk := desk.withGate out.1
  match out.2.2 with
  | .returned verdict =>
    let s : Executing := { s with desk }
    s.judged sized.symbol verdict t.now
  | .placing verdict =>
    let specs := OrderManager.bracketSpecs sized w.cycleId t.now
    let desk := t.sending desk
    let finished := desk.gate.finish { order := sized, verdict, symbol := sized.symbol } t.placed t.later
    let s : Executing := { s with
      desk := desk.withGate finished.1
      requests := s.requests ++ [.placeBracket specs.1 specs.2.1 specs.2.2] }
    s.judged sized.symbol finished.2 t.later

/-- A sized entry. The age of the decision is read, and may raise, in both modes. -/
def enter (decision : CycleDecision) (features : FeaturePack) (sized : SizedOrder) : Executing :=
  let desk := if w.settings.strategy.risk.requireRiskOfficer then t.reviewing s.desk else s.desk
  match decision.ageSeconds t.now.epoch with
  | .error exc => { s with desk, raised := some exc }
  | .ok age =>
    if desk.app.executionMode = .manual then
      { s with
        desk := { desk with
          app := { desk.app with
            pendingApprovals := desk.app.pendingApprovals ++ [{
              id := t.approvalId
              cycleId := w.cycleId
              kind := .entry
              symbol := sized.symbol
              action := sized.action
              sized := some sized
              createdAt := t.now.epoch }] } }
        record := { s.record with pending := s.record.pending + 1 } }
    else s.submit w t desk sized (w.context t desk features age)

end Executing

namespace CycleWorld

variable (w : CycleWorld) (decision : CycleDecision)

/-- One proposal. -/
def executeOne (t : Turn) (proposal : TradeProposal) (s : Executing) : Executing :=
  if proposal.action = .close then s.close w t proposal.symbol
  else match w.features.get? proposal.symbol with
    | none => s.reject proposal.symbol "NO_FEATURES" "no data"
    | some features =>
      if proposal.conviction < 55 / 100 then
        s.reject proposal.symbol "LOW_CONVICTION"
          ("conviction " ++ Decimal.fixed 2 proposal.conviction ++ " below 0.55")
      else
        match sizeProposal proposal features w.account t.quote w.settings.strategy.risk
          w.settings.strategy.broker.limitOffsetPct with
        | none =>
          s.reject proposal.symbol "UNSIZEABLE" "position size rounds to zero under current limits"
        | some sized => s.enter w t decision features sized

/-- The proposals from the `i`-th on, until one raises. -/
def executeFrom : ℕ → List TradeProposal → Executing → Executing
  | _, [], s => s
  | i, proposal :: rest, s =>
    if s.raised.isSome then s else executeFrom (i + 1) rest (w.executeOne decision (w.turn i) proposal s)

/-- `_execute`. -/
def execute (desk : CloseDesk) (record : CycleRecord) : Executing :=
  w.executeFrom decision 0 decision.proposals { desk, record }

/-! ### Going through the proposals -/

variable {w : CycleWorld} {decision : CycleDecision} {t : Turn} {proposal : TradeProposal} {s : Executing}

theorem executeFrom_of_raised (h : s.raised.isSome = true) (i : ℕ) (ps : List TradeProposal) :
    w.executeFrom decision i ps s = s := by
  cases ps with
  | nil => rfl
  | cons p ps => rw [executeFrom, if_pos h]

theorem executeFrom_cons (h : s.raised = none) (i : ℕ) (p : TradeProposal) (ps : List TradeProposal) :
    w.executeFrom decision i (p :: ps) s =
      w.executeFrom decision (i + 1) ps (w.executeOne decision (w.turn i) p s) := by
  rw [executeFrom, h, Option.isSome_none, if_neg Bool.false_ne_true]

theorem executeFrom_append (i : ℕ) (ps qs : List TradeProposal) (s : Executing) :
    w.executeFrom decision i (ps ++ qs) s =
      w.executeFrom decision (i + ps.length) qs (w.executeFrom decision i ps s) := by
  induction ps generalizing i s with
  | nil => rfl
  | cons p ps ih =>
    cases hraised : s.raised with
    | some exc =>
      have hsome : s.raised.isSome = true := by rw [hraised, Option.isSome_some]
      rw [executeFrom_of_raised hsome, executeFrom_of_raised hsome, executeFrom_of_raised hsome]
    | none =>
      rw [List.cons_append, executeFrom_cons hraised, executeFrom_cons hraised, ih, List.length_cons,
        Nat.add_right_comm, Nat.add_assoc]

theorem verdicts_judged (symbol : String) (verdict : RiskVerdict) (now : Now) :
    (s.judged symbol verdict now).verdicts = s.verdicts ++ [verdict] := by
  unfold Executing.judged
  dsimp only
  split_ifs <;> rfl

theorem verdicts_submit (desk : CloseDesk) (sized : SizedOrder) (ctx : RiskContext) :
    s.verdicts <+: (s.submit w t desk sized ctx).verdicts := by
  unfold Executing.submit
  dsimp only
  split
  · rw [verdicts_judged]
    exact List.prefix_append _ _
  · rw [verdicts_judged]
    exact List.prefix_append _ _

theorem verdicts_enter (features : FeaturePack) (sized : SizedOrder) :
    s.verdicts <+: (s.enter w t decision features sized).verdicts := by
  unfold Executing.enter
  generalize (if w.settings.strategy.risk.requireRiskOfficer then t.reviewing s.desk else s.desk) = desk
  dsimp only
  split
  · exact List.prefix_rfl
  · split_ifs
    · exact List.prefix_rfl
    · exact verdicts_submit _ _ _

theorem verdicts_executeOne : s.verdicts <+: (w.executeOne decision t proposal s).verdicts := by
  unfold executeOne
  by_cases hclose : proposal.action = .close
  · rw [if_pos hclose]
    unfold Executing.close
    dsimp only
    split <;> exact List.prefix_append _ _
  · rw [if_neg hclose]
    cases w.features.get? proposal.symbol with
    | none => exact List.prefix_rfl
    | some features =>
      dsimp only
      split_ifs
      · exact List.prefix_rfl
      · split
        · exact List.prefix_rfl
        · exact verdicts_enter _ _

theorem verdicts_executeFrom (i : ℕ) (ps : List TradeProposal) (s : Executing) :
    s.verdicts <+: (w.executeFrom decision i ps s).verdicts := by
  induction ps generalizing i s with
  | nil => exact List.prefix_rfl
  | cons p ps ih =>
    rw [executeFrom]
    split_ifs
    · exact List.prefix_rfl
    · exact verdicts_executeOne.trans (ih _ _)

theorem requests_judged (symbol : String) (verdict : RiskVerdict) (now : Now) :
    (s.judged symbol verdict now).requests = s.requests := by
  unfold Executing.judged
  dsimp only
  split_ifs <;> rfl

theorem requests_enter (features : FeaturePack) (sized : SizedOrder) :
    (s.enter w t decision features sized).requests = s.requests ∨ ∃ entry stop target,
      (s.enter w t decision features sized).requests = s.requests ++ [.placeBracket entry stop target] := by
  unfold Executing.enter
  generalize (if w.settings.strategy.risk.requireRiskOfficer then t.reviewing s.desk else s.desk) = desk
  dsimp only
  split
  · exact Or.inl rfl
  · split_ifs
    · exact Or.inl rfl
    · unfold Executing.submit
      dsimp only
      split
      · rw [requests_judged]
        exact Or.inl rfl
      · rw [requests_judged]
        exact Or.inr ⟨_, _, _, rfl⟩

theorem requests_executeOne : ∃ sent, (w.executeOne decision t proposal s).requests = s.requests ++ sent ∧
    (sent = [] ∨ (∃ entry stop target, sent = [.placeBracket entry stop target]) ∨
      ∃ exit, sent = [.placeSingle exit]) := by
  have hnothing : s.requests = s.requests ++ [] := (List.append_nil _).symm
  unfold executeOne
  by_cases hclose : proposal.action = .close
  · rw [if_pos hclose]
    rcases s.requests_close w t proposal.symbol with hnone | ⟨exit, hexit⟩
    · exact ⟨[], hnone.trans hnothing, Or.inl rfl⟩
    · exact ⟨_, hexit, Or.inr (Or.inr ⟨exit, rfl⟩)⟩
  · rw [if_neg hclose]
    cases w.features.get? proposal.symbol with
    | none => exact ⟨[], hnothing, Or.inl rfl⟩
    | some features =>
      dsimp only
      split_ifs
      · exact ⟨[], hnothing, Or.inl rfl⟩
      · split
        · exact ⟨[], hnothing, Or.inl rfl⟩
        · rename_i sized _
          rcases @requests_enter w decision t s features sized with hnone | ⟨entry, stop, target, hbracket⟩
          · exact ⟨[], hnone.trans hnothing, Or.inl rfl⟩
          · exact ⟨_, hbracket, Or.inr (Or.inl ⟨entry, stop, target, rfl⟩)⟩

/-- **A decision sends at most one request for each of its proposals.** -/
theorem length_requests_le (i : ℕ) (ps : List TradeProposal) (s : Executing) :
    (w.executeFrom decision i ps s).requests.length ≤ s.requests.length + ps.length := by
  induction ps generalizing i s with
  | nil => exact le_rfl
  | cons p ps ih =>
    rw [executeFrom]
    split_ifs
    · exact Nat.le_add_right _ _
    · obtain ⟨sent, hsent, hcases⟩ := @requests_executeOne w decision (w.turn i) p s
      have hone : sent.length ≤ 1 := by
        rcases hcases with rfl | ⟨_, _, _, rfl⟩ | ⟨_, rfl⟩ <;> simp
      have hrest := ih (i + 1) (w.executeOne decision (w.turn i) p s)
      rw [hsent, List.length_append] at hrest
      rw [List.length_cons]
      omega

end CycleWorld

end AiTrader
