import AiTrader.Broker.WriteAhead
import AiTrader.Risk.Engine

/-!
# Submissions

`RiskEngine.submit` with the order manager behind it. It suspends where `place_bracket` hands the bracket to
the broker, and only there: a blocked symbol and a reference that is already known return at once.

`submit_cases` splits a submission into the part up to the suspension and the return. The gate's verdict is known
before the order manager is asked, and nothing runs between the two, so an approval means that the gate has passed the
order on the very state in which the bracket is written.
-/

namespace AiTrader

/-- The gate and the order manager it is wired to. -/
structure Desk where
  risk : RiskEngine
  orders : OrderManager

/-- A `submit` suspended in `place_bracket`, and the symbol its entry is noted under. -/
structure Submission where
  order : SizedOrder
  verdict : RiskVerdict
  symbol : String

/-- A `submit` that has returned its verdict, or is suspended in `place_bracket` with its approval. -/
inductive Submitted
  | returned (verdict : RiskVerdict)
  | placing (verdict : RiskVerdict)

namespace Desk

/-- `submit` up to its suspension. The flag tells whether `place_bracket` was called. -/
def submit (d : Desk) (order : SizedOrder) (ctx : RiskContext) (cycleId : String) (now : Now) :
    Desk × Bool × Submitted :=
  let gate := d.risk.submitStart order ctx cycleId true now
  match gate.2 with
  | .error verdict => ({ d with risk := gate.1 }, false, .returned verdict)
  | .ok verdict =>
    let start := d.orders.placeBracketStart order cycleId now
    let finish := fun placement =>
      let out := gate.1.submitFinish order verdict placement now
      (({ risk := out.1, orders := start.1 } : Desk), true, Submitted.returned out.2)
    match start.2 with
    | .sent _ _ _ => ({ risk := gate.1, orders := start.1 }, true, .placing verdict)
    | .blocked error => finish (.error error)
    | .duplicateRef _ => finish (.ok ())
    | .duplicateInStore => finish (.ok ())

/-- `submit` from the broker's answer on. -/
def finish (d : Desk) (entry : Submission) (reply : Except String (List BrokerOrderStatus)) (now : Now) :
    Desk × RiskVerdict :=
  let placed := d.orders.placeBracketFinish entry.order reply now
  let out := d.risk.submitFinish entry.order entry.verdict placed.2 now
  ({ risk := out.1, orders := placed.1 }, out.2)

variable (d : Desk) (order : SizedOrder) (ctx : RiskContext) (cycleId : String) (now : Now)

theorem submit_cases :
    (d.submit order ctx cycleId now).1.risk.cfg = d.risk.cfg ∧
      ((∃ verdict, (d.submit order ctx cycleId now).2.2 = .returned verdict ∧
          (verdict.approved = true → d.risk.Passed order ctx now) ∧
          (d.submit order ctx cycleId now).1.orders.orders = d.orders.orders) ∨
        ∃ verdict, (d.submit order ctx cycleId now).2.2 = .placing verdict ∧
          d.risk.Passed order ctx now ∧ d.orders.admits order cycleId now = true ∧
          (d.submit order ctx cycleId now).1.orders.orders =
            (OrderManager.bracketRows order cycleId now).foldl OrderBook.put d.orders.orders) := by
  obtain ⟨hcfg, hgate⟩ := d.risk.submitStart_cases order ctx cycleId true now
  unfold submit
  dsimp only
  rcases hgate with ⟨verdict, hverdict, hrejected⟩ | ⟨verdict, hverdict, _, hpassed⟩
  · rw [hverdict]
    refine ⟨hcfg, Or.inl ⟨verdict, rfl, fun h => ?_, rfl⟩⟩
    rw [hrejected] at h
    cases h
  · rw [hverdict]
    dsimp only
    rcases d.orders.placeBracketStart_eq order cycleId now with
      ⟨_, hbook, hunsent⟩ | ⟨hadmits, hbook, entry, stop, target, hsent, _⟩
    · have horders := congrArg OrderManager.orders hbook
      cases hstart : (d.orders.placeBracketStart order cycleId now).2 with
      | sent entry stop target => exact absurd hstart (hunsent entry stop target)
      | blocked error => exact ⟨hcfg, Or.inl ⟨_, rfl, fun _ => hpassed, horders⟩⟩
      | duplicateRef existing =>
        exact ⟨hcfg, Or.inl ⟨_, rfl, fun _ => hpassed, horders⟩⟩
      | duplicateInStore => exact ⟨hcfg, Or.inl ⟨_, rfl, fun _ => hpassed, horders⟩⟩
    · have horders := congrArg OrderManager.orders hbook
      rw [hsent]
      exact ⟨hcfg, Or.inr ⟨verdict, rfl, hpassed, hadmits, horders⟩⟩

theorem placing_iff :
    (∃ verdict, (d.submit order ctx cycleId now).2.2 = .placing verdict) ↔
      d.risk.Passed order ctx now ∧ d.orders.admits order cycleId now = true := by
  constructor
  · rintro ⟨verdict, hplacing⟩
    obtain ⟨-, ⟨_, hreturned, -⟩ | ⟨_, -, hpassed, hadmits, -⟩⟩ := d.submit_cases order ctx cycleId now
    · rw [hreturned] at hplacing
      cases hplacing
    · exact ⟨hpassed, hadmits⟩
  · rintro ⟨hpassed, hadmits⟩
    obtain ⟨verdict, -, hstart⟩ := hpassed.submitStart cycleId
    refine ⟨verdict, ?_⟩
    rcases d.orders.placeBracketStart_eq order cycleId now with ⟨hnot, -⟩ | ⟨-, -, _, _, _, hsent, -⟩
    · rw [hnot] at hadmits
      cases hadmits
    · unfold submit
      dsimp only
      rw [hstart]
      dsimp only
      rw [hsent]

@[simp] theorem isTripped_submit :
    (d.submit order ctx cycleId now).1.risk.killSwitch.isTripped = d.risk.killSwitch.isTripped := by
  have hstart := d.risk.isTripped_submitStart order ctx cycleId true now
  unfold submit
  dsimp only
  split
  · exact hstart
  · split
    · exact hstart
    all_goals exact (RiskEngine.isTripped_submitFinish _ _).trans hstart

@[simp] theorem isTripped_finish (entry : Submission) (reply : Except String (List BrokerOrderStatus)) :
    (d.finish entry reply now).1.risk.killSwitch.isTripped = d.risk.killSwitch.isTripped :=
  RiskEngine.isTripped_submitFinish _ _

theorem orderTimes_submit :
    RiskEngine.recentOrders now d.risk.orderTimes <+: (d.submit order ctx cycleId now).1.risk.orderTimes := by
  have hstart : RiskEngine.recentOrders now d.risk.orderTimes <+:
      (d.risk.submitStart order ctx cycleId true now).1.orderTimes := by
    rw [RiskEngine.orderTimes_submitStart]
  unfold submit
  dsimp only
  split
  · exact hstart
  · split
    · exact hstart
    · exact hstart
    all_goals exact hstart.trans (List.prefix_append _ _)

theorem dailyLossTripped_submit :
    (d.submit order ctx cycleId now).1.risk.dailyLossTripped =
      (d.risk.dailyLossTripped || RiskEngine.breaches d.risk.cfg ctx.account ctx.startingEquity) := by
  have hstart := d.risk.dailyLossTripped_submitStart order ctx cycleId true now
  unfold submit
  dsimp only
  split
  · exact hstart
  · split
    · exact hstart
    all_goals exact (RiskEngine.dailyLossTripped_submitFinish _ _).trans hstart

theorem dailyLossTripped_finish (entry : Submission) (reply : Except String (List BrokerOrderStatus)) :
    (d.finish entry reply now).1.risk.dailyLossTripped = d.risk.dailyLossTripped :=
  RiskEngine.dailyLossTripped_submitFinish _ _

@[simp] theorem cfg_finish (entry : Submission) (reply : Except String (List BrokerOrderStatus)) :
    (d.finish entry reply now).1.risk.cfg = d.risk.cfg :=
  RiskEngine.cfg_submitFinish _ _

end Desk

end AiTrader
