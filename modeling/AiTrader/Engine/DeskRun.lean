import AiTrader.Broker.Reconcile
import AiTrader.Broker.WriteAhead
import AiTrader.Engine.Submission
import AiTrader.Lib.Trace

/-!
# The desk and everything that runs beside it

Submissions of the decision cycle and of the dashboard, broker events, exits, reconciliation and the kill
switch share the gate and the order manager. A submission is on its own from the check of its context to the
call of the broker, and then waits twice: in the message pacer, and for the broker's answer. In between
anything else may happen, each task up to its next suspension.

The run remembers when the broker was called, which records of the brackets are unresolved, and what was on
the wire with the switch tripped or not.
-/

namespace AiTrader

open Lib OrderManager

/-- A record of a bracket, by what its reference is made of. -/
structure Leg where
  cycleId : String
  symbol : String
  kind : String
  date : String
  deriving DecidableEq

namespace Leg

def ref (leg : Leg) : String := makeRef leg.cycleId leg.symbol leg.kind leg.date

/-- The reference of the entry of the same bracket. -/
def entryRef (leg : Leg) : String := makeRef leg.cycleId leg.symbol "ENTRY" leg.date

def kinds : List String := ["ENTRY", "STOP", "TARGET"]

/-- The three records of a bracket. -/
def bracket (order : SizedOrder) (cycleId : String) (now : Now) : List Leg :=
  kinds.map fun kind => { cycleId, symbol := order.symbol, kind, date := now.date }

/-- The record of the leg still works, for its symbol. -/
def isOpen (leg : Leg) (orders : OrderBook) : Bool :=
  (orders.get? leg.ref).any fun mo => mo.isWorking && decide (mo.symbol = leg.symbol)

end Leg

/-- A bracket handed to the broker. It is `sent` once the pacer has let it through. -/
structure Flight where
  entry : Submission
  specs : BrokerOrderSpec × BrokerOrderSpec × BrokerOrderSpec
  sent : Bool := false

/-- An order given to `placeOrder`, and how the kill switch read then. -/
structure Wired where
  order : Order
  tripped : Bool

structure DeskRun where
  desk : Desk
  /-- The monotonic clock at the last move. -/
  clock : ℚ
  flights : List Flight := []
  /-- When the broker's `place_bracket` was called. -/
  calls : List ℚ := []
  /-- The records of brackets that no status and no reconciliation has made terminal yet. -/
  unresolved : List Leg := []
  wire : List Wired := []

namespace DeskRun

inductive Move
  | submitted (order : SizedOrder) (ctx : RiskContext) (cycleId : String)
  /-- The pacer lets a waiting bracket through; its orders go out one after the other. -/
  | paced (i : ℕ) (account : String) (ids : ReqIds)
  /-- The broker's `place_bracket` returns or raises. -/
  | answered (i : ℕ) (reply : Except String (List BrokerOrderStatus))
  | status (status : BrokerOrderStatus)
  | executed (execution : BrokerExecution)
  /-- `close_position` when its cancels are done: they change nothing until their statuses come. -/
  | closing (symbol : String) (quantity : ℚ) (isLong : Bool) (reason : String) (quote : Option Quote)
  /-- Steps 1 and 2 of `reconcile`. -/
  | reconciled (opens completed : List BrokerOrderStatus)
  /-- Step 4 of `reconcile` writes a protective stop. -/
  | recovering (symbol : String) (p : Position) (reference : ℚ)
  | blocked (symbol : String)
  | unblocked
  | tripped (reason : String) (action : Option KillSwitchAction)
  /-- Another process creates the sentinel. -/
  | touched (text : Option String)
  | looked
  | switchReset
  | sessionReset

variable (s : DeskRun)

/-- Both callers take the working symbols from the order manager. -/
def context (ctx : RiskContext) : RiskContext := { ctx with workingSymbols := s.desk.orders.workingSymbols }

def submission (order : SizedOrder) (ctx : RiskContext) (cycleId : String) (now : Now) :
    Desk × Bool × Submitted :=
  s.desk.submit order (s.context ctx) cycleId now

/-- The submission calls the broker. -/
def calling (order : SizedOrder) (ctx : RiskContext) (cycleId : String) (now : Now) : Bool :=
  match (s.submission order ctx cycleId now).2.2 with
  | .placing _ => true
  | .returned _ => false

/-- A status or a reconciliation may have made records terminal. -/
def settle : DeskRun := { s with unresolved := s.unresolved.filter fun leg => leg.isOpen s.desk.orders.orders }

def withOrders (orders : OrderManager) : DeskRun := { s with desk := { s.desk with orders } }

def withSwitch (f : KillSwitch → KillSwitch) : DeskRun :=
  { s with desk := { s.desk with risk := { s.desk.risk with killSwitch := f s.desk.risk.killSwitch } } }

/-- What steps 1 and 2 of `reconcile` leave, also when a transition write raises. -/
def reconciledOrders (m : OrderManager) (opens completed : List BrokerOrderStatus) (now : Now) :
    OrderManager :=
  let known := ((opens ++ completed).map BrokerOrderStatus.orderRef).filter fun ref => ref ≠ ""
  let r := absorbAll now opens completed m
  match resolveMaybeSent known now r.1.orders.values r with
  | .ok r => r.1
  | .error r => r.1

def submit (order : SizedOrder) (ctx : RiskContext) (cycleId : String) (now : Now) : DeskRun :=
  let out := s.submission order ctx cycleId now
  match out.2.2 with
  | .returned _ => { s with desk := out.1 }
  | .placing verdict =>
    { s with
      desk := out.1
      flights := s.flights ++ [
        { entry := { order, verdict, symbol := order.symbol }, specs := bracketSpecs order cycleId now }]
      calls := s.calls ++ [now.mono]
      unresolved := s.unresolved ++ Leg.bracket order cycleId now }

/-- `IbAsyncBroker.place_bracket` from the return of the pacer to its own. -/
def pace (i : ℕ) (account : String) (ids : ReqIds) : DeskRun :=
  match s.flights[i]? with
  | none => s
  | some flight =>
    if flight.sent then s
    else match bracketOrders account ids flight.specs.1 flight.specs.2.1 flight.specs.2.2 with
      | .error _ => s
      | .ok bracket =>
        { s with
          flights := s.flights.set i { flight with sent := true }
          wire := s.wire ++ bracket.orders.map fun order =>
            { order, tripped := s.desk.risk.killSwitch.isTripped } }

/-- An exception may end the wait in the pacer too; statuses come only for what was sent. -/
def answer (i : ℕ) (reply : Except String (List BrokerOrderStatus)) (now : Now) : DeskRun :=
  match s.flights[i]? with
  | none => s
  | some flight =>
    if flight.sent || reply.toOption.isNone then
      { s with desk := (s.desk.finish flight.entry reply now).1, flights := s.flights.eraseIdx i }.settle
    else s

def act (now : Now) : Move → DeskRun
  | .submitted order ctx cycleId => s.submit order ctx cycleId now
  | .paced i account ids => s.pace i account ids
  | .answered i reply => s.answer i reply now
  | .status status => (s.withOrders (s.desk.orders.applyStatus status now)).settle
  | .executed execution => s.withOrders (s.desk.orders.onExecution execution)
  | .closing symbol quantity isLong reason quote =>
    s.withOrders (s.desk.orders.closePositionStart symbol quantity isLong reason quote now).1
  | .reconciled opens completed =>
    (s.withOrders (reconciledOrders s.desk.orders opens completed now)).settle
  | .recovering symbol p reference =>
    (s.withOrders (s.desk.orders.write
      (protectiveRecord now (protectiveSpec now symbol p reference)))).settle
  | .blocked symbol => s.withOrders (s.desk.orders.block symbol now)
  | .unblocked => s.withOrders (s.desk.orders.unblockExpired now)
  | .tripped reason action => s.withSwitch fun ks => ks.trip reason action now
  | .touched text => s.withSwitch fun ks => { ks with sentinel := .file text }
  | .looked => s.withSwitch fun ks => ks.look now
  | .switchReset => s.withSwitch KillSwitch.reset
  | .sessionReset => { s with desk := { s.desk with risk := s.desk.risk.resetForNewSession } }

/-- Time never goes back. -/
def step (s : DeskRun) (e : Now × Move) : DeskRun :=
  if s.clock ≤ e.1.mono then { s.act e.1 e.2 with clock := e.1.mono } else s

/-- A process that has just started. -/
def start (desk : Desk) (clock : ℚ) : DeskRun := { desk, clock }

/-! ### What a move leaves alone -/

theorem submit_cases (order : SizedOrder) (ctx : RiskContext) (cycleId : String) (now : Now) :
    ∃ desk : Desk, desk.risk.cfg = s.desk.risk.cfg ∧
      desk.risk.killSwitch.isTripped = s.desk.risk.killSwitch.isTripped ∧
      ((s.calling order ctx cycleId now = false ∧ s.submit order ctx cycleId now = { s with desk } ∧
          desk.orders.orders = s.desk.orders.orders) ∨
        s.calling order ctx cycleId now = true ∧
          s.desk.risk.Passed order (s.context ctx) now ∧
          s.desk.orders.orders.get? (makeRef cycleId order.symbol "ENTRY" now.date) = none ∧
          desk.orders.orders = (bracketRows order cycleId now).foldl OrderBook.put s.desk.orders.orders ∧
          ∃ flight : Flight, flight.sent = false ∧ s.submit order ctx cycleId now =
            { s with
              desk
              flights := s.flights ++ [flight]
              calls := s.calls ++ [now.mono]
              unresolved := s.unresolved ++ Leg.bracket order cycleId now }) := by
  obtain ⟨hcfg, hcases⟩ := s.desk.submit_cases order (s.context ctx) cycleId now
  refine ⟨(s.submission order ctx cycleId now).1, hcfg, s.desk.isTripped_submit _ _ _ _, ?_⟩
  unfold calling submit submission
  dsimp only
  rcases hcases with ⟨verdict, hverdict, _, horders⟩ | ⟨verdict, hverdict, hpassed, hadmits, horders⟩
  · rw [hverdict]
    exact Or.inl ⟨rfl, rfl, horders⟩
  · simp only [admits, Bool.and_eq_true, Option.isNone_iff_eq_none] at hadmits
    rw [hverdict]
    exact Or.inr ⟨rfl, hpassed, hadmits.1.2, horders, _, rfl, rfl⟩

theorem orderTimes_submit (order : SizedOrder) (ctx : RiskContext) (cycleId : String) (now : Now) :
    RiskEngine.recentOrders now s.desk.risk.orderTimes <+: (s.submit order ctx cycleId now).desk.risk.orderTimes := by
  have hsubmitted := s.desk.orderTimes_submit order (s.context ctx) cycleId now
  unfold submit submission
  dsimp only
  split <;> exact hsubmitted

theorem pace_cases (i : ℕ) (account : String) (ids : ReqIds) :
    s.pace i account ids = s ∨ ∃ (flight : Flight) (orders : List Order),
      s.flights[i]? = some flight ∧ flight.sent = false ∧ s.pace i account ids =
        { s with
          flights := s.flights.set i { flight with sent := true }
          wire := s.wire ++ orders.map fun order =>
            { order, tripped := s.desk.risk.killSwitch.isTripped } } := by
  unfold pace
  split
  · exact Or.inl rfl
  · rename_i flight hflight
    cases hsent : flight.sent with
    | true => exact Or.inl rfl
    | false =>
      rw [if_neg Bool.false_ne_true]
      split
      · exact Or.inl rfl
      · exact Or.inr ⟨flight, _, hflight, hsent, rfl⟩

theorem answer_cases (i : ℕ) (reply : Except String (List BrokerOrderStatus)) (now : Now) :
    s.answer i reply now = s ∨ ∃ flight : Flight, s.answer i reply now =
      { s with
        desk := (s.desk.finish flight.entry reply now).1
        flights := s.flights.eraseIdx i }.settle := by
  unfold answer
  split
  · exact Or.inl rfl
  · split_ifs
    · exact Or.inr ⟨_, rfl⟩
    · exact Or.inl rfl

/-- The moves besides a submission. -/
def Move.isOther : Move → Bool
  | submitted _ _ _ => false
  | _ => true

theorem calls_act (move : Move) (h : move.isOther = true) (now : Now) :
    (s.act now move).calls = s.calls ∧ (s.act now move).desk.risk.cfg = s.desk.risk.cfg := by
  cases move with
  | submitted order ctx cycleId => cases h
  | paced i account ids =>
    show (s.pace i account ids).calls = s.calls ∧ (s.pace i account ids).desk.risk.cfg = s.desk.risk.cfg
    rcases s.pace_cases i account ids with hsame | ⟨flight, orders, -, -, hsent⟩
    · rw [hsame]
      exact ⟨rfl, rfl⟩
    · rw [hsent]
      exact ⟨rfl, rfl⟩
  | answered i reply =>
    show (s.answer i reply now).calls = s.calls ∧ (s.answer i reply now).desk.risk.cfg = s.desk.risk.cfg
    rcases s.answer_cases i reply now with hsame | ⟨flight, hanswer⟩
    · rw [hsame]
      exact ⟨rfl, rfl⟩
    · rw [hanswer]
      exact ⟨rfl, s.desk.cfg_finish _ _ _⟩
  | _ => exact ⟨rfl, rfl⟩

end DeskRun

end AiTrader
