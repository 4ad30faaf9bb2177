import AiTrader.Engine.Calendar
import AiTrader.Engine.State
import AiTrader.Risk.Engine

/-!
# The fast loop

`_fast_tick` is deterministic: daily loss check, kill-switch flatten, end-of-day flatten, expiry of stale
orders and of stale approvals. It suspends at every call on the broker, so it is modelled as the segments
between two such calls; `FastAt` is the call it is suspended in together with what it still has to do. The
account that it flattens from is the cached one: `_sync_account` replaces it on its own schedule.

`BrokerBook` is the broker's side: the true positions and the exit orders that `_flatten_all` has sent.

What the loop does to the desk is told in terms of what it leaves alone: the counters, the configuration and the
store. It moves the flag of the daily loss in the check at the start of a tick only (`dailyLossTripped_step`), and the
queue of approvals only by taking out of it.
-/

namespace AiTrader

open Lib

/-! ### The broker's side -/

/-- An exit order at the broker. -/
structure Exit where
  orderRef : String
  symbol : String
  sells : Bool
  quantity : ℚ
  filled : ℚ := 0
  live : Bool := true
  deriving DecidableEq

/-- The position in a symbol, long positive. -/
def quantityOf (positions : Dict String Position) (symbol : String) : ℚ :=
  ((positions.get? symbol).map Position.quantity).getD 0

/-- A fill that changes the position by `delta`. -/
def movePosition (positions : Dict String Position) (symbol : String) (delta : ℚ) :
    Dict String Position :=
  let old := (positions.get? symbol).getD { symbol, quantity := 0, avgCost := 0 }
  positions.set symbol { old with quantity := old.quantity + delta }

theorem quantityOf_movePosition (positions : Dict String Position) (symbol symbol' : String)
    (delta : ℚ) : quantityOf (movePosition positions symbol delta) symbol' =
      quantityOf positions symbol' + if symbol' = symbol then delta else 0 := by
  unfold quantityOf movePosition
  dsimp only
  by_cases hsymbol : symbol' = symbol
  · subst hsymbol
    rw [Dict.get?_set_self, if_pos rfl]
    cases positions.get? symbol' <;> rfl
  · rw [Dict.get?_set_ne _ _ hsymbol, if_neg hsymbol, add_zero]

structure BrokerBook where
  /-- The positions when flattening began. -/
  opening : Dict String Position
  positions : Dict String Position
  /-- Every earlier state of the positions. -/
  past : List (Dict String Position) := []
  exits : List Exit := []

namespace BrokerBook

def accept (b : BrokerBook) (spec : BrokerOrderSpec) : BrokerBook :=
  { b with
    exits := b.exits ++ [{
      orderRef := spec.orderRef
      symbol := spec.symbol
      sells := decide (spec.action = "SELL")
      quantity := spec.quantity }] }

/-- The `i`-th exit fills by `quantity`. -/
def fill (b : BrokerBook) (i : ℕ) (quantity : ℚ) : BrokerBook :=
  match b.exits[i]? with
  | none => b
  | some x =>
    if x.live = true ∧ 0 < quantity ∧ quantity ≤ x.quantity - x.filled then
      { b with
        positions := movePosition b.positions x.symbol (if x.sells then -quantity else quantity)
        past := b.positions :: b.past
        exits := b.exits.set i { x with
          filled := x.filled + quantity
          live := decide (x.filled + quantity < x.quantity) } }
    else b

/-- The `i`-th exit is cancelled, rejected or expires. -/
def finish (b : BrokerBook) (i : ℕ) : BrokerBook :=
  match b.exits[i]? with
  | none => b
  | some x => { b with exits := b.exits.set i { x with live := false } }

/-- The positions as the portfolio shows them, `lag` changes behind. -/
def portfolio (b : BrokerBook) (lag : ℕ) : Dict String Position :=
  ((b.positions :: b.past)[lag]?).getD b.positions

end BrokerBook

/-! ### The loop -/

/-- The call that `_flatten_all` is suspended in. -/
inductive FlattenAt
  /-- `cancel_all_working` cancels `orderId` and has `refs` still to look at. -/
  | cancellingAll (orderId : ℤ) (refs : List String)
  /-- The same in `cancel_symbol_orders`, before `symbol` is closed. -/
  | cancellingSymbol (symbol : String) (p : Position) (orderId : ℤ) (refs : List String)
  | placing (symbol : String) (p : Position) (spec : BrokerOrderSpec)

/-- A `_flatten_all` under way, with the positions it has still to close after the present one. -/
structure Flatten where
  reason : String
  suspended : FlattenAt
  left : List (String × Position)

/-- The call that `_fast_tick` is suspended in. `eodNext` is the outcome of the end-of-day test, whose
inputs are fixed when the tick starts. -/
inductive FastAt
  | idle
  | flattening (eodNext : Bool) (f : Flatten)
  /-- `_expire_stale_orders`, which began at `began`. -/
  | expiring (began : ℚ) (orderId : ℤ) (refs : List String)

structure FastLoop where
  cfg : StrategyConfig
  calendar : MarketCalendar
  app : AppState
  risk : RiskEngine
  orders : OrderManager
  task : FastAt := .idle
  requests : List BrokerRequest := []
  broker : BrokerBook

/-- The next record of a cancel loop to be cancelled: its broker id and the records after it. A record is
judged when the loop reaches it. -/
def OrderManager.nextCancel (m : OrderManager) (wanted : ManagedOrder → Bool) :
    List String → Option (ℤ × List String)
  | [] => none
  | ref :: refs =>
    match ((m.orders.get? ref).filter wanted).bind fun mo => truthy mo.ibOrderId with
    | some orderId => some (orderId, refs)
    | none => m.nextCancel wanted refs

namespace FastLoop

/-- `cancel_symbol_orders` looks for these. -/
def ofSymbol (symbol : String) (mo : ManagedOrder) : Bool := decide (mo.symbol = symbol) && mo.isWorking

/-- `_expire_stale_orders` cancels these among the orders that worked when it began. -/
def isStale (cfg : BrokerConfig) (began : ℚ) (mo : ManagedOrder) : Bool :=
  mo.parentRef.isNone && decide (cfg.orderTimeoutSeconds < began - mo.createdAt) &&
    decide (mo.filledQuantity = 0)

/-- `_expire_stale_approvals`, the end of the tick. -/
def expireApprovals (s : FastLoop) (now : Now) : FastLoop :=
  { s with
    app := { s.app with
      pendingApprovals := s.app.pendingApprovals.filter fun p =>
        !decide (s.cfg.cadence.approvalTimeoutSeconds < p.ageSeconds now.epoch) }
    task := .idle }

/-- `_expire_stale_orders` from the record it is at. -/
def expireFrom (s : FastLoop) (began : ℚ) (refs : List String) (now : Now) : FastLoop :=
  match s.orders.nextCancel (isStale s.cfg.broker began) refs with
  | some (orderId, refs) => { s with task := .expiring began orderId refs }
  | none => s.expireApprovals now

def expireOrders (s : FastLoop) (now : Now) : FastLoop :=
  s.expireFrom now.epoch (s.orders.workingOrders.map ManagedOrder.orderRef) now

variable (s : FastLoop) (reason : String) (now : Now) (quotes : String → Option Quote)

/-- `close_position` after its cancels, up to `place_single`. -/
def sendExit (eodNext : Bool) (symbol : String) (p : Position) (left : List (String × Position)) :
    FastLoop :=
  let started := s.orders.closePositionStart symbol p.quantity p.isLong reason (quotes symbol) now
  { s with
    orders := started.1
    task := .flattening eodNext { reason, suspended := .placing symbol p started.2, left } }

/-- `cancel_symbol_orders` from the record it is at, and on. -/
def cancelThenExit (eodNext : Bool) (symbol : String) (p : Position) (refs : List String)
    (left : List (String × Position)) : FastLoop :=
  match s.orders.nextCancel (ofSymbol symbol) refs with
  | some (orderId, refs) =>
    { s with
      task := .flattening eodNext
        { reason, suspended := .cancellingSymbol symbol p orderId refs, left } }
  | none => s.sendExit reason now quotes eodNext symbol p left

/-- `_flatten_all` from the next position on; with none left it returns to `after`. -/
def closeNext (eodNext : Bool) (after : FastLoop → FastLoop) : List (String × Position) → FastLoop
  | [] => after s
  | (symbol, p) :: left =>
    s.cancelThenExit reason now quotes eodNext symbol p
      (s.orders.orders.values.map ManagedOrder.orderRef) left

/-- `cancel_all_working` from the record it is at, and on. -/
def cancelThenClose (eodNext : Bool) (after : FastLoop → FastLoop) (refs : List String)
    (left : List (String × Position)) : FastLoop :=
  match s.orders.nextCancel ManagedOrder.isWorking refs with
  | some (orderId, refs) =>
    { s with task := .flattening eodNext { reason, suspended := .cancellingAll orderId refs, left } }
  | none => s.closeNext reason now quotes eodNext after left

/-- `_flatten_all` reads the cached account once. -/
def flattenAll (eodNext : Bool) (after : FastLoop → FastLoop) : FastLoop :=
  match s.app.account with
  | none => after s
  | some account =>
    s.cancelThenClose reason now quotes eodNext after (s.orders.orders.values.map ManagedOrder.orderRef)
      account.openPositions.entries

/-- The rest of the tick after the kill-switch flatten. -/
def afterFlatten (eodNext : Bool) (s : FastLoop) : FastLoop :=
  if eodNext then
    s.flattenAll "end of day" now quotes false fun s => s.expireOrders now
  else s.expireOrders now

/-- The end-of-day test of the tick. -/
def eodDue (account : AccountSnapshot) : Bool :=
  let session := s.calendar.info now.epoch
  session.isTradingDay && (match session.minutesToClose with
    | none => false
    | some minutes =>
      decide (0 < minutes ∧ minutes ≤ s.cfg.risk.flattenMinutesBeforeClose)) &&
    !account.openPositions.entries.isEmpty

/-- The daily loss check of the tick. -/
def checkLoss (account : AccountSnapshot) : FastLoop :=
  let checked := s.risk.checkDailyLoss account s.app.startingEquity now
  { s with
    risk := checked.2
    app := { s.app with
      haltedReason := if checked.1 then "daily loss limit" else s.app.haltedReason } }

/-- The two flatten tests of the tick, and on. -/
def flattenDue (account : AccountSnapshot) : FastLoop :=
  let eodNext := s.eodDue now account
  if s.risk.killSwitch.shouldFlatten && !account.openPositions.entries.isEmpty then
    s.flattenAll "kill switch" now quotes eodNext (afterFlatten now quotes eodNext)
  else s.afterFlatten now quotes eodNext

/-- `_fast_tick` up to its first suspension. Publishing the kill switch's status reads it. -/
def tick (connected : Bool) : FastLoop :=
  let s := { s with risk := s.risk.lookSwitch now }
  match connected, s.app.account with
  | true, some account => (s.checkLoss now account).flattenDue now quotes account
  | _, _ => s

def cancelled (orderId : ℤ) (ok : Bool) : FastLoop :=
  { s with requests := if ok then s.requests ++ [.cancelOrder orderId] else s.requests }

/-- A `cancel_order` has returned, or raised and been logged. -/
def cancelReturned (ok : Bool) : FastLoop :=
  match s.task with
  | .idle => s
  | .expiring began orderId refs => (s.cancelled orderId ok).expireFrom began refs now
  | .flattening eodNext f =>
    match f.suspended with
    | .cancellingAll orderId refs =>
      (s.cancelled orderId ok).cancelThenClose f.reason now quotes eodNext
        (afterFlatten now quotes eodNext) refs f.left
    | .cancellingSymbol symbol p orderId refs =>
      (s.cancelled orderId ok).cancelThenExit f.reason now quotes eodNext symbol p refs f.left
    | .placing _ _ _ => s

/-- The end of `close_position`: the exit is at the broker, or `place_single` has raised. -/
def replied (symbol : String) (spec : BrokerOrderSpec) (reply : Except String BrokerOrderStatus) :
    FastLoop :=
  match reply with
  | .ok status =>
    { s with
      broker := s.broker.accept spec
      requests := s.requests ++ [.placeSingle spec]
      orders := s.orders.applyStatus status now
      app := s.app.noteClose symbol now }
  | .error _ => s

/-- A `place_single` has returned, or raised and been logged. -/
def placeReturned (reply : Except String BrokerOrderStatus) : FastLoop :=
  match s.task with
  | .flattening eodNext f =>
    match f.suspended with
    | .placing symbol _ spec =>
      (s.replied now symbol spec reply).closeNext f.reason now quotes eodNext
        (afterFlatten now quotes eodNext) f.left
    | _ => s
  | _ => s

/-- What happens next. -/
inductive Event
  | ticked (connected : Bool) (now : Now) (quotes : String → Option Quote)
  | cancelReturned (ok : Bool) (now : Now) (quotes : String → Option Quote)
  | placeReturned (reply : Except String BrokerOrderStatus) (now : Now)
      (quotes : String → Option Quote)
  /-- `_sync_account` returns an account whose positions are `lag` changes old. -/
  | accountSynced (account : AccountSnapshot) (lag : ℕ)
  | status (status : BrokerOrderStatus) (now : Now)
  /-- The sentinel, the dashboard or a submission moves the kill switch. -/
  | killSwitchMoved (killSwitch : KillSwitch)
  | filled (i : ℕ) (quantity : ℚ)
  | ended (i : ℕ)

def step (s : FastLoop) : Event → FastLoop
  | .ticked connected now quotes =>
    match s.task with
    | .idle => s.tick now quotes connected
    | _ => s
  | .cancelReturned ok now quotes => s.cancelReturned now quotes ok
  | .placeReturned reply now quotes => s.placeReturned now quotes reply
  | .accountSynced account lag =>
    { s with app := s.app.setAccount { account with positions := s.broker.portfolio lag } }
  | .status status now => { s with orders := s.orders.applyStatus status now }
  | .killSwitchMoved killSwitch => { s with risk := { s.risk with killSwitch } }
  | .filled i quantity => { s with broker := s.broker.fill i quantity }
  | .ended i => { s with broker := s.broker.finish i }

/-- Flattening begins with no exit sent. The cached account, if there is one, shows the positions. -/
def start (cfg : StrategyConfig) (calendar : MarketCalendar) (app : AppState) (risk : RiskEngine)
    (orders : OrderManager) (positions : Dict String Position) : FastLoop where
  cfg
  calendar
  app := { app with account := app.account.map fun account => { account with positions } }
  risk
  orders
  broker := { opening := positions, positions }

/-! ### What the loop leaves alone -/

/-- The fast loop never touches the configuration, the limits or the daily state. -/
structure Frame (s s' : FastLoop) : Prop where
  cfg : s'.cfg = s.cfg
  calendar : s'.calendar = s.calendar
  riskCfg : s'.risk.cfg = s.risk.cfg
  app : s.app.SameDay s'.app

/-- A segment of the loop also leaves the broker and the cached account as they are. -/
structure Segment (s s' : FastLoop) : Prop extends Frame s s' where
  account : s'.app.account = s.app.account
  broker : s'.broker = s.broker

theorem Frame.refl (s : FastLoop) : Frame s s := ⟨rfl, rfl, rfl, .refl _⟩

theorem Frame.trans {s s' s'' : FastLoop} (h : Frame s s') (h' : Frame s' s'') : Frame s s'' :=
  ⟨h'.cfg.trans h.cfg, h'.calendar.trans h.calendar, h'.riskCfg.trans h.riskCfg, h.app.trans h'.app⟩

theorem Segment.trans {s s' s'' : FastLoop} (h : Segment s s') (h' : Segment s' s'') : Segment s s'' :=
  ⟨h.toFrame.trans h'.toFrame, h'.account.trans h.account, h'.broker.trans h.broker⟩

/-- A relation that everything a segment is made of keeps, once the tick has made its checks. -/
structure KeptAfterChecks (R : FastLoop → FastLoop → Prop) : Prop where
  trans : ∀ {s s' s'' : FastLoop}, R s s' → R s' s'' → R s s''
  moved : ∀ (s : FastLoop) (task : FastAt) (orders : OrderManager), R s { s with task, orders }
  expired : ∀ (s : FastLoop) (now : Now), R s (s.expireApprovals now)
  asked : ∀ (s : FastLoop) (orderId : ℤ) (ok : Bool), R s (s.cancelled orderId ok)

/-- The same with the checks. -/
structure KeptInSegments (R : FastLoop → FastLoop → Prop) : Prop extends KeptAfterChecks R where
  looked : ∀ (s : FastLoop) (now : Now), R s { s with risk := s.risk.lookSwitch now }
  checked : ∀ (s : FastLoop) (now : Now) (account : AccountSnapshot), R s (s.checkLoss now account)

section

variable {R : FastLoop → FastLoop → Prop} {s : FastLoop} {reason : String} {now : Now}
  {quotes : String → Option Quote} {eodNext : Bool} {after : FastLoop → FastLoop}

theorem KeptAfterChecks.expireFrom (h : KeptAfterChecks R) (began : ℚ) (refs : List String) :
    R s (s.expireFrom began refs now) := by
  unfold FastLoop.expireFrom
  split
  · exact h.moved s _ _
  · exact h.expired s now

theorem KeptAfterChecks.cancelThenExit (h : KeptAfterChecks R) {symbol : String} {p : Position} {refs : List String}
    {left : List (String × Position)} :
    R s (s.cancelThenExit reason now quotes eodNext symbol p refs left) := by
  unfold FastLoop.cancelThenExit
  split
  · exact h.moved s _ _
  · exact h.moved s _ _

theorem KeptAfterChecks.closeNext (h : KeptAfterChecks R) {left : List (String × Position)} (hafter : R s (after s)) :
    R s (s.closeNext reason now quotes eodNext after left) := by
  cases left with
  | nil => exact hafter
  | cons e left => exact h.cancelThenExit

theorem KeptAfterChecks.cancelThenClose (h : KeptAfterChecks R) {refs : List String} {left : List (String × Position)}
    (hafter : R s (after s)) :
    R s (s.cancelThenClose reason now quotes eodNext after refs left) := by
  unfold FastLoop.cancelThenClose
  split
  · exact h.moved s _ _
  · exact h.closeNext hafter

theorem KeptAfterChecks.flattenAll (h : KeptAfterChecks R) (hafter : R s (after s)) :
    R s (s.flattenAll reason now quotes eodNext after) := by
  unfold FastLoop.flattenAll
  split
  · exact hafter
  · exact h.cancelThenClose hafter

theorem KeptAfterChecks.afterFlatten (h : KeptAfterChecks R) : R s (FastLoop.afterFlatten now quotes eodNext s) := by
  unfold FastLoop.afterFlatten
  split_ifs
  · exact h.flattenAll (h.expireFrom _ _)
  · exact h.expireFrom _ _

theorem KeptAfterChecks.flattenDue (h : KeptAfterChecks R) {account : AccountSnapshot} :
    R s (s.flattenDue now quotes account) := by
  unfold FastLoop.flattenDue
  dsimp only
  split_ifs
  · exact h.flattenAll h.afterFlatten
  · exact h.afterFlatten

theorem KeptInSegments.tick (h : KeptInSegments R) {connected : Bool} : R s (s.tick now quotes connected) := by
  have hlook := h.looked s now
  unfold FastLoop.tick
  dsimp only
  split
  · exact h.trans hlook (h.trans (h.checked _ now _) h.flattenDue)
  · exact hlook

theorem KeptAfterChecks.cancelReturned (h : KeptAfterChecks R) {ok : Bool} : R s (s.cancelReturned now quotes ok) := by
  unfold FastLoop.cancelReturned
  split
  · exact h.moved s _ _
  · exact h.trans (h.asked s _ ok) (h.expireFrom _ _)
  · split
    · exact h.trans (h.asked s _ ok) (h.cancelThenClose h.afterFlatten)
    · exact h.trans (h.asked s _ ok) h.cancelThenExit
    · exact h.moved s _ _

end

/-- The rule for the whole loop. -/
structure Kept (R : FastLoop → FastLoop → Prop) : Prop extends KeptInSegments R where
  replied : ∀ (s : FastLoop) (now : Now) (symbol : String) (spec : BrokerOrderSpec)
    (reply : Except String BrokerOrderStatus), R s (s.replied now symbol spec reply)
  synced : ∀ (s : FastLoop) (account : AccountSnapshot),
    R s { s with app := s.app.setAccount account }
  tripped : ∀ (s : FastLoop) (killSwitch : KillSwitch), R s { s with risk := { s.risk with killSwitch } }
  filled : ∀ (s : FastLoop) (broker : BrokerBook), R s { s with broker }

theorem Kept.step {R : FastLoop → FastLoop → Prop} (h : Kept R) (s : FastLoop) (e : Event) :
    R s (s.step e) := by
  cases e with
  | ticked connected now quotes =>
    unfold FastLoop.step
    dsimp only
    split
    · exact h.tick
    · exact h.moved s s.task s.orders
  | cancelReturned ok now quotes => exact h.cancelReturned
  | placeReturned reply now quotes =>
    show R s (s.placeReturned now quotes reply)
    unfold placeReturned
    split
    · split
      · exact h.trans (h.replied s now _ _ reply) (h.closeNext h.afterFlatten)
      · exact h.moved s s.task s.orders
    · exact h.moved s s.task s.orders
  | accountSynced account lag => exact h.synced s _
  | status status now => exact h.moved s s.task _
  | killSwitchMoved killSwitch => exact h.tripped s killSwitch
  | filled i quantity => exact h.filled s _
  | ended i => exact h.filled s _

theorem kept_segment : KeptInSegments Segment where
  trans := Segment.trans
  moved := fun _ _ _ => ⟨⟨rfl, rfl, rfl, .refl _⟩, rfl, rfl⟩
  expired := fun _ _ => ⟨⟨rfl, rfl, rfl, rfl, rfl, rfl, rfl, fun _ hp => (List.mem_filter.mp hp).1⟩, rfl, rfl⟩
  looked := fun _ _ => ⟨⟨rfl, rfl, rfl, .refl _⟩, rfl, rfl⟩
  checked := by
    intro s now account
    have hcfg : (s.risk.checkDailyLoss account s.app.startingEquity now).2.cfg = s.risk.cfg := by
      unfold RiskEngine.checkDailyLoss
      split_ifs <;> rfl
    exact ⟨⟨rfl, rfl, hcfg, rfl, rfl, rfl, rfl, fun _ hp => hp⟩, rfl, rfl⟩
  asked := fun _ _ _ => ⟨⟨rfl, rfl, rfl, .refl _⟩, rfl, rfl⟩

theorem frame_replied (s : FastLoop) (now : Now) (symbol : String) (spec : BrokerOrderSpec)
    (reply : Except String BrokerOrderStatus) : Frame s (s.replied now symbol spec reply) := by
  cases reply with
  | error error => exact .refl s
  | ok status => exact ⟨rfl, rfl, rfl, .noteClose _ _ _⟩

theorem kept_frame : Kept Frame where
  trans := Frame.trans
  moved := fun s task orders => (kept_segment.moved s task orders).toFrame
  expired := fun s now => (kept_segment.expired s now).toFrame
  looked := fun s now => (kept_segment.looked s now).toFrame
  checked := fun s now account => (kept_segment.checked s now account).toFrame
  asked := fun s orderId ok => (kept_segment.asked s orderId ok).toFrame
  replied := frame_replied
  synced := fun _ _ => ⟨rfl, rfl, rfl, .setAccount _ _⟩
  tripped := fun _ _ => ⟨rfl, rfl, rfl, .refl _⟩
  filled := fun _ _ => ⟨rfl, rfl, rfl, .refl _⟩

theorem kept_sameCycle : Kept fun s s' => s.app.SameCycle s'.app where
  trans := AppState.SameCycle.trans
  moved := fun _ _ _ => .refl _
  expired := fun _ _ => ⟨rfl, List.filter_sublist⟩
  looked := fun _ _ => .refl _
  checked := fun _ _ _ => ⟨rfl, List.Sublist.refl _⟩
  asked := fun _ _ _ => .refl _
  replied := by
    intro s now symbol spec reply
    cases reply with
    | error error => exact .refl _
    | ok status => exact ⟨rfl, List.Sublist.refl _⟩
  synced := fun _ _ => .setAccount _ _
  tripped := fun _ _ => .refl _
  filled := fun _ _ => .refl _

/-! ### The flag of the daily loss limit -/

/-- The event is a tick that looks at a loss which has reached the limit. -/
def observesLoss (s : FastLoop) : Event → Bool
  | .ticked connected _ _ => match s.task, connected, s.app.account with
    | .idle, true, some account => RiskEngine.breaches s.risk.cfg account s.app.startingEquity
    | _, _, _ => false
  | _ => false

theorem risk_afterChecks : KeptAfterChecks fun s s' => s'.risk = s.risk where
  trans := fun h h' => h'.trans h
  moved := fun _ _ _ => rfl
  expired := fun _ _ => rfl
  asked := fun _ _ _ => rfl

theorem dailyLossTripped_step (s : FastLoop) (e : Event) :
    (s.step e).risk.dailyLossTripped = (s.risk.dailyLossTripped || s.observesLoss e) := by
  have hkept : ∀ {s' : FastLoop}, s'.risk = s.risk →
      s'.risk.dailyLossTripped = (s.risk.dailyLossTripped || false) := by
    intro s' hrisk
    rw [hrisk, Bool.or_false]
  cases e with
  | ticked connected now quotes =>
    unfold FastLoop.step observesLoss
    dsimp only
    cases s.task with
    | idle =>
      unfold tick
      dsimp only
      cases connected with
      | false => exact (Bool.or_false _).symm
      | true =>
        cases haccount : s.app.account with
        | none => exact (Bool.or_false _).symm
        | some account =>
          dsimp only
          rw [risk_afterChecks.flattenDue]
          exact RiskEngine.dailyLossTripped_checkDailyLoss _ account s.app.startingEquity now
    | flattening eodNext f => exact hkept rfl
    | expiring began orderId refs => exact hkept rfl
  | cancelReturned ok now quotes => exact hkept risk_afterChecks.cancelReturned
  | placeReturned reply now quotes =>
    refine hkept ?_
    show (s.placeReturned now quotes reply).risk = s.risk
    unfold placeReturned
    split
    · split
      · refine risk_afterChecks.trans ?_ (risk_afterChecks.closeNext risk_afterChecks.afterFlatten)
        cases reply <;> rfl
      · rfl
    · rfl
  | accountSynced account lag => exact hkept rfl
  | status status now => exact hkept rfl
  | killSwitchMoved killSwitch => exact (Bool.or_false _).symm
  | filled i quantity => exact hkept rfl
  | ended i => exact hkept rfl

end FastLoop

end AiTrader
