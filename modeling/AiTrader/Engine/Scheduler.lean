import AiTrader.Broker.Gateway
import AiTrader.Engine.FastLoop
import AiTrader.Engine.Submission

/-!
# The trading engine

`TradingEngine` adds to the fast loop the rest of the process: the gateway, the schedule loop with its
once-a-day passes, the decision loop with its cycles, and the dashboard's approvals. Each loop is modelled
as the place where it is suspended; `Event` is what happens next. A submission suspends where the order
manager hands the bracket to the broker.

`History` keeps what the code does not store: the last planning pass and the account it fetched, which day's
review set `eod_done`, the first baseline of the day, which days the approved entries fell on, whether the
gateway was cut during the cycle, and the state in which every submission was made. It is written where the
events come in, not by the functions that set the daily state.

The laws about runs are derived in later modules from a few relations. `Calm` relates the state before and after a
step that neither resets nor submits; the loops move on, the fast loop may raise the flag of the daily loss, and
nothing of the day changes. The other steps are a submission or its return (`submit_cases`, `noteVerdict_cases`), the
planning pass, a start and the passing of time. `step_cases_of_running` reduces a property of the state after a step
to these.
-/

namespace AiTrader

open Lib

/-! ### Where the loops are suspended -/

/-- In `run_premarket`: in the account fetch, or in anything after the reset. -/
inductive PremarketAt
  | fetching
  | planning
  deriving DecidableEq

/-- `day` is the day the review began. -/
inductive ScheduleAt
  | idle
  | premarket (suspended : PremarketAt)
  | eodFetching (day : ℤ)
  | eodReviewing (day : ℤ)
  deriving DecidableEq

inductive CycleAt
  | fetching
  | deciding (account : AccountSnapshot)
  | placing (account : AccountSnapshot) (entry : Submission)

/-- `day` is the day the cycle began; its `session` is never looked up again. -/
inductive DecisionAt
  | idle
  | premarket (suspended : PremarketAt)
  | cycle (day : ℤ) (session : SessionInfo) (suspended : CycleAt)

def DecisionAt.inCycle : DecisionAt → Bool
  | cycle _ _ _ => true
  | _ => false

/-- One when the cycle is suspended in `place_bracket`. -/
def DecisionAt.inFlight : DecisionAt → ℕ
  | cycle _ _ (.placing _ _) => 1
  | _ => 0

/-! ### The past -/

/-- A planning pass that has fetched its account. -/
structure SessionReset where
  day : ℤ
  equity : ℚ
  /-- The number of entries approved before it. -/
  before : ℕ
  /-- A loss that has reached the limit has been looked at since. -/
  breached : Bool := false
  deriving DecidableEq

def SessionReset.noteLoss (r : SessionReset) (observed : Bool) : SessionReset :=
  { r with breached := r.breached || observed }

/-- The state a `submit` was called in, with the daily state it used. `placed` tells whether it called
`place_bracket`. -/
structure Attempt where
  day : ℤ
  isTradingDay : Bool
  startingEquity : ℚ
  tradesToday : ℤ
  dailyLossTripped : Bool
  /-- The last planning pass of the process. -/
  reset : Option SessionReset
  /-- The number of entries approved so far. -/
  approved : ℕ
  tradeable : Bool
  placed : Bool
  deriving DecidableEq

/-- An end-of-day pass skipped because `eod_done` was up, and the day whose review had set it. -/
structure SkippedReview where
  day : ℤ
  reviewedDay : Option ℤ
  deriving DecidableEq

structure History where
  /-- The last day with a start of the process or with a schedule tick in PREMARKET that could trade. -/
  attendedDay : ℤ
  /-- The last planning pass of the process. -/
  reset : Option SessionReset := none
  reviewedDay : Option ℤ := none
  /-- The first baseline of the last day that has one. -/
  baseline : Option (ℤ × ℚ) := none
  /-- The UTC date of the start that recorded it, if it was not a planning pass. -/
  savedOn : Option String := none
  /-- The day of every entry that was approved. -/
  approved : List ℤ := []
  /-- How many of them came before the last start or planning pass. -/
  zeroed : ℕ := 0
  attempts : List Attempt := []
  skipped : List SkippedReview := []
  /-- The gateway was cut since the last cycle began. -/
  interrupted : Bool := false

namespace History

/-- The day of the last planning pass. -/
def resetDay (h : History) : Option ℤ := h.reset.map SessionReset.day

def noteLoss (h : History) (observed : Bool) : History := { h with reset := h.reset.map fun r => r.noteLoss observed }

@[simp] theorem resetDay_noteLoss (h : History) (observed : Bool) : (h.noteLoss observed).resetDay = h.resetDay := by
  rw [resetDay, noteLoss, Option.map_map]
  rfl

/-- The first baseline of a day stays the first. -/
def recordBaseline (h : History) (day : ℤ) (equity : ℚ) (savedOn : Option String) : History :=
  { h with
    baseline := if h.baseline.map Prod.fst = some day then h.baseline else some (day, equity)
    savedOn := if h.baseline.map Prod.fst = some day then h.savedOn else savedOn }

end History

structure TradingEngine extends FastLoop where
  isLive : Bool
  /-- The process is up. -/
  running : Bool := true
  now : Now
  gateway : Gateway
  store : StateStore
  schedule : ScheduleAt := .idle
  decision : DecisionAt := .idle
  /-- `approve_proposal` calls suspended in `place_bracket`. -/
  approvals : List Submission := []
  history : History

namespace TradingEngine

variable (s : TradingEngine)

def session : SessionInfo := s.calendar.info s.now.epoch

def today : ℤ := s.calendar.etDate s.now.epoch

/-- The submissions suspended in `place_bracket`. -/
def inFlight : ℕ := s.approvals.length + s.decision.inFlight

/-! ### Submissions -/

/-- What a submission learns about the order besides its size. -/
structure EntryInputs where
  quote : Option Quote
  decisionAgeSeconds : ℚ := 0
  riskOfficerApproved : Bool := true
  riskOfficerComment : String := ""
  avgVolume : ℚ

def context (account : AccountSnapshot) (session : SessionInfo) (i : EntryInputs) : RiskContext where
  account
  quote := i.quote
  phase := session.phase
  minutesToClose := session.minutesToClose
  isLive := s.isLive
  startingEquity := s.app.startingEquity
  entriesThisCycle := s.app.entriesThisCycle
  tradesToday := s.app.tradesToday
  workingSymbols := s.orders.workingSymbols
  lastEntry := s.app.lastEntry
  lastClose := s.app.lastClose
  decisionAgeSeconds := i.decisionAgeSeconds
  riskOfficerApproved := i.riskOfficerApproved
  riskOfficerComment := i.riskOfficerComment
  avgVolume := i.avgVolume

def desk : Desk := { risk := s.risk, orders := s.orders }

def noteAttempt (ctx : RiskContext) (placed : Bool) : TradingEngine :=
  { s with
    history := { s.history.noteLoss (RiskEngine.breaches s.risk.cfg ctx.account ctx.startingEquity) with
      attempts := s.history.attempts ++ [{
        day := s.today
        isTradingDay := s.session.isTradingDay
        startingEquity := ctx.startingEquity
        tradesToday := ctx.tradesToday
        dailyLossTripped := s.risk.dailyLossTripped
        reset := s.history.reset
        approved := s.history.approved.length
        tradeable := s.gateway.isTradeable
        placed }] } }

/-- `submit` up to its suspension. -/
def submit (order : SizedOrder) (ctx : RiskContext) (cycleId : String) : TradingEngine × Submitted :=
  let out := s.desk.submit order ctx cycleId s.now
  ({ s.noteAttempt ctx out.2.1 with risk := out.1.risk, orders := out.1.orders }, out.2.2)

/-- `note_entry`, when the verdict is an approval. -/
def noteVerdict (symbol : String) (verdict : RiskVerdict) : TradingEngine :=
  if verdict.approved then
    { s with
      app := s.app.noteEntry symbol s.now
      history := { s.history with approved := s.history.approved ++ [s.today] } }
  else s

/-- The broker has answered `place_bracket`, or raised; `submit` returns. -/
def finishEntry (entry : Submission) (reply : Except String (List BrokerOrderStatus)) : TradingEngine :=
  let out := s.desk.finish entry reply s.now
  { s with orders := out.1.orders, risk := out.1.risk }.noteVerdict entry.symbol out.2

/-! ### The once-a-day passes -/

/-- `run_premarket` from the return of the account fetch to its next suspension. -/
def resetForNewSession (account : AccountSnapshot) : TradingEngine :=
  { s with
    app := (s.app.setAccount account).resetForNewSession account.equity
    risk := s.risk.resetForNewSession }

def notePlan (account : AccountSnapshot) : TradingEngine :=
  { s with
    history := { s.history.recordBaseline s.today account.equity none with
      reset := some { day := s.today, equity := account.equity, before := s.history.approved.length }
      zeroed := s.history.approved.length } }

/-- The two loops that may be in `run_premarket`. -/
inductive PlanningLoop
  | schedule | decision
  deriving DecidableEq

def planning : PlanningLoop → Option PremarketAt
  | .schedule => match s.schedule with
    | .premarket suspended => some suspended
    | _ => none
  | .decision => match s.decision with
    | .premarket suspended => some suspended
    | _ => none

def suspendIn (loop : PlanningLoop) (suspended : PremarketAt) : TradingEngine :=
  match loop with
  | .schedule => { s with schedule := .premarket suspended }
  | .decision => { s with decision := .premarket suspended }

def rest (loop : PlanningLoop) : TradingEngine :=
  match loop with
  | .schedule => { s with schedule := .idle }
  | .decision => { s with decision := .idle }

def planFetched (loop : PlanningLoop) (reply : Except String AccountSnapshot) : TradingEngine :=
  if s.planning loop = some .fetching then
    match reply with
    | .ok account => ((s.resetForNewSession account).notePlan account).suspendIn loop .planning
    | .error _ => s.rest loop
  else s

/-- The rest of `run_premarket` ends, by an exception when `ok` is false. -/
def planned (loop : PlanningLoop) (ok : Bool) : TradingEngine :=
  if s.planning loop = some .planning then
    { s with app := { s.app with premarketDone := s.app.premarketDone || ok } }.rest loop
  else s

/-- The window `_schedule_tick` runs the planning pass in. -/
def premarketDue : Bool :=
  decide (s.session.phase = .premarket) && match s.session.minutesToOpen with
    | some minutes => decide (minutes ≤ s.cfg.cadence.premarketStartMinutesBeforeOpen)
    | none => false

/-- The window `_schedule_tick` runs the review in. -/
def reviewDue : Bool :=
  decide (s.session.phase = .afterHours) && match s.session.minutesToClose with
    | some minutes => decide (minutes < -5)
    | none => false

/-- `_schedule_tick` up to its first suspension. The two windows exclude each other. -/
def scheduleTick : TradingEngine :=
  if !s.session.isTradingDay || !s.gateway.isTradeable then s
  else if s.session.phase = .premarket then
    let s := { s with history := { s.history with attendedDay := s.today } }
    if !s.app.premarketDone && s.premarketDue then { s with schedule := .premarket .fetching } else s
  else if s.reviewDue then
    if s.app.eodDone then
      { s with
        history := { s.history with
          skipped := s.history.skipped ++ [{ day := s.today, reviewedDay := s.history.reviewedDay }] } }
    else { s with schedule := .eodFetching s.today }
  else s

def eodFetched (reply : Except String AccountSnapshot) : TradingEngine :=
  match s.schedule with
  | .eodFetching day =>
    match reply with
    | .ok account => { s with app := s.app.setAccount account, schedule := .eodReviewing day }
    | .error _ => { s with schedule := .idle }
  | _ => s

/-- The rest of `run_eod` ends, by an exception when `ok` is false. -/
def eodReviewed (ok : Bool) : TradingEngine :=
  match s.schedule with
  | .eodReviewing day =>
    if ok then
      { s with
        app := { s.app with eodDone := true }
        schedule := .idle
        history := { s.history with reviewedDay := some day } }
    else { s with schedule := .idle }
  | _ => s

/-! ### Decision cycles -/

/-- `_maybe_run_cycle` up to its first suspension. -/
def decisionTick (deterministicOnly : Bool) : TradingEngine :=
  if !s.session.phase.isTradeable || !s.gateway.isTradeable then s
  else
    let s := { s with risk := s.risk.lookSwitch s.now }
    if s.risk.killSwitch.isTripped then s
    else if !s.app.premarketDone then { s with decision := .premarket .fetching }
    else if deterministicOnly then s
    else
      { s with
        app := { s.app with entriesThisCycle := 0 }
        decision := .cycle s.today s.session .fetching
        history := { s.history with interrupted := false } }

def cycleFetched (reply : Except String AccountSnapshot) : TradingEngine :=
  match s.decision with
  | .cycle day session .fetching =>
    match reply with
    | .ok account =>
      { s with app := s.app.setAccount account, decision := .cycle day session (.deciding account) }
    | .error _ => { s with decision := .idle }
  | _ => s

/-- `_execute` at a proposal that has been sized and reviewed: it waits for a person in manual mode. -/
def proposed (order : SizedOrder) (i : EntryInputs) (cycleId approvalId : String) : TradingEngine :=
  match s.decision with
  | .cycle day session (.deciding account) =>
    if s.app.executionMode = .manual then
      { s with
        app := { s.app with
          pendingApprovals := s.app.pendingApprovals ++ [{
            id := approvalId
            cycleId
            kind := .entry
            symbol := order.symbol
            action := order.action
            sized := some order
            createdAt := s.now.epoch }] } }
    else
      let out := s.submit order (s.context account session i) cycleId
      match out.2 with
      | .returned verdict => out.1.noteVerdict order.symbol verdict
      | .placing verdict =>
        { out.1 with
          decision := .cycle day session
            (.placing account { order, verdict, symbol := order.symbol }) }
  | _ => s

/-- `_handle_close` of a held symbol that may be closed, in manual mode. -/
def closeProposed (symbol : String) (p : Position) (cycleId approvalId : String) : TradingEngine :=
  match s.decision with
  | .cycle _ _ (.deciding _) =>
    { s with
      app := { s.app with
        pendingApprovals := s.app.pendingApprovals ++ [{
          id := approvalId
          cycleId
          kind := .close
          symbol
          action := if p.isLong then .sell else .buy
          closeQuantity := p.quantity
          closeIsLong := p.isLong
          createdAt := s.now.epoch }] } }
  | _ => s

def cyclePlaced (reply : Except String (List BrokerOrderStatus)) : TradingEngine :=
  match s.decision with
  | .cycle day session (.placing account entry) =>
    { s with decision := .cycle day session (.deciding account) }.finishEntry entry reply
  | _ => s

/-- The cycle returns, or an exception ends it. -/
def cycleEnded : TradingEngine :=
  match s.decision with
  | .cycle _ _ (.deciding _) => { s with decision := .idle }
  | _ => s

/-! ### The dashboard -/

/-- `approve_proposal`. `resized` is the order at the current price, if there still is one. What follows
from an approved close is `closed`. -/
def clicked (id : String) (resized : Option SizedOrder) (i : EntryInputs) : TradingEngine :=
  match s.app.pendingApprovals.find? fun p => p.id = id with
  | none => s
  | some approval =>
    let s := { s with
      app := { s.app with pendingApprovals := s.app.pendingApprovals.erase approval } }
    match approval.kind, s.app.account, approval.sized, resized with
    | .entry, some account, some _, some order =>
      let i := { i with decisionAgeSeconds := 0, riskOfficerApproved := true, riskOfficerComment := "" }
      let out := s.submit order (s.context account s.session i) approval.cycleId
      match out.2 with
      | .returned verdict => out.1.noteVerdict approval.symbol verdict
      | .placing verdict =>
        { out.1 with
          approvals := out.1.approvals ++ [{ order, verdict, symbol := approval.symbol }] }
    | _, _, _, _ => s

def approvalPlaced (i : ℕ) (reply : Except String (List BrokerOrderStatus)) : TradingEngine :=
  match s.approvals[i]? with
  | some entry => { s with approvals := s.approvals.eraseIdx i }.finishEntry entry reply
  | none => s

/-- `reject_proposal`. -/
def skipped (id : String) : TradingEngine :=
  match s.app.pendingApprovals.find? fun p => p.id = id with
  | none => s
  | some approval =>
    { s with app := { s.app with pendingApprovals := s.app.pendingApprovals.erase approval } }

/-- `set_execution_mode`; a write that raises fails the request and leaves the mode switched. -/
def setExecutionMode (mode : ExecutionMode) : TradingEngine :=
  { s with
    app := { s.app with executionMode := mode }
    store := (s.store.setExecutionMode mode).getD s.store }

/-! ### Start -/

/-- The process ends, and with it every suspended task. -/
def stop : TradingEngine :=
  { s with task := .idle, running := false, schedule := .idle, decision := .idle, approvals := [] }

/-- `start` from the account fetch on: the baseline it adopts, and the store, unless the write raises. -/
def adoptEquity (account : AccountSnapshot) : ℚ × Option StateStore :=
  let record := (account.equity,
    s.store.setStartingEquity { day := s.now.date, equity := account.equity })
  match s.store.startingEquity with
  | some saved => if saved.day = s.now.date then (saved.equity, some s.store) else record
  | none => record

/-- A process starts on the same store: `orders` is what `load_from_store` makes of it, the kill switch
reads its sentinel and its row, everything else in memory is fresh. -/
def restarted (orders : OrderManager) (accountId : String) (reply : Except String AccountSnapshot) :
    TradingEngine :=
  match reply with
  | .error _ => s.stop
  | .ok account =>
    let adopted := s.adoptEquity account
    match adopted.2 with
    | none => s.stop
    | some store =>
      { s with
        app := {
          account := some account
          startingEquity := adopted.1
          peakEquity := max adopted.1 account.equity
          executionMode := store.executionMode.getD .auto }
        risk := {
          cfg := s.cfg.risk
          killSwitch := KillSwitch.init s.risk.killSwitch.sentinel s.risk.killSwitch.sentinelLocked
            s.risk.killSwitch.store s.cfg.risk.killSwitchAction s.now
          store := s.risk.store }
        orders
        task := .idle
        running := true
        gateway := Gateway.initial accountId
        store
        schedule := .idle
        decision := .idle
        approvals := []
        history := { s.history.recordBaseline s.today adopted.1 (some s.now.date) with
          attendedDay := s.today
          reset := none
          zeroed := s.history.approved.length } }

/-! ### Runs -/

inductive Event
  | advanced (now : Now)
  | restarted (orders : OrderManager) (accountId : String) (reply : Except String AccountSnapshot)
  | stopped
  | gateway (e : Gateway.Event)
  | fast (e : FastLoop.Event)
  /-- Reconciliation, a broker event or an exit moves the order manager. -/
  | ordersMoved (orders : OrderManager)
  | scheduleTicked
  | planFetched (loop : PlanningLoop) (reply : Except String AccountSnapshot)
  | planned (loop : PlanningLoop) (ok : Bool)
  | eodFetched (reply : Except String AccountSnapshot)
  | eodReviewed (ok : Bool)
  | decisionTicked (deterministicOnly : Bool)
  | cycleFetched (reply : Except String AccountSnapshot)
  | proposed (order : SizedOrder) (i : EntryInputs) (cycleId approvalId : String)
  | cyclePlaced (reply : Except String (List BrokerOrderStatus))
  | cycleEnded
  /-- `_handle_close` in manual mode. -/
  | closeProposed (symbol : String) (p : Position) (cycleId approvalId : String)
  /-- A close asked for by the model or by a person has been sent. -/
  | closed (symbol : String)
  | clicked (id : String) (resized : Option SizedOrder) (i : EntryInputs)
  | approvalPlaced (i : ℕ) (reply : Except String (List BrokerOrderStatus))
  | skipped (id : String)
  | modeSet (mode : ExecutionMode)

/-- A step of the running process. -/
def act (s : TradingEngine) : Event → TradingEngine
  | .advanced _ => s
  | .restarted _ _ _ => s
  | .stopped => s.stop
  | .gateway e =>
    { s with
      gateway := s.gateway.step e
      history := { s.history with interrupted := s.history.interrupted || s.gateway.cuts e } }
  | .fast e =>
    { s with
      toFastLoop := s.toFastLoop.step e
      history := s.history.noteLoss (s.toFastLoop.observesLoss e) }
  | .ordersMoved orders => { s with orders }
  | .scheduleTicked => if s.schedule = .idle then s.scheduleTick else s
  | .planFetched loop reply => s.planFetched loop reply
  | .planned loop ok => s.planned loop ok
  | .eodFetched reply => s.eodFetched reply
  | .eodReviewed ok => s.eodReviewed ok
  | .decisionTicked deterministicOnly =>
    match s.decision with
    | .idle => s.decisionTick deterministicOnly
    | _ => s
  | .cycleFetched reply => s.cycleFetched reply
  | .proposed order i cycleId approvalId => s.proposed order i cycleId approvalId
  | .cyclePlaced reply => s.cyclePlaced reply
  | .cycleEnded => s.cycleEnded
  | .closeProposed symbol p cycleId approvalId => s.closeProposed symbol p cycleId approvalId
  | .closed symbol => { s with app := s.app.noteClose symbol s.now }
  | .clicked id resized i => s.clicked id resized i
  | .approvalPlaced i reply => s.approvalPlaced i reply
  | .skipped id => s.skipped id
  | .modeSet mode => s.setExecutionMode mode

/-- Time never goes back; a process that is down does nothing but start again. -/
def step (s : TradingEngine) (e : Event) : TradingEngine :=
  match e with
  | .advanced now => if s.now.epoch ≤ now.epoch ∧ s.now.mono ≤ now.mono then { s with now } else s
  | .restarted orders accountId reply => s.restarted orders accountId reply
  | e => if s.running then s.act e else s

/-- Before the first start. The calendar's windows are those of the configuration. -/
def off (cfg : StrategyConfig) (isLive : Bool) (calendar : MarketCalendar) (now : Now)
    (killSwitch : KillSwitch) (store : StateStore) (positions : Dict String Position) :
    TradingEngine where
  cfg
  calendar := { calendar with
    premarketMinutes := cfg.cadence.premarketStartMinutesBeforeOpen
    openingRangeMinutes := cfg.cadence.openingRangeMinutes }
  app := {}
  risk := { cfg := cfg.risk, killSwitch, store := some store }
  orders := {}
  broker := { opening := positions, positions }
  isLive
  running := false
  now
  gateway := Gateway.initial ""
  store
  history := { attendedDay := calendar.etDate now.epoch }

/-! ### What a step does -/

variable {s : TradingEngine}

/-- A property of the state after a step, from the four things a step can be. -/
theorem step_cases_of_running {P : TradingEngine → Prop} {e : Event} (hsame : P s)
    (hadvanced : ∀ now, e = .advanced now → s.now.epoch ≤ now.epoch → P { s with now })
    (hrestarted : ∀ orders accountId reply, e = .restarted orders accountId reply →
      P (s.restarted orders accountId reply))
    (hact : s.running = true → P (s.act e)) : P (s.step e) := by
  have hrun : P (if s.running then s.act e else s) := by
    split_ifs with hrunning
    · exact hact hrunning
    · exact hsame
  cases e with
  | advanced now =>
    unfold step
    dsimp only
    split_ifs with htime
    · exact hadvanced now rfl htime.1
    · exact hsame
  | restarted orders accountId reply => exact hrestarted orders accountId reply rfl
  | _ => exact hrun

theorem step_cases {P : TradingEngine → Prop} {e : Event} (hsame : P s)
    (hadvanced : ∀ now, e = .advanced now → s.now.epoch ≤ now.epoch → P { s with now })
    (hrestarted : ∀ orders accountId reply, e = .restarted orders accountId reply →
      P (s.restarted orders accountId reply))
    (hact : P (s.act e)) : P (s.step e) :=
  step_cases_of_running hsame hadvanced hrestarted fun _ => hact

/-- The daily state is what the last planning pass has made of it, with what has come since: the baseline is the
equity it fetched, the counter counts the entries approved since, and the flag tells whether a loss at the limit
has been looked at. -/
def SinceReset (s : TradingEngine) : Prop :=
  ∀ r ∈ s.history.reset, s.app.startingEquity = r.equity ∧
    s.app.tradesToday = s.history.approved.length - r.before ∧ s.risk.dailyLossTripped = r.breached

/-- From `s` to `s'` nothing has moved that the laws of the day are about: a cycle or an approval may have
ended, none has begun. -/
structure Calm (s s' : TradingEngine) : Prop where
  now : s'.now = s.now
  calendar : s'.calendar = s.calendar
  cfg : s'.cfg = s.cfg
  riskCfg : s'.risk.cfg = s.risk.cfg
  gateway : s'.gateway = s.gateway
  app : s.app.SameDay s'.app
  history : s'.history = { s.history with reset := s'.history.reset }
  resetDay : s'.history.resetDay = s.history.resetDay
  since : s.SinceReset → s'.SinceReset
  saved : s'.store.startingEquity = s.store.startingEquity
  cycle : ∀ day session suspended, s'.decision = .cycle day session suspended →
    ∃ before, s.decision = .cycle day session before
  inFlight : s'.inFlight ≤ s.inFlight

theorem Calm.same {α : Type} {s s' : TradingEngine} (h : Calm s s') (f : History → α)
    (hf : ∀ (history : History) reset, f { history with reset } = f history) : f s'.history = f s.history :=
  (congrArg f h.history).trans (hf _ _)

theorem same_cycle (s : TradingEngine) : ∀ day session suspended,
    s.decision = .cycle day session suspended → ∃ before, s.decision = .cycle day session before :=
  fun _ _ suspended h => ⟨suspended, h⟩

theorem no_cycle {decision : DecisionAt} (h : decision.inCycle = false) : ∀ day session suspended,
    decision = .cycle day session suspended → ∃ before, s.decision = .cycle day session before := by
  intro day session suspended heq
  rw [heq] at h
  cases h

theorem le_inFlight (s : TradingEngine) {decision : DecisionAt} (hzero : decision.inFlight = 0) :
    s.approvals.length + decision.inFlight ≤ s.inFlight := by
  rw [hzero]
  exact Nat.le_add_right _ _

theorem SinceReset.of_same {s' : TradingEngine} (h : s.SinceReset) (happ : s.app.SameDay s'.app)
    (hflag : s'.risk.dailyLossTripped = s.risk.dailyLossTripped) (hreset : s'.history.reset = s.history.reset)
    (happroved : s'.history.approved = s.history.approved) : s'.SinceReset := by
  intro r hr
  rw [hreset] at hr
  rw [happ.startingEquity, happ.tradesToday, hflag, happroved]
  exact h r hr

theorem Calm.refl (s : TradingEngine) : Calm s s :=
  ⟨rfl, rfl, rfl, rfl, rfl, .refl _, rfl, rfl, id, rfl, s.same_cycle, le_rfl⟩

theorem Calm.elsewhere (s : TradingEngine) {running : Bool} {store : StateStore} {schedule : ScheduleAt}
    {orders : OrderManager} {app : AppState} (happ : s.app.SameDay app)
    (hsaved : store.startingEquity = s.store.startingEquity) :
    Calm s { s with running, store, schedule, orders, app } :=
  ⟨rfl, rfl, rfl, rfl, rfl, happ, rfl, rfl, fun h => h.of_same happ rfl rfl rfl, hsaved, s.same_cycle, le_rfl⟩

theorem Calm.leave (s : TradingEngine) {decision : DecisionAt} (hcycle : decision.inCycle = false)
    (hflight : decision.inFlight = 0) : Calm s { s with decision } :=
  ⟨rfl, rfl, rfl, rfl, rfl, .refl _, rfl, rfl, id, rfl, no_cycle hcycle, s.le_inFlight hflight⟩

theorem calm_suspendIn (s : TradingEngine) (loop : PlanningLoop) (suspended : PremarketAt) :
    Calm s (s.suspendIn loop suspended) := by
  cases loop with
  | schedule => exact .elsewhere s (.refl _) rfl
  | decision => exact .leave s rfl rfl

theorem calm_rest (s : TradingEngine) (loop : PlanningLoop) : Calm s (s.rest loop) := by
  cases loop with
  | schedule => exact .elsewhere s (.refl _) rfl
  | decision => exact .leave s rfl rfl

theorem calm_stop (s : TradingEngine) : Calm s s.stop :=
  ⟨rfl, rfl, rfl, rfl, rfl, .refl _, rfl, rfl, id, rfl, no_cycle rfl, Nat.zero_le _⟩

theorem calm_eodFetched (s : TradingEngine) (reply : Except String AccountSnapshot) :
    Calm s (s.eodFetched reply) := by
  unfold eodFetched
  split
  · cases reply with
    | ok account => exact .elsewhere s (.setAccount _ _) rfl
    | error error => exact .elsewhere s (.refl _) rfl
  · exact .refl s

theorem calm_cycleFetched (s : TradingEngine) (reply : Except String AccountSnapshot) :
    Calm s (s.cycleFetched reply) := by
  unfold cycleFetched
  split
  · rename_i day session hdecision
    cases reply with
    | ok account =>
      have happ : s.app.SameDay (s.app.setAccount account) := .setAccount _ _
      refine ⟨rfl, rfl, rfl, rfl, rfl, happ, rfl, rfl, fun h => h.of_same happ rfl rfl rfl, rfl,
        fun day' session' suspended heq => ?_, s.le_inFlight rfl⟩
      cases heq
      exact ⟨_, hdecision⟩
    | error error => exact .leave s rfl rfl
  · exact .refl s

theorem calm_cycleEnded (s : TradingEngine) : Calm s s.cycleEnded := by
  unfold cycleEnded
  split
  · exact .leave s rfl rfl
  · exact .refl s

theorem calm_skipped (s : TradingEngine) (id : String) : Calm s (s.skipped id) := by
  unfold skipped
  split
  · exact .refl s
  · exact .elsewhere s ⟨rfl, rfl, rfl, rfl, fun _ hp => List.mem_of_mem_erase hp⟩ rfl

theorem calm_fast (s : TradingEngine) (e : FastLoop.Event) : Calm s (s.act (.fast e)) := by
  have hframe := FastLoop.kept_frame.step s.toFastLoop e
  refine ⟨rfl, hframe.calendar, hframe.cfg, hframe.riskCfg, rfl, hframe.app, rfl, s.history.resetDay_noteLoss _,
    fun h r hr => ?_, rfl, s.same_cycle, le_rfl⟩
  obtain ⟨r, hbefore, rfl⟩ := Option.map_eq_some_iff.mp hr
  obtain ⟨hequity, htrades, hflag⟩ := h r hbefore
  refine ⟨hframe.app.startingEquity.trans hequity, hframe.app.tradesToday.trans htrades, ?_⟩
  exact (s.toFastLoop.dailyLossTripped_step e).trans (congrArg (· || s.toFastLoop.observesLoss e) hflag)

/-- The events that leave the day as it is. -/
def Event.isCalm : Event → Bool
  | .advanced _ | .restarted _ _ _ | .stopped | .fast _ | .ordersMoved _ | .eodFetched _ | .cycleFetched _
  | .cycleEnded | .closed _ | .skipped _ | .modeSet _ => true
  | _ => false

theorem calm_act (s : TradingEngine) {e : Event} (he : e.isCalm = true) : Calm s (s.act e) := by
  cases e with
  | advanced now => exact .refl s
  | restarted orders accountId reply => exact .refl s
  | stopped => exact calm_stop s
  | fast e => exact calm_fast s e
  | ordersMoved orders => exact .elsewhere s (.refl _) rfl
  | eodFetched reply => exact calm_eodFetched s reply
  | cycleFetched reply => exact calm_cycleFetched s reply
  | cycleEnded => exact calm_cycleEnded s
  | closed symbol => exact .elsewhere s (.noteClose _ _ _) rfl
  | skipped id => exact calm_skipped s id
  | modeSet mode => exact .elsewhere s ⟨rfl, rfl, rfl, rfl, fun _ hp => hp⟩ (s.store.startingEquity_setExecutionMode mode)
  | _ => cases he

theorem sameCycle_act (s : TradingEngine) {e : Event} (he : e.isCalm = true) :
    s.app.SameCycle (s.act e).app := by
  cases e with
  | fast e => exact FastLoop.kept_sameCycle.step s.toFastLoop e
  | eodFetched reply =>
    show s.app.SameCycle (s.eodFetched reply).app
    unfold eodFetched
    split
    · cases reply with
      | ok account => exact .setAccount _ _
      | error error => exact .refl _
    · exact .refl _
  | cycleFetched reply =>
    show s.app.SameCycle (s.cycleFetched reply).app
    unfold cycleFetched
    split
    · cases reply with
      | ok account => exact .setAccount _ _
      | error error => exact .refl _
    · exact .refl _
  | cycleEnded =>
    show s.app.SameCycle s.cycleEnded.app
    unfold cycleEnded
    split <;> exact .refl _
  | closed symbol => exact ⟨rfl, List.Sublist.refl _⟩
  | skipped id =>
    show s.app.SameCycle (s.skipped id).app
    unfold skipped
    split
    · exact .refl _
    · exact ⟨rfl, List.erase_sublist⟩
  | modeSet mode => exact ⟨rfl, List.Sublist.refl _⟩
  | advanced now => exact .refl _
  | restarted orders accountId reply => exact .refl _
  | stopped => exact .refl _
  | ordersMoved orders => exact .refl _
  | _ => cases he

/-- The loops move, and of the rest only flags of the day, the counter of the cycle, the switch and the history. -/
structure Routine (s s' : TradingEngine) : Prop where
  now : s'.now = s.now
  cfg : s'.cfg = s.cfg
  pending : s'.app.pendingApprovals = s.app.pendingApprovals
  lastClose : s'.app.lastClose = s.app.lastClose

theorem Routine.refl (s : TradingEngine) : Routine s s := ⟨rfl, rfl, rfl, rfl⟩

theorem routine_rest (s : TradingEngine) (loop : PlanningLoop) : Routine s (s.rest loop) := by
  cases loop <;> exact ⟨rfl, rfl, rfl, rfl⟩

/-- The events that move the loops on. -/
def Event.isRoutine : Event → Bool
  | .gateway _ | .scheduleTicked | .planned _ _ | .eodReviewed _ | .decisionTicked _ => true
  | _ => false

theorem routine_act (s : TradingEngine) {e : Event} (he : e.isRoutine = true) : Routine s (s.act e) := by
  cases e with
  | gateway e => exact ⟨rfl, rfl, rfl, rfl⟩
  | scheduleTicked =>
    unfold act scheduleTick
    dsimp only
    split_ifs <;> exact ⟨rfl, rfl, rfl, rfl⟩
  | planned loop ok =>
    show Routine s (s.planned loop ok)
    unfold planned
    split_ifs
    · cases loop <;> exact ⟨rfl, rfl, rfl, rfl⟩
    · exact .refl s
  | eodReviewed ok =>
    show Routine s (s.eodReviewed ok)
    unfold eodReviewed
    split
    · split_ifs <;> exact ⟨rfl, rfl, rfl, rfl⟩
    · exact .refl s
  | decisionTicked deterministicOnly =>
    unfold act
    dsimp only
    split
    · unfold decisionTick
      dsimp only
      split_ifs <;> exact ⟨rfl, rfl, rfl, rfl⟩
    · exact .refl s
  | _ => cases he

/-- A submission notes its attempt and changes the gate and the order manager; it is approved, now or when
the broker answers, only where the gate has passed it. -/
theorem submit_cases (s : TradingEngine) (order : SizedOrder) (ctx : RiskContext) (cycleId : String) :
    ∃ placed risk orders,
      (s.submit order ctx cycleId).1 = { s.noteAttempt ctx placed with risk, orders } ∧
        risk.cfg = s.risk.cfg ∧
        ((∃ verdict, (s.submit order ctx cycleId).2 = .returned verdict ∧
            (verdict.approved = true → s.risk.Passed order ctx s.now)) ∨
          ∃ verdict, (s.submit order ctx cycleId).2 = .placing verdict ∧
            s.risk.Passed order ctx s.now) := by
  obtain ⟨hcfg, hsubmitted⟩ := s.desk.submit_cases order ctx cycleId s.now
  refine ⟨_, _, _, rfl, hcfg, ?_⟩
  rcases hsubmitted with ⟨verdict, hverdict, hpassed, _⟩ | ⟨verdict, hverdict, hpassed, _⟩
  · exact Or.inl ⟨verdict, hverdict, hpassed⟩
  · exact Or.inr ⟨verdict, hverdict, hpassed⟩

section Submit

variable (s : TradingEngine) (order : SizedOrder) (ctx : RiskContext) (cycleId : String)

theorem app_submit : (s.submit order ctx cycleId).1.app = s.app := by
  obtain ⟨placed, risk, orders, heq, _, _⟩ := s.submit_cases order ctx cycleId
  rw [heq]
  rfl

theorem decision_submit : (s.submit order ctx cycleId).1.decision = s.decision := by
  obtain ⟨placed, risk, orders, heq, _, _⟩ := s.submit_cases order ctx cycleId
  rw [heq]
  rfl

theorem approvals_submit : (s.submit order ctx cycleId).1.approvals = s.approvals := by
  obtain ⟨placed, risk, orders, heq, _, _⟩ := s.submit_cases order ctx cycleId
  rw [heq]
  rfl

end Submit

theorem noteVerdict_cases (s : TradingEngine) (symbol : String) (verdict : RiskVerdict) :
    (verdict.approved = false ∧ s.noteVerdict symbol verdict = s) ∨
      verdict.approved = true ∧ s.noteVerdict symbol verdict =
        { s with
          app := s.app.noteEntry symbol s.now
          history := { s.history with approved := s.history.approved ++ [s.today] } } := by
  unfold noteVerdict
  cases happroved : verdict.approved with
  | false => exact Or.inl ⟨rfl, rfl⟩
  | true => exact Or.inr ⟨rfl, rfl⟩

theorem finishEntry_cases (s : TradingEngine) (entry : Submission)
    (reply : Except String (List BrokerOrderStatus)) : ∃ risk orders verdict,
      risk.cfg = s.risk.cfg ∧
        s.finishEntry entry reply = ({ s with orders, risk } : TradingEngine).noteVerdict entry.symbol verdict :=
  ⟨_, _, _, s.desk.cfg_finish _ entry reply, rfl⟩

end TradingEngine

end AiTrader
