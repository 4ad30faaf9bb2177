import AiTrader.Broker.Reconcile
import AiTrader.Engine.FastLoop
import AiTrader.Risk.CloseGate

/-!
# Closing a position on request

The model asks for an exit (`_handle_close`), a person approves one (`approve_proposal`), and
`close_position` carries it out. The first two are modelled up to their call of `close_position`, which is a
value (`CloseCall`), and from its return on.

* `model_close_iff`: when a CLOSE of the model gets through. The gate refuses a symbol with a working order,
  and a position that has its stop and its target at the broker is such a symbol.
* `approved_close_fits_iff`: when an approved close fits the position as it is. The approval brings the size
  and the side it was queued with, and nothing compares them with the account.

Both results are about what the gate for exits is given. `evaluate_close` looks at the working symbols and not at the
size, so a CLOSE gets through exactly for a held symbol without a working order, and an approved exit is sent as it
was queued when the gate lets the symbol pass (`approvedExit_eq`). That a position shrinks by its own stop in the
meantime is all it takes for an approved exit to sell more than there is.
-/

namespace AiTrader

open Lib OrderManager

/-! ### The two callers -/

/-- An entry of a cycle record's rejections. -/
structure Rejection where
  symbol : String
  reason : String
  detail : String
  deriving DecidableEq

/-- What a cycle counts. -/
structure CycleRecord where
  approved : ℕ := 0
  rejected : ℕ := 0
  pending : ℕ := 0
  rejections : List Rejection := []
  deriving DecidableEq

/-- A call of `close_position`. -/
structure CloseCall where
  symbol : String
  quantity : ℚ
  isLong : Bool
  reason : String
  deriving DecidableEq

/-- What the two callers work on. -/
structure CloseDesk where
  app : AppState
  risk : RiskEngine
  orders : OrderManager

/-- The text of a verdict's reason. -/
def RiskVerdict.reasonText (v : RiskVerdict) : String := (v.reason.map RejectReason.value).getD "UNKNOWN"

/-- What the model's request leads to. -/
structure Handled where
  desk : CloseDesk
  record : CycleRecord
  call : Option CloseCall := none

namespace CloseDesk

variable (d : CloseDesk)

/-- `_handle_close` up to its call of `close_position`. -/
def handleClose (symbol : String) (account : AccountSnapshot) (phase : SessionPhase)
    (quote : Option Quote) (record : CycleRecord) (cycleId approvalId : String) (now : Now) : Handled :=
  match account.openPositions.get? symbol with
  | none =>
    { desk := d
      record := { record with
        rejections := record.rejections ++
          [{ symbol, reason := "NO_POSITION", detail := "nothing to close" }] } }
  | some position =>
    let verdict := d.risk.evaluateClose symbol quote phase d.orders.workingSymbols now
    let d := { d with risk := d.risk.lookSwitch now }
    if !verdict.approved then
      { desk := d
        record := { record with
          rejected := record.rejected + 1
          rejections := record.rejections ++
            [{ symbol, reason := verdict.reasonText, detail := verdict.detail }] } }
    else if d.app.executionMode = .manual then
      { desk := { d with
          app := { d.app with
            pendingApprovals := d.app.pendingApprovals ++ [{
              id := approvalId
              cycleId
              kind := .close
              symbol
              action := if position.isLong then .sell else .buy
              closeQuantity := position.quantity
              closeIsLong := position.isLong
              createdAt := now.epoch }] } }
        record := { record with pending := record.pending + 1 } }
    else
      { desk := d
        record
        call := some {
          symbol, quantity := position.quantity, isLong := position.isLong
          reason := "model requested exit" } }

/-- `_handle_close` from the return of `close_position` on. -/
def closeHandled (symbol : String) (record : CycleRecord) (result : Except String Unit) (now : Now) :
    Handled :=
  match result with
  | .ok () =>
    { desk := { d with app := d.app.noteClose symbol now }
      record := { record with approved := record.approved + 1 } }
  | .error exc =>
    { desk := d
      record := { record with
        rejections := record.rejections ++ [{ symbol, reason := "CLOSE_FAILED", detail := exc }] } }

/-- `approve_proposal` for a close, up to its call of `close_position`. -/
def approveClose (approvalId : String) (phase : SessionPhase) (quotes : String → Option Quote)
    (now : Now) : CloseDesk × Option CloseCall :=
  match d.app.pendingApprovals.find? fun p => p.id = approvalId with
  | none => (d, none)
  | some approval =>
    let d := { d with app := { d.app with pendingApprovals := d.app.pendingApprovals.erase approval } }
    if approval.kind = .close then
      let verdict := d.risk.evaluateClose approval.symbol (quotes approval.symbol) phase
        d.orders.workingSymbols now
      let d := { d with risk := d.risk.lookSwitch now }
      if verdict.approved then
        (d, some {
          symbol := approval.symbol, quantity := approval.closeQuantity
          isLong := approval.closeIsLong, reason := "approved by user" })
      else (d, none)
    else (d, none)

end CloseDesk

/-! ### `close_position` -/

/-- What becomes of a call of `cancel_order`: the cancel goes out, the adapter finds no such order at the
broker and logs that, or the call raises. -/
inductive CancelReply
  | sent | notFound | raised
  deriving DecidableEq

/-- What `close_position` has done by its call of `place_single`. -/
structure ClosedPosition where
  cancels : List (ManagedOrder × CancelReply)
  orders : OrderManager
  exit : BrokerOrderSpec

namespace OrderManager

/-- `cancel_symbol_orders`, with nothing else running meanwhile: the records whose cancel it asks for. -/
def cancelSymbolOrders (m : OrderManager) (symbol : String) (reply : ManagedOrder → CancelReply) :
    List (ManagedOrder × CancelReply) :=
  (m.orders.values.filter fun mo =>
    FastLoop.ofSymbol symbol mo && (truthy mo.ibOrderId).isSome).map fun mo => (mo, reply mo)

/-- `close_position`, with nothing else running meanwhile. -/
def closePosition (m : OrderManager) (call : CloseCall) (reply : ManagedOrder → CancelReply)
    (quote : Option Quote) (now : Now) : ClosedPosition :=
  let cancels := m.cancelSymbolOrders call.symbol reply
  let started := m.closePositionStart call.symbol call.quantity call.isLong call.reason quote now
  { cancels, orders := started.1, exit := started.2 }

end OrderManager

/-! ### A CLOSE of the model -/

namespace CloseDesk

/-- The request gets through: `close_position` is called for the whole position, or in manual mode an
approval for all of it is queued. -/
def GoesThrough (d : CloseDesk) (out : Handled) (symbol : String) (p : Position) : Prop :=
  match d.app.executionMode with
  | .auto => ∃ call, out.call = some call ∧ call.symbol = symbol ∧ call.quantity = p.quantity ∧
      call.isLong = p.isLong
  | .manual => ∃ approval,
      out.desk.app.pendingApprovals = d.app.pendingApprovals ++ [approval] ∧ approval.kind = .close ∧
        approval.symbol = symbol ∧ approval.closeQuantity = p.quantity ∧ approval.closeIsLong = p.isLong

variable (d : CloseDesk) {symbol : String} {account : AccountSnapshot} {phase : SessionPhase}
  {quote : Option Quote} (record : CycleRecord) (cycleId approvalId : String) {now : Now} {p : Position}

theorem handleClose_of_refused (hheld : account.openPositions.get? symbol = some p)
    (hrefused : (d.risk.evaluateClose symbol quote phase d.orders.workingSymbols now).approved = false) :
    (d.handleClose symbol account phase quote record cycleId approvalId now).call = none ∧
      (d.handleClose symbol account phase quote record cycleId approvalId now).desk.app = d.app := by
  unfold handleClose
  rw [hheld]
  dsimp only
  rw [hrefused]
  exact ⟨rfl, rfl⟩

theorem goesThrough_of_approved (hheld : account.openPositions.get? symbol = some p)
    (happroved : (d.risk.evaluateClose symbol quote phase d.orders.workingSymbols now).approved = true) :
    GoesThrough d (d.handleClose symbol account phase quote record cycleId approvalId now) symbol p := by
  unfold GoesThrough handleClose
  rw [hheld]
  dsimp only
  rw [happroved]
  cases hmode : d.app.executionMode with
  | auto => exact ⟨_, rfl, rfl, rfl, rfl⟩
  | manual => exact ⟨_, rfl, rfl, rfl, rfl, rfl⟩

/-- **When the model can close a position**, the gate's other conditions being met: no order for the symbol
is working, and the legs that protect it are such orders. -/
theorem model_close_iff (hheld : account.openPositions.get? symbol = some p)
    (hswitch : d.risk.killSwitch.isTripped = false) (hphase : phase.isTradeable = true)
    (hquote : RiskEngine.quoteTradeable d.risk.cfg quote now = true) :
    GoesThrough d (d.handleClose symbol account phase quote record cycleId approvalId now) symbol p ↔
      ∀ ref mo, d.orders.orders.get? ref = some mo → mo.symbol = symbol → mo.isWorking = false := by
  have hworking : symbol ∉ d.orders.workingSymbols ↔
      ∀ ref mo, d.orders.orders.get? ref = some mo → mo.symbol = symbol → mo.isWorking = false := by
    rw [OrderManager.mem_workingSymbols]
    constructor
    · intro h ref mo hget hsymbol
      by_contra hworks
      exact h ⟨ref, mo, hget, by simpa using hworks, hsymbol⟩
    · rintro h ⟨ref, mo, hget, hworks, hsymbol⟩
      rw [h ref mo hget hsymbol] at hworks
      cases hworks
  rw [← hworking]
  constructor
  · intro hthrough hmem
    have hrefused : (d.risk.evaluateClose symbol quote phase d.orders.workingSymbols now).approved =
        false := by
      by_contra happroved
      have hall := RiskEngine.approved_evaluateClose.mp (by simpa using happroved)
      exact hall.2.2.1 hmem
    obtain ⟨hcall, happ⟩ := d.handleClose_of_refused record cycleId approvalId hheld hrefused
    unfold GoesThrough at hthrough
    cases hmode : d.app.executionMode with
    | auto =>
      rw [hmode] at hthrough
      obtain ⟨call, hsome, _⟩ := hthrough
      rw [hcall] at hsome
      cases hsome
    | manual =>
      rw [hmode] at hthrough
      obtain ⟨approval, hqueue, _⟩ := hthrough
      rw [happ] at hqueue
      simp at hqueue
  · intro hfree
    refine d.goesThrough_of_approved record cycleId approvalId hheld ?_
    exact RiskEngine.approved_evaluateClose.mpr ⟨hswitch, hphase, hfree, hquote⟩

/-! #### A bracket that has filled -/

def tenShares : SizedOrder where
  proposal := { symbol := "AAPL", action := .buy, conviction := 1, horizonMinutes := 60 }
  symbol := "AAPL"
  action := .buy
  quantity := 10
  entryPrice := 100
  stopPrice := 97
  targetPrice := 106
  riskAmount := 30
  notional := 1000

def openingBell : Now := .sample 0 0

/-- The broker's word on one order of the bracket. -/
def legStatus (kind : String) (orderId : ℤ) (status : String) (filled : ℚ) : BrokerOrderStatus where
  orderRef := makeRef "c1" "AAPL" kind "2025-01-02"
  orderId
  permId := none
  status
  filled
  remaining := 10 - filled
  avgFillPrice := none

/-- The order manager once the entry of a bracket for ten AAPL has filled; the stop and the target rest at
the broker. -/
def bracketHeld : OrderManager :=
  let placing := (({} : OrderManager).placeBracketStart tenShares "c1" openingBell).1
  let placed := (placing.placeBracketFinish tenShares
    (.ok [legStatus "ENTRY" 7 "Submitted" 0, legStatus "STOP" 8 "PreSubmitted" 0,
      legStatus "TARGET" 9 "PreSubmitted" 0]) openingBell).1
  placed.applyStatus (legStatus "ENTRY" 7 "Filled" 10) openingBell

def tenHeld : Position := { symbol := "AAPL", quantity := 10, avgCost := 100 }

def accountOf (positions : Dict String Position) : AccountSnapshot where
  accountId := "DU1"
  equity := 100000
  cash := 99000
  buyingPower := 99000
  positions
  asOf := 0

def aaplQuote : Quote := { symbol := "AAPL", bid := some 99, ask := some 101, updatedAt := 0 }

def closeDesk (executionMode : ExecutionMode) (orders : OrderManager) : CloseDesk where
  app := { executionMode }
  risk := { cfg := {}, killSwitch := {} }
  orders

theorem model_close_iff_unbracketed :
    GoesThrough (closeDesk .auto {}) ((closeDesk .auto {}).handleClose "AAPL"
        (accountOf (Dict.empty.set "AAPL" tenHeld)) .rth (some aaplQuote) {} "c1" "a1" openingBell)
        "AAPL" tenHeld ↔
      ∀ ref mo, (closeDesk .auto {}).orders.orders.get? ref = some mo → mo.symbol = "AAPL" →
        mo.isWorking = false :=
  (closeDesk .auto {}).model_close_iff {} "c1" "a1" (by decide +kernel) (by decide +kernel)
    (by decide +kernel) (by decide +kernel)

/-- The two orders that work for AAPL are the legs of the position's own bracket. A CLOSE of the model is
refused as a duplicate in auto mode, and in manual mode it does not even reach the person. -/
theorem bracketed_close_refused :
    (bracketHeld.workingOrders.map fun mo => (mo.orderRef, mo.parentRef)) =
        [(makeRef "c1" "AAPL" "STOP" "2025-01-02", some (makeRef "c1" "AAPL" "ENTRY" "2025-01-02")),
          (makeRef "c1" "AAPL" "TARGET" "2025-01-02", some (makeRef "c1" "AAPL" "ENTRY" "2025-01-02"))] ∧
      RiskEngine.quoteTradeable {} (some aaplQuote) openingBell = true ∧
      ∀ mode, ¬ GoesThrough (closeDesk mode bracketHeld) ((closeDesk mode bracketHeld).handleClose
        "AAPL" (accountOf (Dict.empty.set "AAPL" tenHeld)) .rth (some aaplQuote) {} "c1" "a1" openingBell)
        "AAPL" tenHeld := by
  refine ⟨by decide +kernel, by decide +kernel, fun mode hthrough => ?_⟩
  cases mode with
  | auto =>
    obtain ⟨call, hcall, _⟩ := hthrough
    have hnone : ((closeDesk .auto bracketHeld).handleClose "AAPL"
        (accountOf (Dict.empty.set "AAPL" tenHeld)) .rth (some aaplQuote) {} "c1" "a1" openingBell).call =
          none := by decide +kernel
    rw [hnone] at hcall
    cases hcall
  | manual =>
    obtain ⟨approval, hqueue, _⟩ := hthrough
    have hempty : ((closeDesk .manual bracketHeld).handleClose "AAPL"
        (accountOf (Dict.empty.set "AAPL" tenHeld)) .rth (some aaplQuote) {} "c1" "a1"
          openingBell).desk.app.pendingApprovals = [] := by decide +kernel
    rw [hempty] at hqueue
    cases hqueue

end CloseDesk

/-! ### The legs when the exit goes out -/

/-- When the exit goes out, the broker has accepted a cancel for every working order of the symbol. -/
def ExitAfterCancels (m : OrderManager) (symbol : String) (closed : ClosedPosition) : Prop :=
  ∀ mo ∈ m.orders.values, mo.symbol = symbol → mo.isWorking = true → (mo, .sent) ∈ closed.cancels

namespace OrderManager

theorem mem_cancelSymbolOrders {m : OrderManager} {symbol : String} {reply : ManagedOrder → CancelReply}
    {mo : ManagedOrder} {r : CancelReply} :
    (mo, r) ∈ m.cancelSymbolOrders symbol reply ↔
      mo ∈ m.orders.values ∧ mo.symbol = symbol ∧ mo.isWorking = true ∧
        (truthy mo.ibOrderId).isSome = true ∧ reply mo = r := by
  simp only [cancelSymbolOrders, List.mem_map, List.mem_filter, FastLoop.ofSymbol, Bool.and_eq_true,
    decide_eq_true_eq, Prod.mk.injEq]
  constructor
  · rintro ⟨mo', ⟨hmem, ⟨hsymbol, hworks⟩, hid⟩, rfl, hreply⟩
    exact ⟨hmem, hsymbol, hworks, hid, hreply⟩
  · rintro ⟨hmem, hsymbol, hworks, hid, hreply⟩
    exact ⟨mo, ⟨hmem, ⟨hsymbol, hworks⟩, hid⟩, rfl, hreply⟩

end OrderManager

/-- **When no leg is live beside the exit.** The exit always goes out, so the condition is on the working
orders: each has the broker's id, and its cancel goes out. -/
theorem exit_after_cancels_iff (m : OrderManager) (call : CloseCall) (reply : ManagedOrder → CancelReply)
    (quote : Option Quote) (now : Now) :
    ExitAfterCancels m call.symbol (m.closePosition call reply quote now) ↔
      ∀ mo ∈ m.orders.values, mo.symbol = call.symbol → mo.isWorking = true →
        (truthy mo.ibOrderId).isSome = true ∧ reply mo = .sent := by
  refine forall₂_congr fun mo hmem => forall₂_congr fun hsymbol hworks => ?_
  rw [OrderManager.closePosition, OrderManager.mem_cancelSymbolOrders]
  constructor
  · rintro ⟨-, -, -, hid, hreply⟩
    exact ⟨hid, hreply⟩
  · rintro ⟨hid, hreply⟩
    exact ⟨hmem, hsymbol, hworks, hid, hreply⟩

/-- The cancel of the stop raises and is logged; the exit for the ten shares goes out beside it. -/
theorem exit_beside_stop :
    ¬ ExitAfterCancels CloseDesk.bracketHeld "AAPL" (CloseDesk.bracketHeld.closePosition
      { symbol := "AAPL", quantity := 10, isLong := true, reason := "end of day" }
      (fun mo => if mo.ibOrderId = some 8 then .raised else .sent) none CloseDesk.openingBell) := by
  intro h
  have hstop : ∃ mo ∈ CloseDesk.bracketHeld.orders.values, mo.symbol = "AAPL" ∧ mo.isWorking = true ∧
      (mo, CancelReply.sent) ∉ (CloseDesk.bracketHeld.closePosition
        { symbol := "AAPL", quantity := 10, isLong := true, reason := "end of day" }
        (fun mo => if mo.ibOrderId = some 8 then .raised else .sent) none
          CloseDesk.openingBell).cancels := by decide +kernel
  obtain ⟨mo, hmem, hsymbol, hworks, hnot⟩ := hstop
  exact hnot (h mo hmem hsymbol hworks)

/-! ### An approved close -/

/-- The exit closes what the account holds, and no more of it. -/
def FitsAccount (account : Option AccountSnapshot) (exit : BrokerOrderSpec) : Prop :=
  ∃ a p, account = some a ∧ a.openPositions.get? exit.symbol = some p ∧ exit.action = exitSide p ∧
    exit.quantity ≤ |p.quantity|

theorem exit_action_eq_iff {m : OrderManager} {symbol : String} {quantity : ℚ} {isLong : Bool}
    {quote : Option Quote} {now : Now} {p : Position} :
    (m.exitSpec symbol quantity isLong quote now).action = exitSide p ↔ isLong = p.isLong := by
  show (if isLong = true then "SELL" else "BUY") = (if p.isLong = true then "SELL" else "BUY") ↔ _
  cases isLong <;> cases p.isLong <;> decide

namespace CloseDesk

/-- The exit that `approve_proposal` sends for a close, if it sends one. The gate has seen that no order for
the symbol works, so `close_position` has nothing to cancel and gets to its exit at once. -/
def approvedExit (d : CloseDesk) (approvalId : String) (phase : SessionPhase)
    (quotes : String → Option Quote) (reply : ManagedOrder → CancelReply) (quote : Option Quote) (now : Now) :
    Option BrokerOrderSpec :=
  let approved := d.approveClose approvalId phase quotes now
  approved.2.map fun call => (approved.1.orders.closePosition call reply quote now).exit

/-- The close gate lets the symbol pass. -/
def Admits (d : CloseDesk) (symbol : String) (phase : SessionPhase) (quote : Option Quote) (now : Now) : Prop :=
  d.risk.killSwitch.isTripped = false ∧ phase.isTradeable = true ∧ symbol ∉ d.orders.workingSymbols ∧
    RiskEngine.quoteTradeable d.risk.cfg quote now = true

instance (d : CloseDesk) (symbol : String) (phase : SessionPhase) (quote : Option Quote) (now : Now) :
    Decidable (d.Admits symbol phase quote now) :=
  inferInstanceAs (Decidable (_ ∧ _))

theorem cancelSymbolOrders_of_admits {d : CloseDesk} {symbol : String} {phase : SessionPhase}
    {quote : Option Quote} {now : Now} (h : d.Admits symbol phase quote now)
    (reply : ManagedOrder → CancelReply) : d.orders.cancelSymbolOrders symbol reply = [] := by
  rw [List.eq_nil_iff_forall_not_mem]
  rintro ⟨mo, r⟩ hmem
  obtain ⟨hvalue, hsymbol, hworks, -⟩ := mem_cancelSymbolOrders.mp hmem
  exact h.2.2.1 (mem_workingSymbols.mpr ⟨_, mo, OrderBook.mem_values.mp hvalue, hworks, hsymbol⟩)

variable (d : CloseDesk) {approvalId : String} {approval : PendingApproval} {phase : SessionPhase}
  {quotes : String → Option Quote} (reply : ManagedOrder → CancelReply) (quote : Option Quote) {now : Now}

theorem approvedExit_eq (hfound : (d.app.pendingApprovals.find? fun p => p.id = approvalId) = some approval)
    (hkind : approval.kind = .close) :
    d.approvedExit approvalId phase quotes reply quote now =
      if d.Admits approval.symbol phase (quotes approval.symbol) now then
        some (d.orders.exitSpec approval.symbol approval.closeQuantity approval.closeIsLong quote now)
      else none := by
  unfold approvedExit approveClose
  rw [hfound]
  dsimp only
  rw [if_pos hkind]
  split_ifs with happroved hadmits hadmits
  · rfl
  · exact absurd (RiskEngine.approved_evaluateClose.mp happroved) hadmits
  · exact absurd (RiskEngine.approved_evaluateClose.mpr hadmits) happroved
  · rfl

/-- **When an approved close fits the position as it is**: the gate refuses it, or the account still holds
the symbol, on the side of the approval and at least in its size. -/
theorem approved_close_fits_iff
    (hfound : (d.app.pendingApprovals.find? fun p => p.id = approvalId) = some approval)
    (hkind : approval.kind = .close) :
    (∀ exit, d.approvedExit approvalId phase quotes reply quote now = some exit →
        FitsAccount d.app.account exit) ↔
      (d.Admits approval.symbol phase (quotes approval.symbol) now → ∃ a p, d.app.account = some a ∧
        a.openPositions.get? approval.symbol = some p ∧ approval.closeIsLong = p.isLong ∧
          |approval.closeQuantity| ≤ |p.quantity|) := by
  rw [d.approvedExit_eq reply quote hfound hkind]
  by_cases hadmits : d.Admits approval.symbol phase (quotes approval.symbol) now
  · rw [if_pos hadmits]
    constructor
    · intro h _
      obtain ⟨a, p, haccount, hheld, haction, hquantity⟩ := h _ rfl
      exact ⟨a, p, haccount, hheld, exit_action_eq_iff.mp haction, hquantity⟩
    · rintro h exit ⟨⟩
      obtain ⟨a, p, haccount, hheld, hside, hquantity⟩ := h hadmits
      exact ⟨a, p, haccount, hheld, exit_action_eq_iff.mpr hside, hquantity⟩
  · rw [if_neg hadmits]
    exact ⟨fun _ h => absurd h hadmits, fun _ exit hnone => by cases hnone⟩

def aaplApproval : PendingApproval where
  id := "a1"
  kind := .close
  symbol := "AAPL"
  action := .sell
  closeQuantity := 10
  closeIsLong := true
  createdAt := 0

/-- A close of ten AAPL waits, and the account has become `positions`. -/
def approvalWaiting (positions : Dict String Position) : CloseDesk where
  app := {
    account := some (accountOf positions)
    executionMode := .manual
    pendingApprovals := [aaplApproval] }
  risk := { cfg := {}, killSwitch := {} }
  orders := {}

def fourHeld : Dict String Position := Dict.empty.set "AAPL" { tenHeld with quantity := 4 }

theorem approved_close_fits_iff_reduced :
    (∀ exit, (approvalWaiting fourHeld).approvedExit "a1" .rth (fun _ => some aaplQuote) (fun _ => .sent)
        none openingBell = some exit → FitsAccount (approvalWaiting fourHeld).app.account exit) ↔
      ((approvalWaiting fourHeld).Admits aaplApproval.symbol .rth (some aaplQuote) openingBell → ∃ a p,
        (approvalWaiting fourHeld).app.account = some a ∧
          a.openPositions.get? aaplApproval.symbol = some p ∧ aaplApproval.closeIsLong = p.isLong ∧
            |aaplApproval.closeQuantity| ≤ |p.quantity|) :=
  (approvalWaiting fourHeld).approved_close_fits_iff (fun _ => .sent) none rfl rfl

/-- The position is gone when the person says yes: the approval sells ten shares short. -/
theorem approved_close_opens_short :
    ¬ ∀ exit, (approvalWaiting Dict.empty).approvedExit "a1" .rth (fun _ => some aaplQuote)
      (fun _ => .sent) none openingBell = some exit →
        FitsAccount (approvalWaiting Dict.empty).app.account exit := by
  intro h
  have hsent : (approvalWaiting Dict.empty).approvedExit "a1" .rth (fun _ => some aaplQuote)
      (fun _ => .sent) none openingBell =
        some (exitSpec {} "AAPL" 10 true none openingBell) := by decide +kernel
  have hgone : (accountOf Dict.empty).openPositions.get? "AAPL" = none := by decide +kernel
  obtain ⟨a, p, haccount, hheld, -⟩ := h _ hsent
  obtain rfl := Option.some.inj haccount
  rw [show (exitSpec {} "AAPL" 10 true none openingBell).symbol = "AAPL" from rfl, hgone] at hheld
  cases hheld

end CloseDesk

end AiTrader
