import AiTrader.Broker.Port
import AiTrader.Broker.Refs
import AiTrader.Data.Store
import AiTrader.Lib.Decimal
import AiTrader.Lib.Trace

/-!
# The order manager

Its order map is an `OrderBook`: every record sits at its own reference. Routines that suspend on a broker
call are modelled as the segments before and after the call; the reply is a parameter of the second.

The lookup lemmas say what each operation does to the record at one reference: `applyStatus` acts on the
record the status names and on no other (`get?_applyStatus`), persistence acts on none.

Nothing here looks into the order map but through these lemmas, and the later modules do not either: what a run of
statuses, a restart or a reconciliation leaves at a reference is put together from what each operation leaves there.
`Extends` says that the references of one manager are among those of another, `SameRecords` and its like in later
modules that the records are the same.
-/

namespace AiTrader

open Lib

/-- Python's `x or y` on an optional number: zero counts as missing. -/
def truthy {α : Type} [Zero α] [DecidableEq α] (x : Option α) : Option α := x.filter fun v => v ≠ 0

theorem truthy_some {α : Type} [Zero α] [DecidableEq α] {x : α} (h : x ≠ 0) : truthy (some x) = some x := by
  rw [truthy, Option.filter_some, if_pos (by simpa using h)]

/-- The order map. -/
structure OrderBook where
  dict : Dict String ManagedOrder
  keyed : ∀ ref mo, (ref, mo) ∈ dict.entries → mo.orderRef = ref

namespace OrderBook

def empty : OrderBook := ⟨Dict.empty, by simp⟩

def get? (b : OrderBook) (ref : String) : Option ManagedOrder := b.dict.get? ref

def values (b : OrderBook) : List ManagedOrder := b.dict.values

/-- `orders[mo.order_ref] = mo`. -/
def put (b : OrderBook) (mo : ManagedOrder) : OrderBook where
  dict := b.dict.set mo.orderRef mo
  keyed := by
    intro ref mo' hmem
    rcases Dict.mem_entries_set.mp hmem with ⟨rfl, rfl⟩ | ⟨_, hmem⟩
    · rfl
    · exact b.keyed ref mo' hmem

theorem orderRef_of_get? {b : OrderBook} {ref : String} {mo : ManagedOrder} (h : b.get? ref = some mo) :
    mo.orderRef = ref :=
  b.keyed ref mo (Dict.get?_eq_some_iff.mp h)

theorem mem_values {b : OrderBook} {mo : ManagedOrder} :
    mo ∈ b.values ↔ b.get? mo.orderRef = some mo := by
  rw [values, Dict.mem_values, get?, Dict.get?_eq_some_iff]
  refine ⟨fun ⟨ref, hmem⟩ => ?_, fun hmem => ⟨_, hmem⟩⟩
  rw [b.keyed ref mo hmem]
  exact hmem

theorem mem_symbols {b : OrderBook} {p : ManagedOrder → Bool} {symbol : String} :
    symbol ∈ (b.values.filter p).map ManagedOrder.symbol ↔
      ∃ ref mo, b.get? ref = some mo ∧ p mo = true ∧ mo.symbol = symbol := by
  simp only [List.mem_map, List.mem_filter, mem_values]
  constructor
  · rintro ⟨mo, ⟨hget, hp⟩, hsymbol⟩
    exact ⟨_, mo, hget, hp, hsymbol⟩
  · rintro ⟨ref, mo, hget, hp, hsymbol⟩
    have href := orderRef_of_get? hget
    exact ⟨mo, ⟨by rw [href]; exact hget, hp⟩, hsymbol⟩

theorem get?_put (b : OrderBook) (mo : ManagedOrder) (ref : String) :
    (b.put mo).get? ref = if ref = mo.orderRef then some mo else b.get? ref := by
  split_ifs with h
  · rw [h]
    exact Dict.get?_set_self _ _ _
  · exact Dict.get?_set_ne _ _ h

theorem get?_foldl_put_ne {rows : List ManagedOrder} {ref : String} (h : ∀ row ∈ rows, ref ≠ row.orderRef)
    (b : OrderBook) : (rows.foldl put b).get? ref = b.get? ref := by
  induction rows generalizing b with
  | nil => rfl
  | cons row rows ih =>
    rw [List.foldl_cons, ih fun row' hrow' => h row' (List.mem_cons_of_mem _ hrow'), get?_put,
      if_neg (h row List.mem_cons_self)]

theorem get?_foldl_put_mem {rows : List ManagedOrder}
    (hdistinct : rows.Pairwise fun mo mo' => mo.orderRef ≠ mo'.orderRef) (b : OrderBook) :
    ∀ row ∈ rows, (rows.foldl put b).get? row.orderRef = some row := by
  induction rows generalizing b with
  | nil => exact fun row hmem => (nomatch hmem)
  | cons row rows ih =>
    rw [List.pairwise_cons] at hdistinct
    intro row' hmem
    rw [List.foldl_cons]
    rcases List.mem_cons.mp hmem with rfl | hmem
    · rw [get?_foldl_put_ne hdistinct.1, get?_put, if_pos rfl]
    · exact ih hdistinct.2 _ row' hmem

/-- Every record of `b` has one at its reference in `b'`. -/
def Extends (b b' : OrderBook) : Prop := ∀ ref, (b.get? ref).isSome = true → (b'.get? ref).isSome = true

theorem Extends.refl (b : OrderBook) : b.Extends b := fun _ h => h

theorem Extends.trans {b b' b'' : OrderBook} (h : b.Extends b') (h' : b'.Extends b'') : b.Extends b'' :=
  fun ref hget => h' ref (h ref hget)

theorem extends_put (b : OrderBook) (mo : ManagedOrder) : b.Extends (b.put mo) := by
  intro ref hget
  rw [get?_put]
  split_ifs
  · rfl
  · exact hget

theorem extends_foldl_put (b : OrderBook) (rows : List ManagedOrder) : b.Extends (rows.foldl put b) := by
  induction rows generalizing b with
  | nil => exact .refl b
  | cons row rows ih => exact (extends_put b row).trans (ih _)

theorem nodup_refs (b : OrderBook) : (b.values.map ManagedOrder.orderRef).Nodup := by
  have hkeys : b.values.map ManagedOrder.orderRef = b.dict.entries.map Prod.fst := by
    rw [values, Dict.values, List.map_map]
    exact List.map_congr_left fun e he => b.keyed e.1 e.2 he
  rw [hkeys]
  exact b.dict.nodup

end OrderBook

/-- How long a symbol stays blocked after an unresolved submit error. -/
def blockTtlSeconds : ℚ := 600

/-- IBKR status strings mapped to our state machine. -/
def statusMap (status : String) : Option OrderState :=
  match status with
  | "PendingSubmit" => some .pending
  | "PendingCancel" => some .submitted
  | "PreSubmitted" => some .submitted
  | "Submitted" => some .submitted
  | "ApiPending" => some .pending
  | "ApiCancelled" => some .cancelled
  | "Cancelled" => some .cancelled
  | "Filled" => some .filled
  | "Inactive" => some .rejected
  | _ => none

/-- The state an order in state `current` is in after the broker reports `status`. -/
def nextState (current : OrderState) (status : BrokerOrderStatus) : OrderState :=
  let new := (statusMap status.status).getD current
  if 0 < status.filled ∧ new ≠ .filled ∧ new ≠ .cancelled then .partiallyFilled else new

namespace ManagedOrder

/-- The record after the broker reports `status` on it. -/
def absorb (mo : ManagedOrder) (status : BrokerOrderStatus) (now : ℚ) : ManagedOrder :=
  { mo with
    state := nextState mo.state status
    ibOrderId := if status.orderId ≠ 0 then some status.orderId else mo.ibOrderId
    filledQuantity := status.filled
    avgFillPrice := (truthy status.avgFillPrice).orElse fun _ => mo.avgFillPrice
    updatedAt := now }

/-- The record of an order of ours that only the broker knows. It has no prices and no parent. -/
def adopted (status : BrokerOrderStatus) (now : ℚ) : ManagedOrder where
  orderRef := status.orderRef
  symbol := status.symbol
  action := status.action
  quantity := status.filled + status.remaining
  createdAt := now
  updatedAt := now

@[simp] theorem orderRef_absorb (mo : ManagedOrder) (status : BrokerOrderStatus) (now : ℚ) :
    (mo.absorb status now).orderRef = mo.orderRef := rfl

@[simp] theorem orderRef_adopted (status : BrokerOrderStatus) (now : ℚ) :
    (adopted status now).orderRef = status.orderRef := rfl

end ManagedOrder

structure OrderManager where
  store : Option StateStore := none
  limitOffsetPct : ℚ := 1 / 1000
  orders : OrderBook := OrderBook.empty
  fills : List Fill := []
  /-- The value is the monotonic time the block was set. -/
  blockedSymbols : Dict String ℚ := Dict.empty
  seenExecIds : List String := []
  permIds : Dict String ℤ := Dict.empty

namespace OrderManager

/-- `orders[mo.order_ref] = mo`. -/
def put (m : OrderManager) (mo : ManagedOrder) : OrderManager := { m with orders := m.orders.put mo }

/-- `_persist`: a write that raises is logged and forgotten. -/
def persist (m : OrderManager) (mo : ManagedOrder) (permId : Option ℤ) : OrderManager :=
  { m with
    store := m.store.map fun s =>
      (s.saveOrder mo ((truthy permId).orElse fun _ => m.permIds.get? mo.orderRef)).getD s }

def block (m : OrderManager) (symbol : String) (now : Now) : OrderManager :=
  { m with blockedSymbols := m.blockedSymbols.set symbol now.mono }

def unblockExpired (m : OrderManager) (now : Now) : OrderManager :=
  { m with
    blockedSymbols := m.blockedSymbols.filter fun _ blockedAt =>
      !decide (blockTtlSeconds < now.mono - blockedAt) }

/-- The writes that raise; without a store there is none. -/
def faults (m : OrderManager) (w : Write) : Bool := (m.store.map fun s => s.faults w).getD false

@[simp] theorem faults_put (m : OrderManager) (mo : ManagedOrder) : (m.put mo).faults = m.faults := rfl

@[simp] theorem faults_persist (m : OrderManager) (mo : ManagedOrder) (permId : Option ℤ) :
    (m.persist mo permId).faults = m.faults := by
  funext w
  unfold faults persist
  cases m.store with
  | none => rfl
  | some s => exact congrFun (StateStore.faults_saveOrder _ _ _) w

@[simp] theorem orders_put (m : OrderManager) (mo : ManagedOrder) :
    (m.put mo).orders = m.orders.put mo := rfl

@[simp] theorem orders_persist (m : OrderManager) (mo : ManagedOrder) (permId : Option ℤ) :
    (m.persist mo permId).orders = m.orders := rfl

@[simp] theorem blockedSymbols_put (m : OrderManager) (mo : ManagedOrder) :
    (m.put mo).blockedSymbols = m.blockedSymbols := rfl

@[simp] theorem blockedSymbols_persist (m : OrderManager) (mo : ManagedOrder) (permId : Option ℤ) :
    (m.persist mo permId).blockedSymbols = m.blockedSymbols := rfl

@[simp] theorem orders_unblockExpired (m : OrderManager) (now : Now) :
    (m.unblockExpired now).orders = m.orders := rfl

/-! ### Events -/

def notePermId (m : OrderManager) (ref : String) (permId : Option ℤ) : OrderManager :=
  { m with
    permIds := match truthy permId with
      | some permId => m.permIds.set ref permId
      | none => m.permIds }

/-- The transition is recorded when the state has changed; a write that raises is logged. -/
def noteTransition (m : OrderManager) (ref : String) (previous new : OrderState) (rawStatus : String) :
    OrderManager :=
  if previous = new then m
  else
    { m with store := m.store.map fun s => (s.recordTransition ref previous new rawStatus).getD s }

@[simp] theorem orders_notePermId (m : OrderManager) (ref : String) (permId : Option ℤ) :
    (m.notePermId ref permId).orders = m.orders := rfl

@[simp] theorem blockedSymbols_notePermId (m : OrderManager) (ref : String) (permId : Option ℤ) :
    (m.notePermId ref permId).blockedSymbols = m.blockedSymbols := rfl

@[simp] theorem faults_notePermId (m : OrderManager) (ref : String) (permId : Option ℤ) :
    (m.notePermId ref permId).faults = m.faults := rfl

@[simp] theorem orders_noteTransition (m : OrderManager) (ref : String) (previous new : OrderState)
    (rawStatus : String) : (m.noteTransition ref previous new rawStatus).orders = m.orders := by
  rw [noteTransition]
  split_ifs <;> rfl

@[simp] theorem blockedSymbols_noteTransition (m : OrderManager) (ref : String)
    (previous new : OrderState) (rawStatus : String) :
    (m.noteTransition ref previous new rawStatus).blockedSymbols = m.blockedSymbols := by
  rw [noteTransition]
  split_ifs <;> rfl

@[simp] theorem faults_noteTransition (m : OrderManager) (ref : String) (previous new : OrderState)
    (rawStatus : String) : (m.noteTransition ref previous new rawStatus).faults = m.faults := by
  rw [noteTransition]
  split_ifs
  · rfl
  · funext w
    unfold faults
    cases m.store with
    | none => rfl
    | some s => exact congrFun (StateStore.faults_recordTransition _ _ _ _ _) w

/-- The part of `_apply_status` that has found or created the record `mo`. -/
def absorb (m : OrderManager) (mo : ManagedOrder) (status : BrokerOrderStatus) (now : Now) :
    OrderManager :=
  let mo' := mo.absorb status now.epoch
  (((m.put mo').notePermId status.orderRef status.permId).persist mo' status.permId).noteTransition
    status.orderRef mo.state mo'.state status.status

/-- `_apply_status`. -/
def applyStatus (m : OrderManager) (status : BrokerOrderStatus) (now : Now) : OrderManager :=
  match m.orders.get? status.orderRef with
  | some mo => m.absorb mo status now
  | none =>
    if isOurs status.orderRef then m.absorb (ManagedOrder.adopted status now.epoch) status now else m

/-- `_apply_status`, on the one record it is about. -/
def statusOn (now : Now) (status : BrokerOrderStatus) (record : Option ManagedOrder) :
    Option ManagedOrder :=
  match record with
  | some mo => some (mo.absorb status now.epoch)
  | none =>
    if isOurs status.orderRef then
      some ((ManagedOrder.adopted status now.epoch).absorb status now.epoch)
    else none

/-- `on_execution`, deduplicated on the execution id. -/
def onExecution (m : OrderManager) (e : BrokerExecution) : OrderManager :=
  if e.execId ∈ m.seenExecIds then m
  else
    let fill : Fill :=
      { symbol := e.symbol, action := e.action, quantity := e.quantity, price := e.price,
        commission := e.commission, ts := e.ts, orderRef := some e.orderRef }
    { m with
      seenExecIds := e.execId :: m.seenExecIds
      fills := m.fills ++ [fill]
      store := m.store.map fun s => (s.saveFill e.execId fill).getD s }

@[simp] theorem orders_onExecution (m : OrderManager) (e : BrokerExecution) :
    (m.onExecution e).orders = m.orders := by
  rw [onExecution]
  split_ifs <;> rfl

@[simp] theorem orders_absorb (m : OrderManager) (mo : ManagedOrder) (status : BrokerOrderStatus)
    (now : Now) : (m.absorb mo status now).orders = m.orders.put (mo.absorb status now.epoch) := by
  simp [absorb]

@[simp] theorem blockedSymbols_absorb (m : OrderManager) (mo : ManagedOrder)
    (status : BrokerOrderStatus) (now : Now) :
    (m.absorb mo status now).blockedSymbols = m.blockedSymbols := by
  simp [absorb]

@[simp] theorem faults_absorb (m : OrderManager) (mo : ManagedOrder) (status : BrokerOrderStatus)
    (now : Now) : (m.absorb mo status now).faults = m.faults := by
  simp [absorb]

@[simp] theorem faults_applyStatus (m : OrderManager) (status : BrokerOrderStatus) (now : Now) :
    (m.applyStatus status now).faults = m.faults := by
  rw [applyStatus]
  split
  · exact faults_absorb _ _ _ _
  · split_ifs
    · exact faults_absorb _ _ _ _
    · rfl

@[simp] theorem blockedSymbols_applyStatus (m : OrderManager) (status : BrokerOrderStatus) (now : Now) :
    (m.applyStatus status now).blockedSymbols = m.blockedSymbols := by
  rw [applyStatus]
  split
  · exact blockedSymbols_absorb _ _ _ _
  · split_ifs
    · exact blockedSymbols_absorb _ _ _ _
    · rfl

theorem get?_applyStatus (m : OrderManager) (status : BrokerOrderStatus) (now : Now) (ref : String) :
    (m.applyStatus status now).orders.get? ref =
      if ref = status.orderRef then statusOn now status (m.orders.get? ref) else m.orders.get? ref := by
  unfold applyStatus statusOn
  by_cases href : ref = status.orderRef
  · subst href
    rw [if_pos rfl]
    cases hget : m.orders.get? status.orderRef with
    | some mo =>
      have hmo := OrderBook.orderRef_of_get? hget
      simp [OrderBook.get?_put, hmo]
    | none =>
      by_cases hours : isOurs status.orderRef = true
      · simp [hours, OrderBook.get?_put]
      · simp [hours, hget]
  · rw [if_neg href]
    cases hget : m.orders.get? status.orderRef with
    | some mo =>
      have hmo := OrderBook.orderRef_of_get? hget
      simp [OrderBook.get?_put, hmo, href]
    | none =>
      by_cases hours : isOurs status.orderRef = true
      · simp [hours, OrderBook.get?_put, href]
      · simp [hours]

theorem extends_applyStatus (m : OrderManager) (status : BrokerOrderStatus) (now : Now) :
    m.orders.Extends (m.applyStatus status now).orders := by
  intro ref hget
  rw [get?_applyStatus]
  split_ifs
  · obtain ⟨mo, hmo⟩ := Option.isSome_iff_exists.mp hget
    rw [hmo]
    rfl
  · exact hget

theorem extends_foldl {α : Type} {f : OrderManager → α → OrderManager}
    (h : ∀ (m : OrderManager) a, m.orders.Extends (f m a).orders) (m : OrderManager) (as : List α) :
    m.orders.Extends (as.foldl f m).orders := by
  induction as generalizing m with
  | nil => exact .refl _
  | cons a as ih => exact (h m a).trans (ih _)

/-! ### Brackets -/

/-- The three records of a bracket. -/
def bracketRecords (order : SizedOrder) (cycleId : String) (now : Now) :
    ManagedOrder × ManagedOrder × ManagedOrder :=
  let action := if order.action = .buy then "BUY" else "SELL"
  let exitAction := if action = "BUY" then "SELL" else "BUY"
  let entryRef := makeRef cycleId order.symbol "ENTRY" now.date
  ({ orderRef := entryRef
     symbol := order.symbol
     action
     quantity := order.quantity
     limitPrice := some order.entryPrice
     stopPrice := some order.stopPrice
     targetPrice := some order.targetPrice
     cycleId := some cycleId
     rationale := some (String.ofList (order.proposal.rationale.toList.take 500))
     createdAt := now.epoch
     updatedAt := now.epoch },
   { orderRef := makeRef cycleId order.symbol "STOP" now.date
     symbol := order.symbol
     action := exitAction
     quantity := order.quantity
     stopPrice := some order.stopPrice
     parentRef := some entryRef
     cycleId := some cycleId
     createdAt := now.epoch
     updatedAt := now.epoch },
   { orderRef := makeRef cycleId order.symbol "TARGET" now.date
     symbol := order.symbol
     action := exitAction
     quantity := order.quantity
     limitPrice := some order.targetPrice
     parentRef := some entryRef
     cycleId := some cycleId
     createdAt := now.epoch
     updatedAt := now.epoch })

/-- The three legs `place_bracket` hands to the broker. None of them says anything about `transmit`. -/
def bracketSpecs (order : SizedOrder) (cycleId : String) (now : Now) :
    BrokerOrderSpec × BrokerOrderSpec × BrokerOrderSpec :=
  let action := if order.action = .buy then "BUY" else "SELL"
  let exitAction := if action = "BUY" then "SELL" else "BUY"
  let ocaGroup := refPrefix ++ "-" ++ (if cycleId = "" then "m" else cycleId) ++ "-" ++ order.symbol
  ({ symbol := order.symbol
     action
     quantity := order.quantity
     orderType := .lmt
     limitPrice := some order.entryPrice
     orderRef := makeRef cycleId order.symbol "ENTRY" now.date },
   { symbol := order.symbol
     action := exitAction
     quantity := order.quantity
     orderType := .stp
     stopPrice := some order.stopPrice
     orderRef := makeRef cycleId order.symbol "STOP" now.date
     ocaGroup := some ocaGroup },
   { symbol := order.symbol
     action := exitAction
     quantity := order.quantity
     orderType := .lmt
     limitPrice := some order.targetPrice
     orderRef := makeRef cycleId order.symbol "TARGET" now.date
     ocaGroup := some ocaGroup })

/-- How `place_bracket` leaves its first segment. -/
inductive PlaceStart
  | blocked (error : String)
  | duplicateRef (existing : ManagedOrder)
  | duplicateInStore
  | sent (entry stop target : BrokerOrderSpec)

/-- `place_bracket` up to the call on the broker: block check, idempotency check, write-ahead. -/
def placeBracketStart (m : OrderManager) (order : SizedOrder) (cycleId : String) (now : Now) :
    OrderManager × PlaceStart :=
  let m := m.unblockExpired now
  let entryRef := makeRef cycleId order.symbol "ENTRY" now.date
  if m.blockedSymbols.contains order.symbol then
    (m, .blocked (order.symbol ++ " is blocked pending reconciliation of an unresolved order"))
  else match m.orders.get? entryRef with
    | some existing => (m, .duplicateRef existing)
    | none =>
      if (m.store.bind fun s => s.findOrderByRef entryRef).isSome then (m, .duplicateInStore)
      else
        let (entry, stop, target) := bracketRecords order cycleId now
        let write := fun (m : OrderManager) mo => (m.put mo).persist mo none
        let (entrySpec, stopSpec, targetSpec) := bracketSpecs order cycleId now
        ([entry, stop, target].foldl write m, .sent entrySpec stopSpec targetSpec)

/-- `place_bracket` from the broker's answer on. A raise leaves the records and blocks the symbol. -/
def placeBracketFinish (m : OrderManager) (order : SizedOrder)
    (reply : Except String (List BrokerOrderStatus)) (now : Now) : OrderManager × Except String Unit :=
  match reply with
  | .error e => (m.block order.symbol now, .error e)
  | .ok statuses => (statuses.foldl (fun m status => m.applyStatus status now) m, .ok ())

/-! ### Exits -/

/-- The records `cancel_symbol_orders` asks the broker to cancel. -/
def cancelTargets (m : OrderManager) (p : ManagedOrder → Bool) : List ℤ :=
  (m.orders.values.filter fun mo => mo.isWorking && p mo).filterMap fun mo => truthy mo.ibOrderId

/-- The limit of an exit: three offsets through the mid, so that it fills. -/
def exitPrice (m : OrderManager) (quote : Option Quote) (isLong : Bool) : Option ℚ :=
  match quote with
  | none => none
  | some q =>
    if q.isUsable then
      (truthy q.mid).map fun mid =>
        let offset := mid * m.limitOffsetPct * 3
        Decimal.roundTo 2 (if isLong then mid - offset else mid + offset)
    else none

def exitSpec (m : OrderManager) (symbol : String) (quantity : ℚ) (isLong : Bool) (quote : Option Quote)
    (now : Now) : BrokerOrderSpec :=
  let price := m.exitPrice quote isLong
  { symbol
    action := if isLong then "SELL" else "BUY"
    quantity := |quantity|
    orderType := if (truthy price).isSome then .lmt else .mkt
    limitPrice := price
    orderRef := makeRef ("exit-" ++ epochSeconds now) symbol "EXIT" now.date }

/-- `close_position` from the return of the cancels to its own call on the broker. -/
def closePositionStart (m : OrderManager) (symbol : String) (quantity : ℚ) (isLong : Bool)
    (reason : String) (quote : Option Quote) (now : Now) : OrderManager × BrokerOrderSpec :=
  let spec := m.exitSpec symbol quantity isLong quote now
  let mo : ManagedOrder :=
    { orderRef := spec.orderRef
      symbol
      action := spec.action
      quantity := |quantity|
      limitPrice := spec.limitPrice
      rationale := some reason
      createdAt := now.epoch
      updatedAt := now.epoch }
  ((m.put mo).persist mo none, spec)

/-! ### Restart -/

/-- The record a row becomes. Its two times are those of the restoration. -/
def restored (row : OrderRow) (now : Now) : ManagedOrder :=
  { row.order with createdAt := now.epoch, updatedAt := now.epoch }

/-- `load_from_store`. -/
def loadFromStore (m : OrderManager) (now : Now) : OrderManager :=
  match m.store with
  | none => m
  | some s =>
    s.loadOrders.foldl
      (fun m row => (m.put (restored row now)).notePermId row.order.orderRef row.ibPermId) m

/-! ### Views -/

def workingOrders (m : OrderManager) : List ManagedOrder := m.orders.values.filter ManagedOrder.isWorking

/-- A set; the order of the records does not matter. -/
def workingSymbols (m : OrderManager) : List String := m.workingOrders.map ManagedOrder.symbol

theorem mem_workingSymbols {m : OrderManager} {symbol : String} :
    symbol ∈ m.workingSymbols ↔
      ∃ ref mo, m.orders.get? ref = some mo ∧ mo.isWorking = true ∧ mo.symbol = symbol :=
  OrderBook.mem_symbols

end OrderManager

end AiTrader
