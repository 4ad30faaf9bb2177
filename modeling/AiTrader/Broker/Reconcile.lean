import AiTrader.Broker.IbAdapter

/-!
# Reconciliation

`OrderManager.reconcile` rebuilds the local view from the broker's. What the outside world answers during
one call is a `ReconcileEnv`; the result is the manager it leaves, the report, the requests it sent and
whether it raised.

Steps 1 and 2 act on every reference separately: `view` computes the record they leave at one reference
from the local record and the statuses about it. Step 4 writes at the references of the stops it emits and
nowhere else. A call that returns protects and cleans up on the view: `reconcile_returns`.

The lemmas come in this order. Each status and each record of step 2 acts at its own reference, so the runs of both
steps are taken apart reference by reference (`absorbAll_spec`, `resolve_all_spec`, by `Lib.Trace.run_pointwise`).
Step 2 can raise in the middle, at a transition the store refuses, and then nothing has been sent. Otherwise the view
is what is left, and steps 4 and 5 read no other state. `reconcile_cases` has the three ways a call ends: a query
raises, step 2 raises, or it returns with what steps 4 and 5 make of the view.
-/

namespace AiTrader

open Lib

/-- What reconciliation found. -/
structure ReconciliationReport where
  adopted : List String := []
  orphanedLocal : List String := []
  orphanedBroker : List String := []
  unprotectedPositions : List String := []
  protectiveStopsPlaced : List String := []
  unresolved : List String := []
  blockedSymbols : List String := []
  deriving DecidableEq

/-- What the clocks and the broker answer during one `reconcile`. -/
structure ReconcileEnv where
  /-- The account the adapter sends orders for. -/
  account : String
  start : Now
  openOrders : Except String (List BrokerOrderStatus)
  completedOrders : Except String (List BrokerOrderStatus)
  executions : Except String (List BrokerExecution)
  quote : String → Option Quote
  /-- The clock when the stop for a symbol is emitted. -/
  emitAt : String → Now
  placeOrder : BrokerOrderSpec → Except String OrderStatus

/-- How a `reconcile` ends. -/
structure Reconciled where
  manager : OrderManager
  report : ReconciliationReport := {}
  requests : List BrokerRequest := []
  raised : Option String := none

namespace OrderManager

/-! ### Steps 1 and 2: absorb the broker's orders, resolve our own -/

def absorbOpen (now : Now) (r : OrderManager × ReconciliationReport) (status : BrokerOrderStatus) :
    OrderManager × ReconciliationReport :=
  if isOurs status.orderRef then
    (r.1.applyStatus status now,
      if (r.1.orders.get? status.orderRef).isSome then r.2
      else { r.2 with adopted := r.2.adopted ++ [status.orderRef] })
  else
    let name :=
      if status.orderRef = "" then "orderId=" ++ toString status.orderId else status.orderRef
    (r.1, { r.2 with orphanedBroker := r.2.orphanedBroker ++ [name] })

def absorbCompleted (now : Now) (m : OrderManager) (status : BrokerOrderStatus) : OrderManager :=
  if isOurs status.orderRef && (m.orders.get? status.orderRef).isSome then m.applyStatus status now
  else m

/-- Step 1. -/
def absorbAll (now : Now) (opens completed : List BrokerOrderStatus) (m : OrderManager) :
    OrderManager × ReconciliationReport :=
  let r := opens.foldl (absorbOpen now) (m, {})
  (completed.foldl (absorbCompleted now) r.1, r.2)

/-- The record of an order the broker has never heard of. -/
def neverSent (mo : ManagedOrder) (now : Now) : ManagedOrder :=
  { mo with state := .cancelled, updatedAt := now.epoch }

@[simp] theorem orderRef_neverSent (mo : ManagedOrder) (now : Now) :
    (neverSent mo now).orderRef = mo.orderRef := rfl

/-- The record works and the broker has never heard of it. -/
def maybeSent (known : List String) (mo : ManagedOrder) : Bool :=
  mo.isWorking && !known.contains mo.orderRef

/-- The transition write of step 2, which is not guarded: `none` when it raises. -/
def recordNeverSent (m : OrderManager) (mo : ManagedOrder) : Option OrderManager :=
  match m.store with
  | none => some m
  | some s =>
    (s.recordTransition mo.orderRef mo.state .cancelled
      "not found at broker during reconciliation").map fun s => { m with store := some s }

/-- Step 2 for one record. When the transition write raises, so does `reconcile`. -/
def resolveOne (known : List String) (now : Now) (r : OrderManager × ReconciliationReport)
    (mo : ManagedOrder) :
    Except (OrderManager × ReconciliationReport) (OrderManager × ReconciliationReport) :=
  if maybeSent known mo then
    let m := (r.1.put (neverSent mo now)).persist (neverSent mo now) none
    let report := { r.2 with orphanedLocal := r.2.orphanedLocal ++ [mo.orderRef] }
    match m.recordNeverSent mo with
    | none => .error (m, report)
    | some m => .ok (m, report)
  else .ok r

/-- Step 2, over the records in order. -/
def resolveMaybeSent (known : List String) (now : Now) :
    List ManagedOrder → OrderManager × ReconciliationReport →
      Except (OrderManager × ReconciliationReport) (OrderManager × ReconciliationReport)
  | [], r => .ok r
  | mo :: rest, r =>
    match resolveOne known now r mo with
    | .error r => .error r
    | .ok r => resolveMaybeSent known now rest r

/-! ### Step 4: positions without a stop -/

/-- The price a protective stop is derived from. -/
def referencePrice (quote : Option Quote) (p : Position) : Option ℚ :=
  let mid := quote.bind fun q => if q.isUsable then truthy q.mid else none
  ((mid.orElse fun _ => truthy p.marketPrice).orElse fun _ => truthy (some p.avgCost)).filter
    fun r => 0 < r

/-- The side that closes a position. -/
def exitSide (p : Position) : String := if p.isLong then "SELL" else "BUY"

def protectiveRef (now : Now) (symbol : String) : String :=
  makeRef ("protect-" ++ epochSeconds now) symbol "STOP" now.date

def protectiveSpec (now : Now) (symbol : String) (p : Position) (reference : ℚ) : BrokerOrderSpec where
  symbol
  action := exitSide p
  quantity := |p.quantity|
  orderType := .stp
  stopPrice := some (Decimal.roundTo 2 (reference * if p.isLong then 97 / 100 else 103 / 100))
  orderRef := protectiveRef now symbol

def protectiveRecord (now : Now) (spec : BrokerOrderSpec) : ManagedOrder where
  orderRef := spec.orderRef
  symbol := spec.symbol
  action := spec.action
  quantity := spec.quantity
  stopPrice := spec.stopPrice
  parentRef := some "recovered"
  rationale := some "protective stop added during reconciliation"
  createdAt := now.epoch
  updatedAt := now.epoch

/-- `_emit_protective_stop`: whether it counts as placed, and what was sent. -/
def emitProtectiveStop (env : ReconcileEnv) (m : OrderManager) (symbol : String) (p : Position) :
    OrderManager × Bool × List BrokerRequest :=
  match referencePrice (env.quote symbol) p with
  | none => (m, false, [])
  | some reference =>
    let now := env.emitAt symbol
    let spec := protectiveSpec now symbol p reference
    let m := (m.put (protectiveRecord now spec)).persist (protectiveRecord now spec) none
    match placeSingle env.account spec (env.placeOrder spec) with
    | .error _ => (m, false, [.placeSingle spec])
    | .ok status => (m.applyStatus status now, true, [.placeSingle spec])

def unresolvedText (symbol : String) : String := symbol ++ ": unprotected, stop placement failed"

def protectPosition (env : ReconcileEnv) (isProtected : String → Bool) (r : Reconciled)
    (e : String × Position) : Reconciled :=
  if isProtected e.1 then r
  else
    let (m, placed, requests) := emitProtectiveStop env r.manager e.1 e.2
    let report := { r.report with
      unprotectedPositions := r.report.unprotectedPositions ++ [e.1] }
    if placed then
      { r with
        manager := m
        report := { report with protectiveStopsPlaced := report.protectiveStopsPlaced ++ [e.1] }
        requests := r.requests ++ requests }
    else
      { r with
        manager := m.block e.1 (env.emitAt e.1)
        report := { report with unresolved := report.unresolved ++ [unresolvedText e.1] }
        requests := r.requests ++ requests }

/-- The code's test for protection: some working record of the symbol has a stop price. -/
def isProtected (m : OrderManager) (symbol : String) : Bool :=
  m.workingOrders.any fun mo => mo.stopPrice.isSome && decide (mo.symbol = symbol)

/-! ### The whole routine -/

/-- Step 5: the working legs of symbols without a position. -/
def orphanCancels (m : OrderManager) (held : List String) : List BrokerRequest :=
  (m.cancelTargets fun mo => mo.parentRef.isSome && !held.contains mo.symbol).map .cancelOrder

/-- Steps 4 and 5 and the end of the report. -/
def protectAndClean (env : ReconcileEnv) (account : AccountSnapshot) (m : OrderManager)
    (report : ReconciliationReport) : Reconciled :=
  let r := account.openPositions.entries.foldl (protectPosition env m.isProtected)
    { manager := m, report }
  { r with
    report := { r.report with blockedSymbols := r.manager.blockedSymbols.keys }
    requests := r.requests ++ r.manager.orphanCancels account.openPositions.keys }

def reconcile (env : ReconcileEnv) (m : OrderManager) (account : AccountSnapshot) : Reconciled :=
  let m := m.unblockExpired env.start
  match env.openOrders, env.completedOrders with
  | .error e, _ => { manager := m, raised := some e }
  | .ok _, .error e => { manager := m, raised := some e }
  | .ok opens, .ok completed =>
    let known := ((opens ++ completed).map BrokerOrderStatus.orderRef).filter fun ref => ref ≠ ""
    let r := absorbAll env.start opens completed m
    match resolveMaybeSent known env.start r.1.orders.values r with
    | .error (m, report) => { manager := m, report, raised := some "record_transition raised" }
    | .ok (m, report) =>
      match env.executions with
      | .error e => { manager := m, report, raised := some e }
      | .ok executions => protectAndClean env account (executions.foldl onExecution m) report

/-! ### The view: steps 1 and 2 at one reference -/

theorem get?_absorbOpen (now : Now) (r : OrderManager × ReconciliationReport)
    (status : BrokerOrderStatus) (ref : String) :
    (absorbOpen now r status).1.orders.get? ref =
      if ref = status.orderRef then
        if isOurs status.orderRef then statusOn now status (r.1.orders.get? ref)
        else r.1.orders.get? ref
      else r.1.orders.get? ref := by
  unfold absorbOpen
  by_cases hours : isOurs status.orderRef = true
  · rw [if_pos hours, if_pos hours]
    exact get?_applyStatus _ _ _ _
  · rw [if_neg hours, if_neg hours, ite_self]

theorem get?_absorbCompleted (now : Now) (m : OrderManager) (status : BrokerOrderStatus)
    (ref : String) :
    (absorbCompleted now m status).orders.get? ref =
      if ref = status.orderRef then
        if isOurs status.orderRef && (m.orders.get? ref).isSome then
          statusOn now status (m.orders.get? ref)
        else m.orders.get? ref
      else m.orders.get? ref := by
  unfold absorbCompleted
  by_cases href : ref = status.orderRef
  · subst href
    rw [if_pos rfl]
    split_ifs with hknown
    · rw [get?_applyStatus, if_pos rfl]
    · rfl
  · rw [if_neg href]
    split_ifs with hknown
    · rw [get?_applyStatus, if_neg href]
    · rfl

end OrderManager

namespace ReconcileEnv

def opens (env : ReconcileEnv) : List BrokerOrderStatus := env.openOrders.toOption.getD []

def completed (env : ReconcileEnv) : List BrokerOrderStatus := env.completedOrders.toOption.getD []

theorem opens_eq {env : ReconcileEnv} {statuses : List BrokerOrderStatus} (h : env.openOrders = .ok statuses) :
    env.opens = statuses := by
  rw [opens, h]
  rfl

theorem completed_eq {env : ReconcileEnv} {statuses : List BrokerOrderStatus}
    (h : env.completedOrders = .ok statuses) : env.completed = statuses := by
  rw [completed, h]
  rfl

/-- The references the broker knows. -/
def known (env : ReconcileEnv) : List String :=
  ((env.opens ++ env.completed).map BrokerOrderStatus.orderRef).filter fun ref => ref ≠ ""

/-- What the broker's statuses make of the record at `ref`: the open orders adopt, the completed ones
only update. -/
def absorbed (env : ReconcileEnv) (m : OrderManager) (ref : String) : Option ManagedOrder :=
  let afterOpen := (env.opens.filter fun status => status.orderRef = ref).foldl
    (fun record status =>
      if isOurs status.orderRef then OrderManager.statusOn env.start status record else record)
    (m.orders.get? ref)
  (env.completed.filter fun status => status.orderRef = ref).foldl
    (fun record status =>
      if isOurs status.orderRef && record.isSome then OrderManager.statusOn env.start status record
      else record)
    afterOpen

/-- The record at `ref` when the broker's orders have been absorbed: as the broker's statuses leave it, and
cancelled when it still works and the broker does not know it. -/
def view (env : ReconcileEnv) (m : OrderManager) (ref : String) : Option ManagedOrder :=
  (env.absorbed m ref).map fun mo =>
    if OrderManager.maybeSent env.known mo then OrderManager.neverSent mo env.start else mo

/-- Nothing that step 1 or 2 asks for raises. -/
structure Answers (env : ReconcileEnv) (m : OrderManager) : Prop where
  opens : ∃ statuses, env.openOrders = .ok statuses
  completed : ∃ statuses, env.completedOrders = .ok statuses
  executions : ∃ executions, env.executions = .ok executions
  transitions : ∀ ref mo, env.absorbed m ref = some mo → OrderManager.maybeSent env.known mo = true →
    m.faults (.transition ref .cancelled) = false

end ReconcileEnv

namespace OrderManager

theorem recordNeverSent_cases (m : OrderManager) (mo : ManagedOrder) :
    (m.faults (.transition mo.orderRef .cancelled) = true ∧ m.recordNeverSent mo = none) ∨
      (m.faults (.transition mo.orderRef .cancelled) = false ∧
        ∃ m', m.recordNeverSent mo = some m' ∧ m'.orders = m.orders ∧ m'.faults = m.faults) := by
  unfold recordNeverSent
  cases hstore : m.store with
  | none =>
    refine Or.inr ⟨?_, m, rfl, rfl, rfl⟩
    rw [faults, hstore]
    rfl
  | some s =>
    have hfaults : m.faults = s.faults := by
      funext w
      rw [faults, hstore]
      rfl
    rw [hfaults]
    dsimp only
    by_cases hfault : s.faults (.transition mo.orderRef .cancelled) = true
    · rw [StateStore.recordTransition, if_pos hfault]
      exact Or.inl ⟨hfault, rfl⟩
    · rw [StateStore.recordTransition, if_neg hfault]
      exact Or.inr ⟨by simpa using hfault, _, rfl, rfl, rfl⟩

theorem resolveOne_cases (known : List String) (now : Now) (r : OrderManager × ReconciliationReport)
    (mo : ManagedOrder) :
    (maybeSent known mo = false ∧ resolveOne known now r mo = .ok r) ∨
      (maybeSent known mo = true ∧ r.1.faults (.transition mo.orderRef .cancelled) = true ∧
        ∃ r', resolveOne known now r mo = .error r' ∧ r'.1.orders = r.1.orders.put (neverSent mo now)) ∨
      (maybeSent known mo = true ∧ r.1.faults (.transition mo.orderRef .cancelled) = false ∧
        ∃ r', resolveOne known now r mo = .ok r' ∧ r'.1.orders = r.1.orders.put (neverSent mo now) ∧
          r'.1.faults = r.1.faults ∧ r'.2.unresolved = r.2.unresolved) := by
  unfold resolveOne
  cases hmaybe : maybeSent known mo with
  | false => exact Or.inl ⟨rfl, rfl⟩
  | true =>
    rcases recordNeverSent_cases ((r.1.put (neverSent mo now)).persist (neverSent mo now) none) mo with
      ⟨hfault, hraised⟩ | ⟨hfault, m', hok, horders, hfaults⟩
    · rw [faults_persist, faults_put] at hfault
      refine Or.inr (Or.inl ⟨rfl, hfault, ?_⟩)
      rw [if_pos rfl]
      dsimp only
      rw [hraised]
      exact ⟨_, rfl, rfl⟩
    · rw [faults_persist, faults_put] at hfault hfaults
      rw [orders_persist, orders_put] at horders
      refine Or.inr (Or.inr ⟨rfl, hfault, ?_⟩)
      rw [if_pos rfl]
      dsimp only
      rw [hok]
      exact ⟨_, rfl, horders, hfaults, rfl⟩

theorem orders_resolveOne (known : List String) (now : Now) (r : OrderManager × ReconciliationReport)
    (mo : ManagedOrder) :
    (∀ r', resolveOne known now r mo = .ok r' →
        r'.1.orders = r.1.orders ∨ r'.1.orders = r.1.orders.put (neverSent mo now)) ∧
      ∀ r', resolveOne known now r mo = .error r' → r'.1.orders = r.1.orders.put (neverSent mo now) := by
  rcases resolveOne_cases known now r mo with
    ⟨-, hone⟩ | ⟨-, -, r₁, hone, horders⟩ | ⟨-, -, r₁, hone, horders, -⟩
  · rw [hone]
    refine ⟨fun r' h => ?_, fun r' h => ?_⟩
    · obtain rfl := Except.ok.inj h
      exact Or.inl rfl
    · cases h
  · rw [hone]
    refine ⟨fun r' h => ?_, fun r' h => ?_⟩
    · cases h
    · obtain rfl := Except.error.inj h
      exact horders
  · rw [hone]
    refine ⟨fun r' h => ?_, fun r' h => ?_⟩
    · obtain rfl := Except.ok.inj h
      exact Or.inr horders
    · cases h

theorem resolveMaybeSent_keeps {known : List String} {now : Now} {motive : OrderManager → Prop}
    {records : List ManagedOrder}
    (hone : ∀ mo ∈ records, ∀ r, motive r.1 → (∀ r', resolveOne known now r mo = .ok r' → motive r'.1) ∧
      ∀ r', resolveOne known now r mo = .error r' → motive r'.1)
    {r : OrderManager × ReconciliationReport} (h : motive r.1) :
    (∀ r', resolveMaybeSent known now records r = .ok r' → motive r'.1) ∧
      ∀ r', resolveMaybeSent known now records r = .error r' → motive r'.1 := by
  induction records generalizing r with
  | nil =>
    refine ⟨fun r' hr => ?_, fun r' hr => ?_⟩
    · obtain rfl := Except.ok.inj hr
      exact h
    · cases hr
  | cons mo rest ih =>
    obtain ⟨hok, herror⟩ := hone mo List.mem_cons_self r h
    rw [resolveMaybeSent]
    cases hmo : resolveOne known now r mo with
    | error r₁ =>
      refine ⟨fun r' hr => ?_, fun r' hr => ?_⟩
      · cases hr
      · obtain rfl := Except.error.inj hr
        exact herror _ hmo
    | ok r₁ => exact ih (fun mo' hmem => hone mo' (List.mem_cons_of_mem _ hmem)) (hok r₁ hmo)

/-- Step 2 visits every record once, so it acts on each reference by itself. -/
theorem resolveMaybeSent_spec {known : List String} {now : Now} {records : List ManagedOrder}
    {r r' : OrderManager × ReconciliationReport}
    (h : resolveMaybeSent known now records r = .ok r')
    (hnodup : (records.map ManagedOrder.orderRef).Nodup)
    (hrecords : ∀ mo ∈ records, r.1.orders.get? mo.orderRef = some mo) :
    r'.2.unresolved = r.2.unresolved ∧ ∀ ref, r'.1.orders.get? ref =
      if ref ∈ records.map ManagedOrder.orderRef then
        (r.1.orders.get? ref).map fun mo => if maybeSent known mo then neverSent mo now else mo
      else r.1.orders.get? ref := by
  induction records generalizing r with
  | nil =>
    cases h
    exact ⟨rfl, fun ref => rfl⟩
  | cons mo rest ih =>
    rw [List.map_cons, List.nodup_cons] at hnodup
    have hmo := hrecords mo List.mem_cons_self
    have hother : ∀ mo' ∈ rest, mo'.orderRef ≠ mo.orderRef := fun mo' hmem heq =>
      hnodup.1 (heq ▸ List.mem_map_of_mem hmem)
    rw [resolveMaybeSent] at h
    rcases resolveOne_cases known now r mo with
      ⟨hmaybe, hone⟩ | ⟨_, _, r₁, hone, _⟩ | ⟨hmaybe, _, r₁, hone, horders, _, hunresolved⟩
    · rw [hone] at h
      obtain ⟨hsame, hget⟩ := ih h hnodup.2 fun mo' hmem => hrecords mo' (List.mem_cons_of_mem _ hmem)
      refine ⟨hsame, fun ref => ?_⟩
      rw [hget]
      by_cases href : ref = mo.orderRef
      · subst href
        simp [hnodup.1, hmo, hmaybe]
      · simp only [List.map_cons, List.mem_cons, href, false_or]
    · rw [hone] at h
      cases h
    · rw [hone] at h
      have hput : ∀ ref, r₁.1.orders.get? ref =
          if ref = mo.orderRef then some (neverSent mo now) else r.1.orders.get? ref := by
        intro ref
        rw [horders, OrderBook.get?_put, orderRef_neverSent]
      obtain ⟨hsame, hget⟩ := ih h hnodup.2 fun mo' hmem => by
        rw [hput, if_neg (hother mo' hmem)]
        exact hrecords mo' (List.mem_cons_of_mem _ hmem)
      refine ⟨hsame.trans hunresolved, fun ref => ?_⟩
      rw [hget, hput]
      by_cases href : ref = mo.orderRef
      · subst href
        simp [hnodup.1, hmo, hmaybe]
      · simp only [List.map_cons, List.mem_cons, href, false_or, if_false]

theorem resolveMaybeSent_ok_iff {known : List String} {now : Now} {records : List ManagedOrder}
    {r : OrderManager × ReconciliationReport} :
    (∃ r', resolveMaybeSent known now records r = .ok r') ↔
      ∀ mo ∈ records, maybeSent known mo = true →
        r.1.faults (.transition mo.orderRef .cancelled) = false := by
  induction records generalizing r with
  | nil => simp [resolveMaybeSent]
  | cons mo rest ih =>
    rw [resolveMaybeSent]
    rcases resolveOne_cases known now r mo with
      ⟨hmaybe, hone⟩ | ⟨hmaybe, hfault, r₁, hone, _⟩ | ⟨hmaybe, hfault, r₁, hone, _, hfaults, _⟩
    · simp only [hone, ih, List.forall_mem_cons, hmaybe, Bool.false_eq_true, false_implies, true_and]
    · simp [hone, hmaybe, hfault]
    · simp only [hone, ih, List.forall_mem_cons, hmaybe, hfault, hfaults, true_implies, true_and]

theorem resolve_all_spec {known : List String} {now : Now} {r r' : OrderManager × ReconciliationReport}
    (h : resolveMaybeSent known now r.1.orders.values r = .ok r') :
    r'.2.unresolved = r.2.unresolved ∧ ∀ ref, r'.1.orders.get? ref =
      (r.1.orders.get? ref).map fun mo => if maybeSent known mo then neverSent mo now else mo := by
  obtain ⟨hunresolved, hget⟩ := resolveMaybeSent_spec h (OrderBook.nodup_refs _)
    fun mo hmem => OrderBook.mem_values.mp hmem
  refine ⟨hunresolved, fun ref => ?_⟩
  rw [hget]
  split_ifs with hmem
  · rfl
  · cases hrecord : r.1.orders.get? ref with
    | none => rfl
    | some mo =>
      have href := OrderBook.orderRef_of_get? hrecord
      have hvalue : mo ∈ r.1.orders.values := OrderBook.mem_values.mpr (by rw [href]; exact hrecord)
      exact absurd (List.mem_map.mpr ⟨mo, hvalue, href⟩) hmem

/-! ### The view after step 3 -/

theorem unresolved_absorbOpen (now : Now) (r : OrderManager × ReconciliationReport)
    (status : BrokerOrderStatus) : (absorbOpen now r status).2.unresolved = r.2.unresolved := by
  unfold absorbOpen
  by_cases hours : isOurs status.orderRef = true
  · rw [if_pos hours]
    dsimp only
    split_ifs <;> rfl
  · rw [if_neg hours]

theorem absorbAll_keeps {now : Now} {motive : OrderManager → Prop}
    (hstatus : ∀ m status, motive m → motive (m.applyStatus status now))
    (opens completed : List BrokerOrderStatus) {m : OrderManager} (h : motive m) :
    motive (absorbAll now opens completed m).1 := by
  have hopens : ∀ (opens : List BrokerOrderStatus) (r : OrderManager × ReconciliationReport),
      motive r.1 → motive (opens.foldl (absorbOpen now) r).1 := by
    intro opens
    induction opens with
    | nil => exact fun r hr => hr
    | cons status opens ih =>
      intro r hr
      refine ih _ ?_
      unfold absorbOpen
      by_cases hours : isOurs status.orderRef = true
      · rw [if_pos hours]
        exact hstatus r.1 status hr
      · rw [if_neg hours]
        exact hr
  have hcompleted : ∀ (completed : List BrokerOrderStatus) (m : OrderManager),
      motive m → motive (completed.foldl (absorbCompleted now) m) := by
    intro completed
    induction completed with
    | nil => exact fun m hm => hm
    | cons status completed ih =>
      intro m hm
      refine ih _ ?_
      unfold absorbCompleted
      split_ifs
      · exact hstatus m status hm
      · exact hm
  exact hcompleted completed _ (hopens opens (m, {}) h)

theorem absorbAll_spec (now : Now) (opens completed : List BrokerOrderStatus) (m : OrderManager) :
    (absorbAll now opens completed m).2.unresolved = [] ∧
      (absorbAll now opens completed m).1.faults = m.faults := by
  have hopens : ∀ (opens : List BrokerOrderStatus) (r : OrderManager × ReconciliationReport),
      (opens.foldl (absorbOpen now) r).2.unresolved = r.2.unresolved := by
    intro opens
    induction opens with
    | nil => exact fun r => rfl
    | cons status opens ih => exact fun r => (ih _).trans (unresolved_absorbOpen now r status)
  refine ⟨hopens opens (m, {}), ?_⟩
  exact absorbAll_keeps (motive := fun m' => m'.faults = m.faults)
    (fun m' status hsame => (faults_applyStatus m' status now).trans hsame) opens completed rfl

theorem get?_absorbAll (env : ReconcileEnv) (m : OrderManager) (ref : String) :
    (absorbAll env.start env.opens env.completed m).1.orders.get? ref = env.absorbed m ref := by
  have hopens := @Trace.run_pointwise _ _ (absorbOpen env.start) _ _ _
    (fun r ref => r.1.orders.get? ref) BrokerOrderStatus.orderRef
    (fun status record => if isOurs status.orderRef then statusOn env.start status record else record)
    (fun r status ref => get?_absorbOpen _ r status ref) (m, {}) env.opens ref
  have hcompleted := @Trace.run_pointwise _ _ (absorbCompleted env.start) _ _ _
    (fun m ref => m.orders.get? ref) BrokerOrderStatus.orderRef
    (fun status record =>
      if isOurs status.orderRef && record.isSome then statusOn env.start status record else record)
    (fun m status ref => get?_absorbCompleted _ m status ref)
    (env.opens.foldl (absorbOpen env.start) (m, {})).1 env.completed ref
  rw [Trace.run] at hopens hcompleted
  rw [absorbAll, hcompleted, hopens]
  rfl

theorem orders_foldl_onExecution (executions : List BrokerExecution) (m : OrderManager) :
    (executions.foldl onExecution m).orders = m.orders := by
  induction executions generalizing m with
  | nil => rfl
  | cons e executions ih => rw [List.foldl_cons, ih, orders_onExecution]

theorem resolve_absorbed_ok_iff (env : ReconcileEnv) (m : OrderManager) :
    (∃ r, resolveMaybeSent env.known env.start
        (absorbAll env.start env.opens env.completed m).1.orders.values
        (absorbAll env.start env.opens env.completed m) = .ok r) ↔
      ∀ ref mo, env.absorbed m ref = some mo → maybeSent env.known mo = true →
        m.faults (.transition ref .cancelled) = false := by
  rw [resolveMaybeSent_ok_iff, (absorbAll_spec _ _ _ _).2]
  simp only [OrderBook.mem_values, get?_absorbAll]
  constructor
  · intro h ref mo hget hmaybe
    have href : mo.orderRef = ref := by
      rw [← get?_absorbAll] at hget
      exact OrderBook.orderRef_of_get? hget
    exact href ▸ h mo (by rw [href]; exact hget) hmaybe
  · exact fun h mo hget hmaybe => h _ mo hget hmaybe

theorem raised_protectPosition (env : ReconcileEnv) (isProtected : String → Bool) (r : Reconciled)
    (e : String × Position) : (protectPosition env isProtected r e).raised = r.raised := by
  unfold protectPosition
  split_ifs
  · rfl
  · dsimp only
    split_ifs <;> rfl

theorem raised_protectAndClean (env : ReconcileEnv) (account : AccountSnapshot) (m : OrderManager)
    (report : ReconciliationReport) : (protectAndClean env account m report).raised = none := by
  have hfold : ∀ (positions : List (String × Position)) (r : Reconciled),
      (positions.foldl (protectPosition env m.isProtected) r).raised = r.raised := by
    intro positions
    induction positions with
    | nil => exact fun r => rfl
    | cons e positions ih => exact fun r => by rw [List.foldl_cons, ih, raised_protectPosition]
  exact hfold _ _

/-- **When nothing it asks for raises, `reconcile` absorbs the broker's orders**, reference by reference,
and then protects and cleans up on that view; otherwise it raises and has sent nothing. -/
theorem reconcile_cases (env : ReconcileEnv) (m : OrderManager) (account : AccountSnapshot) :
    (¬ env.Answers m ∧ (reconcile env m account).raised ≠ none ∧
        (reconcile env m account).requests = []) ∨
      (env.Answers m ∧ ∃ m' report, reconcile env m account = protectAndClean env account m' report ∧
        report.unresolved = [] ∧ ∀ ref, m'.orders.get? ref = env.view m ref) := by
  have hok := resolve_absorbed_ok_iff env (m.unblockExpired env.start)
  unfold reconcile
  dsimp only
  cases hopens : env.openOrders with
  | error e => exact Or.inl ⟨fun h => by simpa [hopens] using h.opens, by simp, rfl⟩
  | ok opens =>
    have hopens' := ReconcileEnv.opens_eq hopens
    cases hcompleted : env.completedOrders with
    | error e => exact Or.inl ⟨fun h => by simpa [hcompleted] using h.completed, by simp, rfl⟩
    | ok completed =>
      have hcompleted' := ReconcileEnv.completed_eq hcompleted
      subst hopens' hcompleted'
      dsimp only
      rw [← ReconcileEnv.known]
      cases hresolve : resolveMaybeSent env.known env.start (absorbAll env.start env.opens
          env.completed (m.unblockExpired env.start)).1.orders.values (absorbAll env.start env.opens
          env.completed (m.unblockExpired env.start)) with
      | error r =>
        refine Or.inl ⟨fun h => ?_, by simp, rfl⟩
        obtain ⟨r', hr'⟩ := hok.mpr h.transitions
        rw [hresolve] at hr'
        cases hr'
      | ok r =>
        cases hexecutions : env.executions with
        | error e => exact Or.inl ⟨fun h => by simpa [hexecutions] using h.executions, by simp, rfl⟩
        | ok executions =>
          obtain ⟨hunresolved, hget⟩ := resolve_all_spec hresolve
          refine Or.inr ⟨⟨⟨_, hopens⟩, ⟨_, hcompleted⟩, ⟨_, hexecutions⟩, hok.mp ⟨r, hresolve⟩⟩, _,
            r.2, rfl, hunresolved.trans (absorbAll_spec _ _ _ _).1, fun ref => ?_⟩
          rw [orders_foldl_onExecution, hget, get?_absorbAll]
          rfl

/-- **When `reconcile` returns**: the broker answers its three queries, and no transition of a record the
broker has never heard of raises when it is written. -/
theorem reconcile_returns_iff (env : ReconcileEnv) (m : OrderManager) (account : AccountSnapshot) :
    (reconcile env m account).raised = none ↔ env.Answers m := by
  rcases reconcile_cases env m account with ⟨hno, hraised, _⟩ | ⟨hyes, m', report, hfinal, _⟩
  · exact iff_of_false hraised hno
  · rw [hfinal]
    exact iff_of_true (raised_protectAndClean _ _ _ _) hyes

theorem reconcile_returns {env : ReconcileEnv} {m : OrderManager} {account : AccountSnapshot}
    (h : env.Answers m) :
    ∃ m' report, reconcile env m account = protectAndClean env account m' report ∧
      report.unresolved = [] ∧ ∀ ref, m'.orders.get? ref = env.view m ref := by
  rcases reconcile_cases env m account with ⟨hno, _⟩ | ⟨_, hreturns⟩
  · exact absurd h hno
  · exact hreturns

theorem requests_of_not_answers {env : ReconcileEnv} {m : OrderManager} {account : AccountSnapshot}
    (h : ¬ env.Answers m) : (reconcile env m account).requests = [] := by
  rcases reconcile_cases env m account with ⟨_, _, hrequests⟩ | ⟨hyes, _⟩
  · exact hrequests
  · exact absurd hyes h

end OrderManager

end AiTrader
