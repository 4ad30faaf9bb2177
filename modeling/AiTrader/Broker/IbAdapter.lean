import AiTrader.Broker.Orders

/-!
# The adapter's orders on the wire

What `IbAsyncBroker` hands to the broker library for a bracket, and which of the orders it has placed are
live at the broker. `Order` holds the fields of the library's order that the adapter sets, with the
library's defaults.

`place_bracket` sets `transmit` on each leg and then calls `_apply_common`, which sets it again from the
leg's spec. What reaches the wire is the spec's flag (`transmit_bracketOrders`), so a bracket is atomic
precisely when the specs of its entry and target ask for no transmission (`atomic_iff_transmit`). The
specs of the order manager ask for it on every leg: `bracket_atomic_iff`.
-/

namespace AiTrader

structure Order where
  orderId : ℤ := 0
  parentId : ℤ := 0
  action : String
  totalQuantity : ℚ
  orderType : OrderType
  lmtPrice : Option ℚ := none
  auxPrice : Option ℚ := none
  orderRef : String := ""
  tif : String := ""
  outsideRth : Bool := false
  transmit : Bool := true
  ocaGroup : String := ""
  ocaType : ℕ := 0
  account : String := ""
  deriving DecidableEq

namespace Order

def limit (action : String) (quantity price : ℚ) : Order :=
  { action, totalQuantity := quantity, orderType := .lmt, lmtPrice := some price }

def stop (action : String) (quantity price : ℚ) : Order :=
  { action, totalQuantity := quantity, orderType := .stp, auxPrice := some price }

/-- The order that heads this order's parent group. -/
def group (o : Order) : ℤ := if o.parentId = 0 then o.orderId else o.parentId

end Order

/-- Python's reading of an optional text: the empty text counts as missing. -/
def named (text : Option String) : Option String := text.filter fun s => s ≠ ""

/-- `_apply_common`. -/
def applyCommon (account : String) (order : Order) (spec : BrokerOrderSpec) : Order :=
  { order with
    orderRef := spec.orderRef
    tif := spec.tif
    outsideRth := spec.outsideRth
    transmit := spec.transmit
    ocaGroup := (named spec.ocaGroup).getD order.ocaGroup
    ocaType := if (named spec.ocaGroup).isSome then 1 else order.ocaType
    account := if account = "" then order.account else account }

@[simp] theorem transmit_applyCommon (account : String) (order : Order) (spec : BrokerOrderSpec) :
    (applyCommon account order spec).transmit = spec.transmit := rfl

@[simp] theorem parentId_applyCommon (account : String) (order : Order) (spec : BrokerOrderSpec) :
    (applyCommon account order spec).parentId = order.parentId := rfl

/-- `_build`. -/
def build (account : String) (spec : BrokerOrderSpec) : Except String Order :=
  match spec.orderType with
  | .lmt =>
    match spec.limitPrice with
    | none => .error "LMT order requires a limit price"
    | some p => .ok (applyCommon account (Order.limit spec.action spec.quantity p) spec)
  | .stp =>
    match spec.stopPrice with
    | none => .error "STP order requires a stop price"
    | some p => .ok (applyCommon account (Order.stop spec.action spec.quantity p) spec)
  | .mkt =>
    .ok (applyCommon account
      { action := spec.action, totalQuantity := spec.quantity, orderType := .mkt } spec)
  | .stpLmt => .error "unsupported order type 'STP LMT'"

/-- What the library reports on an order it has placed. -/
structure OrderStatus where
  orderId : ℤ
  status : String
  filled : ℚ := 0
  remaining : ℚ := 0
  avgFillPrice : Option ℚ := none
  permId : Option ℤ := none
  deriving DecidableEq

/-- `_to_status`: the reference, symbol and action are those of the order that was placed. -/
def toStatus (order : Order) (symbol : String) (st : OrderStatus) : BrokerOrderStatus where
  orderRef := order.orderRef
  orderId := st.orderId
  permId := st.permId
  status := st.status
  filled := st.filled
  remaining := st.remaining
  avgFillPrice := st.avgFillPrice
  symbol
  action := order.action

/-- `place_single`; `answer` is what `placeOrder` does. -/
def placeSingle (account : String) (spec : BrokerOrderSpec) (answer : Except String OrderStatus) :
    Except String BrokerOrderStatus :=
  match build account spec with
  | .error e => .error e
  | .ok order =>
    match answer with
    | .error e => .error e
    | .ok st => .ok (toStatus order spec.symbol st)

theorem orderRef_build {account : String} {spec : BrokerOrderSpec} {order : Order}
    (h : build account spec = .ok order) : order.orderRef = spec.orderRef := by
  unfold build at h
  split at h
  · split at h <;> cases h
    rfl
  · split at h <;> cases h
    rfl
  · cases h
    rfl
  · cases h

theorem orderRef_placeSingle {account : String} {spec : BrokerOrderSpec}
    {answer : Except String OrderStatus} {status : BrokerOrderStatus}
    (h : placeSingle account spec answer = .ok status) : status.orderRef = spec.orderRef := by
  unfold placeSingle at h
  split at h
  · cases h
  · rename_i order hbuild
    split at h
    · cases h
    · cases h
      exact orderRef_build hbuild

/-- The request ids the client hands out for the three legs. -/
structure ReqIds where
  parent : ℤ
  take : ℤ
  stop : ℤ
  parent_ne_zero : parent ≠ 0 := by decide

/-- The orders of one bracket, in the order in which they are placed: the entry heads the parent group
of the two others. -/
structure Bracket where
  entry : Order
  take : Order
  stop : Order
  entry_parent : entry.parentId = 0
  take_parent : take.parentId = entry.orderId
  stop_parent : stop.parentId = entry.orderId
  entry_id : entry.orderId ≠ 0
  take_type : take.orderType = .lmt
  stop_type : stop.orderType = .stp

def Bracket.orders (b : Bracket) : List Order := [b.entry, b.take, b.stop]

/-- `place_bracket` up to its first `placeOrder`. -/
def bracketOrders (account : String) (ids : ReqIds) (entry stop target : BrokerOrderSpec) :
    Except String Bracket :=
  match entry.limitPrice, target.limitPrice, stop.stopPrice with
  | none, _, _ => .error "bracket entry must be a limit order"
  | some _, none, _ => .error "bracket target must be a limit order"
  | some _, some _, none => .error "bracket stop must carry a stop price"
  | some entryPrice, some targetPrice, some stopPrice =>
    let parent := { Order.limit entry.action entry.quantity entryPrice with transmit := false }
    let parent := applyCommon account parent entry
    let exitAction := if entry.action.toList.map Char.toUpper = "BUY".toList then "SELL" else "BUY"
    let oca := (named entry.ocaGroup).getD ("oca-" ++ toString ids.parent)
    let take := { Order.limit exitAction entry.quantity targetPrice with
      parentId := ids.parent, transmit := false }
    let take := applyCommon account take target
    let stopOrder := { Order.stop exitAction entry.quantity stopPrice with
      parentId := ids.parent, transmit := true }
    let stopOrder := applyCommon account stopOrder stop
    .ok
      { entry := { parent with ocaGroup := "", orderId := ids.parent }
        take := { take with ocaGroup := oca, ocaType := 1, orderId := ids.take }
        stop := { stopOrder with ocaGroup := oca, ocaType := 1, orderId := ids.stop }
        entry_parent := rfl
        take_parent := rfl
        stop_parent := rfl
        entry_id := ids.parent_ne_zero
        take_type := rfl
        stop_type := rfl }

theorem transmit_bracketOrders {account : String} {ids : ReqIds} {entry stop target : BrokerOrderSpec}
    {b : Bracket} (h : bracketOrders account ids entry stop target = .ok b) :
    b.entry.transmit = entry.transmit ∧ b.take.transmit = target.transmit ∧
      b.stop.transmit = stop.transmit := by
  unfold bracketOrders at h
  split at h
  · cases h
  · cases h
  · cases h
  · cases h
    exact ⟨rfl, rfl, rfl⟩

/-! ### The broker's side -/

/-- Of the orders placed so far, those that are live: placed with `transmit`, or followed by an order of
the same parent group placed with it. -/
def liveOrders : List Order → List Order
  | [] => []
  | o :: later =>
    if o.transmit || later.any fun p => decide (p.group = o.group) && p.transmit then
      o :: liveOrders later
    else liveOrders later

/-- How many `placeOrder` calls of the three succeed. -/
def succeed (raisesAt : Option (Fin 3)) : ℕ :=
  match raisesAt with
  | none => 3
  | some i => i

namespace Bracket

/-- After no number of successful calls is the entry live without the stop and the target placed. -/
def Atomic (b : Bracket) (raisesAt : Option (Fin 3)) : Prop :=
  ∀ calls ≤ succeed raisesAt, b.entry ∈ liveOrders (b.orders.take calls) →
    b.take ∈ b.orders.take calls ∧ b.stop ∈ b.orders.take calls

instance (b : Bracket) (raisesAt : Option (Fin 3)) : Decidable (b.Atomic raisesAt) :=
  inferInstanceAs (Decidable (∀ calls ≤ succeed raisesAt, _))

theorem entry_ne_take (b : Bracket) : b.entry ≠ b.take := by
  intro heq
  have hparent := b.take_parent
  rw [← heq, b.entry_parent] at hparent
  exact b.entry_id hparent.symm

theorem entry_ne_stop (b : Bracket) : b.entry ≠ b.stop := by
  intro heq
  have hparent := b.stop_parent
  rw [← heq, b.entry_parent] at hparent
  exact b.entry_id hparent.symm

theorem take_ne_stop (b : Bracket) : b.take ≠ b.stop := by
  intro heq
  have htype := b.take_type
  rw [heq, b.stop_type] at htype
  cases htype

theorem group_take (b : Bracket) : b.take.group = b.entry.group := by
  have hne : b.take.parentId ≠ 0 := by
    rw [b.take_parent]
    exact b.entry_id
  rw [Order.group, Order.group, if_neg hne, if_pos b.entry_parent, b.take_parent]

theorem live_one (b : Bracket) : b.entry ∈ liveOrders (b.orders.take 1) ↔ b.entry.transmit = true := by
  simp [orders, liveOrders]

theorem live_two (b : Bracket) :
    b.entry ∈ liveOrders (b.orders.take 2) ↔ b.entry.transmit = true ∨ b.take.transmit = true := by
  have hne := b.entry_ne_take
  by_cases hentry : b.entry.transmit = true
  · simp [orders, liveOrders, hentry]
  · by_cases htake : b.take.transmit = true
    · simp [orders, liveOrders, htake, b.group_take]
    · simp [orders, liveOrders, hentry, htake]

/-- **A bracket is atomic exactly when no leg but the last is placed with `transmit`.** -/
theorem atomic_iff_transmit (b : Bracket) (raisesAt : Option (Fin 3)) :
    b.Atomic raisesAt ↔
      (1 ≤ succeed raisesAt → b.entry.transmit = false) ∧
        (2 ≤ succeed raisesAt → b.take.transmit = false) := by
  have hone : b.take ∉ b.orders.take 1 := by
    simpa [orders] using b.entry_ne_take.symm
  have htwo : b.stop ∉ b.orders.take 2 := by
    simpa [orders] using ⟨b.entry_ne_stop.symm, b.take_ne_stop.symm⟩
  refine ⟨fun hatomic => ⟨fun hreach => ?_, fun hreach => ?_⟩, fun ⟨hentry, htake⟩ calls hcalls hlive => ?_⟩
  · have hnot : ¬ b.entry.transmit = true := fun h => hone (hatomic 1 hreach (b.live_one.mpr h)).1
    simpa using hnot
  · have hnot : ¬ b.take.transmit = true := fun h =>
      htwo (hatomic 2 hreach (b.live_two.mpr (Or.inr h))).2
    simpa using hnot
  · match calls with
    | 0 => simp [liveOrders] at hlive
    | 1 =>
      have htransmit := b.live_one.mp hlive
      rw [hentry hcalls] at htransmit
      cases htransmit
    | 2 =>
      have hentry := hentry (by omega)
      rcases b.live_two.mp hlive with htransmit | htransmit
      · rw [hentry] at htransmit
        cases htransmit
      · rw [htake hcalls] at htransmit
        cases htransmit
    | n + 3 => simp [orders]

end Bracket

/-! ### The brackets of the order manager -/

/-- The bracket that `OrderManager.place_bracket` makes the adapter build. -/
def wireBracket (account : String) (ids : ReqIds) (order : SizedOrder) (cycleId : String) (now : Now) :
    Except String Bracket :=
  let specs := OrderManager.bracketSpecs order cycleId now
  bracketOrders account ids specs.1 specs.2.1 specs.2.2

/-- The adapter builds the bracket and places it atomically up to the call that raises, if any. -/
def AtomicOnWire (account : String) (ids : ReqIds) (order : SizedOrder) (cycleId : String) (now : Now)
    (raisesAt : Option (Fin 3)) : Prop :=
  ∃ b, wireBracket account ids order cycleId now = .ok b ∧ b.Atomic raisesAt

theorem transmit_wireBracket {account : String} {ids : ReqIds} {order : SizedOrder} {cycleId : String}
    {now : Now} {b : Bracket} (h : wireBracket account ids order cycleId now = .ok b) :
    b.entry.transmit = true ∧ b.take.transmit = true := by
  rw [wireBracket] at h
  have htransmit := transmit_bracketOrders h
  exact ⟨htransmit.1, htransmit.2.1⟩

/-- **The order manager's brackets are atomic only when the first call raises**: every leg is placed with
`transmit`, so the entry is live as soon as it has been placed. -/
theorem bracket_atomic_iff (account : String) (ids : ReqIds) (order : SizedOrder) (cycleId : String)
    (now : Now) (raisesAt : Option (Fin 3)) :
    AtomicOnWire account ids order cycleId now raisesAt ↔ raisesAt = some 0 := by
  obtain ⟨b, hb⟩ : ∃ b, wireBracket account ids order cycleId now = .ok b := ⟨_, rfl⟩
  obtain ⟨hentry, htake⟩ := transmit_wireBracket hb
  have hiff : AtomicOnWire account ids order cycleId now raisesAt ↔ b.Atomic raisesAt := by
    rw [AtomicOnWire, hb]
    simp
  rw [hiff, Bracket.atomic_iff_transmit, hentry, htake]
  match raisesAt with
  | none => simp [succeed]
  | some 0 => simp [succeed]
  | some 1 => simp [succeed]
  | some 2 => simp [succeed]

/-- The second call raises: the entry rests at the broker, live, with neither stop nor target. -/
theorem naked_entry :
    ¬ AtomicOnWire "DU1" { parent := 7, take := 8, stop := 9 }
      { proposal := { symbol := "AAPL", action := .buy, conviction := 1, horizonMinutes := 60 }
        symbol := "AAPL", action := .buy, quantity := 10, entryPrice := 100, stopPrice := 97
        targetPrice := 106, riskAmount := 30, notional := 1000 }
      "c1" { epoch := 0, date := "2025-01-02", mono := 0 } (some 1) := by
  rintro ⟨b, hb, hatomic⟩
  have hlive : b.entry ∈ liveOrders (b.orders.take 1) :=
    b.live_one.mpr (transmit_wireBracket hb).1
  have htake := (hatomic 1 (by decide) hlive).1
  exact b.entry_ne_take.symm (List.mem_singleton.mp htake)

end AiTrader
