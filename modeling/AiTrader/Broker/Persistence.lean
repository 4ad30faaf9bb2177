import AiTrader.Broker.WriteAhead

/-!
# Order records across a restart

`save_order` is an upsert over seventeen columns, `load_from_store` a hand-written decoder of them. The two
are stated here column by column; on the rows of the store they are `saveOrder` and `restored`
(`columns_saveOrder`, `decode_columns`).

The decoder leaves `created_at` and `updated_at` out, so that a restored record has the time of the restart
for both. Everything else comes back, permanent ids included: `round_trips_iff`.

The store mirrors the order map (`Mirrored`): under each reference the row of its record, with the permanent id that
is known. A save keeps this, also where the upsert coalesces the id (`savedId`), since the row that is there has no id
that the manager does not know. A restart keeps it because loading is pointwise: the rows are filed under their
references, in whatever order they are read, and each restores the record at its own (`look_loadFromStore`). So every
difference between the two order maps is one of the decoder, and the decoder is compared with the upsert column by
column.
-/

namespace AiTrader

open Lib

/-! ### Columns -/

/-- A row of the table `orders`, column by column. -/
structure OrderColumns where
  orderRef : String
  symbol : String
  action : String
  quantity : ℚ
  limitPrice : Option ℚ
  stopPrice : Option ℚ
  targetPrice : Option ℚ
  state : String
  ibOrderId : Option ℤ
  ibPermId : Option ℤ
  parentRef : Option String
  filledQuantity : Option ℚ
  avgFillPrice : Option ℚ
  cycleId : Option String
  rationale : Option String
  createdAt : ℚ
  updatedAt : ℚ
  deriving DecidableEq

namespace OrderColumns

/-- The values `save_order` inserts. -/
def inserted (order : ManagedOrder) (permId : Option ℤ) : OrderColumns where
  orderRef := order.orderRef
  symbol := order.symbol
  action := order.action
  quantity := order.quantity
  limitPrice := order.limitPrice
  stopPrice := order.stopPrice
  targetPrice := order.targetPrice
  state := order.state.value
  ibOrderId := order.ibOrderId
  ibPermId := permId
  parentRef := order.parentRef
  filledQuantity := some order.filledQuantity
  avgFillPrice := order.avgFillPrice
  cycleId := order.cycleId
  rationale := order.rationale
  createdAt := order.createdAt
  updatedAt := order.updatedAt

/-- What becomes of a row `old` on conflict with the values `excluded`. -/
def updated (old excluded : OrderColumns) : OrderColumns :=
  { old with
    symbol := excluded.symbol
    action := excluded.action
    quantity := excluded.quantity
    limitPrice := excluded.limitPrice
    stopPrice := excluded.stopPrice
    targetPrice := excluded.targetPrice
    state := excluded.state
    ibOrderId := excluded.ibOrderId
    ibPermId := excluded.ibPermId.orElse fun _ => old.ibPermId
    parentRef := excluded.parentRef
    filledQuantity := excluded.filledQuantity
    avgFillPrice := excluded.avgFillPrice
    cycleId := excluded.cycleId
    rationale := excluded.rationale
    updatedAt := excluded.updatedAt }

/-- `INSERT … ON CONFLICT(order_ref) DO UPDATE`. -/
def upserted (old : Option OrderColumns) (excluded : OrderColumns) : OrderColumns :=
  match old with
  | some old => old.updated excluded
  | none => excluded

/-- The record `load_from_store` makes of a row; `none` where the row is skipped because `OrderState` raises.
The two times are left to their defaults. -/
def decode (row : OrderColumns) (now : Now) : Option ManagedOrder :=
  (OrderState.ofValue row.state).map fun state =>
    { orderRef := row.orderRef
      symbol := row.symbol
      action := row.action
      quantity := row.quantity
      limitPrice := row.limitPrice
      stopPrice := row.stopPrice
      targetPrice := row.targetPrice
      state
      ibOrderId := row.ibOrderId
      parentRef := row.parentRef
      filledQuantity := row.filledQuantity.getD 0
      avgFillPrice := row.avgFillPrice
      cycleId := row.cycleId
      rationale := row.rationale
      createdAt := now.epoch
      updatedAt := now.epoch }

end OrderColumns

/-- The columns of a row of the store. -/
def OrderRow.columns (row : OrderRow) : OrderColumns := .inserted row.order row.ibPermId

/-- A save that does not raise upserts the columns of its row. -/
theorem columns_saveOrder {s s' : StateStore} {order : ManagedOrder} {permId : Option ℤ}
    (h : s.saveOrder order permId = some s') (hkeyed : ∀ row, s.orders.get? order.orderRef = some row →
      row.order.orderRef = order.orderRef) :
    (s'.orders.get? order.orderRef).map OrderRow.columns =
      some (.upserted ((s.orders.get? order.orderRef).map OrderRow.columns) (.inserted order permId)) := by
  unfold StateStore.saveOrder at h
  split_ifs at h
  obtain rfl := Option.some.inj h
  dsimp only
  rw [Dict.get?_set_self]
  cases hold : s.orders.get? order.orderRef with
  | none => rfl
  | some old =>
    have href : old.order.orderRef = order.orderRef := hkeyed old hold
    simp [OrderRow.columns, OrderColumns.inserted, OrderColumns.upserted, OrderColumns.updated, href]

/-- No row a save has written is skipped, and what the decoder makes of it is `restored`. -/
theorem decode_columns (row : OrderRow) (now : Now) :
    row.columns.decode now = some (OrderManager.restored row now) := by
  unfold OrderRow.columns OrderColumns.decode OrderColumns.inserted OrderManager.restored
  dsimp only
  rw [OrderState.ofValue_value]
  rfl

namespace OrderManager

/-! ### Saves -/

/-- `orders[mo.order_ref] = mo`, the permanent id noted if the broker gave one, and `_persist`. -/
def save (m : OrderManager) (mo : ManagedOrder) (permId : Option ℤ) : OrderManager :=
  ((m.put mo).notePermId mo.orderRef permId).persist mo permId

/-- The write-ahead is a save without a permanent id. -/
example (m : OrderManager) (mo : ManagedOrder) : m.write mo = m.save mo none := rfl

/-- The store holds the records of the order map and no others, up to the two times, with their permanent ids. -/
structure Mirrored (m : OrderManager) (s : StateStore) : Prop where
  store : m.store = some s
  writes : ∀ ref, s.faults (.order ref) = false
  saved : ∀ ref mo, m.orders.get? ref = some mo → ∃ row, s.orders.get? ref = some row ∧
    row.order = { mo with createdAt := row.order.createdAt, updatedAt := row.order.updatedAt } ∧
    row.ibPermId = m.permIds.get? ref
  absent : ∀ ref, m.orders.get? ref = none → s.orders.get? ref = none ∧ m.permIds.get? ref = none
  /-- Zero is no permanent id. -/
  permIds : ∀ ref, truthy (m.permIds.get? ref) = m.permIds.get? ref

theorem get?_permIds_notePermId (m : OrderManager) (ref ref' : String) (permId : Option ℤ) :
    (m.notePermId ref permId).permIds.get? ref' =
      if ref' = ref then (truthy permId).orElse fun _ => m.permIds.get? ref' else m.permIds.get? ref' := by
  unfold notePermId
  dsimp only
  cases hid : truthy permId with
  | none =>
    split_ifs <;> rfl
  | some id =>
    dsimp only
    split_ifs with href
    · rw [href]
      exact Dict.get?_set_self _ _ _
    · exact Dict.get?_set_ne _ _ href

theorem truthy_truthy (x : Option ℤ) : truthy (truthy x) = truthy x := by
  unfold truthy
  rw [Option.filter_filter]
  simp only [Bool.and_self]

/-- The row a save that does not raise leaves: the record up to the time of creation, and the permanent id it
was given, else the one that was there. -/
theorem saveOrder_spec {s : StateStore} {mo : ManagedOrder} (hwrites : s.faults (.order mo.orderRef) = false)
    (permId : Option ℤ) : ∃ s' row, s.saveOrder mo permId = some s' ∧ s'.faults = s.faults ∧
      (∀ ref, s'.orders.get? ref = if ref = mo.orderRef then some row else s.orders.get? ref) ∧
      row.order = { mo with createdAt := row.order.createdAt, updatedAt := row.order.updatedAt } ∧
      row.ibPermId = permId.orElse fun _ => (s.orders.get? mo.orderRef).bind fun old => old.ibPermId := by
  unfold StateStore.saveOrder
  rw [hwrites, if_neg Bool.false_ne_true]
  dsimp only
  have hget : ∀ (row : OrderRow) ref, (s.orders.set mo.orderRef row).get? ref =
      if ref = mo.orderRef then some row else s.orders.get? ref := by
    intro row ref
    split_ifs with href
    · rw [href]
      exact Dict.get?_set_self _ _ _
    · exact Dict.get?_set_ne _ _ href
  cases s.orders.get? mo.orderRef with
  | none =>
    refine ⟨_, _, rfl, rfl, hget _, rfl, ?_⟩
    cases permId <;> rfl
  | some old => exact ⟨_, _, rfl, rfl, hget _, rfl, rfl⟩

/-- The permanent id on record for the reference once the save is done. -/
def savedId (m : OrderManager) (mo : ManagedOrder) (permId : Option ℤ) : Option ℤ :=
  (truthy permId).orElse fun _ => m.permIds.get? mo.orderRef

theorem get?_permIds_save (m : OrderManager) (mo : ManagedOrder) (permId : Option ℤ) (ref : String) :
    (m.save mo permId).permIds.get? ref =
      if ref = mo.orderRef then m.savedId mo permId else m.permIds.get? ref := by
  refine (get?_permIds_notePermId (m.put mo) mo.orderRef ref permId).trans ?_
  split_ifs with href
  · rw [href]
    rfl
  · rfl

theorem store_save {m : OrderManager} {s : StateStore} (hstore : m.store = some s) (mo : ManagedOrder)
    (permId : Option ℤ) :
    (m.save mo permId).store = some ((s.saveOrder mo (m.savedId mo permId)).getD s) := by
  have hgiven : ((truthy permId).orElse fun _ =>
      ((m.put mo).notePermId mo.orderRef permId).permIds.get? mo.orderRef) = m.savedId mo permId := by
    rw [get?_permIds_notePermId, if_pos rfl]
    cases htruthy : truthy permId with
    | none =>
      rw [savedId, htruthy]
      rfl
    | some id =>
      rw [savedId, htruthy]
      rfl
  unfold save persist
  dsimp only
  rw [hgiven]
  show (m.store.map fun s => (s.saveOrder mo (m.savedId mo permId)).getD s) = _
  rw [hstore, Option.map_some]

namespace Mirrored

variable {m : OrderManager} {s : StateStore}

theorem truthy_savedId (h : Mirrored m s) (mo : ManagedOrder) (permId : Option ℤ) :
    truthy (m.savedId mo permId) = m.savedId mo permId := by
  have hagain := truthy_truthy permId
  unfold savedId
  cases htruthy : truthy permId with
  | none => exact h.permIds mo.orderRef
  | some id =>
    rw [htruthy] at hagain
    exact hagain

theorem orElse_savedId (h : Mirrored m s) (mo : ManagedOrder) (permId : Option ℤ) :
    ((m.savedId mo permId).orElse fun _ => (s.orders.get? mo.orderRef).bind fun old => old.ibPermId) =
      m.savedId mo permId := by
  have hrow : ((s.orders.get? mo.orderRef).bind fun old => old.ibPermId) = m.permIds.get? mo.orderRef := by
    cases hlocal : m.orders.get? mo.orderRef with
    | none =>
      obtain ⟨hnone, hid⟩ := h.absent _ hlocal
      rw [hnone, hid]
      rfl
    | some old =>
      obtain ⟨row, hrow, -, hid⟩ := h.saved _ old hlocal
      rw [hrow, Option.bind_some, hid]
  rw [hrow, savedId]
  cases truthy permId with
  | none => cases m.permIds.get? mo.orderRef <;> rfl
  | some id => rfl

theorem save (h : Mirrored m s) (mo : ManagedOrder) (permId : Option ℤ) :
    ∃ s', Mirrored (m.save mo permId) s' := by
  obtain ⟨s', row, hsaved, hfaults, hget, horder, hpermId⟩ :=
    saveOrder_spec (h.writes mo.orderRef) (m.savedId mo permId)
  have hrowId : row.ibPermId = m.savedId mo permId := hpermId.trans (h.orElse_savedId mo permId)
  have hstore : (m.save mo permId).store = some s' := by rw [store_save h.store, hsaved, Option.getD_some]
  have hput : ∀ ref, (m.save mo permId).orders.get? ref = if ref = mo.orderRef then some mo else m.orders.get? ref :=
    fun ref => OrderBook.get?_put _ _ _
  refine ⟨s', hstore, fun ref => by rw [hfaults]; exact h.writes ref, fun ref mo' hlocal => ?_,
    fun ref hlocal => ?_, fun ref => ?_⟩
  · rw [hput] at hlocal
    rw [hget, get?_permIds_save]
    by_cases href : ref = mo.orderRef
    · rw [if_pos href] at hlocal ⊢
      obtain rfl := Option.some.inj hlocal
      rw [if_pos href]
      exact ⟨row, rfl, horder, hrowId⟩
    · rw [if_neg href] at hlocal ⊢
      rw [if_neg href]
      exact h.saved ref mo' hlocal
  · rw [hput] at hlocal
    rw [hget, get?_permIds_save]
    by_cases href : ref = mo.orderRef
    · rw [if_pos href] at hlocal
      cases hlocal
    · rw [if_neg href] at hlocal ⊢
      rw [if_neg href]
      exact h.absent ref hlocal
  · rw [get?_permIds_save]
    split_ifs
    · exact h.truthy_savedId mo permId
    · exact h.permIds ref

end Mirrored

/-! ### Restoring -/

theorem perm_loadOrders (s : StateStore) : s.loadOrders.Perm s.orders.values :=
  List.perm_insertionSort _ _

theorem look_restored (m : OrderManager) (row : OrderRow) (now : Now) (ref : String) :
    let m' := (m.put (restored row now)).notePermId row.order.orderRef row.ibPermId
    (m'.orders.get? ref, m'.permIds.get? ref) = if ref = row.order.orderRef then
      (some (restored row now), (truthy row.ibPermId).orElse fun _ => m.permIds.get? ref)
    else (m.orders.get? ref, m.permIds.get? ref) := by
  have hget : ((m.put (restored row now)).notePermId row.order.orderRef row.ibPermId).orders.get? ref =
      if ref = row.order.orderRef then some (restored row now) else m.orders.get? ref :=
    OrderBook.get?_put _ _ _
  have hid := get?_permIds_notePermId (m.put (restored row now)) row.order.orderRef ref row.ibPermId
  dsimp only
  rw [hget, hid]
  split_ifs <;> rfl

theorem Mirrored.keyed {m : OrderManager} {s : StateStore} (h : Mirrored m s) {key : String} {row : OrderRow}
    (hmem : (key, row) ∈ s.orders.entries) : row.order.orderRef = key := by
  have hrow := Dict.get?_eq_some_iff.mpr hmem
  cases hlocal : m.orders.get? key with
  | none =>
    rw [(h.absent key hlocal).1] at hrow
    cases hrow
  | some mo =>
    obtain ⟨row', hrow', horder, -⟩ := h.saved key mo hlocal
    obtain rfl : row' = row := Option.some.inj (hrow'.symm.trans hrow)
    have href := OrderBook.orderRef_of_get? hlocal
    rw [horder]
    exact href

theorem Mirrored.filter_loadOrders {m : OrderManager} {s : StateStore} (h : Mirrored m s) (ref : String) :
    (s.loadOrders.filter fun row => row.order.orderRef = ref) = (s.orders.get? ref).toList := by
  have hrefs : (s.loadOrders.map fun row => row.order.orderRef).Nodup := by
    rw [((perm_loadOrders s).map _).nodup_iff]
    have hkeys : (s.orders.values.map fun row => row.order.orderRef) = s.orders.keys := by
      rw [Dict.values, Dict.keys, List.map_map]
      exact List.map_congr_left fun e he => h.keyed he
    rw [hkeys]
    exact s.orders.nodup
  cases hrow : s.orders.get? ref with
  | none =>
    rw [Option.toList_none, List.filter_eq_nil_iff]
    intro row hmem href
    obtain ⟨key, hentry⟩ := Dict.mem_values.mp ((perm_loadOrders s).mem_iff.mp hmem)
    have hkey := h.keyed hentry
    rw [of_decide_eq_true href] at hkey
    rw [← hkey] at hentry
    rw [Dict.get?_eq_some_iff.mpr hentry] at hrow
    cases hrow
  | some row =>
    have hentry := Dict.get?_eq_some_iff.mp hrow
    have hmem : row ∈ s.loadOrders := (perm_loadOrders s).mem_iff.mpr (Dict.mem_values.mpr ⟨ref, hentry⟩)
    have hone := filter_of_nodup hrefs hmem
    rwa [h.keyed hentry] at hone

/-- **What `load_from_store` restores** into a fresh order manager, reference by reference. -/
theorem look_loadFromStore {m : OrderManager} {s : StateStore} (h : Mirrored m s) (now : Now) (ref : String) :
    (((PlacementRun.fresh m).loadFromStore now).orders.get? ref,
        ((PlacementRun.fresh m).loadFromStore now).permIds.get? ref) =
      ((m.orders.get? ref).map fun mo => { mo with createdAt := now.epoch, updatedAt := now.epoch },
        m.permIds.get? ref) := by
  have hload : (PlacementRun.fresh m).loadFromStore now = Trace.run (fun m row =>
      (m.put (restored row now)).notePermId row.order.orderRef row.ibPermId) (PlacementRun.fresh m)
      s.loadOrders := by
    have hfresh : (PlacementRun.fresh m).store = some s := h.store
    rw [loadFromStore, hfresh]
    rfl
  have hlook := @Trace.run_pointwise _ _ (fun m row =>
    (m.put (restored row now)).notePermId row.order.orderRef row.ibPermId) _ _ _
    (fun m ref => (m.orders.get? ref, m.permIds.get? ref)) (fun row => row.order.orderRef)
    (fun row look => (some (restored row now), (truthy row.ibPermId).orElse fun _ => look.2))
    (fun m row ref => look_restored m row now ref) (PlacementRun.fresh m) s.loadOrders ref
  have hstart : ((PlacementRun.fresh m).orders.get? ref, (PlacementRun.fresh m).permIds.get? ref) =
      ((none, none) : Option ManagedOrder × Option ℤ) := rfl
  rw [hload]
  refine hlook.trans ?_
  rw [hstart, h.filter_loadOrders]
  cases hlocal : m.orders.get? ref with
  | none =>
    obtain ⟨hrow, hid⟩ := h.absent ref hlocal
    rw [hrow, hid]
    rfl
  | some mo =>
    obtain ⟨row, hrow, horder, hid⟩ := h.saved ref mo hlocal
    rw [hrow, Option.toList_some, List.foldl_cons, List.foldl_nil, hid, h.permIds, restored, horder]
    cases m.permIds.get? ref <;> rfl

/-! ### The round trip -/

inductive SaveEvent
  /-- A record is inserted or updated, with the permanent id the broker gave, if any. -/
  | saved (mo : ManagedOrder) (permId : Option ℤ)
  /-- The process ends, and the next one loads from the store. -/
  | restarted (now : Now)

def saveStep (m : OrderManager) : SaveEvent → OrderManager
  | .saved mo permId => m.save mo permId
  | .restarted now => (PlacementRun.fresh m).loadFromStore now

/-- A fresh order manager on the store has, after `load_from_store`, the same records in every field under the
same references, and the same permanent ids. -/
def RoundTrips (m : OrderManager) (now : Now) : Prop :=
  ∀ ref, ((PlacementRun.fresh m).loadFromStore now).orders.get? ref = m.orders.get? ref ∧
    ((PlacementRun.fresh m).loadFromStore now).permIds.get? ref = m.permIds.get? ref

theorem Mirrored.restart {m : OrderManager} {s : StateStore} (h : Mirrored m s) (now : Now) :
    Mirrored ((PlacementRun.fresh m).loadFromStore now) s := by
  have hlook := fun ref => Prod.mk.inj (look_loadFromStore h now ref)
  refine ⟨(store_loadFromStore _ now).trans h.store, h.writes, fun ref mo hlocal => ?_,
    fun ref hlocal => ?_, fun ref => ?_⟩
  · rw [(hlook ref).1] at hlocal
    obtain ⟨mo', hmo', rfl⟩ := Option.map_eq_some_iff.mp hlocal
    obtain ⟨row, hrow, horder, hid⟩ := h.saved ref mo' hmo'
    exact ⟨row, hrow, horder, hid.trans (hlook ref).2.symm⟩
  · rw [(hlook ref).1, Option.map_eq_none_iff] at hlocal
    rw [(hlook ref).2]
    exact h.absent ref hlocal
  · rw [(hlook ref).2]
    exact h.permIds ref

/-- In every run of saves and restarts on a store whose writes complete, the store mirrors the order map. -/
theorem mirrored_run (events : List SaveEvent) :
    ∃ s, Mirrored (Trace.run saveStep { store := some {} } events) s := by
  have hstart : ∃ s, Mirrored { store := some {} } s :=
    ⟨{}, rfl, fun ref => rfl, fun ref mo h => (nomatch h), fun ref _ => ⟨rfl, rfl⟩, fun ref => rfl⟩
  have hstep : ∀ m event, (∃ s, Mirrored m s) → ∃ s, Mirrored (saveStep m event) s := by
    rintro m event ⟨s, hs⟩
    cases event with
    | saved mo permId => exact hs.save mo permId
    | restarted now => exact ⟨s, hs.restart now⟩
  exact (Trace.always_of_invariant hstep (fun m h => h) hstart).last

/-- **When the order map survives a restart.** After any sequence of inserts, updates and restarts, what
`load_from_store` restores at time `now` is the order map precisely when every record in it was created and
last updated at that very time. -/
theorem round_trips_iff (events : List SaveEvent) (now : Now) :
    RoundTrips (Trace.run saveStep { store := some {} } events) now ↔
      ∀ ref mo, (Trace.run saveStep { store := some {} } events).orders.get? ref = some mo →
        mo.createdAt = now.epoch ∧ mo.updatedAt = now.epoch := by
  obtain ⟨s, hs⟩ := mirrored_run events
  have hlook := fun ref => Prod.mk.inj (look_loadFromStore hs now ref)
  constructor
  · intro htrips ref mo hlocal
    have hsame := (htrips ref).1
    rw [(hlook ref).1, hlocal, Option.map_some, Option.some.injEq] at hsame
    exact ⟨by rw [← hsame], by rw [← hsame]⟩
  · intro htimes ref
    refine ⟨?_, (hlook ref).2⟩
    rw [(hlook ref).1]
    cases hlocal : (Trace.run saveStep { store := some {} } events).orders.get? ref with
    | none => rfl
    | some mo =>
      obtain ⟨hcreated, hupdated⟩ := htimes ref mo hlocal
      cases mo
      dsimp only at hcreated hupdated
      subst hcreated hupdated
      rfl

/-! #### An entry and a restart -/

/-- After a restart an hour later the entry is new to `_expire_stale_orders`: its times are those of the
restart. -/
theorem times_lost : ¬ RoundTrips (Trace.run saveStep { store := some {} }
    [.saved (bracketRecords hundredShares "c1" noon).1 none]) { noon with epoch := 3600 } := by
  intro htrips
  exact absurd (htrips (makeRef "c1" "AAPL" "ENTRY" noon.date)).1 (by decide +kernel)

end OrderManager

end AiTrader
