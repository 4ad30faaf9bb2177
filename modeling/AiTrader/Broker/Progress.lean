import AiTrader.Broker.Protection

/-!
# Order progress

News of an order comes over two channels: the broker's status events, and the snapshots `reconcile` asks for
and applies after both have arrived. An `Update` is one application of such news. `_apply_status` takes
whatever it is given, so an order moves forward only if its news arrives in order: `forward_iff_inOrder`.

Steps 1 and 2 of a `reconcile` are the run of its `updates` (`run_updates`).

`Forward` compares the states and the fills before and after. An update is applied to one record, or writes a new one
in the place of an earlier one, so a run moves forward exactly if each of its updates does; and an update moves its
record forward unless the news is older than what the record has (`forward_update_iff`).
-/

namespace AiTrader

open Lib

/-! ### Progress -/

/-- What a later record of the same order may be: no less filled, and filled if it was. -/
structure ManagedOrder.Forward (mo mo' : ManagedOrder) : Prop where
  filled : mo.filledQuantity ≤ mo'.filledQuantity
  final : mo.state = .filled → mo'.state = .filled

namespace OrderBook

/-- Every order of `b` is in `b'`, and has not moved back. -/
def Forward (b b' : OrderBook) : Prop :=
  ∀ ref mo, b.get? ref = some mo → ∃ mo', b'.get? ref = some mo' ∧ mo.Forward mo'

theorem Forward.refl (b : OrderBook) : b.Forward b :=
  fun _ mo hget => ⟨mo, hget, le_refl _, id⟩

theorem Forward.trans {b b' b'' : OrderBook} (h : b.Forward b') (h' : b'.Forward b'') : b.Forward b'' := by
  intro ref mo hget
  obtain ⟨mo', hget', hfilled, hfinal⟩ := h ref mo hget
  obtain ⟨mo'', hget'', hfilled', hfinal'⟩ := h' ref mo' hget'
  exact ⟨mo'', hget'', hfilled.trans hfilled', fun hstate => hfinal' (hfinal hstate)⟩

theorem forward_put {b : OrderBook} {mo : ManagedOrder}
    (h : ∀ old, b.get? mo.orderRef = some old → old.Forward mo) : b.Forward (b.put mo) := by
  intro ref old hget
  rw [get?_put]
  by_cases href : ref = mo.orderRef
  · rw [if_pos href]
    exact ⟨mo, rfl, h old (href ▸ hget)⟩
  · rw [if_neg href]
    exact Forward.refl b ref old hget

end OrderBook

/-- The broker's word on an order does not take back what the record says. -/
def ManagedOrder.Advances (mo : ManagedOrder) (status : BrokerOrderStatus) : Prop :=
  mo.filledQuantity ≤ status.filled ∧
    (mo.state = .filled → statusMap status.status = some .filled ∨ statusMap status.status = none)

theorem nextState_filled_iff {status : BrokerOrderStatus} :
    nextState .filled status = .filled ↔
      statusMap status.status = some .filled ∨ statusMap status.status = none := by
  unfold nextState
  cases statusMap status.status with
  | none => simp
  | some new =>
    dsimp only [Option.getD_some]
    by_cases hpart : 0 < status.filled ∧ new ≠ .filled ∧ new ≠ .cancelled
    · rw [if_pos hpart]
      simp [hpart.2.1]
    · rw [if_neg hpart]
      simp

theorem ManagedOrder.forward_absorb_iff {mo : ManagedOrder} {status : BrokerOrderStatus} {now : ℚ} :
    mo.Forward (mo.absorb status now) ↔ mo.Advances status := by
  have hfinal : (mo.state = .filled → nextState mo.state status = .filled) ↔
      (mo.state = .filled → statusMap status.status = some .filled ∨ statusMap status.status = none) := by
    refine forall_congr' fun hstate => ?_
    rw [hstate]
    exact nextState_filled_iff
  exact ⟨fun h => ⟨h.filled, hfinal.mp h.final⟩, fun h => ⟨h.1, hfinal.mpr h.2⟩⟩

namespace OrderManager

theorem forward_applyStatus_iff {m : OrderManager} {status : BrokerOrderStatus} {now : Now} :
    m.orders.Forward (m.applyStatus status now).orders ↔
      ∀ mo, m.orders.get? status.orderRef = some mo → mo.Advances status := by
  constructor
  · intro h mo hget
    obtain ⟨mo', hget', hforward⟩ := h _ mo hget
    rw [get?_applyStatus, if_pos rfl, hget, statusOn, Option.some.injEq] at hget'
    subst hget'
    exact ManagedOrder.forward_absorb_iff.mp hforward
  · intro h ref mo hget
    rw [get?_applyStatus]
    split_ifs with href
    · subst href
      rw [hget]
      exact ⟨_, rfl, ManagedOrder.forward_absorb_iff.mpr (h mo hget)⟩
    · exact OrderBook.Forward.refl _ ref mo hget

/-! ### Step 2 -/

/-- Where step 2 leaves the manager, whether or not it gets through. -/
def afterResolve : Except (OrderManager × ReconciliationReport) (OrderManager × ReconciliationReport) →
    OrderManager
  | .ok r => r.1
  | .error r => r.1

theorem forward_neverSent {known : List String} {mo : ManagedOrder} {now : Now}
    (h : maybeSent known mo = true) : mo.Forward (neverSent mo now) where
  filled := le_refl _
  final := by
    intro hstate
    rw [maybeSent, ManagedOrder.isWorking, hstate] at h
    cases h

theorem forward_resolveMaybeSent {known : List String} {now : Now} {records : List ManagedOrder}
    {r : OrderManager × ReconciliationReport} (hnodup : (records.map ManagedOrder.orderRef).Nodup)
    (hrecords : ∀ mo ∈ records, r.1.orders.get? mo.orderRef = some mo) :
    r.1.orders.Forward (afterResolve (resolveMaybeSent known now records r)).orders := by
  induction records generalizing r with
  | nil => exact .refl _
  | cons mo rest ih =>
    rw [List.map_cons, List.nodup_cons] at hnodup
    have hmo := hrecords mo List.mem_cons_self
    have hput : maybeSent known mo = true → r.1.orders.Forward (r.1.orders.put (neverSent mo now)) := by
      intro hmaybe
      refine OrderBook.forward_put fun old hold => ?_
      rw [orderRef_neverSent, hmo, Option.some.injEq] at hold
      exact hold ▸ forward_neverSent hmaybe
    rw [resolveMaybeSent]
    rcases resolveOne_cases known now r mo with
      ⟨_, hone⟩ | ⟨hmaybe, _, r₁, hone, horders⟩ | ⟨hmaybe, _, r₁, hone, horders, _, _⟩
    · rw [hone]
      exact ih hnodup.2 fun mo' hmem => hrecords mo' (List.mem_cons_of_mem _ hmem)
    · rw [hone]
      show r.1.orders.Forward r₁.1.orders
      rw [horders]
      exact hput hmaybe
    · rw [hone]
      have hfirst : r.1.orders.Forward r₁.1.orders := by
        rw [horders]
        exact hput hmaybe
      refine hfirst.trans (ih hnodup.2 fun mo' hmem => ?_)
      have hne : mo'.orderRef ≠ mo.orderRef := fun heq => hnodup.1 (heq ▸ List.mem_map_of_mem hmem)
      rw [horders, OrderBook.get?_put, orderRef_neverSent, if_neg hne]
      exact hrecords mo' (List.mem_cons_of_mem _ hmem)

end OrderManager

/-! ### Updates -/

/-- One application of news to the order map: a status event (or the broker's reply to an order just sent), an
order that `reconcile` found listed as open or as completed, or its pass over what the broker does not know. -/
inductive Update
  | event (status : BrokerOrderStatus) (now : Now)
  | listedOpen (status : BrokerOrderStatus) (now : Now)
  | listedCompleted (status : BrokerOrderStatus) (now : Now)
  | unheardOf (known : List String) (now : Now)

namespace OrderManager

def update (m : OrderManager) : Update → OrderManager
  | .event status now => m.applyStatus status now
  | .listedOpen status now => (absorbOpen now (m, {}) status).1
  | .listedCompleted status now => absorbCompleted now m status
  | .unheardOf known now => afterResolve (resolveMaybeSent known now m.orders.values (m, {}))

/-- The update is no older than what the manager knows: the status carries at least the fills of the record it
is about, and to a filled order says that it is filled, or nothing that is understood. -/
def InOrder (m : OrderManager) : Update → Prop
  | .event status _ => ∀ mo, m.orders.get? status.orderRef = some mo → mo.Advances status
  | .listedOpen status _ | .listedCompleted status _ =>
    isOurs status.orderRef = true → ∀ mo, m.orders.get? status.orderRef = some mo → mo.Advances status
  | .unheardOf _ _ => True

theorem forward_update_iff (m : OrderManager) (u : Update) :
    m.orders.Forward (m.update u).orders ↔ m.InOrder u := by
  cases u with
  | event status now => exact forward_applyStatus_iff
  | listedOpen status now =>
    show m.orders.Forward (absorbOpen now (m, {}) status).1.orders ↔ (isOurs status.orderRef = true → _)
    unfold absorbOpen
    by_cases hours : isOurs status.orderRef = true
    · rw [if_pos hours, forward_applyStatus_iff, forall_prop_of_true hours]
    · rw [if_neg hours]
      exact iff_of_true (.refl _) fun h => absurd h hours
  | listedCompleted status now =>
    show m.orders.Forward (absorbCompleted now m status).orders ↔ (isOurs status.orderRef = true → _)
    unfold absorbCompleted
    by_cases hours : isOurs status.orderRef = true
    · rw [hours, Bool.true_and, forall_prop_of_true rfl]
      cases hget : m.orders.get? status.orderRef with
      | none => exact iff_of_true (.refl _) fun mo h => (nomatch h)
      | some mo => rw [Option.isSome_some, if_pos rfl, forward_applyStatus_iff, hget]
    · rw [Bool.eq_false_of_not_eq_true hours, Bool.false_and, if_neg Bool.false_ne_true]
      exact iff_of_true (.refl _) fun h => (nomatch h)
  | unheardOf known now =>
    refine iff_of_true ?_ trivial
    exact @forward_resolveMaybeSent known now _ (m, {}) (OrderBook.nodup_refs _)
      fun mo hmem => OrderBook.mem_values.mp hmem

/-- **When no order moves back**: over any two moments of a run of updates, precisely when every update of the
run arrives in order. -/
theorem forward_iff_inOrder (m : OrderManager) (updates : List Update) :
    (∀ pre mid, pre ++ mid <+: updates →
        (Trace.run update m pre).orders.Forward (Trace.run update m (pre ++ mid)).orders) ↔
      Trace.Each update InOrder m updates := by
  have hrel := @Trace.each_rel_iff _ _ update (fun m m' : OrderManager => m.orders.Forward m'.orders)
    (fun _ => .refl _) (fun _ _ _ h h' => h.trans h') m updates
  exact hrel.symm.trans (Trace.each_congr forward_update_iff)

end OrderManager

/-! ### The updates of a reconcile -/

/-- The news a `reconcile` applies in steps 1 and 2. -/
def ReconcileEnv.updates (env : ReconcileEnv) : List Update :=
  env.opens.map (fun status => .listedOpen status env.start) ++
    (env.completed.map (fun status => .listedCompleted status env.start) ++
      [.unheardOf env.known env.start])

namespace OrderManager

theorem run_listedOpen (now : Now) (opens : List BrokerOrderStatus)
    (r : OrderManager × ReconciliationReport) :
    Trace.run update r.1 (opens.map fun status => .listedOpen status now) =
      (opens.foldl (absorbOpen now) r).1 := by
  induction opens generalizing r with
  | nil => rfl
  | cons status opens ih =>
    have hstep : update r.1 (.listedOpen status now) = (absorbOpen now r status).1 := by
      show (absorbOpen now (r.1, {}) status).1 = _
      unfold absorbOpen
      by_cases hours : isOurs status.orderRef = true
      · rw [if_pos hours, if_pos hours]
      · rw [if_neg hours, if_neg hours]
    rw [List.map_cons, Trace.run_cons, hstep, ih, List.foldl_cons]

/-- **Steps 1 and 2 of a `reconcile`** that gets through are the run of its updates. -/
theorem run_updates {env : ReconcileEnv} {m : OrderManager} (h : env.Answers m) (ref : String) :
    (Trace.run update m env.updates).orders.get? ref = env.view m ref := by
  have hcompleted : ∀ m : OrderManager,
      Trace.run update m (env.completed.map fun status => .listedCompleted status env.start) =
        env.completed.foldl (absorbCompleted env.start) m := by
    intro m
    rw [Trace.run, List.foldl_map]
    rfl
  have hrun : Trace.run update m env.updates =
      update (absorbAll env.start env.opens env.completed m).1 (.unheardOf env.known env.start) := by
    rw [ReconcileEnv.updates, Trace.run_append, Trace.run_append,
      run_listedOpen env.start env.opens (m, {}), hcompleted]
    rfl
  have hfaults := resolveMaybeSent_ok_iff.mp ((resolve_absorbed_ok_iff env m).mpr h.transitions)
  obtain ⟨r', hr'⟩ := (@resolveMaybeSent_ok_iff env.known env.start _
    ((absorbAll env.start env.opens env.completed m).1, {})).mpr hfaults
  have hget := (@resolve_all_spec env.known env.start
    ((absorbAll env.start env.opens env.completed m).1, {}) r' hr').2 ref
  rw [hrun, update, hr', afterResolve, hget, get?_absorbAll]
  rfl

/-! #### A stale snapshot -/

/-- The entry as the snapshot of the open orders has it, and as the event has it that comes while the
completed orders are awaited. -/
def entryOpen : BrokerOrderStatus := statusOf aaplBracket.1.orderRef 7 0 100

def entryFilled : BrokerOrderStatus := { statusOf aaplBracket.1.orderRef 7 100 0 with status := "Filled" }

/-- The snapshot takes the fill back: a filled entry is working again, with nothing filled. -/
theorem stale_snapshot_unfills :
    (¬ ∀ pre mid, pre ++ mid <+: Update.event entryFilled (aaplEnv []).start :: (aaplEnv [entryOpen]).updates →
        (Trace.run update aaplManager pre).orders.Forward
          (Trace.run update aaplManager (pre ++ mid)).orders) ∧
      ((reconcile (aaplEnv [entryOpen]) (aaplManager.applyStatus entryFilled (aaplEnv []).start)
          (aaplAccount 100)).manager.orders.get? aaplBracket.1.orderRef).map
        (fun mo => (mo.state, mo.filledQuantity)) = some (.submitted, 0) := by
  refine ⟨fun h => ?_, by decide +kernel⟩
  have hback := h [.event entryFilled (aaplEnv []).start] [.listedOpen entryOpen (aaplEnv []).start]
    ⟨_, rfl⟩
  have hours : isOurs entryOpen.orderRef = true := by decide +kernel
  have hfilled : (aaplManager.applyStatus entryFilled (aaplEnv []).start).orders.get?
      entryOpen.orderRef = some (aaplBracket.1.absorb entryFilled 60) := by decide +kernel
  have hinOrder := (forward_update_iff (aaplManager.applyStatus entryFilled (aaplEnv []).start)
    (.listedOpen entryOpen (aaplEnv []).start)).mp hback
  exact absurd (hinOrder hours _ hfilled).1 (by decide +kernel)

end OrderManager

end AiTrader
