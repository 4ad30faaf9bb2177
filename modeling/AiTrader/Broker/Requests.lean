import AiTrader.Broker.Agreement

/-!
# What reconciliation sends

A `reconcile` that returns has placed a stop for every held position that is unshielded in the view and has a
reference price, and has asked for the cancellation of every orphaned leg; it has sent nothing else
(`mem_requests_iff`). One that raises has sent nothing.

* `recognises_stops_iff`: a stop of ours that rests at the broker keeps a second one away only by way of a
  local record, since an adopted record has no stop price.
* `faults_harmless_iff`: of all the writes to the store only the transitions of step 2 are unguarded, and
  they come before step 4. Each comes once in a pass, so a fixed set of failing writes stands for any pattern.

The requests of steps 4 and 5 depend on the view alone, and the view on which references the statuses are about. So
two passes that start from one order map and return send the same, whatever their stores refuse (`requests_congr`);
this is why a failing write is harmless unless it makes step 2 raise. Whether a stop of ours keeps a second one away
is a question about the record at its reference: one with a stop price works in the view only if it was there before.
-/

namespace AiTrader

open Lib OrderManager

namespace ReconcileEnv

/-! ### The placements of step 4 -/

/-- What is sent to protect a position that has no stop. -/
def stopRequests (env : ReconcileEnv) (symbol : String) (p : Position) : List BrokerRequest :=
  match referencePrice (env.quote symbol) p with
  | none => []
  | some reference => [.placeSingle (protectiveSpec (env.emitAt symbol) symbol p reference)]

theorem mem_stopRequests {env : ReconcileEnv} {symbol : String} {p : Position} {request : BrokerRequest} :
    request ∈ env.stopRequests symbol p ↔ ∃ reference, referencePrice (env.quote symbol) p = some reference ∧
      request = .placeSingle (protectiveSpec (env.emitAt symbol) symbol p reference) := by
  unfold stopRequests
  cases referencePrice (env.quote symbol) p with
  | none => simp
  | some reference => simp

theorem requests_emitProtectiveStop (env : ReconcileEnv) (m : OrderManager) (symbol : String)
    (p : Position) : (emitProtectiveStop env m symbol p).2.2 = env.stopRequests symbol p := by
  unfold emitProtectiveStop stopRequests
  cases referencePrice (env.quote symbol) p with
  | none => rfl
  | some reference =>
    dsimp only
    split <;> rfl

theorem requests_protectPosition (env : ReconcileEnv) (isProtected : String → Bool) (r : Reconciled)
    (e : String × Position) :
    (protectPosition env isProtected r e).requests =
      r.requests ++ if isProtected e.1 then [] else env.stopRequests e.1 e.2 := by
  have hemit := requests_emitProtectiveStop env r.manager e.1 e.2
  unfold protectPosition
  by_cases hprot : isProtected e.1 = true
  · rw [if_pos hprot, if_pos hprot, List.append_nil]
  · rw [if_neg hprot, if_neg hprot, ← hemit]
    dsimp only
    split_ifs <;> rfl

theorem requests_protectAll (env : ReconcileEnv) (m : OrderManager) (r : Reconciled)
    (positions : List (String × Position)) :
    (protectAll env m r positions).requests = r.requests ++ positions.flatMap fun e =>
      if m.isProtected e.1 then [] else env.stopRequests e.1 e.2 := by
  induction positions generalizing r with
  | nil => exact (List.append_nil _).symm
  | cons e positions ih =>
    rw [protectAll, Trace.run_cons, List.flatMap_cons, ← List.append_assoc,
      ← requests_protectPosition env m.isProtected r e]
    exact ih _

/-! ### All requests -/

variable {env : ReconcileEnv} {m : OrderManager} {account : AccountSnapshot}

/-- **What a `reconcile` that returns has sent**: the stops of the positions without one, and the cancels of
the orphaned legs. -/
theorem mem_requests_iff (h : env.Answers m) (request : BrokerRequest) :
    request ∈ (reconcile env m account).requests ↔
      (∃ symbol p, (symbol, p) ∈ account.openPositions.entries ∧ ¬ env.Shielded m symbol ∧
        request ∈ env.stopRequests symbol p) ∨
      ∃ id, request = .cancelOrder id ∧ Orphaned env m account id := by
  obtain ⟨m', report, hfinal, _, hview⟩ := reconcile_returns h
  have hstep4 : request ∈ (afterStep4 env account m' report).requests ↔
      ∃ symbol p, (symbol, p) ∈ account.openPositions.entries ∧ ¬ env.Shielded m symbol ∧
        request ∈ env.stopRequests symbol p := by
    rw [afterStep4, requests_protectAll]
    simp only [List.nil_append, List.mem_flatMap, Prod.exists]
    refine exists_congr fun symbol => exists_congr fun p => and_congr_right fun _ => ?_
    rw [← isProtected_iff hview]
    by_cases hprot : m'.isProtected symbol = true
    · simp [hprot]
    · simp [hprot]
  constructor
  · intro hmem
    rw [hfinal, requests_protectAndClean, List.mem_append] at hmem
    rcases hmem with hmem | hmem
    · exact Or.inl (hstep4.mp hmem)
    · obtain ⟨id, hid, rfl⟩ := List.mem_map.mp hmem
      refine Or.inr ⟨id, rfl, (cancel_mem_reconcile h id).mp ?_⟩
      rw [hfinal, requests_protectAndClean]
      exact List.mem_append_right _ (List.mem_map_of_mem hid)
  · rintro (hplaced | ⟨id, rfl, horphan⟩)
    · rw [hfinal, requests_protectAndClean]
      exact List.mem_append_left _ (hstep4.mpr hplaced)
    · exact (cancel_mem_reconcile h id).mpr horphan

/-- There is nothing to protect and nothing to clean up: every held position is shielded in the view or has
no reference price, and no leg is orphaned. -/
structure Quiet (env : ReconcileEnv) (m : OrderManager) (account : AccountSnapshot) : Prop where
  shielded : ∀ symbol p, (symbol, p) ∈ account.openPositions.entries →
    env.Shielded m symbol ∨ referencePrice (env.quote symbol) p = none
  clean : ∀ id, ¬ Orphaned env m account id

/-- **When a `reconcile` that returns has sent nothing.** -/
theorem requests_eq_nil_iff (h : env.Answers m) :
    (reconcile env m account).requests = [] ↔ env.Quiet m account := by
  rw [List.eq_nil_iff_forall_not_mem]
  simp only [mem_requests_iff h, not_or, not_exists, not_and]
  constructor
  · intro hnone
    refine ⟨fun symbol p hmem => ?_, fun id horphan => (hnone _).2 id rfl horphan⟩
    by_contra hopen
    rw [not_or] at hopen
    obtain ⟨reference, hreference⟩ := Option.ne_none_iff_exists'.mp hopen.2
    exact (hnone _).1 symbol p hmem hopen.1 (mem_stopRequests.mpr ⟨reference, hreference, rfl⟩)
  · intro hquiet request
    refine ⟨fun symbol p hmem hopen hrequest => ?_, fun id _ => hquiet.clean id⟩
    obtain ⟨reference, hreference, -⟩ := mem_stopRequests.mp hrequest
    rcases hquiet.shielded symbol p hmem with hshielded | hnone
    · exact hopen hshielded
    · rw [hreference] at hnone
      cases hnone

end ReconcileEnv

/-! ### Stops that rest at the broker -/

namespace ReconcileEnv

/-- The broker lists an open order for the symbol under a reference of ours of kind STOP, on the side that
closes the position. -/
def RestingStop (env : ReconcileEnv) (symbol : String) (p : Position) : Prop :=
  ∃ status ∈ env.opens, status.symbol = symbol ∧ status.action = exitSide p ∧
    ∃ parts, parseRef status.orderRef = some parts ∧ parts.kind = "STOP"

/-- A local record of the symbol has a stop price, and still works once the broker's orders are absorbed. -/
def KnownStop (env : ReconcileEnv) (m : OrderManager) (symbol : String) : Prop :=
  ∃ ref mo, m.orders.get? ref = some mo ∧ mo.symbol = symbol ∧ mo.stopPrice.isSome = true ∧
    ∃ mo', env.view m ref = some mo' ∧ mo'.isWorking = true

/-- For a position with a stop of ours at the broker no second one is placed. -/
def RecognisesStops (env : ReconcileEnv) (m : OrderManager) (account : AccountSnapshot) : Prop :=
  ∀ symbol p, (symbol, p) ∈ account.openPositions.entries → env.RestingStop symbol p →
    ∀ spec, .placeSingle spec ∈ (reconcile env m account).requests → spec.symbol ≠ symbol

/-- What absorbing statuses does to the symbol and the stop price of a record: it keeps them, and a record it
creates has no stop price. -/
structure Keeps (record record' : Option ManagedOrder) : Prop where
  kept : ∀ mo, record = some mo → ∃ mo', record' = some mo' ∧ mo'.symbol = mo.symbol ∧
    mo'.stopPrice = mo.stopPrice
  created : record = none → ∀ mo', record' = some mo' → mo'.stopPrice = none

theorem Keeps.refl (record : Option ManagedOrder) : Keeps record record := by
  refine ⟨fun mo h => ⟨mo, h, rfl, rfl⟩, fun hnone mo' h => ?_⟩
  rw [hnone] at h
  cases h

theorem Keeps.trans {a b c : Option ManagedOrder} (h : Keeps a b) (h' : Keeps b c) : Keeps a c := by
  constructor
  · intro mo hmo
    obtain ⟨mo', hmo', hsymbol, hstop⟩ := h.kept mo hmo
    obtain ⟨mo'', hmo'', hsymbol', hstop'⟩ := h'.kept mo' hmo'
    exact ⟨mo'', hmo'', hsymbol'.trans hsymbol, hstop'.trans hstop⟩
  · intro hnone mo'' hmo''
    cases hb : b with
    | none => exact h'.created hb mo'' hmo''
    | some mo' =>
      obtain ⟨mo₁, hmo₁, -, hstop⟩ := h'.kept mo' hb
      obtain rfl : mo₁ = mo'' := Option.some.inj (hmo₁.symm.trans hmo'')
      exact hstop.trans (h.created hnone mo' hb)

theorem keeps_statusOn (now : Now) (status : BrokerOrderStatus) (record : Option ManagedOrder) :
    Keeps record (statusOn now status record) := by
  cases record with
  | some mo => exact ⟨fun mo' h => ⟨_, rfl, by cases h; rfl, by cases h; rfl⟩, fun h => (nomatch h)⟩
  | none =>
    refine ⟨fun mo' h => (nomatch h), fun _ mo' h => ?_⟩
    unfold statusOn at h
    split_ifs at h
    cases h
    rfl

theorem keeps_foldl {statuses : List BrokerOrderStatus}
    {act : Option ManagedOrder → BrokerOrderStatus → Option ManagedOrder}
    (h : ∀ record status, Keeps record (act record status)) (record : Option ManagedOrder) :
    Keeps record (statuses.foldl act record) := by
  induction statuses generalizing record with
  | nil => exact .refl record
  | cons status statuses ih => exact (h record status).trans (ih _)

theorem keeps_absorbed (env : ReconcileEnv) (m : OrderManager) (ref : String) :
    Keeps (m.orders.get? ref) (env.absorbed m ref) := by
  unfold absorbed
  refine (keeps_foldl (fun record status => ?_) _).trans (keeps_foldl (fun record status => ?_) _)
  · split_ifs
    · exact keeps_statusOn _ _ _
    · exact .refl _
  · split_ifs
    · exact keeps_statusOn _ _ _
    · exact .refl _

theorem keeps_view (env : ReconcileEnv) (m : OrderManager) (ref : String) :
    Keeps (m.orders.get? ref) (env.view m ref) := by
  refine (keeps_absorbed env m ref).trans ⟨fun mo hmo => ?_, fun hnone mo' h => ?_⟩
  · refine ⟨_, congrArg (Option.map _) hmo, ?_⟩
    dsimp only
    split_ifs <;> exact ⟨rfl, rfl⟩
  · rw [view, hnone] at h
    cases h

theorem shielded_iff_knownStop (env : ReconcileEnv) (m : OrderManager) (symbol : String) :
    env.Shielded m symbol ↔ env.KnownStop m symbol := by
  constructor
  · rintro ⟨ref, mo', hview, hworking, hstop, hsymbol⟩
    have hkeeps := keeps_view env m ref
    cases hlocal : m.orders.get? ref with
    | none =>
      rw [hkeeps.created hlocal mo' hview] at hstop
      cases hstop
    | some mo =>
      obtain ⟨mo₁, hmo₁, hsymbol₁, hstop₁⟩ := hkeeps.kept mo hlocal
      obtain rfl : mo₁ = mo' := Option.some.inj (hmo₁.symm.trans hview)
      exact ⟨ref, mo, hlocal, hsymbol₁.symm.trans hsymbol, hstop₁ ▸ hstop, mo₁, hview, hworking⟩
  · rintro ⟨ref, mo, hlocal, hsymbol, hstop, mo', hview, hworking⟩
    obtain ⟨mo₁, hmo₁, hsymbol₁, hstop₁⟩ := (keeps_view env m ref).kept mo hlocal
    obtain rfl : mo₁ = mo' := Option.some.inj (hmo₁.symm.trans hview)
    exact ⟨ref, mo₁, hview, hworking, hstop₁ ▸ hstop, hsymbol₁.trans hsymbol⟩

/-- **When a stop that rests at the broker is recognised.** A `reconcile` that gets past step 3 places no second
stop precisely when, for every held position with one, a local record of the symbol with a stop price still
works, or there is no price to derive a second stop from. -/
theorem recognises_stops_iff (env : ReconcileEnv) (m : OrderManager) (account : AccountSnapshot) :
    env.RecognisesStops m account ↔ (env.Answers m →
      ∀ symbol p, (symbol, p) ∈ account.openPositions.entries → env.RestingStop symbol p →
        env.KnownStop m symbol ∨ referencePrice (env.quote symbol) p = none) := by
  unfold RecognisesStops
  by_cases h : env.Answers m
  · rw [imp_iff_right h]
    refine forall_congr' fun symbol => forall_congr' fun p => forall_congr' fun hmem =>
      forall_congr' fun _ => ?_
    rw [← shielded_iff_knownStop]
    constructor
    · intro hnone
      by_contra hopen
      rw [not_or] at hopen
      obtain ⟨reference, hreference⟩ := Option.ne_none_iff_exists'.mp hopen.2
      have hsent := mem_stopRequests.mpr ⟨reference, hreference, rfl⟩
      exact hnone _ ((mem_requests_iff h _).mpr (Or.inl ⟨symbol, p, hmem, hopen.1, hsent⟩)) rfl
    · rintro hsafe spec hsent rfl
      rcases (mem_requests_iff h _).mp hsent with ⟨symbol, p', hmem', hopen, hrequest⟩ | ⟨id, hcancel, -⟩
      · obtain ⟨reference, hreference, hspec⟩ := mem_stopRequests.mp hrequest
        cases hspec
        obtain rfl := account.openPositions.entries_unique hmem hmem'
        rcases hsafe with hshielded | hnone
        · exact hopen hshielded
        · exact absurd (hreference.symm.trans hnone) (Option.some_ne_none _)
      · cases hcancel
  · refine iff_of_true (fun symbol p _ _ spec hsent => ?_) fun hanswers => absurd hanswers h
    rw [requests_of_not_answers h] at hsent
    cases hsent

/-! #### After the database was lost -/

/-- The broker lists the stop of the bracket as open. -/
def stopListed : ReconcileEnv :=
  aaplEnv [{ statusOf aaplBracket.2.1.orderRef 8 0 50 with symbol := "AAPL", action := "SELL" }]

/-- The order map is empty, the position is 50 AAPL, and a second stop goes out next to the one at the broker. -/
theorem resting_stop_doubled : ¬ stopListed.RecognisesStops {} (aaplAccount 50) := by
  intro hrecognises
  refine hrecognises "AAPL" aaplPosition (by decide +kernel) ?_
    (protectiveSpec (stopListed.emitAt "AAPL") "AAPL" aaplPosition 100) (by decide +kernel) rfl
  refine ⟨_, List.mem_cons_self, rfl, by decide +kernel, ?_⟩
  exact ⟨{ day := "2025-01-02", cycleId := "c1", symbol := "AAPL", kind := "STOP" }, by decide +kernel, rfl⟩

end ReconcileEnv

/-! ### Store faults -/

namespace OrderManager

/-- The same order manager on a store whose writes complete. -/
def healthy (m : OrderManager) : OrderManager :=
  { m with store := m.store.map fun s => { s with faults := fun _ => false } }

theorem faults_healthy (m : OrderManager) (w : Write) : m.healthy.faults w = false := by
  unfold healthy faults
  cases m.store <;> rfl

/-! What an operation makes of the order map depends on the order map alone. -/

theorem orders_applyStatus_congr {m m' : OrderManager} (h : m.orders = m'.orders) (status : BrokerOrderStatus)
    (now : Now) : (m.applyStatus status now).orders = (m'.applyStatus status now).orders := by
  unfold applyStatus
  rw [← h]
  split
  · rw [orders_absorb, orders_absorb, h]
  · split_ifs
    · rw [orders_absorb, orders_absorb, h]
    · exact h

theorem orders_absorbAll_congr {m m' : OrderManager} (h : m.orders = m'.orders) (now : Now)
    (opens completed : List BrokerOrderStatus) :
    (absorbAll now opens completed m).1.orders = (absorbAll now opens completed m').1.orders := by
  have hopens : ∀ (opens : List BrokerOrderStatus) (r r' : OrderManager × ReconciliationReport),
      r.1.orders = r'.1.orders →
        (opens.foldl (absorbOpen now) r).1.orders = (opens.foldl (absorbOpen now) r').1.orders := by
    intro opens
    induction opens with
    | nil => exact fun r r' h => h
    | cons status opens ih =>
      intro r r' h
      refine ih _ _ ?_
      by_cases hours : isOurs status.orderRef = true
      · rw [absorbOpen, absorbOpen, if_pos hours, if_pos hours]
        exact orders_applyStatus_congr h status now
      · rw [absorbOpen, absorbOpen, if_neg hours, if_neg hours]
        exact h
  have hcompleted : ∀ (completed : List BrokerOrderStatus) (m m' : OrderManager), m.orders = m'.orders →
      (completed.foldl (absorbCompleted now) m).orders = (completed.foldl (absorbCompleted now) m').orders := by
    intro completed
    induction completed with
    | nil => exact fun m m' h => h
    | cons status completed ih =>
      intro m m' h
      refine ih _ _ ?_
      unfold absorbCompleted
      rw [← h]
      split_ifs
      · exact orders_applyStatus_congr h status now
      · exact h
  exact hcompleted completed _ _ (hopens opens _ _ h)

theorem orders_resolveMaybeSent_congr {known : List String} {now : Now} {records : List ManagedOrder}
    {r r' s s' : OrderManager × ReconciliationReport} (h : r.1.orders = r'.1.orders)
    (hs : resolveMaybeSent known now records r = .ok s)
    (hs' : resolveMaybeSent known now records r' = .ok s') : s.1.orders = s'.1.orders := by
  induction records generalizing r r' with
  | nil =>
    cases hs
    cases hs'
    exact h
  | cons mo rest ih =>
    rw [resolveMaybeSent] at hs hs'
    rcases resolveOne_cases known now r mo with
      ⟨hmaybe, hone⟩ | ⟨_, _, r₁, hone, _⟩ | ⟨hmaybe, _, r₁, hone, horders, _⟩ <;>
      rw [hone] at hs
    · rcases resolveOne_cases known now r' mo with ⟨_, hone'⟩ | ⟨hmaybe', _⟩ | ⟨hmaybe', _⟩
      · rw [hone'] at hs'
        exact ih h hs hs'
      · rw [hmaybe] at hmaybe'
        cases hmaybe'
      · rw [hmaybe] at hmaybe'
        cases hmaybe'
    · cases hs
    · rcases resolveOne_cases known now r' mo with
        ⟨hmaybe', _⟩ | ⟨_, _, r₁', hone', _⟩ | ⟨_, _, r₁', hone', horders', _⟩
      · rw [hmaybe] at hmaybe'
        cases hmaybe'
      · rw [hone'] at hs'
        cases hs'
      · rw [hone'] at hs'
        exact ih (by rw [horders, horders', h]) hs hs'

theorem isProtected_congr {m m' : OrderManager} (h : m.orders = m'.orders) : m.isProtected = m'.isProtected := by
  funext symbol
  rw [isProtected, isProtected, workingOrders, workingOrders, h]

theorem orders_emitProtectiveStop_congr {m m' : OrderManager} (h : m.orders = m'.orders) (env : ReconcileEnv)
    (symbol : String) (p : Position) :
    (emitProtectiveStop env m symbol p).1.orders = (emitProtectiveStop env m' symbol p).1.orders := by
  unfold emitProtectiveStop
  cases referencePrice (env.quote symbol) p with
  | none => exact h
  | some reference =>
    let now := env.emitAt symbol
    let mo := protectiveRecord now (protectiveSpec now symbol p reference)
    have hput : ((m.put mo).persist mo none).orders = ((m'.put mo).persist mo none).orders := by
      rw [orders_persist, orders_persist, orders_put, orders_put, h]
    dsimp only
    split
    · exact hput
    · exact orders_applyStatus_congr hput _ _

theorem orders_protectAll_congr (env : ReconcileEnv) (m : OrderManager) {r r' : Reconciled}
    (h : r.manager.orders = r'.manager.orders) (positions : List (String × Position)) :
    (protectAll env m r positions).manager.orders = (protectAll env m r' positions).manager.orders := by
  induction positions generalizing r r' with
  | nil => exact h
  | cons e positions ih =>
    refine ih ?_
    have hemit := orders_emitProtectiveStop_congr h env e.1 e.2
    have hsame : ∀ r : Reconciled, (protectPosition env m.isProtected r e).manager.orders =
        if m.isProtected e.1 then r.manager.orders
        else (emitProtectiveStop env r.manager e.1 e.2).1.orders := by
      intro r
      unfold protectPosition
      dsimp only
      split_ifs <;> rfl
    rw [hsame, hsame, h, hemit]

end OrderManager

namespace ReconcileEnv

variable {env : ReconcileEnv} {m m' : OrderManager} {account : AccountSnapshot}

theorem reconcile_resolved (h : env.Answers m) :
    ∃ s m₁ report, resolveMaybeSent env.known env.start
        (absorbAll env.start env.opens env.completed (m.unblockExpired env.start)).1.orders.values
        (absorbAll env.start env.opens env.completed (m.unblockExpired env.start)) = .ok s ∧
      m₁.orders = s.1.orders ∧ reconcile env m account = protectAndClean env account m₁ report := by
  obtain ⟨opens, hopens⟩ := h.opens
  obtain ⟨completed, hcompleted⟩ := h.completed
  obtain ⟨executions, hexecutions⟩ := h.executions
  obtain ⟨s, hs⟩ := (resolve_absorbed_ok_iff env (m.unblockExpired env.start)).mpr h.transitions
  refine ⟨s, executions.foldl onExecution s.1, s.2, hs, orders_foldl_onExecution executions s.1, ?_⟩
  rw [known, opens_eq hopens, completed_eq hcompleted] at hs
  unfold reconcile
  dsimp only
  rw [hopens, hcompleted]
  dsimp only
  rw [hs, hexecutions]

/-- **Two passes that return send the same** when they start from one order map, whatever their stores and the
writes that raise there. -/
theorem requests_congr (horders : m.orders = m'.orders) (h : env.Answers m) (h' : env.Answers m') :
    (reconcile env m account).requests = (reconcile env m' account).requests := by
  obtain ⟨s, m₁, report, hs, hm₁, hfinal⟩ := @reconcile_resolved env m account h
  obtain ⟨s', m₁', report', hs', hm₁', hfinal'⟩ := @reconcile_resolved env m' account h'
  have habsorbed := orders_absorbAll_congr
    (show (m.unblockExpired env.start).orders = (m'.unblockExpired env.start).orders from horders)
    env.start env.opens env.completed
  rw [← habsorbed] at hs'
  have hview : m₁.orders = m₁'.orders :=
    hm₁.trans ((orders_resolveMaybeSent_congr habsorbed hs hs').trans hm₁'.symm)
  have hprotected : m₁.isProtected = m₁'.isProtected := isProtected_congr hview
  have hstep4 : (afterStep4 env account m₁ report).manager.orders =
      (afterStep4 env account m₁' report').manager.orders := by
    have hswap : afterStep4 env account m₁' report' = protectAll env m₁
        { manager := m₁', report := report' } account.openPositions.entries := by
      rw [afterStep4, protectAll, protectAll, hprotected]
    rw [hswap]
    exact orders_protectAll_congr env m₁ hview _
  rw [hfinal, hfinal', requests_protectAndClean, requests_protectAndClean, orphanCancels, orphanCancels,
    cancelTargets, cancelTargets, hstep4, afterStep4, afterStep4, requests_protectAll, requests_protectAll,
    hprotected]

/-- The broker answers the three queries. -/
structure Queried (env : ReconcileEnv) : Prop where
  opens : ∃ statuses, env.openOrders = .ok statuses
  completed : ∃ statuses, env.completedOrders = .ok statuses
  executions : ∃ executions, env.executions = .ok executions

/-- No transition raises that step 2 has to write: those of the working records unknown to the broker. -/
def Resolves (env : ReconcileEnv) (m : OrderManager) : Prop :=
  ∀ ref mo, env.absorbed m ref = some mo → maybeSent env.known mo = true →
    m.faults (.transition ref .cancelled) = false

theorem answers_iff (env : ReconcileEnv) (m : OrderManager) :
    env.Answers m ↔ env.Queried ∧ env.Resolves m :=
  ⟨fun h => ⟨⟨h.opens, h.completed, h.executions⟩, h.transitions⟩,
    fun h => ⟨h.1.opens, h.1.completed, h.1.executions, h.2⟩⟩

/-- `reconcile` sends what it sends with a store whose writes complete. -/
def FaultsHarmless (env : ReconcileEnv) (m : OrderManager) (account : AccountSnapshot) : Prop :=
  (reconcile env m account).requests = (reconcile env m.healthy account).requests

/-- **When store faults do not weaken reconciliation.** For every order map, broker view, account and pattern
of failing writes, the same is sent as with a healthy store precisely when the broker does not answer, or no
transition of step 2 raises, or there is nothing to protect and nothing to clean up. -/
theorem faults_harmless_iff (env : ReconcileEnv) (m : OrderManager) (account : AccountSnapshot) :
    env.FaultsHarmless m account ↔ ¬ env.Queried ∨ env.Resolves m ∨ env.Quiet m account := by
  have hhealthy : env.Answers m.healthy ↔ env.Queried := by
    rw [answers_iff]
    exact and_iff_left fun ref mo _ _ => faults_healthy m _
  have hquiet : env.Quiet m.healthy account ↔ env.Quiet m account :=
    ⟨fun h => ⟨h.shielded, h.clean⟩, fun h => ⟨h.shielded, h.clean⟩⟩
  unfold FaultsHarmless
  by_cases hqueried : env.Queried
  · rw [or_iff_right (not_not_intro hqueried)]
    by_cases hresolves : env.Resolves m
    · have hanswers := (answers_iff env m).mpr ⟨hqueried, hresolves⟩
      exact iff_of_true (requests_congr rfl hanswers (hhealthy.mpr hqueried)) (Or.inl hresolves)
    · have hraises : ¬ env.Answers m := fun h => hresolves h.transitions
      rw [or_iff_right hresolves, requests_of_not_answers hraises, eq_comm,
        requests_eq_nil_iff (hhealthy.mpr hqueried), hquiet]
  · have hraises : ¬ env.Answers m := fun h => hqueried ((answers_iff env m).mp h).1
    refine iff_of_true ?_ (Or.inl hqueried)
    rw [requests_of_not_answers hraises, requests_of_not_answers fun h => hqueried (hhealthy.mp h)]

/-! #### One locked table -/

/-- The bracket of an earlier session on MSFT, of which the broker knows nothing, on a store whose table of
transitions is locked. -/
def staleManager : OrderManager :=
  { [{ aaplBracket.1 with symbol := "MSFT" }].foldl put {} with
    store := some { faults := fun w => match w with
      | .transition _ _ => true
      | _ => false } }

/-- 50 AAPL without a stop: step 2 raises on the record of MSFT, and the stop is not placed. -/
theorem faults_leave_unprotected : ¬ (aaplEnv []).FaultsHarmless staleManager (aaplAccount 50) := by
  unfold FaultsHarmless
  decide +kernel

end ReconcileEnv

end AiTrader
