import AiTrader.Broker.Protection

/-!
# What reconciliation agrees on

After a `reconcile` the working records are to be those of the orders the broker lists as open, with the
protective stops just placed, and what the broker lists as completed is to be terminal. Steps 1 and 2 cancel
whatever the broker has never heard of, so it all turns on the orders it lists as completed: whether their
status makes the record terminal (`Settles`). A rejected order that has filled in part does not become
terminal, because the rule for partial fills spares filled and cancelled orders only.

`reconcile_agrees_iff` is exact for every order map and all lists with pairwise distinct references.

In the view the record at a reference is the local one with the statuses about it absorbed, so the law is checked
reference by reference. An order that is listed as open works in the view and is the broker's; a record that works and
is not listed as open was listed as completed, since step 2 has cancelled the rest (`absorbed_of_completed`). It
agrees exactly if the completed status settles it.
-/

namespace AiTrader

open Lib OrderManager

/-- The broker's word makes an order in state `current` terminal. -/
def Settles (current : OrderState) (status : BrokerOrderStatus) : Prop :=
  match statusMap status.status with
  | some .filled | some .cancelled => True
  | some .rejected => status.filled ≤ 0
  | some _ => False
  | none => current = .filled ∨ current = .cancelled ∨ (current = .rejected ∧ status.filled ≤ 0)

theorem not_isWorking_nextState_iff {current : OrderState} {status : BrokerOrderStatus} :
    (nextState current status).isWorking = false ↔ Settles current status := by
  unfold nextState Settles
  cases hmap : statusMap status.status with
  | none =>
    dsimp only [Option.getD_none]
    by_cases hfilled : 0 < status.filled
    · cases current <;> simp [hfilled, OrderState.isWorking]
    · cases current <;> simp [hfilled, OrderState.isWorking, not_lt.mp hfilled]
  | some new =>
    dsimp only [Option.getD_some]
    by_cases hfilled : 0 < status.filled
    · cases new <;> simp [hfilled, OrderState.isWorking]
    · cases new <;> simp [hfilled, OrderState.isWorking, not_lt.mp hfilled]

namespace ReconcileEnv

variable (env : ReconcileEnv) (m : OrderManager) (account : AccountSnapshot)

/-- The broker lists every order once. -/
def Distinct : Prop := ((env.opens ++ env.completed).map BrokerOrderStatus.orderRef).Nodup

instance : Decidable env.Distinct := inferInstanceAs (Decidable (List.Nodup _))

/-- The broker lists an order with this reference as open. -/
def ListedOpen (ref : String) : Prop := ref ∈ env.opens.map BrokerOrderStatus.orderRef

instance (ref : String) : Decidable (env.ListedOpen ref) := inferInstanceAs (Decidable (_ ∈ _))

/-- A stop was attempted for a position without one, `place_single` returned, and this is its reference. -/
def PlacedStop (ref : String) : Prop :=
  ∃ symbol p, (symbol, p) ∈ account.openPositions.entries ∧ ¬ env.Shielded m symbol ∧
    (∃ spec status, env.emission symbol p = .replied spec status) ∧ ref = env.stopRef symbol

variable {env m account}

theorem absorbed_of_completed (hdistinct : env.Distinct) {status : BrokerOrderStatus}
    (hmem : status ∈ env.completed) :
    env.absorbed m status.orderRef = (m.orders.get? status.orderRef).map fun mo =>
      if isOurs status.orderRef then mo.absorb status env.start.epoch else mo := by
  unfold Distinct at hdistinct
  rw [List.map_append, List.nodup_append] at hdistinct
  obtain ⟨-, hcompleted, hdisjoint⟩ := hdistinct
  have hopens : (env.opens.filter fun s => s.orderRef = status.orderRef) = [] := by
    rw [List.filter_eq_nil_iff]
    intro s hs heq
    exact hdisjoint _ (List.mem_map_of_mem hs) _ (List.mem_map_of_mem hmem) (by simpa using heq)
  unfold absorbed
  dsimp only
  rw [hopens, filter_of_nodup hcompleted hmem, List.foldl_nil, List.foldl_cons, List.foldl_nil]
  cases m.orders.get? status.orderRef with
  | none =>
    rw [Option.isSome_none, Bool.and_false, if_neg Bool.false_ne_true]
    rfl
  | some mo =>
    rw [Option.isSome_some, Bool.and_true, Option.map_some]
    by_cases hours : isOurs status.orderRef = true
    · rw [if_pos hours, if_pos hours]
      rfl
    · rw [if_neg hours, if_neg hours]

theorem view_of_completed (hdistinct : env.Distinct) {status : BrokerOrderStatus}
    (hmem : status ∈ env.completed) (hne : status.orderRef ≠ "") :
    env.view m status.orderRef = (m.orders.get? status.orderRef).map fun mo =>
      if isOurs status.orderRef then mo.absorb status env.start.epoch else mo := by
  have hknown : status.orderRef ∈ env.known := by
    rw [known, List.mem_filter]
    exact ⟨List.mem_map_of_mem (List.mem_append_right _ hmem), by simpa using hne⟩
  rw [view, absorbed_of_completed hdistinct hmem]
  cases hget : m.orders.get? status.orderRef with
  | none => rfl
  | some mo =>
    have href : mo.orderRef = status.orderRef := OrderBook.orderRef_of_get? hget
    rw [Option.map_some, Option.map_some, Option.some.injEq, maybeSent, if_neg]
    split_ifs <;> simp [href, hknown]

theorem orderRef_of_absorbed {ref : String} {mo : ManagedOrder} (h : env.absorbed m ref = some mo) :
    mo.orderRef = ref := by
  rw [← get?_absorbAll] at h
  exact OrderBook.orderRef_of_get? h

theorem listed_of_view {ref : String} {mo : ManagedOrder} (hview : env.view m ref = some mo)
    (hworks : mo.isWorking = true) :
    ref ≠ "" ∧ (env.ListedOpen ref ∨ ∃ status ∈ env.completed, status.orderRef = ref) := by
  obtain ⟨mo', habsorbed, hmo⟩ := Option.map_eq_some_iff.mp hview
  have hknown : ref ∈ env.known := by
    by_contra hunknown
    by_cases hmaybe : maybeSent env.known mo' = true
    · rw [if_pos hmaybe] at hmo
      rw [← hmo] at hworks
      cases hworks
    · rw [if_neg hmaybe] at hmo
      subst hmo
      refine hmaybe ?_
      rw [maybeSent, hworks, Bool.true_and, orderRef_of_absorbed habsorbed]
      simpa using hunknown
  rw [known, List.mem_filter, List.map_append, List.mem_append] at hknown
  obtain ⟨hlisted, hne⟩ := hknown
  exact ⟨by simpa using hne, hlisted.imp_right fun hmem => List.mem_map.mp hmem⟩

end ReconcileEnv

/-! ### Agreement -/

/-- The local view agrees with the broker's. -/
structure Agrees (env : ReconcileEnv) (m : OrderManager) (account : AccountSnapshot) (r : Reconciled) :
    Prop where
  working : ∀ ref mo, r.manager.orders.get? ref = some mo → mo.isWorking = true →
    env.ListedOpen ref ∨ env.PlacedStop m account ref
  completed : ∀ status ∈ env.completed, isOurs status.orderRef = true →
    (m.orders.get? status.orderRef).isSome = true → ∀ mo,
      r.manager.orders.get? status.orderRef = some mo → mo.state.isTerminal = true

/-- The condition for it. `ours`: a known order of ours that is listed as completed gets a status that makes
it terminal. `foreign`: a local record that is not ours does not work when it is listed as completed. `stops`:
a protective stop whose `place_single` raises is listed as open, and one whose reference is that of a known
completed order does not work. -/
structure Settled (env : ReconcileEnv) (m : OrderManager) (account : AccountSnapshot) : Prop where
  ours : ∀ status ∈ env.completed, isOurs status.orderRef = true → ∀ mo,
    m.orders.get? status.orderRef = some mo → ¬ env.Replaced m account status.orderRef →
      Settles mo.state status
  foreign : ∀ status ∈ env.completed, isOurs status.orderRef = false → status.orderRef ≠ "" → ∀ mo,
    m.orders.get? status.orderRef = some mo → mo.isWorking = false
  stops : ∀ symbol p, (symbol, p) ∈ account.openPositions.entries → ¬ env.Shielded m symbol → ∀ mo,
    (env.emission symbol p).record (env.emitAt symbol) = some mo → mo.isWorking = true →
      ((env.emission symbol p).failed = true → env.ListedOpen (env.stopRef symbol)) ∧
        ∀ status ∈ env.completed, status.orderRef = env.stopRef symbol →
          m.orders.get? status.orderRef = none

theorem isTerminal_of_not_isWorking {mo : ManagedOrder} :
    mo.state.isTerminal = true ↔ mo.isWorking = false := by
  rw [ManagedOrder.isWorking, OrderState.isWorking_eq_not_isTerminal, Bool.not_eq_false']

theorem isOurs_ne_empty {ref : String} (h : isOurs ref = true) : ref ≠ "" := by
  rintro rfl
  exact absurd h (by decide)

theorem isOurs_stopRef (env : ReconcileEnv) (symbol : String) : isOurs (env.stopRef symbol) = true :=
  isOurs_makeRef _ _ _ _

theorem not_listedOpen_of_completed {env : ReconcileEnv} (hdistinct : env.Distinct)
    {status : BrokerOrderStatus} (hmem : status ∈ env.completed) : ¬ env.ListedOpen status.orderRef := by
  unfold ReconcileEnv.Distinct at hdistinct
  rw [List.map_append, List.nodup_append] at hdistinct
  intro hopen
  exact hdistinct.2.2 _ hopen _ (List.mem_map_of_mem hmem) rfl

theorem replied_of_not_failed {e : Emission} {now : Now} (hrecord : (e.record now).isSome = true)
    (hfailed : e.failed = false) : ∃ spec status, e = .replied spec status := by
  cases e with
  | noReference => cases hrecord
  | raised spec => cases hfailed
  | replied spec status => exact ⟨spec, status, rfl⟩

section Returned

variable {env : ReconcileEnv} {m m' : OrderManager} {account : AccountSnapshot}
  {report : ReconciliationReport}

theorem settled_of_agrees (hview : ∀ ref, m'.orders.get? ref = env.view m ref) (hdistinct : env.Distinct)
    (h : Agrees env m account (protectAndClean env account m' report)) : Settled env m account where
  ours := by
    intro status hmem hours mo hget hkept
    have hfinal : (protectAndClean env account m' report).manager.orders.get? status.orderRef =
        some (mo.absorb status env.start.epoch) := by
      rw [ReconcileEnv.get?_of_not_replaced hview hkept,
        ReconcileEnv.view_of_completed hdistinct hmem (isOurs_ne_empty hours), hget, Option.map_some,
        if_pos hours]
    have hterminal := h.completed status hmem hours (by rw [hget]; rfl) _ hfinal
    exact not_isWorking_nextState_iff.mp (isTerminal_of_not_isWorking.mp hterminal)
  foreign := by
    intro status hmem hforeign hne mo hget
    by_contra hworks
    have hkept : ¬ env.Replaced m account status.orderRef := by
      rintro ⟨symbol, p, -, -, -, href⟩
      rw [href, isOurs_stopRef] at hforeign
      cases hforeign
    have hfinal : (protectAndClean env account m' report).manager.orders.get? status.orderRef = some mo := by
      rw [ReconcileEnv.get?_of_not_replaced hview hkept, ReconcileEnv.view_of_completed hdistinct hmem hne,
        hget, Option.map_some, if_neg (by simp [hforeign])]
    rcases h.working _ mo hfinal (by simpa using hworks) with hopen | ⟨symbol, p, -, -, -, href⟩
    · exact not_listedOpen_of_completed hdistinct hmem hopen
    · rw [href, isOurs_stopRef] at hforeign
      cases hforeign
  stops := by
    intro symbol p hmem hopen mo hrecord hworks
    have hfinal := @ReconcileEnv.get?_of_emitted env m account m' report hview symbol p mo hmem hopen hrecord
    refine ⟨fun hfailed => ?_, fun status hcompleted href => ?_⟩
    · rcases h.working _ mo hfinal hworks with hlisted | ⟨symbol', p', hmem', -, ⟨spec, status, hreplied⟩, href⟩
      · exact hlisted
      · obtain rfl := ReconcileEnv.stopRef_inj href
        obtain rfl := account.openPositions.entries_unique hmem hmem'
        rw [hreplied] at hfailed
        cases hfailed
    · by_contra hknown
      rw [← href] at hfinal
      have hours : isOurs status.orderRef = true := by
        rw [href]
        exact isOurs_stopRef env symbol
      have hterminal := h.completed status hcompleted hours (Option.isSome_iff_ne_none.mpr hknown) mo hfinal
      rw [isTerminal_of_not_isWorking, hworks] at hterminal
      cases hterminal

theorem agrees_of_settled (hview : ∀ ref, m'.orders.get? ref = env.view m ref) (hdistinct : env.Distinct)
    (h : Settled env m account) : Agrees env m account (protectAndClean env account m' report) where
  working := by
    intro ref mo hget hworks
    by_cases hreplaced : env.Replaced m account ref
    · obtain ⟨symbol, p, hmem, hopen, hrecord, rfl⟩ := hreplaced
      obtain ⟨mo', hmo'⟩ := Option.isSome_iff_exists.mp hrecord
      rw [ReconcileEnv.get?_of_emitted hview hmem hopen hmo'] at hget
      obtain rfl := Option.some.inj hget
      cases hfailed : (env.emission symbol p).failed with
      | true => exact Or.inl ((h.stops symbol p hmem hopen mo' hmo' hworks).1 hfailed)
      | false => exact Or.inr ⟨symbol, p, hmem, hopen, replied_of_not_failed hrecord hfailed, rfl⟩
    · rw [ReconcileEnv.get?_of_not_replaced hview hreplaced] at hget
      obtain ⟨hne, hlisted | ⟨status, hmem, rfl⟩⟩ := ReconcileEnv.listed_of_view hget hworks
      · exact Or.inl hlisted
      · rw [ReconcileEnv.view_of_completed hdistinct hmem hne] at hget
        obtain ⟨mo', hmo', hmo⟩ := Option.map_eq_some_iff.mp hget
        cases hours : isOurs status.orderRef with
        | true =>
          rw [if_pos hours] at hmo
          have hstops := not_isWorking_nextState_iff.mpr (h.ours status hmem hours mo' hmo' hreplaced)
          rw [← hmo, ManagedOrder.isWorking, ManagedOrder.absorb, hstops] at hworks
          cases hworks
        | false =>
          rw [if_neg (by simp [hours])] at hmo
          rw [← hmo, h.foreign status hmem hours hne mo' hmo'] at hworks
          cases hworks
  completed := by
    intro status hmem hours hknown mo hget
    rw [isTerminal_of_not_isWorking]
    by_cases hreplaced : env.Replaced m account status.orderRef
    · obtain ⟨symbol, p, hheld, hopen, hrecord, href⟩ := hreplaced
      obtain ⟨mo', hmo'⟩ := Option.isSome_iff_exists.mp hrecord
      rw [href, ReconcileEnv.get?_of_emitted hview hheld hopen hmo'] at hget
      obtain rfl := Option.some.inj hget
      by_contra hworks
      have hnone := (h.stops symbol p hheld hopen mo' hmo' (by simpa using hworks)).2 status hmem href
      rw [hnone] at hknown
      cases hknown
    · rw [ReconcileEnv.get?_of_not_replaced hview hreplaced,
        ReconcileEnv.view_of_completed hdistinct hmem (isOurs_ne_empty hours)] at hget
      obtain ⟨mo', hmo', hmo⟩ := Option.map_eq_some_iff.mp hget
      rw [if_pos hours] at hmo
      rw [← hmo]
      exact not_isWorking_nextState_iff.mpr (h.ours status hmem hours mo' hmo' hreplaced)

end Returned

/-- **When the two views agree** after a `reconcile` that returns. -/
theorem reconcile_agrees_iff (env : ReconcileEnv) (m : OrderManager) (account : AccountSnapshot)
    (h : (reconcile env m account).raised = none) (hdistinct : env.Distinct) :
    Agrees env m account (reconcile env m account) ↔ Settled env m account := by
  obtain ⟨m', report, hfinal, -, hview⟩ := reconcile_returns ((reconcile_returns_iff env m account).mp h)
  rw [hfinal]
  exact ⟨settled_of_agrees hview hdistinct, agrees_of_settled hview hdistinct⟩

/-! #### A rejected order with a fill -/

/-- The broker lists the entry as completed: `Inactive`, with `filled` shares done. -/
def inactiveEntry (filled : ℚ) : ReconcileEnv :=
  { aaplEnv [] with
    completedOrders := .ok [{ statusOf aaplBracket.1.orderRef 7 filled (100 - filled) with
      status := "Inactive" }] }

theorem reconcile_agrees_iff_inactive :
    Agrees (inactiveEntry 0) aaplManager (aaplAccount 0)
        (reconcile (inactiveEntry 0) aaplManager (aaplAccount 0)) ↔
      Settled (inactiveEntry 0) aaplManager (aaplAccount 0) :=
  reconcile_agrees_iff (inactiveEntry 0) aaplManager (aaplAccount 0) (by decide +kernel)
    (by decide +kernel)

/-- Thirty shares had filled when the entry was rejected: its record works again, and goes on working. -/
theorem rejected_entry_works :
    (reconcile (inactiveEntry 30) aaplManager (aaplAccount 30)).raised = none ∧
      (inactiveEntry 30).Distinct ∧
      ¬ Agrees (inactiveEntry 30) aaplManager (aaplAccount 30)
        (reconcile (inactiveEntry 30) aaplManager (aaplAccount 30)) := by
  refine ⟨by decide +kernel, by decide +kernel, fun hagrees => ?_⟩
  have hbook : ((reconcile (inactiveEntry 30) aaplManager (aaplAccount 30)).manager.orders.get?
      aaplBracket.1.orderRef).map (fun mo => mo.state) = some .partiallyFilled := by decide +kernel
  obtain ⟨mo, hget, hstate⟩ := Option.map_eq_some_iff.mp hbook
  have hterminal := hagrees.completed _ List.mem_cons_self (by decide +kernel) (by decide +kernel) mo hget
  rw [hstate] at hterminal
  cases hterminal

end AiTrader
