import AiTrader.Broker.Reconcile
import AiTrader.Broker.WriteAhead

/-!
# Executions on record

An execution is marked as seen before its fill is saved. A save that raises is logged, so the mark stays and
the row is missing; the broker's next report of the execution is dropped at the mark, with the store in
order or not.

`onExecution` acts on the marks and the table of fills, and no other operation of the order manager does
(`SameFills`). What a run of deliveries leaves in the table follows from one delivery: `holdsFill_foldl`.
`recorded_iff` is exact: a delivery finds or leaves its row unless the store failed when the process first
saw the execution.

The first half of the module shows that it is only deliveries that matter: each operation of the order manager is put
into `SameFills`, by the lemma of the same name. A `reconcile` raises before it replays anything, or replays all of
the broker's executions in order (`reconcile_fills`), so it too is a run of deliveries. The second half is about one
delivery: it adds the row of an execution that has no mark, when the save does not raise, and sets the mark in any
case.
-/

namespace AiTrader

open Lib

namespace OrderManager

/-- The table of fills has a row for the execution. -/
def holdsFill (m : OrderManager) (execId : String) : Bool :=
  (m.store.bind fun s => s.fills.get? execId).isSome

/-- Saving the fill of the execution does not raise. -/
def takesFill (m : OrderManager) (execId : String) : Bool := m.store.isSome && !m.faults (.fill execId)

/-! ### One delivery -/

theorem faults_onExecution (m : OrderManager) (e : BrokerExecution) :
    (m.onExecution e).faults = m.faults := by
  unfold onExecution
  split_ifs
  · rfl
  · funext w
    unfold faults
    cases m.store with
    | none => rfl
    | some s =>
      show ((s.saveFill e.execId _).getD s).faults w = s.faults w
      unfold StateStore.saveFill
      split_ifs <;> rfl

theorem isSome_store_onExecution (m : OrderManager) (e : BrokerExecution) :
    (m.onExecution e).store.isSome = m.store.isSome := by
  unfold onExecution
  split_ifs
  · rfl
  · exact Option.isSome_map

theorem takesFill_onExecution (m : OrderManager) (e : BrokerExecution) :
    (m.onExecution e).takesFill = m.takesFill := by
  funext execId
  rw [takesFill, takesFill, isSome_store_onExecution, faults_onExecution]

theorem mem_seenExecIds_onExecution (m : OrderManager) (e : BrokerExecution) (execId : String) :
    execId ∈ (m.onExecution e).seenExecIds ↔ execId = e.execId ∨ execId ∈ m.seenExecIds := by
  unfold onExecution
  by_cases hseen : e.execId ∈ m.seenExecIds
  · rw [if_pos hseen]
    refine ⟨Or.inr, ?_⟩
    rintro (rfl | h)
    · exact hseen
    · exact h
  · rw [if_neg hseen]
    exact List.mem_cons

theorem holdsFill_onExecution (m : OrderManager) (e : BrokerExecution) (execId : String) :
    (m.onExecution e).holdsFill execId = true ↔ m.holdsFill execId = true ∨
      (execId = e.execId ∧ execId ∉ m.seenExecIds ∧ m.takesFill execId = true) := by
  unfold onExecution
  by_cases hseen : e.execId ∈ m.seenExecIds
  · rw [if_pos hseen]
    refine ⟨Or.inl, ?_⟩
    rintro (h | ⟨rfl, hunseen, -⟩)
    · exact h
    · exact absurd hseen hunseen
  · rw [if_neg hseen]
    unfold holdsFill takesFill faults
    cases hstore : m.store with
    | none => simp
    | some s =>
      dsimp only [Option.map_some, Option.bind_some, Option.getD_some, Option.isSome_some]
      unfold StateStore.saveFill
      by_cases hid : execId = e.execId
      · subst hid
        by_cases hfault : s.faults (.fill e.execId) = true
        · simp [hfault]
        · by_cases hrow : s.fills.contains e.execId = true
          · simp only [Bool.not_eq_true] at hfault
            have hget : (s.fills.get? e.execId).isSome = true := hrow
            simp [hfault, hrow, hget]
          · simp only [Bool.not_eq_true] at hfault hrow
            simp [hfault, hrow, hseen]
      · by_cases hfault : s.faults (.fill e.execId) = true
        · simp [hfault, hid]
        · by_cases hrow : s.fills.contains e.execId = true
          · simp [hfault, hrow, hid]
          · simp [hfault, hrow, hid, Dict.get?_set_ne]

/-! ### Several deliveries -/

theorem faults_foldl_onExecution (es : List BrokerExecution) (m : OrderManager) :
    (es.foldl onExecution m).faults = m.faults := by
  induction es generalizing m with
  | nil => rfl
  | cons e es ih => rw [List.foldl_cons, ih, faults_onExecution]

theorem isSome_store_foldl_onExecution (es : List BrokerExecution) (m : OrderManager) :
    (es.foldl onExecution m).store.isSome = m.store.isSome := by
  induction es generalizing m with
  | nil => rfl
  | cons e es ih => rw [List.foldl_cons, ih, isSome_store_onExecution]

theorem mem_seenExecIds_foldl (es : List BrokerExecution) (m : OrderManager) (execId : String) :
    execId ∈ (es.foldl onExecution m).seenExecIds ↔
      execId ∈ es.map BrokerExecution.execId ∨ execId ∈ m.seenExecIds := by
  induction es generalizing m with
  | nil => simp
  | cons e es ih =>
    rw [List.foldl_cons, ih, mem_seenExecIds_onExecution, List.map_cons, List.mem_cons]
    tauto

theorem holdsFill_foldl (es : List BrokerExecution) (m : OrderManager) (execId : String) :
    (es.foldl onExecution m).holdsFill execId = true ↔ m.holdsFill execId = true ∨
      (execId ∈ es.map BrokerExecution.execId ∧ execId ∉ m.seenExecIds ∧ m.takesFill execId = true) := by
  induction es generalizing m with
  | nil => simp
  | cons e es ih =>
    rw [List.foldl_cons, ih, holdsFill_onExecution, mem_seenExecIds_onExecution, takesFill_onExecution,
      List.map_cons, List.mem_cons]
    tauto

/-! ### Everything else -/

/-- `m'` has the executions of `m`: the marks, the table, and the saves that raise. -/
structure SameFills (m m' : OrderManager) : Prop where
  seen : m'.seenExecIds = m.seenExecIds
  rows : (m'.store.map fun s => s.fills) = m.store.map fun s => s.fills
  faults : m'.faults = m.faults

namespace SameFills

theorem refl (m : OrderManager) : SameFills m m := ⟨rfl, rfl, rfl⟩

theorem trans {m m' m'' : OrderManager} (h : SameFills m m') (h' : SameFills m' m'') : SameFills m m'' :=
  ⟨h'.seen.trans h.seen, h'.rows.trans h.rows, h'.faults.trans h.faults⟩

theorem foldl {α : Type} {f : OrderManager → α → OrderManager} (h : ∀ m a, SameFills m (f m a))
    (m : OrderManager) (as : List α) : SameFills m (as.foldl f m) := by
  induction as generalizing m with
  | nil => exact refl m
  | cons a as ih => exact (h m a).trans (ih _)

theorem isSome_store {m m' : OrderManager} (h : SameFills m m') : m'.store.isSome = m.store.isSome := by
  have hrows := congrArg Option.isSome h.rows
  rwa [Option.isSome_map, Option.isSome_map] at hrows

theorem holdsFill {m m' : OrderManager} (h : SameFills m m') : m'.holdsFill = m.holdsFill := by
  have hread : ∀ m : OrderManager, m.holdsFill = fun execId =>
      ((m.store.map fun s => s.fills).bind fun fills => fills.get? execId).isSome := by
    intro m
    funext execId
    unfold OrderManager.holdsFill
    cases m.store <;> rfl
  rw [hread, hread, h.rows]

theorem takesFill {m m' : OrderManager} (h : SameFills m m') : m'.takesFill = m.takesFill := by
  funext execId
  rw [OrderManager.takesFill, OrderManager.takesFill, h.isSome_store, h.faults]

theorem persist (m : OrderManager) (mo : ManagedOrder) (permId : Option ℤ) :
    SameFills m (m.persist mo permId) := by
  refine ⟨rfl, ?_, faults_persist m mo permId⟩
  unfold OrderManager.persist
  cases m.store with
  | none => rfl
  | some s =>
    show some ((s.saveOrder mo _).getD s).fills = some s.fills
    unfold StateStore.saveOrder
    split_ifs <;> rfl

theorem noteTransition (m : OrderManager) (ref : String) (previous new : OrderState) (rawStatus : String) :
    SameFills m (m.noteTransition ref previous new rawStatus) := by
  refine ⟨?_, ?_, faults_noteTransition m ref previous new rawStatus⟩
  · unfold OrderManager.noteTransition
    split_ifs <;> rfl
  · unfold OrderManager.noteTransition
    split_ifs
    · rfl
    · cases m.store with
      | none => rfl
      | some s =>
        show some ((s.recordTransition ref previous new rawStatus).getD s).fills = some s.fills
        unfold StateStore.recordTransition
        split_ifs <;> rfl

theorem of_store {m m' : OrderManager} (hseen : m'.seenExecIds = m.seenExecIds) (hstore : m'.store = m.store) :
    SameFills m m' := by
  refine ⟨hseen, by rw [hstore], ?_⟩
  funext w
  rw [OrderManager.faults, OrderManager.faults, hstore]

theorem write (m : OrderManager) (mo : ManagedOrder) : SameFills m (m.write mo) := by
  have hput : SameFills m (m.put mo) := of_store rfl rfl
  exact hput.trans (persist (m.put mo) mo none)

theorem absorb (m : OrderManager) (mo : ManagedOrder) (status : BrokerOrderStatus) (now : Now) :
    SameFills m (m.absorb mo status now) := by
  unfold OrderManager.absorb
  dsimp only
  refine trans ?_ (noteTransition _ _ _ _ _)
  refine trans ?_ (persist _ _ _)
  exact of_store rfl rfl

theorem applyStatus (m : OrderManager) (status : BrokerOrderStatus) (now : Now) :
    SameFills m (m.applyStatus status now) := by
  unfold OrderManager.applyStatus
  split
  · exact absorb _ _ _ _
  · split_ifs
    · exact absorb _ _ _ _
    · exact refl m

theorem absorbAll (now : Now) (opens completed : List BrokerOrderStatus) (m : OrderManager) :
    SameFills m (absorbAll now opens completed m).1 := by
  refine absorbAll_keeps (motive := SameFills m) (fun m' status h => ?_) opens completed (refl m)
  exact h.trans (applyStatus m' status now)

theorem recordNeverSent {m m' : OrderManager} {mo : ManagedOrder} (h : m.recordNeverSent mo = some m') :
    SameFills m m' := by
  unfold OrderManager.recordNeverSent at h
  cases hstore : m.store with
  | none =>
    rw [hstore] at h
    cases h
    exact refl m
  | some s =>
    rw [hstore] at h
    obtain ⟨s', hrecorded, rfl⟩ := Option.map_eq_some_iff.mp h
    unfold StateStore.recordTransition at hrecorded
    split_ifs at hrecorded
    cases hrecorded
    refine ⟨rfl, by rw [hstore]; rfl, ?_⟩
    funext w
    rw [OrderManager.faults, OrderManager.faults, hstore]
    rfl

theorem resolveOne (known : List String) (now : Now) (r : OrderManager × ReconciliationReport) (mo : ManagedOrder) :
    (∀ r', resolveOne known now r mo = .ok r' → SameFills r.1 r'.1) ∧
      ∀ r', resolveOne known now r mo = .error r' → SameFills r.1 r'.1 := by
  have hwrite := write r.1 (neverSent mo now)
  unfold OrderManager.resolveOne
  split_ifs
  · dsimp only
    cases hrecord : ((r.1.put (neverSent mo now)).persist (neverSent mo now) none).recordNeverSent mo with
    | none =>
      refine ⟨fun r' h => ?_, fun r' h => ?_⟩
      · cases h
      · obtain rfl := Except.error.inj h
        exact hwrite
    | some m =>
      refine ⟨fun r' h => ?_, fun r' h => ?_⟩
      · obtain rfl := Except.ok.inj h
        exact hwrite.trans (recordNeverSent hrecord)
      · cases h
  · refine ⟨fun r' h => ?_, fun r' h => ?_⟩
    · obtain rfl := Except.ok.inj h
      exact refl r.1
    · cases h

theorem resolveMaybeSent {known : List String} {now : Now} (records : List ManagedOrder)
    (r : OrderManager × ReconciliationReport) :
    (∀ r', resolveMaybeSent known now records r = .ok r' → SameFills r.1 r'.1) ∧
      ∀ r', resolveMaybeSent known now records r = .error r' → SameFills r.1 r'.1 := by
  refine resolveMaybeSent_keeps (motive := SameFills r.1) (fun mo _ r₁ h => ?_) (refl r.1)
  obtain ⟨hok, herror⟩ := resolveOne known now r₁ mo
  exact ⟨fun r' hr => h.trans (hok r' hr), fun r' hr => h.trans (herror r' hr)⟩

theorem emitProtectiveStop (env : ReconcileEnv) (m : OrderManager) (symbol : String) (p : Position) :
    SameFills m (emitProtectiveStop env m symbol p).1 := by
  unfold OrderManager.emitProtectiveStop
  cases referencePrice (env.quote symbol) p with
  | none => exact refl m
  | some reference =>
    dsimp only
    have hwrite := write m (protectiveRecord (env.emitAt symbol)
      (protectiveSpec (env.emitAt symbol) symbol p reference))
    split
    · exact hwrite
    · exact hwrite.trans (applyStatus _ _ _)

theorem protectAndClean (env : ReconcileEnv) (account : AccountSnapshot) (m : OrderManager)
    (report : ReconciliationReport) : SameFills m (protectAndClean env account m report).manager := by
  have hfold : ∀ (positions : List (String × Position)) (r : Reconciled),
      SameFills r.manager (positions.foldl (protectPosition env m.isProtected) r).manager := by
    intro positions
    induction positions with
    | nil => exact fun r => refl r.manager
    | cons e positions ih =>
      intro r
      refine trans ?_ (ih (protectPosition env m.isProtected r e))
      have hemit := emitProtectiveStop env r.manager e.1 e.2
      have hblocked : SameFills (OrderManager.emitProtectiveStop env r.manager e.1 e.2).1
          ((OrderManager.emitProtectiveStop env r.manager e.1 e.2).1.block e.1 (env.emitAt e.1)) :=
        of_store rfl rfl
      unfold protectPosition
      dsimp only
      split_ifs
      · exact refl _
      · exact hemit
      · exact hemit.trans hblocked
  exact hfold account.openPositions.entries { manager := m, report }

end SameFills

/-! ### What a reconciliation replays -/

/-- The executions that reach `on_execution` in a `reconcile`: the broker's, when it gets to step 3. -/
def replayed (env : ReconcileEnv) (m : OrderManager) (account : AccountSnapshot) : List BrokerExecution :=
  if (reconcile env m account).raised.isNone then env.executions.toOption.getD [] else []

/-- `m'` is what the deliveries `es` make of `m`, as far as the executions go. -/
structure Delivered (m : OrderManager) (es : List BrokerExecution) (m' : OrderManager) : Prop where
  seen : ∀ execId, execId ∈ m'.seenExecIds ↔
    execId ∈ es.map BrokerExecution.execId ∨ execId ∈ m.seenExecIds
  rows : ∀ execId, m'.holdsFill execId = true ↔ m.holdsFill execId = true ∨
    (execId ∈ es.map BrokerExecution.execId ∧ execId ∉ m.seenExecIds ∧ m.takesFill execId = true)
  takes : m'.takesFill = m.takesFill

theorem delivered_of_sameFills {m m₁ m' : OrderManager} {es : List BrokerExecution} (hbefore : SameFills m m₁)
    (hafter : SameFills (es.foldl onExecution m₁) m') : Delivered m es m' := by
  refine ⟨fun execId => ?_, fun execId => ?_, ?_⟩
  · rw [hafter.seen, mem_seenExecIds_foldl, hbefore.seen]
  · rw [hafter.holdsFill, holdsFill_foldl, hbefore.holdsFill, hbefore.takesFill, hbefore.seen]
  · rw [hafter.takesFill, ← hbefore.takesFill]
    funext execId
    rw [takesFill, takesFill, isSome_store_foldl_onExecution, faults_foldl_onExecution]

theorem delivered_onExecution (m : OrderManager) (e : BrokerExecution) : Delivered m [e] (m.onExecution e) :=
  delivered_of_sameFills (.refl m) (.refl _)

/-- A `reconcile` raises before it replays, or replays all executions of the broker's. -/
theorem reconcile_fills (env : ReconcileEnv) (m : OrderManager) (account : AccountSnapshot) :
    ((reconcile env m account).raised ≠ none ∧ SameFills m (reconcile env m account).manager) ∨
      ∃ es m₁ report, env.executions = .ok es ∧ SameFills m m₁ ∧
        reconcile env m account = protectAndClean env account (es.foldl onExecution m₁) report := by
  have hexpired : SameFills m (m.unblockExpired env.start) := .of_store rfl rfl
  unfold reconcile
  dsimp only
  split
  · exact Or.inl ⟨by simp, hexpired⟩
  · exact Or.inl ⟨by simp, hexpired⟩
  · rename_i opens completed _ _
    have habsorbed := hexpired.trans
      (SameFills.absorbAll env.start opens completed (m.unblockExpired env.start))
    split
    · rename_i m' report hraised
      exact Or.inl ⟨by simp, habsorbed.trans ((SameFills.resolveMaybeSent _ _).2 _ hraised)⟩
    · rename_i m' report hresolved
      have hresolve := habsorbed.trans ((SameFills.resolveMaybeSent _ _).1 _ hresolved)
      split
      · exact Or.inl ⟨by simp, hresolve⟩
      · rename_i es hes
        exact Or.inr ⟨es, m', report, hes, hresolve, rfl⟩

theorem delivered_reconcile (env : ReconcileEnv) (m : OrderManager) (account : AccountSnapshot) :
    Delivered m (replayed env m account) (reconcile env m account).manager := by
  unfold replayed
  rcases reconcile_fills env m account with ⟨hraised, hsame⟩ | ⟨es, m₁, report, hes, hsame, hreturned⟩
  · rw [if_neg (by simpa using hraised)]
    exact delivered_of_sameFills hsame (.refl _)
  · rw [hreturned, raised_protectAndClean, hes]
    exact delivered_of_sameFills hsame (SameFills.protectAndClean env account _ report)

theorem sameFills_loadFromStore (m : OrderManager) (now : Now) : SameFills m (m.loadFromStore now) := by
  have hrow : ∀ (m : OrderManager) (row : OrderRow),
      SameFills m ((m.put (restored row now)).notePermId row.order.orderRef row.ibPermId) :=
    fun m row => .of_store rfl rfl
  unfold loadFromStore
  cases m.store with
  | none => exact .refl m
  | some s => exact SameFills.foldl hrow m s.loadOrders

end OrderManager

/-! ### Deliveries, restarts and store failures -/

/-- The order manager of the running process on its store, and the executions whose fills it could not save. -/
structure FillRun where
  manager : OrderManager
  /-- Delivered since the process started, with the store failing and no row in the table. -/
  missed : List String := []

namespace FillRun

open OrderManager

inductive Event
  /-- The broker reports an execution. -/
  | reported (e : BrokerExecution)
  /-- A reconciliation, which replays the broker's executions. -/
  | reconciled (env : ReconcileEnv) (account : AccountSnapshot)
  /-- The process ends and the next one starts on the same store. -/
  | restarted (loads : Bool) (now : Now)
  /-- From here on these writes raise. -/
  | storeTurned (faults : Write → Bool)

/-- The process starts on a store. -/
def start (store : StateStore) : FillRun := { manager := { store := some store } }

/-- The executions an event delivers. -/
def delivers (s : FillRun) : Event → List BrokerExecution
  | .reported e => [e]
  | .reconciled env account => replayed env s.manager account
  | .restarted _ _ | .storeTurned _ => []

def advance (m : OrderManager) : Event → OrderManager
  | .reported e => m.onExecution e
  | .reconciled env account => (reconcile env m account).manager
  | .restarted loads now =>
    if loads then (PlacementRun.fresh m).loadFromStore now else PlacementRun.fresh m
  | .storeTurned faults => { m with store := m.store.map fun s => { s with faults } }

def step (s : FillRun) (event : Event) : FillRun where
  manager := advance s.manager event
  missed := match event with
    | .restarted _ _ => []
    | _ => s.missed ++ ((s.delivers event).map BrokerExecution.execId).filter fun execId =>
        !s.manager.takesFill execId && !s.manager.holdsFill execId

/-- No two rows of the table are about one execution, and every execution the event delivers while the store
takes its fill has a row afterwards. -/
def Recorded (s : FillRun) (event : Event) : Prop :=
  (∀ store, (s.step event).manager.store = some store → store.fills.keys.Nodup) ∧
    ∀ e ∈ s.delivers event, s.manager.takesFill e.execId = true →
      (s.step event).manager.holdsFill e.execId = true

/-- No execution that the event delivers while the store takes its fill was missed before. -/
def NoneMissed (s : FillRun) (event : Event) : Prop :=
  ∀ e ∈ s.delivers event, s.manager.takesFill e.execId = true → e.execId ∉ s.missed

/-- What the process has marked and not stored are the executions it missed. -/
def Inv (s : FillRun) : Prop :=
  ∀ execId, execId ∈ s.missed ↔ execId ∈ s.manager.seenExecIds ∧ s.manager.holdsFill execId = false

theorem keep_of_delivered {s : FillRun} (h : s.Inv) {es : List BrokerExecution} {m' : OrderManager}
    (hdelivered : Delivered s.manager es m') :
    Inv { manager := m', missed := s.missed ++ (es.map BrokerExecution.execId).filter fun execId =>
      !s.manager.takesFill execId && !s.manager.holdsFill execId } := by
  intro execId
  have hmissed := h execId
  rw [← Bool.not_eq_true] at hmissed ⊢
  simp only [hdelivered.rows, hdelivered.seen, List.mem_append, List.mem_filter, Bool.and_eq_true,
    Bool.not_eq_true']
  simp only [← Bool.not_eq_true]
  tauto

theorem Inv.step {s : FillRun} (h : s.Inv) (event : Event) : (s.step event).Inv := by
  cases event with
  | reported e => exact keep_of_delivered h (delivered_onExecution s.manager e)
  | reconciled env account => exact keep_of_delivered h (delivered_reconcile env s.manager account)
  | restarted loads now =>
    intro execId
    have hseen : (advance s.manager (.restarted loads now)).seenExecIds = [] := by
      cases loads with
      | false => rfl
      | true => exact (sameFills_loadFromStore (PlacementRun.fresh s.manager) now).seen
    show execId ∈ [] ↔ _
    rw [FillRun.step, hseen]
    simp
  | storeTurned faults =>
    intro execId
    have hholds : (advance s.manager (.storeTurned faults)).holdsFill = s.manager.holdsFill := by
      funext execId
      show (Option.bind (s.manager.store.map _) _).isSome = _
      unfold holdsFill
      cases s.manager.store <;> rfl
    have hstep : s.step (.storeTurned faults) =
        { manager := advance s.manager (.storeTurned faults), missed := s.missed ++ [] } := rfl
    rw [hstep, List.append_nil]
    dsimp only
    rw [hholds]
    exact h execId

theorem recorded_iff_of_delivered {s : FillRun} (h : s.Inv) {es : List BrokerExecution} {m' : OrderManager}
    (hdelivered : Delivered s.manager es m') :
    (∀ e ∈ es, s.manager.takesFill e.execId = true → m'.holdsFill e.execId = true) ↔
      ∀ e ∈ es, s.manager.takesFill e.execId = true → e.execId ∉ s.missed := by
  refine forall_congr' fun e => forall_congr' fun hmem => forall_congr' fun htakes => ?_
  have hid : e.execId ∈ es.map BrokerExecution.execId := List.mem_map_of_mem hmem
  rw [h, hdelivered.rows, ← Bool.not_eq_true]
  simp only [hid, htakes, true_and, and_true]
  tauto

/-- **When every delivered execution is recorded.** On every store and for every sequence of executions,
reconciliations, restarts and store failures, the table never has two rows for an execution and has a row
after each delivery the store can take, precisely when no such delivery repeats one that the same process
missed. -/
theorem recorded_iff (store : StateStore) (events : List Event) :
    Trace.Each step Recorded (start store) events ↔ Trace.Each step NoneMissed (start store) events := by
  have hunique : ∀ (s : FillRun) event store, (s.step event).manager.store = some store →
      store.fills.keys.Nodup := fun s event store _ => store.fills.nodup
  have hstep : ∀ (s : FillRun) event, s.Inv → (s.step event).Inv := fun s event hI => hI.step event
  refine Trace.each_iff_of_invariant hstep (fun s event hI => ?_) ?_
  · refine (and_iff_right (hunique s event)).trans ?_
    cases event with
    | reported e => exact recorded_iff_of_delivered hI (delivered_onExecution s.manager e)
    | reconciled env account => exact recorded_iff_of_delivered hI (delivered_reconcile env s.manager account)
    | restarted loads now => exact iff_of_true (fun e hmem => (nomatch hmem)) fun e hmem => (nomatch hmem)
    | storeTurned faults => exact iff_of_true (fun e hmem => (nomatch hmem)) fun e hmem => (nomatch hmem)
  · exact fun execId => iff_of_false (fun hmem => (nomatch hmem)) fun h => (nomatch h.1)

/-! #### A locked database at the first report -/

def tenShares : BrokerExecution where
  execId := "e-1"
  orderRef := "ait:2025-01-02:c1:AAPL:ENTRY"
  symbol := "AAPL"
  action := "BUY"
  quantity := 10
  price := 100
  ts := 0

/-- The broker reports the execution again with the store in order, and its row is not written. -/
theorem fill_lost : ¬ Trace.Each step Recorded (start lockedStore)
    [.reported tenShares, .storeTurned fun _ => false, .reported tenShares] := by
  rintro ⟨-, -, ⟨-, hrecorded⟩, -⟩
  exact absurd (hrecorded tenShares List.mem_cons_self (by decide +kernel)) (by decide +kernel)

end FillRun

end AiTrader
