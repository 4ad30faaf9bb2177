import AiTrader.Broker.Reconcile
import AiTrader.Broker.WriteAhead

/-!
# Parents of records

A record gets its reference and its parent when it is made and keeps both: statuses, reconciliation and the
store rewrite its other fields. So what holds of every pair of a reference and a parent in the order map and
in the store goes on holding when it holds of the pairs that are made: those of a bracket, of an exit, of a
protective stop and of an adopted order. One lemma for each operation says which pairs it makes.

A status makes a pair only where it adopts an order: the reference is ours and unknown, and the record gets no parent.
A step that runs over several records makes the pairs of its parts, and what was missing at the beginning of a run and
is there at its end was made by one of its steps.
-/

namespace AiTrader

open Lib

/-- `K` holds of the reference and the parent of every record and every row. -/
structure Parented (K : String → Option String → Prop) (m : OrderManager) : Prop where
  records : ∀ ref mo, m.orders.get? ref = some mo → K mo.orderRef mo.parentRef
  rows : ∀ ref row, m.row? ref = some row → K row.order.orderRef row.order.parentRef

namespace Parented

open OrderManager

variable {K K' : String → Option String → Prop} {m : OrderManager}

theorem mono (h : Parented K m) (hK : ∀ ref parent, K ref parent → K' ref parent) : Parented K' m :=
  ⟨fun ref mo hget => hK _ _ (h.records ref mo hget), fun ref row hrow => hK _ _ (h.rows ref row hrow)⟩

theorem of_eq (h : Parented K m) {m' : OrderManager} (horders : m'.orders = m.orders)
    (hrows : ∀ ref, m'.row? ref = m.row? ref) : Parented K m' := by
  refine ⟨fun ref mo hget => ?_, fun ref row hrow => ?_⟩
  · rw [horders] at hget
    exact h.records ref mo hget
  · rw [hrows] at hrow
    exact h.rows ref row hrow

theorem foldl {α : Type} {f : OrderManager → α → OrderManager} {as : List α} (h : Parented K m)
    (hf : ∀ (m : OrderManager), ∀ a ∈ as, Parented K m → Parented K (f m a)) :
    Parented K (as.foldl f m) := by
  induction as generalizing m with
  | nil => exact h
  | cons a as ih =>
    exact ih (hf m a List.mem_cons_self h) fun m a hmem => hf m a (List.mem_cons_of_mem _ hmem)

/-! ### Writing one record -/

theorem put (h : Parented K m) {mo : ManagedOrder} (hmo : K mo.orderRef mo.parentRef) :
    Parented K (m.put mo) := by
  refine ⟨fun ref mo' hget => ?_, h.rows⟩
  rw [orders_put, OrderBook.get?_put] at hget
  split_ifs at hget
  · obtain rfl := Option.some.inj hget
    exact hmo
  · exact h.records ref mo' hget

theorem persist (h : Parented K m) {mo : ManagedOrder} (hmo : K mo.orderRef mo.parentRef)
    (permId : Option ℤ) : Parented K (m.persist mo permId) := by
  refine ⟨h.records, fun ref row hrow => ?_⟩
  unfold row? OrderManager.persist at hrow
  cases hstore : m.store with
  | none => simp [hstore] at hrow
  | some s =>
    have hold : ∀ row, s.findOrderByRef ref = some row → K row.order.orderRef row.order.parentRef := by
      intro row hfind
      refine h.rows ref row ?_
      rw [row?, hstore]
      exact hfind
    simp only [hstore, Option.map_some, Option.bind_some] at hrow
    unfold StateStore.saveOrder at hrow
    by_cases hfault : s.faults (.order mo.orderRef) = true
    · rw [if_pos hfault] at hrow
      exact hold row hrow
    · rw [if_neg hfault] at hrow
      simp only [Option.getD_some, StateStore.findOrderByRef] at hrow
      by_cases href : ref = mo.orderRef
      · subst href
        rw [Dict.get?_set_self] at hrow
        obtain rfl := Option.some.inj hrow
        split <;> exact hmo
      · rw [Dict.get?_set_ne _ _ href] at hrow
        exact hold row hrow

theorem write (h : Parented K m) {mo : ManagedOrder} (hmo : K mo.orderRef mo.parentRef) :
    Parented K (m.write mo) :=
  (h.put hmo).persist hmo none

theorem noteTransition (h : Parented K m) (ref : String) (previous new : OrderState) (rawStatus : String) :
    Parented K (m.noteTransition ref previous new rawStatus) := by
  refine h.of_eq (orders_noteTransition _ _ _ _ _) fun ref' => ?_
  unfold OrderManager.noteTransition
  split_ifs
  · rfl
  · unfold row?
    cases m.store with
    | none => rfl
    | some s =>
      show ((s.recordTransition ref previous new rawStatus).getD s).findOrderByRef ref' = _
      unfold StateStore.recordTransition
      split_ifs <;> rfl

/-! ### Statuses and executions -/

theorem absorb (h : Parented K m) {mo : ManagedOrder} (hmo : K mo.orderRef mo.parentRef)
    (status : BrokerOrderStatus) (now : Now) : Parented K (m.absorb mo status now) := by
  have hmo' : K (mo.absorb status now.epoch).orderRef (mo.absorb status now.epoch).parentRef := hmo
  have hput : Parented K ((m.put (mo.absorb status now.epoch)).notePermId status.orderRef status.permId) :=
    (h.put hmo').of_eq rfl fun _ => rfl
  exact (hput.persist hmo' status.permId).noteTransition _ _ _ _

theorem applyStatus (h : Parented K m) {status : BrokerOrderStatus}
    (hadopt : isOurs status.orderRef = true → m.orders.get? status.orderRef = none →
      K status.orderRef none) (now : Now) : Parented K (m.applyStatus status now) := by
  unfold OrderManager.applyStatus
  split
  · rename_i mo hget
    exact h.absorb (h.records _ mo hget) status now
  · rename_i hnone
    split_ifs with hours
    · exact h.absorb (hadopt hours hnone) status now
    · exact h

theorem applyStatuses {statuses : List BrokerOrderStatus} (h : Parented K m)
    (hadopt : ∀ status ∈ statuses, isOurs status.orderRef = true →
      m.orders.get? status.orderRef = none → K status.orderRef none) (now : Now) :
    Parented K (statuses.foldl (fun m status => m.applyStatus status now) m) := by
  induction statuses generalizing m with
  | nil => exact h
  | cons status statuses ih =>
    refine ih (h.applyStatus (hadopt status List.mem_cons_self) now) fun status' hmem hours hnone => ?_
    refine hadopt status' (List.mem_cons_of_mem _ hmem) hours ?_
    by_contra hsome
    have hkept := extends_applyStatus m status now status'.orderRef (Option.isSome_iff_ne_none.mpr hsome)
    rw [hnone] at hkept
    cases hkept

theorem onExecution (h : Parented K m) (e : BrokerExecution) : Parented K (m.onExecution e) := by
  refine h.of_eq (orders_onExecution m e) fun ref => ?_
  unfold OrderManager.onExecution
  split_ifs
  · rfl
  · unfold row?
    cases m.store with
    | none => rfl
    | some s =>
      dsimp only [Option.map_some, Option.bind_some]
      unfold StateStore.saveFill
      split_ifs <;> rfl

/-! ### Reconciliation -/

theorem absorbOpen {r : OrderManager × ReconciliationReport} (h : Parented K r.1)
    {status : BrokerOrderStatus}
    (hadopt : isOurs status.orderRef = true → r.1.orders.get? status.orderRef = none →
      K status.orderRef none) (now : Now) : Parented K (OrderManager.absorbOpen now r status).1 := by
  unfold OrderManager.absorbOpen
  by_cases hours : isOurs status.orderRef = true
  · rw [if_pos hours]
    exact h.applyStatus hadopt now
  · rw [if_neg hours]
    exact h

theorem absorbOpens {opens : List BrokerOrderStatus} {r : OrderManager × ReconciliationReport}
    (h : Parented K r.1)
    (hadopt : ∀ status ∈ opens, isOurs status.orderRef = true → r.1.orders.get? status.orderRef = none →
      K status.orderRef none) (now : Now) : Parented K (opens.foldl (OrderManager.absorbOpen now) r).1 := by
  induction opens generalizing r with
  | nil => exact h
  | cons status opens ih =>
    refine ih (h.absorbOpen (hadopt status List.mem_cons_self) now) fun status' hmem hours hnone => ?_
    refine hadopt status' (List.mem_cons_of_mem _ hmem) hours ?_
    rw [get?_absorbOpen] at hnone
    split_ifs at hnone with href hours'
    · by_contra hsome
      obtain ⟨mo, hmo⟩ := Option.ne_none_iff_exists'.mp hsome
      rw [hmo] at hnone
      cases hnone
    · exact hnone
    · exact hnone

theorem absorbCompleted (h : Parented K m) (status : BrokerOrderStatus) (now : Now) :
    Parented K (OrderManager.absorbCompleted now m status) := by
  unfold OrderManager.absorbCompleted
  split_ifs with hknown
  · refine h.applyStatus (fun _ hnone => ?_) now
    rw [Bool.and_eq_true, hnone] at hknown
    cases hknown.2
  · exact h

theorem recordNeverSent (h : Parented K m) {m' : OrderManager} {mo : ManagedOrder}
    (hrecord : m.recordNeverSent mo = some m') : Parented K m' := by
  unfold OrderManager.recordNeverSent at hrecord
  cases hstore : m.store with
  | none =>
    rw [hstore] at hrecord
    obtain rfl := Option.some.inj hrecord
    exact h
  | some s =>
    simp only [hstore, StateStore.recordTransition] at hrecord
    by_cases hfault : s.faults (.transition mo.orderRef .cancelled) = true
    · rw [if_pos hfault] at hrecord
      cases hrecord
    · rw [if_neg hfault] at hrecord
      obtain rfl := Option.some.inj hrecord
      refine h.of_eq rfl fun ref => ?_
      rw [row?, row?, hstore]
      rfl

theorem resolveOne {known : List String} {now : Now} {r r' : OrderManager × ReconciliationReport}
    {mo : ManagedOrder} (h : Parented K r.1) (hmo : K mo.orderRef mo.parentRef)
    (hr' : OrderManager.resolveOne known now r mo = .error r' ∨
      OrderManager.resolveOne known now r mo = .ok r') : Parented K r'.1 := by
  have hwritten : Parented K ((r.1.put (neverSent mo now)).persist (neverSent mo now) none) := h.write hmo
  unfold OrderManager.resolveOne at hr'
  by_cases hmaybe : maybeSent known mo = true
  · rw [if_pos hmaybe] at hr'
    dsimp only at hr'
    split at hr'
    · rcases hr' with herror | hok
      · obtain rfl := Except.error.inj herror
        exact hwritten
      · cases hok
    · rename_i m' hrecord
      rcases hr' with herror | hok
      · cases herror
      · obtain rfl := Except.ok.inj hok
        exact hwritten.recordNeverSent hrecord
  · rw [if_neg hmaybe] at hr'
    rcases hr' with herror | hok
    · cases herror
    · obtain rfl := Except.ok.inj hok
      exact h

theorem resolveMaybeSent {known : List String} {now : Now} {records : List ManagedOrder}
    {r r' : OrderManager × ReconciliationReport} (h : Parented K r.1)
    (hrecords : ∀ mo ∈ records, K mo.orderRef mo.parentRef)
    (hr' : OrderManager.resolveMaybeSent known now records r = .error r' ∨
      OrderManager.resolveMaybeSent known now records r = .ok r') : Parented K r'.1 := by
  have hkeeps := @resolveMaybeSent_keeps known now (Parented K) records (fun mo hmo r₁ h₁ =>
    ⟨fun r' hr => h₁.resolveOne (hrecords mo hmo) (Or.inr hr),
      fun r' hr => h₁.resolveOne (hrecords mo hmo) (Or.inl hr)⟩) r h
  exact hr'.elim (hkeeps.2 r') (hkeeps.1 r')

theorem emitProtectiveStop (h : Parented K m) (env : ReconcileEnv) (symbol : String) (p : Position)
    (hstop : K (protectiveRef (env.emitAt symbol) symbol) (some "recovered")) :
    Parented K (OrderManager.emitProtectiveStop env m symbol p).1 := by
  unfold OrderManager.emitProtectiveStop
  split
  · exact h
  · rename_i reference hreference
    dsimp only
    have hwritten : Parented K ((m.put (protectiveRecord (env.emitAt symbol)
        (protectiveSpec (env.emitAt symbol) symbol p reference))).persist (protectiveRecord
          (env.emitAt symbol) (protectiveSpec (env.emitAt symbol) symbol p reference)) none) :=
      h.write hstop
    split
    · exact hwritten
    · rename_i status hreply
      refine hwritten.applyStatus (fun _ hnone => ?_) _
      rw [orderRef_placeSingle hreply, orders_persist, orders_put, OrderBook.get?_put] at hnone
      simp [protectiveRecord] at hnone

theorem protectPosition {r : Reconciled} (h : Parented K r.manager) (env : ReconcileEnv)
    (isProtected : String → Bool) (e : String × Position)
    (hstop : K (protectiveRef (env.emitAt e.1) e.1) (some "recovered")) :
    Parented K (OrderManager.protectPosition env isProtected r e).manager := by
  have hemitted := h.emitProtectiveStop env e.1 e.2 hstop
  unfold OrderManager.protectPosition
  split_ifs
  · exact h
  · dsimp only
    split_ifs
    · exact hemitted
    · exact hemitted.of_eq rfl fun _ => rfl

/-- **What a reconciliation makes**: adopted orders among the open ones, and protective stops. -/
theorem reconcile (h : Parented K m) (env : ReconcileEnv) (account : AccountSnapshot)
    (hadopt : ∀ status ∈ env.opens, isOurs status.orderRef = true →
      m.orders.get? status.orderRef = none → K status.orderRef none)
    (hstop : ∀ symbol, K (protectiveRef (env.emitAt symbol) symbol) (some "recovered")) :
    Parented K (OrderManager.reconcile env m account).manager := by
  have hunblocked : Parented K (m.unblockExpired env.start) := h.of_eq rfl fun _ => rfl
  unfold OrderManager.reconcile
  cases hopens : env.openOrders with
  | error e => exact hunblocked
  | ok opens =>
    cases hcompleted : env.completedOrders with
    | error e => exact hunblocked
    | ok completed =>
      dsimp only
      have hopens' : env.opens = opens := by
        rw [ReconcileEnv.opens, hopens]
        rfl
      rw [hopens'] at hadopt
      have habsorbed : Parented K (absorbAll env.start opens completed (m.unblockExpired env.start)).1 := by
        refine Parented.foldl ?_ fun m status _ hm => hm.absorbCompleted status env.start
        exact hunblocked.absorbOpens hadopt env.start
      have hrecords : ∀ mo ∈ (absorbAll env.start opens completed
          (m.unblockExpired env.start)).1.orders.values, K mo.orderRef mo.parentRef :=
        fun mo hmem => habsorbed.records _ mo (OrderBook.mem_values.mp hmem)
      split
      · rename_i m' report herror
        exact habsorbed.resolveMaybeSent hrecords (Or.inl herror)
      · rename_i m' report hok
        have hresolved := habsorbed.resolveMaybeSent hrecords (Or.inr hok)
        split
        · exact hresolved
        · rename_i executions hexecutions
          have hexecuted : Parented K (executions.foldl OrderManager.onExecution m') :=
            hresolved.foldl fun m e _ hm => hm.onExecution e
          have hprotected : ∀ (positions : List (String × Position)) (isProtected : String → Bool)
              (r : Reconciled), Parented K r.manager →
              Parented K (positions.foldl (OrderManager.protectPosition env isProtected) r).manager := by
            intro positions isProtected
            induction positions with
            | nil => exact fun r hr => hr
            | cons e positions ih =>
              exact fun r hr => ih _ (hr.protectPosition env isProtected e (hstop e.1))
          exact hprotected _ _ _ hexecuted

/-! ### Restart -/

theorem loadFromStore (h : Parented K m) (now : Now) : Parented K (m.loadFromStore now) := by
  unfold OrderManager.loadFromStore
  cases hstore : m.store with
  | none => exact h
  | some s =>
    refine Parented.foldl h fun m' row hmem hm' => ?_
    have hvalue : row ∈ s.orders.values := (List.mem_insertionSort _).mp hmem
    obtain ⟨ref, hentry⟩ := Dict.mem_values.mp hvalue
    have hrow : K row.order.orderRef row.order.parentRef := by
      refine h.rows ref row ?_
      rw [row?, hstore]
      exact Dict.get?_eq_some_iff.mpr hentry
    have hput : Parented K (m'.put (restored row now)) := hm'.put hrow
    exact hput.of_eq rfl fun _ => rfl

end Parented

end AiTrader
