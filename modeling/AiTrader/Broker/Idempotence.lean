import AiTrader.Broker.FreshRefs

/-!
# Reconciling twice

A pass that has sent its stops and cancels leaves nothing for the next one. The second pass reads the order
map the first one left against the broker's previous answers with the new stops and the cancels in them. At a
reference the first pass sent nothing about, the same status is absorbed a second time, and absorbing is
idempotent up to the clock (`alike_absorb`): the two views agree there (`view_again`). The new stops shield
their symbols (`shielded_of_placed`), and a cancelled leg no longer works (`stopped_of_cancelled`).

The references are sorted into those of the placed stops, those of the cancelled legs, and the rest. In each class the
record that works in the second view is found, and from it which positions are protected and which legs are orphaned
then; both come out as nobody. That the classes do not overlap is what the shape of the references gives: a placed
stop carries the kind of a protective stop and was not there before.
-/

namespace AiTrader

open Lib OrderManager

/-! ### Absorbing a status again -/

/-- The two records are the same to reconciliation. -/
structure Alike (mo mo' : ManagedOrder) : Prop where
  orderRef : mo'.orderRef = mo.orderRef
  symbol : mo'.symbol = mo.symbol
  state : mo'.state = mo.state
  stopPrice : mo'.stopPrice = mo.stopPrice
  parentRef : mo'.parentRef = mo.parentRef
  ibOrderId : mo'.ibOrderId = mo.ibOrderId

namespace Alike

theorem refl (mo : ManagedOrder) : Alike mo mo := ⟨rfl, rfl, rfl, rfl, rfl, rfl⟩

theorem isWorking {mo mo' : ManagedOrder} (h : Alike mo mo') : mo'.isWorking = mo.isWorking := by
  rw [ManagedOrder.isWorking, ManagedOrder.isWorking, h.state]

end Alike

theorem nextState_nextState (current : OrderState) (status : BrokerOrderStatus) :
    nextState (nextState current status) status = nextState current status := by
  unfold nextState
  cases statusMap status.status with
  | some new => rfl
  | none =>
    dsimp only [Option.getD_none]
    by_cases hpartly : 0 < status.filled ∧ current ≠ .filled ∧ current ≠ .cancelled
    · rw [if_pos hpartly, if_pos ⟨hpartly.1, by decide, by decide⟩]
    · rw [if_neg hpartly, if_neg hpartly]

theorem alike_absorb (mo : ManagedOrder) (status : BrokerOrderStatus) (now now' : ℚ) :
    Alike (mo.absorb status now) ((mo.absorb status now).absorb status now') := by
  refine ⟨rfl, rfl, nextState_nextState _ _, rfl, rfl, ?_⟩
  unfold ManagedOrder.absorb
  dsimp only
  split_ifs <;> rfl

theorem rel_statusOn (now now' : Now) (status : BrokerOrderStatus) (record : Option ManagedOrder) :
    Option.Rel Alike (statusOn now status record) (statusOn now' status (statusOn now status record)) := by
  cases record with
  | some mo => exact .some (alike_absorb mo status now.epoch now'.epoch)
  | none =>
    by_cases hours : isOurs status.orderRef = true
    · have hadopted : statusOn now status none =
          some ((ManagedOrder.adopted status now.epoch).absorb status now.epoch) := if_pos hours
      rw [hadopted]
      exact .some (alike_absorb _ status now.epoch now'.epoch)
    · have hnone : ∀ now, statusOn now status none = none := fun now => if_neg hours
      rw [hnone, hnone]
      exact .none

namespace ReconcileEnv

variable {env env' : ReconcileEnv} {m m₁ : OrderManager} {account : AccountSnapshot} {ref : String}

/-! ### The broker's word on one reference -/

/-- What the broker lists under a reference, as open and as completed. -/
def listing (env : ReconcileEnv) (ref : String) : List BrokerOrderStatus × List BrokerOrderStatus :=
  (env.opens.filter fun status => status.orderRef = ref,
    env.completed.filter fun status => status.orderRef = ref)

theorem listing_cases (h : env.Distinct) (ref : String) :
    env.listing ref = ([], []) ∨
      ∃ status, status.orderRef = ref ∧ (env.listing ref = ([status], []) ∨ env.listing ref = ([], [status])) := by
  unfold Distinct at h
  rw [List.map_append, List.nodup_append] at h
  obtain ⟨hopens, hcompleted, hdisjoint⟩ := h
  have hempty : ∀ {statuses : List BrokerOrderStatus}, ref ∉ statuses.map BrokerOrderStatus.orderRef →
      (statuses.filter fun status => status.orderRef = ref) = [] := by
    intro statuses hnot
    rw [List.filter_eq_nil_iff]
    intro status hmem href
    exact hnot (List.mem_map.mpr ⟨status, hmem, by simpa using href⟩)
  by_cases hopen : ref ∈ env.opens.map BrokerOrderStatus.orderRef
  · obtain ⟨status, hmem, rfl⟩ := List.mem_map.mp hopen
    refine Or.inr ⟨status, rfl, Or.inl (Prod.ext (filter_of_nodup hopens hmem) (hempty ?_))⟩
    exact fun hlisted => hdisjoint _ hopen _ hlisted rfl
  · by_cases hdone : ref ∈ env.completed.map BrokerOrderStatus.orderRef
    · obtain ⟨status, hmem, rfl⟩ := List.mem_map.mp hdone
      exact Or.inr ⟨status, rfl, Or.inr (Prod.ext (hempty hopen) (filter_of_nodup hcompleted hmem))⟩
    · exact Or.inl (Prod.ext (hempty hopen) (hempty hdone))

theorem orderRef_of_listing {status : BrokerOrderStatus}
    (h : env.listing ref = ([status], []) ∨ env.listing ref = ([], [status])) : status.orderRef = ref := by
  have hmem : status ∈ (env.listing ref).1 ∨ status ∈ (env.listing ref).2 := by
    rcases h with h | h
    · exact Or.inl (by rw [h]; exact List.mem_cons_self)
    · exact Or.inr (by rw [h]; exact List.mem_cons_self)
  rcases hmem with hmem | hmem <;> simpa using (List.mem_filter.mp hmem).2

theorem mem_known_iff : ref ∈ env.known ↔ ref ≠ "" ∧ env.listing ref ≠ ([], []) := by
  rw [known, List.mem_filter, List.map_append, List.mem_append, and_comm, decide_eq_true_eq]
  refine and_congr_right fun _ => ?_
  rw [listing, ne_eq, Prod.mk.injEq, List.filter_eq_nil_iff, List.filter_eq_nil_iff]
  simp only [List.mem_map, decide_eq_true_eq]
  constructor
  · rintro (⟨status, hmem, href⟩ | ⟨status, hmem, href⟩) ⟨hopens, hcompleted⟩
    · exact hopens status hmem href
    · exact hcompleted status hmem href
  · intro hlisted
    by_contra hnot
    rw [not_or, not_exists, not_exists] at hnot
    exact hlisted ⟨fun status hmem href => hnot.1 status ⟨hmem, href⟩,
      fun status hmem href => hnot.2 status ⟨hmem, href⟩⟩

theorem absorbed_unlisted (h : env.listing ref = ([], [])) : env.absorbed m ref = m.orders.get? ref := by
  rw [listing, Prod.mk.injEq] at h
  unfold absorbed
  rw [h.1, h.2]
  rfl

theorem absorbed_open {status : BrokerOrderStatus} (h : env.listing ref = ([status], [])) :
    env.absorbed m ref = if isOurs status.orderRef then statusOn env.start status (m.orders.get? ref)
      else m.orders.get? ref := by
  rw [listing, Prod.mk.injEq] at h
  unfold absorbed
  rw [h.1, h.2]
  rfl

theorem absorbed_completed {status : BrokerOrderStatus} (h : env.listing ref = ([], [status])) :
    env.absorbed m ref = if isOurs status.orderRef && (m.orders.get? ref).isSome then
      statusOn env.start status (m.orders.get? ref) else m.orders.get? ref := by
  rw [listing, Prod.mk.injEq] at h
  unfold absorbed
  rw [h.1, h.2]
  rfl

theorem not_maybeSent_view {mo : ManagedOrder} (h : env.view m ref = some mo) :
    maybeSent env.known mo = false := by
  obtain ⟨mo', habsorbed, rfl⟩ := Option.map_eq_some_iff.mp h
  by_cases hmaybe : maybeSent env.known mo' = true
  · rw [if_pos hmaybe]
    rfl
  · rw [if_neg hmaybe]
    simpa using hmaybe

theorem view_of_absorbed (hknown : ref ∈ env'.known ↔ ref ∈ env.known)
    (hrel : Option.Rel Alike (env.view m ref) (env'.absorbed m₁ ref)) :
    Option.Rel Alike (env.view m ref) (env'.view m₁ ref) := by
  unfold view at hrel ⊢
  cases habsorbed : env'.absorbed m₁ ref with
  | none =>
    rw [habsorbed] at hrel
    exact hrel
  | some mo' =>
    rw [habsorbed] at hrel
    cases hview : env.view m ref with
    | none =>
      rw [view] at hview
      rw [hview] at hrel
      cases hrel
    | some mo =>
      have hmaybe := not_maybeSent_view hview
      have href : mo.orderRef = ref := by
        obtain ⟨mo₀, habsorbed₀, rfl⟩ := Option.map_eq_some_iff.mp hview
        have href₀ := orderRef_of_absorbed habsorbed₀
        split_ifs <;> exact href₀
      rw [view] at hview
      rw [hview] at hrel ⊢
      cases hrel with
      | some halike =>
        have hmaybe' : maybeSent env'.known mo' = false := by
          rw [maybeSent, halike.isWorking, halike.orderRef, href]
          rw [maybeSent, href] at hmaybe
          simpa [hknown] using hmaybe
        rw [Option.map_some, hmaybe', if_neg Bool.false_ne_true]
        exact .some halike

/-- **The second view agrees with the first** at a reference the broker answers about as before. -/
theorem view_again (hdistinct : env.Distinct) (hlisting : env'.listing ref = env.listing ref)
    (hget : m₁.orders.get? ref = env.view m ref) :
    Option.Rel Alike (env.view m ref) (env'.view m₁ ref) := by
  have hknown : ref ∈ env'.known ↔ ref ∈ env.known := by rw [mem_known_iff, mem_known_iff, hlisting]
  have hidle : env'.absorbed m₁ ref = m₁.orders.get? ref →
      Option.Rel Alike (env.view m ref) (env'.view m₁ ref) := by
    intro habsorbed
    refine view_of_absorbed hknown ?_
    rw [habsorbed, hget]
    cases env.view m ref with
    | none => exact .none
    | some mo => exact .some (Alike.refl mo)
  -- a status absorbed twice: the first time by the view, whose records the broker then knows
  have htwice : ∀ status, status.orderRef = ref → env.listing ref ≠ ([], []) → isOurs ref = true →
      env.absorbed m ref = statusOn env.start status (m.orders.get? ref) →
      env'.absorbed m₁ ref = statusOn env'.start status (m₁.orders.get? ref) →
        Option.Rel Alike (env.view m ref) (env'.view m₁ ref) := by
    intro status href hlisted hours habsorbed habsorbed'
    have hview : env.view m ref = env.absorbed m ref := by
      unfold view
      cases hrecord : env.absorbed m ref with
      | none => rfl
      | some mo =>
        have hlist : ref ∈ env.known := mem_known_iff.mpr ⟨isOurs_ne_empty hours, hlisted⟩
        rw [Option.map_some, maybeSent, orderRef_of_absorbed hrecord, if_neg]
        simpa using fun _ => hlist
    refine view_of_absorbed hknown ?_
    rw [habsorbed', hget, hview, habsorbed]
    exact rel_statusOn env.start env'.start status _
  rcases listing_cases hdistinct ref with hnone | ⟨status, href, hopen | hcompleted⟩
  · exact hidle (absorbed_unlisted (hlisting.trans hnone))
  · have habsorbed' := absorbed_open (m := m₁) (hlisting.trans hopen)
    by_cases hours : isOurs ref = true
    · have habsorbed := absorbed_open (m := m) hopen
      rw [href, if_pos hours] at habsorbed habsorbed'
      exact htwice status href (by simp [hopen]) hours habsorbed habsorbed'
    · rw [href, if_neg hours] at habsorbed'
      exact hidle habsorbed'
  · have habsorbed' := absorbed_completed (m := m₁) (hlisting.trans hcompleted)
    by_cases hours : isOurs ref = true ∧ (m₁.orders.get? ref).isSome = true
    · have habsorbed := absorbed_completed (m := m) hcompleted
      have hlocal : (m.orders.get? ref).isSome = true := by
        by_contra hnone
        rw [href, hours.1, Bool.true_and, if_neg hnone] at habsorbed
        rw [Option.not_isSome_iff_eq_none] at hnone
        rw [hget, view, habsorbed, hnone] at hours
        exact absurd hours.2 Bool.false_ne_true
      rw [href, hours.1, Bool.true_and, if_pos hlocal] at habsorbed
      rw [href, hours.1, Bool.true_and, if_pos hours.2] at habsorbed'
      exact htwice status href (by simp [hcompleted]) hours.1 habsorbed habsorbed'
    · rw [href, if_neg (by simpa using hours)] at habsorbed'
      exact hidle habsorbed'

/-! ### The next answers -/

/-- Every request of the pass succeeds. -/
structure Succeeds (env : ReconcileEnv) (m : OrderManager) (account : AccountSnapshot) : Prop where
  returns : (reconcile env m account).raised = none
  placed : ∀ symbol p, (symbol, p) ∈ account.openPositions.entries → ¬ env.Shielded m symbol → ∀ spec,
    env.emission symbol p ≠ .raised spec

/-- The order at the reference is one that step 5 has asked the broker to cancel. -/
def Cancels (env : ReconcileEnv) (m : OrderManager) (account : AccountSnapshot) (ref : String) : Prop :=
  ∃ mo, (reconcile env m account).manager.orders.get? ref = some mo ∧ mo.isWorking = true ∧
    mo.parentRef.isSome = true ∧ mo.symbol ∉ account.openPositions.keys ∧
    (truthy mo.ibOrderId).isSome = true

/-- `env'` gives the answers of `env` again, with every placed stop among the open orders and every cancelled
order as cancelled. -/
structure Follows (env env' : ReconcileEnv) (m : OrderManager) (account : AccountSnapshot) : Prop where
  quotes : env'.quote = env.quote
  /-- With the placed stops among them the orders still have distinct references. -/
  fresh : ∀ ref, env.PlacedStop m account ref → env.listing ref = ([], [])
  placed : ∀ ref, env.PlacedStop m account ref → ∃ status new, env'.listing ref = ([status], []) ∧
    statusMap status.status = some new ∧ new.isWorking = true
  cancelled : ∀ ref, env.Cancels m account ref → ∃ status,
    (env'.listing ref = ([status], []) ∨ env'.listing ref = ([], [status])) ∧
    statusMap status.status = some .cancelled
  same : ∀ ref, ¬ env.PlacedStop m account ref → ¬ env.Cancels m account ref →
    env'.listing ref = env.listing ref

theorem Succeeds.placedStop_of_replaced (h : env.Succeeds m account) (hreplaced : env.Replaced m account ref) :
    env.PlacedStop m account ref := by
  obtain ⟨symbol, p, hmem, hopen, hrecord, rfl⟩ := hreplaced
  refine ⟨symbol, p, hmem, hopen, ?_, rfl⟩
  cases hemission : env.emission symbol p with
  | noReference =>
    rw [hemission] at hrecord
    cases hrecord
  | raised spec => exact absurd hemission (h.placed symbol p hmem hopen spec)
  | replied spec status => exact ⟨spec, status, rfl⟩

/-! ### The second pass -/

theorem isWorking_nextState {current new : OrderState} {status : BrokerOrderStatus}
    (hmap : statusMap status.status = some new) (hworks : new.isWorking = true) :
    (nextState current status).isWorking = true := by
  unfold nextState
  rw [hmap]
  dsimp only [Option.getD_some]
  split_ifs
  · rfl
  · exact hworks

theorem nextState_cancelled {current : OrderState} {status : BrokerOrderStatus}
    (hmap : statusMap status.status = some .cancelled) : nextState current status = .cancelled := by
  unfold nextState
  rw [hmap]
  simp

theorem get?_of_not_placed (hsucceeds : env.Succeeds m account) (hplaced : ¬ env.PlacedStop m account ref) :
    (reconcile env m account).manager.orders.get? ref = env.view m ref := by
  obtain ⟨m', report, hfinal, -, hview⟩ :=
    reconcile_returns ((reconcile_returns_iff env m account).mp hsucceeds.returns)
  rw [hfinal]
  exact get?_of_not_replaced hview fun h => hplaced (hsucceeds.placedStop_of_replaced h)

theorem not_placed_of_view (hnext : env.Follows env' m account) {mo : ManagedOrder}
    (hview : env.view m ref = some mo) (hworking : mo.isWorking = true) : ¬ env.PlacedStop m account ref := by
  intro hplaced
  have hunknown : ref ∉ env.known := fun h => (mem_known_iff.mp h).2 (hnext.fresh ref hplaced)
  obtain ⟨hne, hlisted⟩ := listed_of_view hview hworking
  refine hunknown (List.mem_filter.mpr ⟨?_, by simpa using hne⟩)
  rw [List.map_append, List.mem_append, List.mem_map (l := env.completed)]
  exact hlisted

theorem view_of_placed (hsucceeds : env.Succeeds m account) (hnext : env.Follows env' m account)
    {symbol : String} {p : Position} (hmem : (symbol, p) ∈ account.openPositions.entries)
    (hopen : ¬ env.Shielded m symbol) {spec : BrokerOrderSpec} {reply : BrokerOrderStatus}
    (hreplied : env.emission symbol p = .replied spec reply) :
    ∃ mo, env'.view (reconcile env m account).manager (env.stopRef symbol) = some mo ∧
      mo.isWorking = true ∧ mo.stopPrice.isSome = true ∧ mo.symbol = symbol := by
  obtain ⟨m', report, hfinal, -, hview⟩ :=
    reconcile_returns ((reconcile_returns_iff env m account).mp hsucceeds.returns)
  obtain ⟨status, new, hlisting, hmap, hworks⟩ :=
    hnext.placed _ ⟨symbol, p, hmem, hopen, ⟨spec, reply, hreplied⟩, rfl⟩
  have hrecord : (env.emission symbol p).record (env.emitAt symbol) =
      some ((protectiveRecord (env.emitAt symbol) spec).absorb reply (env.emitAt symbol).epoch) := by
    rw [hreplied]
    rfl
  have hget := @get?_of_emitted env m account m' report hview symbol p _ hmem hopen hrecord
  rw [← hfinal] at hget
  have hours : isOurs status.orderRef = true := by
    rw [orderRef_of_listing (Or.inl hlisting)]
    exact isOurs_stopRef env symbol
  have habsorbed := absorbed_open (m := (reconcile env m account).manager) hlisting
  rw [if_pos hours, hget] at habsorbed
  have hworking : (ManagedOrder.absorb ((protectiveRecord (env.emitAt symbol) spec).absorb reply
      (env.emitAt symbol).epoch) status env'.start.epoch).isWorking = true := isWorking_nextState hmap hworks
  have hspec : spec.stopPrice.isSome = true := by
    unfold emission at hreplied
    split at hreplied
    · cases hreplied
    · dsimp only at hreplied
      split at hreplied
      · cases hreplied
      · cases hreplied
        rfl
  refine ⟨_, ?_, hworking, hspec, (guards_emitted_iff hrecord).1⟩
  have hknown : env.stopRef symbol ∈ env'.known := mem_known_iff.mpr
    ⟨isOurs_ne_empty (isOurs_stopRef env symbol), by simp [hlisting]⟩
  rw [view, habsorbed]
  show some (if maybeSent env'.known _ then _ else _) = some _
  have href := orderRef_of_absorbed habsorbed
  rw [if_neg]
  rw [maybeSent, href]
  simpa using fun _ => hknown

theorem stopped_of_cancelled (hours : m.Ours) (hnext : env.Follows env' m account)
    (hcancels : env.Cancels m account ref) {mo : ManagedOrder} (hview : env'.view (reconcile env m account).manager ref = some mo) : mo.isWorking = false := by
  obtain ⟨status, hlisting, hmap⟩ := hnext.cancelled ref hcancels
  obtain ⟨mo₁, hget, -⟩ := hcancels
  have hone : isOurs status.orderRef = true := by
    rw [orderRef_of_listing hlisting]
    refine RefRun.ours_advance hours (.reconciled env account) ref ?_
    show (((reconcile env m account).manager.orders).get? ref).isSome = true
    rw [hget]
    rfl
  have habsorbed : env'.absorbed (reconcile env m account).manager ref =
      some (mo₁.absorb status env'.start.epoch) := by
    rcases hlisting with hopen | hcompleted
    · rw [absorbed_open hopen, if_pos hone, hget]
      rfl
    · rw [absorbed_completed hcompleted, hone, hget]
      rfl
  have hstopped : (mo₁.absorb status env'.start.epoch).isWorking = false := by
    rw [ManagedOrder.isWorking, ManagedOrder.absorb, nextState_cancelled hmap]
    rfl
  rw [view, habsorbed, Option.map_some, maybeSent, hstopped, Bool.false_and, if_neg Bool.false_ne_true] at hview
  obtain rfl := Option.some.inj hview
  exact hstopped

/-- **Reconciliation is idempotent.** When every request of a pass has succeeded, and the broker answers as
before with the placed stops listed as open and the cancelled orders as cancelled, the next pass for the
same account sends nothing. -/
theorem reconcile_idempotent (env env' : ReconcileEnv) (m : OrderManager) (account : AccountSnapshot)
    (hours : m.Ours) (hdistinct : env.Distinct) (hsucceeds : env.Succeeds m account)
    (hnext : env.Follows env' m account) :
    (reconcile env' (reconcile env m account).manager account).requests = [] := by
  by_cases hanswers' : env'.Answers (reconcile env m account).manager
  swap
  · exact requests_of_not_answers hanswers'
  have hagain : ∀ ref, ¬ env.PlacedStop m account ref → ¬ env.Cancels m account ref →
      Option.Rel Alike (env.view m ref) (env'.view (reconcile env m account).manager ref) :=
    fun ref hplaced hcancels =>
      view_again hdistinct (hnext.same ref hplaced hcancels) (get?_of_not_placed hsucceeds hplaced)
  rw [requests_eq_nil_iff hanswers']
  refine ⟨fun symbol p hmem => ?_, ?_⟩
  · by_cases hshielded : env.Shielded m symbol
    · obtain ⟨ref, mo, hview, hworking, hstop, hsymbol⟩ := hshielded
      have hplaced := not_placed_of_view hnext hview hworking
      have hcancels : ¬ env.Cancels m account ref := by
        rintro ⟨mo₁, hget, -, -, hflat, -⟩
        obtain rfl : mo₁ = mo :=
          Option.some.inj (hget.symm.trans ((get?_of_not_placed hsucceeds hplaced).trans hview))
        exact hflat (Dict.mem_keys.mpr ⟨p, hsymbol ▸ hmem⟩)
      have hrel := hagain ref hplaced hcancels
      rw [hview] at hrel
      cases hview' : env'.view (reconcile env m account).manager ref with
      | none =>
        rw [hview'] at hrel
        cases hrel
      | some mo' =>
        rw [hview'] at hrel
        cases hrel with
        | some halike =>
          exact Or.inl ⟨ref, mo', hview', halike.isWorking.trans hworking, halike.stopPrice ▸ hstop,
            halike.symbol.trans hsymbol⟩
    · cases hemission : env.emission symbol p with
      | noReference =>
        refine Or.inr ?_
        rw [hnext.quotes]
        unfold emission at hemission
        split at hemission
        · assumption
        · dsimp only at hemission
          split at hemission <;> cases hemission
      | raised spec => exact absurd hemission (hsucceeds.placed symbol p hmem hshielded spec)
      | replied spec reply =>
        exact Or.inl ⟨_, view_of_placed hsucceeds hnext hmem hshielded hemission⟩
  · rintro id ⟨hid, ref, mo', hview', -, hworking, hleg, hibOrderId, hflat⟩
    by_cases hcancels : env.Cancels m account ref
    · rw [stopped_of_cancelled hours hnext hcancels hview'] at hworking
      cases hworking
    · by_cases hplaced : env.PlacedStop m account ref
      · obtain ⟨symbol, p, hmem, hopen, ⟨spec, reply, hreplied⟩, rfl⟩ := hplaced
        obtain ⟨mo, hview, -, -, rfl⟩ := view_of_placed hsucceeds hnext hmem hopen hreplied
        obtain rfl : mo = mo' := Option.some.inj (hview.symm.trans hview')
        exact hflat (Dict.mem_keys.mpr ⟨p, hmem⟩)
      · have hrel := hagain ref hplaced hcancels
        rw [hview'] at hrel
        cases hview : env.view m ref with
        | none =>
          rw [hview] at hrel
          cases hrel
        | some mo =>
          rw [hview] at hrel
          cases hrel with
          | some halike =>
            refine hcancels ⟨mo, (get?_of_not_placed hsucceeds hplaced).trans hview, ?_, ?_, ?_, ?_⟩
            · exact halike.isWorking.symm.trans hworking
            · exact halike.parentRef ▸ hleg
            · exact halike.symbol ▸ hflat
            · rw [← halike.ibOrderId, hibOrderId, truthy]
              simpa using hid

/-- 50 AAPL without a stop: the first pass places one, and the second finds it among the open orders. -/
theorem reconcile_idempotent_aapl :
    (reconcile (aaplEnv [statusOf ((aaplEnv []).stopRef "AAPL") 50 0 50])
      (reconcile (aaplEnv []) {} (aaplAccount 50)).manager (aaplAccount 50)).requests = [] := by
  have hheld : ∀ symbol p, (symbol, p) ∈ (aaplAccount 50).openPositions.entries →
      symbol = "AAPL" ∧ p = aaplPosition := by
    intro symbol p hmem
    have hentries : (aaplAccount 50).openPositions.entries = [("AAPL", aaplPosition)] := by decide +kernel
    rw [hentries] at hmem
    simpa using hmem
  have hplaced : ∀ ref, (aaplEnv []).PlacedStop {} (aaplAccount 50) ref → ref = (aaplEnv []).stopRef "AAPL" := by
    rintro ref ⟨symbol, p, hmem, -, -, rfl⟩
    rw [(hheld symbol p hmem).1]
  have hopen : ¬ (aaplEnv []).Shielded {} "AAPL" := by
    rw [shielded_iff_knownStop]
    rintro ⟨ref, mo, hget, -⟩
    cases hget
  refine reconcile_idempotent (aaplEnv []) _ {} (aaplAccount 50) (fun ref hknows => (nomatch hknows))
    (by decide +kernel) ⟨by decide +kernel, fun symbol p hmem _ spec => ?_⟩ ⟨rfl, ?_, ?_, ?_, ?_⟩
  · obtain ⟨rfl, rfl⟩ := hheld symbol p hmem
    have hplaces : ((aaplEnv []).emission "AAPL" aaplPosition).failed = false := by decide +kernel
    intro hraised
    rw [hraised] at hplaces
    cases hplaces
  · exact fun ref _ => rfl
  · intro ref href
    obtain rfl := hplaced ref href
    exact ⟨statusOf ((aaplEnv []).stopRef "AAPL") 50 0 50, .submitted, by decide +kernel, rfl, rfl⟩
  · rintro ref ⟨mo, hget, -, -, hflat, -⟩
    refine absurd (?_ : mo.symbol ∈ (aaplAccount 50).openPositions.keys) hflat
    have hbook : ∀ mo ∈ (reconcile (aaplEnv []) {} (aaplAccount 50)).manager.orders.values,
        mo.symbol ∈ (aaplAccount 50).openPositions.keys := by decide +kernel
    have href := OrderBook.orderRef_of_get? hget
    exact hbook mo (OrderBook.mem_values.mpr (by rw [href]; exact hget))
  · intro ref hplaced hcancels
    have hne : ref ≠ (aaplEnv []).stopRef "AAPL" := by
      rintro rfl
      refine hplaced ⟨"AAPL", aaplPosition, by decide +kernel, hopen, ?_, rfl⟩
      have hrecord : (((aaplEnv []).emission "AAPL" aaplPosition).record
          ((aaplEnv []).emitAt "AAPL")).isSome = true := by decide +kernel
      have hplaces : ((aaplEnv []).emission "AAPL" aaplPosition).failed = false := by decide +kernel
      exact replied_of_not_failed hrecord hplaces
    have hnone : ([statusOf ((aaplEnv []).stopRef "AAPL") 50 0 50].filter fun status =>
        status.orderRef = ref) = [] := by
      rw [List.filter_eq_nil_iff]
      intro status hmem href
      obtain rfl := List.mem_singleton.mp hmem
      have hsame : (aaplEnv []).stopRef "AAPL" = ref := of_decide_eq_true href
      exact hne hsame.symm
    exact Prod.ext hnone rfl

end ReconcileEnv

end AiTrader
