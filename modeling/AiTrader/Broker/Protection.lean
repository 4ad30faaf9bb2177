import AiTrader.Broker.Reconcile

/-!
# What reconciliation protects

`reconcile` protects and cleans up on the view (`reconcile_returns`). Step 4 is a run over the open
positions whose steps act at pairwise different references, so the order map it leaves is the view
outside the references of the stops it emitted (`get?_of_not_replaced`) and the emitted records at them
(`get?_of_emitted`).

* `position_protected_iff`: when a held position ends up covered by a stop or reported. Step 4 takes any
  working record with a stop price for protection, an entry included, and takes any reply for a
  placement, a rejection included.
* `spares_legs_iff`: when the legs of a working entry are left alone. Step 5 looks at positions only, and
  a resting entry has none.

`position_protected_iff` is read off the record at the stop's reference: a position is covered if the view already
holds a working record with a stop price for its symbol and closing side, or if the emitted record is one, which it is
unless the broker refused the order. A stop that could not be emitted is reported. What a step does is stated once,
field by field (`protectPosition_spec`), and the run over the positions is then taken apart symbol by symbol.
-/

namespace AiTrader

open Lib OrderManager

/-! ### One protective stop -/

/-- What comes of the attempt to place a stop for a position. -/
inductive Emission
  | noReference
  | raised (spec : BrokerOrderSpec)
  | replied (spec : BrokerOrderSpec) (status : BrokerOrderStatus)

namespace Emission

/-- The record it leaves. -/
def record (now : Now) : Emission → Option ManagedOrder
  | noReference => none
  | raised spec => some (protectiveRecord now spec)
  | replied spec status => some ((protectiveRecord now spec).absorb status now.epoch)

/-- The attempt is reported as failed. -/
def failed : Emission → Bool
  | replied _ _ => false
  | _ => true

/-- The broker answered, and the order it reports on does not work. -/
def refused : Emission → Bool
  | replied _ status => !(nextState .pending status).isWorking
  | _ => false

end Emission

namespace ReconcileEnv

/-- The attempt for one position, as the quote, the clock and the broker's answer determine it. -/
def emission (env : ReconcileEnv) (symbol : String) (p : Position) : Emission :=
  match referencePrice (env.quote symbol) p with
  | none => .noReference
  | some reference =>
    let spec := protectiveSpec (env.emitAt symbol) symbol p reference
    match placeSingle env.account spec (env.placeOrder spec) with
    | .error _ => .raised spec
    | .ok status => .replied spec status

/-- The reference of the stop emitted for a symbol. -/
def stopRef (env : ReconcileEnv) (symbol : String) : String := protectiveRef (env.emitAt symbol) symbol

theorem stopRef_inj {env : ReconcileEnv} {symbol symbol' : String}
    (h : env.stopRef symbol = env.stopRef symbol') : symbol = symbol' := by
  have hcycle : ∀ now, ':' ∉ ("protect-" ++ epochSeconds now).toList := by
    intro now hmem
    rw [String.toList_append, List.mem_append] at hmem
    rcases hmem with hmem | hmem
    · exact absurd hmem (by decide)
    · exact colon_not_mem_epochSeconds now hmem
  exact (makeRef_inj (env.emitAt symbol).date_no_colon (env.emitAt symbol').date_no_colon (hcycle _)
    (hcycle _) h).2.2

end ReconcileEnv

namespace OrderManager

theorem emitProtectiveStop_spec (env : ReconcileEnv) (m : OrderManager) (symbol : String)
    (p : Position) :
    (emitProtectiveStop env m symbol p).2.1 = !(env.emission symbol p).failed ∧
      (emitProtectiveStop env m symbol p).1.blockedSymbols = m.blockedSymbols ∧
      (∀ id, .cancelOrder id ∉ (emitProtectiveStop env m symbol p).2.2) ∧ ∀ ref, (emitProtectiveStop env m symbol p).1.orders.get? ref =
        if ref = env.stopRef symbol then
          ((env.emission symbol p).record (env.emitAt symbol)).orElse fun _ => m.orders.get? ref
        else m.orders.get? ref := by
  unfold emitProtectiveStop ReconcileEnv.emission
  cases referencePrice (env.quote symbol) p with
  | none =>
    refine ⟨rfl, rfl, by simp, fun ref => ?_⟩
    exact (ite_self _).symm
  | some reference =>
    let spec := protectiveSpec (env.emitAt symbol) symbol p reference
    let mo := protectiveRecord (env.emitAt symbol) spec
    have hput : ∀ ref, ((m.put mo).persist mo none).orders.get? ref =
        if ref = env.stopRef symbol then some mo else m.orders.get? ref :=
      fun ref => OrderBook.get?_put _ _ _
    cases hreply : placeSingle env.account spec (env.placeOrder spec) with
    | error e =>
      simp only [spec] at hreply
      simp only [hreply]
      exact ⟨rfl, rfl, by simp, hput⟩
    | ok status =>
      have href : status.orderRef = env.stopRef symbol := orderRef_placeSingle hreply
      simp only [spec] at hreply
      simp only [hreply]
      refine ⟨rfl, blockedSymbols_applyStatus _ _ _, by simp, fun ref => ?_⟩
      rw [get?_applyStatus, href, hput]
      split_ifs <;> rfl

/-- The attempts step 4 makes: those for positions without protection. -/
def attempt (env : ReconcileEnv) (m : OrderManager) (e : String × Position) : Option Emission :=
  if m.isProtected e.1 then none else some (env.emission e.1 e.2)

variable {env : ReconcileEnv} {m : OrderManager}

/-- The record an attempt leaves at its reference, if any. -/
def leaves (env : ReconcileEnv) (m : OrderManager) (e : String × Position) : Option ManagedOrder :=
  (attempt env m e).bind (Emission.record (env.emitAt e.1))

/-- The attempt is made and reported as failed. -/
def fails (env : ReconcileEnv) (m : OrderManager) (e : String × Position) : Bool :=
  ((attempt env m e).map Emission.failed).getD false

theorem protectPosition_spec (r : Reconciled) (e : String × Position) :
    (∀ ref, (protectPosition env m.isProtected r e).manager.orders.get? ref =
        if ref = env.stopRef e.1 then (leaves env m e).orElse fun _ => r.manager.orders.get? ref
        else r.manager.orders.get? ref) ∧
      (protectPosition env m.isProtected r e).manager.blockedSymbols =
        (if fails env m e then r.manager.blockedSymbols.set e.1 (env.emitAt e.1).mono
        else r.manager.blockedSymbols) ∧
      (protectPosition env m.isProtected r e).report.unresolved =
        r.report.unresolved ++ (if fails env m e then [unresolvedText e.1] else []) ∧
      ∀ id, .cancelOrder id ∈ (protectPosition env m.isProtected r e).requests ↔
        .cancelOrder id ∈ r.requests := by
  obtain ⟨hplaced, hblocked, hrequests, hget⟩ := emitProtectiveStop_spec env r.manager e.1 e.2
  unfold protectPosition leaves fails attempt
  by_cases hprot : m.isProtected e.1 = true
  · simp [hprot]
  · generalize emitProtectiveStop env r.manager e.1 e.2 = out at hplaced hblocked hrequests hget ⊢
    obtain ⟨m', placed, requests⟩ := out
    dsimp only at hplaced hblocked hrequests hget
    rw [if_neg hprot, if_neg hprot]
    cases hfailed : (env.emission e.1 e.2).failed with
    | true =>
      rw [hfailed] at hplaced
      subst hplaced
      refine ⟨hget, ?_, ?_, ?_⟩
      · simp [block, hfailed, hblocked]
      · simp [hfailed]
      · simp [hrequests]
    | false =>
      rw [hfailed] at hplaced
      subst hplaced
      refine ⟨hget, ?_, ?_, ?_⟩
      · simp [hfailed, hblocked]
      · simp [hfailed]
      · simp [hrequests]

/-! ### All positions -/

/-- Step 4 over a list of positions, started from a manager and a report. -/
def protectAll (env : ReconcileEnv) (m : OrderManager) (r : Reconciled)
    (positions : List (String × Position)) : Reconciled :=
  Trace.run (protectPosition env m.isProtected) r positions

theorem get?_protectAll_idle {r : Reconciled} {positions : List (String × Position)} {ref : String}
    (h : ∀ e ∈ positions, env.stopRef e.1 = ref → leaves env m e = none) :
    (protectAll env m r positions).manager.orders.get? ref = r.manager.orders.get? ref := by
  refine @Trace.run_pointwise_idle _ _ (protectPosition env m.isProtected) _ _ _
    (fun r ref => r.manager.orders.get? ref) (fun e => env.stopRef e.1)
    (fun e record => (leaves env m e).orElse fun _ => record)
    (fun r e ref => (protectPosition_spec r e).1 ref) r positions ref ?_
  intro e hmem href record
  rw [h e hmem href]
  rfl

theorem get?_protectAll_settled {r : Reconciled} {positions : List (String × Position)}
    {e : String × Position} {mo : ManagedOrder} (hmem : e ∈ positions)
    (hunique : ∀ e' ∈ positions, env.stopRef e'.1 = env.stopRef e.1 → e' = e)
    (hmo : leaves env m e = some mo) :
    (protectAll env m r positions).manager.orders.get? (env.stopRef e.1) = some mo := by
  refine @Trace.run_pointwise_settled _ _ (protectPosition env m.isProtected) _ _ _
    (fun r ref => r.manager.orders.get? ref) (fun e => env.stopRef e.1)
    (fun e record => (leaves env m e).orElse fun _ => record)
    (fun r e ref => (protectPosition_spec r e).1 ref) r positions _ _ ?_ (Or.inr ⟨e, hmem, rfl⟩)
  intro e' hmem' href record
  rw [hunique e' hmem' href, hmo]
  rfl

theorem mem_unresolved_protectAll (r : Reconciled) (positions : List (String × Position))
    (text : String) :
    text ∈ (protectAll env m r positions).report.unresolved ↔
      text ∈ r.report.unresolved ∨
        ∃ e ∈ positions, fails env m e = true ∧ text = unresolvedText e.1 := by
  induction positions generalizing r with
  | nil => simp [protectAll]
  | cons e positions ih =>
    rw [protectAll, Trace.run_cons]
    refine (ih _).trans ?_
    rw [(protectPosition_spec r e).2.2.1, List.mem_append, or_assoc]
    cases hfails : fails env m e <;> simp [hfails]

theorem mem_blocked_protectAll (r : Reconciled) (positions : List (String × Position))
    (symbol : String) :
    symbol ∈ (protectAll env m r positions).manager.blockedSymbols.keys ↔
      symbol ∈ r.manager.blockedSymbols.keys ∨
        ∃ e ∈ positions, fails env m e = true ∧ symbol = e.1 := by
  induction positions generalizing r with
  | nil => simp [protectAll]
  | cons e positions ih =>
    rw [protectAll, Trace.run_cons]
    refine (ih _).trans ?_
    rw [(protectPosition_spec r e).2.1]
    cases hfails : fails env m e
    · simp [hfails]
    · simp only [if_true, Dict.mem_keys_set, List.mem_cons, exists_eq_or_imp, hfails, true_and]
      tauto

theorem cancel_mem_protectAll (r : Reconciled) (positions : List (String × Position)) (id : ℤ) :
    .cancelOrder id ∈ (protectAll env m r positions).requests ↔ .cancelOrder id ∈ r.requests := by
  induction positions generalizing r with
  | nil => rfl
  | cons e positions ih =>
    rw [protectAll, Trace.run_cons]
    exact (ih _).trans ((protectPosition_spec r e).2.2.2 id)

end OrderManager

/-! ### The order map at the end -/

/-- Step 4 of `reconcile`. -/
def afterStep4 (env : ReconcileEnv) (account : AccountSnapshot) (m : OrderManager)
    (report : ReconciliationReport) : Reconciled :=
  protectAll env m { manager := m, report } account.openPositions.entries

theorem manager_protectAndClean (env : ReconcileEnv) (account : AccountSnapshot) (m : OrderManager)
    (report : ReconciliationReport) :
    (protectAndClean env account m report).manager = (afterStep4 env account m report).manager := rfl

theorem report_protectAndClean (env : ReconcileEnv) (account : AccountSnapshot) (m : OrderManager)
    (report : ReconciliationReport) :
    (protectAndClean env account m report).report =
      { (afterStep4 env account m report).report with
        blockedSymbols := (afterStep4 env account m report).manager.blockedSymbols.keys } := rfl

theorem requests_protectAndClean (env : ReconcileEnv) (account : AccountSnapshot) (m : OrderManager)
    (report : ReconciliationReport) :
    (protectAndClean env account m report).requests = (afterStep4 env account m report).requests ++
      (afterStep4 env account m report).manager.orphanCancels account.openPositions.keys := rfl

namespace ReconcileEnv

variable (env : ReconcileEnv) (m : OrderManager) (account : AccountSnapshot)

/-- In the view, some working record of the symbol has a stop price. -/
def Shielded (symbol : String) : Prop :=
  ∃ ref mo, env.view m ref = some mo ∧ mo.isWorking = true ∧ mo.stopPrice.isSome = true ∧
    mo.symbol = symbol

/-- The stop emitted for some position is written at `ref`. -/
def Replaced (ref : String) : Prop :=
  ∃ symbol p, (symbol, p) ∈ account.openPositions.entries ∧ ¬ env.Shielded m symbol ∧
    ((env.emission symbol p).record (env.emitAt symbol)).isSome = true ∧ ref = env.stopRef symbol

variable {env m account} {m' : OrderManager} {report : ReconciliationReport}

theorem isProtected_iff (hview : ∀ ref, m'.orders.get? ref = env.view m ref) (symbol : String) :
    m'.isProtected symbol = true ↔ env.Shielded m symbol := by
  simp only [isProtected, workingOrders, List.any_eq_true, List.mem_filter, Bool.and_eq_true,
    decide_eq_true_eq, OrderBook.mem_values, Shielded, ← hview]
  constructor
  · rintro ⟨mo, ⟨hget, hworking⟩, hstop, hsymbol⟩
    exact ⟨_, mo, hget, hworking, hstop, hsymbol⟩
  · rintro ⟨ref, mo, hget, hworking, hstop, hsymbol⟩
    have href := OrderBook.orderRef_of_get? hget
    exact ⟨mo, ⟨by rw [href]; exact hget, hworking⟩, hstop, hsymbol⟩

theorem attempt_eq (hview : ∀ ref, m'.orders.get? ref = env.view m ref) {symbol : String}
    (hopen : ¬ env.Shielded m symbol) (p : Position) :
    attempt env m' (symbol, p) = some (env.emission symbol p) := by
  rw [attempt, if_neg]
  exact fun h => hopen ((isProtected_iff hview symbol).mp h)

theorem attempt_eq_none (hview : ∀ ref, m'.orders.get? ref = env.view m ref) {symbol : String}
    (hshielded : env.Shielded m symbol) (p : Position) : attempt env m' (symbol, p) = none :=
  if_pos ((isProtected_iff hview symbol).mpr hshielded)

theorem fails_iff (hview : ∀ ref, m'.orders.get? ref = env.view m ref) (symbol : String) (p : Position) :
    fails env m' (symbol, p) = true ↔
      ¬ env.Shielded m symbol ∧ (env.emission symbol p).failed = true := by
  by_cases hshielded : env.Shielded m symbol
  · simp [fails, attempt_eq_none hview hshielded, hshielded]
  · simp [fails, attempt_eq hview hshielded, hshielded]

theorem leaves_iff (hview : ∀ ref, m'.orders.get? ref = env.view m ref) (symbol : String) (p : Position)
    (mo : ManagedOrder) :
    leaves env m' (symbol, p) = some mo ↔
      ¬ env.Shielded m symbol ∧ (env.emission symbol p).record (env.emitAt symbol) = some mo := by
  by_cases hshielded : env.Shielded m symbol
  · simp [leaves, attempt_eq_none hview hshielded, hshielded]
  · simp [leaves, attempt_eq hview hshielded, hshielded]

theorem get?_of_not_replaced (hview : ∀ ref, m'.orders.get? ref = env.view m ref) {ref : String}
    (h : ¬ env.Replaced m account ref) :
    (protectAndClean env account m' report).manager.orders.get? ref = env.view m ref := by
  rw [← hview, manager_protectAndClean, afterStep4]
  refine get?_protectAll_idle fun e hmem href => ?_
  by_contra hne
  obtain ⟨mo, hmo⟩ := Option.ne_none_iff_exists'.mp hne
  obtain ⟨hopen, hrecord⟩ := (leaves_iff hview e.1 e.2 mo).mp hmo
  exact h ⟨e.1, e.2, hmem, hopen, by rw [hrecord]; rfl, href.symm⟩

theorem get?_of_emitted (hview : ∀ ref, m'.orders.get? ref = env.view m ref) {symbol : String}
    {p : Position} {mo : ManagedOrder} (hmem : (symbol, p) ∈ account.openPositions.entries)
    (hopen : ¬ env.Shielded m symbol)
    (hrecord : (env.emission symbol p).record (env.emitAt symbol) = some mo) :
    (protectAndClean env account m' report).manager.orders.get? (env.stopRef symbol) = some mo := by
  have hleaves := (leaves_iff hview symbol p mo).mpr ⟨hopen, hrecord⟩
  rw [manager_protectAndClean, afterStep4]
  refine @get?_protectAll_settled env m' _ _ (symbol, p) mo hmem ?_ hleaves
  rintro ⟨symbol', p'⟩ hmem' href
  obtain rfl : symbol' = symbol := stopRef_inj href
  rw [account.openPositions.entries_unique hmem' hmem]

theorem mem_unresolved_iff (hview : ∀ ref, m'.orders.get? ref = env.view m ref)
    (hreport : report.unresolved = []) (symbol : String) :
    unresolvedText symbol ∈ (protectAndClean env account m' report).report.unresolved ↔
      ∃ p, (symbol, p) ∈ account.openPositions.entries ∧ ¬ env.Shielded m symbol ∧
        (env.emission symbol p).failed = true := by
  rw [report_protectAndClean, afterStep4]
  refine (mem_unresolved_protectAll _ _ _).trans ?_
  rw [hreport]
  constructor
  · rintro (hnil | ⟨⟨symbol', p⟩, hmem, hfails, htext⟩)
    · cases hnil
    · obtain rfl : symbol = symbol' := (String.append_left_inj _).mp htext
      exact ⟨p, hmem, (fails_iff hview _ p).mp hfails⟩
  · rintro ⟨p, hmem, hfails⟩
    exact Or.inr ⟨(symbol, p), hmem, (fails_iff hview _ p).mpr hfails, rfl⟩

theorem mem_blocked_of_failed (hview : ∀ ref, m'.orders.get? ref = env.view m ref) {symbol : String}
    {p : Position} (hmem : (symbol, p) ∈ account.openPositions.entries)
    (hopen : ¬ env.Shielded m symbol) (hfailed : (env.emission symbol p).failed = true) :
    symbol ∈ (protectAndClean env account m' report).report.blockedSymbols := by
  rw [report_protectAndClean, afterStep4]
  refine (mem_blocked_protectAll _ _ _).mpr (Or.inr ⟨(symbol, p), hmem, ?_, rfl⟩)
  exact (fails_iff hview symbol p).mpr ⟨hopen, hfailed⟩

end ReconcileEnv

/-! ### Held positions -/

/-- The record is a working stop that closes the whole position. -/
def Guards (mo : ManagedOrder) (symbol : String) (p : Position) : Prop :=
  mo.symbol = symbol ∧ mo.isWorking = true ∧ hasKind "STOP" mo.orderRef = true ∧
    mo.action = exitSide p ∧ |p.quantity| ≤ mo.quantity

instance (mo : ManagedOrder) (symbol : String) (p : Position) : Decidable (Guards mo symbol p) :=
  inferInstanceAs (Decidable (_ ∧ _))

theorem guards_emitted_iff {env : ReconcileEnv} {symbol : String} {p : Position} {mo : ManagedOrder}
    (h : (env.emission symbol p).record (env.emitAt symbol) = some mo) :
    mo.symbol = symbol ∧ (Guards mo symbol p ↔ (env.emission symbol p).refused = false) := by
  unfold ReconcileEnv.emission at h ⊢
  cases hreference : referencePrice (env.quote symbol) p with
  | none =>
    rw [hreference] at h
    cases h
  | some reference =>
    rw [hreference] at h
    dsimp only at h ⊢
    cases hreply : placeSingle env.account (protectiveSpec (env.emitAt symbol) symbol p reference)
        (env.placeOrder (protectiveSpec (env.emitAt symbol) symbol p reference)) with
    | error e =>
      rw [hreply] at h
      cases h
      refine ⟨rfl, fun _ => rfl, fun _ => ?_⟩
      exact ⟨rfl, rfl, hasKind_makeRef _ _ _ _, rfl, le_rfl⟩
    | ok status =>
      rw [hreply] at h
      cases h
      have hrefused : (Emission.replied (protectiveSpec (env.emitAt symbol) symbol p reference)
          status).refused = false ↔ (nextState .pending status).isWorking = true := by
        simp [Emission.refused]
      refine ⟨rfl, fun hguards => hrefused.mpr hguards.2.1, fun h => ?_⟩
      exact ⟨rfl, hrefused.mp h, hasKind_makeRef _ _ _ _, rfl, le_rfl⟩

/-- At the end of `reconcile` the position is covered by a working stop, or it is reported and its symbol
blocked. -/
def PositionProtected (r : Reconciled) (symbol : String) (p : Position) : Prop :=
  (∃ ref mo, r.manager.orders.get? ref = some mo ∧ Guards mo symbol p) ∨
    (unresolvedText symbol ∈ r.report.unresolved ∧ symbol ∈ r.report.blockedSymbols)

/-- The condition for it: in the view a stop of the position works, at a reference step 4 does not write;
or step 4 does attempt a stop, and the broker does not answer with an order that does not work. -/
def Coverable (env : ReconcileEnv) (m : OrderManager) (account : AccountSnapshot) (symbol : String)
    (p : Position) : Prop :=
  (∃ ref mo, env.view m ref = some mo ∧ Guards mo symbol p ∧ ¬ env.Replaced m account ref) ∨
    (¬ env.Shielded m symbol ∧ (env.emission symbol p).refused = false)

theorem failed_or_record (e : Emission) (now : Now) : e.failed = true ∨ (e.record now).isSome = true := by
  cases e with
  | noReference => exact Or.inl rfl
  | raised spec => exact Or.inl rfl
  | replied spec status => exact Or.inr rfl

/-- **Which held positions reconciliation protects.** -/
theorem position_protected_iff (env : ReconcileEnv) (m : OrderManager) (account : AccountSnapshot)
    (h : (reconcile env m account).raised = none) {symbol : String} {p : Position}
    (hmem : (symbol, p) ∈ account.openPositions.entries) :
    PositionProtected (reconcile env m account) symbol p ↔ Coverable env m account symbol p := by
  obtain ⟨m', report, hfinal, hreport, hview⟩ :=
    reconcile_returns ((reconcile_returns_iff env m account).mp h)
  rw [hfinal, PositionProtected, ReconcileEnv.mem_unresolved_iff hview hreport]
  constructor
  · rintro (⟨ref, mo, hget, hguards⟩ | ⟨⟨p', hmem', hopen, hfailed⟩, _⟩)
    · by_cases hreplaced : env.Replaced m account ref
      · obtain ⟨symbol', p', hmem', hopen, hrecord, rfl⟩ := hreplaced
        obtain ⟨mo', hmo'⟩ := Option.isSome_iff_exists.mp hrecord
        rw [ReconcileEnv.get?_of_emitted hview hmem' hopen hmo'] at hget
        obtain rfl := Option.some.inj hget
        obtain ⟨hsymbol, hiff⟩ := guards_emitted_iff hmo'
        obtain rfl : symbol' = symbol := hsymbol.symm.trans hguards.1
        obtain rfl := account.openPositions.entries_unique hmem hmem'
        exact Or.inr ⟨hopen, hiff.mp hguards⟩
      · rw [ReconcileEnv.get?_of_not_replaced hview hreplaced] at hget
        exact Or.inl ⟨ref, mo, hget, hguards, hreplaced⟩
    · obtain rfl := account.openPositions.entries_unique hmem hmem'
      refine Or.inr ⟨hopen, ?_⟩
      cases hemission : env.emission symbol p with
      | noReference => rfl
      | raised spec => rfl
      | replied spec status =>
        rw [hemission] at hfailed
        cases hfailed
  · rintro (⟨ref, mo, hget, hguards, hreplaced⟩ | ⟨hopen, hrefused⟩)
    · refine Or.inl ⟨ref, mo, ?_, hguards⟩
      rw [ReconcileEnv.get?_of_not_replaced hview hreplaced, hget]
    · rcases failed_or_record (env.emission symbol p) (env.emitAt symbol) with hfailed | hrecord
      · exact Or.inr ⟨⟨p, hmem, hopen, hfailed⟩,
          ReconcileEnv.mem_blocked_of_failed hview hmem hopen hfailed⟩
      · obtain ⟨mo, hmo⟩ := Option.isSome_iff_exists.mp hrecord
        exact Or.inl ⟨_, mo, ReconcileEnv.get?_of_emitted hview hmem hopen hmo,
          (guards_emitted_iff hmo).2.mpr hrefused⟩

/-! #### A run on a half-filled entry -/

/-- The broker's word on one of the orders below. -/
def statusOf (ref : String) (orderId : ℤ) (filled remaining : ℚ) : BrokerOrderStatus :=
  { orderRef := ref, orderId, permId := none, status := "Submitted", filled, remaining
    avgFillPrice := none }

/-- A bracket for 100 AAPL of which the process has the records. -/
def aaplBracket : ManagedOrder × ManagedOrder × ManagedOrder :=
  bracketRecords
    { proposal := { symbol := "AAPL", action := .buy, conviction := 1, horizonMinutes := 60 }
      symbol := "AAPL", action := .buy, quantity := 100, entryPrice := 100, stopPrice := 97
      targetPrice := 106, riskAmount := 300, notional := 10000 }
    "c1" (.sample 0 0)

def aaplManager : OrderManager :=
  [aaplBracket.1, aaplBracket.2.1, aaplBracket.2.2].foldl put {}

/-- The broker reports the orders `opens` and answers every placement. -/
def aaplEnv (opens : List BrokerOrderStatus) : ReconcileEnv where
  account := "DU1"
  start := .sample 60 60
  openOrders := .ok opens
  completedOrders := .ok []
  executions := .ok []
  quote := fun _ => none
  emitAt := fun _ => .sample 60 60
  placeOrder := fun _ => .ok { orderId := 50, status := "Submitted" }

def aaplPosition : Position := { symbol := "AAPL", quantity := 50, avgCost := 100 }

def aaplAccount (quantity : ℚ) : AccountSnapshot where
  accountId := "DU1"
  equity := 100000
  cash := 95000
  buyingPower := 95000
  positions := Dict.empty.set "AAPL" { aaplPosition with quantity }
  asOf := 60

/-- The entry is known at the broker and half filled. -/
def halfFilled : ReconcileEnv := aaplEnv [statusOf aaplBracket.1.orderRef 7 50 50]

theorem position_protected_iff_halfFilled :
    PositionProtected (reconcile halfFilled aaplManager (aaplAccount 50)) "AAPL" aaplPosition ↔
      Coverable halfFilled aaplManager (aaplAccount 50) "AAPL" aaplPosition :=
  position_protected_iff halfFilled aaplManager (aaplAccount 50) (by decide +kernel)
    (by decide +kernel)

/-- The broker never saw the stop and the target, and has half filled the entry. The entry's own record
carries a stop price, so the 50 shares count as protected: no stop is placed and nothing is reported. -/
theorem halfFilled_unprotected :
    (reconcile halfFilled aaplManager (aaplAccount 50)).raised = none ∧
      ("AAPL", aaplPosition) ∈ (aaplAccount 50).openPositions.entries ∧
      ¬ PositionProtected (reconcile halfFilled aaplManager (aaplAccount 50)) "AAPL" aaplPosition := by
  refine ⟨by decide +kernel, by decide +kernel, ?_⟩
  have hbook : ∀ mo ∈ (reconcile halfFilled aaplManager (aaplAccount 50)).manager.orders.values,
      ¬ Guards mo "AAPL" aaplPosition := by decide +kernel
  rintro (⟨ref, mo, hget, hguards⟩ | ⟨hlisted, _⟩)
  · have href := OrderBook.orderRef_of_get? hget
    exact hbook mo (OrderBook.mem_values.mpr (by rw [href]; exact hget)) hguards
  · exact absurd hlisted (by decide +kernel)

/-! ### Resting entries -/

/-- In the view, `leg` is a leg of a working entry. -/
def LiveLeg (env : ReconcileEnv) (m : OrderManager) (leg : ManagedOrder) : Prop :=
  ∃ entryRef entry legRef, env.view m entryRef = some entry ∧ entry.isWorking = true ∧
    entry.parentRef = none ∧ env.view m legRef = some leg ∧ leg.parentRef = some entryRef

/-- `reconcile` sends no cancel for a leg of a working entry. -/
def SparesLegs (env : ReconcileEnv) (m : OrderManager) (account : AccountSnapshot) : Prop :=
  ∀ leg id, LiveLeg env m leg → leg.ibOrderId = some id →
    .cancelOrder id ∉ (reconcile env m account).requests

/-- A working leg record with this order id is for a symbol without a position. -/
def Orphaned (env : ReconcileEnv) (m : OrderManager) (account : AccountSnapshot) (id : ℤ) : Prop :=
  id ≠ 0 ∧ ∃ ref mo, env.view m ref = some mo ∧ ¬ env.Replaced m account ref ∧
    mo.isWorking = true ∧ mo.parentRef.isSome = true ∧ mo.ibOrderId = some id ∧
    mo.symbol ∉ account.openPositions.keys

namespace OrderManager

theorem mem_cancelTargets {m : OrderManager} {p : ManagedOrder → Bool} {id : ℤ} :
    id ∈ m.cancelTargets p ↔ id ≠ 0 ∧ ∃ ref mo, m.orders.get? ref = some mo ∧ mo.isWorking = true ∧
      p mo = true ∧ mo.ibOrderId = some id := by
  simp only [cancelTargets, List.mem_filterMap, List.mem_filter, OrderBook.mem_values,
    Bool.and_eq_true, truthy, Option.filter_eq_some_iff, decide_eq_true_eq]
  constructor
  · rintro ⟨mo, ⟨hget, hworking, hp⟩, hid, hne⟩
    exact ⟨hne, _, mo, hget, hworking, hp, hid⟩
  · rintro ⟨hne, ref, mo, hget, hworking, hp, hid⟩
    have href := OrderBook.orderRef_of_get? hget
    exact ⟨mo, ⟨by rw [href]; exact hget, hworking, hp⟩, hid, hne⟩

end OrderManager

/-- **Which cancels a `reconcile` that returns has sent.** -/
theorem cancel_mem_reconcile {env : ReconcileEnv} {m : OrderManager} {account : AccountSnapshot}
    (h : env.Answers m) (id : ℤ) :
    .cancelOrder id ∈ (reconcile env m account).requests ↔ Orphaned env m account id := by
  obtain ⟨m', report, hfinal, _, hview⟩ := reconcile_returns h
  have hnone : .cancelOrder id ∉ (afterStep4 env account m' report).requests := by
    rw [afterStep4, cancel_mem_protectAll]
    exact List.not_mem_nil
  rw [hfinal, requests_protectAndClean, List.mem_append, orphanCancels, or_iff_right hnone,
    List.mem_map_of_injective fun a b hab => BrokerRequest.cancelOrder.inj hab,
    mem_cancelTargets, ← manager_protectAndClean]
  refine and_congr_right fun _ => exists_congr fun ref => exists_congr fun mo => ?_
  constructor
  · rintro ⟨hget, hworking, hleg, hid⟩
    rw [Bool.and_eq_true] at hleg
    have hsymbol : mo.symbol ∉ account.openPositions.keys := by simpa using hleg.2
    by_cases hreplaced : env.Replaced m account ref
    · obtain ⟨symbol, p, hmem, hopen, hrecord, rfl⟩ := hreplaced
      obtain ⟨mo', hmo'⟩ := Option.isSome_iff_exists.mp hrecord
      rw [ReconcileEnv.get?_of_emitted hview hmem hopen hmo'] at hget
      obtain rfl := Option.some.inj hget
      rw [(guards_emitted_iff hmo').1] at hsymbol
      exact absurd (Dict.mem_keys.mpr ⟨p, hmem⟩) hsymbol
    · rw [ReconcileEnv.get?_of_not_replaced hview hreplaced] at hget
      exact ⟨hget, hreplaced, hworking, hleg.1, hid, hsymbol⟩
  · rintro ⟨hget, hreplaced, hworking, hleg, hid, hsymbol⟩
    refine ⟨?_, hworking, ?_, hid⟩
    · rw [ReconcileEnv.get?_of_not_replaced hview hreplaced, hget]
    · simpa using ⟨hleg, hsymbol⟩

/-- **When reconciliation leaves the legs of working entries alone**: when it raises on the way, which it
does before it has sent anything, or when no such leg has the order id of an orphaned leg. -/
theorem spares_legs_iff (env : ReconcileEnv) (m : OrderManager) (account : AccountSnapshot) :
    SparesLegs env m account ↔ (env.Answers m →
      ∀ leg id, LiveLeg env m leg → leg.ibOrderId = some id → ¬ Orphaned env m account id) := by
  by_cases h : env.Answers m
  · simp only [SparesLegs, cancel_mem_reconcile h, h, forall_const]
  · rw [SparesLegs, requests_of_not_answers h]
    simp [h]

/-- The whole bracket rests at the broker, unfilled. -/
def resting : ReconcileEnv :=
  aaplEnv [statusOf aaplBracket.1.orderRef 7 0 100, statusOf aaplBracket.2.1.orderRef 8 0 100,
    statusOf aaplBracket.2.2.orderRef 9 0 100]

/-- The account is flat, so a reconnect cancels the stop and the target and leaves the entry. -/
theorem resting_entry_stripped : ¬ SparesLegs resting aaplManager (aaplAccount 0) := by
  intro hspares
  let entry := aaplBracket.1.absorb (statusOf aaplBracket.1.orderRef 7 0 100) 60
  let stop := aaplBracket.2.1.absorb (statusOf aaplBracket.2.1.orderRef 8 0 100) 60
  have hentry : resting.view aaplManager aaplBracket.1.orderRef = some entry := by decide +kernel
  have hstop : resting.view aaplManager aaplBracket.2.1.orderRef = some stop := by decide +kernel
  have hlive : LiveLeg resting aaplManager stop :=
    ⟨_, entry, _, hentry, by decide +kernel, rfl, hstop, rfl⟩
  exact hspares stop 8 hlive rfl (by decide +kernel)

end AiTrader
