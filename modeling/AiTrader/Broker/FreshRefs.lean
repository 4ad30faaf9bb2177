import AiTrader.Broker.Requests
import AiTrader.Broker.WriteAhead

/-!
# References in use

Four call sites derive references for new orders, and `place_bracket` alone looks whether its reference is in
use. An exit and a protective stop carry the second in which they are made, so two of one symbol in one second
share a record.

Which references an order map has (`Knows`) is told operation by operation; `RefRun` keeps beside the order
manager what they come from: brackets, exits, protective stops, and the broker's word. The invariant says that
the references are those (`Inv`), and `keeps_records_iff` reads off which new order finds its reference free.

For each operation of the order manager there is a lemma about `Knows`: step 1 of a reconciliation makes the
references of the open orders of ours known, step 2 rewrites records and adds none, step 4 adds those of the stops it
attempts where there is a reference price (`knows_reconcile`). References of different kinds differ, and within a kind
they determine their fields as long as these hold no colon (`makeRef_inj`); so whether a new reference is in use is a
question about day, cycle, symbol or second, and the history answers it.
-/

namespace AiTrader

open Lib OrderManager

/-- The reference of an exit. -/
def exitRef (now : Now) (symbol : String) : String :=
  makeRef ("exit-" ++ epochSeconds now) symbol "EXIT" now.date

/-- The two clocks show one second of one day. -/
def SameSecond (now now' : Now) : Prop := epochSeconds now = epochSeconds now' ∧ now.date = now'.date

instance (now now' : Now) : Decidable (SameSecond now now') := inferInstanceAs (Decidable (_ ∧ _))

theorem makeRef_seconds_iff {tag kind : String} (htag : ':' ∉ tag.toList) (hne : tag ≠ "") {now now' : Now}
    {symbol symbol' : String} :
    makeRef (tag ++ epochSeconds now) symbol kind now.date =
        makeRef (tag ++ epochSeconds now') symbol' kind now'.date ↔
      symbol = symbol' ∧ SameSecond now now' := by
  have hcycle : ∀ now, ':' ∉ (tag ++ epochSeconds now).toList := by
    intro now hmem
    rw [String.toList_append, List.mem_append] at hmem
    exact hmem.elim htag (colon_not_mem_epochSeconds now)
  have hfull : ∀ now, tag ++ epochSeconds now ≠ "" := by
    intro now hempty
    have hlist := congrArg String.toList hempty
    rw [String.toList_append, String.toList_empty, List.append_eq_nil_iff] at hlist
    exact hne (String.toList_inj.mp hlist.1)
  constructor
  · intro h
    obtain ⟨hdate, hseconds, hsymbol⟩ := makeRef_inj now.date_no_colon now'.date_no_colon (hcycle now)
      (hcycle now') h
    rw [if_neg (hfull now), if_neg (hfull now')] at hseconds
    exact ⟨hsymbol, (String.append_right_inj tag).mp hseconds, hdate⟩
  · rintro ⟨rfl, hseconds, hdate⟩
    rw [hseconds, hdate]

theorem exitRef_eq_iff {now now' : Now} {symbol symbol' : String} :
    exitRef now symbol = exitRef now' symbol' ↔ symbol = symbol' ∧ SameSecond now now' :=
  makeRef_seconds_iff (by decide) (by decide)

theorem protectiveRef_eq_iff {now now' : Now} {symbol symbol' : String} :
    protectiveRef now symbol = protectiveRef now' symbol' ↔ symbol = symbol' ∧ SameSecond now now' :=
  makeRef_seconds_iff (by decide) (by decide)

namespace OrderManager

/-! ### The references of an order map -/

/-- There is a record at the reference. -/
def Knows (m : OrderManager) (ref : String) : Prop := (m.orders.get? ref).isSome = true

instance (m : OrderManager) (ref : String) : Decidable (m.Knows ref) := inferInstanceAs (Decidable (_ = _))

/-- Every record is at a reference of ours. -/
def Ours (m : OrderManager) : Prop := ∀ ref, m.Knows ref → isOurs ref = true

theorem knows_write (m : OrderManager) (mo : ManagedOrder) (ref : String) :
    (m.write mo).Knows ref ↔ ref = mo.orderRef ∨ m.Knows ref := by
  have hget : (m.write mo).orders.get? ref = if ref = mo.orderRef then some mo else m.orders.get? ref :=
    OrderBook.get?_put _ _ _
  rw [Knows, hget]
  by_cases href : ref = mo.orderRef
  · simp [href]
  · rw [if_neg href, or_iff_right href, Knows]

theorem knows_foldl_write (rows : List ManagedOrder) (m : OrderManager) (ref : String) :
    (rows.foldl write m).Knows ref ↔ ref ∈ rows.map ManagedOrder.orderRef ∨ m.Knows ref := by
  induction rows generalizing m with
  | nil => simp
  | cons row rows ih =>
    rw [List.foldl_cons, ih, knows_write, List.map_cons, List.mem_cons]
    tauto

theorem knows_applyStatus (m : OrderManager) (status : BrokerOrderStatus) (now : Now) (ref : String) :
    (m.applyStatus status now).Knows ref ↔ m.Knows ref ∨ (ref = status.orderRef ∧ isOurs ref = true) := by
  rw [Knows, get?_applyStatus]
  by_cases href : ref = status.orderRef
  · subst href
    rw [if_pos rfl, Knows]
    cases m.orders.get? status.orderRef with
    | some mo => simp [statusOn]
    | none =>
      unfold statusOn
      by_cases hours : isOurs status.orderRef = true
      · simp [hours]
      · simp [hours]
  · rw [if_neg href, Knows]
    simp [href]

theorem knows_foldl_applyStatus (statuses : List BrokerOrderStatus) (m : OrderManager) (now : Now)
    (ref : String) :
    (statuses.foldl (fun m status => m.applyStatus status now) m).Knows ref ↔
      m.Knows ref ∨ (ref ∈ statuses.map BrokerOrderStatus.orderRef ∧ isOurs ref = true) := by
  induction statuses generalizing m with
  | nil => simp
  | cons status statuses ih =>
    rw [List.foldl_cons, ih, knows_applyStatus, List.map_cons, List.mem_cons]
    tauto

theorem knows_absorbAll (now : Now) (opens completed : List BrokerOrderStatus) (m : OrderManager)
    (ref : String) :
    (absorbAll now opens completed m).1.Knows ref ↔
      m.Knows ref ∨ (ref ∈ opens.map BrokerOrderStatus.orderRef ∧ isOurs ref = true) := by
  have hopens : ∀ (opens : List BrokerOrderStatus) (r : OrderManager × ReconciliationReport),
      (opens.foldl (absorbOpen now) r).1.Knows ref ↔
        r.1.Knows ref ∨ (ref ∈ opens.map BrokerOrderStatus.orderRef ∧ isOurs ref = true) := by
    intro opens
    induction opens with
    | nil => simp
    | cons status opens ih =>
      intro r
      have hone : (absorbOpen now r status).1.Knows ref ↔
          r.1.Knows ref ∨ (ref = status.orderRef ∧ isOurs ref = true) := by
        unfold absorbOpen
        by_cases hours : isOurs status.orderRef = true
        · rw [if_pos hours]
          exact knows_applyStatus r.1 status now ref
        · rw [if_neg hours]
          refine (or_iff_left ?_).symm
          rintro ⟨rfl, h⟩
          exact hours h
      rw [List.foldl_cons, ih, hone, List.map_cons, List.mem_cons]
      tauto
  have hcompleted : ∀ (completed : List BrokerOrderStatus) (m : OrderManager),
      (completed.foldl (absorbCompleted now) m).Knows ref ↔ m.Knows ref := by
    intro completed
    induction completed with
    | nil => exact fun m => Iff.rfl
    | cons status completed ih =>
      intro m
      refine (ih _).trans ?_
      unfold absorbCompleted
      by_cases hknown : isOurs status.orderRef && (m.orders.get? status.orderRef).isSome
      · rw [if_pos hknown, knows_applyStatus]
        refine or_iff_left_of_imp ?_
        rintro ⟨rfl, -⟩
        exact (Bool.and_eq_true_iff.mp hknown).2
      · rw [if_neg hknown]
  exact (hcompleted completed _).trans (hopens opens (m, {}))

theorem knows_resolveMaybeSent {known : List String} {now : Now} {records : List ManagedOrder}
    {r : OrderManager × ReconciliationReport} (hrecords : ∀ mo ∈ records, r.1.Knows mo.orderRef) (ref : String) :
    (∀ r', resolveMaybeSent known now records r = .ok r' → (r'.1.Knows ref ↔ r.1.Knows ref)) ∧
      ∀ r', resolveMaybeSent known now records r = .error r' → (r'.1.Knows ref ↔ r.1.Knows ref) := by
  have hput : ∀ mo ∈ records, ∀ m m' : OrderManager, (∀ ref, m.Knows ref ↔ r.1.Knows ref) →
      m'.orders = m.orders.put (neverSent mo now) → ∀ ref, m'.Knows ref ↔ r.1.Knows ref := by
    intro mo hmo m m' hsame horders ref
    rw [← hsame ref, Knows, horders, OrderBook.get?_put, orderRef_neverSent, Knows]
    split_ifs with href
    · rw [href]
      exact iff_of_true rfl ((hsame mo.orderRef).mpr (hrecords mo hmo))
    · exact Iff.rfl
  have hkeeps := @resolveMaybeSent_keeps known now (fun m => ∀ ref, m.Knows ref ↔ r.1.Knows ref) records
    (fun mo hmo r₁ hsame => by
      obtain ⟨hok, herror⟩ := orders_resolveOne known now r₁ mo
      refine ⟨fun r' hr => ?_, fun r' hr => hput mo hmo r₁.1 r'.1 hsame (herror r' hr)⟩
      rcases hok r' hr with horders | horders
      · intro ref
        rw [Knows, horders]
        exact hsame ref
      · exact hput mo hmo r₁.1 r'.1 hsame horders) r fun _ => Iff.rfl
  exact ⟨fun r' h => hkeeps.1 r' h ref, fun r' h => hkeeps.2 r' h ref⟩

end OrderManager

namespace ReconcileEnv

/-- The references step 1 takes over: those of the open orders of ours, when the broker lists its orders. -/
def adopts (env : ReconcileEnv) : List String :=
  match env.openOrders, env.completedOrders with
  | .ok opens, .ok _ => (opens.map BrokerOrderStatus.orderRef).filter isOurs
  | _, _ => []

/-- The protective stops a pass has sent: the symbols, and the clocks their references are made from. -/
def placements (env : ReconcileEnv) (r : Reconciled) : List (String × Now) :=
  r.requests.filterMap fun request => match request with
    | .placeSingle spec => some (spec.symbol, env.emitAt spec.symbol)
    | _ => none

variable {env : ReconcileEnv} {m : OrderManager} {account : AccountSnapshot}

theorem mem_placements (t : String × Now) :
    t ∈ env.placements (reconcile env m account) ↔ env.Answers m ∧ t.2 = env.emitAt t.1 ∧
      ∃ p, (t.1, p) ∈ account.openPositions.entries ∧ ¬ env.Shielded m t.1 ∧
        (referencePrice (env.quote t.1) p).isSome = true := by
  rw [placements, List.mem_filterMap]
  by_cases h : env.Answers m
  · simp only [h, true_and]
    constructor
    · rintro ⟨request, hmem, hrequest⟩
      rcases (mem_requests_iff h request).mp hmem with ⟨symbol, p, hheld, hopen, hstop⟩ | ⟨id, rfl, -⟩
      · obtain ⟨reference, hreference, rfl⟩ := mem_stopRequests.mp hstop
        obtain rfl := Option.some.inj hrequest
        exact ⟨rfl, p, hheld, hopen, by rw [protectiveSpec]; simp [hreference]⟩
      · cases hrequest
    · rintro ⟨hclock, p, hheld, hopen, hreference⟩
      obtain ⟨reference, hreference⟩ := Option.isSome_iff_exists.mp hreference
      refine ⟨_, (mem_requests_iff h _).mpr (Or.inl ⟨t.1, p, hheld, hopen,
        mem_stopRequests.mpr ⟨reference, hreference, rfl⟩⟩), ?_⟩
      show some (t.1, env.emitAt t.1) = some t
      rw [← hclock]
  · simp [h, requests_of_not_answers h]

theorem replaced_iff (ref : String) :
    env.Replaced m account ref ↔ ∃ symbol p, (symbol, p) ∈ account.openPositions.entries ∧
      ¬ env.Shielded m symbol ∧ (referencePrice (env.quote symbol) p).isSome = true ∧ ref = env.stopRef symbol := by
  refine exists_congr fun symbol => exists_congr fun p => and_congr_right fun _ => and_congr_right fun _ =>
    and_congr_left fun _ => ?_
  unfold emission
  cases referencePrice (env.quote symbol) p with
  | none => simp [Emission.record]
  | some reference =>
    dsimp only
    split <;> simp [Emission.record]

theorem isSome_view_iff (h : env.Answers m) (ref : String) :
    (env.view m ref).isSome = true ↔ m.Knows ref ∨ ref ∈ env.adopts := by
  obtain ⟨opens, hopens⟩ := h.opens
  obtain ⟨completed, hcompleted⟩ := h.completed
  have hget := get?_absorbAll env (m.unblockExpired env.start) ref
  have hadopts : env.adopts = (opens.map BrokerOrderStatus.orderRef).filter isOurs := by
    rw [adopts, hopens, hcompleted]
  have habsorbed := knows_absorbAll env.start opens completed (m.unblockExpired env.start) ref
  rw [opens_eq hopens, completed_eq hcompleted] at hget
  rw [Knows, hget] at habsorbed
  rw [hadopts, List.mem_filter, view, Option.isSome_map]
  exact habsorbed

/-- **The references after a `reconcile`**: those there were, the adopted ones and those of the stops sent. -/
theorem knows_reconcile (env : ReconcileEnv) (m : OrderManager) (account : AccountSnapshot) (ref : String) :
    (reconcile env m account).manager.Knows ref ↔ m.Knows ref ∨ ref ∈ env.adopts ∨
      ∃ t ∈ env.placements (reconcile env m account), ref = protectiveRef t.2 t.1 := by
  have habsorbed : ∀ opens completed, env.openOrders = .ok opens → env.completedOrders = .ok completed →
      ((absorbAll env.start opens completed (m.unblockExpired env.start)).1.Knows ref ↔
        m.Knows ref ∨ ref ∈ env.adopts) := by
    intro opens completed hopens hcompleted
    rw [knows_absorbAll, adopts, hopens, hcompleted]
    dsimp only
    rw [List.mem_filter]
    exact Iff.rfl
  by_cases h : env.Answers m
  · obtain ⟨m', report, hfinal, -, hview⟩ := @reconcile_returns env m account h
    have hsent : (∃ t ∈ env.placements (reconcile env m account), ref = protectiveRef t.2 t.1) ↔
        env.Replaced m account ref := by
      rw [replaced_iff]
      constructor
      · rintro ⟨t, hmem, rfl⟩
        obtain ⟨-, hclock, p, hheld, hopen, hreference⟩ := (mem_placements t).mp hmem
        exact ⟨t.1, p, hheld, hopen, hreference, by rw [hclock, stopRef]⟩
      · rintro ⟨symbol, p, hheld, hopen, hreference, rfl⟩
        exact ⟨(symbol, env.emitAt symbol), (mem_placements _).mpr ⟨h, rfl, p, hheld, hopen, hreference⟩, rfl⟩
    rw [hsent, ← or_assoc, ← isSome_view_iff h]
    by_cases hreplaced : env.Replaced m account ref
    · refine iff_of_true ?_ (Or.inr hreplaced)
      obtain ⟨symbol, p, hheld, hopen, hrecord, rfl⟩ := hreplaced
      obtain ⟨mo, hmo⟩ := Option.isSome_iff_exists.mp hrecord
      rw [Knows, hfinal, get?_of_emitted hview hheld hopen hmo]
      rfl
    · rw [or_iff_left hreplaced, Knows, hfinal, get?_of_not_replaced hview hreplaced]
  · have hnone : ¬ ∃ t ∈ env.placements (reconcile env m account), ref = protectiveRef t.2 t.1 := by
      rintro ⟨t, hmem, -⟩
      exact h ((mem_placements t).mp hmem).1
    rw [or_iff_left hnone]
    have hraised : (reconcile env m account).raised ≠ none := fun hreturns =>
      h ((reconcile_returns_iff env m account).mp hreturns)
    unfold reconcile at hraised ⊢
    dsimp only at hraised ⊢
    split at hraised <;> rename_i hqueries
    · simp [hqueries, adopts, Knows]
    · simp [hqueries, adopts, Knows]
    · rename_i opens completed hopens
      rw [← habsorbed opens completed hopens hqueries]
      have hvalues : ∀ mo ∈ (absorbAll env.start opens completed (m.unblockExpired env.start)).1.orders.values,
          (absorbAll env.start opens completed (m.unblockExpired env.start)).1.Knows mo.orderRef := by
        intro mo hmem
        rw [Knows, OrderBook.mem_values.mp hmem]
        rfl
      split at hraised <;> rename_i hresolved
      · exact (knows_resolveMaybeSent hvalues ref).2 _ hresolved
      · split at hraised
        · exact (knows_resolveMaybeSent hvalues ref).1 _ hresolved
        · exact absurd (raised_protectAndClean _ _ _ _) hraised

end ReconcileEnv

/-! ### A run of calls -/

/-- What references come from. -/
structure RefHistory where
  /-- Brackets written: cycle, symbol, clock. -/
  brackets : List (String × String × Now) := []
  exits : List (String × Now) := []
  stops : List (String × Now) := []
  /-- There from the start, or named by the broker. -/
  reported : List String := []

namespace RefHistory

def append (a b : RefHistory) : RefHistory where
  brackets := a.brackets ++ b.brackets
  exits := a.exits ++ b.exits
  stops := a.stops ++ b.stops
  reported := a.reported ++ b.reported

/-- The references of the brackets. -/
def Bracketed (h : RefHistory) (ref : String) : Prop :=
  ∃ b ∈ h.brackets, ∃ kind ∈ ["ENTRY", "STOP", "TARGET"], ref = makeRef b.1 b.2.1 kind b.2.2.date

/-- The references of the exits. -/
def Exited (h : RefHistory) (ref : String) : Prop := ∃ t ∈ h.exits, ref = exitRef t.2 t.1

/-- The references of the protective stops. -/
def Stopped (h : RefHistory) (ref : String) : Prop := ∃ t ∈ h.stops, ref = protectiveRef t.2 t.1

/-- The reference is that of something in the history. -/
def Has (h : RefHistory) (ref : String) : Prop :=
  ref ∈ h.reported ∨ h.Bracketed ref ∨ h.Exited ref ∨ h.Stopped ref

theorem has_append (a b : RefHistory) (ref : String) : (a.append b).Has ref ↔ a.Has ref ∨ b.Has ref := by
  have hbracketed : (a.append b).Bracketed ref ↔ a.Bracketed ref ∨ b.Bracketed ref := by
    simp only [Bracketed, append, List.mem_append, or_and_right, exists_or]
  have hexited : (a.append b).Exited ref ↔ a.Exited ref ∨ b.Exited ref := by
    simp only [Exited, append, List.mem_append, or_and_right, exists_or]
  have hstopped : (a.append b).Stopped ref ↔ a.Stopped ref ∨ b.Stopped ref := by
    simp only [Stopped, append, List.mem_append, or_and_right, exists_or]
  have hreported : ref ∈ (a.append b).reported ↔ ref ∈ a.reported ∨ ref ∈ b.reported := List.mem_append
  unfold Has
  rw [hbracketed, hexited, hstopped, hreported]
  have hexits := @or_or_or_comm (a.Exited ref) (b.Exited ref) (a.Stopped ref) (b.Stopped ref)
  exact (or_congr_right ((or_congr_right hexits).trans or_or_or_comm)).trans or_or_or_comm

end RefHistory

/-- The order manager, and what its references come from. -/
structure RefRun where
  manager : OrderManager
  history : RefHistory

namespace RefRun

inductive Event
  /-- `place_bracket` up to its call of the broker. -/
  | placed (order : SizedOrder) (cycleId : String) (now : Now)
  /-- The broker has answered, or raised; the rest of `place_bracket`. -/
  | answered (order : SizedOrder) (reply : Except String (List BrokerOrderStatus)) (now : Now)
  /-- `close_position` up to its call of the broker; `_flatten_all` is one of these for each position. -/
  | closed (symbol : String) (quantity : ℚ) (isLong : Bool) (reason : String) (quote : Option Quote) (now : Now)
  /-- A status, pushed by the broker or returned by `place_single`. -/
  | status (status : BrokerOrderStatus) (now : Now)
  | reconciled (env : ReconcileEnv) (account : AccountSnapshot)

/-- An order map found at the start, whatever its references come from. -/
def start (m : OrderManager) : RefRun where
  manager := m
  history := { reported := m.orders.values.map ManagedOrder.orderRef }

def advance (m : OrderManager) : Event → OrderManager
  | .placed order cycleId now => (m.placeBracketStart order cycleId now).1
  | .answered order reply now => (m.placeBracketFinish order reply now).1
  | .closed symbol quantity isLong reason quote now =>
    (m.closePositionStart symbol quantity isLong reason quote now).1
  | .status status now => m.applyStatus status now
  | .reconciled env account => (reconcile env m account).manager

/-- What an event adds to the history. -/
def adds (s : RefRun) : Event → RefHistory
  | .placed order cycleId now =>
    if s.manager.admits order cycleId now then { brackets := [(cycleId, order.symbol, now)] } else {}
  | .answered _ (.ok statuses) _ =>
    { reported := (statuses.map BrokerOrderStatus.orderRef).filter isOurs }
  | .answered _ (.error _) _ => {}
  | .closed symbol _ _ _ _ now => { exits := [(symbol, now)] }
  | .status status _ => { reported := [status.orderRef].filter isOurs }
  | .reconciled env account =>
    { reported := env.adopts, stops := env.placements (reconcile env s.manager account) }

def step (s : RefRun) (event : Event) : RefRun where
  manager := advance s.manager event
  history := s.history.append (s.adds event)

/-- The references of the orders a call sends to the broker. -/
def sends (s : RefRun) : Event → List String
  | .placed order cycleId now =>
    match (s.manager.placeBracketStart order cycleId now).2 with
    | .sent entry stop target => [entry.orderRef, stop.orderRef, target.orderRef]
    | _ => []
  | .closed symbol quantity isLong reason quote now =>
    [(s.manager.closePositionStart symbol quantity isLong reason quote now).2.orderRef]
  | .reconciled env account =>
    (reconcile env s.manager account).requests.filterMap fun request => match request with
      | .placeSingle spec => some spec.orderRef
      | _ => none
  | _ => []

/-- There is a record at the reference when the call writes its own: for a `reconcile` when it has absorbed the
broker's orders, for the others when they are called. -/
def Taken (s : RefRun) (ref : String) : Event → Prop
  | .reconciled env _ => (env.view s.manager ref).isSome = true
  | _ => s.manager.Knows ref

/-- No order the call sends replaces a record, and no two of them share one. -/
def KeepsRecords (s : RefRun) (event : Event) : Prop :=
  (s.sends event).Nodup ∧ ∀ ref ∈ s.sends event, ¬ s.Taken ref event

/-- The condition for it. A bracket: its stop has not the reference of a protective stop, and its stop and target
have none that the broker has named. An exit: no other of the symbol was made in the same second, and the
broker has not named its reference. A reconciliation: the same for every protective stop it sends, of which none
has the reference of a bracket's stop. -/
def Apart (s : RefRun) : Event → Prop
  | .placed order cycleId now => s.manager.admits order cycleId now = true →
    (∀ kind ∈ ["STOP", "TARGET"], makeRef cycleId order.symbol kind now.date ∉ s.history.reported) ∧
      ∀ t ∈ s.history.stops, protectiveRef t.2 t.1 ≠ makeRef cycleId order.symbol "STOP" now.date
  | .closed symbol _ _ _ _ now =>
    (∀ t ∈ s.history.exits, t.1 = symbol → ¬ SameSecond t.2 now) ∧ exitRef now symbol ∉ s.history.reported
  | .reconciled env account => env.Answers s.manager → ∀ symbol p,
    (symbol, p) ∈ account.openPositions.entries → ¬ env.Shielded s.manager symbol →
      (referencePrice (env.quote symbol) p).isSome = true →
        (∀ t ∈ s.history.stops, t.1 = symbol → ¬ SameSecond t.2 (env.emitAt symbol)) ∧
          env.stopRef symbol ∉ s.history.reported ++ env.adopts ∧
          ∀ b ∈ s.history.brackets, makeRef b.1 b.2.1 "STOP" b.2.2.date ≠ env.stopRef symbol
  | _ => True

/-! ### The invariant -/

/-- The references of the order map are those of its history. -/
def Inv (s : RefRun) : Prop := ∀ ref, s.manager.Knows ref ↔ s.history.Has ref

theorem inv_start (m : OrderManager) : (start m).Inv := by
  intro ref
  have hvalues : m.Knows ref ↔ ref ∈ m.orders.values.map ManagedOrder.orderRef := by
    rw [Knows, Option.isSome_iff_exists, List.mem_map]
    constructor
    · rintro ⟨mo, hget⟩
      have href := OrderBook.orderRef_of_get? hget
      exact ⟨mo, OrderBook.mem_values.mpr (by rw [href]; exact hget), href⟩
    · rintro ⟨mo, hmem, rfl⟩
      exact ⟨mo, OrderBook.mem_values.mp hmem⟩
  refine hvalues.trans ⟨Or.inl, ?_⟩
  rintro (h | ⟨b, hmem, -⟩ | ⟨t, hmem, -⟩ | ⟨t, hmem, -⟩)
  · exact h
  · cases hmem
  · cases hmem
  · cases hmem

theorem has_reported (named : List String) (ref : String) :
    ({ reported := named } : RefHistory).Has ref ↔ ref ∈ named := by
  refine or_iff_left ?_
  rintro (⟨b, hmem, -⟩ | ⟨t, hmem, -⟩ | ⟨t, hmem, -⟩) <;> cases hmem

theorem knows_advance (s : RefRun) (event : Event) (ref : String) :
    (advance s.manager event).Knows ref ↔ s.manager.Knows ref ∨ (s.adds event).Has ref := by
  have hnothing : ¬ ({} : RefHistory).Has ref := fun h => (nomatch (has_reported [] ref).mp h)
  cases event with
  | placed order cycleId now =>
    unfold advance adds
    dsimp only
    have hexpired : (s.manager.unblockExpired now).Knows ref ↔ s.manager.Knows ref := Iff.rfl
    rcases s.manager.placeBracketStart_eq order cycleId now with ⟨hadmits, hstart, -⟩ | ⟨hadmits, hstart, -⟩
    · rw [hstart, hadmits, if_neg Bool.false_ne_true, or_iff_left hnothing, hexpired]
    · have hrows : (bracketRows order cycleId now).map ManagedOrder.orderRef =
          ["ENTRY", "STOP", "TARGET"].map fun kind => makeRef cycleId order.symbol kind now.date := rfl
      rw [hstart, hadmits, if_pos rfl, knows_foldl_write, hrows, hexpired, or_comm]
      refine or_congr_right ?_
      simp [RefHistory.Has, RefHistory.Bracketed, RefHistory.Exited, RefHistory.Stopped]
  | answered order reply now =>
    cases reply with
    | error e => exact (or_iff_left hnothing).symm
    | ok statuses =>
      refine (knows_foldl_applyStatus statuses s.manager now ref).trans (or_congr_right ?_)
      exact List.mem_filter.symm.trans (has_reported _ ref).symm
  | closed symbol quantity isLong reason quote now =>
    refine (knows_write s.manager _ ref).trans (or_comm.trans (or_congr_right ?_))
    show ref = exitRef now symbol ↔ _
    simp [adds, RefHistory.Has, RefHistory.Bracketed, RefHistory.Exited, RefHistory.Stopped]
  | status status now =>
    refine (knows_applyStatus s.manager status now ref).trans (or_congr_right ?_)
    refine Iff.trans ?_ (has_reported _ ref).symm
    rw [List.mem_filter, List.mem_singleton]
  | reconciled env account =>
    refine (ReconcileEnv.knows_reconcile env s.manager account ref).trans (or_congr_right ?_)
    simp [adds, RefHistory.Has, RefHistory.Bracketed, RefHistory.Exited, RefHistory.Stopped]

theorem Inv.step {s : RefRun} (h : s.Inv) (event : Event) : (s.step event).Inv := by
  intro ref
  exact (knows_advance s event ref).trans
    ((or_congr_left (h ref)).trans (RefHistory.has_append s.history (s.adds event) ref).symm)

/-! ### Which references are free -/

theorem exitRef_ne {now : Now} {symbol c s d kind : String} (h : kind ∈ ["ENTRY", "STOP", "TARGET"]) :
    exitRef now symbol ≠ makeRef c s kind d := by
  simp only [List.mem_cons, List.not_mem_nil, or_false] at h
  rcases h with rfl | rfl | rfl
  · exact makeRef_ne_of_kind (by decide) (by decide) (by decide) _ _ _ _ _ _
  · exact makeRef_ne_of_kind (by decide) (by decide) (by decide) _ _ _ _ _ _
  · exact makeRef_ne_of_kind (by decide) (by decide) (by decide) _ _ _ _ _ _

theorem has_exitRef_iff (h : RefHistory) (now : Now) (symbol : String) :
    h.Has (exitRef now symbol) ↔
      exitRef now symbol ∈ h.reported ∨ ∃ t ∈ h.exits, t.1 = symbol ∧ SameSecond t.2 now := by
  constructor
  · rintro (hreported | ⟨b, -, kind, hmem, href⟩ | ⟨t, hmem, href⟩ | ⟨t, -, href⟩)
    · exact Or.inl hreported
    · exact absurd href (exitRef_ne hmem)
    · obtain ⟨hsymbol, hsecond⟩ := exitRef_eq_iff.mp href.symm
      exact Or.inr ⟨t, hmem, hsymbol, hsecond⟩
    · exact absurd href (exitRef_ne (by simp))
  · rintro (hreported | ⟨t, hmem, hsymbol, hsecond⟩)
    · exact Or.inl hreported
    · exact Or.inr (Or.inr (Or.inl ⟨t, hmem, (exitRef_eq_iff.mpr ⟨hsymbol, hsecond⟩).symm⟩))

theorem keeps_closed_iff {s : RefRun} (h : s.Inv) (symbol : String) (quantity : ℚ) (isLong : Bool)
    (reason : String) (quote : Option Quote) (now : Now) :
    s.KeepsRecords (.closed symbol quantity isLong reason quote now) ↔
      s.Apart (.closed symbol quantity isLong reason quote now) := by
  have hsends : s.sends (.closed symbol quantity isLong reason quote now) = [exitRef now symbol] := rfl
  have htaken : s.Taken (exitRef now symbol) (.closed symbol quantity isLong reason quote now) ↔ _ :=
    (h _).trans (has_exitRef_iff s.history now symbol)
  unfold KeepsRecords Apart
  rw [hsends, List.forall_mem_singleton, htaken]
  simp only [List.nodup_singleton, true_and, not_or, not_exists, not_and]
  exact and_comm

theorem sends_placed {s : RefRun} {order : SizedOrder} {cycleId : String} {now : Now}
    (h : s.manager.admits order cycleId now = true) :
    s.sends (.placed order cycleId now) =
      ["ENTRY", "STOP", "TARGET"].map fun kind => makeRef cycleId order.symbol kind now.date := by
  unfold admits row? at h
  dsimp only at h
  rw [Bool.and_eq_true, Bool.and_eq_true, Option.isNone_iff_eq_none, Option.isNone_iff_eq_none,
    Bool.not_eq_true'] at h
  obtain ⟨⟨hblocked, hget⟩, hrow⟩ := h
  unfold sends placeBracketStart
  dsimp only
  have hstore : (s.manager.unblockExpired now).store = s.manager.store := rfl
  rw [hblocked, if_neg Bool.false_ne_true, orders_unblockExpired, hget]
  dsimp only
  rw [hstore, hrow]
  rfl

theorem not_bracketed {h : RefHistory} {c s d kind : String} (hkind : kind ∈ ["ENTRY", "STOP", "TARGET"])
    (hentry : ¬ h.Has (makeRef c s "ENTRY" d)) : ¬ h.Bracketed (makeRef c s kind d) := by
  have hcolon : ∀ kind ∈ ["ENTRY", "STOP", "TARGET"], ':' ∉ kind.toList := by decide
  rintro ⟨b, hmem, kind', hkind', href⟩
  have hsame : kind = kind' := by
    by_contra hne
    exact makeRef_ne_of_kind (hcolon kind hkind) (hcolon kind' hkind') hne _ _ _ _ _ _ href
  subst hsame
  exact hentry (Or.inr (Or.inl ⟨b, hmem, "ENTRY", by simp, makeRef_kind_congr href "ENTRY"⟩))

theorem keeps_placed_iff {s : RefRun} (h : s.Inv) (order : SizedOrder) (cycleId : String) (now : Now) :
    s.KeepsRecords (.placed order cycleId now) ↔ s.Apart (.placed order cycleId now) := by
  unfold KeepsRecords Apart
  by_cases hadmits : s.manager.admits order cycleId now = true
  · have hrows : ((bracketRows order cycleId now).map ManagedOrder.orderRef).Nodup :=
      List.pairwise_map.mpr (pairwise_bracketRows order cycleId now)
    have hnodup : (["ENTRY", "STOP", "TARGET"].map fun kind =>
        makeRef cycleId order.symbol kind now.date).Nodup := hrows
    have htaken : ∀ ref, s.Taken ref (.placed order cycleId now) ↔ s.history.Has ref := h
    have hentry : ¬ s.history.Has (makeRef cycleId order.symbol "ENTRY" now.date) := by
      rw [← h, Knows]
      unfold admits at hadmits
      simp only [Bool.and_eq_true, Option.isNone_iff_eq_none] at hadmits
      simp [hadmits.1.2]
    dsimp only
    rw [imp_iff_right hadmits, sends_placed hadmits, and_iff_right hnodup]
    simp only [htaken, List.forall_mem_map]
    constructor
    · intro hfree
      refine ⟨fun kind hkind hreported => ?_, fun t hmem href => ?_⟩
      · exact hfree kind (List.mem_cons_of_mem _ hkind) (Or.inl hreported)
      · exact hfree "STOP" (by simp) (Or.inr (Or.inr (Or.inr ⟨t, hmem, href.symm⟩)))
    · rintro ⟨hreported, hstops⟩ kind hkind hhas
      rcases hhas with hnamed | hbracketed | ⟨t, -, href⟩ | ⟨t, hmem, href⟩
      · rcases List.mem_cons.mp hkind with rfl | hkind
        · exact hentry (Or.inl hnamed)
        · exact hreported kind hkind hnamed
      · exact not_bracketed hkind hentry hbracketed
      · exact exitRef_ne hkind href.symm
      · simp only [List.mem_cons, List.not_mem_nil, or_false] at hkind
        rcases hkind with rfl | rfl | rfl
        · exact makeRef_ne_of_kind (by decide) (by decide) (by decide) _ _ _ _ _ _ href
        · exact hstops t hmem href.symm
        · exact makeRef_ne_of_kind (by decide) (by decide) (by decide) _ _ _ _ _ _ href
  · have hsends : s.sends (.placed order cycleId now) = [] := by
      rcases s.manager.placeBracketStart_eq order cycleId now with ⟨-, -, hunsent⟩ | ⟨hyes, -⟩
      · unfold sends
        dsimp only
        split
        · rename_i entry stop target hsent
          exact absurd hsent (hunsent entry stop target)
        · rfl
      · exact absurd hyes hadmits
    rw [hsends]
    exact iff_of_true ⟨List.nodup_nil, fun ref hmem => (nomatch hmem)⟩ fun hyes => absurd hyes hadmits

theorem nodup_placements (env : ReconcileEnv) (m : OrderManager) (account : AccountSnapshot) :
    ((env.placements (reconcile env m account)).map Prod.fst).Nodup := by
  by_cases h : env.Answers m
  · obtain ⟨m', report, hfinal, -, -⟩ := @reconcile_returns env m account h
    have hsub : ∀ (positions : List (String × Position)) (f : String × Position → List BrokerRequest),
        (∀ e, f e = [] ∨ f e = env.stopRequests e.1 e.2) →
          List.Sublist (((positions.flatMap f).filterMap fun request => match request with
            | .placeSingle spec => some (spec.symbol, env.emitAt spec.symbol)
            | _ => none).map Prod.fst) (positions.map Prod.fst) := by
      intro positions f hf
      induction positions with
      | nil => exact List.Sublist.refl _
      | cons e positions ih =>
        rw [List.flatMap_cons, List.filterMap_append, List.map_append, List.map_cons]
        have hempty := ih.cons e.1
        rcases hf e with hnone | hstop
        · rw [hnone]
          exact hempty
        · rw [hstop, ReconcileEnv.stopRequests]
          cases referencePrice (env.quote e.1) e.2 with
          | none => exact hempty
          | some reference => exact ih.cons_cons e.1
    have hcancels : ∀ ids : List ℤ, ((ids.map BrokerRequest.cancelOrder).filterMap fun request =>
        match request with
        | .placeSingle spec => some (spec.symbol, env.emitAt spec.symbol)
        | _ => none) = [] := by
      intro ids
      induction ids with
      | nil => rfl
      | cons id ids ih => exact ih
    unfold ReconcileEnv.placements
    rw [hfinal, requests_protectAndClean, afterStep4, ReconcileEnv.requests_protectAll, List.nil_append,
      List.filterMap_append, orphanCancels, hcancels, List.append_nil]
    refine account.openPositions.nodup.sublist (hsub _ _ fun e => ?_)
    split_ifs
    · exact Or.inl rfl
    · exact Or.inr rfl
  · rw [ReconcileEnv.placements, requests_of_not_answers h]
    exact List.nodup_nil

theorem sends_reconciled (s : RefRun) (env : ReconcileEnv) (account : AccountSnapshot) :
    s.sends (.reconciled env account) =
      (env.placements (reconcile env s.manager account)).map fun t => protectiveRef t.2 t.1 := by
  unfold sends ReconcileEnv.placements
  rw [List.map_filterMap]
  refine List.filterMap_congr fun request hmem => ?_
  cases request with
  | placeSingle spec =>
    have hstop : spec.orderRef = protectiveRef (env.emitAt spec.symbol) spec.symbol := by
      have h : env.Answers s.manager := by
        by_contra h
        rw [requests_of_not_answers h] at hmem
        cases hmem
      rcases (ReconcileEnv.mem_requests_iff h _).mp hmem with ⟨symbol, p, -, -, hrequest⟩ | ⟨id, hcancel, -⟩
      · obtain ⟨reference, -, hspec⟩ := ReconcileEnv.mem_stopRequests.mp hrequest
        cases hspec
        rfl
      · cases hcancel
    exact congrArg some hstop
  | placeBracket entry stop target => rfl
  | cancelOrder id => rfl

theorem has_stopRef_iff (h : RefHistory) (now : Now) (symbol : String) :
    h.Has (protectiveRef now symbol) ↔ protectiveRef now symbol ∈ h.reported ∨
      (∃ b ∈ h.brackets, makeRef b.1 b.2.1 "STOP" b.2.2.date = protectiveRef now symbol) ∨
      ∃ t ∈ h.stops, t.1 = symbol ∧ SameSecond t.2 now := by
  constructor
  · rintro (hreported | ⟨b, hmem, kind, hkind, href⟩ | ⟨t, -, href⟩ | ⟨t, hmem, href⟩)
    · exact Or.inl hreported
    · simp only [List.mem_cons, List.not_mem_nil, or_false] at hkind
      rcases hkind with rfl | rfl | rfl
      · exact absurd href (makeRef_ne_of_kind (by decide) (by decide) (by decide) _ _ _ _ _ _)
      · exact Or.inr (Or.inl ⟨b, hmem, href.symm⟩)
      · exact absurd href (makeRef_ne_of_kind (by decide) (by decide) (by decide) _ _ _ _ _ _)
    · exact absurd href.symm (exitRef_ne (by simp))
    · obtain ⟨hsymbol, hsecond⟩ := protectiveRef_eq_iff.mp href.symm
      exact Or.inr (Or.inr ⟨t, hmem, hsymbol, hsecond⟩)
  · rintro (hreported | ⟨b, hmem, href⟩ | ⟨t, hmem, hsymbol, hsecond⟩)
    · exact Or.inl hreported
    · exact Or.inr (Or.inl ⟨b, hmem, "STOP", by simp, href.symm⟩)
    · exact Or.inr (Or.inr (Or.inr ⟨t, hmem, (protectiveRef_eq_iff.mpr ⟨hsymbol, hsecond⟩).symm⟩))

theorem keeps_reconciled_iff {s : RefRun} (h : s.Inv) (env : ReconcileEnv) (account : AccountSnapshot) :
    s.KeepsRecords (.reconciled env account) ↔ s.Apart (.reconciled env account) := by
  have hnodup : (s.sends (.reconciled env account)).Nodup := by
    rw [sends_reconciled]
    refine List.pairwise_map.mpr ((List.pairwise_map.mp (nodup_placements env s.manager account)).imp ?_)
    exact fun hne href => hne (protectiveRef_eq_iff.mp href).1
  have htaken : env.Answers s.manager → ∀ symbol, s.Taken (env.stopRef symbol) (.reconciled env account) ↔
      s.history.Has (env.stopRef symbol) ∨ env.stopRef symbol ∈ env.adopts := by
    intro hanswers symbol
    rw [← h]
    exact ReconcileEnv.isSome_view_iff hanswers _
  unfold KeepsRecords Apart
  rw [and_iff_right hnodup, sends_reconciled, List.forall_mem_map]
  dsimp only
  constructor
  · intro hfree hanswers symbol p hheld hopen hreference
    have hnot := hfree (symbol, env.emitAt symbol)
      ((ReconcileEnv.mem_placements _).mpr ⟨hanswers, rfl, p, hheld, hopen, hreference⟩)
    rw [← ReconcileEnv.stopRef, htaken hanswers, ReconcileEnv.stopRef, has_stopRef_iff] at hnot
    simp only [not_or, not_exists, not_and] at hnot
    refine ⟨hnot.1.2.2, fun hmem => ?_, hnot.1.2.1⟩
    exact (List.mem_append.mp hmem).elim hnot.1.1 hnot.2
  · rintro hapart t hmem
    obtain ⟨hanswers, hclock, p, hheld, hopen, hreference⟩ := (ReconcileEnv.mem_placements t).mp hmem
    obtain ⟨hseconds, hnamed, hbrackets⟩ := hapart hanswers t.1 p hheld hopen hreference
    rw [hclock, ← ReconcileEnv.stopRef, htaken hanswers, ReconcileEnv.stopRef, has_stopRef_iff]
    rintro ((hreported | ⟨b, hmem, href⟩ | ⟨t', hmem, hsymbol, hsecond⟩) | hadopted)
    · exact hnamed (List.mem_append_left _ hreported)
    · exact hbrackets b hmem href
    · exact hseconds t' hmem hsymbol hsecond
    · exact hnamed (List.mem_append_right _ hadopted)

/-- **When every order keeps its own record.** From every order map, in every sequence of placements, answers,
closings, statuses and reconciliations, at whatever clocks: no new order replaces a record precisely when no two
exits of a symbol are made in one second, no two protective stops are, no bracket's stop has the reference of a
protective stop, and no new order has a reference that was there at the start or that the broker has named. -/
theorem keeps_records_iff (m : OrderManager) (events : List Event) :
    Trace.Each step KeepsRecords (start m) events ↔ Trace.Each step Apart (start m) events := by
  have hstep : ∀ (s : RefRun) event, s.Inv → (s.step event).Inv := fun s event hI => hI.step event
  refine Trace.each_iff_of_invariant hstep (fun s event hI => ?_) (inv_start m)
  cases event with
  | placed order cycleId now => exact keeps_placed_iff hI order cycleId now
  | answered order reply now =>
    exact iff_of_true ⟨List.nodup_nil, fun ref hmem => (nomatch hmem)⟩ trivial
  | closed symbol quantity isLong reason quote now => exact keeps_closed_iff hI _ _ _ _ _ _
  | status status now => exact iff_of_true ⟨List.nodup_nil, fun ref hmem => (nomatch hmem)⟩ trivial
  | reconciled env account => exact keeps_reconciled_iff hI env account

/-! #### Two flattens in one tick -/

/-- The position is closed twice within a second, and the second exit replaces the record of the first. -/
theorem exits_share_record : ¬ Trace.Each step KeepsRecords (start {})
    [.closed "AAPL" 100 true "kill switch" none noon, .closed "AAPL" 100 true "end of day" none noon] := by
  rintro ⟨-, ⟨-, hfree⟩, -⟩
  have htaken : ((start {}).step (.closed "AAPL" 100 true "kill switch" none noon)).manager.Knows
      (exitRef noon "AAPL") := by decide +kernel
  exact hfree (exitRef noon "AAPL") List.mem_cons_self htaken

/-! ### References of ours -/

theorem ours_adds {s : RefRun} {event : Event} {ref : String} (h : (s.adds event).Has ref) :
    isOurs ref = true := by
  rcases h with hreported | ⟨b, -, kind, -, rfl⟩ | ⟨t, -, rfl⟩ | ⟨t, -, rfl⟩
  · unfold adds at hreported
    cases event with
    | placed order cycleId now =>
      dsimp only at hreported
      split_ifs at hreported <;> cases hreported
    | answered order reply now =>
      cases reply with
      | error e => cases hreported
      | ok statuses => exact (List.mem_filter.mp hreported).2
    | closed symbol quantity isLong reason quote now => cases hreported
    | status status now => exact (List.mem_filter.mp hreported).2
    | reconciled env account =>
      dsimp only [ReconcileEnv.adopts] at hreported
      split at hreported
      · exact (List.mem_filter.mp hreported).2
      · cases hreported
  · exact isOurs_makeRef _ _ _ _
  · exact isOurs_makeRef _ _ _ _
  · exact isOurs_makeRef _ _ _ _

theorem ours_advance {m : OrderManager} (h : m.Ours) (event : Event) : (advance m event).Ours := by
  intro ref hknows
  rcases (knows_advance (start m) event ref).mp hknows with hold | hnew
  · exact h ref hold
  · exact ours_adds hnew

/-- **The order manager makes and adopts references of ours only**: a map of them stays one. -/
theorem ours_run {m : OrderManager} (h : m.Ours) (events : List Event) :
    Trace.Always step (fun s => s.manager.Ours) (start m) events := by
  have hstep : ∀ (s : RefRun) event, s.manager.Ours → (s.step event).manager.Ours :=
    fun s event hours => ours_advance hours event
  exact Trace.always_of_invariant hstep (fun s hours => hours) h

end RefRun

end AiTrader
