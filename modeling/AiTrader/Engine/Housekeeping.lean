import AiTrader.Broker.Parentage
import AiTrader.Engine.Closing

/-!
# What housekeeping cancels

`_expire_stale_orders` and `shutdown_gracefully` are to cancel entries. Both recognise an entry by its record
having no parent. `BookRun` follows the order manager through everything that makes a record: brackets, exits,
protective stops, adoption by a status or a reconciliation, and restarts from the store. Stops and targets of a
bracket and protective stops have a parent. An exit has none, and neither has an adopted stop, target or exit;
`strays` are the references of these.

`housekeeping_spares_legs_iff`: housekeeping cancels only entries, and shutdown asks for all of them, exactly
when no stray is due at a tick or working at shutdown, and no cancel raises at shutdown before the last entry.

`Filed` says of a reference and its parent that without a parent it is an entry or a stray, and that an entry has
none. It is shown for each pair that is made, by the kind of the reference (`filed_child`, `filed_bracketRows`,
`filed_adopted`), and pairs do not change (`Parentage`). What housekeeping takes for an entry is then an entry or a
stray; the law breaks at once when a stray is cancelled, or when a cancel that raises ends the loop of shutdown in
front of an entry.
-/

namespace AiTrader

open Lib OrderManager

/-! ### The two routines -/

namespace OrderManager

/-- What `_expire_stale_orders` asks to cancel. A cancel that raises is logged, and the loop goes on. -/
def staleOrders (m : OrderManager) (cfg : BrokerConfig) (now : Now) : List ManagedOrder :=
  m.workingOrders.filter fun mo =>
    FastLoop.isStale cfg now.epoch mo && (truthy mo.ibOrderId).isSome

/-- What `shutdown_gracefully` would cancel. -/
def shutdownTargets (m : OrderManager) : List ManagedOrder :=
  m.workingOrders.filter fun mo => mo.parentRef.isNone && (truthy mo.ibOrderId).isSome

/-- A loop of cancels that the first raise ends. -/
def cancelUntilRaised (reply : ManagedOrder → CancelReply) : List ManagedOrder → List ManagedOrder
  | [] => []
  | mo :: rest => mo :: if reply mo = .raised then [] else cancelUntilRaised reply rest

/-- `shutdown_gracefully`: the one guard stands around the whole loop. -/
def shutdownGracefully (m : OrderManager) (reply : ManagedOrder → CancelReply) : List ManagedOrder :=
  cancelUntilRaised reply m.shutdownTargets

/-- The working entries with an order id. -/
def workingEntries (m : OrderManager) : List ManagedOrder :=
  m.workingOrders.filter fun mo => hasKind "ENTRY" mo.orderRef && (truthy mo.ibOrderId).isSome

/-- The references of ours, not of an entry, that the statuses name and that have no record: those that
applying the statuses adopts. -/
def strangers (m : OrderManager) (statuses : List BrokerOrderStatus) : List String :=
  (statuses.map BrokerOrderStatus.orderRef).filter fun ref =>
    isOurs ref && (m.orders.get? ref).isNone && !hasKind "ENTRY" ref

end OrderManager

/-- A run of one of the two routines: the records whose cancel it asked for, and the entries it was to cancel
and passed over. -/
structure Pass where
  asked : List ManagedOrder
  missed : List ManagedOrder := []

structure BookRun where
  cfg : BrokerConfig
  orders : OrderManager
  strays : List String := []
  passes : List Pass := []

namespace BookRun

inductive Event
  | placed (order : SizedOrder) (cycleId : String) (now : Now)
  | answered (order : SizedOrder) (reply : Except String (List BrokerOrderStatus)) (now : Now)
  /-- `close_position` sends its exit; the broker's reply is a `status`. -/
  | exited (call : CloseCall) (quote : Option Quote) (now : Now)
  | status (status : BrokerOrderStatus) (now : Now)
  | executed (e : BrokerExecution)
  | reconciled (env : ReconcileEnv) (account : AccountSnapshot)
  /-- The process dies after `k` of the writes of a `place_bracket`. -/
  | killed (order : SizedOrder) (cycleId : String) (now : Now) (k : ℕ)
  | restarted (now : Now)
  /-- From now on these writes raise. -/
  | outage (faults : Write → Bool)
  | ticked (now : Now)
  | shutdown (reply : ManagedOrder → CancelReply)

variable (s : BookRun)

/-- Statuses are about to be applied. -/
def noteStrangers (statuses : List BrokerOrderStatus) : BookRun :=
  { s with strays := s.strays ++ s.orders.strangers statuses }

def withOrders (orders : OrderManager) : BookRun := { s with orders }

def step (s : BookRun) : Event → BookRun
  | .placed order cycleId now => s.withOrders (s.orders.placeBracketStart order cycleId now).1
  | .answered order reply now =>
    (s.noteStrangers (reply.toOption.getD [])).withOrders (s.orders.placeBracketFinish order reply now).1
  | .exited call quote now =>
    let started :=
      s.orders.closePositionStart call.symbol call.quantity call.isLong call.reason quote now
    { s with orders := started.1, strays := s.strays ++ [started.2.orderRef] }
  | .status status now => (s.noteStrangers [status]).withOrders (s.orders.applyStatus status now)
  | .executed e => s.withOrders (s.orders.onExecution e)
  | .reconciled env account =>
    (s.noteStrangers env.opens).withOrders (OrderManager.reconcile env s.orders account).manager
  | .killed order cycleId now k =>
    s.withOrders (PlacementRun.fresh (s.orders.placeBracketCut order cycleId now k))
  | .restarted now => s.withOrders ((PlacementRun.fresh s.orders).loadFromStore now)
  | .outage faults => s.withOrders { s.orders with store := s.orders.store.map fun d => { d with faults } }
  | .ticked now => { s with passes := s.passes ++ [{ asked := s.orders.staleOrders s.cfg now }] }
  | .shutdown reply =>
    let asked := s.orders.shutdownGracefully reply
    { s with
      passes := s.passes ++ [{
        asked, missed := s.orders.workingEntries.filter fun mo => !decide (mo ∈ asked) }] }

/-- Housekeeping has only ever cancelled entries, and missed none at shutdown. -/
def SparesLegs (s : BookRun) : Prop :=
  ∀ pass ∈ s.passes, (∀ mo ∈ pass.asked, hasKind "ENTRY" mo.orderRef = true) ∧ pass.missed = []

instance (s : BookRun) : Decidable s.SparesLegs :=
  inferInstanceAs (Decidable (∀ pass ∈ s.passes, _ ∧ _))

/-- Along the records that shutdown goes through, up to the first raise: no stray, and after the raise no
entry. -/
def Unharmed (strays : List String) (reply : ManagedOrder → CancelReply) : List ManagedOrder → Prop
  | [] => True
  | mo :: rest => mo.orderRef ∉ strays ∧
      if reply mo = .raised then ∀ mo' ∈ rest, hasKind "ENTRY" mo'.orderRef = false
      else Unharmed strays reply rest

/-- The condition on a step: no stray is due at a tick, and shutdown comes through unharmed. -/
def Orderly (s : BookRun) : Event → Prop
  | .ticked now => ∀ mo ∈ s.orders.staleOrders s.cfg now, mo.orderRef ∉ s.strays
  | .shutdown reply => Unharmed s.strays reply s.orders.shutdownTargets
  | _ => True

/-! ### Which records have no parent -/

/-- A record without a parent is an entry or a stray, and an entry has no parent. -/
def Filed (strays : List String) (ref : String) (parent : Option String) : Prop :=
  (parent = none → hasKind "ENTRY" ref = true ∨ ref ∈ strays) ∧
    (hasKind "ENTRY" ref = true → parent = none)

theorem Filed.mono {strays strays' : List String} {ref : String} {parent : Option String}
    (h : Filed strays ref parent) (hsub : strays ⊆ strays') : Filed strays' ref parent :=
  ⟨fun hnone => (h.1 hnone).imp_right fun hmem => hsub hmem, h.2⟩

theorem filed_entry (strays : List String) {ref : String} (h : hasKind "ENTRY" ref = true) :
    Filed strays ref none :=
  ⟨fun _ => Or.inl h, fun _ => rfl⟩

theorem filed_stray {strays : List String} {ref : String} (h : ref ∈ strays) : Filed strays ref none :=
  ⟨fun _ => Or.inr h, fun _ => rfl⟩

theorem filed_child (strays : List String) {ref parent : String} (h : hasKind "ENTRY" ref = false) :
    Filed strays ref (some parent) :=
  ⟨fun hnone => (nomatch hnone), fun hentry => absurd hentry (by rw [h]; exact Bool.false_ne_true)⟩

theorem not_entry_makeRef {kind : String} (hcolon : ':' ∉ kind.toList) (hne : kind ≠ "ENTRY")
    (cycleId symbol day : String) : hasKind "ENTRY" (makeRef cycleId symbol kind day) = false := by
  by_contra hentry
  rw [Bool.not_eq_false] at hentry
  exact hne (hasKind_unique (hasKind_makeRef _ _ _ _) hentry hcolon (by decide))

theorem filed_bracketRows (strays : List String) (order : SizedOrder) (cycleId : String) (now : Now) :
    ∀ mo ∈ bracketRows order cycleId now, Filed strays mo.orderRef mo.parentRef := by
  intro mo hmem
  simp only [bracketRows, List.mem_cons, List.not_mem_nil, or_false] at hmem
  rcases hmem with rfl | rfl | rfl
  · exact filed_entry strays (hasKind_makeRef _ _ _ _)
  · exact filed_child strays (not_entry_makeRef (by decide) (by decide) _ _ _)
  · exact filed_child strays (not_entry_makeRef (by decide) (by decide) _ _ _)

theorem filed_adopted (m : OrderManager) {statuses : List BrokerOrderStatus} (strays : List String) :
    ∀ status ∈ statuses, isOurs status.orderRef = true → m.orders.get? status.orderRef = none →
      Filed (strays ++ m.strangers statuses) status.orderRef none := by
  intro status hmem hours hnone
  by_cases hentry : hasKind "ENTRY" status.orderRef = true
  · exact filed_entry _ hentry
  · refine filed_stray (List.mem_append_right _ ?_)
    rw [strangers, List.mem_filter]
    refine ⟨List.mem_map_of_mem hmem, ?_⟩
    simp [hours, hnone, hentry]

/-! ### The loop of shutdown -/

section Loop

variable {strays : List String} {reply : ManagedOrder → CancelReply} {targets : List ManagedOrder}

theorem asked_subset {mo : ManagedOrder} (h : mo ∈ cancelUntilRaised reply targets) : mo ∈ targets := by
  induction targets with
  | nil => exact h
  | cons mo' rest ih =>
    rw [cancelUntilRaised] at h
    rcases List.mem_cons.mp h with rfl | hrest
    · exact List.mem_cons_self
    · split_ifs at hrest
      · cases hrest
      · exact List.mem_cons_of_mem _ (ih hrest)

theorem Unharmed.not_stray (h : Unharmed strays reply targets) :
    ∀ mo ∈ cancelUntilRaised reply targets, mo.orderRef ∉ strays := by
  induction targets with
  | nil => exact fun mo hmem => (nomatch hmem)
  | cons mo' rest ih =>
    intro mo hmem
    obtain ⟨hfirst, hrest⟩ := h
    rw [cancelUntilRaised] at hmem
    split_ifs at hrest hmem with hraised
    · rw [List.mem_singleton.mp hmem]
      exact hfirst
    · rcases List.mem_cons.mp hmem with rfl | hmem
      · exact hfirst
      · exact ih hrest mo hmem

theorem Unharmed.complete (h : Unharmed strays reply targets) :
    ∀ mo ∈ targets, hasKind "ENTRY" mo.orderRef = true → mo ∈ cancelUntilRaised reply targets := by
  induction targets with
  | nil => exact fun mo hmem => (nomatch hmem)
  | cons mo' rest ih =>
    intro mo hmem hentry
    obtain ⟨-, hrest⟩ := h
    rw [cancelUntilRaised]
    rcases List.mem_cons.mp hmem with rfl | hmem
    · exact List.mem_cons_self
    · split_ifs at hrest ⊢ with hraised
      · rw [hrest mo hmem] at hentry
        cases hentry
      · exact List.mem_cons_of_mem _ (ih hrest mo hmem hentry)

theorem harm_of_not_unharmed (h : ¬ Unharmed strays reply targets) (hnodup : targets.Nodup) :
    (∃ mo ∈ cancelUntilRaised reply targets, mo.orderRef ∈ strays) ∨
      ∃ mo ∈ targets, hasKind "ENTRY" mo.orderRef = true ∧ mo ∉ cancelUntilRaised reply targets := by
  induction targets with
  | nil => exact absurd trivial h
  | cons mo rest ih =>
    rw [List.nodup_cons] at hnodup
    by_cases hstray : mo.orderRef ∈ strays
    · exact Or.inl ⟨mo, List.mem_cons_self, hstray⟩
    · rw [cancelUntilRaised]
      by_cases hraised : reply mo = .raised
      · rw [if_pos hraised]
        obtain ⟨mo', hmem, hentry⟩ : ∃ mo' ∈ rest, hasKind "ENTRY" mo'.orderRef = true := by
          by_contra hnone
          refine h ⟨hstray, ?_⟩
          rw [if_pos hraised]
          intro mo' hmem
          by_contra hentry
          exact hnone ⟨mo', hmem, by simpa using hentry⟩
        refine Or.inr ⟨mo', List.mem_cons_of_mem _ hmem, hentry, fun heq => ?_⟩
        rw [List.mem_singleton.mp heq] at hmem
        exact hnodup.1 hmem
      · rw [if_neg hraised]
        have hrest : ¬ Unharmed strays reply rest := by
          intro hrest
          refine h ⟨hstray, ?_⟩
          rw [if_neg hraised]
          exact hrest
        rcases ih hrest hnodup.2 with ⟨mo', hasked, hmem⟩ | ⟨mo', hmem, hentry, hnot⟩
        · exact Or.inl ⟨mo', List.mem_cons_of_mem _ hasked, hmem⟩
        · refine Or.inr ⟨mo', List.mem_cons_of_mem _ hmem, hentry, fun hasked => ?_⟩
          rcases List.mem_cons.mp hasked with rfl | hasked
          · exact hnodup.1 hmem
          · exact hnot hasked

end Loop

/-! ### One step -/

structure Inv (s : BookRun) : Prop where
  filed : Parented (Filed s.strays) s.orders
  strays : ∀ ref ∈ s.strays, hasKind "ENTRY" ref = false
  spares : s.SparesLegs

variable {s : BookRun}

theorem mem_shutdownTargets {m : OrderManager} {mo : ManagedOrder} :
    mo ∈ m.shutdownTargets ↔ mo ∈ m.orders.values ∧ mo.isWorking = true ∧ mo.parentRef = none ∧
      (truthy mo.ibOrderId).isSome = true := by
  simp only [shutdownTargets, workingOrders, List.mem_filter, Bool.and_eq_true, Option.isNone_iff_eq_none,
    and_assoc]

theorem Inv.filed_of_mem (h : s.Inv) {mo : ManagedOrder} (hmem : mo ∈ s.orders.orders.values) :
    Filed s.strays mo.orderRef mo.parentRef :=
  h.filed.records _ mo (OrderBook.mem_values.mp hmem)

theorem Inv.mem_workingEntries (h : s.Inv) {mo : ManagedOrder} :
    mo ∈ s.orders.workingEntries ↔ mo ∈ s.orders.shutdownTargets ∧ hasKind "ENTRY" mo.orderRef = true := by
  rw [mem_shutdownTargets]
  simp only [workingEntries, workingOrders, List.mem_filter, Bool.and_eq_true]
  constructor
  · rintro ⟨⟨hmem, hworks⟩, hentry, hid⟩
    exact ⟨⟨hmem, hworks, (h.filed_of_mem hmem).2 hentry, hid⟩, hentry⟩
  · rintro ⟨⟨hmem, hworks, -, hid⟩, hentry⟩
    exact ⟨⟨hmem, hworks⟩, hentry, hid⟩

theorem strangers_not_entry (m : OrderManager) (statuses : List BrokerOrderStatus) :
    ∀ ref ∈ m.strangers statuses, hasKind "ENTRY" ref = false := by
  intro ref hmem
  have hfilter := (List.mem_filter.mp hmem).2
  rw [Bool.and_eq_true] at hfilter
  simpa using hfilter.2

theorem Inv.moved (h : s.Inv) {orders : OrderManager} {strays : List String}
    (horders : Parented (Filed (s.strays ++ strays)) orders)
    (hstrays : ∀ ref ∈ strays, hasKind "ENTRY" ref = false) :
    Inv { s with orders, strays := s.strays ++ strays } := by
  refine ⟨horders, fun ref hmem => ?_, h.spares⟩
  rcases List.mem_append.mp hmem with hold | hnew
  · exact h.strays ref hold
  · exact hstrays ref hnew

theorem Inv.withOrders (h : s.Inv) {orders : OrderManager} (horders : Parented (Filed s.strays) orders) :
    (s.withOrders orders).Inv :=
  ⟨horders, h.strays, h.spares⟩

theorem Inv.filed_more (h : s.Inv) (strays : List String) :
    Parented (Filed (s.strays ++ strays)) s.orders :=
  h.filed.mono fun _ _ hfiled => hfiled.mono (List.subset_append_left _ _)

theorem Inv.wrote (h : s.Inv) {rows : List ManagedOrder}
    (hrows : ∀ mo ∈ rows, Filed s.strays mo.orderRef mo.parentRef) (now : Now) :
    Parented (Filed s.strays) (rows.foldl write (s.orders.unblockExpired now)) := by
  have hunblocked : Parented (Filed s.strays) (s.orders.unblockExpired now) := h.filed.of_eq rfl fun _ => rfl
  exact hunblocked.foldl fun m mo hmem hm => hm.write (hrows mo hmem)

theorem parented_fresh {K : String → Option String → Prop} {m : OrderManager} (h : Parented K m) :
    Parented K (PlacementRun.fresh m) :=
  ⟨fun _ _ hget => (nomatch hget), h.rows⟩

theorem Inv.placed (h : s.Inv) (order : SizedOrder) (cycleId : String) (now : Now) :
    (s.step (.placed order cycleId now)).Inv := by
  refine h.withOrders ?_
  rcases s.orders.placeBracketStart_eq order cycleId now with ⟨-, hstart, -⟩ | ⟨-, hstart, -⟩
  · rw [hstart]
    exact h.filed.of_eq rfl fun _ => rfl
  · rw [hstart]
    exact h.wrote (filed_bracketRows s.strays order cycleId now) now

theorem Inv.killed (h : s.Inv) (order : SizedOrder) (cycleId : String) (now : Now) (k : ℕ) :
    (s.step (.killed order cycleId now k)).Inv := by
  refine h.withOrders (parented_fresh ?_)
  unfold placeBracketCut
  split_ifs
  · exact h.wrote (fun mo hmem => filed_bracketRows s.strays order cycleId now mo (List.mem_of_mem_take hmem)) now
  · exact h.filed.of_eq rfl fun _ => rfl

theorem Inv.answered (h : s.Inv) (order : SizedOrder) (reply : Except String (List BrokerOrderStatus))
    (now : Now) : (s.step (.answered order reply now)).Inv := by
  refine h.moved ?_ (strangers_not_entry _ _)
  have hmore := h.filed_more (s.orders.strangers (reply.toOption.getD []))
  cases reply with
  | error e => exact hmore.of_eq rfl fun _ => rfl
  | ok statuses => exact hmore.applyStatuses (filed_adopted s.orders s.strays) now

theorem Inv.exited (h : s.Inv) (call : CloseCall) (quote : Option Quote) (now : Now) :
    (s.step (.exited call quote now)).Inv := by
  refine h.moved ?_ fun ref hmem => ?_
  · refine (h.filed_more _).write ?_
    exact filed_stray (List.mem_append_right _ (List.mem_singleton.mpr rfl))
  · rw [List.mem_singleton.mp hmem]
    exact not_entry_makeRef (by decide) (by decide) _ _ _

theorem Inv.reconciled (h : s.Inv) (env : ReconcileEnv) (account : AccountSnapshot) :
    (s.step (.reconciled env account)).Inv := by
  refine h.moved ?_ (strangers_not_entry _ _)
  refine (h.filed_more _).reconcile env account (filed_adopted s.orders s.strays) fun symbol => ?_
  exact filed_child _ (not_entry_makeRef (by decide) (by decide) _ _ _)

theorem mem_staleOrders {m : OrderManager} {cfg : BrokerConfig} {now : Now} {mo : ManagedOrder}
    (h : mo ∈ m.staleOrders cfg now) : mo ∈ m.orders.values ∧ mo.parentRef = none := by
  simp only [staleOrders, workingOrders, List.mem_filter, FastLoop.isStale, Bool.and_eq_true,
    Option.isNone_iff_eq_none] at h
  exact ⟨h.1.1, h.2.1.1.1⟩

theorem Inv.entry (h : s.Inv) {mo : ManagedOrder} (hmem : mo ∈ s.orders.orders.values)
    (hparent : mo.parentRef = none) (hstray : mo.orderRef ∉ s.strays) :
    hasKind "ENTRY" mo.orderRef = true :=
  ((h.filed_of_mem hmem).1 hparent).resolve_right hstray

theorem sparesLegs_append {pass : Pass} {passes : List Pass} :
    (∀ p ∈ passes ++ [pass], (∀ mo ∈ p.asked, hasKind "ENTRY" mo.orderRef = true) ∧ p.missed = []) ↔
      (∀ p ∈ passes, (∀ mo ∈ p.asked, hasKind "ENTRY" mo.orderRef = true) ∧ p.missed = []) ∧
        (∀ mo ∈ pass.asked, hasKind "ENTRY" mo.orderRef = true) ∧ pass.missed = [] := by
  simp only [List.forall_mem_append, List.forall_mem_singleton]

theorem Inv.ticked (h : s.Inv) (now : Now) (horderly : s.Orderly (.ticked now)) :
    (s.step (.ticked now)).Inv := by
  refine ⟨h.filed, h.strays, sparesLegs_append.mpr ⟨h.spares, fun mo hmem => ?_, rfl⟩⟩
  obtain ⟨hvalue, hparent⟩ := mem_staleOrders hmem
  exact h.entry hvalue hparent (horderly mo hmem)

theorem Inv.shutdown (h : s.Inv) (reply : ManagedOrder → CancelReply)
    (horderly : s.Orderly (.shutdown reply)) : (s.step (.shutdown reply)).Inv := by
  have hunharmed : Unharmed s.strays reply s.orders.shutdownTargets := horderly
  refine ⟨h.filed, h.strays, sparesLegs_append.mpr ⟨h.spares, fun mo hmem => ?_, ?_⟩⟩
  · have htarget := mem_shutdownTargets.mp (asked_subset hmem)
    exact h.entry htarget.1 htarget.2.2.1 (hunharmed.not_stray mo hmem)
  · rw [List.filter_eq_nil_iff]
    intro mo hmem
    obtain ⟨htarget, hentry⟩ := h.mem_workingEntries.mp hmem
    have hasked : mo ∈ s.orders.shutdownGracefully reply := hunharmed.complete mo htarget hentry
    simpa using hasked

theorem Inv.step (h : s.Inv) (e : Event) (horderly : s.Orderly e) : (s.step e).Inv := by
  cases e with
  | placed order cycleId now => exact h.placed order cycleId now
  | answered order reply now => exact h.answered order reply now
  | exited call quote now => exact h.exited call quote now
  | status status now =>
    refine h.moved ?_ (strangers_not_entry _ _)
    exact (h.filed_more _).applyStatuses (filed_adopted s.orders s.strays) now
  | executed e => exact h.withOrders (h.filed.onExecution e)
  | reconciled env account => exact h.reconciled env account
  | killed order cycleId now k => exact h.killed order cycleId now k
  | restarted now => exact h.withOrders ((parented_fresh h.filed).loadFromStore now)
  | outage faults =>
    refine h.withOrders (h.filed.of_eq rfl fun ref => ?_)
    unfold row?
    cases s.orders.store <;> rfl
  | ticked now => exact h.ticked now horderly
  | shutdown reply => exact h.shutdown reply horderly

theorem nodup_shutdownTargets (m : OrderManager) : m.shutdownTargets.Nodup :=
  ((List.Nodup.of_map _ m.orders.nodup_refs).filter _).filter _

theorem Inv.harmed (h : s.Inv) (e : Event) (hdisorderly : ¬ s.Orderly e) : ¬ (s.step e).SparesLegs := by
  cases e with
  | ticked now =>
    intro hspares
    refine hdisorderly fun mo hmem hstray => ?_
    have hentry := (sparesLegs_append.mp hspares).2.1 mo hmem
    rw [h.strays _ hstray] at hentry
    cases hentry
  | shutdown reply =>
    intro hspares
    obtain ⟨-, hentries, hmissed⟩ := sparesLegs_append.mp hspares
    rcases harm_of_not_unharmed hdisorderly (nodup_shutdownTargets _) with
      ⟨mo, hasked, hstray⟩ | ⟨mo, htarget, hentry, hnot⟩
    · have hentry := hentries mo hasked
      rw [h.strays _ hstray] at hentry
      cases hentry
    · have hworking := h.mem_workingEntries.mpr ⟨htarget, hentry⟩
      have hpassed : mo ∉ s.orders.shutdownGracefully reply := hnot
      exact List.filter_eq_nil_iff.mp hmissed mo hworking (by simpa using hpassed)
  | _ => exact absurd trivial hdisorderly

/-! ### Runs -/

/-- A process starts on an empty store, or without one. -/
def start (cfg : BrokerConfig) (faults : Option (Write → Bool)) : BookRun where
  cfg
  orders := { store := faults.map fun faults => { faults } }

/-- **When housekeeping cancels entries and nothing else.** In every run of placements, exits, statuses,
reconciliations, deaths, restarts and failing writes: exactly when no stray is due at a tick, and shutdown meets
no stray before its first raise and no entry after it. -/
theorem housekeeping_spares_legs_iff (cfg : BrokerConfig) (faults : Option (Write → Bool))
    (events : List Event) :
    Trace.Always BookRun.step SparesLegs (start cfg faults) events ↔
      Trace.Each BookRun.step Orderly (start cfg faults) events := by
  have hstep : ∀ (s : BookRun) e, s.Inv → s.Orderly e → (s.step e).Inv := fun s e hI hC => hI.step e hC
  have hP : ∀ s : BookRun, s.Inv → s.SparesLegs := fun s hI => hI.spares
  have hbad : ∀ (s : BookRun) e, s.Inv → ¬ s.Orderly e → ¬ (s.step e).SparesLegs :=
    fun s e hI hC => hI.harmed e hC
  have hstart : (start cfg faults).Inv := by
    refine ⟨⟨fun _ _ hget => (nomatch hget), fun ref row hrow => ?_⟩, fun _ hmem => (nomatch hmem),
      fun _ hmem => (nomatch hmem)⟩
    cases faults with
    | none => cases hrow
    | some faults => cases hrow
  exact Trace.always_iff_each hstep hP hbad hstart

/-! #### A stop adopted from the broker -/

/-- The process starts on a new store; the broker still has a stop of ours, which the reconciliation adopts,
and a tick two minutes later takes it for a stale entry. -/
def stopAdopted : List Event :=
  let stop : BrokerOrderStatus :=
    { orderRef := makeRef "c1" "AAPL" "STOP" "2025-01-02", orderId := 8, permId := none
      status := "PreSubmitted", filled := 0, remaining := 10, avgFillPrice := none, symbol := "AAPL"
      action := "SELL" }
  let env : ReconcileEnv := {
    account := "DU1", start := CloseDesk.openingBell, openOrders := .ok [stop], completedOrders := .ok []
    executions := .ok [], quote := fun _ => none, emitAt := fun _ => CloseDesk.openingBell
    placeOrder := fun _ => .error "not connected" }
  [.reconciled env (CloseDesk.accountOf (Dict.empty.set "AAPL" CloseDesk.tenHeld)),
    .ticked (.sample 120 120)]

/-- The tick cancels the stop of an open position. -/
theorem adopted_stop_cancelled : ¬ Trace.Always BookRun.step SparesLegs (start {} none) stopAdopted := by
  decide +kernel

end BookRun

end AiTrader
