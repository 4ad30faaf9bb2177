import AiTrader.Engine.Closing
import AiTrader.Lib.Trace

/-!
# What a close leaves at the broker

`close_position` first asks for the cancel of every order of the symbol and then sends an exit. `CloseRun`
follows one position through any number of such calls, beside the status events and the expiry of stale
orders: the order manager acts on its records, `resting` is what is really live at the broker, and a cancel
that has gone out marks an order there (`asked`) until the broker ends it.

`close_keeps_cover`: an open position is covered whenever no call is under way, in every run in which exits
are accepted in the right size, the expiry cancels no stop and no exit, and the broker ends a stop or an exit
only on request or when the position is closed. The invariant behind it is that while no call is under way
some stop or exit is live that nobody has asked to cancel and that is large enough. The expiry breaks it: it
takes any old order without a parent for an entry, and an exit has none.
-/

namespace AiTrader

open Lib OrderManager

/-! ### The machine -/

/-- A live order for the symbol at the broker. -/
structure Resting where
  orderRef : String
  orderId : ℤ
  /-- It reduces the position. -/
  closes : Bool
  remaining : ℚ
  /-- A cancel for it has gone out. -/
  asked : Bool := false
  deriving DecidableEq

/-- The order is a stop or an exit that reduces the position. -/
def Resting.protects (o : Resting) : Bool :=
  o.closes && (hasKind "STOP" o.orderRef || hasKind "EXIT" o.orderRef)

/-- The call that a `close_position` is suspended in. -/
inductive CloseAt
  | cancelling (orderId : ℤ) (refs : List String)
  | placing (spec : BrokerOrderSpec)

structure Closing where
  call : CloseCall
  suspended : CloseAt

/-- `close_position` from the record its cancel loop is at, to its next suspension. -/
def OrderManager.closeFrom (m : OrderManager) (call : CloseCall) (refs : List String)
    (quote : Option Quote) (now : Now) : OrderManager × CloseAt :=
  match m.nextCancel (FastLoop.ofSymbol call.symbol) refs with
  | some (orderId, refs) => (m, .cancelling orderId refs)
  | none =>
    let started := m.closePositionStart call.symbol call.quantity call.isLong call.reason quote now
    (started.1, .placing started.2)

/-- An `_expire_stale_orders` suspended in a cancel. -/
structure Expiring where
  began : ℚ
  orderId : ℤ
  refs : List String

structure CloseRun where
  cfg : BrokerConfig
  orders : OrderManager
  symbol : String
  isLong : Bool
  /-- The part of the position that is still open. -/
  held : ℚ
  resting : List Resting
  calls : List Closing := []
  expiring : Option Expiring := none

namespace CloseRun

inductive Event
  | closed (quantity : ℚ) (isLong : Bool) (reason : String) (quote : Option Quote) (now : Now)
  /-- The cancel that the `i`-th call waits for. -/
  | cancelReturned (i : ℕ) (reply : CancelReply) (quote : Option Quote) (now : Now)
  | placeReturned (i : ℕ) (reply : Except String BrokerOrderStatus) (now : Now)
  | ticked (now : Now)
  | expireReturned (reply : CancelReply)
  | status (status : BrokerOrderStatus) (now : Now)
  /-- The `i`-th live order fills by `quantity`. -/
  | filled (i : ℕ) (quantity : ℚ)
  /-- The broker cancels or rejects the `i`-th live order, or it expires. -/
  | ended (i : ℕ)

variable (s : CloseRun)

/-- A cancel for the order id goes out, or does not. -/
def ask (orderId : ℤ) (reply : CancelReply) : CloseRun :=
  if reply = .sent then
    { s with
      resting := s.resting.map fun o => if o.orderId = orderId then { o with asked := true } else o }
  else s

/-- The side that reduces the position. -/
def exitAction : String := if s.isLong then "SELL" else "BUY"

def cancelReturned (i : ℕ) (reply : CancelReply) (quote : Option Quote) (now : Now) : CloseRun :=
  match s.calls[i]? with
  | some ⟨call, .cancelling orderId refs⟩ =>
    let s := s.ask orderId reply
    let next := s.orders.closeFrom call refs quote now
    { s with orders := next.1, calls := s.calls.set i ⟨call, next.2⟩ }
  | _ => s

def placeReturned (i : ℕ) (reply : Except String BrokerOrderStatus) (now : Now) : CloseRun :=
  match s.calls[i]? with
  | some ⟨_, .placing spec⟩ =>
    let s := { s with calls := s.calls.eraseIdx i }
    match reply with
    | .ok status =>
      let live := if (nextState .pending status).isWorking then
          [{ orderRef := spec.orderRef, orderId := status.orderId
             closes := decide (spec.action = s.exitAction), remaining := spec.quantity : Resting }]
        else []
      { s with orders := s.orders.applyStatus status now, resting := s.resting ++ live }
    | .error _ => s
  | _ => s

/-- `_expire_stale_orders` from the record it is at. -/
def expireFrom (began : ℚ) (refs : List String) : CloseRun :=
  { s with
    expiring := (s.orders.nextCancel (FastLoop.isStale s.cfg began) refs).map fun next =>
      { began, orderId := next.1, refs := next.2 } }

def filled (i : ℕ) (quantity : ℚ) : CloseRun :=
  match s.resting[i]? with
  | some o =>
    if 0 < quantity ∧ quantity ≤ o.remaining then
      { s with
        held := if o.closes then s.held - quantity else s.held + quantity
        resting :=
          if quantity = o.remaining then s.resting.eraseIdx i
          else s.resting.set i { o with remaining := o.remaining - quantity } }
    else s
  | none => s

def step (s : CloseRun) : Event → CloseRun
  | .closed quantity isLong reason quote now =>
    let call : CloseCall := { symbol := s.symbol, quantity, isLong, reason }
    let next := s.orders.closeFrom call (s.orders.orders.values.map ManagedOrder.orderRef) quote now
    { s with orders := next.1, calls := s.calls ++ [⟨call, next.2⟩] }
  | .cancelReturned i reply quote now => s.cancelReturned i reply quote now
  | .placeReturned i reply now => s.placeReturned i reply now
  | .ticked now =>
    match s.expiring with
    | none => s.expireFrom now.epoch (s.orders.workingOrders.map ManagedOrder.orderRef)
    | some _ => s
  | .expireReturned reply =>
    match s.expiring with
    | some x => (s.ask x.orderId reply).expireFrom x.began x.refs
    | none => s
  | .status status now => { s with orders := s.orders.applyStatus status now }
  | .filled i quantity => s.filled i quantity
  | .ended i => { s with resting := s.resting.eraseIdx i }

/-! ### Cover -/

/-- When no close is under way, what is open of the position has a live stop or exit. -/
def Covered (s : CloseRun) : Prop :=
  s.calls = [] → 0 < s.held → ∃ o ∈ s.resting, o.protects = true

/-- The exit is accepted on the right side and is large enough for what is open; only when nothing is open
may its placement raise. -/
def Accepts (s : CloseRun) (spec : BrokerOrderSpec) : Except String BrokerOrderStatus → Prop
  | .ok status => spec.action = s.exitAction ∧
      (0 < s.held → s.held ≤ spec.quantity ∧ (nextState .pending status).isWorking = true)
  | .error _ => s.held ≤ 0

/-- The condition on a step: an exit is accepted, the expiry does not cancel a stop or an exit, and the
broker ends a stop or an exit only when it has been asked to or nothing is open. -/
def Careful (s : CloseRun) : Event → Prop
  | .placeReturned i reply _ =>
    match s.calls[i]? with
    | some ⟨_, .placing spec⟩ => s.Accepts spec reply
    | _ => True
  | .expireReturned .sent =>
    match s.expiring with
    | some x => ∀ o ∈ s.resting, o.protects = true → o.orderId ≠ x.orderId
    | none => True
  | .ended i =>
    match s.resting[i]? with
    | some o => o.protects = true → o.asked = true ∨ s.held ≤ 0
    | none => True
  | _ => True

instance (s : CloseRun) (spec : BrokerOrderSpec) (reply : Except String BrokerOrderStatus) :
    Decidable (s.Accepts spec reply) :=
  match reply with
  | .ok _ => inferInstanceAs (Decidable (_ ∧ _))
  | .error _ => inferInstanceAs (Decidable (_ ≤ _))

instance (s : CloseRun) (e : Event) : Decidable (s.Careful e) := by
  unfold Careful
  split
  · split <;> infer_instance
  · split <;> infer_instance
  · split <;> infer_instance
  · infer_instance

instance (s : CloseRun) : Decidable s.Covered := inferInstanceAs (Decidable (_ → _))

/-- A live stop or exit that covers the open part, and that nobody has asked to cancel. -/
def Secures (s : CloseRun) (o : Resting) : Prop :=
  o.protects = true ∧ o.asked = false ∧ s.held ≤ o.remaining

structure Inv (s : CloseRun) : Prop where
  sides : ∀ o ∈ s.resting, o.closes = true
  exits : ∀ c ∈ s.calls, ∀ spec, c.suspended = .placing spec → hasKind "EXIT" spec.orderRef = true
  kept : 0 < s.held → s.calls ≠ [] ∨ ∃ o ∈ s.resting, s.Secures o

theorem Inv.covered {s : CloseRun} (h : s.Inv) : s.Covered := by
  intro hidle hopen
  rcases h.kept hopen with hcalls | ⟨o, hmem, hsecures⟩
  · exact absurd hidle hcalls
  · exact ⟨o, hmem, hsecures.1⟩

/-! ### One step -/

theorem hasKind_closeFrom {m : OrderManager} {call : CloseCall} {refs : List String}
    {quote : Option Quote} {now : Now} {spec : BrokerOrderSpec}
    (h : (m.closeFrom call refs quote now).2 = .placing spec) : hasKind "EXIT" spec.orderRef = true := by
  unfold OrderManager.closeFrom at h
  split at h
  · cases h
  · simp only [CloseAt.placing.injEq] at h
    rw [← h]
    exact hasKind_makeRef _ _ _ _

variable {s : CloseRun}

theorem ask_spec (orderId : ℤ) (reply : CancelReply) :
    (s.ask orderId reply).held = s.held ∧ (s.ask orderId reply).calls = s.calls ∧
      ∀ o ∈ (s.ask orderId reply).resting, ∃ o' ∈ s.resting, o.closes = o'.closes := by
  unfold ask
  split_ifs
  · refine ⟨rfl, rfl, fun o hmem => ?_⟩
    obtain ⟨o', hmem', rfl⟩ := List.mem_map.mp hmem
    refine ⟨o', hmem', ?_⟩
    split_ifs <;> rfl
  · exact ⟨rfl, rfl, fun o hmem => ⟨o, hmem, rfl⟩⟩

theorem mem_ask {orderId : ℤ} {reply : CancelReply} {o : Resting} (hmem : o ∈ s.resting)
    (hother : reply = .sent → o.orderId ≠ orderId) : o ∈ (s.ask orderId reply).resting := by
  unfold ask
  split_ifs with hsent
  · exact List.mem_map.mpr ⟨o, hmem, if_neg (hother hsent)⟩
  · exact hmem

theorem Inv.underway (h : s.Inv) {t : CloseRun} (hsides : ∀ o ∈ t.resting, o.closes = true)
    (hcalls : ∀ c ∈ t.calls, c ∈ s.calls ∨
      ∀ spec, c.suspended = .placing spec → hasKind "EXIT" spec.orderRef = true)
    (hne : t.calls ≠ []) : t.Inv := by
  refine ⟨hsides, fun c hmem => ?_, fun _ => Or.inl hne⟩
  rcases hcalls c hmem with hold | hnew
  · exact h.exits c hold
  · exact hnew

theorem Inv.closed (h : s.Inv) (quantity : ℚ) (isLong : Bool) (reason : String) (quote : Option Quote)
    (now : Now) : (s.step (.closed quantity isLong reason quote now)).Inv := by
  refine h.underway h.sides (fun c hmem => ?_) (by simp [step])
  rcases List.mem_append.mp hmem with hold | hnew
  · exact Or.inl hold
  · rw [List.mem_singleton.mp hnew]
    exact Or.inr fun spec hspec => hasKind_closeFrom hspec

theorem Inv.cancelReturned (h : s.Inv) (i : ℕ) (reply : CancelReply) (quote : Option Quote) (now : Now) :
    (s.cancelReturned i reply quote now).Inv := by
  unfold CloseRun.cancelReturned
  split
  · rename_i call orderId refs hcall
    obtain ⟨-, hasked, hresting⟩ := s.ask_spec orderId reply
    refine h.underway ?_ (fun c hmem => ?_) ?_
    · intro o hmem
      obtain ⟨o', hmem', hcloses⟩ := hresting o hmem
      rw [hcloses]
      exact h.sides o' hmem'
    · rcases List.mem_or_eq_of_mem_set hmem with hold | rfl
      · exact Or.inl (hasked ▸ hold)
      · exact Or.inr fun spec hspec => hasKind_closeFrom hspec
    · intro hnil
      have hlength := congrArg List.length hnil
      simp only [List.length_set, List.length_nil, List.length_eq_zero_iff] at hlength
      rw [← hasked, hlength] at hcall
      cases hcall
  · exact h

theorem Inv.placeReturned (h : s.Inv) (i : ℕ) (reply : Except String BrokerOrderStatus) (now : Now)
    (hcareful : s.Careful (.placeReturned i reply now)) : (s.placeReturned i reply now).Inv := by
  unfold CloseRun.placeReturned
  split
  · rename_i call spec hcall
    have haccepts : s.Accepts spec reply := by
      unfold Careful at hcareful
      dsimp only at hcareful
      rw [hcall] at hcareful
      exact hcareful
    have hkind := h.exits _ (List.mem_of_getElem? hcall) spec rfl
    have hexits : ∀ c ∈ s.calls.eraseIdx i, ∀ spec, c.suspended = .placing spec →
        hasKind "EXIT" spec.orderRef = true := fun c hmem => h.exits c (List.mem_of_mem_eraseIdx hmem)
    cases reply with
    | error e => exact ⟨h.sides, hexits, fun hopen => absurd hopen (not_lt.mpr haccepts)⟩
    | ok status =>
      obtain ⟨hside, haccepted⟩ := haccepts
      have hcloses : decide (spec.action = s.exitAction) = true := by simpa using hside
      refine ⟨fun o hmem => ?_, hexits, fun hopen => Or.inr ?_⟩
      · rcases List.mem_append.mp hmem with hold | hnew
        · exact h.sides o hold
        · split_ifs at hnew
          · rw [List.mem_singleton.mp hnew]
            exact hcloses
          · exact absurd hnew List.not_mem_nil
      · obtain ⟨hlarge, hworks⟩ := haccepted hopen
        dsimp only
        rw [if_pos hworks]
        refine ⟨_, List.mem_append_right _ (List.mem_singleton.mpr rfl), ?_, rfl, hlarge⟩
        rw [Resting.protects, Bool.and_eq_true, Bool.or_eq_true]
        exact ⟨hcloses, Or.inr hkind⟩
  · exact h

theorem Inv.expireReturned (h : s.Inv) (reply : CancelReply)
    (hcareful : s.Careful (.expireReturned reply)) : (s.step (.expireReturned reply)).Inv := by
  unfold step
  cases hexpiring : s.expiring with
  | none => exact h
  | some x =>
    obtain ⟨hheld, hcalls, hresting⟩ := s.ask_spec x.orderId reply
    refine ⟨fun o hmem => ?_, fun c hmem => ?_, fun hopen => ?_⟩
    · obtain ⟨o', hmem', hcloses⟩ := hresting o hmem
      rw [hcloses]
      exact h.sides o' hmem'
    · exact h.exits c (hcalls ▸ hmem)
    · rcases h.kept (hheld ▸ hopen) with hbusy | ⟨o, hmem, hsecures⟩
      · exact Or.inl (hcalls ▸ hbusy)
      · have hother : reply = .sent → o.orderId ≠ x.orderId := by
          rintro rfl
          unfold Careful at hcareful
          dsimp only at hcareful
          rw [hexpiring] at hcareful
          exact hcareful o hmem hsecures.1
        refine Or.inr ⟨o, mem_ask hmem hother, hsecures.1, hsecures.2.1, ?_⟩
        exact hheld ▸ hsecures.2.2

theorem Inv.filled (h : s.Inv) (i : ℕ) (quantity : ℚ) : (s.filled i quantity).Inv := by
  unfold CloseRun.filled
  cases hfilled : s.resting[i]? with
  | none => exact h
  | some o =>
    dsimp only
    split_ifs with hfits hcloses hall hall
    · refine ⟨fun o' hmem => h.sides o' (List.mem_of_mem_eraseIdx hmem), h.exits, fun hopen => ?_⟩
      have hbefore : 0 < s.held := lt_trans hopen (sub_lt_self _ hfits.1)
      rcases h.kept hbefore with hbusy | ⟨o', hmem, hsecures⟩
      · exact Or.inl hbusy
      · obtain ⟨j, hj⟩ := List.mem_iff_getElem?.mp hmem
        by_cases hji : j = i
        · -- the securing order is the one that is done, and so is the position
          rw [hji, hfilled] at hj
          obtain rfl := Option.some.inj hj
          have hclosed : s.held - quantity ≤ 0 := by
            rw [hall]
            exact sub_nonpos.mpr hsecures.2.2
          exact absurd hopen (not_lt.mpr hclosed)
        · refine Or.inr ⟨o', List.mem_eraseIdx_iff_getElem?.mpr ⟨j, hji, hj⟩, hsecures.1, hsecures.2.1, ?_⟩
          exact (sub_le_self _ hfits.1.le).trans hsecures.2.2
    · refine ⟨fun o' hmem => ?_, h.exits, fun hopen => ?_⟩
      · rcases List.mem_or_eq_of_mem_set hmem with hold | rfl
        · exact h.sides o' hold
        · exact hcloses
      · have hbefore : 0 < s.held := lt_trans hopen (sub_lt_self _ hfits.1)
        rcases h.kept hbefore with hbusy | ⟨o', hmem, hsecures⟩
        · exact Or.inl hbusy
        · obtain ⟨j, hj⟩ := List.mem_iff_getElem?.mp hmem
          have hlt : i < s.resting.length := (List.getElem?_eq_some_iff.mp hfilled).1
          by_cases hji : j = i
          · rw [hji, hfilled] at hj
            obtain rfl := Option.some.inj hj
            refine Or.inr ⟨_, List.mem_iff_getElem?.mpr ⟨i, List.getElem?_set_self hlt⟩, hsecures.1,
              hsecures.2.1, ?_⟩
            exact sub_le_sub_right hsecures.2.2 quantity
          · refine Or.inr ⟨o', List.mem_iff_getElem?.mpr ⟨j, ?_⟩, hsecures.1, hsecures.2.1, ?_⟩
            · rw [List.getElem?_set_ne (Ne.symm hji)]
              exact hj
            · exact (sub_le_self _ hfits.1.le).trans hsecures.2.2
    · exact absurd (h.sides o (List.mem_of_getElem? hfilled)) hcloses
    · exact absurd (h.sides o (List.mem_of_getElem? hfilled)) hcloses
    · exact h

theorem Inv.ended (h : s.Inv) (i : ℕ) (hcareful : s.Careful (.ended i)) : (s.step (.ended i)).Inv := by
  refine ⟨fun o hmem => h.sides o (List.mem_of_mem_eraseIdx hmem), h.exits, fun hopen => ?_⟩
  rcases h.kept hopen with hbusy | ⟨o, hmem, hsecures⟩
  · exact Or.inl hbusy
  · obtain ⟨j, hj⟩ := List.mem_iff_getElem?.mp hmem
    by_cases hji : j = i
    · rw [hji] at hj
      have hallowed : o.protects = true → o.asked = true ∨ s.held ≤ 0 := by
        unfold Careful at hcareful
        dsimp only at hcareful
        rw [hj] at hcareful
        exact hcareful
      rcases hallowed hsecures.1 with hasked | hclosed
      · rw [hsecures.2.1] at hasked
        cases hasked
      · exact absurd hopen (not_lt.mpr hclosed)
    · exact Or.inr ⟨o, List.mem_eraseIdx_iff_getElem?.mpr ⟨j, hji, hj⟩, hsecures⟩

theorem Inv.step (h : s.Inv) (e : Event) (hcareful : s.Careful e) : (s.step e).Inv := by
  cases e with
  | closed quantity isLong reason quote now => exact h.closed quantity isLong reason quote now
  | cancelReturned i reply quote now => exact h.cancelReturned i reply quote now
  | placeReturned i reply now => exact h.placeReturned i reply now hcareful
  | ticked now =>
    unfold CloseRun.step
    dsimp only
    split
    · exact ⟨h.sides, h.exits, h.kept⟩
    · exact h
  | expireReturned reply => exact h.expireReturned reply hcareful
  | status status now => exact ⟨h.sides, h.exits, h.kept⟩
  | filled i quantity => exact h.filled i quantity
  | ended i => exact h.ended i hcareful

/-! ### Runs -/

/-- A position with the orders that rest for it at the broker, and no task under way. -/
def start (cfg : BrokerConfig) (orders : OrderManager) (symbol : String) (isLong : Bool) (held : ℚ)
    (resting : List Resting) : CloseRun :=
  { cfg, orders, symbol, isLong, held, resting }

/-- **When closing leaves no position naked.** A position is protected by a working stop that is large enough,
and every resting order reduces it. In every run of closes, answers of the broker, status events, fills and
ticks whose steps are all careful, the open part has a live stop or exit whenever no close is under way. -/
theorem close_keeps_cover (cfg : BrokerConfig) (orders : OrderManager) (symbol : String) (isLong : Bool)
    (held : ℚ) (resting : List Resting) (hsides : ∀ o ∈ resting, o.closes = true)
    (hstop : ∃ o ∈ resting, o.protects = true ∧ o.asked = false ∧ held ≤ o.remaining) (events : List Event)
    (hcareful : Trace.Each CloseRun.step Careful (start cfg orders symbol isLong held resting) events) :
    Trace.Always CloseRun.step Covered (start cfg orders symbol isLong held resting) events := by
  have hstep : ∀ (s : CloseRun) e, s.Inv → s.Careful e → (s.step e).Inv := fun s e hI hC => hI.step e hC
  have hP : ∀ s : CloseRun, s.Inv → s.Covered := fun s hI => hI.covered
  have hstart : (start cfg orders symbol isLong held resting).Inv :=
    ⟨hsides, fun c hmem => (nomatch hmem), fun _ => Or.inr hstop⟩
  exact Trace.always_of_inductive hstep hP hstart hcareful

/-! #### An exit that does not fill at once -/

def aaplLegs : List Resting :=
  [{ orderRef := makeRef "c1" "AAPL" "STOP" "2025-01-02", orderId := 8, closes := true, remaining := 10 },
    { orderRef := makeRef "c1" "AAPL" "TARGET" "2025-01-02", orderId := 9, closes := true, remaining := 10 }]

/-- Ten AAPL are held; the entry has filled, the stop and the target rest at the broker. -/
def bracketed : CloseRun := start {} CloseDesk.bracketHeld "AAPL" true 10 aaplLegs

def after (seconds : ℚ) : Now := .sample seconds seconds

def exitStatus (status : String) (filled : ℚ) : BrokerOrderStatus where
  orderRef := makeRef "exit-10" "AAPL" "EXIT" "2025-01-02"
  orderId := 11
  permId := none
  status
  filled
  remaining := 10 - filled
  avgFillPrice := none

/-- The position is closed: the legs are cancelled and the exit rests at its limit. -/
def exitResting : List Event :=
  [.closed 10 true "end of day" none (after 10),
    .cancelReturned 0 .sent none (after 10),
    .cancelReturned 0 .sent none (after 10),
    .placeReturned 0 (.ok (exitStatus "Submitted" 0)) (after 10),
    .ended 0, .status (CloseDesk.legStatus "STOP" 8 "Cancelled" 0) (after 11),
    .ended 0, .status (CloseDesk.legStatus "TARGET" 9 "Cancelled" 0) (after 11)]

/-- The exit takes longer than an entry may. -/
def exitExpired : List Event :=
  exitResting ++ [.ticked (after 101), .expireReturned .sent, .ended 0]

theorem close_keeps_cover_filled :
    Trace.Always CloseRun.step Covered bracketed (exitResting ++ [Event.filled 0 10]) :=
  close_keeps_cover {} CloseDesk.bracketHeld "AAPL" true 10 aaplLegs (by decide +kernel)
    (by decide +kernel) (exitResting ++ [Event.filled 0 10]) (by decide +kernel)

/-- After ninety seconds the tick takes the exit for a stale entry and cancels it. Ten shares are held, and
nothing is live at the broker. -/
theorem exit_expired_naked : ¬ Trace.Always CloseRun.step Covered bracketed exitExpired := by
  decide +kernel

end CloseRun

end AiTrader
