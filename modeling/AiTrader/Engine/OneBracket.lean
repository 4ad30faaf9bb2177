import AiTrader.Engine.DeskRun

/-!
# No second bracket on a live one

Check 20 refuses a symbol with a working record. Between the check and the call of the broker nothing else
runs, so at the call every working record of the symbol is one of the three just written.

The records of a bracket are found under their references for good: no other bracket, exit or adopted order
takes their place. So they keep blocking the symbol, also when the call has raised and the block has expired,
until a status or a reconciliation makes them terminal (`one_bracket_per_symbol`).

The history keeps the legs that have been written and not been resolved since. Each of them works under its reference
(`LegInv`), and the moves that put records into the book put them under references of another kind or of another
bracket (`LegInv.ref_ne_bracket`), or make records terminal, which resolves them. Check 20 has therefore seen the
symbols of all unresolved legs when it passes an order.
-/

namespace AiTrader.DeskRun

open Lib OrderManager

/-- Every working record of the symbol belongs to the bracket. -/
def Alone (orders : OrderBook) (order : SizedOrder) (cycleId : String) (now : Now) : Prop :=
  ∀ ref mo, orders.get? ref = some mo → mo.symbol = order.symbol → mo.isWorking = true →
    ∃ leg ∈ Leg.bracket order cycleId now, leg.ref = ref

/-- A submission that calls the broker does so with no other working record of its symbol, and with no
unresolved record of an earlier bracket for it. -/
def Exclusive (s : DeskRun) : Now × Move → Prop
  | (now, .submitted order ctx cycleId) =>
    s.calling order ctx cycleId now = true →
      Alone (s.submit order ctx cycleId now).desk.orders.orders order cycleId now ∧
        ∀ leg ∈ s.unresolved, leg.symbol ≠ order.symbol
  | _ => True

/-! ### References of a bracket -/

theorem map_ref_bracket (order : SizedOrder) (cycleId : String) (now : Now) :
    (Leg.bracket order cycleId now).map Leg.ref = (bracketRows order cycleId now).map ManagedOrder.orderRef :=
  rfl

theorem exists_leg {order : SizedOrder} {cycleId : String} {now : Now} {row : ManagedOrder}
    (h : row ∈ bracketRows order cycleId now) : ∃ leg ∈ Leg.bracket order cycleId now, leg.ref = row.orderRef := by
  apply List.mem_map.mp
  rw [map_ref_bracket]
  exact List.mem_map_of_mem h

theorem exists_row {order : SizedOrder} {cycleId : String} {now : Now} {leg : Leg}
    (h : leg ∈ Leg.bracket order cycleId now) : ∃ row ∈ bracketRows order cycleId now, row.orderRef = leg.ref := by
  apply List.mem_map.mp
  rw [← map_ref_bracket]
  exact List.mem_map_of_mem h

theorem mem_bracket {order : SizedOrder} {cycleId : String} {now : Now} {leg : Leg} :
    leg ∈ Leg.bracket order cycleId now ↔
      ∃ kind ∈ Leg.kinds, leg = { cycleId, symbol := order.symbol, kind, date := now.date } := by
  rw [Leg.bracket, List.mem_map]
  simp only [eq_comm]

theorem colon_not_mem_kind {kind : String} (h : kind ∈ Leg.kinds) : ':' ∉ kind.toList := by
  revert h kind
  decide

theorem entryRef_of_ref_eq {leg leg' : Leg} (h : leg.kind ∈ Leg.kinds) (h' : leg'.kind ∈ Leg.kinds)
    (heq : leg.ref = leg'.ref) : leg.entryRef = leg'.entryRef := by
  have hkind : leg.kind = leg'.kind := by
    by_contra hne
    exact makeRef_ne_of_kind (colon_not_mem_kind h) (colon_not_mem_kind h') hne _ _ _ _ _ _ heq
  rw [Leg.ref, Leg.ref, hkind] at heq
  exact makeRef_kind_congr heq "ENTRY"

/-! ### The invariant -/

/-- The unresolved records work, and the entry of each one's bracket is in the book. -/
structure LegInv (s : DeskRun) : Prop where
  isOpen : ∀ leg ∈ s.unresolved, leg.isOpen s.desk.orders.orders = true
  entry : ∀ leg ∈ s.unresolved, (s.desk.orders.orders.get? leg.entryRef).isSome = true
  kind : ∀ leg ∈ s.unresolved, leg.kind ∈ Leg.kinds

variable {s : DeskRun}

theorem LegInv.mem_workingSymbols (h : s.LegInv) {leg : Leg} (hmem : leg ∈ s.unresolved) :
    leg.symbol ∈ s.desk.orders.workingSymbols := by
  have hopen := h.isOpen leg hmem
  rw [Leg.isOpen, Option.any_eq_true] at hopen
  obtain ⟨mo, hget, hworks⟩ := hopen
  rw [Bool.and_eq_true, decide_eq_true_eq] at hworks
  exact OrderManager.mem_workingSymbols.mpr ⟨leg.ref, mo, hget, hworks⟩

theorem LegInv.of_eq (h : s.LegInv) {s' : DeskRun} (horders : s'.desk.orders.orders = s.desk.orders.orders)
    (hunresolved : s'.unresolved = s.unresolved) : s'.LegInv := by
  refine ⟨?_, ?_, ?_⟩ <;> rw [hunresolved]
  · rw [horders]
    exact h.isOpen
  · rw [horders]
    exact h.entry
  · exact h.kind

theorem LegInv.settle (h : s.LegInv) {s' : DeskRun}
    (hextends : s.desk.orders.orders.Extends s'.desk.orders.orders) (hunresolved : s'.unresolved = s.unresolved) :
    s'.settle.LegInv := by
  refine ⟨fun leg hmem => ?_, fun leg hmem => ?_, fun leg hmem => ?_⟩ <;>
    obtain ⟨hmem, hopen⟩ := List.mem_filter.mp hmem <;> rw [hunresolved] at hmem
  · exact hopen
  · exact hextends _ (h.entry leg hmem)
  · exact h.kind leg hmem

theorem LegInv.put (h : s.LegInv) {s' : DeskRun} {mo : ManagedOrder}
    (horders : s'.desk.orders.orders = s.desk.orders.orders.put mo) (hunresolved : s'.unresolved = s.unresolved)
    (hother : ∀ leg ∈ s.unresolved, leg.ref ≠ mo.orderRef) : s'.LegInv := by
  refine ⟨?_, ?_, ?_⟩ <;> rw [hunresolved]
  · intro leg hmem
    rw [horders, Leg.isOpen, OrderBook.get?_put, if_neg (hother leg hmem)]
    exact h.isOpen leg hmem
  · intro leg hmem
    rw [horders]
    exact OrderBook.extends_put _ _ _ (h.entry leg hmem)
  · exact h.kind

/-! ### One move -/

theorem LegInv.symbol_ne (h : s.LegInv) {order : SizedOrder} {ctx : RiskContext} {now : Now}
    (hpassed : s.desk.risk.Passed order (s.context ctx) now) : ∀ leg ∈ s.unresolved, leg.symbol ≠ order.symbol := by
  intro leg hmem hsymbol
  have hworking := h.mem_workingSymbols hmem
  rw [hsymbol] at hworking
  exact hpassed.not_working hworking

theorem LegInv.ref_ne_bracket (h : s.LegInv) {order : SizedOrder} {cycleId : String} {now : Now}
    (hunknown : s.desk.orders.orders.get? (makeRef cycleId order.symbol "ENTRY" now.date) = none) :
    ∀ leg ∈ s.unresolved, ∀ mo ∈ bracketRows order cycleId now, leg.ref ≠ mo.orderRef := by
  intro leg hmem mo hmo heq
  obtain ⟨leg', hleg', href'⟩ := exists_leg hmo
  obtain ⟨kind, hkind, rfl⟩ := mem_bracket.mp hleg'
  have hentry := entryRef_of_ref_eq (h.kind leg hmem) hkind (heq.trans href'.symm)
  have hknown := h.entry leg hmem
  rw [hentry] at hknown
  exact absurd hknown (by rw [Leg.entryRef, hunknown]; exact Bool.false_ne_true)

theorem isOpen_bracket (b : OrderBook) (order : SizedOrder) (cycleId : String) (now : Now) :
    ∀ leg ∈ Leg.bracket order cycleId now,
      leg.isOpen ((bracketRows order cycleId now).foldl OrderBook.put b) = true ∧ leg.symbol = order.symbol := by
  have hfound := OrderBook.get?_foldl_put_mem (pairwise_bracketRows order cycleId now) b
  intro leg hleg
  obtain ⟨mo, hmo, heq⟩ := exists_row hleg
  obtain ⟨hworking, hsymbol⟩ := works_bracketRows order cycleId now mo hmo
  obtain ⟨kind, -, rfl⟩ := mem_bracket.mp hleg
  refine ⟨?_, rfl⟩
  rw [Leg.isOpen, ← heq, hfound mo hmo]
  simp [hworking, hsymbol]

theorem entry_mem_bracketRows (order : SizedOrder) (cycleId : String) (now : Now) :
    (bracketRecords order cycleId now).1 ∈ bracketRows order cycleId now :=
  List.mem_cons_self

theorem LegInv.submit (h : s.LegInv) (order : SizedOrder) (ctx : RiskContext) (cycleId : String) (now : Now) :
    (s.submit order ctx cycleId now).LegInv := by
  obtain ⟨desk, -, -, hcases⟩ := s.submit_cases order ctx cycleId now
  rcases hcases with ⟨-, hsubmit, horders⟩ | ⟨-, -, hunknown, horders, flight, -, hsubmit⟩
  · rw [hsubmit]
    exact h.of_eq horders rfl
  · have hne := h.ref_ne_bracket hunknown
    rw [hsubmit]
    refine ⟨fun leg hmem => ?_, fun leg hmem => ?_, fun leg hmem => ?_⟩ <;>
      rcases List.mem_append.mp hmem with hmem | hmem
    · show leg.isOpen desk.orders.orders = true
      rw [horders, Leg.isOpen, OrderBook.get?_foldl_put_ne (hne leg hmem)]
      exact h.isOpen leg hmem
    · show leg.isOpen desk.orders.orders = true
      rw [horders]
      exact (isOpen_bracket _ order cycleId now leg hmem).1
    · show (desk.orders.orders.get? leg.entryRef).isSome = true
      rw [horders]
      exact OrderBook.extends_foldl_put _ _ _ (h.entry leg hmem)
    · obtain ⟨kind, -, rfl⟩ := mem_bracket.mp hmem
      show (desk.orders.orders.get? _).isSome = true
      rw [horders]
      exact Option.isSome_iff_exists.mpr ⟨_, OrderBook.get?_foldl_put_mem
        (pairwise_bracketRows order cycleId now) s.desk.orders.orders _ (entry_mem_bracketRows order cycleId now)⟩
    · exact h.kind leg hmem
    · obtain ⟨kind, hkind, rfl⟩ := mem_bracket.mp hmem
      exact hkind

theorem extends_absorbAll (now : Now) (opens completed : List BrokerOrderStatus) (m : OrderManager) :
    m.orders.Extends (absorbAll now opens completed m).1.orders := by
  refine absorbAll_keeps (motive := fun m' => m.orders.Extends m'.orders) (fun m' status h => ?_) opens completed
    (.refl _)
  exact h.trans (extends_applyStatus m' status now)

theorem extends_resolveMaybeSent (known : List String) (now : Now) (records : List ManagedOrder)
    (r : OrderManager × ReconciliationReport) :
    (∀ r', resolveMaybeSent known now records r = .ok r' → r.1.orders.Extends r'.1.orders) ∧
      ∀ r', resolveMaybeSent known now records r = .error r' → r.1.orders.Extends r'.1.orders := by
  refine resolveMaybeSent_keeps (motive := fun m => r.1.orders.Extends m.orders) (fun mo _ r₁ h => ?_) (.refl _)
  have hput : r₁.1.orders.Extends (r₁.1.orders.put (neverSent mo now)) := OrderBook.extends_put _ _
  obtain ⟨hok, herror⟩ := orders_resolveOne known now r₁ mo
  refine ⟨fun r' hr => ?_, fun r' hr => ?_⟩
  · rcases hok r' hr with horders | horders
    · rw [horders]
      exact h
    · rw [horders]
      exact h.trans hput
  · rw [herror r' hr]
    exact h.trans hput

theorem extends_reconciledOrders (m : OrderManager) (opens completed : List BrokerOrderStatus) (now : Now) :
    m.orders.Extends (reconciledOrders m opens completed now).orders := by
  refine (extends_absorbAll now opens completed m).trans ?_
  unfold reconciledOrders
  dsimp only
  have hresolve := extends_resolveMaybeSent
    (((opens ++ completed).map BrokerOrderStatus.orderRef).filter fun ref => ref ≠ "") now
    (absorbAll now opens completed m).1.orders.values (absorbAll now opens completed m)
  split
  · rename_i r hok
    exact hresolve.1 r hok
  · rename_i r hraised
    exact hresolve.2 r hraised

theorem extends_finish (d : Desk) (entry : Submission) (reply : Except String (List BrokerOrderStatus))
    (now : Now) : d.orders.orders.Extends (d.finish entry reply now).1.orders.orders := by
  cases reply with
  | error exc => exact .refl _
  | ok statuses => exact extends_foldl (fun m status => extends_applyStatus m status now) d.orders statuses

theorem LegInv.act (h : s.LegInv) (now : Now) (move : Move) : (s.act now move).LegInv := by
  cases move with
  | submitted order ctx cycleId => exact h.submit order ctx cycleId now
  | paced i account ids =>
    show (s.pace i account ids).LegInv
    rcases s.pace_cases i account ids with hsame | ⟨flight, orders, -, -, hsent⟩
    · rw [hsame]
      exact h
    · rw [hsent]
      exact h.of_eq rfl rfl
  | answered i reply =>
    show (s.answer i reply now).LegInv
    rcases s.answer_cases i reply now with hsame | ⟨flight, hanswer⟩
    · rw [hsame]
      exact h
    · rw [hanswer]
      exact h.settle (extends_finish s.desk flight.entry reply now) rfl
  | status status => exact h.settle (extends_applyStatus s.desk.orders status now) rfl
  | executed execution => exact h.of_eq (orders_onExecution _ _) rfl
  | closing symbol quantity isLong reason quote =>
    have hexit : ∀ leg ∈ s.unresolved, leg.ref ≠
        makeRef ("exit-" ++ epochSeconds now) symbol "EXIT" now.date := by
      intro leg hmem
      have hkind := h.kind leg hmem
      refine makeRef_ne_of_kind (colon_not_mem_kind hkind) (by decide) ?_ _ _ _ _ _ _
      intro heq
      rw [heq] at hkind
      exact absurd hkind (by decide)
    exact h.put rfl rfl hexit
  | reconciled opens completed => exact h.settle (extends_reconciledOrders s.desk.orders opens completed now) rfl
  | recovering symbol p reference => exact h.settle (OrderBook.extends_put _ _) rfl
  | _ => exact h.of_eq rfl rfl

theorem LegInv.exclusive (h : s.LegInv) (e : Now × Move) : s.Exclusive e := by
  obtain ⟨now, move⟩ := e
  cases move with
  | submitted order ctx cycleId =>
    intro hcalling
    obtain ⟨desk, -, -, hcases⟩ := s.submit_cases order ctx cycleId now
    rcases hcases with ⟨hreturned, -, -⟩ | ⟨-, hpassed, -, horders, flight, -, hsubmit⟩
    · rw [hreturned] at hcalling
      cases hcalling
    · refine ⟨fun ref mo hget hsymbol hworking => ?_, h.symbol_ne hpassed⟩
      rw [hsubmit] at hget
      by_contra hnone
      have hne : ∀ row ∈ bracketRows order cycleId now, ref ≠ row.orderRef := by
        intro row hrow heq
        obtain ⟨leg, hleg, hlegRef⟩ := exists_leg hrow
        exact hnone ⟨leg, hleg, hlegRef.trans heq.symm⟩
      -- the record is an old one, and check 20 has seen its symbol
      have hold : s.desk.orders.orders.get? ref = some mo := by
        rw [← OrderBook.get?_foldl_put_ne hne, ← horders]
        exact hget
      exact hpassed.not_working (OrderManager.mem_workingSymbols.mpr ⟨ref, mo, hold, hworking, hsymbol⟩)
  | _ => trivial

/-- **No second bracket on a live one.** From any desk, in every run of submissions, answers of the broker,
statuses, exits, reconciliations and expiries of blocks: whenever a submission calls the broker's
`place_bracket` for a symbol, every working record of the symbol is one of the three just written, and no
earlier bracket of the symbol has a record that no status and no reconciliation has resolved. -/
theorem one_bracket_per_symbol (desk : Desk) (clock : ℚ) (moves : List (Now × Move)) :
    Trace.Each step Exclusive (start desk clock) moves := by
  have hstep : ∀ (s : DeskRun) e, s.LegInv → (s.step e).LegInv := by
    intro s e hI
    unfold DeskRun.step
    split_ifs
    · exact (hI.act e.1 e.2).of_eq rfl rfl
    · exact hI
  have hD : ∀ (s : DeskRun) e, s.LegInv → s.Exclusive e := fun s e hI => hI.exclusive e
  have hstart : (start desk clock).LegInv :=
    ⟨fun leg hmem => (nomatch hmem), fun leg hmem => (nomatch hmem), fun leg hmem => (nomatch hmem)⟩
  exact Trace.each_of_invariant hstep hD hstart

end AiTrader.DeskRun
