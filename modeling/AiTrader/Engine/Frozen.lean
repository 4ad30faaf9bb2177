import AiTrader.Broker.FreshRefs
import AiTrader.Engine.OrderRate

/-!
# After a failed placement

When `place_bracket` raises, two things hold the symbol back. The block of the order manager expires after
`blockTtlSeconds`. The three records written ahead stay `PENDING`, without an order id, and check 20 takes
them for working orders: they have no lifetime at all, and the sweep of stale orders passes over them.

So where nothing is heard of the symbol any more, the expiry of the block frees it only if none of its records
works when the placement fails (`unfreezes_iff`).

Between the failure and the new order the rest of the program runs. Its moves are `Quiet` about a symbol when none of
them is about an order of it: submissions, exits, answers and statuses of others, and no reconciliation. Quiet moves
leave the records of the symbol as they are and set no block for it (`Spared`), and no block is younger than the clock
(`BlocksPast`). So when the block has expired, an order that the gate would otherwise pass reaches the broker exactly
if no record works (`Proper.reaches_iff`).
-/

namespace AiTrader

open Lib

namespace OrderManager

/-! ### The records of one symbol -/

/-- The record at the reference, where it is one of the symbol. -/
def recordOf (m : OrderManager) (symbol ref : String) : Option ManagedOrder :=
  (m.orders.get? ref).filter fun mo => mo.symbol = symbol

/-- The symbol has the same records in both. -/
def SameRecords (symbol : String) (m m' : OrderManager) : Prop :=
  ∀ ref, m'.recordOf symbol ref = m.recordOf symbol ref

/-- A record for `other` under the reference is none of the symbol's and takes the place of none. -/
def Elsewhere (m : OrderManager) (symbol ref other : String) : Prop :=
  other ≠ symbol ∧ m.recordOf symbol ref = none

variable {m m' m'' : OrderManager} {symbol : String}

theorem SameRecords.of_orders (h : m'.orders = m.orders) : SameRecords symbol m m' := by
  intro ref
  rw [recordOf, recordOf, h]

theorem SameRecords.trans (h : SameRecords symbol m m') (h' : SameRecords symbol m' m'') :
    SameRecords symbol m m'' :=
  fun ref => (h' ref).trans (h ref)

theorem mem_workingSymbols_iff_recordOf :
    symbol ∈ m.workingSymbols ↔ ∃ ref mo, m.recordOf symbol ref = some mo ∧ mo.isWorking = true := by
  rw [mem_workingSymbols]
  refine exists_congr fun ref => exists_congr fun mo => ?_
  rw [recordOf, Option.filter_eq_some_iff, decide_eq_true_eq, and_assoc]
  exact and_congr_right fun _ => and_comm

theorem SameRecords.mem_workingSymbols (h : SameRecords symbol m m') :
    symbol ∈ m'.workingSymbols ↔ symbol ∈ m.workingSymbols := by
  simp only [mem_workingSymbols_iff_recordOf, h _]

theorem sameRecords_put {mo : ManagedOrder} (h : m.Elsewhere symbol mo.orderRef mo.symbol) :
    SameRecords symbol m (m.put mo) := by
  intro ref
  rw [recordOf, orders_put, OrderBook.get?_put]
  split_ifs with href
  · rw [href, h.2, Option.filter_some, decide_eq_false h.1, if_neg Bool.false_ne_true]
  · rfl

theorem sameRecords_write {mo : ManagedOrder} (h : m.Elsewhere symbol mo.orderRef mo.symbol) :
    SameRecords symbol m (m.write mo) :=
  sameRecords_put h

theorem sameRecords_applyStatus {status : BrokerOrderStatus} (now : Now)
    (h : m.Elsewhere symbol status.orderRef status.symbol) : SameRecords symbol m (m.applyStatus status now) := by
  intro ref
  rw [recordOf, get?_applyStatus]
  split_ifs with href
  · have hnone := h.2
    subst href
    rw [hnone]
    rw [recordOf, Option.filter_eq_none_iff] at hnone
    unfold statusOn
    rw [Option.filter_eq_none_iff]
    cases hget : m.orders.get? status.orderRef with
    | some mo =>
      intro mo' hmo'
      obtain rfl := Option.some.inj hmo'
      exact hnone mo hget
    | none =>
      intro mo' hmo'
      obtain ⟨-, rfl⟩ : _ ∧ (ManagedOrder.adopted status now.epoch).absorb status now.epoch = mo' := by
        simpa using hmo'
      rw [decide_eq_true_eq]
      exact h.1
  · rfl

theorem SameRecords.foldl {α : Type} {f : OrderManager → α → OrderManager} {ref other : α → String}
    (hf : ∀ m a, m.Elsewhere symbol (ref a) (other a) → SameRecords symbol m (f m a)) (as : List α)
    (h : ∀ a ∈ as, m.Elsewhere symbol (ref a) (other a)) : SameRecords symbol m (as.foldl f m) := by
  induction as generalizing m with
  | nil => exact fun _ => rfl
  | cons a as ih =>
    have hone := hf m a (h a List.mem_cons_self)
    refine hone.trans (ih fun b hb => ?_)
    have hb := h b (List.mem_cons_of_mem _ hb)
    exact ⟨hb.1, (hone _).trans hb.2⟩

/-! ### When blocks were set -/

@[simp] theorem blockedSymbols_write (m : OrderManager) (mo : ManagedOrder) :
    (m.write mo).blockedSymbols = m.blockedSymbols := rfl

@[simp] theorem blockedSymbols_onExecution (m : OrderManager) (e : BrokerExecution) :
    (m.onExecution e).blockedSymbols = m.blockedSymbols := by
  rw [onExecution]
  split_ifs <;> rfl

theorem blockedSymbols_foldl {α : Type} {f : OrderManager → α → OrderManager}
    (hf : ∀ m a, (f m a).blockedSymbols = m.blockedSymbols) (m : OrderManager) (as : List α) :
    (as.foldl f m).blockedSymbols = m.blockedSymbols := by
  induction as generalizing m with
  | nil => rfl
  | cons a as ih => exact (ih _).trans (hf m a)

theorem get?_unblockExpired {now : Now} {t : ℚ} :
    (m.unblockExpired now).blockedSymbols.get? symbol = some t ↔
      m.blockedSymbols.get? symbol = some t ∧ now.mono ≤ t + blockTtlSeconds := by
  rw [Dict.get?_eq_some_iff, Dict.get?_eq_some_iff, unblockExpired, Dict.mem_entries_filter]
  refine and_congr_right fun _ => ?_
  rw [Bool.not_eq_true', decide_eq_false_iff_not, not_lt, sub_le_iff_le_add']

theorem blockedSymbols_absorbAll (now : Now) (opens completed : List BrokerOrderStatus) (m : OrderManager) :
    (absorbAll now opens completed m).1.blockedSymbols = m.blockedSymbols := by
  refine absorbAll_keeps (motive := fun m' => m'.blockedSymbols = m.blockedSymbols) (fun m' status h => ?_) opens
    completed rfl
  exact (blockedSymbols_applyStatus m' status now).trans h

theorem blockedSymbols_recordNeverSent {m m' : OrderManager} {mo : ManagedOrder}
    (h : m.recordNeverSent mo = some m') : m'.blockedSymbols = m.blockedSymbols := by
  unfold recordNeverSent at h
  split at h
  · obtain rfl := Option.some.inj h
    rfl
  · obtain ⟨s, -, rfl⟩ := Option.map_eq_some_iff.mp h
    rfl

theorem blockedSymbols_resolveOne (known : List String) (now : Now) (r : OrderManager × ReconciliationReport)
    (mo : ManagedOrder) :
    (∀ r', resolveOne known now r mo = .ok r' → r'.1.blockedSymbols = r.1.blockedSymbols) ∧
      ∀ r', resolveOne known now r mo = .error r' → r'.1.blockedSymbols = r.1.blockedSymbols := by
  unfold resolveOne
  split_ifs
  · dsimp only
    split
    · refine ⟨fun r' h => (nomatch h), fun r' h => ?_⟩
      obtain rfl := Except.error.inj h
      rfl
    · rename_i m' hrecorded
      refine ⟨fun r' h => ?_, fun r' h => (nomatch h)⟩
      obtain rfl := Except.ok.inj h
      have hsame := blockedSymbols_recordNeverSent hrecorded
      exact hsame
  · refine ⟨fun r' h => ?_, fun r' h => (nomatch h)⟩
    obtain rfl := Except.ok.inj h
    rfl

theorem blockedSymbols_resolveMaybeSent (known : List String) (now : Now) (records : List ManagedOrder)
    (r : OrderManager × ReconciliationReport) :
    (∀ r', resolveMaybeSent known now records r = .ok r' → r'.1.blockedSymbols = r.1.blockedSymbols) ∧
      ∀ r', resolveMaybeSent known now records r = .error r' → r'.1.blockedSymbols = r.1.blockedSymbols := by
  refine resolveMaybeSent_keeps (motive := fun m => m.blockedSymbols = r.1.blockedSymbols) (fun mo _ r₁ h => ?_) rfl
  obtain ⟨hok, herror⟩ := blockedSymbols_resolveOne known now r₁ mo
  exact ⟨fun r' hr => (hok r' hr).trans h, fun r' hr => (herror r' hr).trans h⟩

end OrderManager

namespace DeskRun

open OrderManager RiskEngine

/-! ### What can happen to a symbol -/

/-- The broker's `place_bracket` raises on a bracket of the symbol. -/
def Fails (s : DeskRun) (symbol : String) : Move → Prop
  | .answered i (.error _) => ∃ flight, s.flights[i]? = some flight ∧ flight.entry.order.symbol = symbol
  | _ => False

/-- The gate lets an order of the symbol through and `place_bracket` refuses it, as the symbol is blocked. -/
def Refuses (s : DeskRun) (symbol : String) (now : Now) : Move → Prop
  | .submitted order ctx _ =>
    order.symbol = symbol ∧ s.desk.risk.Passed order (s.context ctx) now ∧
      (s.desk.orders.unblockExpired now).blockedSymbols.contains symbol = true
  | _ => False

/-- `place_bracket` raises for the symbol. -/
def Raises (s : DeskRun) (symbol : String) (e : Now × Move) : Prop :=
  s.clock ≤ e.1.mono ∧ (s.Fails symbol e.2 ∨ s.Refuses symbol e.1 e.2)

/-- No status, no reconciliation and no order for the symbol: what is written is written elsewhere. -/
def Quiet (symbol : String) (s : DeskRun) : Now × Move → Prop
  | (now, .submitted order _ cycleId) =>
    ∀ mo ∈ bracketRows order cycleId now, s.desk.orders.Elsewhere symbol mo.orderRef mo.symbol
  | (now, .closing other _ _ _ _) => s.desk.orders.Elsewhere symbol (exitRef now other) other
  | (_, .status status) => s.desk.orders.Elsewhere symbol status.orderRef status.symbol
  | (_, .answered i reply) =>
    (∀ flight, s.flights[i]? = some flight → flight.entry.order.symbol ≠ symbol) ∧
      ∀ statuses, reply = .ok statuses →
        ∀ status ∈ statuses, s.desk.orders.Elsewhere symbol status.orderRef status.symbol
  | (_, .reconciled _ _) => False
  | (_, .recovering _ _ _) => False
  | (_, .blocked _) => False
  | _ => True

variable {s : DeskRun} {symbol : String}

@[simp] theorem orders_settle (s : DeskRun) : s.settle.desk.orders = s.desk.orders := rfl

theorem orders_submit (s : DeskRun) (order : SizedOrder) (ctx : RiskContext) (cycleId : String) (now : Now) :
    (s.submit order ctx cycleId now).desk.orders = s.desk.orders ∨
      (s.submit order ctx cycleId now).desk.orders = s.desk.orders.unblockExpired now ∨
      (s.desk.orders.admits order cycleId now = true ∧ (s.submit order ctx cycleId now).desk.orders =
        (bracketRows order cycleId now).foldl write (s.desk.orders.unblockExpired now)) := by
  have horders : (s.submit order ctx cycleId now).desk.orders = (s.submission order ctx cycleId now).1.orders := by
    unfold submit
    dsimp only
    split <;> rfl
  rw [horders]
  unfold submission Desk.submit
  dsimp only
  split
  · exact Or.inl rfl
  · refine Or.inr ?_
    rcases s.desk.orders.placeBracketStart_eq order cycleId now with ⟨-, hstart, -⟩ | ⟨hadmits, hstart, -⟩
    · rw [hstart]
      refine Or.inl ?_
      split <;> rfl
    · rw [hstart]
      refine Or.inr ⟨hadmits, ?_⟩
      split <;> rfl

theorem Quiet.sameRecords {e : Now × Move} (h : s.Quiet symbol e) :
    SameRecords symbol s.desk.orders (s.act e.1 e.2).desk.orders := by
  obtain ⟨now, move⟩ := e
  cases move with
  | submitted order ctx cycleId =>
    have hexpired : SameRecords symbol s.desk.orders (s.desk.orders.unblockExpired now) := .of_orders rfl
    show SameRecords symbol s.desk.orders (s.submit order ctx cycleId now).desk.orders
    rcases s.orders_submit order ctx cycleId now with horders | horders | ⟨-, horders⟩ <;> rw [horders]
    · exact .of_orders rfl
    · exact hexpired
    · exact hexpired.trans (SameRecords.foldl (fun m mo => sameRecords_write) (bracketRows order cycleId now) h)
  | paced i account ids =>
    show SameRecords symbol s.desk.orders (s.pace i account ids).desk.orders
    rcases s.pace_cases i account ids with hsame | ⟨flight, orders, -, -, hsent⟩
    · rw [hsame]
      exact .of_orders rfl
    · rw [hsent]
      exact .of_orders rfl
  | answered i reply =>
    show SameRecords symbol s.desk.orders (s.answer i reply now).desk.orders
    unfold answer
    split
    · exact .of_orders rfl
    · split_ifs
      · cases reply with
        | error exc => exact .of_orders rfl
        | ok statuses =>
          exact SameRecords.foldl (fun m status => sameRecords_applyStatus now) statuses (h.2 statuses rfl)
      · exact .of_orders rfl
  | status status => exact sameRecords_applyStatus now h
  | executed execution => exact .of_orders (orders_onExecution _ _)
  | closing other quantity isLong reason quote => exact sameRecords_put h
  | reconciled opens completed => exact h.elim
  | recovering other p reference => exact h.elim
  | blocked other => exact h.elim
  | _ => exact .of_orders rfl

/-- What a move blocks, it blocks now. -/
def Blocks (s : DeskRun) (symbol : String) (move : Move) : Prop :=
  s.Fails symbol move ∨ move = .blocked symbol

theorem Quiet.not_blocks {e : Now × Move} (h : s.Quiet symbol e) : ¬ s.Blocks symbol e.2 := by
  obtain ⟨now, move⟩ := e
  rintro (hfails | hblocked)
  · unfold Fails at hfails
    split at hfails
    · rename_i hmove
      dsimp only at hmove
      subst hmove
      obtain ⟨flight, hflight, hsymbol⟩ := hfails
      exact h.1 flight hflight hsymbol
    · exact hfails
  · dsimp only at hblocked
    subst hblocked
    exact h

theorem blockedSymbols_reconciledOrders (m : OrderManager) (opens completed : List BrokerOrderStatus)
    (now : Now) : (reconciledOrders m opens completed now).blockedSymbols = m.blockedSymbols := by
  have habsorbed := blockedSymbols_absorbAll now opens completed m
  unfold reconciledOrders
  dsimp only
  split
  · rename_i r hok
    exact ((blockedSymbols_resolveMaybeSent _ now _ _).1 r hok).trans habsorbed
  · rename_i r hraised
    exact ((blockedSymbols_resolveMaybeSent _ now _ _).2 r hraised).trans habsorbed

theorem block_cases {m : OrderManager} {other : String} {now : Now} {t : ℚ}
    (h : (m.block other now).blockedSymbols.get? symbol = some t) :
    m.blockedSymbols.get? symbol = some t ∨ (other = symbol ∧ t = now.mono) := by
  by_cases hother : symbol = other
  · subst hother
    rw [OrderManager.block, Dict.get?_set_self] at h
    exact Or.inr ⟨rfl, (Option.some.inj h).symm⟩
  · rw [OrderManager.block, Dict.get?_set_ne _ _ hother] at h
    exact Or.inl h

theorem block_act {e : Now × Move} {t : ℚ}
    (h : (s.act e.1 e.2).desk.orders.blockedSymbols.get? symbol = some t) :
    s.desk.orders.blockedSymbols.get? symbol = some t ∨ (s.Blocks symbol e.2 ∧ t = e.1.mono) := by
  obtain ⟨now, move⟩ := e
  have hkept : ∀ {m : OrderManager}, m.blockedSymbols = s.desk.orders.blockedSymbols →
      m.blockedSymbols.get? symbol = some t → s.desk.orders.blockedSymbols.get? symbol = some t := by
    intro m hsame hget
    rwa [hsame] at hget
  cases move with
  | submitted order ctx cycleId =>
    have h : (s.submit order ctx cycleId now).desk.orders.blockedSymbols.get? symbol = some t := h
    have hwrites : ((bracketRows order cycleId now).foldl write (s.desk.orders.unblockExpired now)).blockedSymbols =
        (s.desk.orders.unblockExpired now).blockedSymbols := blockedSymbols_foldl blockedSymbols_write _ _
    refine Or.inl ?_
    rcases s.orders_submit order ctx cycleId now with horders | horders | ⟨-, horders⟩ <;> rw [horders] at h
    · exact h
    · exact (get?_unblockExpired.mp h).1
    · rw [hwrites] at h
      exact (get?_unblockExpired.mp h).1
  | paced i account ids =>
    refine Or.inl (hkept ?_ h)
    show (s.pace i account ids).desk.orders.blockedSymbols = s.desk.orders.blockedSymbols
    rcases s.pace_cases i account ids with hsame | ⟨flight, orders, -, -, hsent⟩
    · rw [hsame]
    · rw [hsent]
  | answered i reply =>
    have h : (s.answer i reply now).desk.orders.blockedSymbols.get? symbol = some t := h
    unfold answer at h
    split at h
    · exact Or.inl h
    · rename_i flight hflight
      split_ifs at h
      · cases reply with
        | error exc =>
          rcases block_cases h with hold | ⟨hsymbol, hnow⟩
          · exact Or.inl hold
          · exact Or.inr ⟨Or.inl ⟨flight, hflight, hsymbol⟩, hnow⟩
        | ok statuses =>
          exact Or.inl (hkept (blockedSymbols_foldl (fun m status => blockedSymbols_applyStatus m status now)
            s.desk.orders statuses) h)
      · exact Or.inl h
  | status status => exact Or.inl (hkept (blockedSymbols_applyStatus _ _ _) h)
  | executed execution => exact Or.inl (hkept (blockedSymbols_onExecution _ _) h)
  | reconciled opens completed => exact Or.inl (hkept (blockedSymbols_reconciledOrders _ _ _ _) h)
  | blocked other =>
    rcases block_cases h with hold | ⟨rfl, hnow⟩
    · exact Or.inl hold
    · exact Or.inr ⟨Or.inr rfl, hnow⟩
  | unblocked => exact Or.inl (get?_unblockExpired.mp h).1
  | _ => exact Or.inl h

/-! ### Runs -/

/-- No block is younger than the clock. -/
def BlocksPast (s : DeskRun) : Prop :=
  ∀ symbol t, s.desk.orders.blockedSymbols.get? symbol = some t → t ≤ s.clock

theorem BlocksPast.step (h : s.BlocksPast) (e : Now × Move) : (s.step e).BlocksPast := by
  unfold DeskRun.step
  split_ifs with hclock
  · intro symbol t hblock
    rcases block_act hblock with hold | ⟨-, rfl⟩
    · exact (h symbol t hold).trans hclock
    · exact le_refl _
  · exact h

/-- The symbol keeps its records, and is not blocked anew. -/
structure Spared (symbol : String) (s s' : DeskRun) : Prop where
  records : SameRecords symbol s.desk.orders s'.desk.orders
  block : ∀ t, s'.desk.orders.blockedSymbols.get? symbol = some t →
    s.desk.orders.blockedSymbols.get? symbol = some t

theorem Spared.refl (symbol : String) (s : DeskRun) : Spared symbol s s := ⟨fun _ => rfl, fun _ h => h⟩

theorem Spared.trans {s s' s'' : DeskRun} (h : Spared symbol s s') (h' : Spared symbol s' s'') :
    Spared symbol s s'' :=
  ⟨h.records.trans h'.records, fun t hblock => h.block t (h'.block t hblock)⟩

theorem Quiet.step {e : Now × Move} (h : s.Quiet symbol e) : Spared symbol s (s.step e) := by
  unfold DeskRun.step
  split_ifs
  · refine ⟨h.sameRecords, fun t hblock => ?_⟩
    rcases block_act hblock with hold | ⟨hblocks, -⟩
    · exact hold
    · exact absurd hblocks h.not_blocks
  · exact .refl symbol s

theorem Raises.sameRecords {e : Now × Move} (h : s.Raises symbol e) :
    SameRecords symbol s.desk.orders (s.step e).desk.orders := by
  obtain ⟨now, move⟩ := e
  have hstep : s.step (now, move) = { s.act now move with clock := now.mono } := if_pos h.1
  rw [hstep]
  rcases h.2 with hfails | hrefuses
  · dsimp only [Fails] at hfails
    split at hfails
    · show SameRecords symbol s.desk.orders (s.answer _ _ now).desk.orders
      unfold answer
      split
      · exact .of_orders rfl
      · split_ifs <;> exact .of_orders rfl
    · exact hfails.elim
  · dsimp only [Refuses] at hrefuses
    split at hrefuses
    · rename_i order ctx cycleId
      obtain ⟨rfl, hpassed, hblocked⟩ := hrefuses
      show SameRecords order.symbol s.desk.orders (s.submit order ctx cycleId now).desk.orders
      rcases s.orders_submit order ctx cycleId now with horders | horders | ⟨hadmits, -⟩
      · rw [horders]
        exact .of_orders rfl
      · rw [horders]
        exact .of_orders rfl
      · rw [admits, hblocked] at hadmits
        cases hadmits
    · exact hrefuses.elim

theorem calling_iff {order : SizedOrder} {ctx : RiskContext} {cycleId : String} {now : Now} :
    s.calling order ctx cycleId now = true ↔
      s.desk.risk.Passed order (s.context ctx) now ∧ s.desk.orders.admits order cycleId now = true := by
  rw [← s.desk.placing_iff]
  unfold calling submission
  cases (s.desk.submit order (s.context ctx) cycleId now).2.2 with
  | returned verdict => simp
  | placing verdict => simp

/-- A new order that satisfies every check of the gate, the one for working orders left aside. -/
structure Proper (s : DeskRun) (order : SizedOrder) (ctx : RiskContext) (cycleId : String) (now : Now) :
    Prop where
  passes : s.desk.risk.Passed order { ctx with workingSymbols := [] } now
  fresh : s.desk.orders.orders.get? (makeRef cycleId order.symbol "ENTRY" now.date) = none
  unstored : s.desk.orders.row? (makeRef cycleId order.symbol "ENTRY" now.date) = none

/-- The gate approves the order and it reaches the broker's `place_bracket`. -/
def Reaches (s : DeskRun) (order : SizedOrder) (ctx : RiskContext) (cycleId : String) (now : Now) : Prop :=
  s.desk.risk.Passed order (s.context ctx) now ∧ s.calling order ctx cycleId now = true

theorem Proper.reaches_iff {order : SizedOrder} {ctx : RiskContext} {cycleId : String} {now : Now}
    (h : s.Proper order ctx cycleId now)
    (hfree : (s.desk.orders.unblockExpired now).blockedSymbols.get? order.symbol = none) :
    s.Reaches order ctx cycleId now ↔ order.symbol ∉ s.desk.orders.workingSymbols := by
  have hadmits : s.desk.orders.admits order cycleId now = true := by
    rw [admits, Dict.contains, hfree, h.fresh, h.unstored]
    rfl
  have hpassed : s.desk.risk.Passed order (s.context ctx) now ↔
      order.symbol ∉ s.desk.orders.workingSymbols := by
    rw [RiskEngine.passed_iff_workingSymbols]
    exact and_iff_right h.passes
  rw [Reaches, calling_iff, and_iff_left hadmits, and_self, hpassed]

/-- **When a failed placement lets the symbol go.** In every run of a fresh process in which `place_bracket`
raises for a symbol at a time `t` and afterwards no status, no reconciliation and no other order is about the
symbol: at every time later than `t + blockTtlSeconds`, a new order for it that satisfies all other checks is
approved and reaches the broker's `place_bracket` precisely if no record of the symbol worked when the
placement failed. -/
theorem unfreezes_iff (desk : Desk) (clock : ℚ) (hfresh : desk.orders.blockedSymbols = Dict.empty)
    (before later : List (Now × Move)) (failure : Now × Move) (order : SizedOrder)
    (hraises : (Trace.run step (start desk clock) before).Raises order.symbol failure)
    (hquiet : Trace.Each step (Quiet order.symbol) (Trace.run step (start desk clock) (before ++ [failure])) later)
    (ctx : RiskContext) (cycleId : String) (now : Now) (hlate : failure.1.mono + blockTtlSeconds < now.mono)
    (hproper : (Trace.run step (start desk clock) (before ++ failure :: later)).Proper order ctx cycleId now) :
    (Trace.run step (start desk clock) (before ++ failure :: later)).Reaches order ctx cycleId now ↔
      order.symbol ∉ (Trace.run step (start desk clock) before).desk.orders.workingSymbols := by
  have hstart : (start desk clock).BlocksPast := by
    intro symbol t hblock
    have hempty : desk.orders.blockedSymbols.get? symbol = some t := hblock
    rw [hfresh] at hempty
    cases hempty
  have hstep : ∀ (s : DeskRun) e, s.BlocksPast → (s.step e).BlocksPast := fun s e h => h.step e
  have hpast : ∀ moves, (Trace.run step (start desk clock) moves).BlocksPast := fun moves =>
    (Trace.always_of_invariant hstep (fun s h => h) hstart).last
  have hsplit : Trace.run step (start desk clock) (before ++ failure :: later) =
      Trace.run step (Trace.run step (start desk clock) (before ++ [failure])) later := by
    rw [← Trace.run_append, List.append_assoc]
    rfl
  have hquietRun : Spared order.symbol (Trace.run step (start desk clock) (before ++ [failure]))
      (Trace.run step (start desk clock) (before ++ failure :: later)) := by
    rw [hsplit]
    exact Trace.rel_run (Spared.refl _) (fun _ _ _ h h' => h.trans h') (hquiet.mono fun s e h => h.step)
  have hfailure : Trace.run step (start desk clock) (before ++ [failure]) =
      (Trace.run step (start desk clock) before).step failure := Trace.run_append _ _ _
  have hclock : (Trace.run step (start desk clock) (before ++ [failure])).clock = failure.1.mono := by
    rw [hfailure, DeskRun.step, if_pos hraises.1]
  rw [hproper.reaches_iff ?_, hquietRun.records.mem_workingSymbols, hfailure,
    hraises.sameRecords.mem_workingSymbols]
  -- a block that is left would be as old as the failure at least
  rw [Option.eq_none_iff_forall_not_mem]
  intro t hblock
  obtain ⟨hheld, hage⟩ := get?_unblockExpired.mp hblock
  have hold := hpast _ _ _ (hquietRun.block t hheld)
  rw [hclock] at hold
  linarith

/-! #### A timeout, and ten minutes later -/

def idleDesk : Desk where
  risk := { cfg := {}, killSwitch := {} }
  orders := {}

/-- The broker's word on an order that has not left the API. -/
def neverReached (ref : String) : BrokerOrderStatus :=
  { orderRef := ref, orderId := 0, permId := none, status := "ApiCancelled", filled := 0, remaining := 50
    avgFillPrice := none }

/-- A bracket for AAPL is handed to the broker, and its three orders are reported cancelled, or not. -/
def handedOver (cancelled : Bool) : List (Now × Move) :=
  (quietNow, .submitted (fifty "AAPL") (openMarket Dict.empty) "c1") ::
    if cancelled then
      (Leg.bracket (fifty "AAPL") "c1" quietNow).map fun leg =>
        (quietNow, .status (neverReached leg.ref))
    else []

/-- The broker's call raises. -/
def timeout : Now × Move := (quietNow, .answered 0 (.error "timeout"))

def tenMinutesLater : Now := .sample 601 601

def freshMarket : RiskContext where
  account := { breakoutAccount with asOf := 601 }
  quote := some { symbol := "AAPL", last := some 100, updatedAt := 601 }
  phase := .rth
  minutesToClose := some 190
  isLive := false
  startingEquity := 100000

theorem raises_timeout {cancelled : Bool} {s : DeskRun}
    (hs : Trace.run step (start idleDesk 0) (handedOver cancelled) = s) (hclock : s.clock ≤ 0)
    (hflight : (s.flights[0]?.map fun flight => flight.entry.order.symbol) = some "AAPL") :
    (Trace.run step (start idleDesk 0) (handedOver cancelled)).Raises "AAPL" timeout := by
  rw [hs]
  exact ⟨hclock, Or.inl (Option.map_eq_some_iff.mp hflight)⟩

theorem unfreezes_iff_cancelled :
    (Trace.run step (start idleDesk 0) (handedOver true ++ [timeout, (tenMinutesLater, .unblocked)])).Reaches
      (fifty "AAPL") freshMarket "c2" tenMinutesLater := by
  have hraises := @raises_timeout true _ rfl (by decide +kernel) (by decide +kernel)
  refine (unfreezes_iff idleDesk 0 rfl (handedOver true) [(tenMinutesLater, .unblocked)] timeout (fifty "AAPL")
    hraises ⟨trivial, trivial⟩ freshMarket "c2" tenMinutesLater (by decide +kernel) ?_).mpr (by decide +kernel)
  exact ⟨approved_evaluate.mp (by decide +kernel), by decide +kernel, by decide +kernel⟩

/-- The block has expired, and the records of the failed bracket still keep the next order out. -/
theorem frozen_after_timeout :
    (Trace.run step (start idleDesk 0) (handedOver false)).Raises "AAPL" timeout ∧
      (Trace.run step (start idleDesk 0) (handedOver false ++ [timeout])).Proper (fifty "AAPL") freshMarket "c2"
        tenMinutesLater ∧
      timeout.1.mono + blockTtlSeconds < tenMinutesLater.mono ∧
      ¬ (Trace.run step (start idleDesk 0) (handedOver false ++ [timeout])).Reaches (fifty "AAPL") freshMarket "c2"
        tenMinutesLater := by
  refine ⟨raises_timeout rfl (by decide +kernel) (by decide +kernel), ?_, by decide +kernel, fun h => ?_⟩
  · exact ⟨approved_evaluate.mp (by decide +kernel), by decide +kernel, by decide +kernel⟩
  · exact absurd h.2 (by decide +kernel)

end DeskRun

end AiTrader
