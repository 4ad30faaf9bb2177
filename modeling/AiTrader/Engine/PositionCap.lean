import AiTrader.Engine.FastLoop
import AiTrader.Engine.Submission
import AiTrader.Lib.Trace
import AiTrader.Risk.DailyLoss
import Mathlib.Data.Finset.Card

/-!
# The position cap

The symbols that are held or have a working entry are to stay within `max_concurrent_positions`. The gate
counts the open positions of the cycle's snapshot: an entry that rests, or that filled after the snapshot
was taken, is not among them, and a symbol the snapshot still shows is not counted at all.

`CycleRun` is the gate, the order manager and the broker's positions over any number of cycles. `SlotKnown`
is the condition on the submissions: the gate's count is not misled, or there is a slot all the same.

A symbol is exposed when it is held or has a working entry, and the exposed symbols are those of the positions and of
the entry records. The proof counts them as a set. A bracket adds its own symbol and no other; an order that passes
the gate finds its symbol exposed already or a slot free (`slot_of_passed`), where `SlotKnown` turns the gate's count
of the snapshot into the count of the exposed. Fills move a symbol from one kind to the other, and statuses and
cancels only take symbols out.
-/

namespace AiTrader

open Lib

/-! ### Working entries -/

/-- An order of ours that opens a position. -/
def ManagedOrder.isEntry (mo : ManagedOrder) : Bool := hasKind "ENTRY" mo.orderRef

def ManagedOrder.worksAsEntry (mo : ManagedOrder) : Bool := mo.isEntry && mo.isWorking

namespace OrderBook

/-- The symbols with a working entry order. -/
def entrySymbols (b : OrderBook) : List String :=
  (b.values.filter ManagedOrder.worksAsEntry).map ManagedOrder.symbol

theorem mem_entrySymbols {b : OrderBook} {symbol : String} :
    symbol ∈ b.entrySymbols ↔
      ∃ ref mo, b.get? ref = some mo ∧ mo.worksAsEntry = true ∧ mo.symbol = symbol :=
  mem_symbols

theorem entrySymbols_put {b : OrderBook} {mo : ManagedOrder} {symbol : String}
    (h : symbol ∈ (b.put mo).entrySymbols) : symbol = mo.symbol ∨ symbol ∈ b.entrySymbols := by
  obtain ⟨ref, mo', hget, hworks, hsymbol⟩ := mem_entrySymbols.mp h
  rw [get?_put] at hget
  split_ifs at hget with href
  · have heq : mo = mo' := Option.some.inj hget
    left
    rw [heq]
    exact hsymbol.symm
  · exact Or.inr (mem_entrySymbols.mpr ⟨ref, mo', hget, hworks, hsymbol⟩)

theorem entrySymbols_foldl_put {rows : List ManagedOrder} {b : OrderBook} {symbol : String}
    (h : symbol ∈ (rows.foldl put b).entrySymbols) :
    (∃ row ∈ rows, symbol = row.symbol) ∨ symbol ∈ b.entrySymbols := by
  induction rows generalizing b with
  | nil => exact Or.inr h
  | cons row rows ih =>
    rcases ih h with ⟨row', hmem, heq⟩ | h
    · exact Or.inl ⟨row', List.mem_cons_of_mem _ hmem, heq⟩
    · rcases entrySymbols_put h with heq | h
      · exact Or.inl ⟨row, List.mem_cons_self, heq⟩
      · exact Or.inr h

end OrderBook

namespace OrderManager

theorem entrySymbols_bracket {b : OrderBook} {order : SizedOrder} {cycleId : String} {now : Now}
    {symbol : String}
    (h : symbol ∈ ((bracketRows order cycleId now).foldl OrderBook.put b).entrySymbols) :
    symbol = order.symbol ∨ symbol ∈ b.entrySymbols := by
  rcases OrderBook.entrySymbols_foldl_put h with ⟨row, hmem, heq⟩ | h
  · exact Or.inl (heq.trans (works_bracketRows order cycleId now row hmem).2)
  · exact Or.inr h

/-- A report leaves no entry working that did not work before. -/
def revivesNone (m : OrderManager) (status : BrokerOrderStatus) (now : Now) : Bool :=
  let before := m.orders.get? status.orderRef
  !(statusOn now status before).any ManagedOrder.worksAsEntry || before.any ManagedOrder.worksAsEntry

/-- The same of reports that arrive together. -/
def reviveNone (now : Now) : OrderManager → List BrokerOrderStatus → Bool
  | _, [] => true
  | m, status :: rest => m.revivesNone status now && reviveNone now (m.applyStatus status now) rest

variable {m : OrderManager} {now : Now}

theorem entrySymbols_applyStatus {status : BrokerOrderStatus} (h : m.revivesNone status now = true)
    {symbol : String} (hmem : symbol ∈ (m.applyStatus status now).orders.entrySymbols) :
    symbol ∈ m.orders.entrySymbols := by
  obtain ⟨ref, mo', hget, hworks, hsymbol⟩ := OrderBook.mem_entrySymbols.mp hmem
  rw [get?_applyStatus] at hget
  split_ifs at hget with href
  · subst href
    have hbefore : (m.orders.get? status.orderRef).any ManagedOrder.worksAsEntry = true := by
      rcases Bool.or_eq_true_iff.mp h with hnot | hbefore
      · rw [hget] at hnot
        simp [hworks] at hnot
      · exact hbefore
    obtain ⟨mo, hmo, hworks'⟩ := (Option.any_eq_true _ _).mp hbefore
    rw [hmo] at hget
    have heq : mo.absorb status now.epoch = mo' := Option.some.inj hget
    refine OrderBook.mem_entrySymbols.mpr ⟨_, mo, hmo, hworks', ?_⟩
    rw [← hsymbol, ← heq]
    rfl
  · exact OrderBook.mem_entrySymbols.mpr ⟨ref, mo', hget, hworks, hsymbol⟩

theorem entrySymbols_applyAll {statuses : List BrokerOrderStatus}
    (h : reviveNone now m statuses = true) {symbol : String}
    (hmem : symbol ∈ (statuses.foldl (fun m status => m.applyStatus status now) m).orders.entrySymbols) :
    symbol ∈ m.orders.entrySymbols := by
  induction statuses generalizing m with
  | nil => exact hmem
  | cons status rest ih =>
    obtain ⟨hfirst, hrest⟩ := Bool.and_eq_true_iff.mp h
    exact entrySymbols_applyStatus hfirst (ih hrest hmem)

end OrderManager

/-! ### Runs of cycles -/

/-- The symbols with a position. -/
def heldSymbols (positions : Dict String Position) : Finset String :=
  (positions.keys.filter fun symbol => quantityOf positions symbol ≠ 0).toFinset

theorem mem_heldSymbols {positions : Dict String Position} {symbol : String} :
    symbol ∈ heldSymbols positions ↔ quantityOf positions symbol ≠ 0 := by
  rw [heldSymbols, List.mem_toFinset, List.mem_filter, decide_eq_true_eq]
  refine ⟨fun h => h.2, fun h => ⟨?_, h⟩⟩
  by_contra hnot
  rw [quantityOf, Dict.get?_eq_none_iff.mpr hnot] at h
  exact h rfl

theorem heldSymbols_movePosition {positions : Dict String Position} {symbol symbol' : String} {delta : ℚ}
    (h : symbol' ∈ heldSymbols (movePosition positions symbol delta)) :
    symbol' = symbol ∨ symbol' ∈ heldSymbols positions := by
  rw [mem_heldSymbols, quantityOf_movePosition] at h
  by_cases hsymbol : symbol' = symbol
  · exact Or.inl hsymbol
  · rw [if_neg hsymbol, add_zero] at h
    exact Or.inr (mem_heldSymbols.mpr h)

structure CycleRun where
  desk : Desk
  /-- The snapshot of the last cycle that has begun. -/
  account : AccountSnapshot
  /-- The positions at the broker. -/
  positions : Dict String Position
  /-- The submission suspended in `place_bracket`. -/
  entering : Option Submission := none
  /-- The symbols of the approved entries. -/
  approved : List String := []

namespace CycleRun

def cap (s : CycleRun) : ℤ := s.desk.risk.cfg.maxConcurrentPositions

/-- The symbols that are held or have a working entry. -/
def exposed (s : CycleRun) : Finset String :=
  heldSymbols s.positions ∪ s.desk.orders.orders.entrySymbols.toFinset

def note (s : CycleRun) (symbol : String) (verdict : RiskVerdict) : CycleRun :=
  { s with approved := if verdict.approved then s.approved ++ [symbol] else s.approved }

/-- The context of a submission: the snapshot of the cycle and the present working symbols. -/
def context (s : CycleRun) (ctx : RiskContext) : RiskContext :=
  { ctx with account := s.account, workingSymbols := s.desk.orders.workingSymbols }

inductive Event
  /-- A cycle begins with any snapshot. -/
  | cycleStarted (account : AccountSnapshot)
  /-- The cycle submits an order; `ctx` is the rest of what the gate is told. -/
  | submitted (order : SizedOrder) (ctx : RiskContext) (cycleId : String) (now : Now)
  /-- `place_bracket` has returned, or raised. -/
  | placed (reply : Except String (List BrokerOrderStatus)) (now : Now)
  | reported (status : BrokerOrderStatus) (now : Now)
  /-- A working entry fills by `quantity`. -/
  | filled (ref : String) (quantity : ℚ)
  /-- An exit changes the position it is for. -/
  | exited (symbol : String) (delta : ℚ)

/-- One cycle does one thing at a time. The broker does not report an order as working again. -/
def step (s : CycleRun) : Event → CycleRun
  | .cycleStarted account => if s.entering.isNone then { s with account } else s
  | .submitted order ctx cycleId now =>
    if s.entering.isNone then
      let out := s.desk.submit order (s.context ctx) cycleId now
      match out.2.2 with
      | .returned verdict => { s with desk := out.1 }.note order.symbol verdict
      | .placing verdict =>
        { s with desk := out.1, entering := some { order, verdict, symbol := order.symbol } }
    else s
  | .placed reply now =>
    match s.entering with
    | none => s
    | some entry =>
      if s.desk.orders.reviveNone now (reply.toOption.getD []) then
        let out := s.desk.finish entry reply now
        { s with desk := out.1, entering := none }.note entry.symbol out.2
      else s
  | .reported status now =>
    if s.desk.orders.revivesNone status now then
      { s with desk := { s.desk with orders := s.desk.orders.applyStatus status now } }
    else s
  | .filled ref quantity =>
    match (s.desk.orders.orders.get? ref).filter ManagedOrder.worksAsEntry with
    | none => s
    | some mo =>
      { s with
        positions := movePosition s.positions mo.symbol (if mo.action = "BUY" then quantity else -quantity) }
  | .exited symbol delta =>
    if symbol ∈ heldSymbols s.positions then
      { s with positions := movePosition s.positions symbol delta }
    else s

/-- The law. -/
def WithinCap (s : CycleRun) : Prop := s.exposed.card ≤ s.cap

instance : DecidablePred WithinCap := fun s => inferInstanceAs (Decidable ((s.exposed.card : ℤ) ≤ s.cap))

/-- The condition on the submissions. Either the snapshot does not show the symbol and shows a full
account, which the gate refuses, or it does not show the symbol and shows every symbol exposed, so that the
gate counts right, or the symbol is exposed already, or there is a slot. -/
def SlotKnown (s : CycleRun) : Event → Bool
  | .submitted order _ _ _ =>
    let shown := s.account.openPositions.keys
    decide (order.symbol ∉ shown) && (decide (s.cap ≤ shown.length) || decide (s.exposed ⊆ shown.toFinset)) ||
      decide (order.symbol ∈ s.exposed) || decide (s.exposed.card < s.cap)
  | _ => true

variable {s s' : CycleRun}

theorem mem_exposed {symbol : String} : symbol ∈ s.exposed ↔
    symbol ∈ heldSymbols s.positions ∨ symbol ∈ s.desk.orders.orders.entrySymbols := by
  rw [exposed, Finset.mem_union, List.mem_toFinset]

/-! ### One step -/

theorem WithinCap.mono (h : s.WithinCap) (hcfg : s'.desk.risk.cfg = s.desk.risk.cfg)
    (hsubset : s'.exposed ⊆ s.exposed) : s'.WithinCap := by
  have hcard := Finset.card_le_card hsubset
  have hle : (s.exposed.card : ℤ) ≤ s.cap := h
  rw [WithinCap, cap, hcfg]
  exact (Int.ofNat_le.mpr hcard).trans hle

theorem slot_of_passed {order : SizedOrder} {ctx : RiskContext} {cycleId : String} {now : Now}
    (hslot : s.SlotKnown (.submitted order ctx cycleId now) = true)
    (hpassed : s.desk.risk.Passed order (s.context ctx) now) :
    order.symbol ∈ s.exposed ∨ (s.exposed.card : ℤ) < s.cap := by
  rcases Bool.or_eq_true_iff.mp hslot with hslot | hfree
  · rcases Bool.or_eq_true_iff.mp hslot with hshown | hexposed
    · obtain ⟨hnew, hcount⟩ := Bool.and_eq_true_iff.mp hshown
      have hlt : (s.account.openPositions.keys.length : ℤ) < s.cap :=
        hpassed.slot (of_decide_eq_true hnew)
      rcases Bool.or_eq_true_iff.mp hcount with hfull | hseen
      · exact absurd hlt (not_lt.mpr (of_decide_eq_true hfull))
      · have hcard := Finset.card_le_card (of_decide_eq_true hseen)
        have hlength := List.toFinset_card_le s.account.openPositions.keys
        right
        omega
    · exact Or.inl (of_decide_eq_true hexposed)
  · exact Or.inr (of_decide_eq_true hfree)

theorem WithinCap.insert (h : s.WithinCap) {symbol : String} (hcfg : s'.desk.risk.cfg = s.desk.risk.cfg)
    (hsubset : s'.exposed ⊆ Insert.insert symbol s.exposed)
    (hslot : symbol ∈ s.exposed ∨ (s.exposed.card : ℤ) < s.cap) : s'.WithinCap := by
  rcases hslot with hexposed | hfree
  · rw [Finset.insert_eq_of_mem hexposed] at hsubset
    exact h.mono hcfg hsubset
  · have hcard := (Finset.card_le_card hsubset).trans (Finset.card_insert_le symbol s.exposed)
    rw [WithinCap, cap, hcfg]
    have hcap : s.cap = s.desk.risk.cfg.maxConcurrentPositions := rfl
    omega

theorem WithinCap.submitted (h : s.WithinCap) {order : SizedOrder} {ctx : RiskContext} {cycleId : String}
    {now : Now} (hslot : s.SlotKnown (.submitted order ctx cycleId now) = true) :
    (s.step (.submitted order ctx cycleId now)).WithinCap := by
  obtain ⟨hcfg, hsubmitted⟩ := s.desk.submit_cases order (s.context ctx) cycleId now
  unfold step
  dsimp only
  split_ifs
  · rcases hsubmitted with ⟨verdict, hverdict, _, horders⟩ | ⟨verdict, hverdict, hpassed, _, horders⟩
    · rw [hverdict]
      refine h.mono hcfg fun symbol hmem => ?_
      have hmem : symbol ∈ heldSymbols s.positions ∨
          symbol ∈ (s.desk.submit order (s.context ctx) cycleId now).1.orders.orders.entrySymbols :=
        mem_exposed.mp hmem
      rw [horders] at hmem
      exact mem_exposed.mpr hmem
    · rw [hverdict]
      refine h.insert hcfg (fun symbol hmem => ?_) (slot_of_passed hslot hpassed)
      have hmem : symbol ∈ heldSymbols s.positions ∨
          symbol ∈ (s.desk.submit order (s.context ctx) cycleId now).1.orders.orders.entrySymbols :=
        mem_exposed.mp hmem
      rw [horders] at hmem
      rcases hmem with hheld | hentry
      · exact Finset.mem_insert_of_mem (mem_exposed.mpr (Or.inl hheld))
      · rcases OrderManager.entrySymbols_bracket hentry with heq | hentry
        · exact Finset.mem_insert.mpr (Or.inl heq)
        · exact Finset.mem_insert_of_mem (mem_exposed.mpr (Or.inr hentry))
  · exact h

theorem entrySymbols_finish {d : Desk} {entry : Submission}
    {reply : Except String (List BrokerOrderStatus)} {now : Now}
    (hrevive : d.orders.reviveNone now (reply.toOption.getD []) = true) {symbol : String}
    (hmem : symbol ∈ (d.finish entry reply now).1.orders.orders.entrySymbols) :
    symbol ∈ d.orders.orders.entrySymbols := by
  cases reply with
  | error error => exact hmem
  | ok statuses => exact OrderManager.entrySymbols_applyAll hrevive hmem

theorem WithinCap.moved (h : s.WithinCap) {symbol : String} {delta : ℚ} (hexposed : symbol ∈ s.exposed) :
    WithinCap { s with positions := movePosition s.positions symbol delta } := by
  refine h.mono rfl fun symbol' hmem => ?_
  rcases mem_exposed.mp hmem with hheld | hentry
  · rcases heldSymbols_movePosition hheld with heq | hheld
    · rw [heq]
      exact hexposed
    · exact mem_exposed.mpr (Or.inl hheld)
  · exact mem_exposed.mpr (Or.inr hentry)

theorem WithinCap.step (h : s.WithinCap) (e : Event) (hslot : s.SlotKnown e = true) :
    (s.step e).WithinCap := by
  cases e with
  | cycleStarted account =>
    unfold CycleRun.step
    dsimp only
    split_ifs
    · exact h
    · exact h
  | submitted order ctx cycleId now => exact h.submitted hslot
  | placed reply now =>
    unfold CycleRun.step
    dsimp only
    split
    · exact h
    · split_ifs with hrevive
      · refine h.mono (s.desk.cfg_finish _ _ _) fun symbol hmem => ?_
        rcases mem_exposed.mp hmem with hheld | hentry
        · exact mem_exposed.mpr (Or.inl hheld)
        · exact mem_exposed.mpr (Or.inr (entrySymbols_finish hrevive hentry))
      · exact h
  | reported status now =>
    unfold CycleRun.step
    dsimp only
    split_ifs with hrevive
    · refine h.mono rfl fun symbol hmem => ?_
      rcases mem_exposed.mp hmem with hheld | hentry
      · exact mem_exposed.mpr (Or.inl hheld)
      · exact mem_exposed.mpr (Or.inr (OrderManager.entrySymbols_applyStatus hrevive hentry))
    · exact h
  | filled ref quantity =>
    unfold CycleRun.step
    dsimp only
    split
    · exact h
    · rename_i mo hfound
      obtain ⟨hget, hworks⟩ := Option.filter_eq_some_iff.mp hfound
      have hentry : mo.symbol ∈ s.desk.orders.orders.entrySymbols :=
        OrderBook.mem_entrySymbols.mpr ⟨ref, mo, hget, hworks, rfl⟩
      exact h.moved (mem_exposed.mpr (Or.inr hentry))
  | exited symbol delta =>
    unfold CycleRun.step
    dsimp only
    split_ifs with hheld
    · exact h.moved (mem_exposed.mpr (Or.inl hheld))
    · exact h

/-- **The position cap is a cap** in every run of cycles, begun within it, whose submissions meet the
condition. -/
theorem position_cap_is_a_cap (s : CycleRun) (events : List Event) (hcap : s.WithinCap)
    (hslot : Trace.Each step (fun s e => s.SlotKnown e = true) s events) :
    Trace.Always step WithinCap s events := by
  have hstep : ∀ s e, WithinCap s → s.SlotKnown e = true → WithinCap (s.step e) :=
    fun _ e h hslot => h.step e hslot
  exact Trace.always_of_inductive hstep (fun _ h => h) hcap hslot

/-! ### A cap of one -/

open LossRun in
/-- A flat account with a cap of one position. -/
def oneSlot : CycleRun where
  desk := { risk := { cfg := { maxConcurrentPositions := 1 }, killSwitch := {} }, orders := {} }
  account := paperAccount 100000
  positions := Dict.empty

open LossRun in
/-- A cycle on a snapshot without positions, with one entry. -/
def flatCycle (symbol cycleId : String) : List Event :=
  [.cycleStarted (paperAccount 100000),
    .submitted { smallOrder with symbol } (calmContext 100000) cycleId quietMarket,
    .placed (.ok []) quietMarket]

def filledStatus : BrokerOrderStatus where
  orderRef := makeRef "c1" "AAPL" "ENTRY" LossRun.quietMarket.date
  orderId := 1
  permId := none
  status := "Filled"
  filled := 10
  remaining := 0
  avgFillPrice := some 100

/-- The entry of cycle `c1` fills, and the position is closed again. -/
def filledAndClosed : List Event :=
  [.filled filledStatus.orderRef 10, .reported filledStatus LossRun.quietMarket, .exited "AAPL" (-10)]

theorem position_cap_is_a_cap_oneSlot :
    Trace.Always step WithinCap oneSlot (flatCycle "AAPL" "c1" ++ filledAndClosed ++ flatCycle "MSFT" "c2") :=
  position_cap_is_a_cap oneSlot _ (by decide +kernel) (by decide +kernel)

/-- The first entry rests, so the snapshot of the next cycle shows no position: a second one is approved. -/
theorem resting_entry_not_counted :
    (Trace.run step oneSlot (flatCycle "AAPL" "c1" ++ flatCycle "MSFT" "c2")).approved = ["AAPL", "MSFT"] ∧
      oneSlot.WithinCap ∧
      ¬ Trace.Always step WithinCap oneSlot (flatCycle "AAPL" "c1" ++ flatCycle "MSFT" "c2") := by
  refine ⟨by decide +kernel, by decide +kernel, fun h => ?_⟩
  exact absurd h.last (by decide +kernel)

end CycleRun

end AiTrader
