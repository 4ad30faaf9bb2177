import AiTrader.Broker.Orders

/-!
# Intent before placement

`place_bracket` writes three rows, entry first, and only then calls the broker. What that order is worth
depends on the writes: one that raises is logged and the call goes on.

With a store whose writes complete, the row of the entry is there whenever the broker has been called, and a
later `place_bracket` under the same reference finds it, in this process or in the next
(`placed_at_most_once`). With a store whose writes may raise, the broker is called on stored rows only when
none of the three raises, or its row was there before: `written_ahead_iff`. A save that raises also takes the
second filter away: the reference is in memory alone, and the next process calls the broker for it once more
(`placed_once_more`).

The run lemma has two parts. Rows stay (`Grows`): no operation of the order manager takes one out of the table or
changes which writes raise. And a call of the broker leaves the row of its entry (`Inv.placed`). So under one
reference there is no second call, since `place_bracket` looks into memory and then into the table before it writes;
what happens between the writes and the call, and where the process dies, does not matter.
-/

namespace AiTrader

open Lib

namespace OrderManager

/-! ### The two halves of the first segment -/

/-- `orders[mo.order_ref] = mo` and `_persist(mo)`. -/
def write (m : OrderManager) (mo : ManagedOrder) : OrderManager := (m.put mo).persist mo none

/-- The records of a bracket in the order in which they are written. -/
def bracketRows (order : SizedOrder) (cycleId : String) (now : Now) : List ManagedOrder :=
  let records := bracketRecords order cycleId now
  [records.1, records.2.1, records.2.2]

/-- The row at a reference. -/
def row? (m : OrderManager) (ref : String) : Option OrderRow := m.store.bind fun s => s.findOrderByRef ref

/-- The symbol is not blocked and neither filter knows the reference of the entry. -/
def admits (m : OrderManager) (order : SizedOrder) (cycleId : String) (now : Now) : Bool :=
  let entryRef := makeRef cycleId order.symbol "ENTRY" now.date
  !(m.unblockExpired now).blockedSymbols.contains order.symbol && (m.orders.get? entryRef).isNone &&
    (m.row? entryRef).isNone

/-- `place_bracket` killed after `k` of its writes. -/
def placeBracketCut (m : OrderManager) (order : SizedOrder) (cycleId : String) (now : Now) (k : ℕ) :
    OrderManager :=
  if m.admits order cycleId now then
    ((bracketRows order cycleId now).take k).foldl write (m.unblockExpired now)
  else m.unblockExpired now

variable {m : OrderManager} {order : SizedOrder} {cycleId : String} {now : Now}

/-- What `place_bracket` does up to the broker: nothing but forget expired blocks, or the three writes and
the call. -/
theorem placeBracketStart_eq (m : OrderManager) (order : SizedOrder) (cycleId : String) (now : Now) :
    (m.admits order cycleId now = false ∧
        (m.placeBracketStart order cycleId now).1 = m.unblockExpired now ∧
        ∀ entry stop target, (m.placeBracketStart order cycleId now).2 ≠ .sent entry stop target) ∨
      m.admits order cycleId now = true ∧
        (m.placeBracketStart order cycleId now).1 =
          (bracketRows order cycleId now).foldl write (m.unblockExpired now) ∧
        ∃ entry stop target, (m.placeBracketStart order cycleId now).2 = .sent entry stop target ∧
          entry.orderRef = makeRef cycleId order.symbol "ENTRY" now.date := by
  unfold placeBracketStart admits row?
  dsimp only
  cases hblocked : (m.unblockExpired now).blockedSymbols.contains order.symbol with
  | true =>
    rw [if_pos rfl]
    exact Or.inl ⟨rfl, rfl, fun _ _ _ h => (nomatch h)⟩
  | false =>
    rw [if_neg Bool.false_ne_true, orders_unblockExpired]
    cases hget : m.orders.get? (makeRef cycleId order.symbol "ENTRY" now.date) with
    | some existing => exact Or.inl ⟨rfl, rfl, fun _ _ _ h => (nomatch h)⟩
    | none =>
      dsimp only
      have hstore : (m.unblockExpired now).store = m.store := rfl
      rw [hstore]
      cases hrow : m.store.bind fun s => s.findOrderByRef (makeRef cycleId order.symbol "ENTRY" now.date) with
      | some row => exact Or.inl ⟨rfl, rfl, fun _ _ _ h => (nomatch h)⟩
      | none => exact Or.inr ⟨rfl, rfl, _, _, _, rfl, rfl⟩

theorem pairwise_bracketRows (order : SizedOrder) (cycleId : String) (now : Now) :
    (bracketRows order cycleId now).Pairwise fun mo mo' => mo.orderRef ≠ mo'.orderRef := by
  unfold bracketRows bracketRecords
  simp only [List.pairwise_cons, List.mem_cons, List.not_mem_nil, or_false, forall_eq_or_imp, forall_eq,
    false_implies, implies_true, List.Pairwise.nil, and_true]
  refine ⟨⟨?_, ?_⟩, ?_⟩
  · exact makeRef_ne_of_kind (by decide) (by decide) (by decide) _ _ _ _ _ _
  · exact makeRef_ne_of_kind (by decide) (by decide) (by decide) _ _ _ _ _ _
  · exact makeRef_ne_of_kind (by decide) (by decide) (by decide) _ _ _ _ _ _

theorem works_bracketRows (order : SizedOrder) (cycleId : String) (now : Now) :
    ∀ mo ∈ bracketRows order cycleId now, mo.isWorking = true ∧ mo.symbol = order.symbol := by
  intro mo hmem
  simp only [bracketRows, List.mem_cons, List.not_mem_nil, or_false] at hmem
  rcases hmem with rfl | rfl | rfl <;> exact ⟨rfl, rfl⟩

/-! ### What is stored -/

/-- The store holds the record: a row with every field of it but the time of creation, which an earlier row
keeps. -/
def Stored (m : OrderManager) (mo : ManagedOrder) : Prop :=
  ∃ row, m.row? mo.orderRef = some row ∧ row.order = { mo with createdAt := row.order.createdAt }

/-- Saving the record leaves it stored: the write does not raise, or its row is there already. -/
def Lands (m : OrderManager) (mo : ManagedOrder) : Prop :=
  (m.store.isSome = true ∧ m.faults (.order mo.orderRef) = false) ∨ m.Stored mo

@[simp] theorem faults_write (m : OrderManager) (mo : ManagedOrder) : (m.write mo).faults = m.faults := by
  rw [write, faults_persist, faults_put]

@[simp] theorem isSome_store_write (m : OrderManager) (mo : ManagedOrder) :
    (m.write mo).store.isSome = m.store.isSome := by
  rw [write, persist, Option.isSome_map]
  rfl

theorem row?_write_ne (m : OrderManager) {mo : ManagedOrder} {ref : String} (h : ref ≠ mo.orderRef) :
    (m.write mo).row? ref = m.row? ref := by
  unfold write persist row? put
  cases m.store with
  | none => rfl
  | some s =>
    unfold StateStore.saveOrder StateStore.findOrderByRef
    by_cases hfault : s.faults (.order mo.orderRef) = true
    · simp [hfault]
    · simp [hfault, Dict.get?_set_ne _ _ h]

theorem stored_write {m : OrderManager} {mo : ManagedOrder} (hstore : m.store.isSome = true)
    (hwrites : m.faults (.order mo.orderRef) = false) : (m.write mo).Stored mo := by
  obtain ⟨s, hs⟩ := Option.isSome_iff_exists.mp hstore
  have hfault : s.faults (.order mo.orderRef) = false := by
    rw [faults, hs] at hwrites
    exact hwrites
  unfold Stored write persist row? put
  dsimp only
  rw [hs, Option.map_some, Option.bind_some, StateStore.saveOrder, hfault, if_neg Bool.false_ne_true,
    Option.getD_some, StateStore.findOrderByRef]
  dsimp only
  rw [Dict.get?_set_self]
  cases s.orders.get? mo.orderRef with
  | none => exact ⟨_, rfl, rfl⟩
  | some old => exact ⟨_, rfl, rfl⟩

theorem row?_write_of_fault {m : OrderManager} {mo : ManagedOrder}
    (h : ¬ (m.store.isSome = true ∧ m.faults (.order mo.orderRef) = false)) (ref : String) :
    (m.write mo).row? ref = m.row? ref := by
  unfold write persist row? put
  cases hs : m.store with
  | none => rfl
  | some s =>
    have hfault : s.faults (.order mo.orderRef) = true := by
      rw [faults, hs] at h
      simpa using h
    simp [StateStore.saveOrder, hfault]

theorem stored_write_iff (m : OrderManager) (mo : ManagedOrder) : (m.write mo).Stored mo ↔ m.Lands mo := by
  unfold Lands
  by_cases h : m.store.isSome = true ∧ m.faults (.order mo.orderRef) = false
  · exact ⟨fun _ => Or.inl h, fun _ => stored_write h.1 h.2⟩
  · rw [Stored, row?_write_of_fault h]
    exact ⟨Or.inr, fun hlands => hlands.resolve_left h⟩

theorem stored_write_ne (m : OrderManager) {mo mo' : ManagedOrder} (h : mo'.orderRef ≠ mo.orderRef) :
    (m.write mo).Stored mo' ↔ m.Stored mo' := by
  rw [Stored, Stored, row?_write_ne m h]

theorem lands_write_ne (m : OrderManager) {mo mo' : ManagedOrder} (h : mo'.orderRef ≠ mo.orderRef) :
    (m.write mo).Lands mo' ↔ m.Lands mo' := by
  rw [Lands, Lands, isSome_store_write, faults_write, stored_write_ne m h]

theorem stored_foldl_write_ne {mo : ManagedOrder} {rows : List ManagedOrder}
    (h : ∀ row ∈ rows, mo.orderRef ≠ row.orderRef) (m : OrderManager) :
    (rows.foldl write m).Stored mo ↔ m.Stored mo := by
  induction rows generalizing m with
  | nil => rfl
  | cons row rows ih =>
    rw [List.foldl_cons, ih fun row' hrow' => h row' (List.mem_cons_of_mem _ hrow')]
    exact stored_write_ne m (h row List.mem_cons_self)

theorem stored_foldl_write {rows : List ManagedOrder}
    (hdistinct : rows.Pairwise fun mo mo' => mo.orderRef ≠ mo'.orderRef) (m : OrderManager) :
    ∀ mo ∈ rows, ((rows.foldl write m).Stored mo ↔ m.Lands mo) := by
  induction rows generalizing m with
  | nil => exact fun mo hmem => (nomatch hmem)
  | cons row rows ih =>
    rw [List.pairwise_cons] at hdistinct
    intro mo hmem
    rw [List.foldl_cons]
    rcases List.mem_cons.mp hmem with rfl | hmem
    · exact (stored_foldl_write_ne hdistinct.1 _).trans (stored_write_iff m mo)
    · exact (ih hdistinct.2 _ mo hmem).trans (lands_write_ne m (hdistinct.1 mo hmem).symm)

/-! ### Write-ahead under store failures -/

/-- If `place_bracket` calls the broker, the rows of its three orders are stored then. -/
def WrittenAhead (m : OrderManager) (order : SizedOrder) (cycleId : String) (now : Now) : Prop :=
  ∀ entry stop target, (m.placeBracketStart order cycleId now).2 = .sent entry stop target →
    ∀ mo ∈ bracketRows order cycleId now, (m.placeBracketStart order cycleId now).1.Stored mo

/-- **When the write-ahead is not skipped.** For every order manager, order and pattern of store failures,
the broker is called on stored rows only precisely when `place_bracket` returns before its writes, or each
of the three saves lands. -/
theorem written_ahead_iff (m : OrderManager) (order : SizedOrder) (cycleId : String) (now : Now) :
    m.WrittenAhead order cycleId now ↔
      m.admits order cycleId now = false ∨ ∀ mo ∈ bracketRows order cycleId now, m.Lands mo := by
  have hexpired : ∀ mo, (m.unblockExpired now).Lands mo ↔ m.Lands mo := fun mo => Iff.rfl
  have hstored := stored_foldl_write (pairwise_bracketRows order cycleId now) (m.unblockExpired now)
  unfold WrittenAhead
  rcases m.placeBracketStart_eq order cycleId now with
    ⟨hadmits, _, hunsent⟩ | ⟨hadmits, hstart, entry, stop, target, hsent, _⟩
  · refine ⟨fun _ => Or.inl hadmits, fun _ entry stop target hsent => ?_⟩
    exact absurd hsent (hunsent entry stop target)
  · rw [hadmits, hstart]
    constructor
    · intro h
      refine Or.inr fun mo hmem => ?_
      exact (hexpired mo).mp ((hstored mo hmem).mp (h entry stop target hsent mo hmem))
    · rintro (hrefused | hlands) _ _ _ _ mo hmem
      · cases hrefused
      · exact (hstored mo hmem).mpr ((hexpired mo).mpr (hlands mo hmem))

/-! #### A locked database -/

def noon : Now := .sample 0 0

def hundredShares : SizedOrder where
  proposal := { symbol := "AAPL", action := .buy, conviction := 1, horizonMinutes := 60 }
  symbol := "AAPL"
  action := .buy
  quantity := 100
  entryPrice := 100
  stopPrice := 98
  targetPrice := 104
  riskAmount := 200
  notional := 10000

def lockedStore : StateStore := { faults := fun _ => true }

/-- The bracket goes out, and no row of it is stored. -/
theorem placed_unwritten : ¬ WrittenAhead { store := some lockedStore } hundredShares "c1" noon := by
  intro h
  obtain ⟨row, hrow, -⟩ := h _ _ _ rfl (bracketRecords hundredShares "c1" noon).1 List.mem_cons_self
  have hnone : (placeBracketStart { store := some lockedStore } hundredShares "c1" noon).1.row?
      (bracketRecords hundredShares "c1" noon).1.orderRef = none := by decide +kernel
  rw [hnone] at hrow
  cases hrow

/-! ### Known references -/

/-- `m'` has the store of `m`, with more rows. -/
structure Grows (m m' : OrderManager) : Prop where
  store : m'.store.isSome = m.store.isSome
  faults : m'.faults = m.faults
  rows : ∀ ref, (m.row? ref).isSome = true → (m'.row? ref).isSome = true

theorem Grows.refl (m : OrderManager) : Grows m m := ⟨rfl, rfl, fun _ h => h⟩

theorem Grows.trans {m m' m'' : OrderManager} (h : Grows m m') (h' : Grows m' m'') : Grows m m'' :=
  ⟨h'.store.trans h.store, h'.faults.trans h.faults, fun ref hrow => h'.rows ref (h.rows ref hrow)⟩

theorem Grows.of_store {m m' : OrderManager} (h : m'.store = m.store) : Grows m m' := by
  refine ⟨by rw [h], ?_, fun ref hrow => ?_⟩
  · show m'.faults = m.faults
    funext w
    unfold OrderManager.faults
    rw [h]
  · rw [row?, h]
    exact hrow

theorem Grows.foldl {α : Type} {f : OrderManager → α → OrderManager} (h : ∀ m a, Grows m (f m a))
    (m : OrderManager) (as : List α) : Grows m (as.foldl f m) := by
  induction as generalizing m with
  | nil => exact .refl m
  | cons a as ih => exact (h m a).trans (ih _)

theorem grows_persist (m : OrderManager) (mo : ManagedOrder) (permId : Option ℤ) :
    Grows m (m.persist mo permId) := by
  refine ⟨?_, faults_persist m mo permId, fun ref hrow => ?_⟩
  · rw [persist, Option.isSome_map]
  · unfold row? at hrow ⊢
    unfold persist
    cases hs : m.store with
    | none => simp [hs] at hrow
    | some s =>
      rw [hs] at hrow
      unfold StateStore.saveOrder
      by_cases hfault : s.faults (.order mo.orderRef) = true
      · simpa [hfault] using hrow
      · by_cases href : ref = mo.orderRef
        · simp [hfault, href, StateStore.findOrderByRef]
        · simpa [hfault, StateStore.findOrderByRef, Dict.get?_set_ne _ _ href] using hrow

theorem grows_write (m : OrderManager) (mo : ManagedOrder) : Grows m (m.write mo) := by
  have hput : Grows m (m.put mo) := .of_store rfl
  exact hput.trans (grows_persist (m.put mo) mo none)

theorem grows_writes (m : OrderManager) (rows : List ManagedOrder) (now : Now) :
    Grows m (rows.foldl write (m.unblockExpired now)) := by
  have hexpired : Grows m (m.unblockExpired now) := .of_store rfl
  exact hexpired.trans (Grows.foldl grows_write _ rows)

theorem grows_noteTransition (m : OrderManager) (ref : String) (previous new : OrderState)
    (rawStatus : String) : Grows m (m.noteTransition ref previous new rawStatus) := by
  refine ⟨?_, faults_noteTransition m ref previous new rawStatus, fun ref' hrow => ?_⟩
  · rw [noteTransition]
    split_ifs
    · rfl
    · exact Option.isSome_map
  · unfold noteTransition
    split_ifs
    · exact hrow
    · unfold row? at hrow ⊢
      cases hs : m.store with
      | none => simp [hs] at hrow
      | some s =>
        rw [hs] at hrow
        unfold StateStore.recordTransition
        by_cases hfault : s.faults (.transition ref new) = true
        · simpa [hfault] using hrow
        · simpa [hfault, StateStore.findOrderByRef] using hrow

theorem grows_absorb (m : OrderManager) (mo : ManagedOrder) (status : BrokerOrderStatus) (now : Now) :
    Grows m (m.absorb mo status now) := by
  unfold absorb
  dsimp only
  refine Grows.trans ?_ (grows_noteTransition _ _ _ _ _)
  refine Grows.trans ?_ (grows_persist _ _ _)
  exact Grows.of_store rfl

theorem grows_applyStatus (m : OrderManager) (status : BrokerOrderStatus) (now : Now) :
    Grows m (m.applyStatus status now) := by
  unfold applyStatus
  split
  · exact grows_absorb _ _ _ _
  · split_ifs
    · exact grows_absorb _ _ _ _
    · exact .refl m

theorem grows_placeBracketFinish (m : OrderManager) (order : SizedOrder)
    (reply : Except String (List BrokerOrderStatus)) (now : Now) :
    Grows m (m.placeBracketFinish order reply now).1 := by
  cases reply with
  | error e => exact Grows.of_store rfl
  | ok statuses => exact Grows.foldl (fun m status => grows_applyStatus m status now) m statuses

theorem grows_placeBracketCut (m : OrderManager) (order : SizedOrder) (cycleId : String) (now : Now)
    (k : ℕ) : Grows m (m.placeBracketCut order cycleId now k) := by
  unfold placeBracketCut
  split_ifs
  · exact grows_writes m _ now
  · exact Grows.of_store rfl

theorem store_loadFromStore (m : OrderManager) (now : Now) : (m.loadFromStore now).store = m.store := by
  have hfold : ∀ (rows : List OrderRow) (m : OrderManager),
      (rows.foldl (fun m row => (m.put (restored row now)).notePermId row.order.orderRef row.ibPermId)
        m).store = m.store := by
    intro rows
    induction rows with
    | nil => exact fun m => rfl
    | cons row rows ih => exact fun m => ih _
  unfold loadFromStore
  cases hs : m.store with
  | none => exact hs
  | some s => exact (hfold s.loadOrders m).trans hs

end OrderManager

/-! ### Placement across restarts -/

/-- An order manager with its store, and the entry references its broker has been called for. -/
structure PlacementRun where
  manager : OrderManager
  calls : List String := []

namespace PlacementRun

open OrderManager

inductive Event
  /-- `place_bracket` up to its call of the broker. -/
  | placed (order : SizedOrder) (cycleId : String) (now : Now)
  /-- The broker has answered, or raised; the rest of `place_bracket`. -/
  | answered (order : SizedOrder) (reply : Except String (List BrokerOrderStatus)) (now : Now)
  /-- The process dies in `place_bracket` after `k` of its writes. -/
  | killed (order : SizedOrder) (cycleId : String) (now : Now) (k : ℕ)
  /-- The process dies outside of the writes, and the next one starts, with or without
  `load_from_store`. -/
  | restarted (loads : Bool) (now : Now)
  | status (status : BrokerOrderStatus) (now : Now)

/-- A new order manager on the store. -/
def fresh (m : OrderManager) : OrderManager := { store := m.store, limitOffsetPct := m.limitOffsetPct }

def step (s : PlacementRun) : Event → PlacementRun
  | .placed order cycleId now =>
    let out := s.manager.placeBracketStart order cycleId now
    { manager := out.1
      calls := match out.2 with
        | .sent entry _ _ => s.calls ++ [entry.orderRef]
        | _ => s.calls }
  | .answered order reply now => { s with manager := (s.manager.placeBracketFinish order reply now).1 }
  | .killed order cycleId now k => { s with manager := fresh (s.manager.placeBracketCut order cycleId now k) }
  | .restarted loads now =>
    { s with manager := if loads then (fresh s.manager).loadFromStore now else fresh s.manager }
  | .status status now => { s with manager := s.manager.applyStatus status now }

/-- The broker has been called at most once for each entry reference. -/
def AtMostOnce (s : PlacementRun) : Prop := s.calls.Nodup

instance (s : PlacementRun) : Decidable s.AtMostOnce := inferInstanceAs (Decidable s.calls.Nodup)

/-- Every reference the broker has been called for has a row. -/
structure Inv (s : PlacementRun) : Prop where
  store : s.manager.store.isSome = true
  writes : ∀ ref, s.manager.faults (.order ref) = false
  known : ∀ ref ∈ s.calls, (s.manager.row? ref).isSome = true
  once : s.AtMostOnce

theorem Inv.grows {s : PlacementRun} (h : s.Inv) {manager : OrderManager} (hgrows : Grows s.manager manager) :
    Inv { s with manager } where
  store := hgrows.store.trans h.store
  writes := fun ref => (congrFun hgrows.faults _).trans (h.writes ref)
  known := fun ref hmem => hgrows.rows ref (h.known ref hmem)
  once := h.once

theorem Inv.placed {s : PlacementRun} (h : s.Inv) (order : SizedOrder) (cycleId : String) (now : Now) :
    (s.step (.placed order cycleId now)).Inv := by
  unfold PlacementRun.step
  dsimp only
  rcases s.manager.placeBracketStart_eq order cycleId now with
    ⟨-, hstart, hunsent⟩ | ⟨hadmits, hstart, entry, stop, target, hsent, href⟩
  · rw [hstart]
    split
    · rename_i entry stop target hsent
      exact absurd hsent (hunsent entry stop target)
    · exact h.grows (Grows.of_store rfl)
  · have hinv := h.grows (grows_writes s.manager (bracketRows order cycleId now) now)
    rw [hstart, hsent]
    refine ⟨hinv.store, hinv.writes, fun ref hmem => ?_, ?_⟩
    · rcases List.mem_append.mp hmem with hmem | hmem
      · exact hinv.known ref hmem
      · obtain rfl := List.mem_singleton.mp hmem
        obtain ⟨row, hrow, -⟩ := (stored_foldl_write (pairwise_bracketRows order cycleId now)
          (s.manager.unblockExpired now) (bracketRecords order cycleId now).1 List.mem_cons_self).mpr
          (Or.inl ⟨h.store, h.writes _⟩)
        rw [href]
        exact Option.isSome_iff_exists.mpr ⟨row, hrow⟩
    · refine List.nodup_append.mpr ⟨h.once, by simp, fun ref hmem ref' hmem' heq => ?_⟩
      obtain rfl := List.mem_singleton.mp hmem'
      have hknown := h.known ref hmem
      rw [heq, href] at hknown
      rw [admits, Bool.and_eq_true, Option.isNone_iff_eq_none] at hadmits
      rw [hadmits.2] at hknown
      cases hknown

theorem Inv.step {s : PlacementRun} (h : s.Inv) (e : Event) : (s.step e).Inv := by
  cases e with
  | placed order cycleId now => exact h.placed order cycleId now
  | answered order reply now => exact h.grows (grows_placeBracketFinish s.manager order reply now)
  | killed order cycleId now k =>
    exact h.grows ((grows_placeBracketCut s.manager order cycleId now k).trans (Grows.of_store rfl))
  | restarted loads now =>
    cases loads with
    | false => exact h.grows (Grows.of_store rfl)
    | true => exact h.grows (Grows.of_store (store_loadFromStore (fresh s.manager) now))
  | status status now => exact h.grows (grows_applyStatus s.manager status now)

/-- **When placement is idempotent across restarts.** With a store whose writes complete, in every run of
placements, answers, deaths inside or between them and restarts, the broker is called at most once for each
entry reference. -/
theorem placed_at_most_once (m : OrderManager) (hstore : m.store.isSome = true)
    (hwrites : ∀ ref, m.faults (.order ref) = false) (events : List Event) :
    Trace.Always step AtMostOnce { manager := m } events := by
  have hstep : ∀ (s : PlacementRun) e, s.Inv → (s.step e).Inv := fun s e hI => hI.step e
  have hP : ∀ s : PlacementRun, s.Inv → s.AtMostOnce := fun s hI => hI.once
  have hstart : ({ manager := m } : PlacementRun).Inv :=
    ⟨hstore, hwrites, fun ref hmem => (nomatch hmem), List.nodup_nil⟩
  exact Trace.always_of_invariant hstep hP hstart

/-- A death before the call, one after it, and the same cycle again each time. -/
theorem placed_at_most_once_crashes :
    Trace.Always step AtMostOnce { manager := { store := some {} } }
      [.killed hundredShares "c1" noon 1, .placed hundredShares "c1" noon, .restarted true noon,
        .placed hundredShares "c2" noon, .restarted false noon, .placed hundredShares "c2" noon] :=
  placed_at_most_once _ rfl (fun _ => rfl) _

/-- Every save raises: the next process knows nothing of the bracket its predecessor has placed. -/
theorem placed_once_more :
    ¬ Trace.Always step AtMostOnce { manager := { store := some lockedStore } }
      [.placed hundredShares "c1" noon, .restarted true noon, .placed hundredShares "c1" noon] := by
  intro h
  have htwice : ¬ AtMostOnce (Trace.run step { manager := { store := some lockedStore } }
      [.placed hundredShares "c1" noon, .restarted true noon, .placed hundredShares "c1" noon]) := by
    decide +kernel
  exact htwice h.last

end PlacementRun

end AiTrader
