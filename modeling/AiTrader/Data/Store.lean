import AiTrader.Domain.Proposals
import Mathlib.Algebra.Order.Ring.Rat
import Mathlib.Data.List.Sort

/-!
# The durable store

The tables the trading path writes. A write may raise, as a locked or full database makes it; which
writes raise is the store's `faults`. An operation returns `none` when it raises, with the store as it
was: every method commits one statement or none.

A table with a primary key is a dictionary, one that only grows is a list, in the order of its rows. The entries of
the key-value table that the modelled functions use have fields of their own.
-/

namespace AiTrader

open Lib

/-- The statements that can raise, told apart by what they are about. -/
inductive Write
  | order (ref : String)
  | transition (ref : String) (new : OrderState)
  | fill (execId : String)
  | riskEvent (symbol : String)
  | killSwitch
  | startingEquity
  | executionMode
  deriving DecidableEq

/-- A row of `orders`: the record and IBKR's permanent id. -/
structure OrderRow where
  order : ManagedOrder
  ibPermId : Option ℤ
  deriving DecidableEq

structure Transition where
  orderRef : String
  previous : OrderState
  new : OrderState
  rawStatus : String
  deriving DecidableEq

structure RiskEvent where
  cycleId : String
  symbol : String
  approved : Bool
  reason : Option RejectReason
  detail : String
  deriving DecidableEq

/-- The `starting_equity` entry of `kv`. -/
structure SavedEquity where
  day : String
  equity : ℚ
  deriving DecidableEq

/-- The `kill_switch` entry of `kv`. -/
structure SavedKillSwitch where
  tripped : Bool
  reason : Option String := none
  action : Option KillSwitchAction := none
  deriving DecidableEq

structure StateStore where
  faults : Write → Bool := fun _ => false
  orders : Dict String OrderRow := Dict.empty
  transitions : List Transition := []
  fills : Dict String Fill := Dict.empty
  riskEvents : List RiskEvent := []
  startingEquity : Option SavedEquity := none
  killSwitch : Option SavedKillSwitch := none
  executionMode : Option ExecutionMode := none

namespace StateStore

/-- An upsert: the permanent id and the creation time of a row survive an update that lacks them. -/
def saveOrder (s : StateStore) (order : ManagedOrder) (permId : Option ℤ) : Option StateStore :=
  if s.faults (.order order.orderRef) then none
  else
    let row := match s.orders.get? order.orderRef with
      | some old =>
        { order := { order with createdAt := old.order.createdAt }
          ibPermId := permId.orElse fun _ => old.ibPermId : OrderRow }
      | none => { order, ibPermId := permId }
    some { s with orders := s.orders.set order.orderRef row }

def findOrderByRef (s : StateStore) (ref : String) : Option OrderRow := s.orders.get? ref

/-- Oldest first. -/
def loadOrders (s : StateStore) : List OrderRow :=
  s.orders.values.insertionSort fun a b => a.order.createdAt ≤ b.order.createdAt

def recordTransition (s : StateStore) (ref : String) (previous new : OrderState)
    (rawStatus : String) : Option StateStore :=
  if s.faults (.transition ref new) then none
  else some { s with transitions := s.transitions ++ [{ orderRef := ref, previous, new, rawStatus }] }

/-- Inserts are ignored when the execution is already there. -/
def saveFill (s : StateStore) (execId : String) (fill : Fill) : Option StateStore :=
  if s.faults (.fill execId) then none
  else if s.fills.contains execId then some s
  else some { s with fills := s.fills.set execId fill }

def saveRiskEvent (s : StateStore) (event : RiskEvent) : Option StateStore :=
  if s.faults (.riskEvent event.symbol) then none
  else some { s with riskEvents := s.riskEvents ++ [event] }

/-- A row of `load_rejections`. -/
structure RejectionRow where
  symbol : String
  reason : Option RejectReason
  detail : String
  deriving DecidableEq

/-- Newest first. -/
def loadRejections (s : StateStore) (limit : ℕ) : List RejectionRow :=
  ((s.riskEvents.filter fun event => !event.approved).reverse.take limit).map fun event =>
    { symbol := event.symbol, reason := event.reason, detail := event.detail }

def setStartingEquity (s : StateStore) (saved : SavedEquity) : Option StateStore :=
  if s.faults .startingEquity then none else some { s with startingEquity := some saved }

def setKillSwitch (s : StateStore) (saved : SavedKillSwitch) : Option StateStore :=
  if s.faults .killSwitch then none else some { s with killSwitch := some saved }

def setExecutionMode (s : StateStore) (mode : ExecutionMode) : Option StateStore :=
  if s.faults .executionMode then none else some { s with executionMode := some mode }

theorem startingEquity_setExecutionMode (s : StateStore) (mode : ExecutionMode) :
    ((s.setExecutionMode mode).getD s).startingEquity = s.startingEquity := by
  unfold setExecutionMode
  split_ifs <;> rfl

theorem head?_loadRejections {s : StateStore} {event : RiskEvent} (hlast : s.riskEvents.getLast? = some event)
    (hrejected : event.approved = false) {limit : ℕ} (hlimit : 0 < limit) :
    (s.loadRejections limit).head? =
      some { symbol := event.symbol, reason := event.reason, detail := event.detail } := by
  obtain ⟨before, hevents⟩ := List.getLast?_eq_some_iff.mp hlast
  obtain ⟨n, rfl⟩ := Nat.exists_eq_succ_of_ne_zero hlimit.ne'
  rw [loadRejections, hevents, List.filter_append, List.filter_singleton, hrejected, Bool.not_false, cond_true,
    List.reverse_append, List.reverse_singleton, List.singleton_append, List.take_succ_cons, List.map_cons,
    List.head?_cons]

/-! No operation changes which writes raise. -/

@[simp] theorem faults_saveOrder (s : StateStore) (order : ManagedOrder) (permId : Option ℤ) :
    ((s.saveOrder order permId).getD s).faults = s.faults := by
  unfold saveOrder
  split_ifs <;> rfl

@[simp] theorem faults_recordTransition (s : StateStore) (ref : String) (previous new : OrderState)
    (rawStatus : String) : ((s.recordTransition ref previous new rawStatus).getD s).faults = s.faults := by
  unfold recordTransition
  split_ifs <;> rfl

end StateStore

end AiTrader
