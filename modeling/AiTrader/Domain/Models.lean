import AiTrader.Domain.Enums
import AiTrader.Lib.Dict
import Mathlib.Data.Rat.Defs
import Mathlib.Algebra.Order.Ring.Rat

/-!
# Core value objects

Prices, quantities and times are exact rationals. A time is a number of seconds since the epoch; the
monotonic clock is a separate scale.

An optional number of the source is an `Option`, and a test of its truth value is `truthy`: there, and not zero.
Quotes, accounts, positions, orders and executions keep the fields that the modelled functions read. The clocks are
read together where the code reads them together (`Now`).
-/

namespace AiTrader

open Lib

/-- One reading of the clocks: seconds since the epoch, the UTC calendar date as text, and the monotonic
clock. An ISO date has no colon, which is what keeps order references parseable. -/
structure Now where
  epoch : ℚ
  date : String
  mono : ℚ
  date_no_colon : ':' ∉ date.toList := by decide

/-- A reading on the day of the sample runs. -/
def Now.sample (epoch mono : ℚ) : Now := { epoch, date := "2025-01-02", mono }

@[simp] theorem Now.epoch_sample (epoch mono : ℚ) : (sample epoch mono).epoch = epoch := rfl

/-- A single bar. -/
structure Bar where
  symbol : String
  ts : ℚ
  openPrice : ℚ
  high : ℚ
  low : ℚ
  close : ℚ
  volume : ℚ
  /-- Bar width in seconds. -/
  period : ℕ
  deriving DecidableEq

/-- Latest top-of-book snapshot for a symbol. -/
structure Quote where
  symbol : String
  bid : Option ℚ := none
  ask : Option ℚ := none
  last : Option ℚ := none
  halted : Bool := false
  updatedAt : ℚ
  deriving DecidableEq

namespace Quote

def mid (q : Quote) : Option ℚ :=
  match q.bid, q.ask with
  | some b, some a => if 0 < b ∧ 0 < a then some ((b + a) / 2) else q.last
  | _, _ => q.last

def spread (q : Quote) : Option ℚ :=
  match q.bid, q.ask with
  | some b, some a => if 0 < b ∧ 0 < a then some (a - b) else none
  | _, _ => none

/-- `none` when there is no spread, no mid, or the mid is zero. -/
def spreadPct (q : Quote) : Option ℚ :=
  match q.spread, q.mid with
  | some s, some m => if m = 0 then none else some (s / m)
  | _, _ => none

def ageSeconds (q : Quote) (now : ℚ) : ℚ := now - q.updatedAt

/-- A quote we would be willing to price an order from. -/
def isUsable (q : Quote) : Bool :=
  !q.halted && match q.mid with
    | some m => decide (0 < m)
    | none => false

end Quote

/-- A position as reported by the broker. -/
structure Position where
  symbol : String
  quantity : ℚ
  avgCost : ℚ
  marketPrice : Option ℚ := none
  unrealizedPnl : ℚ := 0
  realizedPnl : ℚ := 0
  deriving DecidableEq

namespace Position

def isLong (p : Position) : Bool := decide (0 < p.quantity)

def isFlat (p : Position) : Bool := decide (p.quantity = 0)

end Position

/-- Ground truth from the broker. `asOf` is checked by the risk gate. -/
structure AccountSnapshot where
  accountId : String
  equity : ℚ
  cash : ℚ
  buyingPower : ℚ
  realizedPnl : ℚ := 0
  unrealizedPnl : ℚ := 0
  positions : Dict String Position := Dict.empty
  asOf : ℚ
  deriving DecidableEq

namespace AccountSnapshot

def ageSeconds (a : AccountSnapshot) (now : ℚ) : ℚ := now - a.asOf

/-- Paper accounts are prefixed `DU`, advisor paper accounts `DF`. -/
def isPaper (a : AccountSnapshot) : Bool :=
  let id := a.accountId.toList.map Char.toUpper
  "DU".toList.isPrefixOf id || "DF".toList.isPrefixOf id

def openPositions (a : AccountSnapshot) : Dict String Position :=
  a.positions.filter fun _ p => !p.isFlat

theorem mem_openPositions {a : AccountSnapshot} {sym : String} {p : Position} :
    (sym, p) ∈ a.openPositions.entries ↔ (sym, p) ∈ a.positions.entries ∧ p.quantity ≠ 0 := by
  simp [openPositions, Position.isFlat]

theorem get?_openPositions {a : AccountSnapshot} {sym : String} {p : Position} :
    a.openPositions.get? sym = some p ↔ a.positions.get? sym = some p ∧ p.quantity ≠ 0 := by
  rw [Dict.get?_eq_some_iff, Dict.get?_eq_some_iff]
  exact mem_openPositions

end AccountSnapshot

/-- The numeric view of one symbol. -/
structure FeaturePack where
  symbol : String := ""
  price : ℚ
  changePct : ℚ := 0
  gapPct : ℚ := 0
  rvol : ℚ := 1
  atr : ℚ := 0
  atrPct : ℚ := 0
  vwap : Option ℚ := none
  vwapDistanceAtr : ℚ := 0
  rsi : ℚ := 50
  emaFast : Option ℚ := none
  emaSlow : Option ℚ := none
  emaTrend : ℤ := 0
  macd : ℚ := 0
  macdSignal : ℚ := 0
  bbUpper : Option ℚ := none
  bbLower : Option ℚ := none
  openingRangePosition : Option ℚ := none
  dayHigh : Option ℚ := none
  dayLow : Option ℚ := none
  avgVolume : ℚ := 0
  spreadPct : Option ℚ := none
  rankScore : ℚ := 0
  deriving DecidableEq

/-- Broker connection status. -/
structure ConnectionHealth where
  state : ConnectionState := .disconnected
  lastError : Option String := none
  reconnectAttempts : ℕ := 0
  needsManual2fa : Bool := false
  deriving DecidableEq

def ConnectionHealth.isTradeable (h : ConnectionHealth) : Bool :=
  decide (h.state = .connected) && !h.needsManual2fa

/-- Our record of an order. -/
structure ManagedOrder where
  orderRef : String
  symbol : String
  action : String
  quantity : ℚ
  limitPrice : Option ℚ := none
  stopPrice : Option ℚ := none
  targetPrice : Option ℚ := none
  state : OrderState := .pending
  ibOrderId : Option ℤ := none
  parentRef : Option String := none
  filledQuantity : ℚ := 0
  avgFillPrice : Option ℚ := none
  createdAt : ℚ
  updatedAt : ℚ
  cycleId : Option String := none
  rationale : Option String := none
  deriving DecidableEq

def ManagedOrder.isWorking (mo : ManagedOrder) : Bool := mo.state.isWorking

structure Fill where
  symbol : String
  action : String
  quantity : ℚ
  price : ℚ
  commission : ℚ := 0
  ts : ℚ
  orderRef : Option String := none
  deriving DecidableEq

end AiTrader
