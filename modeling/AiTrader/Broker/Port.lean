import AiTrader.Domain.Models

/-!
# The broker boundary

What the engine says to a broker and hears from it: bracket and single orders, cancels, and the statuses, executions
and open orders that come back. An order is described by its legs, and a status names the leg by its reference. The
error codes are sorted by the first list that has them, as in the source: 399 is an order rejection there, although it
is listed as harmless too.
-/

namespace AiTrader

inductive OrderType
  | lmt | mkt | stp | stpLmt
  deriving DecidableEq, Repr

/-- A single order leg, expressed without reference to any broker library. -/
structure BrokerOrderSpec where
  symbol : String
  action : String
  quantity : ℚ
  orderType : OrderType
  limitPrice : Option ℚ := none
  stopPrice : Option ℚ := none
  orderRef : String := ""
  ocaGroup : Option String := none
  parentRef : Option String := none
  transmit : Bool := true
  tif : String := "DAY"
  outsideRth : Bool := false
  deriving DecidableEq

/-- What the broker says about an order. -/
structure BrokerOrderStatus where
  orderRef : String
  orderId : ℤ
  permId : Option ℤ
  status : String
  filled : ℚ
  remaining : ℚ
  avgFillPrice : Option ℚ
  symbol : String := ""
  action : String := ""
  deriving DecidableEq

/-- A fill as reported by the broker. -/
structure BrokerExecution where
  execId : String
  orderRef : String
  symbol : String
  action : String
  quantity : ℚ
  price : ℚ
  ts : ℚ
  commission : ℚ := 0
  permId : Option ℤ := none
  deriving DecidableEq

/-! ### Errors -/

inductive ErrorKind
  | pacing | noSubscription | connectivity | orderReject | benign | other
  deriving DecidableEq, Repr

def pacingErrors : List ℤ := [100, 162, 165, 366, 420]

def noSubscriptionErrors : List ℤ := [354, 10089, 10090, 10091, 10167, 10197]

def connectivityErrors : List ℤ := [502, 504, 1100, 1101, 1102, 2103, 2105, 2157]

def orderRejectErrors : List ℤ := [201, 202, 203, 399, 10147, 10148]

/-- Informational codes. -/
def benignErrors : List ℤ := [2104, 2106, 2107, 2108, 2119, 2158, 399]

def classifyError (code : ℤ) : ErrorKind :=
  if code ∈ pacingErrors then .pacing
  else if code ∈ noSubscriptionErrors then .noSubscription
  else if code ∈ connectivityErrors then .connectivity
  else if code ∈ orderRejectErrors then .orderReject
  else if code ∈ benignErrors then .benign
  else .other

/-- A call on the broker that sends something. -/
inductive BrokerRequest
  | placeBracket (entry stop target : BrokerOrderSpec)
  | placeSingle (spec : BrokerOrderSpec)
  | cancelOrder (orderId : ℤ)
  deriving DecidableEq

end AiTrader
