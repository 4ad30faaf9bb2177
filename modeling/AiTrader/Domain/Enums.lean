/-!
# Enumerations shared across the system

Each enumeration carries the text of its members (`value`) where a modelled function writes it out.

An order's states are split into the working and the terminal ones, which is how every loop over orders chooses its
records; the two splits of the source are complements of each other (`isWorking_eq_not_isTerminal`).
-/

namespace AiTrader

/-- What the model proposes doing with a symbol. -/
inductive Action
  | buy | sell | hold | close
  deriving DecidableEq, Repr

def Action.value : Action → String
  | .buy => "BUY"
  | .sell => "SELL"
  | .hold => "HOLD"
  | .close => "CLOSE"

/-- Where we are in the trading day. -/
inductive SessionPhase
  | closed | premarket | openingRange | rth | closing | afterHours
  deriving DecidableEq, Repr

namespace SessionPhase

def value : SessionPhase → String
  | closed => "CLOSED"
  | premarket => "PREMARKET"
  | openingRange => "OPENING_RANGE"
  | rth => "RTH"
  | closing => "CLOSING"
  | afterHours => "AFTER_HOURS"

def isTradeable : SessionPhase → Bool
  | openingRange | rth | closing => true
  | _ => false

end SessionPhase

inductive OrderState
  | pending | submitted | partiallyFilled | filled | cancelled | rejected
  deriving DecidableEq, Repr

namespace OrderState

def isTerminal : OrderState → Bool
  | filled | cancelled | rejected => true
  | _ => false

def isWorking : OrderState → Bool
  | pending | submitted | partiallyFilled => true
  | _ => false

def value : OrderState → String
  | pending => "PENDING"
  | submitted => "SUBMITTED"
  | partiallyFilled => "PARTIAL"
  | filled => "FILLED"
  | cancelled => "CANCELLED"
  | rejected => "REJECTED"

/-- `OrderState(text)`; `none` where it raises. -/
def ofValue (text : String) : Option OrderState :=
  [pending, submitted, partiallyFilled, filled, cancelled, rejected].find? fun s => s.value = text

@[simp] theorem ofValue_value (s : OrderState) : ofValue s.value = some s := by
  cases s <;> rfl

theorem isWorking_eq_not_isTerminal (s : OrderState) : s.isWorking = !s.isTerminal := by
  cases s <;> rfl

end OrderState

/-- Every way the risk gate can say no. -/
inductive RejectReason
  | killSwitch | tradingModeInterlock | marketClosed | tooLateInSession | staleAccountState
  | insufficientBuyingPower | perTradeRiskExceeded | positionNotionalExceeded | maxPositionsReached
  | maxEntriesPerCycle | concentrationLimit | dailyLossLimit | dailyTradeCap | priceCollar | illiquid
  | spreadTooWide | staleMarketData | halted | duplicateOrder | cooldown | flipFlopGuard
  | zeroQuantity | noMarketData | riskOfficerVeto | unknownSymbol | approvalExpired
  deriving DecidableEq, Repr

def RejectReason.value : RejectReason → String
  | .killSwitch => "KILL_SWITCH"
  | .tradingModeInterlock => "TRADING_MODE_INTERLOCK"
  | .marketClosed => "MARKET_CLOSED"
  | .tooLateInSession => "TOO_LATE_IN_SESSION"
  | .staleAccountState => "STALE_ACCOUNT_STATE"
  | .insufficientBuyingPower => "INSUFFICIENT_BUYING_POWER"
  | .perTradeRiskExceeded => "PER_TRADE_RISK_EXCEEDED"
  | .positionNotionalExceeded => "POSITION_NOTIONAL_EXCEEDED"
  | .maxPositionsReached => "MAX_POSITIONS_REACHED"
  | .maxEntriesPerCycle => "MAX_ENTRIES_PER_CYCLE"
  | .concentrationLimit => "CONCENTRATION_LIMIT"
  | .dailyLossLimit => "DAILY_LOSS_LIMIT"
  | .dailyTradeCap => "DAILY_TRADE_CAP"
  | .priceCollar => "PRICE_COLLAR"
  | .illiquid => "ILLIQUID"
  | .spreadTooWide => "SPREAD_TOO_WIDE"
  | .staleMarketData => "STALE_MARKET_DATA"
  | .halted => "HALTED"
  | .duplicateOrder => "DUPLICATE_ORDER"
  | .cooldown => "COOLDOWN"
  | .flipFlopGuard => "FLIP_FLOP_GUARD"
  | .zeroQuantity => "ZERO_QUANTITY"
  | .noMarketData => "NO_MARKET_DATA"
  | .riskOfficerVeto => "RISK_OFFICER_VETO"
  | .unknownSymbol => "UNKNOWN_SYMBOL"
  | .approvalExpired => "APPROVAL_EXPIRED"

inductive TradingMode
  | paper | live
  deriving DecidableEq, Repr

/-- Who pulls the trigger on a sized, risk-vetted trade idea. -/
inductive ExecutionMode
  | auto | manual
  deriving DecidableEq, Repr

inductive KillSwitchAction
  | haltNewEntries | flattenAll
  deriving DecidableEq, Repr

def KillSwitchAction.value : KillSwitchAction → String
  | .haltNewEntries => "halt_new_entries"
  | .flattenAll => "flatten_all"

/-- `unauthenticated`: the socket is up but the session is dead. -/
inductive ConnectionState
  | disconnected | connecting | connected | unauthenticated
  deriving DecidableEq, Repr

end AiTrader
