import AiTrader.Domain.Models

/-!
# Proposals, sized orders and verdicts

What travels from the model to the broker: a proposal with its distances in ATR multiples and in R, the order that
sizing makes of it, with prices and a share count, and the verdict of the gate. A plan and a decision are lists of
such things with the texts that the notebook keeps. A verdict is an approval, an approval that is still to be placed,
or a rejection with one of the reasons of `RejectReason`.
-/

namespace AiTrader

/-- A single trade idea from the model. It carries no share count and no price. -/
structure TradeProposal where
  symbol : String
  action : Action
  conviction : ℚ
  horizonMinutes : ℤ
  stopAtrMultiple : ℚ := 3 / 2
  targetRMultiple : ℚ := 2
  rationale : String := ""
  evidence : List String := []
  deriving DecidableEq

/-- A proposal after deterministic sizing, before the risk gate. -/
structure SizedOrder where
  proposal : TradeProposal
  symbol : String
  action : Action
  quantity : ℤ
  entryPrice : ℚ
  stopPrice : ℚ
  targetPrice : ℚ
  riskAmount : ℚ
  notional : ℚ
  deriving DecidableEq

/-- The gate's answer. -/
structure RiskVerdict where
  approved : Bool
  reason : Option RejectReason := none
  detail : String := ""
  symbol : String := ""
  deriving DecidableEq

namespace RiskVerdict

def ok (symbol : String) : RiskVerdict := { approved := true, symbol }

def reject (reason : RejectReason) (detail symbol : String) : RiskVerdict :=
  { approved := false, reason := some reason, detail, symbol }

@[simp] theorem approved_ok (symbol : String) : (ok symbol).approved = true := rfl

@[simp] theorem approved_reject (reason : RejectReason) (detail symbol : String) :
    (reject reason detail symbol).approved = false := rfl

end RiskVerdict

inductive ApprovalKind
  | entry | close
  deriving DecidableEq, Repr

/-- A trade idea waiting for a person to say yes. `sized` is there for an entry only, `closeQuantity` and
`closeIsLong` matter for a close only. -/
structure PendingApproval where
  id : String
  cycleId : String := ""
  kind : ApprovalKind
  symbol : String
  action : Action
  sized : Option SizedOrder := none
  closeQuantity : ℚ := 0
  closeIsLong : Bool := true
  createdAt : ℚ
  deriving DecidableEq

def PendingApproval.ageSeconds (p : PendingApproval) (now : ℚ) : ℚ := now - p.createdAt

end AiTrader
