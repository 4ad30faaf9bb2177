import AiTrader.Agents.Decision

/-!
# The day's plan

What becomes of the payload of the strategist's reply: the schema of a `DailyPlan` and `AgentRunner.plan_session`.
The two lists of symbols have no validator of their own, unlike the proposals of a decision: whatever lists of texts
a reply has, the plan has them (`exists_reply`).
-/

namespace AiTrader

open Lib Validated

inductive Bias
  | bullish | bearish | neutral
  deriving DecidableEq

inductive RiskPosture
  | aggressive | normal | defensive
  deriving DecidableEq

def Bias.ofJson : Json → Option Bias
  | .string "BULLISH" => some .bullish
  | .string "BEARISH" => some .bearish
  | .string "NEUTRAL" => some .neutral
  | _ => none

def RiskPosture.ofJson : Json → Option RiskPosture
  | .string "AGGRESSIVE" => some .aggressive
  | .string "NORMAL" => some .normal
  | .string "DEFENSIVE" => some .defensive
  | _ => none

/-- The Strategist agent's pre-market output. -/
structure DailyPlan where
  bias : Bias := .neutral
  reasoning : String := ""
  themes : List String := []
  watchlist : List String := []
  riskPosture : RiskPosture := .normal
  avoid : List String := []
  deriving DecidableEq

namespace DailyPlan

/-- `DailyPlan.model_validate`. -/
def validate (payload : Payload) : Validated Bound DailyPlan :=
  let get := payload.get?
  accept DailyPlan.mk
    |>.apply (optional get "bias" .neutral (ofReader Bias.ofJson))
    |>.apply (optional get "reasoning" "" (shortText 1200))
    |>.apply (optional get "themes" [] (listOf text))
    |>.apply (optional get "watchlist" [] (listOf text))
    |>.apply (optional get "risk_posture" .normal (ofReader RiskPosture.ofJson))
    |>.apply (optional get "avoid" [] (listOf text))

/-- `safe_default`. -/
def safeDefault : DailyPlan where
  riskPosture := .defensive
  reasoning := "No plan produced; defaulting to defensive."

theorem exists_reply (watchlist avoid : List String) :
    ∃ payload, validate payload = .ok { watchlist, avoid } := by
  refine ⟨[("watchlist", .array (watchlist.map .string)), ("avoid", .array (avoid.map .string))], ?_⟩
  unfold validate
  simp only [apply_eq_ok, accept_eq_ok]
  refine ⟨_, avoid, ⟨_, .normal, ⟨_, watchlist, ⟨_, [], ⟨_, "", ⟨_, .neutral, rfl, rfl, rfl⟩, rfl, rfl⟩, rfl, rfl⟩,
    ?_, rfl⟩, rfl, rfl⟩, ?_, rfl⟩
  · exact optional_eq_ok.mpr (Or.inr ⟨_, rfl, listOf_text watchlist⟩)
  · exact optional_eq_ok.mpr (Or.inr ⟨_, rfl, listOf_text avoid⟩)

end DailyPlan

/-- `plan_session`, from the gateway's answer on. -/
def AgentRunner.planSession (answer : Option DailyPlan) : DailyPlan :=
  match answer with
  | none => DailyPlan.safeDefault
  | some plan => plan

end AiTrader
