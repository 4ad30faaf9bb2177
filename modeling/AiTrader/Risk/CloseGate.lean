import AiTrader.Risk.Engine

/-!
# The gate for exits

`RiskEngine.evaluate_close` judges a CLOSE of the model and an approved close. It asks for the kill switch,
the session phase, a quote that can be traded on, and that no order for the symbol is working:
`approved_evaluateClose`. It reads neither the account nor the size and side of the exit.

An exit is judged by far fewer checks than an entry. Nothing compares its size with the position, and nothing asks
whether there is one: these are left to the callers, each of which has its own idea of what is to be closed.
-/

namespace AiTrader

open Lib

namespace RiskEngine

/-- The quote is there, not halted, usable and not too old. -/
def quoteTradeable (cfg : RiskConfig) (quote : Option Quote) (now : Now) : Bool :=
  match quote with
  | none => false
  | some q => !q.halted && q.isUsable && decide (q.ageSeconds now.epoch ≤ cfg.maxQuoteAgeSeconds)

/-- `evaluate_close`. What it leaves of the engine is `lookSwitch`. -/
def evaluateClose (e : RiskEngine) (symbol : String) (quote : Option Quote) (phase : SessionPhase)
    (workingSymbols : List String) (now : Now) : RiskVerdict :=
  let killSwitch := e.killSwitch.look now
  if killSwitch.isTripped then
    .reject .killSwitch (orElseText killSwitch.reason "kill switch active") symbol
  else if !phase.isTradeable then
    .reject .marketClosed ("session phase is " ++ phase.value) symbol
  else if symbol ∈ workingSymbols then
    .reject .duplicateOrder "an order for this symbol is already working" symbol
  else match quote with
    | none => .reject .noMarketData "no quote available" symbol
    | some q =>
      if q.halted then .reject .halted "contract is halted" symbol
      else if !q.isUsable then .reject .noMarketData "quote has no usable price" symbol
      else if e.cfg.maxQuoteAgeSeconds < q.ageSeconds now.epoch then
        .reject .staleMarketData
          ("quote is " ++ Decimal.fixed 0 (q.ageSeconds now.epoch) ++ "s old (max " ++
            Decimal.fixed 0 e.cfg.maxQuoteAgeSeconds ++ "s)") symbol
      else .ok symbol

/-- **An exit is approved exactly when** the switch is off, the phase is tradeable, the quote can be traded
on, and no order for the symbol is working. -/
theorem approved_evaluateClose {e : RiskEngine} {symbol : String} {quote : Option Quote}
    {phase : SessionPhase} {workingSymbols : List String} {now : Now} :
    (e.evaluateClose symbol quote phase workingSymbols now).approved = true ↔
      e.killSwitch.isTripped = false ∧ phase.isTradeable = true ∧ symbol ∉ workingSymbols ∧
        quoteTradeable e.cfg quote now = true := by
  unfold evaluateClose quoteTradeable
  dsimp only
  rw [KillSwitch.isTripped_look]
  split_ifs with hswitch hphase hworking
  · simp [hswitch]
  · have hclosed : phase.isTradeable = false := by simpa using hphase
    simp [hclosed]
  · simp [hworking]
  · have hopen : phase.isTradeable = true := by simpa using hphase
    simp only [Bool.not_eq_true] at hswitch
    cases quote with
    | none => simp
    | some q =>
      dsimp only
      split_ifs with hhalted husable hage
      · simp [hhalted]
      · have hunusable : q.isUsable = false := by simpa using husable
        simp [hunusable]
      · simp [hage]
      · simp only [Bool.not_eq_true, Bool.not_eq_false'] at hhalted husable
        simp [hswitch, hopen, hworking, hhalted, husable, not_lt.mp hage]

end RiskEngine

end AiTrader
