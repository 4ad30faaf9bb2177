import AiTrader.Lib.Decimal

/-!
# Absolute ceilings that configuration cannot loosen

They are constants of the program and not fields of a configuration: a configuration that asks for more is clamped to
them when it is read, with a warning.
-/

namespace AiTrader.HardLimits

open Lib

def absMaxRiskPerTradePct : ℚ := 2 / 100
def absMaxPositionNotionalPct : ℚ := 25 / 100
def absMaxConcurrentPositions : ℤ := 15
def absMaxNewEntriesPerCycle : ℤ := 5
def absMaxDailyLossPct : ℚ := 10 / 100
def absMaxTradesPerDay : ℤ := 200
def absMaxOrdersPerMinute : ℤ := 10
def absMaxPriceCollarPct : ℚ := 5 / 100
def absMaxSpreadPct : ℚ := 2 / 100
def absMaxQuoteAgeSeconds : ℚ := 60
def absMaxAccountAgeSeconds : ℚ := 300
def absMaxDecisionAgeSeconds : ℚ := 180

/-- The value `clamp` and `clamp_int` return. -/
def clamp {α : Type} [LinearOrder α] (value ceiling : α) : α := if ceiling < value then ceiling else value

/-- The warning `clamp` leaves when it caps. -/
def clampWarning (value ceiling : ℚ) (name : String) : List String :=
  if ceiling < value then
    [name ++ "=" ++ Decimal.shortest value ++ " exceeds the hard limit " ++ Decimal.shortest ceiling ++
      "; clamped to " ++ Decimal.shortest ceiling ++
      ". Check your config — this is usually a decimal-point mistake."]
  else []

/-- The warning `clamp_int` leaves when it caps. -/
def clampIntWarning (value ceiling : ℤ) (name : String) : List String :=
  if ceiling < value then
    [name ++ "=" ++ toString value ++ " exceeds the hard limit " ++ toString ceiling ++
      "; clamped to " ++ toString ceiling ++ "."]
  else []

theorem clamp_eq_min {α : Type} [LinearOrder α] (value ceiling : α) :
    clamp value ceiling = min value ceiling := by
  unfold clamp
  split_ifs with h
  · exact (min_eq_right h.le).symm
  · exact (min_eq_left (not_lt.mp h)).symm

end AiTrader.HardLimits
