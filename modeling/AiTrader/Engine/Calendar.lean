import AiTrader.Domain.Enums
import Mathlib.Data.Rat.Defs
import Mathlib.Algebra.Order.Ring.Rat
import Mathlib.Data.Int.ConditionallyCompleteOrder
import Mathlib.Data.Rat.Floor
import Mathlib.Order.ConditionallyCompleteLattice.Basic
import Mathlib.Tactic.GCongr

/-!
# The session calendar

`info` places a moment in the trading day. The exchange calendar and the time zone are parameters: the
session bounds of a date, and the exchange-local date of a moment, which never goes back.

A day is a trading day if the exchange calendar has bounds for its date, and its phase depends on the bounds and the
moment. A phase in which orders may be sent lies between open and close (`isTradeable_phaseOf`). Half days are days
with an earlier close; nothing else knows of them.
-/

namespace AiTrader

/-- Where we are in the trading day. The minutes are missing on a day without a session, where the source
writes infinity. -/
structure SessionInfo where
  phase : SessionPhase
  isTradingDay : Bool
  openAt : Option ℚ := none
  closeAt : Option ℚ := none
  minutesToOpen : Option ℚ := none
  minutesToClose : Option ℚ := none
  isHalfDay : Bool := false
  deriving DecidableEq

structure MarketCalendar where
  /-- Open and close of a date, missing when it is not a trading day. -/
  sessionBounds : ℤ → Option (ℚ × ℚ)
  /-- The exchange-local date of a moment. -/
  etDate : ℚ → ℤ
  etDate_mono : Monotone etDate
  premarketMinutes : ℤ := 150
  openingRangeMinutes : ℤ := 15
  closingMinutes : ℤ := 30

namespace MarketCalendar

theorem utcDay_mono : Monotone fun t : ℚ => ⌊t / 86400⌋ :=
  fun _ _ h => Int.floor_le_floor (by gcongr)

variable (c : MarketCalendar) (now : ℚ)

/-- The phase of a moment of a trading day. -/
def phaseOf (openAt closeAt : ℚ) : SessionPhase :=
  if now < openAt then
    if (openAt - now) / 60 ≤ c.premarketMinutes then .premarket else .closed
  else if closeAt ≤ now then .afterHours
  else if (now - openAt) / 60 ≤ c.openingRangeMinutes then .openingRange
  else if (closeAt - now) / 60 ≤ c.closingMinutes then .closing
  else .rth

def info : SessionInfo :=
  match c.sessionBounds (c.etDate now) with
  | none => { phase := .closed, isTradingDay := false }
  | some (openAt, closeAt) =>
    { phase := c.phaseOf now openAt closeAt
      isTradingDay := true
      openAt := some openAt
      closeAt := some closeAt
      minutesToOpen := some ((openAt - now) / 60)
      minutesToClose := some ((closeAt - now) / 60)
      isHalfDay := decide ((closeAt - openAt) / 3600 < 6) }

/-- The session of today has opened. -/
def Opened : Prop := ∃ bounds ∈ c.sessionBounds (c.etDate now), bounds.1 ≤ now

instance : Decidable (c.Opened now) :=
  match h : c.sessionBounds (c.etDate now) with
  | none => isFalse fun ⟨_, hmem, _⟩ => by simp [h] at hmem
  | some bounds => decidable_of_iff (bounds.1 ≤ now) (by simp [Opened, h])

variable {c now}

theorem isTradeable_phaseOf {openAt closeAt : ℚ} :
    (c.phaseOf now openAt closeAt).isTradeable = true ↔ openAt ≤ now ∧ now < closeAt := by
  unfold phaseOf
  split_ifs <;> simp_all [SessionPhase.isTradeable]

theorem isTradingDay_info (c : MarketCalendar) (now : ℚ) :
    (c.info now).isTradingDay = (c.sessionBounds (c.etDate now)).isSome := by
  unfold info
  cases c.sessionBounds (c.etDate now) <;> rfl

theorem opened_of_isTradeable (h : (c.info now).phase.isTradeable = true) : c.Opened now := by
  unfold info at h
  split at h
  · cases h
  · rename_i openAt closeAt hbounds
    have hopen := (isTradeable_phaseOf.mp h).1
    exact ⟨(openAt, closeAt), hbounds, hopen⟩

end MarketCalendar

end AiTrader
