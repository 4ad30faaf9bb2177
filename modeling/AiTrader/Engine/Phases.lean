import AiTrader.Engine.Calendar
import Mathlib.Tactic.Linarith

/-!
# The phases of a day

The phases are ordered as a day goes through them. `MarketCalendar.Reached` says, phase by phase, when a day has
come at least so far; each of these conditions stays true once it is. So the phase of a day never goes back,
whatever the windows are: they may overlap, or be longer than the session.

The order of the phases is that of their ranks. `le_phaseOf_iff` reads off the branches of `phaseOf` which condition
says that a day has come at least to a phase; each is put together from lower bounds on the time by `and` and `or`,
and so stays true (`Reached.mono`). Windows that overlap need no case of their own.
-/

namespace AiTrader

namespace SessionPhase

/-- The place of a phase in the day. -/
def rank : SessionPhase → ℕ
  | closed => 0
  | premarket => 1
  | openingRange => 2
  | rth => 3
  | closing => 4
  | afterHours => 5

theorem rank_injective : Function.Injective rank := by
  intro p q h
  cases p <;> cases q <;> first | rfl | cases h

/-- In the order of the day. -/
instance : PartialOrder SessionPhase := PartialOrder.lift rank rank_injective

theorem le_iff_rank {p q : SessionPhase} : p ≤ q ↔ p.rank ≤ q.rank := Iff.rfl

instance : DecidableLE SessionPhase := fun _ _ => decidable_of_iff _ le_iff_rank.symm

end SessionPhase

namespace MarketCalendar

variable {c : MarketCalendar} {now later openAt closeAt : ℚ} {date : ℤ}

/-- The day has come to a phase, or past it. -/
def Reached (c : MarketCalendar) (now openAt closeAt : ℚ) : SessionPhase → Prop
  | .closed => True
  | .premarket => openAt ≤ now ∨ (openAt - now) / 60 ≤ c.premarketMinutes
  | .openingRange => openAt ≤ now
  | .rth => openAt ≤ now ∧ (closeAt ≤ now ∨ c.openingRangeMinutes < (now - openAt) / 60)
  | .closing =>
    openAt ≤ now ∧
      (closeAt ≤ now ∨ c.openingRangeMinutes < (now - openAt) / 60 ∧ (closeAt - now) / 60 ≤ c.closingMinutes)
  | .afterHours => openAt ≤ now ∧ closeAt ≤ now

theorem le_phaseOf_iff (phase : SessionPhase) :
    phase ≤ c.phaseOf now openAt closeAt ↔ c.Reached now openAt closeAt phase := by
  rw [SessionPhase.le_iff_rank]
  unfold phaseOf
  split_ifs with hopen hpre hclose helapsed hclosing
  all_goals cases phase <;> simp_all [SessionPhase.rank, Reached]

theorem Reached.mono (h : now ≤ later) {phase : SessionPhase} (hreached : c.Reached now openAt closeAt phase) :
    c.Reached later openAt closeAt phase := by
  have helapsed : (now - openAt) / 60 ≤ (later - openAt) / 60 := by linarith
  have hopens : (openAt - later) / 60 ≤ (openAt - now) / 60 := by linarith
  have hcloses : (closeAt - later) / 60 ≤ (closeAt - now) / 60 := by linarith
  cases phase with
  | closed => exact trivial
  | premarket => exact hreached.imp h.trans' hopens.trans
  | openingRange => exact h.trans' hreached
  | rth => exact hreached.imp h.trans' fun hrest => hrest.imp h.trans' helapsed.trans_lt'
  | closing =>
    exact hreached.imp h.trans' fun hrest => hrest.imp h.trans' fun hwindows =>
      ⟨helapsed.trans_lt' hwindows.1, hcloses.trans hwindows.2⟩
  | afterHours => exact hreached.imp h.trans' h.trans'

theorem phaseOf_mono (c : MarketCalendar) (openAt closeAt : ℚ) :
    Monotone fun now => c.phaseOf now openAt closeAt := by
  intro now later h
  have hreached := (@le_phaseOf_iff c now openAt closeAt _).mp le_rfl
  exact (le_phaseOf_iff _).mpr (hreached.mono h)

theorem phase_info (hbounds : c.sessionBounds date = some (openAt, closeAt)) (hnow : c.etDate now = date) :
    (c.info now).phase = c.phaseOf now openAt closeAt := by
  rw [info, hnow, hbounds]

/-- **The phases of a day with a session only move forward**, and the tradeable moments are those of the
session. -/
theorem phases_move_forward (c : MarketCalendar) (date : ℤ) (openAt closeAt : ℚ)
    (hbounds : c.sessionBounds date = some (openAt, closeAt)) :
    MonotoneOn (fun now => (c.info now).phase) {now | c.etDate now = date} ∧
      ∀ now, c.etDate now = date →
        ((c.info now).phase.isTradeable = true ↔ openAt ≤ now ∧ now < closeAt) := by
  constructor
  · intro now hnow later hlater h
    dsimp only
    rw [phase_info hbounds hnow, phase_info hbounds hlater]
    exact phaseOf_mono c openAt closeAt h
  · intro now hnow
    rw [phase_info hbounds hnow]
    exact isTradeable_phaseOf

/-- Sessions of three and a half hours, with a closing window that is longer. -/
def halfDays : MarketCalendar where
  sessionBounds day := some (day * 86400 + 52200, day * 86400 + 64800)
  etDate t := ⌊t / 86400⌋
  etDate_mono := utcDay_mono
  closingMinutes := 400

/-- Opening range first, then the closing window to the close. -/
theorem phases_move_forward_halfDays :
    (halfDays.info 52800).phase = .openingRange ∧ (halfDays.info 54000).phase = .closing ∧
      (halfDays.info 52800).phase ≤ (halfDays.info 54000).phase ∧
        ((halfDays.info 54000).phase.isTradeable = true ↔ (52200 : ℚ) ≤ 54000 ∧ (54000 : ℚ) < 64800) := by
  have hday := phases_move_forward halfDays 0 52200 64800 (by decide +kernel)
  have hearly : halfDays.etDate 52800 = 0 := by decide +kernel
  have hlate : halfDays.etDate 54000 = 0 := by decide +kernel
  exact ⟨by decide +kernel, by decide +kernel, hday.1 hearly hlate (by norm_num), hday.2 54000 hlate⟩

end MarketCalendar

end AiTrader
