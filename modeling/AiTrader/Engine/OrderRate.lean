import AiTrader.Engine.DeskRun
import AiTrader.Lib.Window
import AiTrader.Risk.Gate

/-!
# The order-rate circuit breaker

Check 19 counts the orders on record for the last minute. An order goes on record when the broker has
answered it, and only if the answer is not an exception; a new session clears the record. So the record may
show fewer orders than the broker has been sent: it lacks the calls that wait for their answers, those whose
answers raised, and those before a reset.

The record covers all other calls: after any moment that is at most a minute old, and by which the last
answer has raised and the last reset been made, the calls are no more than the orders on record and the calls
under way (`RateInv.covered`). So the breaker bounds what reaches the broker in the runs in which a submission
finds no call under way, or room for those too, and no such answer and no reset within the minute
(`order_rate_bounded`).
-/

namespace AiTrader.DeskRun

open Lib RiskEngine

/-- In no minute has the broker's `place_bracket` been called more often than configured. -/
def RateBounded (s : DeskRun) : Prop := Window.Bounded 60 s.desk.risk.cfg.maxOrdersPerMinute s.calls

/-- The step leaves calls off the record: the answer to one raises, or the record is cleared. -/
def Loses (s : DeskRun) : Now × Move → Bool
  | (_, .answered i (.error _)) => (s.flights[i]?).isSome
  | (_, .sessionReset) => true
  | _ => false

/-- The condition on a submission: no call is under way, or there is room for those too, and within the minute no
answer has raised and no session has been reset. -/
def Recorded (h : Trace.Chronicle DeskRun (Now × Move)) : Now × Move → Prop
  | (now, .submitted _ _ _) =>
    (h.state.flights.isEmpty = true ∨
        ((recentOrders now h.state.desk.risk.orderTimes).length + h.state.flights.length : ℤ) <
          h.state.desk.risk.cfg.maxOrdersPerMinute) ∧
      ∀ e ∈ h.past, e.1.Loses e.2 = true → e.2.1.mono ≤ now.mono - 60
  | _ => True

instance (h : Trace.Chronicle DeskRun (Now × Move)) : ∀ e, Decidable (Recorded h e)
  | (_, .submitted _ _ _) => inferInstanceAs (Decidable ((_ ∨ _) ∧ ∀ e ∈ h.past, _ → _))
  | (_, .paced _ _ _) | (_, .answered _ _) | (_, .status _) | (_, .executed _) | (_, .closing _ _ _ _ _)
  | (_, .reconciled _ _) | (_, .recovering _ _ _) | (_, .blocked _) | (_, .unblocked) | (_, .tripped _ _)
  | (_, .touched _) | (_, .looked) | (_, .switchReset) | (_, .sessionReset) =>
    inferInstanceAs (Decidable True)

/-! ### The record covers the calls -/

/-- Between two steps. -/
structure RateInv (h : Trace.Chronicle DeskRun (Now × Move)) : Prop where
  bounded : h.state.RateBounded
  past : ∀ t ∈ h.state.calls, t ≤ h.state.clock
  covered : ∀ t, h.state.clock - 60 ≤ t → (∀ e ∈ h.past, e.1.Loses e.2 = true → e.2.1.mono ≤ t) →
    Window.after t h.state.calls ≤ Window.after t h.state.desk.risk.orderTimes + h.state.flights.length

/-- The moves that neither call the broker nor answer a call nor clear the record. -/
def Move.isBeside : Move → Bool
  | submitted _ _ _ | answered _ _ | sessionReset => false
  | _ => true

theorem record_act (s : DeskRun) {move : Move} (h : move.isBeside = true) (now : Now) :
    (s.act now move).desk.risk.orderTimes = s.desk.risk.orderTimes ∧
      (s.act now move).flights.length = s.flights.length := by
  cases move with
  | paced i account ids =>
    show (s.pace i account ids).desk.risk.orderTimes = _ ∧ (s.pace i account ids).flights.length = _
    rcases s.pace_cases i account ids with hsame | ⟨flight, orders, -, -, hsent⟩
    · rw [hsame]
      exact ⟨rfl, rfl⟩
    · rw [hsent]
      exact ⟨rfl, List.length_set⟩
  | submitted order ctx cycleId => cases h
  | answered i reply => cases h
  | sessionReset => cases h
  | _ => exact ⟨rfl, rfl⟩

variable {h : Trace.Chronicle DeskRun (Now × Move)} {now : Now}

theorem RateInv.after_eq_zero (hinv : RateInv h) (htime : h.state.clock ≤ now.mono) {t : ℚ} (ht : now.mono ≤ t) :
    Window.after t h.state.calls = 0 :=
  Window.after_eq_zero fun x hx => (hinv.past x hx).trans (htime.trans ht)

/-- The calls of the last minute are on record or under way. -/
theorem RateInv.length_calls_le (hinv : RateInv h) (htime : h.state.clock ≤ now.mono)
    (hkept : ∀ e ∈ h.past, e.1.Loses e.2 = true → e.2.1.mono ≤ now.mono - 60) :
    (Window.inWindow 60 now.mono h.state.calls).length ≤
      (recentOrders now h.state.desk.risk.orderTimes).length + h.state.flights.length := by
  rw [Window.length_inWindow fun x hx => (hinv.past x hx).trans htime]
  have hcovered := hinv.covered (now.mono - 60) (sub_le_sub_right htime 60) hkept
  have hrecent : Window.after (now.mono - 60) h.state.desk.risk.orderTimes ≤
      (recentOrders now h.state.desk.risk.orderTimes).length := by
    rw [← Window.after_dropWhile le_rfl]
    exact List.countP_le_length
  omega

theorem RateInv.submitted (hinv : RateInv h) {order : SizedOrder} {ctx : RiskContext} {cycleId : String}
    (hrecorded : Recorded h (now, .submitted order ctx cycleId)) (htime : h.state.clock ≤ now.mono) :
    RateInv ⟨{ h.state.submit order ctx cycleId now with clock := now.mono },
      (h.state, (now, .submitted order ctx cycleId)) :: h.past⟩ := by
  obtain ⟨hfree, hkept⟩ := hrecorded
  have hpast : ∀ t ∈ h.state.calls, t ≤ now.mono := fun t hmem => (hinv.past t hmem).trans htime
  -- what is forgotten does not count any more
  have hrecord : ∀ t, now.mono - 60 ≤ t → Window.after t h.state.desk.risk.orderTimes ≤
      Window.after t (h.state.submit order ctx cycleId now).desk.risk.orderTimes := by
    intro t ht
    obtain ⟨added, hadded⟩ := h.state.orderTimes_submit order ctx cycleId now
    rw [← hadded, Window.after_append, recentOrders, Window.after_dropWhile ht]
    exact Nat.le_add_right _ _
  have hcovered : ∀ t, now.mono - 60 ≤ t →
      (∀ e ∈ (h.state, (now, Move.submitted order ctx cycleId)) :: h.past, e.1.Loses e.2 = true → e.2.1.mono ≤ t) →
        Window.after t h.state.calls ≤
          Window.after t (h.state.submit order ctx cycleId now).desk.risk.orderTimes + h.state.flights.length := by
    intro t ht hlost
    have hbefore := hinv.covered t ((sub_le_sub_right htime 60).trans ht) fun e he => hlost e (List.mem_cons_of_mem _ he)
    have hgrown := hrecord t ht
    omega
  obtain ⟨desk, hcfg, -, hcases⟩ := h.state.submit_cases order ctx cycleId now
  rcases hcases with ⟨-, hsubmit, -⟩ | ⟨-, hpassed, -, -, flight, -, hsubmit⟩
  · rw [hsubmit] at hcovered ⊢
    refine ⟨?_, hpast, hcovered⟩
    unfold RateBounded
    dsimp only
    rw [hcfg]
    exact hinv.bounded
  · have hroom : ((Window.inWindow 60 now.mono h.state.calls).length : ℤ) <
        h.state.desk.risk.cfg.maxOrdersPerMinute := by
      have hle := hinv.length_calls_le htime hkept
      have hrate := hpassed.rate_lt
      rcases hfree with hnone | hroom
      · rw [List.isEmpty_iff.mp hnone, List.length_nil] at hle
        omega
      · omega
    rw [hsubmit] at hcovered ⊢
    refine ⟨?_, fun t hmem => ?_, fun t ht hlost => ?_⟩
    · unfold RateBounded
      dsimp only
      rw [hcfg]
      exact hinv.bounded.concat hpast hroom
    · rcases List.mem_append.mp hmem with hmem | hmem
      · exact hpast t hmem
      · exact (List.mem_singleton.mp hmem).le
    · have hbefore := hcovered t ht hlost
      dsimp only at hbefore ⊢
      rw [Window.after_append, Window.after_singleton, List.length_append, List.length_singleton]
      split_ifs <;> omega

theorem RateInv.answered (hinv : RateInv h) {i : ℕ} {reply : Except String (List BrokerOrderStatus)}
    (htime : h.state.clock ≤ now.mono) :
    RateInv ⟨{ h.state.answer i reply now with clock := now.mono }, (h.state, (now, .answered i reply)) :: h.past⟩ := by
  obtain ⟨hcalls, hcfg⟩ := h.state.calls_act (Move.answered i reply) rfl now
  have hcalls : (h.state.answer i reply now).calls = h.state.calls := hcalls
  refine ⟨?_, fun t hmem => ?_, fun t ht hlost => ?_⟩
  · have hcfg : (h.state.answer i reply now).desk.risk.cfg = h.state.desk.risk.cfg := hcfg
    unfold RateBounded
    dsimp only
    rw [hcalls, hcfg]
    exact hinv.bounded
  · dsimp only at hmem
    rw [hcalls] at hmem
    exact (hinv.past t hmem).trans htime
  · dsimp only
    rw [hcalls]
    rcases le_or_gt now.mono t with hlate | hearly
    · rw [hinv.after_eq_zero htime hlate]
      exact Nat.zero_le _
    · have hbefore := hinv.covered t ((sub_le_sub_right htime 60).trans ht)
        fun e he => hlost e (List.mem_cons_of_mem _ he)
      unfold answer
      cases hflight : h.state.flights[i]? with
      | none => exact hbefore
      | some flight =>
        dsimp only
        split_ifs
        · obtain ⟨hlt, -⟩ := List.getElem?_eq_some_iff.mp hflight
          have hlength : (h.state.flights.eraseIdx i).length + 1 = h.state.flights.length := by
            rw [List.length_eraseIdx_of_lt hlt]
            omega
          cases reply with
          | error error =>
            -- the call is lost at this moment, which is not past `t`
            have hle := hlost _ List.mem_cons_self (by simp [Loses, hflight])
            exact absurd hle (not_le.mpr hearly)
          | ok statuses =>
            have hrecord : (h.state.desk.finish flight.entry (.ok statuses) now).1.risk.orderTimes =
                h.state.desk.risk.orderTimes ++ [now.mono] := rfl
            show _ ≤ Window.after t (h.state.desk.finish flight.entry (.ok statuses) now).1.risk.orderTimes +
              (h.state.flights.eraseIdx i).length
            rw [hrecord, Window.after_append, Window.after_singleton, if_pos hearly]
            omega
        · exact hbefore

theorem RateInv.step (hinv : RateInv h) (e : Now × Move) (he : Recorded h e) :
    RateInv (Trace.Chronicle.next DeskRun.step h e) := by
  obtain ⟨now, move⟩ := e
  have hpast : ∀ {t : ℚ}, (∀ e ∈ (h.state, (now, move)) :: h.past, e.1.Loses e.2 = true → e.2.1.mono ≤ t) →
      ∀ e ∈ h.past, e.1.Loses e.2 = true → e.2.1.mono ≤ t :=
    fun hlost e he => hlost e (List.mem_cons_of_mem _ he)
  unfold Trace.Chronicle.next DeskRun.step
  dsimp only
  split_ifs with htime
  · have hother : ∀ {move : Move}, move.isOther = true →
        (∀ t ∈ (h.state.act now move).calls, t ≤ now.mono) ∧
          RateBounded { h.state.act now move with clock := now.mono } := by
      intro move hmove
      obtain ⟨hcalls, hcfg⟩ := h.state.calls_act _ hmove now
      refine ⟨fun t hmem => ?_, ?_⟩
      · rw [hcalls] at hmem
        exact (hinv.past t hmem).trans htime
      · unfold RateBounded
        dsimp only
        rw [hcalls, hcfg]
        exact hinv.bounded
    have hbeside : move.isBeside = true → move.isOther = true →
        RateInv ⟨{ h.state.act now move with clock := now.mono }, (h.state, (now, move)) :: h.past⟩ := by
      intro hmove hnot
      obtain ⟨hrecord, hflights⟩ := h.state.record_act hmove now
      refine ⟨(hother hnot).2, (hother hnot).1, fun t ht hlost => ?_⟩
      dsimp only
      rw [(h.state.calls_act _ hnot now).1, hrecord, hflights]
      exact hinv.covered t ((sub_le_sub_right htime 60).trans ht) (hpast hlost)
    cases move with
    | submitted order ctx cycleId => exact hinv.submitted he htime
    | answered i reply => exact hinv.answered htime
    | sessionReset =>
      refine ⟨(hother rfl).2, (hother rfl).1, fun t ht hlost => ?_⟩
      have hlate : now.mono ≤ t := hlost _ List.mem_cons_self rfl
      exact (hinv.after_eq_zero htime hlate).trans_le (Nat.zero_le _)
    | _ => exact hbeside rfl rfl
  · exact ⟨hinv.bounded, hinv.past, fun t ht hlost => hinv.covered t ht (hpast hlost)⟩

/-- **When the order rate is a bound on what reaches the broker.** From any desk with a configuration the
validators accept: in every run of submissions, answers of every kind and everything beside them, in which
every submission meets the condition, no minute has more calls of the broker's `place_bracket` than configured. -/
theorem order_rate_bounded (desk : Desk) (clock : ℚ) {raw : RiskConfig} {warnings : List String}
    (hcfg : raw.validate = .ok (desk.risk.cfg, warnings)) (moves : List (Now × Move))
    (hrecorded : Trace.Each (Trace.Chronicle.next step) Recorded ⟨start desk clock, []⟩ moves) :
    Trace.Always step RateBounded (start desk clock) moves := by
  have hstep : ∀ (h : Trace.Chronicle DeskRun (Now × Move)) e, RateInv h → Recorded h e →
      RateInv (Trace.Chronicle.next step h e) := fun h e hinv he => hinv.step e he
  have hmax := (RiskConfig.accepted_of_validate hcfg).orders_pos
  have hstart : RateInv ⟨start desk clock, []⟩ :=
    ⟨Window.bounded_nil (zero_le_one.trans hmax), fun t hmem => (nomatch hmem), fun t _ _ => Nat.zero_le _⟩
  exact Trace.always_chronicle.mp (Trace.always_of_inductive hstep (fun h hinv => hinv.bounded) hstart hrecorded)

/-! #### One order a minute -/

/-- Fifty shares at a hundred. -/
def fifty (symbol : String) : SizedOrder where
  proposal := { breakoutProposal with symbol }
  symbol
  action := .buy
  quantity := 50
  entryPrice := 100
  stopPrice := 99
  targetPrice := 102
  riskAmount := 50
  notional := 5000

def oneAMinute : Desk where
  risk := { cfg := { maxOrdersPerMinute := 1 }, killSwitch := {} }
  orders := {}

def firstIds : ReqIds := { parent := 1, take := 2, stop := 3 }

/-- Two submissions in one minute; the broker answers the first. -/
def twice (reply : Except String (List BrokerOrderStatus)) : List (Now × Move) :=
  [(quietNow, .submitted (fifty "AAPL") (openMarket Dict.empty) "c1"),
    (quietNow, .paced 0 "DU1" firstIds),
    (quietNow, .answered 0 reply),
    (quietNow, .submitted (fifty "MSFT") (openMarket Dict.empty) "c1")]

theorem order_rate_bounded_answered :
    Trace.Always step RateBounded (start oneAMinute 0) (twice (.ok [])) := by
  have hcfg : oneAMinute.risk.cfg.validate = .ok (oneAMinute.risk.cfg, []) := by decide +kernel
  exact order_rate_bounded oneAMinute 0 hcfg _ (by decide +kernel)

/-- The broker fails on the first order, which stays off the record, and is called again at once. -/
theorem order_rate_exceeded :
    ¬ Trace.Always step RateBounded (start oneAMinute 0) (twice (.error "timeout")) := by
  intro h
  exact absurd (h.last 0) (by decide +kernel)

end AiTrader.DeskRun
