import AiTrader.Engine.OrderRate

/-!
# The last look

`submit` reads the switch once more right before it calls the order manager. Then the bracket waits in the
message pacer, and nothing reads the switch when the pacer lets it through: a trip during the wait does not
stop the orders. They stop in the runs in which the switch is tripped, or its sentinel created, only while no
bracket waits (`no_order_after_kill`).

The invariant says that the switch is off while a bracket waits (`LookInv.waiting`). A submission looks at the switch
in the step in which its bracket begins to wait, so it holds there; a release finds it and puts untripped orders on
the wire; and a trip, by the condition, comes only when nothing waits, where the invariant has nothing to say.
-/

namespace AiTrader.DeskRun

open Lib RiskEngine

/-- Every order on the wire went out before the switch was tripped. -/
def SentUntripped (s : DeskRun) : Prop := ∀ wired ∈ s.wire, wired.tripped = false

instance (s : DeskRun) : Decidable s.SentUntripped :=
  inferInstanceAs (Decidable (∀ wired ∈ s.wire, wired.tripped = false))

/-- No bracket waits in the pacer. -/
def pacerIdle (s : DeskRun) : Bool := s.flights.all Flight.sent

/-- A trip or a sentinel comes only while no bracket waits in the pacer. -/
def Undisturbed (s : DeskRun) : Now × Move → Prop
  | (_, .tripped _ _) | (_, .touched _) => s.pacerIdle = true
  | _ => True

instance (s : DeskRun) : ∀ e, Decidable (s.Undisturbed e)
  | (_, .tripped _ _) | (_, .touched _) => inferInstanceAs (Decidable (s.pacerIdle = true))
  | (_, .submitted _ _ _) | (_, .paced _ _ _) | (_, .answered _ _) | (_, .status _) | (_, .executed _)
  | (_, .closing _ _ _ _ _) | (_, .reconciled _ _) | (_, .recovering _ _ _) | (_, .blocked _)
  | (_, .unblocked) | (_, .looked) | (_, .switchReset) | (_, .sessionReset) =>
    inferInstanceAs (Decidable True)

/-! ### Waiting brackets -/

theorem pacerIdle_iff {s : DeskRun} : s.pacerIdle = true ↔ ∀ flight ∈ s.flights, flight.sent = true :=
  List.all_eq_true

theorem not_pacerIdle_of_waiting {s : DeskRun} {i : ℕ} {flight : Flight} (hflight : s.flights[i]? = some flight)
    (hwaits : flight.sent = false) : s.pacerIdle = false := by
  have hmem : flight ∈ s.flights := List.mem_of_getElem? hflight
  rw [← Bool.not_eq_true, pacerIdle_iff]
  intro hall
  have hsent := hall flight hmem
  rw [hwaits] at hsent
  exact Bool.false_ne_true hsent

theorem pacerIdle_eraseIdx {s : DeskRun} (h : s.pacerIdle = true) (i : ℕ) :
    (s.flights.eraseIdx i).all Flight.sent = true := by
  rw [List.all_eq_true]
  intro flight hmem
  exact pacerIdle_iff.mp h flight (List.mem_of_mem_eraseIdx hmem)

/-! ### The invariant -/

/-- While a bracket waits in the pacer the switch is as the last look has seen it. -/
structure LookInv (s : DeskRun) : Prop where
  sent : s.SentUntripped
  waiting : s.pacerIdle = false → s.desk.risk.killSwitch.isTripped = false

variable {s : DeskRun}

theorem LookInv.of_eq (h : s.LookInv) {s' : DeskRun} (hwire : s'.wire = s.wire) (hflights : s'.flights = s.flights)
    (hswitch : s.desk.risk.killSwitch.isTripped = false → s'.desk.risk.killSwitch.isTripped = false) :
    s'.LookInv := by
  refine ⟨?_, fun hwaiting => hswitch (h.waiting ?_)⟩
  · unfold SentUntripped
    rw [hwire]
    exact h.sent
  · rw [pacerIdle, hflights] at hwaiting
    exact hwaiting

theorem LookInv.submit (h : s.LookInv) (order : SizedOrder) (ctx : RiskContext) (cycleId : String) (now : Now) :
    (s.submit order ctx cycleId now).LookInv := by
  obtain ⟨desk, -, htripped, hcases⟩ := s.submit_cases order ctx cycleId now
  rcases hcases with ⟨-, hsubmit, -⟩ | ⟨-, hpassed, -, -, flight, -, hsubmit⟩
  · rw [hsubmit]
    exact h.of_eq rfl rfl fun huntripped => htripped.trans huntripped
  · rw [hsubmit]
    exact ⟨h.sent, fun _ => htripped.trans hpassed.not_tripped⟩

theorem LookInv.pace (h : s.LookInv) (i : ℕ) (account : String) (ids : ReqIds) :
    (s.pace i account ids).LookInv := by
  rcases s.pace_cases i account ids with hsame | ⟨flight, orders, hflight, hwaits, hsent⟩
  · rw [hsame]
    exact h
  · have huntripped := h.waiting (not_pacerIdle_of_waiting hflight hwaits)
    rw [hsent]
    refine ⟨fun wired hmem => ?_, fun _ => huntripped⟩
    rcases List.mem_append.mp hmem with hmem | hmem
    · exact h.sent wired hmem
    · obtain ⟨order, -, rfl⟩ := List.mem_map.mp hmem
      exact huntripped

theorem LookInv.answer (h : s.LookInv) (i : ℕ) (reply : Except String (List BrokerOrderStatus)) (now : Now) :
    (s.answer i reply now).LookInv := by
  rcases s.answer_cases i reply now with hsame | ⟨flight, hanswer⟩
  · rw [hsame]
    exact h
  · rw [hanswer]
    refine ⟨h.sent, fun hwaiting => ?_⟩
    have hwaited : s.pacerIdle = false := by
      by_contra hidle
      rw [Bool.not_eq_false] at hidle
      exact absurd hwaiting (by rw [Bool.not_eq_false]; exact pacerIdle_eraseIdx hidle i)
    exact (s.desk.isTripped_finish now flight.entry reply).trans (h.waiting hwaited)

theorem LookInv.act (h : s.LookInv) {now : Now} {move : Move} (hmove : s.Undisturbed (now, move)) :
    (s.act now move).LookInv := by
  -- no bracket waits, so what becomes of the switch is of no concern
  have hidle : ∀ f : KillSwitch → KillSwitch, s.pacerIdle = true → (s.withSwitch f).LookInv := by
    intro f hidle
    refine ⟨h.sent, fun hwaiting => ?_⟩
    have hsame : s.pacerIdle = false := hwaiting
    rw [hidle] at hsame
    exact absurd hsame Bool.noConfusion
  cases move with
  | submitted order ctx cycleId => exact h.submit order ctx cycleId now
  | paced i account ids => exact h.pace i account ids
  | answered i reply => exact h.answer i reply now
  | tripped reason action => exact hidle (fun ks => ks.trip reason action now) hmove
  | touched text => exact hidle (fun ks => { ks with sentinel := .file text }) hmove
  | looked =>
    refine h.of_eq rfl rfl fun huntripped => ?_
    exact (KillSwitch.isTripped_look _ now).trans huntripped
  | switchReset => exact h.of_eq rfl rfl KillSwitch.isTripped_reset
  | _ => exact h.of_eq rfl rfl id

theorem LookInv.step (h : s.LookInv) (e : Now × Move) (he : s.Undisturbed e) : (s.step e).LookInv := by
  unfold DeskRun.step
  split_ifs
  · exact (h.act he).of_eq rfl rfl id
  · exact h

/-- **When no order leaves after the kill.** From any desk, in every run of submissions, releases of the pacer,
answers of the broker and everything beside them in which the switch is tripped, and its sentinel created,
only while no bracket waits in the pacer: no order of a bracket is given to `placeOrder` while the switch
reads tripped. -/
theorem no_order_after_kill (desk : Desk) (clock : ℚ) (moves : List (Now × Move))
    (hundisturbed : Trace.Each step Undisturbed (start desk clock) moves) :
    Trace.Always step SentUntripped (start desk clock) moves := by
  have hstep : ∀ (s : DeskRun) e, s.LookInv → s.Undisturbed e → (s.step e).LookInv := fun s e hI he => hI.step e he
  have hP : ∀ s : DeskRun, s.LookInv → s.SentUntripped := fun s hI => hI.sent
  have hstart : (start desk clock).LookInv :=
    ⟨fun wired hmem => (nomatch hmem), fun hwaiting => (nomatch hwaiting)⟩
  exact Trace.always_of_inductive hstep hP hstart hundisturbed

/-! #### A trip during the wait -/

/-- A bracket is submitted and goes out; the switch is tripped before or after the pacer lets it through. -/
def killed (before : Bool) : List (Now × Move) :=
  let release : Now × Move := (quietNow, .paced 0 "DU1" firstIds)
  let trip : Now × Move := (quietNow, .tripped "manual halt" none)
  (quietNow, .submitted (fifty "AAPL") (openMarket Dict.empty) "c1") ::
    if before then [trip, release] else [release, trip]

theorem no_order_after_kill_sent : Trace.Always step SentUntripped (start oneAMinute 0) (killed false) :=
  no_order_after_kill oneAMinute 0 _ (by decide +kernel)

/-- The three orders go out although the switch has been tripped since the last look. -/
theorem order_after_kill : ¬ Trace.Always step SentUntripped (start oneAMinute 0) (killed true) := by
  intro h
  exact absurd h.last (by decide +kernel)

end AiTrader.DeskRun
