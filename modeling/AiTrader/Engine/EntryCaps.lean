import AiTrader.Engine.Approvals
import AiTrader.Engine.DailyLimits

/-!
# Entry counters as caps

At most `max_trades_per_day` entries are to be approved between two resets, and at most
`max_new_entries_per_cycle` from the start of a cycle on. The gate compares the caps with the counters, and the
counters do not know the submissions in flight: two of them that are judged on the same counters are both
approved. A reset in the middle of a cycle takes the cycle's counter back as well.

`EntryRun` is the trading engine with the two moments the entries are counted from. `WithinCaps` is the condition
on the steps.

The proof has one inequality: the entries approved since a mark, and those in flight, fit under the cap that belongs
to the mark (`Inv.flight`). A step about an entry moves the two sides together (`Entered`, from `Entries`): a
submission that is suspended joins the flights, one that returns an approval moves from the flights to the count.
`WithinCaps` provides the room where a submission begins on counters that do not know the flights. A reset and the
start of a cycle set a mark anew. What is in flight when a cycle begins counts in it if it is approved (`Inv.begin`);
a reset is kept out of a cycle by the condition, and outside of one it leaves nobody who could submit (`Inv.reset`).
-/

namespace AiTrader

open Lib

namespace TradingEngine

/-- The step calls `reset_for_new_session`. -/
def resets (s : TradingEngine) : Event → Bool
  | .planFetched loop (.ok _) => s.running && decide (s.planning loop = some .fetching)
  | _ => false

/-- The step begins a cycle. -/
def begins (s : TradingEngine) (e : Event) : Bool := !s.decision.inCycle && (s.step e).decision.inCycle

/-- Nothing is in flight, or the gate refuses, or there is room under both caps for the entries in flight and for
one more. -/
def RoomForAll (s : TradingEngine) : Bool :=
  decide (s.inFlight = 0) || decide (s.cfg.risk.maxTradesPerDay ≤ s.app.tradesToday) ||
    decide (s.cfg.risk.maxNewEntriesPerCycle ≤ s.app.entriesThisCycle) ||
      decide (s.app.tradesToday + s.inFlight < s.cfg.risk.maxTradesPerDay) &&
        decide (s.app.entriesThisCycle + s.inFlight < s.cfg.risk.maxNewEntriesPerCycle)

/-- The condition on the steps. -/
def WithinCaps (s : TradingEngine) (e : Event) : Bool :=
  (!s.maySubmit e || s.RoomForAll) && (!s.resets e || !s.decision.inCycle)

/-- Somebody could submit an entry. -/
def Busy (s : TradingEngine) : Prop := s.decision.inCycle = true ∨ s.app.pendingApprovals ≠ []

/-- The process has had its reset. -/
def Active (s : TradingEngine) : Prop :=
  s.app.premarketDone = true ∨ s.Busy ∨ ∃ loop, s.planning loop = some .planning

end TradingEngine

/-- The engine, and how many entries had been approved at the last reset and when the current cycle began. -/
structure EntryRun where
  engine : TradingEngine
  resetMark : ℕ := 0
  cycleMark : ℕ := 0

namespace EntryRun

/-- The entries approved since the last reset. -/
def sinceReset (r : EntryRun) : ℕ := r.engine.history.approved.length - r.resetMark

/-- The entries approved since the current cycle began. -/
def sinceCycle (r : EntryRun) : ℕ := r.engine.history.approved.length - r.cycleMark

def step (r : EntryRun) (e : TradingEngine.Event) : EntryRun where
  engine := r.engine.step e
  resetMark := if r.engine.resets e then r.engine.history.approved.length else r.resetMark
  cycleMark := if r.engine.begins e then r.engine.history.approved.length else r.cycleMark

/-- The law. -/
structure CapsKept (r : EntryRun) : Prop where
  trades : r.sinceReset ≤ r.engine.cfg.risk.maxTradesPerDay.toNat
  entries : r.sinceCycle ≤ r.engine.cfg.risk.maxNewEntriesPerCycle.toNat

end EntryRun

/-! ### Who can submit -/

namespace TradingEngine

variable {s : TradingEngine}

theorem inCycle_of_queues {e : Event} (h : s.queues e ≠ []) : s.decision.inCycle = true := by
  unfold queues at h
  split at h
  · split at h
    · split at h
      · rename_i hdecision
        rw [hdecision]
        rfl
      · exact absurd rfl h
    · split at h
      · rename_i hdecision
        rw [hdecision]
        rfl
      · exact absurd rfl h
    · exact absurd rfl h
  · exact absurd rfl h

theorem busy_step {e : Event} (h : (s.step e).Busy) : s.Busy ∨ s.begins e = true := by
  rcases h with hcycle | hpending
  · cases hbefore : s.decision.inCycle with
    | true => exact Or.inl (Or.inl hbefore)
    | false =>
      refine Or.inr ?_
      unfold begins
      rw [hbefore, hcycle]
      rfl
  · refine Or.inl ?_
    cases hidea : e.isIdea with
    | false =>
      refine Or.inr fun hempty => hpending ?_
      have hshrinks := s.pending_step hidea
      rw [hempty] at hshrinks
      exact List.sublist_nil.mp hshrinks
    | true =>
      by_cases hqueues : s.queues e = []
      · refine Or.inr fun hempty => hpending ?_
        have hids := s.approvalIds_step hidea
        rw [hqueues, List.append_nil, approvalIds, approvalIds, hempty] at hids
        exact List.map_eq_nil_iff.mp hids
      · exact Or.inl (inCycle_of_queues hqueues)

theorem planning_of_fields {s' : TradingEngine} {loop : PlanningLoop} (h : s'.planning loop = some .planning)
    (hschedule : s'.schedule = .premarket .planning → s.schedule = .premarket .planning)
    (hdecision : s'.decision = .premarket .planning → s.decision = .premarket .planning) :
    s.planning loop = some .planning := by
  cases loop with
  | schedule =>
    unfold planning at h ⊢
    dsimp only at h ⊢
    split at h
    · rename_i heq
      rw [Option.some.inj h] at heq
      rw [hschedule heq]
    · cases h
  | decision =>
    unfold planning at h ⊢
    dsimp only at h ⊢
    split at h
    · rename_i heq
      rw [Option.some.inj h] at heq
      rw [hdecision heq]
    · cases h

/-! ### What the steps about no entry do -/

/-- The reset of the day has been made, or a loop is behind it. -/
def HadReset (s : TradingEngine) : Prop :=
  s.app.premarketDone = true ∨ ∃ loop, s.planning loop = some .planning

theorem HadReset.of_fields {s' : TradingEngine} (h : s'.HadReset)
    (hdone : s'.app.premarketDone = true → s.app.premarketDone = true)
    (hschedule : s'.schedule = .premarket .planning → s.schedule = .premarket .planning)
    (hdecision : s'.decision = .premarket .planning → s.decision = .premarket .planning) : s.HadReset := by
  rcases h with hup | ⟨loop, hplanning⟩
  · exact Or.inl (hdone hup)
  · exact Or.inr ⟨loop, planning_of_fields hplanning hschedule hdecision⟩

/-- From `s` to `s'` nothing is approved or put in flight, the counters stay, no reset is made and no cycle begins. -/
structure Usual (s s' : TradingEngine) : Prop where
  cfg : s'.cfg = s.cfg
  riskCfg : s'.risk.cfg = s.risk.cfg
  tradesToday : s'.app.tradesToday = s.app.tradesToday
  entriesThisCycle : s'.app.entriesThisCycle = s.app.entriesThisCycle
  approved : s'.history.approved = s.history.approved
  inFlight : s'.inFlight ≤ s.inFlight
  hadReset : s'.HadReset → s.HadReset
  inCycle : s'.decision.inCycle = true → s.decision.inCycle = true

/-- A cycle begins. -/
def Begun (s s' : TradingEngine) : Prop := s.decision.inCycle = false ∧ s.app.premarketDone = true ∧
  ∃ risk : RiskEngine, risk.cfg = s.risk.cfg ∧ s' =
    { s with
      risk
      app := { s.app with entriesThisCycle := 0 }
      decision := .cycle s.today s.session .fetching
      history := { s.history with interrupted := false } }

theorem Usual.refl (s : TradingEngine) : Usual s s :=
  ⟨rfl, rfl, rfl, rfl, rfl, le_rfl, id, id⟩

theorem Usual.scheduled (s : TradingEngine) {schedule : ScheduleAt} {app : AppState} {history : History}
    (hschedule : schedule ≠ .premarket .planning) (htrades : app.tradesToday = s.app.tradesToday)
    (hentries : app.entriesThisCycle = s.app.entriesThisCycle) (hdone : app.premarketDone = s.app.premarketDone)
    (happroved : history.approved = s.history.approved) : Usual s { s with schedule, app, history } :=
  ⟨rfl, rfl, htrades, hentries, happroved, le_rfl,
    fun h => h.of_fields (fun hup => hdone ▸ hup) (fun heq => absurd heq hschedule) id, id⟩

theorem Usual.rest {t : TradingEngine} (h : Usual s t) (loop : PlanningLoop) : Usual s (t.rest loop) := by
  have hle := (calm_rest t loop).inFlight.trans h.inFlight
  cases loop with
  | schedule =>
    exact ⟨h.cfg, h.riskCfg, h.tradesToday, h.entriesThisCycle, h.approved, hle,
      fun hreset => h.hadReset (hreset.of_fields id (fun heq => nomatch heq) id), h.inCycle⟩
  | decision =>
    exact ⟨h.cfg, h.riskCfg, h.tradesToday, h.entriesThisCycle, h.approved, hle,
      fun hreset => h.hadReset (hreset.of_fields id id (fun heq => nomatch heq)), fun hcycle => nomatch hcycle⟩

theorem planning_calm {e : Event} (he : e.isCalm = true) {loop : PlanningLoop}
    (h : (s.act e).planning loop = some .planning) : s.planning loop = some .planning := by
  cases e with
  | stopped => exact planning_of_fields h (fun heq => nomatch heq) (fun heq => nomatch heq)
  | eodFetched reply =>
    unfold act eodFetched at h
    dsimp only at h
    split at h
    · cases reply with
      | error error => exact planning_of_fields h (fun heq => nomatch heq) id
      | ok account => exact planning_of_fields h (fun heq => nomatch heq) id
    · exact h
  | cycleFetched reply =>
    unfold act cycleFetched at h
    dsimp only at h
    split at h
    · cases reply with
      | error error => exact planning_of_fields h id (fun heq => nomatch heq)
      | ok account => exact planning_of_fields h id (fun heq => nomatch heq)
    · exact h
  | cycleEnded =>
    unfold act cycleEnded at h
    dsimp only at h
    split at h
    · exact planning_of_fields h id (fun heq => nomatch heq)
    · exact h
  | skipped id =>
    unfold act skipped at h
    dsimp only at h
    split at h <;> exact h
  | advanced now => exact h
  | restarted orders accountId reply => exact h
  | fast e => exact h
  | ordersMoved orders => exact h
  | closed symbol => exact h
  | modeSet mode => exact h
  | _ => cases he

theorem usual_calm (s : TradingEngine) {e : Event} (he : e.isCalm = true) : Usual s (s.act e) := by
  have hcalm := s.calm_act he
  refine ⟨hcalm.cfg, hcalm.riskCfg, hcalm.app.tradesToday, (s.sameCycle_act he).entriesThisCycle,
    hcalm.same History.approved fun _ _ => rfl, hcalm.inFlight, fun hreset => ?_, fun hcycle => ?_⟩
  · rcases hreset with hup | ⟨loop, hplanning⟩
    · exact Or.inl (hcalm.app.premarketDone ▸ hup)
    · exact Or.inr ⟨loop, planning_calm he hplanning⟩
  · cases hdecision : (s.act e).decision with
    | cycle day session suspended =>
      obtain ⟨before, hbefore⟩ := hcalm.cycle day session suspended hdecision
      rw [hbefore]
      rfl
    | _ =>
      rw [hdecision] at hcycle
      cases hcycle

/-- The steps about an entry. -/
def isEntry : Event → Bool
  | .proposed _ _ _ _ | .clicked _ _ _ | .cyclePlaced _ | .approvalPlaced _ _ => true
  | _ => false

theorem entered_act {e : Event} (hentry : isEntry e = true) : Entered s e (s.act e) := by
  cases e with
  | proposed order i cycleId approvalId => exact entered_proposed s order i cycleId approvalId
  | clicked id resized i => exact entered_clicked s id resized i
  | cyclePlaced reply => exact entered_cyclePlaced s reply
  | approvalPlaced i reply => exact entered_approvalPlaced s i reply
  | _ => cases hentry

theorem usual_act {e : Event} (hrun : s.running = true) (hentry : isEntry e = false)
    (hreset : s.resets e = false) : Usual s (s.act e) ∨ Begun s (s.act e) := by
  cases e with
  | proposed order i cycleId approvalId => cases hentry
  | clicked id resized i => cases hentry
  | cyclePlaced reply => cases hentry
  | approvalPlaced i reply => cases hentry
  | gateway e => exact Or.inl ⟨rfl, rfl, rfl, rfl, rfl, le_rfl, id, id⟩
  | scheduleTicked =>
    refine Or.inl ?_
    unfold act scheduleTick
    dsimp only
    split_ifs
    · exact .refl s
    · exact .scheduled s (fun heq => nomatch heq) rfl rfl rfl rfl
    · exact ⟨rfl, rfl, rfl, rfl, rfl, le_rfl, id, id⟩
    · exact ⟨rfl, rfl, rfl, rfl, rfl, le_rfl, id, id⟩
    · exact .scheduled s (fun heq => nomatch heq) rfl rfl rfl rfl
    · exact .refl s
    · exact .refl s
  | planFetched loop reply =>
    refine Or.inl ?_
    unfold act planFetched
    dsimp only
    split_ifs with hfetching
    · cases reply with
      | error error => exact (Usual.refl s).rest loop
      | ok account =>
        simp only [resets, hrun, hfetching, decide_true, Bool.and_self] at hreset
        cases hreset
    · exact .refl s
  | planned loop ok =>
    refine Or.inl ?_
    unfold act planned
    dsimp only
    split_ifs with hplanning
    · have hdone : Usual s { s with app := { s.app with premarketDone := s.app.premarketDone || ok } } :=
        ⟨rfl, rfl, rfl, rfl, rfl, le_rfl, fun _ => Or.inr ⟨loop, hplanning⟩, id⟩
      exact hdone.rest loop
    · exact .refl s
  | eodReviewed ok =>
    refine Or.inl ?_
    unfold act eodReviewed
    dsimp only
    split
    · split_ifs
      · exact .scheduled s (fun heq => nomatch heq) rfl rfl rfl rfl
      · exact .scheduled s (fun heq => nomatch heq) rfl rfl rfl rfl
    · exact .refl s
  | decisionTicked deterministicOnly =>
    unfold act
    dsimp only
    split
    · rename_i hdecision
      unfold decisionTick
      dsimp only
      have hlooked : Usual s { s with risk := s.risk.lookSwitch s.now } :=
        ⟨rfl, rfl, rfl, rfl, rfl, le_rfl, id, id⟩
      split_ifs with hclosed htripped hdown hdeterministic
      · exact Or.inl (.refl s)
      · exact Or.inl hlooked
      · exact Or.inl ⟨rfl, rfl, rfl, rfl, rfl, s.le_inFlight rfl,
          fun h => h.of_fields id id (fun heq => nomatch heq), fun hcycle => nomatch hcycle⟩
      · exact Or.inl hlooked
      · refine Or.inr ⟨?_, by simpa using hdown, s.risk.lookSwitch s.now, rfl, rfl⟩
        rw [hdecision]
        rfl
    · exact Or.inl (.refl s)
  | closeProposed symbol p cycleId approvalId =>
    refine Or.inl ?_
    unfold act closeProposed
    dsimp only
    split
    · exact ⟨rfl, rfl, rfl, rfl, rfl, le_rfl, id, id⟩
    · exact .refl s
  | _ => exact Or.inl (s.usual_calm rfl)

theorem hadReset_act {e : Event} (hrun : s.running = true) (h : (s.act e).HadReset) :
    s.HadReset ∨ s.resets e = true := by
  cases hreset : s.resets e with
  | true => exact Or.inr rfl
  | false =>
    refine Or.inl ?_
    cases hentry : isEntry e with
    | true =>
      obtain ⟨n, hnoted⟩ := (@entered_act s _ hentry).noted
      unfold HadReset at h ⊢
      rwa [hnoted.premarketDone, hnoted.planning] at h
    | false =>
      rcases usual_act hrun hentry hreset with husual | ⟨_, hdone, _⟩
      · exact husual.hadReset h
      · exact Or.inl hdone

theorem restarted_cases (s : TradingEngine) (orders : OrderManager) (accountId : String)
    (reply : Except String AccountSnapshot) : s.restarted orders accountId reply = s.stop ∨
      ∃ (app : AppState) (risk : RiskEngine) (gateway : Gateway) (store : StateStore) (history : History),
        app.premarketDone = false ∧ app.pendingApprovals = [] ∧ risk.cfg = s.cfg.risk ∧
          history.approved = s.history.approved ∧ s.restarted orders accountId reply =
            { s with
              app, risk, orders, task := .idle, running := true, gateway, store
              schedule := .idle, decision := .idle, approvals := [], history } := by
  unfold restarted
  split
  · exact Or.inl rfl
  · dsimp only
    split
    · exact Or.inl rfl
    · refine Or.inr ⟨_, _, _, _, _, ?_, ?_, ?_, ?_, rfl⟩ <;> rfl

theorem resets_cases {e : Event} (h : s.resets e = true) : s.step e = s.act e ∧
    ∃ loop account, s.act e = ((s.resetForNewSession account).notePlan account).suspendIn loop .planning := by
  unfold resets at h
  split at h
  · rename_i loop account
    obtain ⟨hrun, hfetching⟩ := Bool.and_eq_true_iff.mp h
    refine ⟨if_pos hrun, loop, account, ?_⟩
    show s.planFetched loop (.ok account) = _
    rw [planFetched, if_pos (of_decide_eq_true hfetching)]
  · cases h

theorem begins_cases {e : Event} (h : s.begins e = true) : Begun s (s.step e) := by
  obtain ⟨hidle, hcycle⟩ := Bool.and_eq_true_iff.mp h
  have hno : ∀ {t : TradingEngine}, (t.decision.inCycle = true → s.decision.inCycle = true) →
      t.decision.inCycle = true → Begun s t := by
    intro t hkept hnow
    rw [hkept hnow] at hidle
    cases hidle
  refine @step_cases_of_running s (fun t => t.decision.inCycle = true → Begun s t) e (hno id)
    (fun now _ _ => hno id) (fun orders accountId reply _ => ?_) (fun hrun => ?_) hcycle
  · rcases s.restarted_cases orders accountId reply with hstop | ⟨_, _, _, _, _, _, _, _, _, hstart⟩
    · rw [hstop]
      exact hno fun hnow => nomatch hnow
    · rw [hstart]
      exact hno fun hnow => nomatch hnow
  · cases hentry : isEntry e with
    | true =>
      obtain ⟨n, hnoted⟩ := (@entered_act s _ hentry).noted
      exact hno fun hnow => hnoted.inCycle ▸ hnow
    | false =>
      cases hreset : s.resets e with
      | true =>
        obtain ⟨_, loop, account, heq⟩ := resets_cases hreset
        rw [heq]
        cases loop with
        | schedule => exact hno id
        | decision => exact hno fun hnow => nomatch hnow
      | false =>
        rcases usual_act hrun hentry hreset with husual | hbegun
        · exact hno husual.inCycle
        · exact fun _ => hbegun

theorem begins_of_begun {e : Event} (hrun : s.running = true) (h : Begun s (s.act e)) : s.begins e = true := by
  obtain ⟨hidle, _, risk, _, hact⟩ := h
  have hcycle : (s.act e).decision.inCycle = true := by rw [hact]; rfl
  have hstays : ¬ s.decision.inCycle = true := by
    rw [hidle]
    exact Bool.false_ne_true
  have hstep : s.step e = s.act e := by
    cases e with
    | advanced now => exact absurd hcycle hstays
    | restarted orders accountId reply => exact absurd hcycle hstays
    | _ => exact if_pos hrun
  unfold begins
  rw [hstep, hcycle, hidle]
  rfl

theorem hadReset_step {e : Event} : (s.step e).HadReset → s.HadReset ∨ s.resets e = true := by
  refine @step_cases_of_running s (fun t => t.HadReset → s.HadReset ∨ s.resets e = true) e Or.inl
    (fun _ _ _ => Or.inl) (fun orders accountId reply _ => ?_) hadReset_act
  rcases s.restarted_cases orders accountId reply with hstop | ⟨_, _, _, _, _, hdown, _, _, _, hstart⟩
  · rw [hstop]
    exact fun h => Or.inl (h.of_fields id (fun heq => nomatch heq) (fun heq => nomatch heq))
  · rw [hstart]
    exact fun h => Or.inl (h.of_fields (fun hup => absurd (hdown.symm.trans hup) Bool.false_ne_true)
      (fun heq => nomatch heq) (fun heq => nomatch heq))

theorem active_step {e : Event} (h : (s.step e).Active) : s.Active ∨ s.resets e = true := by
  have hpassed : s.HadReset → s.Active := by
    rintro (hup | hplanning)
    · exact Or.inl hup
    · exact Or.inr (Or.inr hplanning)
  rcases h with hdone | hbusy | hplanning
  · exact (hadReset_step (Or.inl hdone)).imp_left hpassed
  · rcases busy_step hbusy with hbefore | hbegins
    · exact Or.inl (Or.inr (Or.inl hbefore))
    · obtain ⟨_, hdone, _⟩ := begins_cases hbegins
      exact Or.inl (Or.inl hdone)
  · exact (hadReset_step (Or.inr hplanning)).imp_left hpassed

end TradingEngine

/-! ### Runs -/

namespace EntryRun

open TradingEngine

/-- What holds between two steps. -/
structure Inv (r : EntryRun) : Prop where
  riskCfg : r.engine.risk.cfg = r.engine.cfg.risk
  resetMark_le : r.resetMark ≤ r.engine.history.approved.length
  cycleMark_le : r.cycleMark ≤ r.engine.history.approved.length
  trades : r.engine.Active → (r.sinceReset : ℤ) ≤ r.engine.app.tradesToday
  entries : r.engine.Busy → (r.sinceCycle : ℤ) ≤ r.engine.app.entriesThisCycle
  flight : 0 < r.engine.inFlight →
    (r.sinceReset + r.engine.inFlight : ℤ) ≤ r.engine.cfg.risk.maxTradesPerDay ∧
      (r.sinceCycle + r.engine.inFlight : ℤ) ≤ r.engine.cfg.risk.maxNewEntriesPerCycle
  law : r.CapsKept

/-- `n` entries more are approved from `s` to `s'`. -/
structure Counted (n : ℕ) (s s' : TradingEngine) : Prop where
  cfg : s'.cfg = s.cfg
  riskCfg : s'.risk.cfg = s.risk.cfg
  tradesToday : s'.app.tradesToday = s.app.tradesToday + n
  entriesThisCycle : s'.app.entriesThisCycle = s.app.entriesThisCycle + n
  approved : s'.history.approved.length = s.history.approved.length + n

variable {r : EntryRun} {s s' : TradingEngine} {e : TradingEngine.Event}

theorem counted_of_noted {n : ℕ} (h : Noted n s s') : Counted n s s' where
  cfg := h.cfg
  riskCfg := h.riskCfg
  tradesToday := h.tradesToday
  entriesThisCycle := h.entriesThisCycle
  approved := by rw [h.approved, List.length_append, List.length_replicate]

theorem counted_of_same (hcfg : s'.cfg = s.cfg) (hrisk : s'.risk.cfg = s.risk.cfg)
    (htrades : s'.app.tradesToday = s.app.tradesToday)
    (hentries : s'.app.entriesThisCycle = s.app.entriesThisCycle)
    (happroved : s'.history.approved = s.history.approved) : Counted 0 s s' :=
  ⟨hcfg, hrisk, htrades.trans (add_zero _).symm, hentries.trans (add_zero _).symm, congrArg _ happroved⟩

theorem busy_of_maySubmit (h : s.maySubmit e = true) : s.Busy := by
  cases e with
  | proposed order i cycleId approvalId =>
    simp only [maySubmit] at h
    split at h
    · rename_i hdecision
      refine Or.inl ?_
      rw [hdecision]
      rfl
    · cases h
  | clicked id resized i =>
    simp only [maySubmit] at h
    split at h
    · rename_i approval hfind
      refine Or.inr fun hempty => ?_
      rw [hempty] at hfind
      cases hfind
    · cases h
  | _ => cases h

theorem Inv.room (h : r.Inv) (hbusy : r.engine.Busy) (hroom : r.engine.RoomForAll = true)
    (hopen : r.engine.GateOpen) :
    (r.sinceReset + r.engine.inFlight + 1 : ℤ) ≤ r.engine.cfg.risk.maxTradesPerDay ∧
      (r.sinceCycle + r.engine.inFlight + 1 : ℤ) ≤ r.engine.cfg.risk.maxNewEntriesPerCycle := by
  have htrades := h.trades (Or.inr (Or.inl hbusy))
  have hentries := h.entries hbusy
  have hday := hopen.trades
  have hcycle := hopen.entries
  rw [h.riskCfg] at hday hcycle
  simp only [RoomForAll, Bool.or_eq_true, Bool.and_eq_true, decide_eq_true_eq] at hroom
  omega

theorem Inv.of_cfg {r' : EntryRun} (h : r.Inv) (hcfg : r'.engine.cfg = r.engine.cfg)
    (hrisk : r'.engine.risk.cfg = r.engine.risk.cfg)
    (hmarks : r'.resetMark ≤ r'.engine.history.approved.length ∧
      r'.cycleMark ≤ r'.engine.history.approved.length)
    (htrades : r'.engine.Active → (r'.sinceReset : ℤ) ≤ r'.engine.app.tradesToday)
    (hentries : r'.engine.Busy → (r'.sinceCycle : ℤ) ≤ r'.engine.app.entriesThisCycle)
    (hflight : 0 < r'.engine.inFlight →
      (r'.sinceReset + r'.engine.inFlight : ℤ) ≤ r.engine.cfg.risk.maxTradesPerDay ∧
        (r'.sinceCycle + r'.engine.inFlight : ℤ) ≤ r.engine.cfg.risk.maxNewEntriesPerCycle)
    (hlaw : r'.sinceReset ≤ r.engine.cfg.risk.maxTradesPerDay.toNat ∧
      r'.sinceCycle ≤ r.engine.cfg.risk.maxNewEntriesPerCycle.toNat) : r'.Inv where
  riskCfg := by rw [hrisk, hcfg, h.riskCfg]
  resetMark_le := hmarks.1
  cycleMark_le := hmarks.2
  trades := htrades
  entries := hentries
  flight := by rwa [hcfg]
  law := by
    constructor
    · rw [hcfg]
      exact hlaw.1
    · rw [hcfg]
      exact hlaw.2

theorem Inv.counted {n : ℕ} (h : r.Inv) (hcounted : Counted n r.engine s')
    (hactive : s'.Active → r.engine.Active) (hbusy : s'.Busy → r.engine.Busy)
    (hfits : 0 < n → (r.sinceReset + n : ℤ) ≤ r.engine.cfg.risk.maxTradesPerDay ∧
      (r.sinceCycle + n : ℤ) ≤ r.engine.cfg.risk.maxNewEntriesPerCycle)
    (hflight : 0 < s'.inFlight → (r.sinceReset + n + s'.inFlight : ℤ) ≤ r.engine.cfg.risk.maxTradesPerDay ∧
      (r.sinceCycle + n + s'.inFlight : ℤ) ≤ r.engine.cfg.risk.maxNewEntriesPerCycle) :
    Inv { r with engine := s' } := by
  have hresetMark := h.resetMark_le
  have hcycleMark := h.cycleMark_le
  have hlength := hcounted.approved
  have hreset : EntryRun.sinceReset { r with engine := s' } = r.sinceReset + n := by
    simp only [sinceReset]
    omega
  have hcycle : EntryRun.sinceCycle { r with engine := s' } = r.sinceCycle + n := by
    simp only [sinceCycle]
    omega
  refine h.of_cfg hcounted.cfg hcounted.riskCfg ⟨?_, ?_⟩ (fun hup => ?_) (fun hup => ?_) (fun hpos => ?_) ?_
  · show r.resetMark ≤ s'.history.approved.length
    omega
  · show r.cycleMark ≤ s'.history.approved.length
    omega
  · have htrades := h.trades (hactive hup)
    rw [hreset]
    show ((r.sinceReset + n : ℕ) : ℤ) ≤ s'.app.tradesToday
    rw [hcounted.tradesToday]
    omega
  · have hentries := h.entries (hbusy hup)
    rw [hcycle]
    show ((r.sinceCycle + n : ℕ) : ℤ) ≤ s'.app.entriesThisCycle
    rw [hcounted.entriesThisCycle]
    omega
  · have hfree := hflight hpos
    rw [hreset, hcycle]
    push_cast
    exact hfree
  · have htrades := h.law.trades
    have hentries := h.law.entries
    rw [hreset, hcycle]
    rcases Nat.eq_zero_or_pos n with hzero | hpos
    · omega
    · have hroom := hfits hpos
      omega

theorem Inv.kept (h : r.Inv) (hcounted : Counted 0 r.engine s') (hle : s'.inFlight ≤ r.engine.inFlight)
    (hactive : s'.Active → r.engine.Active) (hbusy : s'.Busy → r.engine.Busy) :
    Inv { r with engine := s' } := by
  refine h.counted hcounted hactive hbusy (fun hpos => absurd hpos (lt_irrefl 0)) fun hpos => ?_
  have hflight := h.flight (hpos.trans_le hle)
  push_cast
  omega

theorem Inv.entered (h : r.Inv) (hentered : Entered r.engine e s')
    (hroom : r.engine.maySubmit e = true → r.engine.RoomForAll = true)
    (hactive : s'.Active → r.engine.Active) (hbusy : s'.Busy → r.engine.Busy) :
    Inv { r with engine := s' } := by
  cases hentered with
  | nothing hnoted hle => exact h.kept (counted_of_noted hnoted) hle hactive hbusy
  | suspended hsubmits hopen hnoted hle =>
    have hfree := h.room (busy_of_maySubmit hsubmits) (hroom hsubmits) hopen
    refine h.counted (counted_of_noted hnoted) hactive hbusy (fun hpos => absurd hpos (lt_irrefl 0))
      fun _ => ?_
    push_cast
    omega
  | approved hsubmits hopen hnoted hle =>
    have hfree := h.room (busy_of_maySubmit hsubmits) (hroom hsubmits) hopen
    refine h.counted (counted_of_noted hnoted) hactive hbusy (fun _ => ?_) fun _ => ?_
    · push_cast
      omega
    · push_cast
      omega
  | answered n hone hnoted hle =>
    have hflight := h.flight (by omega)
    refine h.counted (counted_of_noted hnoted) hactive hbusy (fun _ => ?_) fun _ => ?_
    · omega
    · omega

theorem Inv.restarted (h : r.Inv) (orders : OrderManager) (accountId : String)
    (reply : Except String AccountSnapshot)
    (hactive : (r.engine.restarted orders accountId reply).Active → r.engine.Active)
    (hbusy : (r.engine.restarted orders accountId reply).Busy → r.engine.Busy) :
    Inv { r with engine := r.engine.restarted orders accountId reply } := by
  rcases r.engine.restarted_cases orders accountId reply with hstop |
    ⟨app, risk, gateway, store, history, hdown, hempty, hrisk, happroved, hstart⟩
  · rw [hstop] at hactive hbusy ⊢
    exact h.kept (counted_of_same rfl rfl rfl rfl rfl) (Nat.zero_le _) hactive hbusy
  · have hidle : ¬ (r.engine.restarted orders accountId reply).Busy := by
      rw [hstart]
      rintro (hcycle | hpending)
      · cases hcycle
      · exact hpending hempty
    have hfresh : ¬ (r.engine.restarted orders accountId reply).Active := by
      rintro (hdone | hbusy | ⟨loop, hplanning⟩)
      · rw [hstart] at hdone
        exact absurd (hdown.symm.trans hdone) Bool.false_ne_true
      · exact hidle hbusy
      · rw [hstart] at hplanning
        cases loop <;> cases hplanning
    have hlength : (r.engine.restarted orders accountId reply).history.approved =
        r.engine.history.approved := by
      rw [hstart]
      exact happroved
    have hreset : EntryRun.sinceReset { r with engine := r.engine.restarted orders accountId reply } =
        r.sinceReset := by
      simp only [sinceReset, hlength]
    have hcycle : EntryRun.sinceCycle { r with engine := r.engine.restarted orders accountId reply } =
        r.sinceCycle := by
      simp only [sinceCycle, hlength]
    refine h.of_cfg ?_ ?_ ⟨?_, ?_⟩ (fun hup => absurd hup hfresh) (fun hup => absurd hup hidle)
      (fun hpos => ?_) ?_
    · rw [hstart]
    · rw [hstart]
      exact hrisk.trans h.riskCfg.symm
    · exact hlength ▸ h.resetMark_le
    · exact hlength ▸ h.cycleMark_le
    · rw [hstart] at hpos
      exact absurd hpos (lt_irrefl 0)
    · rw [hreset, hcycle]
      exact ⟨h.law.trades, h.law.entries⟩

theorem Inv.marks_step (h : r.Inv)
    (happroved : (r.engine.step e).history.approved = r.engine.history.approved) :
    (r.step e).resetMark ≤ (r.step e).engine.history.approved.length ∧
      (r.step e).cycleMark ≤ (r.step e).engine.history.approved.length := by
  have hresetMark := h.resetMark_le
  have hcycleMark := h.cycleMark_le
  simp only [EntryRun.step, happroved]
  constructor
  · split_ifs <;> omega
  · split_ifs <;> omega

theorem sinceReset_step (happroved : (r.engine.step e).history.approved = r.engine.history.approved) :
    (r.step e).sinceReset = if r.engine.resets e then 0 else r.sinceReset := by
  simp only [sinceReset, EntryRun.step, happroved]
  split_ifs
  · exact Nat.sub_self _
  · rfl

theorem sinceCycle_step (happroved : (r.engine.step e).history.approved = r.engine.history.approved) :
    (r.step e).sinceCycle = if r.engine.begins e then 0 else r.sinceCycle := by
  simp only [sinceCycle, EntryRun.step, happroved]
  split_ifs
  · exact Nat.sub_self _
  · rfl

theorem Inv.reset (h : r.Inv) (hreset : r.engine.resets e = true)
    (hidle : r.engine.decision.inCycle = false) : (r.step e).Inv := by
  obtain ⟨hact, loop, account, hreplaced⟩ := resets_cases hreset
  have hstep := hact.trans hreplaced
  have hcycle : (r.engine.step e).decision.inCycle = false := by
    rw [hstep]
    cases loop with
    | schedule => exact hidle
    | decision => rfl
  have hbegins : r.engine.begins e = false := by
    unfold begins
    rw [hcycle, Bool.and_false]
  have hquiet : ¬ (r.engine.step e).Busy := by
    rintro (hin | hpending)
    · rw [hcycle] at hin
      cases hin
    · rw [hstep] at hpending
      cases loop <;> exact hpending rfl
  have hcfg : (r.engine.step e).cfg = r.engine.cfg := by
    rw [hstep]
    cases loop <;> rfl
  have happroved : (r.engine.step e).history.approved = r.engine.history.approved := by
    rw [hstep]
    cases loop <;> rfl
  have hle : (r.engine.step e).inFlight ≤ r.engine.inFlight := by
    rw [hstep]
    exact (calm_suspendIn _ loop .planning).inFlight
  have hrisk : (r.engine.step e).risk.cfg = r.engine.risk.cfg := by
    rw [hstep]
    cases loop <;> rfl
  have hsinceReset : (r.step e).sinceReset = 0 := by rw [sinceReset_step happroved, if_pos hreset]
  have hsinceCycle : (r.step e).sinceCycle = r.sinceCycle := by
    rw [sinceCycle_step happroved, hbegins, if_neg Bool.false_ne_true]
  refine h.of_cfg hcfg hrisk (h.marks_step happroved) (fun _ => ?_) (fun hup => absurd hup hquiet)
    (fun hpos => ?_) ?_
  · rw [hsinceReset]
    show 0 ≤ (r.engine.step e).app.tradesToday
    rw [hstep]
    cases loop <;> exact le_rfl
  · have hflight := h.flight (hpos.trans_le hle)
    rw [hsinceReset, hsinceCycle]
    show ((0 : ℕ) + (r.engine.step e).inFlight : ℤ) ≤ _ ∧ (r.sinceCycle + (r.engine.step e).inFlight : ℤ) ≤ _
    omega
  · rw [hsinceReset, hsinceCycle]
    exact ⟨Nat.zero_le _, h.law.entries⟩

theorem Inv.begin (h : r.Inv) (hreset : r.engine.resets e = false) (hbegins : r.engine.begins e = true) :
    (r.step e).Inv := by
  obtain ⟨_, hdone, risk, hrisk, hstep⟩ := begins_cases hbegins
  have happroved : (r.engine.step e).history.approved = r.engine.history.approved := by rw [hstep]
  have hsinceCycle : (r.step e).sinceCycle = 0 := by rw [sinceCycle_step happroved, if_pos hbegins]
  have hsinceReset : (r.step e).sinceReset = r.sinceReset := by
    rw [sinceReset_step happroved, hreset, if_neg Bool.false_ne_true]
  have hle : (r.engine.step e).inFlight ≤ r.engine.inFlight := by
    rw [hstep]
    exact Nat.le_add_right _ _
  refine h.of_cfg ?_ ?_ (h.marks_step happroved) (fun _ => ?_) (fun _ => ?_) (fun hpos => ?_) ?_
  · show (r.engine.step e).cfg = r.engine.cfg
    rw [hstep]
  · show (r.engine.step e).risk.cfg = r.engine.risk.cfg
    rw [hstep]
    exact hrisk
  · have htrades := h.trades (Or.inl hdone)
    rw [hsinceReset]
    show (r.sinceReset : ℤ) ≤ (r.engine.step e).app.tradesToday
    rw [hstep]
    exact htrades
  · rw [hsinceCycle]
    show 0 ≤ (r.engine.step e).app.entriesThisCycle
    rw [hstep]
  · have hflight := h.flight (hpos.trans_le hle)
    rw [hsinceReset, hsinceCycle]
    show (r.sinceReset + (r.engine.step e).inFlight : ℤ) ≤ _ ∧ ((0 : ℕ) + (r.engine.step e).inFlight : ℤ) ≤ _
    omega
  · rw [hsinceReset, hsinceCycle]
    exact ⟨h.law.trades, Nat.zero_le _⟩

theorem Inv.act (h : r.Inv) (hrun : r.engine.running = true) (hcaps : r.engine.WithinCaps e = true)
    (hreset : r.engine.resets e = false) (hbegins : r.engine.begins e = false)
    (hactive : (r.engine.act e).Active → r.engine.Active) (hbusy : (r.engine.act e).Busy → r.engine.Busy) :
    Inv { r with engine := r.engine.act e } := by
  cases hentry : isEntry e with
  | true =>
    refine h.entered (entered_act hentry) (fun hsubmits => ?_) hactive hbusy
    have hor := (Bool.and_eq_true_iff.mp hcaps).1
    rwa [hsubmits, Bool.not_true, Bool.false_or] at hor
  | false =>
    rcases usual_act hrun hentry hreset with husual | hbegun
    · exact h.kept (counted_of_same husual.cfg husual.riskCfg husual.tradesToday husual.entriesThisCycle
        husual.approved) husual.inFlight hactive hbusy
    · rw [begins_of_begun hrun hbegun] at hbegins
      cases hbegins

theorem Inv.step (h : r.Inv) (e : TradingEngine.Event) (hcaps : r.engine.WithinCaps e = true) :
    (r.step e).Inv := by
  cases hreset : r.engine.resets e with
  | true =>
    refine h.reset hreset ?_
    have hor := (Bool.and_eq_true_iff.mp hcaps).2
    rw [hreset, Bool.not_true, Bool.false_or] at hor
    simpa using hor
  | false =>
    cases hbegins : r.engine.begins e with
    | true => exact h.begin hreset hbegins
    | false =>
      have hstep : r.step e = { r with engine := r.engine.step e } := by
        unfold EntryRun.step
        rw [hreset, hbegins]
        rfl
      have hactive : (r.engine.step e).Active → r.engine.Active := by
        intro hup
        rcases active_step hup with hbefore | hnow
        · exact hbefore
        · rw [hreset] at hnow
          cases hnow
      have hbusy : (r.engine.step e).Busy → r.engine.Busy := by
        intro hup
        rcases busy_step hup with hbefore | hnow
        · exact hbefore
        · rw [hbegins] at hnow
          cases hnow
      rw [hstep]
      refine @step_cases_of_running r.engine (fun t => (t.Active → r.engine.Active) →
        (t.Busy → r.engine.Busy) → Inv { r with engine := t }) e (fun _ _ => h)
          (fun now _ _ hactive hbusy => ?_) (fun orders accountId reply _ => ?_)
          (fun hrun => h.act hrun hcaps hreset hbegins) hactive hbusy
      · exact h.kept (counted_of_same rfl rfl rfl rfl rfl) le_rfl hactive hbusy
      · exact h.restarted orders accountId reply

theorem inv_off (cfg : StrategyConfig) (isLive : Bool) (calendar : MarketCalendar) (now : Now)
    (killSwitch : KillSwitch) (store : StateStore) (positions : Dict String Position) :
    Inv { engine := off cfg isLive calendar now killSwitch store positions } :=
  ⟨rfl, le_rfl, le_rfl, fun _ => le_rfl, fun _ => le_rfl, fun hpos => (nomatch hpos),
    ⟨Nat.zero_le _, Nat.zero_le _⟩⟩

/-- **The entry counters are caps** in every run whose steps meet the condition, from before the first start of
the process on. -/
theorem entry_counters_are_caps (cfg : StrategyConfig) (isLive : Bool) (calendar : MarketCalendar) (now : Now)
    (killSwitch : KillSwitch) (store : StateStore) (positions : Dict String Position)
    (events : List TradingEngine.Event)
    (hcaps : Trace.Each step (fun r e => r.engine.WithinCaps e = true)
      { engine := off cfg isLive calendar now killSwitch store positions } events) :
    Trace.Always step CapsKept { engine := off cfg isLive calendar now killSwitch store positions } events := by
  have hstep : ∀ r e, Inv r → r.engine.WithinCaps e = true → Inv (r.step e) :=
    fun _ e h hcaps => h.step e hcaps
  exact Trace.always_of_inductive hstep (fun _ h => h.law)
    (inv_off cfg isLive calendar now killSwitch store positions) hcaps

/-! ### Two clicks -/

/-- Not yet started, with room for one entry. -/
def oneEntry : EntryRun where
  engine := off { risk := { maxTradesPerDay := 1, maxNewEntriesPerCycle := 1 } } false dailySessions
    (clock 0 55800) {} {} Dict.empty

/-- A cycle in manual mode that leaves two ideas. -/
def twoIdeas : List TradingEngine.Event :=
  bootAndPlan (clock 0 55800) 100000 ++ [
    .modeSet .manual, .advanced (clock 0 56000), .decisionTicked false,
    .cycleFetched (.ok (accountAt (clock 0 56000) 100000)),
    .proposed (smallEntry "AAPL") (entryInputs "AAPL" (clock 0 56000)) "c1" "a1",
    .proposed (smallEntry "MSFT") (entryInputs "MSFT" (clock 0 56000)) "c1" "a2", .cycleEnded]

def clickedFor (symbol id : String) : TradingEngine.Event :=
  .clicked id (some (smallEntry symbol)) (entryInputs symbol (clock 0 56000))

/-- The second click waits for the first. -/
def oneAfterTheOther : List TradingEngine.Event :=
  twoIdeas ++ [clickedFor "AAPL" "a1", .approvalPlaced 0 (.ok []), clickedFor "MSFT" "a2"]

theorem entry_counters_are_caps_oneAfterTheOther : Trace.Always step CapsKept oneEntry oneAfterTheOther :=
  entry_counters_are_caps { risk := { maxTradesPerDay := 1, maxNewEntriesPerCycle := 1 } } false dailySessions
    (clock 0 55800) {} {} Dict.empty oneAfterTheOther (by decide +kernel)

/-- Both clicks come before the broker has answered the first. -/
def bothAtOnce : List TradingEngine.Event :=
  twoIdeas ++ [clickedFor "AAPL" "a1", clickedFor "MSFT" "a2", .approvalPlaced 0 (.ok []),
    .approvalPlaced 0 (.ok [])]

/-- The gate judges both clicks on counters of zero, and both entries are approved under caps of one. -/
theorem both_clicks_approved :
    (Trace.run step oneEntry bothAtOnce).sinceReset = 2 ∧ (Trace.run step oneEntry bothAtOnce).sinceCycle = 2 ∧
      ¬ Trace.Always step CapsKept oneEntry bothAtOnce := by
  have hreset : (Trace.run step oneEntry bothAtOnce).sinceReset = 2 := by decide +kernel
  have hcycle : (Trace.run step oneEntry bothAtOnce).sinceCycle = 2 := by decide +kernel
  refine ⟨hreset, hcycle, fun h => ?_⟩
  have htrades := h.last.trades
  rw [hreset] at htrades
  exact absurd htrades (by decide +kernel)

end EntryRun

end AiTrader
