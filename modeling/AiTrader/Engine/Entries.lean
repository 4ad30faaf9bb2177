import AiTrader.Engine.Scheduler

/-!
# What an entry does to the counters

The gate reads `trades_today` and `entries_this_cycle` when a submission begins, and `note_entry` raises them when
`submit` returns, with whatever has happened in between. `Entered` says once what a step about an entry can do to
the counters and to the submissions in flight; the laws about the counters are derived from it.

A step about an entry is one of three: a submission that returns at once with a verdict, one that is suspended in
`place_bracket`, and the return of a suspended one. In each the counters move by what is approved and the flights by
what is suspended or returns, and an approval, at once or pending, means that the gate has compared the counters with
the caps and found them below (`gateOpen_of_passed`).
-/

namespace AiTrader

open Lib

namespace TradingEngine

/-- From `s` to `s'` `n` entries are noted, and nothing else moves that the counts depend on. -/
structure Noted (n : ℕ) (s s' : TradingEngine) : Prop where
  now : s'.now = s.now
  calendar : s'.calendar = s.calendar
  cfg : s'.cfg = s.cfg
  riskCfg : s'.risk.cfg = s.risk.cfg
  startingEquity : s'.app.startingEquity = s.app.startingEquity
  premarketDone : s'.app.premarketDone = s.app.premarketDone
  planning : s'.planning = s.planning
  inCycle : s'.decision.inCycle = s.decision.inCycle
  tradesToday : s'.app.tradesToday = s.app.tradesToday + n
  entriesThisCycle : s'.app.entriesThisCycle = s.app.entriesThisCycle + n
  approved : s'.history.approved = s.history.approved ++ List.replicate n s.today
  zeroed : s'.history.zeroed = s.history.zeroed
  baseline : s'.history.baseline = s.history.baseline
  savedOn : s'.history.savedOn = s.history.savedOn
  saved : s'.store.startingEquity = s.store.startingEquity

/-- Both counters are below their caps. -/
structure GateOpen (s : TradingEngine) : Prop where
  trades : s.app.tradesToday < s.risk.cfg.maxTradesPerDay
  entries : s.app.entriesThisCycle < s.risk.cfg.maxNewEntriesPerCycle

/-- The step is one that may call `submit`. -/
def maySubmit (s : TradingEngine) : Event → Bool
  | .proposed _ _ _ _ => match s.decision with
    | .cycle _ _ (.deciding _) => decide (s.app.executionMode ≠ .manual)
    | _ => false
  | .clicked id _ _ => match s.app.pendingApprovals.find? fun p => p.id = id with
    | some approval => decide (approval.kind = .entry)
    | none => false
  | _ => false

/-- What the step `e` about an entry has done. -/
inductive Entered (s : TradingEngine) (e : Event) (s' : TradingEngine) : Prop
  | nothing (noted : Noted 0 s s') (flight : s'.inFlight ≤ s.inFlight)
  /-- The submission is suspended in `place_bracket`. -/
  | suspended (submits : s.maySubmit e = true) (gate : s.GateOpen) (noted : Noted 0 s s')
    (flight : s'.inFlight ≤ s.inFlight + 1)
  /-- It has returned at once, with an approval. -/
  | approved (submits : s.maySubmit e = true) (gate : s.GateOpen) (noted : Noted 1 s s')
    (flight : s'.inFlight ≤ s.inFlight)
  /-- One that was in flight has returned. -/
  | answered (n : ℕ) (one : n ≤ 1) (noted : Noted n s s') (flight : s'.inFlight + 1 ≤ s.inFlight)

variable {s s' s'' : TradingEngine}

theorem Noted.refl (s : TradingEngine) : Noted 0 s s :=
  ⟨rfl, rfl, rfl, rfl, rfl, rfl, rfl, rfl, (add_zero _).symm, (add_zero _).symm, (List.append_nil _).symm, rfl, rfl, rfl, rfl⟩

theorem Noted.today {n : ℕ} (h : Noted n s s') : s'.today = s.today := by
  unfold TradingEngine.today
  rw [h.now, h.calendar]

theorem Noted.trans {m n : ℕ} (h : Noted m s s') (h' : Noted n s' s'') : Noted (m + n) s s'' where
  now := h'.now.trans h.now
  calendar := h'.calendar.trans h.calendar
  cfg := h'.cfg.trans h.cfg
  riskCfg := h'.riskCfg.trans h.riskCfg
  startingEquity := h'.startingEquity.trans h.startingEquity
  premarketDone := h'.premarketDone.trans h.premarketDone
  planning := h'.planning.trans h.planning
  inCycle := h'.inCycle.trans h.inCycle
  tradesToday := by
    rw [h'.tradesToday, h.tradesToday]
    push_cast
    omega
  entriesThisCycle := by
    rw [h'.entriesThisCycle, h.entriesThisCycle]
    push_cast
    omega
  approved := by rw [h'.approved, h.approved, h.today, List.append_assoc, List.replicate_add]
  zeroed := h'.zeroed.trans h.zeroed
  baseline := h'.baseline.trans h.baseline
  savedOn := h'.savedOn.trans h.savedOn
  saved := h'.saved.trans h.saved

theorem Noted.elsewhere (s : TradingEngine) {orders : OrderManager} {risk : RiskEngine}
    {approvals : List Submission} (hcfg : risk.cfg = s.risk.cfg) :
    Noted 0 s { s with orders, risk, approvals } :=
  ⟨rfl, rfl, rfl, hcfg, rfl, rfl, rfl, rfl, (add_zero _).symm, (add_zero _).symm,
    (List.append_nil _).symm, rfl, rfl, rfl, rfl⟩

theorem Noted.within (s : TradingEngine) {day day' : ℤ} {session session' : SessionInfo}
    {before after : CycleAt} (hdecision : s.decision = .cycle day session before) :
    Noted 0 s { s with decision := .cycle day' session' after } := by
  refine ⟨rfl, rfl, rfl, rfl, rfl, rfl, funext fun loop => ?_, ?_, (add_zero _).symm, (add_zero _).symm,
    (List.append_nil _).symm, rfl, rfl, rfl, rfl⟩
  · cases loop with
    | schedule => rfl
    | decision =>
      unfold TradingEngine.planning
      rw [hdecision]
  · rw [hdecision]
    rfl

theorem noted_queue (s : TradingEngine) (pendingApprovals : List PendingApproval) :
    Noted 0 s { s with app := { s.app with pendingApprovals } } :=
  ⟨rfl, rfl, rfl, rfl, rfl, rfl, rfl, rfl, (add_zero _).symm, (add_zero _).symm, (List.append_nil _).symm, rfl, rfl, rfl, rfl⟩

theorem noted_noteVerdict (s : TradingEngine) (symbol : String) (verdict : RiskVerdict) :
    Noted verdict.approved.toNat s (s.noteVerdict symbol verdict) := by
  rcases s.noteVerdict_cases symbol verdict with ⟨hno, heq⟩ | ⟨hyes, heq⟩
  · rw [heq, hno]
    exact .refl s
  · rw [heq, hyes]
    exact ⟨rfl, rfl, rfl, rfl, rfl, rfl, rfl, rfl, rfl, rfl, rfl, rfl, rfl, rfl, rfl⟩

theorem inFlight_noteVerdict (s : TradingEngine) (symbol : String) (verdict : RiskVerdict) :
    (s.noteVerdict symbol verdict).inFlight = s.inFlight := by
  rcases s.noteVerdict_cases symbol verdict with ⟨_, heq⟩ | ⟨_, heq⟩
  · rw [heq]
  · rw [heq]
    rfl

theorem noted_submit (s : TradingEngine) (order : SizedOrder) (ctx : RiskContext) (cycleId : String) :
    Noted 0 s (s.submit order ctx cycleId).1 := by
  obtain ⟨placed, risk, orders, heq, hcfg, _⟩ := s.submit_cases order ctx cycleId
  rw [heq]
  exact ⟨rfl, rfl, rfl, hcfg, rfl, rfl, rfl, rfl, (add_zero _).symm, (add_zero _).symm,
    (List.append_nil _).symm, rfl, rfl, rfl, rfl⟩

theorem inFlight_submit (s : TradingEngine) (order : SizedOrder) (ctx : RiskContext) (cycleId : String) :
    (s.submit order ctx cycleId).1.inFlight = s.inFlight := by
  unfold inFlight
  rw [approvals_submit, decision_submit]

theorem noted_finishEntry (s : TradingEngine) (entry : Submission)
    (reply : Except String (List BrokerOrderStatus)) :
    ∃ n ≤ 1, Noted n s (s.finishEntry entry reply) ∧ (s.finishEntry entry reply).inFlight = s.inFlight := by
  obtain ⟨risk, orders, verdict, hcfg, heq⟩ := s.finishEntry_cases entry reply
  rw [heq]
  have hmoved : Noted 0 s { s with orders, risk } := .elsewhere s hcfg
  refine ⟨verdict.approved.toNat, Bool.toNat_le _, ?_, inFlight_noteVerdict _ _ _⟩
  have hnoted := hmoved.trans (noted_noteVerdict _ entry.symbol verdict)
  rwa [Nat.zero_add] at hnoted

theorem Entered.noted {e : Event} (h : Entered s e s') : ∃ n, Noted n s s' := by
  cases h with
  | nothing hnoted _ => exact ⟨0, hnoted⟩
  | suspended _ _ hnoted _ => exact ⟨0, hnoted⟩
  | approved _ _ hnoted _ => exact ⟨1, hnoted⟩
  | answered n _ hnoted _ => exact ⟨n, hnoted⟩

theorem Entered.planning {e : Event} (h : Entered s e s') : s'.planning = s.planning := by
  obtain ⟨n, hnoted⟩ := h.noted
  exact hnoted.planning

/-! ### The four steps -/

section Submit

variable {order : SizedOrder} {ctx : RiskContext} {cycleId : String} {verdict : RiskVerdict}

theorem gateOpen_of_passed (htrades : ctx.tradesToday = s.app.tradesToday)
    (hentries : ctx.entriesThisCycle = s.app.entriesThisCycle) (h : s.risk.Passed order ctx s.now) :
    s.GateOpen := by
  have hlt := h.tradesToday_lt
  have hcycle := h.entriesThisCycle_lt
  rw [htrades] at hlt
  rw [hentries] at hcycle
  exact ⟨hlt, hcycle⟩

theorem gateOpen_of_placing (htrades : ctx.tradesToday = s.app.tradesToday)
    (hentries : ctx.entriesThisCycle = s.app.entriesThisCycle)
    (hverdict : (s.submit order ctx cycleId).2 = .placing verdict) : s.GateOpen := by
  obtain ⟨_, _, _, _, _, hsubmitted⟩ := s.submit_cases order ctx cycleId
  rcases hsubmitted with ⟨verdict', hverdict', _⟩ | ⟨verdict', _, hpassed⟩
  · rw [hverdict] at hverdict'
    cases hverdict'
  · exact gateOpen_of_passed htrades hentries hpassed

theorem gateOpen_of_returned (htrades : ctx.tradesToday = s.app.tradesToday)
    (hentries : ctx.entriesThisCycle = s.app.entriesThisCycle)
    (hverdict : (s.submit order ctx cycleId).2 = .returned verdict) (hyes : verdict.approved = true) :
    s.GateOpen := by
  obtain ⟨_, _, _, _, _, hsubmitted⟩ := s.submit_cases order ctx cycleId
  rcases hsubmitted with ⟨verdict', hverdict', happroved⟩ | ⟨verdict', hverdict', _⟩
  · rw [hverdict] at hverdict'
    cases hverdict'
    exact gateOpen_of_passed htrades hentries (happroved hyes)
  · rw [hverdict] at hverdict'
    cases hverdict'

theorem entered_returned {e : Event} (hsubmits : s.maySubmit e = true)
    (hgate : verdict.approved = true → s.GateOpen) (symbol : String) (hnoted : Noted 0 s s')
    (hflight : s'.inFlight = s.inFlight) : Entered s e (s'.noteVerdict symbol verdict) := by
  have hverdict := hnoted.trans (noted_noteVerdict s' symbol verdict)
  have hle : (s'.noteVerdict symbol verdict).inFlight ≤ s.inFlight := by
    rw [inFlight_noteVerdict, hflight]
  rw [Nat.zero_add] at hverdict
  cases happroved : verdict.approved with
  | false =>
    rw [happroved] at hverdict
    exact .nothing hverdict hle
  | true =>
    rw [happroved] at hverdict
    exact .approved hsubmits (hgate happroved) hverdict hle

end Submit

theorem entered_proposed (s : TradingEngine) (order : SizedOrder) (i : EntryInputs)
    (cycleId approvalId : String) :
    Entered s (.proposed order i cycleId approvalId) (s.proposed order i cycleId approvalId) := by
  unfold TradingEngine.proposed
  split
  · rename_i day session account hdecision
    split_ifs with hmanual
    · exact .nothing (noted_queue s _) le_rfl
    · have hsubmits : s.maySubmit (.proposed order i cycleId approvalId) = true := by
        simp [maySubmit, hdecision, hmanual]
      dsimp only
      split
      · rename_i verdict hverdict
        exact entered_returned hsubmits (gateOpen_of_returned rfl rfl hverdict) order.symbol
          (noted_submit s _ _ _) (inFlight_submit s _ _ _)
      · rename_i verdict hverdict
        refine .suspended hsubmits (gateOpen_of_placing rfl rfl hverdict)
          ((noted_submit s _ _ _).trans (.within _ ((decision_submit s _ _ _).trans hdecision))) ?_
        show (s.submit order (s.context account session i) cycleId).1.approvals.length + 1 ≤ s.inFlight + 1
        rw [approvals_submit]
        exact Nat.add_le_add_right (Nat.le_add_right _ _) 1
  · exact .nothing (.refl s) le_rfl

theorem entered_clicked (s : TradingEngine) (id : String) (resized : Option SizedOrder) (i : EntryInputs) :
    Entered s (.clicked id resized i) (s.clicked id resized i) := by
  unfold TradingEngine.clicked
  cases hfind : s.app.pendingApprovals.find? fun p => p.id = id with
  | none => exact .nothing (.refl s) le_rfl
  | some approval =>
    have hremoved := noted_queue s (s.app.pendingApprovals.erase approval)
    dsimp only
    split
    · rename_i hkind _ _
      have hsubmits : ∀ resized, s.maySubmit (.clicked id resized i) = true := by
        intro resized
        simp [maySubmit, hfind, hkind]
      split
      · rename_i verdict hverdict
        refine entered_returned (hsubmits _) (fun hyes => ?_) approval.symbol
          (hremoved.trans (noted_submit _ _ _ _)) (inFlight_submit _ _ _ _)
        have hgate := gateOpen_of_returned rfl rfl hverdict hyes
        exact ⟨hgate.trades, hgate.entries⟩
      · rename_i verdict hverdict
        have hgate := gateOpen_of_placing rfl rfl hverdict
        refine .suspended (hsubmits _) ⟨hgate.trades, hgate.entries⟩
          (hremoved.trans ((noted_submit _ _ _ _).trans (.elsewhere _ rfl))) ?_
        unfold inFlight
        rw [approvals_submit, decision_submit, List.length_append, List.length_singleton]
        exact (Nat.add_right_comm _ _ _).le
    · exact .nothing hremoved le_rfl

theorem entered_cyclePlaced (s : TradingEngine) (reply : Except String (List BrokerOrderStatus)) :
    Entered s (.cyclePlaced reply) (s.cyclePlaced reply) := by
  unfold TradingEngine.cyclePlaced
  split
  · rename_i day session account entry hdecision
    have hback : Noted 0 s { s with decision := .cycle day session (.deciding account) } :=
      .within s hdecision
    obtain ⟨n, hone, hnoted, hflight⟩ := noted_finishEntry
      { s with decision := .cycle day session (.deciding account) } entry reply
    have hall := hback.trans hnoted
    rw [Nat.zero_add] at hall
    refine .answered n hone hall ?_
    rw [hflight, inFlight, inFlight, hdecision]
    exact le_rfl
  · exact .nothing (.refl s) le_rfl

theorem entered_approvalPlaced (s : TradingEngine) (i : ℕ) (reply : Except String (List BrokerOrderStatus)) :
    Entered s (.approvalPlaced i reply) (s.approvalPlaced i reply) := by
  unfold TradingEngine.approvalPlaced
  split
  · rename_i entry hentry
    have hlt : i < s.approvals.length := (List.getElem?_eq_some_iff.mp hentry).1
    have hback : Noted 0 s { s with approvals := s.approvals.eraseIdx i } := .elsewhere s rfl
    obtain ⟨n, hone, hnoted, hflight⟩ := noted_finishEntry { s with approvals := s.approvals.eraseIdx i }
      entry reply
    have hall := hback.trans hnoted
    rw [Nat.zero_add] at hall
    refine .answered n hone hall ?_
    rw [hflight]
    show (s.approvals.eraseIdx i).length + s.decision.inFlight + 1 ≤ s.approvals.length + s.decision.inFlight
    rw [List.length_eraseIdx_of_lt hlt]
    omega
  · exact .nothing (.refl s) le_rfl

end TradingEngine

end AiTrader
