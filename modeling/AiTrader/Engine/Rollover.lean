import AiTrader.Engine.Scheduler

/-!
# Daily state rolls over

Every entry of a trading day is to be judged on a baseline, a counter and a flag that were reset on that
day, and no review of a day is to be skipped because of an earlier day's. The resets happen in
`run_premarket`, which `_schedule_tick` guards by `premarket_done`, which only `run_premarket` clears.

An attempt is on a reset (`UsesReset`) when the baseline it used is the equity that the planning pass fetched,
the counter it used counts the entries approved since, and the flag tells whether a loss at the limit has been
looked at since. That the daily state is so between two steps is `SinceReset`, part of the invariant.

`RollsOver` is the condition on the steps: a schedule tick in PREMARKET finds `premarket_done` down unless
the day has had its reset, and what spans days (a planning pass, a review, a cycle, an approval) ends on the
day it began. In the runs that meet it the daily state rolls over (`daily_state_rolls_over`).
-/

namespace AiTrader

open Lib

namespace TradingEngine

/-- The daily state that the attempt used is that of the planning pass `r`, made on the same day. -/
structure UsesReset (a : Attempt) (r : SessionReset) : Prop where
  day : r.day = a.day
  startingEquity : a.startingEquity = r.equity
  tradesToday : a.tradesToday = a.approved - r.before
  dailyLossTripped : a.dailyLossTripped = r.breached

/-- The law. -/
structure RolledOver (s : TradingEngine) : Prop where
  entries : ∀ a ∈ s.history.attempts, a.isTradingDay = true → ∃ r, a.reset = some r ∧ UsesReset a r
  reviews : ∀ r ∈ s.history.skipped, r.reviewedDay = some r.day

/-- The engine is always on, and time passes an open only on days with a schedule tick in PREMARKET while
the gateway is tradeable (or on the day the engine was started). -/
def AlwaysOn (s : TradingEngine) : Event → Bool
  | .advanced now => !decide (s.calendar.Opened now.epoch) ||
      decide (s.history.attendedDay = s.calendar.etDate now.epoch)
  | .restarted _ _ _ => false
  | _ => true

/-- Today has had its reset. -/
def ResetToday (s : TradingEngine) : Bool := decide (s.history.resetDay = some s.today)

/-- The condition on the steps. -/
def RollsOver (s : TradingEngine) : Event → Bool
  | .scheduleTicked =>
    decide (s.schedule ≠ .idle) || !s.gateway.isTradeable ||
      (decide (s.session.phase ≠ .premarket) || !s.app.premarketDone || s.ResetToday) &&
        (!s.reviewDue || !s.app.eodDone || s.ResetToday)
  | .planned loop ok =>
    !ok || decide (s.planning loop ≠ some .planning) || decide (s.history.attendedDay ≠ s.today) ||
      s.ResetToday
  | .eodReviewed ok => match s.schedule with
    | .eodReviewing day => !ok || !s.ResetToday || decide (day = s.today)
    | _ => true
  | .proposed _ _ _ _ => match s.decision with
    | .cycle day _ (.deciding _) => !s.session.isTradingDay || decide (day = s.today)
    | _ => true
  | .clicked id _ _ => match s.app.pendingApprovals.find? fun p => p.id = id with
    | some approval => decide (approval.kind ≠ .entry) || !s.session.isTradingDay ||
        decide (s.calendar.etDate approval.createdAt = s.today)
    | none => true
  | _ => true

/-- What holds between two steps. -/
structure RollInv (s : TradingEngine) : Prop where
  attended_le : s.history.attendedDay ≤ s.today
  reset_le : ∀ day ∈ s.history.resetDay, day ≤ s.today
  opened : s.calendar.Opened s.now.epoch → s.history.attendedDay = s.today
  planned : s.app.premarketDone = true → s.history.attendedDay = s.today →
    s.history.resetDay = some s.today
  cycle : ∀ day session suspended, s.decision = .cycle day session suspended →
    day ≤ s.today ∧ (day = s.today → s.history.resetDay = some s.today)
  pending : ∀ p ∈ s.app.pendingApprovals, p.createdAt ≤ s.now.epoch ∧
    (p.kind = .entry → s.session.isTradingDay = true → s.calendar.etDate p.createdAt = s.today →
      s.history.resetDay = some s.today)
  reviewed : s.app.eodDone = true → s.history.resetDay = some s.today →
    s.history.reviewedDay = some s.today
  since : s.SinceReset
  law : s.RolledOver

/-- `s'` is at the same point of the day as `s`: same clock, flags and history, no new cycle or approval. -/
structure SamePoint (s s' : TradingEngine) : Prop where
  now : s'.now = s.now
  calendar : s'.calendar = s.calendar
  premarketDone : s'.app.premarketDone = s.app.premarketDone
  eodDone : s'.app.eodDone = s.app.eodDone
  pending : ∀ p ∈ s'.app.pendingApprovals, p ∈ s.app.pendingApprovals
  cycle : ∀ day session suspended, s'.decision = .cycle day session suspended →
    ∃ before, s.decision = .cycle day session before
  attendedDay : s'.history.attendedDay = s.history.attendedDay
  resetDay : s'.history.resetDay = s.history.resetDay
  reviewedDay : s'.history.reviewedDay = s.history.reviewedDay
  since : s.SinceReset → s'.SinceReset
  attempts : s'.history.attempts = s.history.attempts
  skipped : s'.history.skipped = s.history.skipped

variable {s s' : TradingEngine}

theorem SamePoint.today (h : SamePoint s s') : s'.today = s.today := by
  rw [TradingEngine.today, h.now, h.calendar]
  rfl

theorem SamePoint.session (h : SamePoint s s') : s'.session = s.session := by
  rw [TradingEngine.session, h.now, h.calendar]
  rfl

theorem RollInv.samePoint (h : s.RollInv) (hsame : SamePoint s s') : s'.RollInv := by
  have htoday := hsame.today
  constructor
  · rw [hsame.attendedDay, htoday]
    exact h.attended_le
  · rw [hsame.resetDay, htoday]
    exact h.reset_le
  · rw [hsame.calendar, hsame.now, hsame.attendedDay, htoday]
    exact h.opened
  · rw [hsame.premarketDone, hsame.attendedDay, hsame.resetDay, htoday]
    exact h.planned
  · rw [hsame.resetDay, htoday]
    intro day session suspended hdecision
    obtain ⟨before, hbefore⟩ := hsame.cycle day session suspended hdecision
    exact h.cycle day session before hbefore
  · rw [hsame.resetDay, htoday, hsame.now, hsame.calendar, hsame.session]
    exact fun p hp => h.pending p (hsame.pending p hp)
  · rw [hsame.eodDone, hsame.resetDay, hsame.reviewedDay, htoday]
    exact h.reviewed
  · exact hsame.since h.since
  · refine ⟨?_, ?_⟩
    · rw [hsame.attempts]
      exact h.law.entries
    · rw [hsame.skipped]
      exact h.law.reviews

/-! ### Steps at the same point of the day -/

theorem Calm.samePoint (h : Calm s s') : SamePoint s s' where
  now := h.now
  calendar := h.calendar
  premarketDone := h.app.premarketDone
  eodDone := h.app.eodDone
  pending := h.app.pending
  cycle := h.cycle
  attendedDay := h.same History.attendedDay fun _ _ => rfl
  resetDay := h.resetDay
  reviewedDay := h.same History.reviewedDay fun _ _ => rfl
  since := h.since
  attempts := h.same History.attempts fun _ _ => rfl
  skipped := h.same History.skipped fun _ _ => rfl

theorem RollInv.calm (h : s.RollInv) (hcalm : Calm s s') : s'.RollInv := h.samePoint hcalm.samePoint

theorem SamePoint.refl (s : TradingEngine) : SamePoint s s :=
  ⟨rfl, rfl, rfl, rfl, fun _ hp => hp, fun _ _ suspended h => ⟨suspended, h⟩, rfl, rfl, rfl, id, rfl, rfl⟩

theorem samePoint_noteVerdict (s : TradingEngine) (symbol : String) (verdict : RiskVerdict) :
    SamePoint s (s.noteVerdict symbol verdict) := by
  rcases s.noteVerdict_cases symbol verdict with ⟨_, heq⟩ | ⟨_, heq⟩
  · rw [heq]
    exact .refl s
  · rw [heq]
    refine ⟨rfl, rfl, rfl, rfl, fun _ hp => hp, fun _ _ suspended h => ⟨suspended, h⟩, rfl, rfl, rfl,
      fun h r hr => ?_, rfl, rfl⟩
    -- the counter and the list of approved entries both grow by one
    obtain ⟨hequity, htrades, hflag⟩ := h r hr
    refine ⟨hequity, ?_, hflag⟩
    show s.app.tradesToday + 1 = ((s.history.approved ++ [s.today]).length : ℤ) - r.before
    rw [htrades, List.length_append, List.length_singleton]
    push_cast
    ring

theorem RollInv.elsewhere (h : s.RollInv) {running : Bool} {gateway : Gateway} {store : StateStore}
    {schedule : ScheduleAt} {decision : DecisionAt} {approvals : List Submission} {risk : RiskEngine}
    {orders : OrderManager} {task : FastAt} (hflag : risk.dailyLossTripped = s.risk.dailyLossTripped)
    (hcycle : ∀ day session suspended, decision = .cycle day session suspended →
      ∃ before, s.decision = .cycle day session before) :
    RollInv { s with running, gateway, store, schedule, decision, approvals, risk, orders, task } :=
  h.samePoint ⟨rfl, rfl, rfl, rfl, fun _ hp => hp, hcycle, rfl, rfl, rfl,
    fun hsince => hsince.of_same (.refl _) hflag rfl rfl, rfl, rfl⟩

theorem RollInv.withApp (h : s.RollInv) {app : AppState} (happ : s.app.SameDay app) :
    RollInv { s with app } :=
  h.samePoint ⟨rfl, rfl, happ.premarketDone, happ.eodDone, happ.pending, s.same_cycle, rfl, rfl, rfl,
    fun hsince => hsince.of_same happ rfl rfl rfl, rfl, rfl⟩

theorem RollInv.finishEntry (h : s.RollInv) (entry : Submission)
    (reply : Except String (List BrokerOrderStatus)) : (s.finishEntry entry reply).RollInv := by
  have hmoved : RollInv { s with
      orders := (s.desk.finish entry reply s.now).1.orders
      risk := (s.desk.finish entry reply s.now).1.risk } :=
    h.elsewhere (s.desk.dailyLossTripped_finish s.now entry reply) s.same_cycle
  exact hmoved.samePoint (samePoint_noteVerdict _ _ _)

/-! ### Steps that move the day -/

theorem RollInv.advanced (h : s.RollInv) {now : Now} (hle : s.now.epoch ≤ now.epoch)
    (hon : s.AlwaysOn (.advanced now) = true) : RollInv { s with now } := by
  have hmono : s.today ≤ s.calendar.etDate now.epoch := s.calendar.etDate_mono hle
  -- what was recorded for the new day was recorded today
  have hsame : ∀ {day : ℤ}, day ≤ s.today → day = s.calendar.etDate now.epoch →
      s.calendar.etDate now.epoch = s.today :=
    fun hday heq => le_antisymm (heq ▸ hday) hmono
  constructor
  · exact h.attended_le.trans hmono
  · exact fun day hday => (h.reset_le day hday).trans hmono
  · intro hopen
    have hattended : s.history.attendedDay = s.calendar.etDate now.epoch := by
      simpa [AlwaysOn, show s.calendar.Opened now.epoch from hopen] using hon
    exact hattended
  · intro hdone hattended
    have htoday := hsame h.attended_le hattended
    show s.history.resetDay = some (s.calendar.etDate now.epoch)
    rw [htoday]
    exact h.planned hdone (hattended.trans htoday)
  · intro day session suspended hdecision
    obtain ⟨hday, hreset⟩ := h.cycle day session suspended hdecision
    refine ⟨hday.trans hmono, fun heq => ?_⟩
    have htoday := hsame hday heq
    show s.history.resetDay = some (s.calendar.etDate now.epoch)
    rw [htoday]
    exact hreset (heq.trans htoday)
  · intro p hp
    obtain ⟨hcreated, hreset⟩ := h.pending p hp
    refine ⟨hcreated.trans hle, fun hkind htrading heq => ?_⟩
    have htoday := hsame (s.calendar.etDate_mono hcreated) heq
    have htrading' : s.session.isTradingDay = true := by
      have hbounds := (s.calendar.isTradingDay_info now.epoch).symm.trans htrading
      rw [htoday] at hbounds
      exact (s.calendar.isTradingDay_info s.now.epoch).trans hbounds
    show s.history.resetDay = some (s.calendar.etDate now.epoch)
    rw [htoday]
    exact hreset hkind htrading' (heq.trans htoday)
  · intro hdone hreset
    have htoday := hsame (h.reset_le _ hreset) rfl
    have hreviewed := h.reviewed hdone (hreset.trans (congrArg some htoday))
    exact hreviewed.trans (congrArg some htoday.symm)
  · exact h.since
  · exact ⟨h.law.entries, h.law.reviews⟩

theorem RollInv.notePlan (h : s.RollInv) (account : AccountSnapshot) :
    ((s.resetForNewSession account).notePlan account).RollInv where
  attended_le := h.attended_le
  reset_le := by
    intro day hday
    exact (Option.some.inj hday).ge
  opened := h.opened
  planned := fun _ _ => rfl
  cycle := fun day session suspended hdecision => ⟨(h.cycle day session suspended hdecision).1, fun _ => rfl⟩
  pending := fun p hp => nomatch hp
  reviewed := fun hdone => nomatch hdone
  since := by
    intro r hr
    obtain rfl := Option.some.inj hr
    exact ⟨rfl, (sub_self _).symm, rfl⟩
  law := ⟨h.law.entries, h.law.reviews⟩

theorem RollInv.planned_of (h : s.RollInv) {loop : PlanningLoop} {ok : Bool}
    (hroll : s.RollsOver (.planned loop ok) = true) : (s.planned loop ok).RollInv := by
  unfold TradingEngine.planned
  split_ifs with hplanning
  · refine RollInv.calm ?_ (calm_rest _ loop)
    cases ok with
    | false =>
      refine h.samePoint ⟨rfl, rfl, Bool.or_false _, rfl, fun _ hp => hp,
        fun _ _ suspended h => ⟨suspended, h⟩, rfl, rfl, rfl, id, rfl, rfl⟩
    | true =>
      refine ⟨h.attended_le, h.reset_le, h.opened, fun _ hattended => ?_, h.cycle, h.pending, h.reviewed, h.since,
        ⟨h.law.entries, h.law.reviews⟩⟩
      have hattended : s.history.attendedDay = s.today := hattended
      have hreset : s.history.resetDay = some s.today := by
        simpa [RollsOver, hplanning, hattended, ResetToday] using hroll
      exact hreset
  · exact h

theorem RollInv.attend (h : s.RollInv)
    (hdown : s.app.premarketDone = true → s.history.resetDay = some s.today) :
    RollInv { s with history := { s.history with attendedDay := s.today } } where
  attended_le := le_rfl
  reset_le := h.reset_le
  opened := fun _ => rfl
  planned := fun hdone _ => hdown hdone
  cycle := h.cycle
  pending := h.pending
  reviewed := h.reviewed
  since := h.since
  law := ⟨h.law.entries, h.law.reviews⟩

theorem RollInv.scheduleTick (h : s.RollInv) (hidle : s.schedule = .idle)
    (hroll : s.RollsOver .scheduleTicked = true) : s.scheduleTick.RollInv := by
  unfold TradingEngine.scheduleTick
  dsimp only
  split_ifs with hclosed hphase hdue hreview hdone
  · exact h
  · -- the planning pass starts
    have hdown : s.app.premarketDone = false := by
      simpa using (Bool.and_eq_true_iff.mp hdue).1
    have hattended := h.attend fun hup => by rw [hdown] at hup; cases hup
    exact hattended.calm (calm_suspendIn _ .schedule .fetching)
  · refine h.attend fun hup => ?_
    simp only [Bool.or_eq_true, Bool.not_eq_true', not_or] at hclosed
    simpa [RollsOver, hidle, hclosed, hphase, hup, ResetToday, reviewDue] using hroll
  · -- the review is skipped
    simp only [Bool.or_eq_true, Bool.not_eq_true', not_or] at hclosed
    have hreset : s.history.resetDay = some s.today := by
      simpa [RollsOver, hidle, hclosed, hphase, hreview, hdone, ResetToday] using hroll
    refine ⟨h.attended_le, h.reset_le, h.opened, h.planned, h.cycle, h.pending, h.reviewed, h.since,
      ⟨h.law.entries, fun r hr => ?_⟩⟩
    rcases List.mem_append.mp hr with hr | hr
    · exact h.law.reviews r hr
    · rw [List.mem_singleton.mp hr]
      exact h.reviewed hdone hreset
  · exact h.elsewhere rfl s.same_cycle
  · exact h

theorem RollInv.eodReviewed (h : s.RollInv) {ok : Bool} (hroll : s.RollsOver (.eodReviewed ok) = true) :
    (s.eodReviewed ok).RollInv := by
  unfold TradingEngine.eodReviewed
  cases hschedule : s.schedule with
  | eodReviewing day =>
    dsimp only
    split_ifs with hok
    · refine ⟨h.attended_le, h.reset_le, h.opened, h.planned, h.cycle, h.pending, fun _ hreset => ?_, h.since,
        ⟨h.law.entries, h.law.reviews⟩⟩
      have hreset : s.history.resetDay = some s.today := hreset
      have hday : day = s.today := by
        simpa [RollsOver, hschedule, hok, ResetToday, hreset] using hroll
      exact congrArg some hday
    · exact h.elsewhere rfl s.same_cycle
  | idle => exact h
  | premarket suspended => exact h
  | eodFetching day => exact h

theorem RollInv.decisionTick (h : s.RollInv) (deterministicOnly : Bool) :
    (s.decisionTick deterministicOnly).RollInv := by
  unfold TradingEngine.decisionTick
  have hlooked : RollInv { s with risk := s.risk.lookSwitch s.now } := h.elsewhere rfl s.same_cycle
  dsimp only
  split_ifs with hclosed htripped hdown hdeterministic
  · exact h
  · exact hlooked
  · exact hlooked.calm (calm_suspendIn _ .decision .fetching)
  · exact hlooked
  · simp only [Bool.or_eq_true, Bool.not_eq_true', not_or, Bool.not_eq_false] at hclosed
    have hopened : s.calendar.Opened s.now.epoch :=
      MarketCalendar.opened_of_isTradeable hclosed.1
    have hreset : s.history.resetDay = some s.today :=
      h.planned (by simpa using hdown) (h.opened hopened)
    refine ⟨h.attended_le, h.reset_le, h.opened, h.planned, fun day session suspended hdecision => ?_,
      h.pending, h.reviewed, h.since, ⟨h.law.entries, h.law.reviews⟩⟩
    cases hdecision
    exact ⟨le_rfl, fun _ => hreset⟩

theorem dailyLossTripped_submit (s : TradingEngine) (order : SizedOrder) (ctx : RiskContext) (cycleId : String) :
    (s.submit order ctx cycleId).1.risk.dailyLossTripped =
      (s.risk.dailyLossTripped || RiskEngine.breaches s.risk.cfg ctx.account ctx.startingEquity) :=
  s.desk.dailyLossTripped_submit order ctx cycleId s.now

theorem RollInv.submitted (h : s.RollInv) {order : SizedOrder} {account : AccountSnapshot} {session : SessionInfo}
    {i : EntryInputs} {cycleId : String}
    (hreset : s.session.isTradingDay = true → s.history.resetDay = some s.today) :
    (s.submit order (s.context account session i) cycleId).1.RollInv := by
  obtain ⟨placed, risk, orders, heq, _, _⟩ := s.submit_cases order (s.context account session i) cycleId
  have hflag := s.dailyLossTripped_submit order (s.context account session i) cycleId
  rw [heq] at hflag ⊢
  -- the gate has looked at the loss
  have hlooked : RollInv { s with
      risk, orders
      history := s.history.noteLoss (RiskEngine.breaches s.risk.cfg account s.app.startingEquity) } := by
    refine h.samePoint ⟨rfl, rfl, rfl, rfl, fun _ hp => hp, s.same_cycle, rfl, s.history.resetDay_noteLoss _, rfl,
      fun hsince r hr => ?_, rfl, rfl⟩
    obtain ⟨r, hbefore, rfl⟩ := Option.map_eq_some_iff.mp hr
    obtain ⟨hequity, htrades, hbreached⟩ := hsince r hbefore
    exact ⟨hequity, htrades, hflag.trans (congrArg (· || _) hbreached)⟩
  refine ⟨hlooked.attended_le, hlooked.reset_le, hlooked.opened, hlooked.planned, hlooked.cycle, hlooked.pending,
    hlooked.reviewed, hlooked.since, ⟨fun a ha htrading => ?_, h.law.reviews⟩⟩
  rcases List.mem_append.mp ha with ha | ha
  · exact h.law.entries a ha htrading
  · obtain rfl := List.mem_singleton.mp ha
    obtain ⟨r, hr, hday⟩ := Option.map_eq_some_iff.mp (hreset htrading)
    obtain ⟨hequity, htrades, hbreached⟩ := h.since r hr
    exact ⟨r, hr, ⟨hday, hequity, htrades, hbreached⟩⟩

theorem RollInv.proposed (h : s.RollInv) {order : SizedOrder} {i : EntryInputs}
    {cycleId approvalId : String} (hroll : s.RollsOver (.proposed order i cycleId approvalId) = true) :
    (s.proposed order i cycleId approvalId).RollInv := by
  unfold TradingEngine.proposed
  split
  · rename_i day session account hdecision
    have hreset : s.session.isTradingDay = true → s.history.resetDay = some s.today := by
      intro htrading
      have hday : day = s.today := by simpa [RollsOver, hdecision, htrading] using hroll
      exact (h.cycle day session _ hdecision).2 hday
    split_ifs with hmanual
    · refine ⟨h.attended_le, h.reset_le, h.opened, h.planned, h.cycle, fun p hp => ?_, h.reviewed,
        h.since, ⟨h.law.entries, h.law.reviews⟩⟩
      rcases List.mem_append.mp hp with hp | hp
      · exact h.pending p hp
      · rw [List.mem_singleton.mp hp]
        exact ⟨le_rfl, fun _ htrading _ => hreset htrading⟩
    · have hsubmitted : (s.submit order (s.context account session i) cycleId).1.RollInv :=
        h.submitted hreset
      dsimp only
      split
      · exact hsubmitted.samePoint (samePoint_noteVerdict _ _ _)
      · refine hsubmitted.elsewhere rfl fun day' session' suspended heq => ?_
        cases heq
        exact ⟨_, (decision_submit s order _ cycleId).trans hdecision⟩
  · exact h

theorem RollInv.clicked (h : s.RollInv) {id : String} {resized : Option SizedOrder} {i : EntryInputs}
    (hroll : s.RollsOver (.clicked id resized i) = true) : (s.clicked id resized i).RollInv := by
  unfold TradingEngine.clicked
  cases hfind : s.app.pendingApprovals.find? fun p => p.id = id with
  | none => exact h
  | some approval =>
    have hmem : approval ∈ s.app.pendingApprovals := List.mem_of_find?_eq_some hfind
    have hsame : s.app.SameDay
        { s.app with pendingApprovals := s.app.pendingApprovals.erase approval } :=
      ⟨rfl, rfl, rfl, rfl, fun _ hp => List.mem_of_mem_erase hp⟩
    have hremoved := h.withApp hsame
    dsimp only
    split
    · rename_i hkind _ _
      have hreset : s.session.isTradingDay = true → s.history.resetDay = some s.today := by
        intro htrading
        have hday : s.calendar.etDate approval.createdAt = s.today := by
          simpa [RollsOver, hfind, hkind, htrading] using hroll
        exact (h.pending approval hmem).2 hkind htrading hday
      split
      · exact (hremoved.submitted hreset).samePoint (samePoint_noteVerdict _ _ _)
      · exact (hremoved.submitted hreset).elsewhere rfl (same_cycle _)
    · exact hremoved

theorem RollInv.cyclePlaced (h : s.RollInv) (reply : Except String (List BrokerOrderStatus)) :
    (s.cyclePlaced reply).RollInv := by
  unfold TradingEngine.cyclePlaced
  split
  · rename_i day session account entry hdecision
    have hmoved : RollInv { s with decision := .cycle day session (.deciding account) } := by
      refine h.elsewhere rfl fun day' session' suspended heq => ?_
      cases heq
      exact ⟨_, hdecision⟩
    exact hmoved.finishEntry entry reply
  · exact h

theorem RollInv.closeProposed (h : s.RollInv) (symbol : String) (p : Position)
    (cycleId approvalId : String) : (s.closeProposed symbol p cycleId approvalId).RollInv := by
  unfold TradingEngine.closeProposed
  split
  · refine ⟨h.attended_le, h.reset_le, h.opened, h.planned, h.cycle, fun q hq => ?_, h.reviewed,
      h.since, ⟨h.law.entries, h.law.reviews⟩⟩
    rcases List.mem_append.mp hq with hq | hq
    · exact h.pending q hq
    · rw [List.mem_singleton.mp hq]
      exact ⟨le_rfl, fun hkind => nomatch hkind⟩
  · exact h

theorem RollInv.act (h : s.RollInv) (e : Event) (hroll : s.RollsOver e = true) :
    (s.act e).RollInv := by
  cases e with
  | gateway e =>
    exact h.samePoint ⟨rfl, rfl, rfl, rfl, fun _ hp => hp, s.same_cycle, rfl, rfl, rfl, id, rfl, rfl⟩
  | scheduleTicked =>
    unfold TradingEngine.act
    dsimp only
    split_ifs with hidle
    · exact h.scheduleTick hidle hroll
    · exact h
  | planFetched loop reply =>
    show (s.planFetched loop reply).RollInv
    unfold TradingEngine.planFetched
    split_ifs
    · cases reply with
      | ok account => exact (h.notePlan account).calm (calm_suspendIn _ loop .planning)
      | error error => exact h.calm (calm_rest s loop)
    · exact h
  | planned loop ok => exact h.planned_of hroll
  | eodReviewed ok => exact h.eodReviewed hroll
  | decisionTicked deterministicOnly =>
    unfold TradingEngine.act
    dsimp only
    split
    · exact h.decisionTick deterministicOnly
    · exact h
  | proposed order i cycleId approvalId => exact h.proposed hroll
  | cyclePlaced reply => exact h.cyclePlaced reply
  | closeProposed symbol p cycleId approvalId => exact h.closeProposed symbol p cycleId approvalId
  | clicked id resized i => exact h.clicked hroll
  | approvalPlaced i reply =>
    show (s.approvalPlaced i reply).RollInv
    unfold TradingEngine.approvalPlaced
    split
    · have hmoved : RollInv { s with approvals := s.approvals.eraseIdx i } := h.elsewhere rfl s.same_cycle
      exact hmoved.finishEntry _ reply
    · exact h
  | _ => exact h.calm (calm_act s rfl)

theorem RollInv.step (h : s.RollInv) (e : Event) (hon : s.AlwaysOn e = true)
    (hroll : s.RollsOver e = true) : (s.step e).RollInv := by
  refine step_cases h (fun now he hle => ?_) (fun orders accountId reply he => ?_) (h.act e hroll)
  · rw [he] at hon
    exact h.advanced hle hon
  · rw [he] at hon
    cases hon

/-- The engine is started once, on whatever the store holds. -/
def started (cfg : StrategyConfig) (isLive : Bool) (calendar : MarketCalendar) (now : Now)
    (killSwitch : KillSwitch) (store : StateStore) (positions : Dict String Position)
    (orders : OrderManager) (accountId : String) (account : AccountSnapshot) : TradingEngine :=
  (off cfg isLive calendar now killSwitch store positions).restarted orders accountId (.ok account)

theorem rollInv_started (cfg : StrategyConfig) (isLive : Bool) (calendar : MarketCalendar) (now : Now)
    (killSwitch : KillSwitch) (store : StateStore) (positions : Dict String Position)
    (orders : OrderManager) (accountId : String) (account : AccountSnapshot) :
    (started cfg isLive calendar now killSwitch store positions orders accountId account).RollInv := by
  have hnone : ∀ {p : PendingApproval} {P : Prop}, p ∈ ([] : List PendingApproval) → P := fun hp => nomatch hp
  unfold started restarted
  dsimp only
  split
  · exact ⟨le_rfl, fun _ hday => (nomatch hday), fun _ => rfl, fun hdone => (nomatch hdone),
      fun _ _ _ h => (nomatch h), fun _ hp => hnone hp, fun hdone => (nomatch hdone),
      fun _ hr => (nomatch hr), ⟨fun _ ha => (nomatch ha), fun _ hr => (nomatch hr)⟩⟩
  · exact ⟨le_rfl, fun _ hday => (nomatch hday), fun _ => rfl, fun hdone => (nomatch hdone),
      fun _ _ _ h => (nomatch h), fun _ hp => hnone hp, fun hdone => (nomatch hdone),
      fun _ hr => (nomatch hr), ⟨fun _ ha => (nomatch ha), fun _ hr => (nomatch hr)⟩⟩

/-- **Daily state rolls over** in every run of the always-on engine whose steps meet the condition. -/
theorem daily_state_rolls_over (cfg : StrategyConfig) (isLive : Bool) (calendar : MarketCalendar)
    (now : Now) (killSwitch : KillSwitch) (store : StateStore) (positions : Dict String Position)
    (orders : OrderManager) (accountId : String) (account : AccountSnapshot) (events : List Event)
    (hon : Trace.Each step (fun s e => s.AlwaysOn e = true)
      (started cfg isLive calendar now killSwitch store positions orders accountId account) events)
    (hroll : Trace.Each step (fun s e => s.RollsOver e = true)
      (started cfg isLive calendar now killSwitch store positions orders accountId account) events) :
    Trace.Always step RolledOver
      (started cfg isLive calendar now killSwitch store positions orders accountId account) events := by
  have hstep : ∀ s e, RollInv s → s.AlwaysOn e = true ∧ s.RollsOver e = true → RollInv (s.step e) :=
    fun _ e h hC => h.step e hC.1 hC.2
  exact Trace.always_of_inductive hstep (fun _ h => h.law)
    (rollInv_started cfg isLive calendar now killSwitch store positions orders accountId account)
    (Trace.each_and hon hroll)

/-! ### Two days -/

/-- Every day has a session from 14:30 to 21:00. -/
def dailySessions : MarketCalendar where
  sessionBounds day := some (day * 86400 + 52200, day * 86400 + 75600)
  etDate t := ⌊t / 86400⌋
  etDate_mono := MarketCalendar.utcDay_mono

def clock (day seconds : ℚ) : Now := .sample (day * 86400 + seconds) (day * 86400 + seconds)

def accountAt (now : Now) (equity : ℚ) : AccountSnapshot where
  accountId := "DU1"
  equity
  cash := equity
  buyingPower := equity
  asOf := now.epoch

def smallEntry (symbol : String) : SizedOrder where
  proposal := { symbol, action := .buy, conviction := 1, horizonMinutes := 60 }
  symbol
  action := .buy
  quantity := 10
  entryPrice := 100
  stopPrice := 97
  targetPrice := 106
  riskAmount := 30
  notional := 1000

def entryInputs (symbol : String) (now : Now) : EntryInputs where
  quote := some { symbol, bid := some (9999 / 100), ask := some 100, updatedAt := now.epoch }
  avgVolume := 1000000

/-- Started before the open of day 0 with an equity of 100000. -/
def dayZero : TradingEngine :=
  started {} false dailySessions (clock 0 45000) {} {} Dict.empty {} "DU1"
    (accountAt (clock 0 45000) 100000)

/-- The planning pass, as the schedule loop runs it. -/
def planningPass (now : Now) : List Event :=
  [.scheduleTicked, .planFetched .schedule (.ok (accountAt now 100000)), .planned .schedule true]

/-- One cycle with one entry. -/
def entryCycle (symbol : String) (now : Now) : List Event :=
  [.advanced now, .decisionTicked false, .cycleFetched (.ok (accountAt now 100000)),
    .proposed (smallEntry symbol) (entryInputs symbol now) "c1" "a1", .cyclePlaced (.ok []), .cycleEnded]

/-- The review, as the schedule loop runs it. -/
def eveningReview (now : Now) : List Event :=
  [.advanced now, .scheduleTicked, .eodFetched (.ok (accountAt now 100000)), .eodReviewed true]

def oneDay : List Event :=
  planningPass (clock 0 45000) ++ entryCycle "AAPL" (clock 0 56000) ++ eveningReview (clock 0 76000)

theorem daily_state_rolls_over_oneDay : Trace.Always step RolledOver dayZero oneDay :=
  daily_state_rolls_over {} false dailySessions (clock 0 45000) {} {} Dict.empty {} "DU1"
    (accountAt (clock 0 45000) 100000) oneDay (by decide +kernel) (by decide +kernel)

/-- The second day: the schedule ticks before the open and after the close, with one cycle between. -/
def secondDay : List Event :=
  [.advanced (clock 1 45000), .scheduleTicked] ++ entryCycle "MSFT" (clock 1 56000) ++
    [.advanced (clock 1 76000), .scheduleTicked]

/-- An entry of day 1 on the baseline and the counter of day 0. -/
def staleAttempt : Attempt where
  day := 1
  isTradingDay := true
  startingEquity := 100000
  tradesToday := 1
  dailyLossTripped := false
  reset := some { day := 0, equity := 100000, before := 0 }
  approved := 1
  tradeable := true
  placed := true

/-- `premarket_done` is still up from day 0: day 1 has no planning pass, its entry is placed on the
baseline, counter and flag of day 0, and its review is skipped. -/
theorem second_day_keeps_the_first :
    Trace.Each step (fun s e => s.AlwaysOn e = true) dayZero (oneDay ++ secondDay) ∧
      (Trace.run step dayZero (oneDay ++ secondDay)).history.attempts.getLast? =
        some staleAttempt ∧
      (Trace.run step dayZero (oneDay ++ secondDay)).history.skipped =
        [{ day := 1, reviewedDay := some 0 }] ∧
      ¬ Trace.Always step RolledOver dayZero (oneDay ++ secondDay) := by
  have hattempt : (Trace.run step dayZero (oneDay ++ secondDay)).history.attempts.getLast? =
      some staleAttempt := by
    decide +kernel
  have hskipped : (Trace.run step dayZero (oneDay ++ secondDay)).history.skipped =
      [{ day := 1, reviewedDay := some 0 }] := by
    decide +kernel
  refine ⟨by decide +kernel, hattempt, hskipped, fun h => ?_⟩
  obtain ⟨r, hr, huses⟩ := h.last.entries _ (List.mem_of_getLast? hattempt) rfl
  obtain rfl := Option.some.inj hr
  exact absurd huses.day (by decide)

end TradingEngine

end AiTrader
