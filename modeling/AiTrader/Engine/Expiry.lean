import AiTrader.Engine.Approvals
import AiTrader.Engine.EntryCaps

/-!
# The age of an approval

How long a trade idea waits for its answer is limited in one place: `_expire_stale_approvals`, the last thing a
fast tick does. A tick that finds the broker disconnected returns before it, and one that has orders to cancel
or positions to close gets there when the broker has answered. `approve_proposal` does not look at the age.

`ExpiryRun` keeps when the last sweep ended. What is still queued had not timed out then (`ExpiryRun.Inv`), so
whether a click executes an idea that is too old depends on the time between that sweep and the click
(`no_stale_execution_iff`).

A sweep keeps only ideas that are young (`swept_of_sweeps`), and each segment of a tick either ends with one or leaves
the queue to a later segment (`endsSwept_tick` and its relatives, one for each place where a tick is suspended). Time
does not go back, and ideas are queued with the time of the moment; so an idea in the queue is at most as old as the
time since the last sweep and the age it had then (`age_le_of_sweeps`).
-/

namespace AiTrader

open Lib

/-! ### Sweeps -/

def FastAt.isIdle : FastAt → Bool
  | .idle => true
  | _ => false

namespace FastLoop

/-- Everything in the queue is as young at `now` as a trade idea may be. -/
def Swept (now : Now) (s : FastLoop) : Prop :=
  ∀ p ∈ s.app.pendingApprovals, p.ageSeconds now.epoch ≤ s.cfg.cadence.approvalTimeoutSeconds

/-- If the tick is over, it has swept. -/
def EndsSwept (now : Now) (s : FastLoop) : Prop := s.task.isIdle = true → s.Swept now

/-- The step brings a tick to its end. -/
def sweeps (s : FastLoop) : Event → Bool
  | .ticked connected now quotes =>
    s.task.isIdle && connected && s.app.account.isSome && (s.tick now quotes connected).task.isIdle
  | .cancelReturned ok now quotes => !s.task.isIdle && (s.cancelReturned now quotes ok).task.isIdle
  | .placeReturned reply now quotes =>
    !s.task.isIdle && (s.placeReturned now quotes reply).task.isIdle
  | _ => false

/-- The event, at the clock of the process. -/
def Event.stamp (now : Now) : Event → Event
  | .ticked connected _ quotes => .ticked connected now quotes
  | .cancelReturned ok _ quotes => .cancelReturned ok now quotes
  | .placeReturned reply _ quotes => .placeReturned reply now quotes
  | .status report _ => .status report now
  | e => e

variable {s : FastLoop} {reason : String} {now : Now} {quotes : String → Option Quote} {eodNext : Bool}
  {after : FastLoop → FastLoop}

theorem swept_expireApprovals (s : FastLoop) (now : Now) : (s.expireApprovals now).Swept now := by
  intro p hp
  have hkept := (List.mem_filter.mp hp).2
  rw [Bool.not_eq_true', decide_eq_false_iff_not, not_lt] at hkept
  exact hkept

theorem endsSwept_expireFrom (s : FastLoop) (began : ℚ) (refs : List String) :
    (s.expireFrom began refs now).EndsSwept now := by
  unfold expireFrom
  split
  · exact fun h => (nomatch h)
  · exact fun _ => swept_expireApprovals s now

theorem endsSwept_cancelThenExit (s : FastLoop) (symbol : String) (p : Position) (refs : List String)
    (left : List (String × Position)) :
    (s.cancelThenExit reason now quotes eodNext symbol p refs left).EndsSwept now := by
  unfold cancelThenExit
  split <;> exact fun h => (nomatch h)

theorem endsSwept_closeNext (hafter : (after s).EndsSwept now) (left : List (String × Position)) :
    (s.closeNext reason now quotes eodNext after left).EndsSwept now := by
  cases left with
  | nil => exact hafter
  | cons e left => exact s.endsSwept_cancelThenExit e.1 e.2 _ left

theorem endsSwept_cancelThenClose (hafter : (after s).EndsSwept now) (refs : List String)
    (left : List (String × Position)) :
    (s.cancelThenClose reason now quotes eodNext after refs left).EndsSwept now := by
  unfold cancelThenClose
  split
  · exact fun h => (nomatch h)
  · exact endsSwept_closeNext hafter left

theorem endsSwept_flattenAll (hafter : (after s).EndsSwept now) :
    (s.flattenAll reason now quotes eodNext after).EndsSwept now := by
  unfold flattenAll
  split
  · exact hafter
  · exact endsSwept_cancelThenClose hafter _ _

theorem endsSwept_afterFlatten (s : FastLoop) : (afterFlatten now quotes eodNext s).EndsSwept now := by
  unfold afterFlatten
  split_ifs
  · exact endsSwept_flattenAll (s.endsSwept_expireFrom _ _)
  · exact s.endsSwept_expireFrom _ _

theorem endsSwept_tick {account : AccountSnapshot} (h : s.app.account = some account) :
    (s.tick now quotes true).EndsSwept now := by
  unfold tick flattenDue
  dsimp only
  rw [h]
  dsimp only
  split_ifs
  · exact endsSwept_flattenAll (endsSwept_afterFlatten _)
  · exact endsSwept_afterFlatten _

theorem endsSwept_cancelReturned {ok : Bool} (h : s.task.isIdle = false) :
    (s.cancelReturned now quotes ok).EndsSwept now := by
  unfold cancelReturned
  split
  · rename_i htask
    rw [htask] at h
    cases h
  · exact endsSwept_expireFrom _ _ _
  · rename_i eodNext f htask
    split
    · exact endsSwept_cancelThenClose (endsSwept_afterFlatten _) _ _
    · exact endsSwept_cancelThenExit _ _ _ _ _
    · intro hidle
      rw [hidle] at h
      cases h

theorem endsSwept_placeReturned {reply : Except String BrokerOrderStatus} (h : s.task.isIdle = false) :
    (s.placeReturned now quotes reply).EndsSwept now := by
  have hbusy : s.EndsSwept now := by
    intro hidle
    rw [hidle] at h
    cases h
  unfold placeReturned
  split
  · split
    · exact endsSwept_closeNext (endsSwept_afterFlatten _) _
    · exact hbusy
  · exact hbusy

/-- **What is left after a sweep is young.** -/
theorem swept_of_sweeps {e : Event} (h : s.sweeps (e.stamp now) = true) : (s.step (e.stamp now)).Swept now := by
  cases e with
  | ticked connected now' quotes =>
    simp only [sweeps, Event.stamp, Bool.and_eq_true] at h
    obtain ⟨⟨⟨hidle, rfl⟩, haccount⟩, hends⟩ := h
    obtain ⟨account, haccount⟩ := Option.isSome_iff_exists.mp haccount
    have hstep : s.step (.ticked true now quotes) = s.tick now quotes true := by
      unfold FastLoop.step
      cases htask : s.task with
      | idle => rfl
      | _ =>
        rw [htask] at hidle
        cases hidle
    rw [Event.stamp, hstep]
    exact endsSwept_tick haccount hends
  | cancelReturned ok now' quotes =>
    simp only [sweeps, Event.stamp, Bool.and_eq_true, Bool.not_eq_true'] at h
    exact endsSwept_cancelReturned h.1 h.2
  | placeReturned reply now' quotes =>
    simp only [sweeps, Event.stamp, Bool.and_eq_true, Bool.not_eq_true'] at h
    exact endsSwept_placeReturned h.1 h.2
  | _ => cases h

end FastLoop

/-! ### One step of the engine -/

namespace TradingEngine

variable (s : TradingEngine)

/-- The event, at the clock of the process. -/
def stamp (e : Event) : Event :=
  match e with
  | .fast e => .fast (e.stamp s.now)
  | e => e

/-- The step brings a fast tick to its end. -/
def sweeps (e : Event) : Bool :=
  match e with
  | .fast e => s.running && s.toFastLoop.sweeps e
  | _ => false

theorem steady_act (e : Event) : (s.act e).cfg = s.cfg ∧ (s.act e).now = s.now := by
  by_cases hcalm : e.isCalm = true
  · exact ⟨(calm_act s hcalm).cfg, (calm_act s hcalm).now⟩
  by_cases hentry : isEntry e = true
  · obtain ⟨n, hnoted⟩ := (@entered_act s e hentry).noted
    exact ⟨hnoted.cfg, hnoted.now⟩
  by_cases hroutine : e.isRoutine = true
  · exact ⟨(routine_act s hroutine).cfg, (routine_act s hroutine).now⟩
  cases e with
  | planFetched loop reply =>
    show (s.planFetched loop reply).cfg = s.cfg ∧ (s.planFetched loop reply).now = s.now
    unfold planFetched
    split_ifs
    · cases reply with
      | ok account => cases loop <;> exact ⟨rfl, rfl⟩
      | error error => exact ⟨(s.routine_rest loop).cfg, (s.routine_rest loop).now⟩
    · exact ⟨rfl, rfl⟩
  | closeProposed symbol p cycleId approvalId =>
    show (s.closeProposed symbol p cycleId approvalId).cfg = s.cfg ∧
      (s.closeProposed symbol p cycleId approvalId).now = s.now
    unfold closeProposed
    split <;> exact ⟨rfl, rfl⟩
  | _ => first | exact absurd rfl hentry | exact absurd rfl hroutine | exact absurd rfl hcalm

theorem steady_step (e : Event) :
    (s.step e).cfg = s.cfg ∧ s.now.epoch ≤ (s.step e).now.epoch ∧ s.now.mono ≤ (s.step e).now.mono := by
  have hsteady : ∀ {t : TradingEngine}, t.cfg = s.cfg → t.now = s.now →
      t.cfg = s.cfg ∧ s.now.epoch ≤ t.now.epoch ∧ s.now.mono ≤ t.now.mono := by
    intro t hcfg hnow
    rw [hnow]
    exact ⟨hcfg, le_rfl, le_rfl⟩
  have hrun : ∀ e, (if s.running then s.act e else s).cfg = s.cfg ∧
      s.now.epoch ≤ (if s.running then s.act e else s).now.epoch ∧
        s.now.mono ≤ (if s.running then s.act e else s).now.mono := by
    intro e
    split_ifs
    · exact hsteady (s.steady_act e).1 (s.steady_act e).2
    · exact hsteady rfl rfl
  cases e with
  | advanced now =>
    unfold step
    dsimp only
    split_ifs with hlater
    · exact ⟨rfl, hlater⟩
    · exact hsteady rfl rfl
  | restarted orders accountId reply =>
    have hrestarted : s.step (.restarted orders accountId reply) = s.restarted orders accountId reply := rfl
    rw [hrestarted]
    rcases s.restarted_cases orders accountId reply with hstop | ⟨_, _, _, _, _, _, _, _, _, hfresh⟩
    · rw [hstop]
      exact hsteady rfl rfl
    · rw [hfresh]
      exact hsteady rfl rfl
  | _ => exact hrun _

theorem mem_pending_step {e : Event} {p : PendingApproval} (hp : p ∈ (s.step e).app.pendingApprovals) :
    p ∈ s.app.pendingApprovals ∨ p.createdAt = s.now.epoch := by
  have hnew : ∀ q : PendingApproval, q.createdAt = s.now.epoch → p ∈ s.app.pendingApprovals ++ [q] →
      p ∈ s.app.pendingApprovals ∨ p.createdAt = s.now.epoch := by
    intro q hq hmem
    rcases List.mem_append.mp hmem with hold | hone
    · exact Or.inl hold
    · obtain rfl := List.mem_singleton.mp hone
      exact Or.inr hq
  cases hidea : e.isIdea with
  | false => exact Or.inl ((s.pending_step hidea).subset hp)
  | true =>
    cases e with
    | proposed order i cycleId approvalId =>
      have hp : p ∈ (if s.running then s.proposed order i cycleId approvalId else s).app.pendingApprovals := hp
      split_ifs at hp
      · unfold proposed at hp
        split at hp
        · split_ifs at hp
          · exact hnew _ rfl hp
          · refine Or.inl ?_
            dsimp only at hp
            split at hp
            · rwa [pending_noteVerdict, app_submit] at hp
            · have hp : p ∈ (s.submit order (s.context _ _ i) cycleId).1.app.pendingApprovals := hp
              rwa [app_submit] at hp
        · exact Or.inl hp
      · exact Or.inl hp
    | closeProposed symbol position cycleId approvalId =>
      have hp : p ∈ (if s.running then s.closeProposed symbol position cycleId approvalId
        else s).app.pendingApprovals := hp
      split_ifs at hp
      · unfold closeProposed at hp
        split at hp
        · exact hnew _ rfl hp
        · exact Or.inl hp
      · exact Or.inl hp
    | _ => cases hidea

theorem age_le_of_sweeps {e : Event} (h : s.sweeps (s.stamp e) = true) :
    ∀ p ∈ (s.step (s.stamp e)).app.pendingApprovals,
      p.ageSeconds s.now.epoch ≤ s.cfg.cadence.approvalTimeoutSeconds := by
  cases e with
  | fast e =>
    have h : (s.running && s.toFastLoop.sweeps (e.stamp s.now)) = true := h
    rw [Bool.and_eq_true] at h
    have hstep : s.step (.fast (e.stamp s.now)) =
        { s with
          toFastLoop := s.toFastLoop.step (e.stamp s.now)
          history := s.history.noteLoss (s.toFastLoop.observesLoss (e.stamp s.now)) } := if_pos h.1
    have hcfg := (FastLoop.kept_frame.step s.toFastLoop (e.stamp s.now)).cfg
    have hswept := FastLoop.swept_of_sweeps h.2
    rw [FastLoop.Swept, hcfg] at hswept
    rw [stamp, hstep]
    exact hswept
  | _ => cases h

/-! ### Clicks -/

/-- A click executes the approval: an entry that can be sized again is submitted, a close that the gate lets
pass is sent. -/
def Executable (approval : PendingApproval) (resized : Option SizedOrder) (quotes : String → Option Quote) :
    Prop :=
  match approval.kind with
  | .entry => s.app.account.isSome ∧ approval.sized.isSome ∧ resized.isSome
  | .close => s.closeDesk.Admits approval.symbol s.session.phase (quotes approval.symbol) s.now

instance (approval : PendingApproval) (resized : Option SizedOrder) (quotes : String → Option Quote) :
    Decidable (s.Executable approval resized quotes) := by
  unfold Executable
  split <;> infer_instance

/-- The outcome of a click is a call of `submit` or of `close_position`. -/
def Executes (id : String) (resized : Option SizedOrder) (quotes : String → Option Quote) : Prop :=
  s.approveProposal id resized quotes = some .submitted ∨ s.approveProposal id resized quotes = some .closing

instance (id : String) (resized : Option SizedOrder) (quotes : String → Option Quote) :
    Decidable (s.Executes id resized quotes) :=
  inferInstanceAs (Decidable (_ ∨ _))

variable {s} {id : String} {resized : Option SizedOrder} {quotes : String → Option Quote}

theorem approveClose_isSome_iff {d : CloseDesk} {approval : PendingApproval} {phase : SessionPhase} {now : Now}
    (hfound : (d.app.pendingApprovals.find? fun p => p.id = id) = some approval) (hkind : approval.kind = .close) :
    (d.approveClose id phase quotes now).2.isSome = true ↔
      d.Admits approval.symbol phase (quotes approval.symbol) now := by
  unfold CloseDesk.approveClose
  rw [hfound]
  dsimp only
  rw [if_pos hkind]
  split_ifs with happroved
  · exact iff_of_true rfl (RiskEngine.approved_evaluateClose.mp happroved)
  · exact iff_of_false Bool.false_ne_true fun h => happroved (RiskEngine.approved_evaluateClose.mpr h)

theorem executes_iff {approval : PendingApproval}
    (hfind : (s.app.pendingApprovals.find? fun p => p.id = id) = some approval) :
    s.Executes id resized quotes ↔ s.Executable approval resized quotes := by
  have hfound : (s.closeDesk.app.pendingApprovals.find? fun p => p.id = id) = some approval := hfind
  unfold Executes approveProposal Executable
  rw [hfind]
  dsimp only
  cases hkind : approval.kind with
  | close =>
    dsimp only
    rw [← approveClose_isSome_iff hfound hkind]
    cases (s.closeDesk.approveClose id s.session.phase quotes s.now).2 <;> simp
  | entry =>
    cases s.app.account <;> cases approval.sized <;> cases resized <;> simp

end TradingEngine

/-! ### Runs -/

/-- The trade idea times out after the last sweep at `since` and before `now`. -/
def PendingApproval.RunsOut (p : PendingApproval) (timeout since now : ℚ) : Prop :=
  since ≤ p.createdAt + timeout ∧ p.createdAt + timeout < now

instance (p : PendingApproval) (timeout since now : ℚ) : Decidable (p.RunsOut timeout since now) :=
  inferInstanceAs (Decidable (_ ∧ _))

/-- The engine, and when the last sweep of its fast loop ended. -/
structure ExpiryRun where
  engine : TradingEngine
  lastSweep : ℚ

namespace ExpiryRun

open TradingEngine

def step (r : ExpiryRun) (x : ApprovalRun.Input) : ExpiryRun where
  engine := r.engine.step (r.engine.stamp x.1)
  lastSweep := if r.engine.sweeps (r.engine.stamp x.1) then r.engine.now.epoch else r.lastSweep

/-- Before the first start of the process. -/
def start (cfg : StrategyConfig) (isLive : Bool) (calendar : MarketCalendar) (now : Now)
    (killSwitch : KillSwitch) (store : StateStore) (positions : Dict String Position) : ExpiryRun where
  engine := off cfg isLive calendar now killSwitch store positions
  lastSweep := now.epoch

variable (r : ExpiryRun)

def timeout : ℚ := r.engine.cfg.cadence.approvalTimeoutSeconds

/-- The approval that a click finds, if the process runs. -/
def found (id : String) : Option PendingApproval :=
  if r.engine.running then r.engine.app.pendingApprovals.find? fun p => p.id = id else none

/-- A click submits or closes only what is as young as a trade idea may be. -/
def InTime (x : ApprovalRun.Input) : Prop :=
  match x.1 with
  | .clicked id resized _ =>
    ∀ approval ∈ r.found id, r.engine.Executes id resized x.2 →
      approval.ageSeconds r.engine.now.epoch ≤ r.timeout
  | _ => True

/-- No trade idea that can be executed times out between the last sweep and its click. -/
def SweptInTime (x : ApprovalRun.Input) : Prop :=
  match x.1 with
  | .clicked id resized _ =>
    ∀ approval ∈ r.found id, r.engine.Executable approval resized x.2 →
      ¬ approval.RunsOut r.timeout r.lastSweep r.engine.now.epoch
  | _ => True

instance (x : ApprovalRun.Input) : Decidable (r.InTime x) := by
  unfold InTime
  split <;> infer_instance

instance (x : ApprovalRun.Input) : Decidable (r.SweptInTime x) := by
  unfold SweptInTime
  split <;> infer_instance

/-- What is in the queue had not timed out at the last sweep. -/
structure Inv (r : ExpiryRun) : Prop where
  timeout : 60 ≤ r.timeout
  past : r.lastSweep ≤ r.engine.now.epoch
  young : ∀ p ∈ r.engine.app.pendingApprovals, r.lastSweep ≤ p.createdAt + r.timeout

variable {r}

theorem Inv.step (h : r.Inv) (x : ApprovalRun.Input) : (r.step x).Inv := by
  obtain ⟨hcfg, hlater, -⟩ := r.engine.steady_step (r.engine.stamp x.1)
  have htimeout : (r.step x).timeout = r.timeout := by
    rw [ExpiryRun.timeout, ExpiryRun.timeout, ExpiryRun.step, hcfg]
  refine ⟨by rw [htimeout]; exact h.timeout, ?_, fun p hp => ?_⟩
  · show (if r.engine.sweeps (r.engine.stamp x.1) then r.engine.now.epoch else r.lastSweep) ≤ _
    split_ifs
    · exact hlater
    · exact h.past.trans hlater
  · rw [htimeout]
    show (if r.engine.sweeps (r.engine.stamp x.1) then r.engine.now.epoch else r.lastSweep) ≤ _
    split_ifs with hsweeps
    · have hage := r.engine.age_le_of_sweeps hsweeps p hp
      rwa [PendingApproval.ageSeconds, sub_le_iff_le_add'] at hage
    · rcases r.engine.mem_pending_step hp with hold | hnew
      · exact h.young p hold
      · have hpast := h.past
        have hpos := h.timeout
        linarith

theorem Inv.inTime_iff (h : r.Inv) (x : ApprovalRun.Input) : r.InTime x ↔ r.SweptInTime x := by
  unfold InTime SweptInTime
  split
  · rename_i id resized i hclicked
    refine forall_congr' fun approval => forall_congr' fun hfound => ?_
    have hfind : (r.engine.app.pendingApprovals.find? fun p => p.id = id) = some approval := by
      rw [found, Option.mem_def] at hfound
      split_ifs at hfound
      exact hfound
    rw [executes_iff hfind]
    refine forall_congr' fun _ => ?_
    have hyoung := h.young approval (List.mem_of_find?_eq_some hfind)
    rw [PendingApproval.RunsOut, PendingApproval.ageSeconds, and_iff_right hyoung, not_lt, sub_le_iff_le_add']
  · exact Iff.rfl

/-- **When no stale approval is executed.** In every run of fast ticks, disconnects, clicks and everything else
the engine does, a click submits an entry or sends a close only for an approval no older than
`approval_timeout_seconds`, precisely if no executable approval that is clicked times out between the last
finished sweep and the click. -/
theorem no_stale_execution_iff (cfg : StrategyConfig) (isLive : Bool) (calendar : MarketCalendar) (now : Now)
    (killSwitch : KillSwitch) (store : StateStore) (positions : Dict String Position)
    (htimeout : 60 ≤ cfg.cadence.approvalTimeoutSeconds) (inputs : List ApprovalRun.Input) :
    Trace.Each step InTime (start cfg isLive calendar now killSwitch store positions) inputs ↔
      Trace.Each step SweptInTime (start cfg isLive calendar now killSwitch store positions) inputs := by
  have hstart : (start cfg isLive calendar now killSwitch store positions).Inv :=
    ⟨htimeout, le_rfl, fun p hp => (nomatch hp)⟩
  exact Trace.each_iff_of_invariant (fun r x h => h.step x) (fun r x h => h.inTime_iff x) hstart

/-! #### A click after an outage -/

/-- Not yet started, in the morning of day 0. -/
def morning : ExpiryRun := start {} false dailySessions (clock 0 55800) {} {} Dict.empty

/-- An idea for AAPL is queued, and twenty minutes later it is clicked. Until then the fast loop ticks with the
broker there or not; just before the click the account is synchronised. -/
def clickedLate (connected : Bool) : List ApprovalRun.Input :=
  let quiet : String → Option Quote := fun _ => none
  let tick : TradingEngine.Event := .fast (.ticked connected (clock 0 56000) quiet)
  let idea : List TradingEngine.Event := [
    .modeSet .manual, .advanced (clock 0 56000), .decisionTicked false,
    .cycleFetched (.ok (accountAt (clock 0 56000) 100000)),
    .proposed (smallEntry "AAPL") (entryInputs "AAPL" (clock 0 56000)) "c1" "a1", .cycleEnded]
  let wait : List TradingEngine.Event := [
    .advanced (clock 0 56400), tick, .advanced (clock 0 57200), tick, .advanced (clock 0 57201),
    .fast (.accountSynced (accountAt (clock 0 57201) 100000) 0)]
  let click : TradingEngine.Event :=
    .clicked "a1" (some (smallEntry "AAPL")) (entryInputs "AAPL" (clock 0 57201))
  (bootAndPlan (clock 0 55800) 100000 ++ idea ++ wait ++ [click]).map fun e => (e, quiet)

theorem no_stale_execution_iff_swept : Trace.Each step InTime morning (clickedLate true) :=
  (no_stale_execution_iff {} false dailySessions (clock 0 55800) {} {} Dict.empty (by decide +kernel) _).mpr
    (by decide +kernel)

/-- Every tick has returned early, and the bracket of an idea of twenty minutes ago goes to the broker. -/
theorem stale_approval_placed :
    ¬ Trace.Each step InTime morning (clickedLate false) ∧
      (Trace.run step morning (clickedLate false)).engine.approvals.length = 1 :=
  ⟨by decide +kernel, by decide +kernel⟩

end ExpiryRun

end AiTrader
