import AiTrader.Risk.Engine

/-!
# The daily loss limit over a session

A session is a run of calls on the engine between two resets. `LossRun` adds to the engine what the law
is about: whether a breach has been observed, whether a `check_daily_loss` with a baseline has returned
since, and whether an order has been approved after that.

Two paths share the flag `daily_loss_tripped` and only one of them trips the kill switch: `evaluate` sets
the flag, and a `check_daily_loss` that finds it set returns at once. So the limit latches precisely in
the runs in which no `evaluate` or `submit` observes a breach before the kill switch has been tripped:
`daily_loss_latches_iff`. A run that leaves this condition reaches `Missed`, where the flag is set, the
switch is not, and no call can change either.
-/

namespace AiTrader

open Lib

namespace RiskEngine

/-! ### What the calls do to the switch and the flag -/

variable {e : RiskEngine} {order : SizedOrder} {ctx : RiskContext} {now : Now}

/-- The parts of the engine the law is about: the limits, whether the switch reads as tripped, the flag. -/
def lossState (e : RiskEngine) : RiskConfig × Bool × Bool :=
  (e.cfg, e.killSwitch.isTripped, e.dailyLossTripped)

theorem lossState_checked : (e.checked ctx now).lossState =
    (e.cfg, e.killSwitch.isTripped,
      e.dailyLossTripped || breaches e.cfg ctx.account ctx.startingEquity) := by
  simp [lossState, checked]

@[simp] theorem lossState_persist (cycleId : String) (verdict : RiskVerdict) :
    (e.persist cycleId order verdict).lossState = e.lossState := rfl

@[simp] theorem lossState_lookSwitch : (e.lookSwitch now).lossState = e.lossState := by
  simp [lossState, lookSwitch]

theorem lossState_submitStart (cycleId : String) (wired : Bool) :
    (e.submitStart order ctx cycleId wired now).1.lossState = (e.checked ctx now).lossState := by
  unfold submitStart
  dsimp only
  rw [evaluate_snd]
  split_ifs
  · rfl
  · rw [lossState_persist, lossState_lookSwitch, lossState_persist]
  · rw [lossState_lookSwitch, lossState_persist]
  · rw [lossState_lookSwitch, lossState_persist]

theorem lossState_submit (cycleId : String) (wired : Bool) (placement : Except String Unit) :
    (e.submit order ctx cycleId wired placement now).1.lossState = (e.checked ctx now).lossState := by
  rw [← lossState_submitStart cycleId wired, submit]
  split
  · rename_i heq
    rw [heq]
  · rename_i heq
    rw [heq]
    unfold submitFinish
    split <;> rfl

theorem passed_of_submit {cycleId : String} {wired : Bool} {placement : Except String Unit}
    (h : (e.submit order ctx cycleId wired placement now).2.approved = true) :
    Passed e order ctx now := by
  obtain ⟨-, hgate⟩ := e.submitStart_cases order ctx cycleId wired now
  rcases hgate with ⟨verdict, hverdict, hrejected⟩ | ⟨_, _, _, hpassed⟩
  · unfold submit at h
    split at h
    · rename_i hstart
      rw [hstart] at hverdict
      obtain rfl := Except.error.inj hverdict
      rw [hrejected] at h
      cases h
    · rename_i hstart
      rw [hstart] at hverdict
      cases hverdict
  · exact hpassed

theorem lossState_checkDailyLoss (account : AccountSnapshot) (startingEquity : ℚ) :
    (e.checkDailyLoss account startingEquity now).2.lossState =
      if e.dailyLossTripped = false ∧ breaches e.cfg account startingEquity = true then
        (e.cfg, true, true)
      else e.lossState := by
  unfold checkDailyLoss
  by_cases hearly : startingEquity ≤ 0 ∨ e.dailyLossTripped = true
  · rw [if_pos hearly, if_neg]
    rintro ⟨hflag, hbreach⟩
    rcases hearly with hbase | hset
    · have hpos : 0 < startingEquity := (of_decide_eq_true hbreach).1
      exact absurd hpos (not_lt.mpr hbase)
    · rw [hflag] at hset
      cases hset
  · rw [if_neg hearly]
    rw [not_or, not_le] at hearly
    have hflag : e.dailyLossTripped = false := by simpa using hearly.2
    by_cases hpnl : pnlPct account startingEquity ≤ -e.cfg.dailyLossLimitPct
    · rw [if_pos hpnl, if_pos ⟨hflag, decide_eq_true ⟨hearly.1, hpnl⟩⟩]
      simp [lossState]
    · rw [if_neg hpnl, if_neg]
      exact fun h => hpnl (of_decide_eq_true h.2).2

end RiskEngine

/-- A call on the engine. -/
inductive RiskCall
  | evaluate (order : SizedOrder) (ctx : RiskContext) (now : Now)
  | submit (order : SizedOrder) (ctx : RiskContext) (cycleId : String) (wired : Bool)
      (placement : Except String Unit) (now : Now)
  | checkDailyLoss (account : AccountSnapshot) (startingEquity : ℚ) (now : Now)

/-- The call looks at a loss that has reached the limit. -/
def RiskCall.observes (cfg : RiskConfig) : RiskCall → Bool
  | evaluate _ ctx _ => RiskEngine.breaches cfg ctx.account ctx.startingEquity
  | submit _ ctx _ _ _ _ => RiskEngine.breaches cfg ctx.account ctx.startingEquity
  | checkDailyLoss account startingEquity _ => RiskEngine.breaches cfg account startingEquity

def RiskCall.isCheck : RiskCall → Bool
  | checkDailyLoss _ _ _ => true
  | _ => false

/-- The engine during a session, with the facts about the past that the law mentions. -/
structure LossRun where
  engine : RiskEngine
  /-- A breach has been observed. -/
  seen : Bool := false
  /-- Since then, or in the same call, a `check_daily_loss` with a baseline has returned. -/
  armed : Bool := false
  /-- An order has been approved after that. -/
  approvedSince : Bool := false

namespace LossRun

def step (s : LossRun) (call : RiskCall) : LossRun :=
  let seen := s.seen || call.observes s.engine.cfg
  match call with
  | .evaluate order ctx now => { s with engine := (s.engine.evaluate order ctx now).2, seen }
  | .submit order ctx cycleId wired placement now =>
    let out := s.engine.submit order ctx cycleId wired placement now
    { s with engine := out.1, seen, approvedSince := s.approvedSince || s.armed && out.2.approved }
  | .checkDailyLoss account startingEquity now =>
    { s with
      engine := (s.engine.checkDailyLoss account startingEquity now).2
      seen
      armed := s.armed || seen && decide (0 < startingEquity) }

/-- A session starts with a reset; the kill switch is as it happens to be. -/
def start (e : RiskEngine) : LossRun := { engine := e.resetForNewSession }

/-- Once a breach has been observed and checked, the switch is tripped and nothing is approved. -/
def Latched (s : LossRun) : Prop :=
  s.armed = true → s.engine.killSwitch.isTripped = true ∧ s.approvedSince = false

instance : DecidablePred Latched := fun _ => inferInstanceAs (Decidable (_ → _))

/-- `evaluate` and `submit` observe no breach while the kill switch is not tripped. -/
def CheckedFirst (s : LossRun) (call : RiskCall) : Prop :=
  call.isCheck = false → call.observes s.engine.cfg = true → s.engine.killSwitch.isTripped = true

/-! ### Runs that stay within the condition -/

structure Inv (s : LossRun) : Prop where
  flag : s.engine.dailyLossTripped = true → s.engine.killSwitch.isTripped = true
  seen : s.seen = true → s.engine.killSwitch.isTripped = true
  armed : s.armed = true → s.seen = true
  approved : s.approvedSince = false

theorem inv_start (e : RiskEngine) : (start e).Inv := by
  constructor <;> simp [start, RiskEngine.resetForNewSession]

theorem Inv.latched {s : LossRun} (h : s.Inv) : s.Latched :=
  fun harmed => ⟨h.seen (h.armed harmed), h.approved⟩

/-- What a call does to the loss state: `evaluate` and `submit` set the flag when they observe a breach,
`check_daily_loss` sets it and trips the switch, unless it is set already. -/
theorem lossState_step (s : LossRun) (call : RiskCall) :
    (s.step call).engine.lossState = (s.engine.cfg,
      s.engine.killSwitch.isTripped ||
        (call.isCheck && !s.engine.dailyLossTripped && call.observes s.engine.cfg),
      s.engine.dailyLossTripped || call.observes s.engine.cfg) := by
  cases call with
  | evaluate order ctx now =>
    rw [step, RiskEngine.evaluate_snd]
    refine RiskEngine.lossState_checked.trans ?_
    simp [RiskCall.isCheck, RiskCall.observes]
  | submit order ctx cycleId wired placement now =>
    refine (RiskEngine.lossState_submit cycleId wired placement).trans ?_
    refine RiskEngine.lossState_checked.trans ?_
    simp [RiskCall.isCheck, RiskCall.observes]
  | checkDailyLoss account startingEquity now =>
    refine (RiskEngine.lossState_checkDailyLoss account startingEquity).trans ?_
    rw [RiskEngine.lossState]
    cases s.engine.dailyLossTripped <;>
      cases hobserves : RiskEngine.breaches s.engine.cfg account startingEquity <;>
        simp [RiskCall.isCheck, RiskCall.observes, hobserves]

theorem seen_step (s : LossRun) (call : RiskCall) :
    (s.step call).seen = (s.seen || call.observes s.engine.cfg) := by
  cases call <;> rfl

theorem tripped_step (s : LossRun) (call : RiskCall) :
    (s.step call).engine.killSwitch.isTripped = (s.engine.killSwitch.isTripped ||
      (call.isCheck && !s.engine.dailyLossTripped && call.observes s.engine.cfg)) :=
  congrArg (fun state => state.2.1) (lossState_step s call)

theorem flag_step (s : LossRun) (call : RiskCall) :
    (s.step call).engine.dailyLossTripped =
      (s.engine.dailyLossTripped || call.observes s.engine.cfg) :=
  congrArg (fun state => state.2.2) (lossState_step s call)

theorem armed_step (s : LossRun) (call : RiskCall) (h : (s.step call).armed = true) :
    s.armed = true ∨ (s.step call).seen = true := by
  cases call with
  | evaluate order ctx now => exact Or.inl h
  | submit order ctx cycleId wired placement now => exact Or.inl h
  | checkDailyLoss account startingEquity now =>
    rcases Bool.or_eq_true_iff.mp h with harmed | hseen
    · exact Or.inl harmed
    · exact Or.inr (Bool.and_eq_true_iff.mp hseen).1

theorem approved_step (s : LossRun) (call : RiskCall) (h : (s.step call).approvedSince = true) :
    s.approvedSince = true ∨ s.armed = true ∧ s.engine.killSwitch.isTripped = false := by
  cases call with
  | evaluate order ctx now => exact Or.inl h
  | submit order ctx cycleId wired placement now =>
    rcases Bool.or_eq_true_iff.mp h with happroved | hnew
    · exact Or.inl happroved
    · obtain ⟨harmed, hverdict⟩ := Bool.and_eq_true_iff.mp hnew
      exact Or.inr ⟨harmed, (RiskEngine.passed_of_submit hverdict).not_tripped⟩
  | checkDailyLoss account startingEquity now => exact Or.inl h

theorem tripped_of_observes {s : LossRun} (h : s.Inv) {call : RiskCall} (hcall : s.CheckedFirst call)
    (hobserves : call.observes s.engine.cfg = true) :
    (s.step call).engine.killSwitch.isTripped = true := by
  rw [tripped_step, hobserves, Bool.and_true]
  cases hcheck : call.isCheck with
  | false => simp [hcall hcheck hobserves]
  | true =>
    cases hflag : s.engine.dailyLossTripped with
    | false => simp
    | true => simp [h.flag hflag]

theorem tripped_mono (s : LossRun) (call : RiskCall) (h : s.engine.killSwitch.isTripped = true) :
    (s.step call).engine.killSwitch.isTripped = true := by
  rw [tripped_step, h, Bool.true_or]

theorem Inv.step {s : LossRun} (h : s.Inv) (call : RiskCall) (hcall : s.CheckedFirst call) :
    (s.step call).Inv := by
  have hseen : (s.step call).seen = true → (s.step call).engine.killSwitch.isTripped = true := by
    intro hseen
    rw [seen_step] at hseen
    rcases Bool.or_eq_true_iff.mp hseen with hseen | hobserves
    · exact tripped_mono s call (h.seen hseen)
    · exact tripped_of_observes h hcall hobserves
  have hseenMono : s.seen = true → (s.step call).seen = true := by
    intro hseen
    rw [seen_step, hseen, Bool.true_or]
  refine ⟨fun hflag => ?_, hseen, fun harmed => ?_, ?_⟩
  · rw [flag_step] at hflag
    rcases Bool.or_eq_true_iff.mp hflag with hflag | hobserves
    · exact tripped_mono s call (h.flag hflag)
    · exact tripped_of_observes h hcall hobserves
  · rcases armed_step s call harmed with harmed | hnew
    · exact hseenMono (h.armed harmed)
    · exact hnew
  · by_contra happroved
    rcases approved_step s call (by simpa using happroved) with hold | ⟨harmed, huntripped⟩
    · rw [h.approved] at hold
      cases hold
    · rw [h.seen (h.armed harmed)] at huntripped
      cases huntripped

/-! ### Runs that leave it -/

/-- The flag is set and the switch is not tripped: no call will trip it. -/
structure Missed (s : LossRun) : Prop where
  flag : s.engine.dailyLossTripped = true
  untripped : s.engine.killSwitch.isTripped = false
  seen : s.seen = true

theorem missed_of_not_checkedFirst {s : LossRun} {call : RiskCall} (h : ¬ s.CheckedFirst call) :
    (s.step call).Missed := by
  simp only [CheckedFirst, not_forall, Bool.not_eq_true] at h
  obtain ⟨hcheck, hobserves, huntripped⟩ := h
  refine ⟨?_, ?_, ?_⟩
  · rw [flag_step, hobserves, Bool.or_true]
  · rw [tripped_step, huntripped, hcheck]
    rfl
  · rw [seen_step, hobserves, Bool.or_true]

theorem Missed.step {s : LossRun} (h : s.Missed) (call : RiskCall) : (s.step call).Missed := by
  refine ⟨?_, ?_, ?_⟩
  · rw [flag_step, h.flag, Bool.true_or]
  · rw [tripped_step, h.untripped, h.flag]
    simp
  · rw [seen_step, h.seen, Bool.true_or]

theorem Missed.run {s : LossRun} (h : s.Missed) (calls : List RiskCall) :
    (Trace.run LossRun.step s calls).Missed := by
  induction calls generalizing s with
  | nil => exact h
  | cons call calls ih => exact ih (h.step call)

theorem Missed.not_latched {s : LossRun} (h : s.Missed) (account : AccountSnapshot)
    {startingEquity : ℚ} (hbase : 0 < startingEquity) (now : Now) :
    ¬ (s.step (.checkDailyLoss account startingEquity now)).Latched := by
  intro hlatched
  have hmissed := h.step (.checkDailyLoss account startingEquity now)
  have harmed : (s.step (.checkDailyLoss account startingEquity now)).armed = true := by
    simp [LossRun.step, h.seen, hbase]
  have htripped := (hlatched harmed).1
  rw [hmissed.untripped] at htripped
  cases htripped

/-- **The daily loss limit latches exactly when `check_daily_loss` is the first to see the breach.** -/
theorem daily_loss_latches_iff (e : RiskEngine) (calls : List RiskCall) (account : AccountSnapshot)
    {startingEquity : ℚ} (hbase : 0 < startingEquity) (now : Now) :
    Trace.Always step Latched (start e) (calls ++ [.checkDailyLoss account startingEquity now]) ↔
      Trace.Each step CheckedFirst (start e) calls := by
  constructor
  · intro h
    have hlast := h.last
    rw [Trace.run_append] at hlast
    clear h
    generalize start e = s at hlast ⊢
    induction calls generalizing s with
    | nil => trivial
    | cons call calls ih =>
      refine ⟨?_, ih _ hlast⟩
      by_contra hcall
      exact ((missed_of_not_checkedFirst hcall).run calls).not_latched account hbase now hlast
  · intro h
    refine Trace.always_of_inductive (fun s call hI hC => Inv.step hI call hC)
      (fun s hI => Inv.latched hI) (inv_start e) (Trace.each_append.mpr ⟨h, ?_, trivial⟩)
    intro hcheck
    cases hcheck

/-! #### A breach that an entry sees first -/

def quietMarket : Now := .sample 0 0

/-- A flat paper account. -/
def paperAccount (equity : ℚ) : AccountSnapshot where
  accountId := "DU1"
  equity
  cash := equity
  buyingPower := equity
  asOf := 0

def smallOrder : SizedOrder where
  proposal := { symbol := "AAPL", action := .buy, conviction := 1, horizonMinutes := 60 }
  symbol := "AAPL"
  action := .buy
  quantity := 10
  entryPrice := 100
  stopPrice := 97
  targetPrice := 106
  riskAmount := 30
  notional := 1000

/-- A context in which nothing but the equity can fail, against a baseline of 100000. -/
def calmContext (equity : ℚ) : RiskContext where
  account := paperAccount equity
  quote := some { symbol := "AAPL", bid := some (9999 / 100), ask := some 100, updatedAt := 0 }
  phase := .rth
  minutesToClose := some 120
  isLive := false
  startingEquity := 100000

def freshEngine : RiskEngine := { cfg := {}, killSwitch := {} }

theorem daily_loss_latches_iff_evaluate_first :
    Trace.Always step Latched (start freshEngine)
        ([.evaluate smallOrder (calmContext 97000) quietMarket] ++
          [.checkDailyLoss (paperAccount 97000) 100000 quietMarket]) ↔
      Trace.Each step CheckedFirst (start freshEngine)
        [.evaluate smallOrder (calmContext 97000) quietMarket] :=
  daily_loss_latches_iff freshEngine _ (paperAccount 97000) (by decide +kernel) quietMarket

/-- An entry is judged at a loss of 3%, the fast loop checks, equity recovers: the kill switch was never
tripped and the next entry is approved. -/
theorem breach_forgotten :
    (Trace.run step (start freshEngine)
      [.evaluate smallOrder (calmContext 97000) quietMarket,
        .checkDailyLoss (paperAccount 97000) 100000 quietMarket,
        .submit smallOrder (calmContext 100000) "c1" true (.ok ()) quietMarket]).approvedSince = true ∧
      ¬ Trace.Always step Latched (start freshEngine)
        [.evaluate smallOrder (calmContext 97000) quietMarket,
          .checkDailyLoss (paperAccount 97000) 100000 quietMarket] := by
  constructor
  · decide +kernel
  · decide +kernel

end LossRun

end AiTrader
