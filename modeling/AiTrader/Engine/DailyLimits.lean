import AiTrader.Engine.Entries
import AiTrader.Engine.Rollover

/-!
# Daily limits across restarts

The baseline of the daily loss limit is to stay the first one recorded on a day, and the entries approved on
a day are to stay within the cap, wherever in the day the process restarts. `start` restores the baseline
that `start` saved, but `premarket_done` comes up false, so the next decision tick runs the planning pass,
which sets the baseline to the equity of the moment and the counter of trades to zero; the counter itself is
saved nowhere.

`WithinDay` is the condition on the steps. A process may start again at any time of a UTC date on which the
first baseline of the day was recorded by a start, with whatever equity: that baseline is in the store
(`LimitInv.stored`) and is adopted. A planning pass has to find the first equity of the day. And once the
counter has been set to zero after an entry of the day, no further entry is submitted on that day: up to then
the counter has counted them all (`approvedToday_le`).
-/

namespace AiTrader

open Lib

namespace TradingEngine

/-- The entries approved today. -/
def approvedToday (s : TradingEngine) : ℕ := s.history.approved.count s.today

/-- The law. -/
structure LimitsKept (s : TradingEngine) : Prop where
  baseline : ∀ first, s.history.baseline = some (s.today, first) → s.app.startingEquity = first
  entries : s.approvedToday ≤ s.cfg.risk.maxTradesPerDay.toNat

/-- The day has no baseline yet. -/
def NoBaseline (s : TradingEngine) : Bool := decide (s.history.baseline.map Prod.fst ≠ some s.today)

/-- An entry of the day was approved before `trades_today` was last set to zero. -/
def Forgot (s : TradingEngine) : Bool := decide (s.today ∈ s.history.approved.take s.history.zeroed)

/-- The cap is used up, or there is room for the entries in flight and for one more. -/
def HasRoom (s : TradingEngine) : Bool :=
  decide (s.inFlight = 0) || decide (s.cfg.risk.maxTradesPerDay ≤ s.app.tradesToday) ||
    decide (s.app.tradesToday + s.inFlight < s.cfg.risk.maxTradesPerDay)

/-- The condition on the steps. -/
def WithinDay (s : TradingEngine) : Event → Bool
  | .planFetched loop (.ok account) =>
    decide (s.planning loop ≠ some .fetching) || s.NoBaseline ||
      decide (s.history.baseline = some (s.today, account.equity))
  | .restarted _ _ (.ok _) => s.NoBaseline || decide (s.history.savedOn = some s.now.date)
  | .proposed _ _ _ _ => match s.decision with
    | .cycle _ _ (.deciding _) => decide (s.app.executionMode = .manual) || !s.Forgot && s.HasRoom
    | _ => true
  | .clicked id _ _ => match s.app.pendingApprovals.find? fun p => p.id = id with
    | some approval => decide (approval.kind ≠ .entry) || !s.Forgot && s.HasRoom
    | none => true
  | _ => true

/-- What holds between two steps. -/
structure LimitInv (s : TradingEngine) : Prop where
  riskCfg : s.risk.cfg = s.cfg.risk
  approved_le : ∀ day ∈ s.history.approved, day ≤ s.today
  baseline_le : ∀ day first, s.history.baseline = some (day, first) → day ≤ s.today
  zeroed_le : s.history.zeroed ≤ s.history.approved.length
  counted : s.app.tradesToday = s.history.approved.length - s.history.zeroed
  stored : ∀ day first date, s.history.baseline = some (day, first) → s.history.savedOn = some date →
    s.store.startingEquity = some { day := date, equity := first }
  flight : 0 < s.inFlight → (s.approvedToday + s.inFlight : ℤ) ≤ s.cfg.risk.maxTradesPerDay
  law : s.LimitsKept

/-- `s'` has the counters of `s`. -/
structure SameCount (s s' : TradingEngine) : Prop where
  now : s'.now = s.now
  calendar : s'.calendar = s.calendar
  cfg : s'.cfg = s.cfg
  riskCfg : s'.risk.cfg = s.risk.cfg
  startingEquity : s'.app.startingEquity = s.app.startingEquity
  tradesToday : s'.app.tradesToday = s.app.tradesToday
  approved : s'.history.approved = s.history.approved
  zeroed : s'.history.zeroed = s.history.zeroed
  baseline : s'.history.baseline = s.history.baseline
  savedOn : s'.history.savedOn = s.history.savedOn
  saved : s'.store.startingEquity = s.store.startingEquity

variable {s s' : TradingEngine}

theorem SameCount.today (h : SameCount s s') : s'.today = s.today := by
  rw [TradingEngine.today, h.now, h.calendar]
  rfl

theorem SameCount.approvedToday (h : SameCount s s') : s'.approvedToday = s.approvedToday := by
  rw [TradingEngine.approvedToday, h.approved, h.today]
  rfl

theorem LimitInv.sameCount (h : s.LimitInv) (hsame : SameCount s s') (hle : s'.inFlight ≤ s.inFlight) :
    s'.LimitInv := by
  have htoday := hsame.today
  have hcount := hsame.approvedToday
  constructor
  · rw [hsame.riskCfg, hsame.cfg]
    exact h.riskCfg
  · rw [hsame.approved, htoday]
    exact h.approved_le
  · rw [hsame.baseline, htoday]
    exact h.baseline_le
  · rw [hsame.zeroed, hsame.approved]
    exact h.zeroed_le
  · rw [hsame.tradesToday, hsame.approved, hsame.zeroed]
    exact h.counted
  · rw [hsame.baseline, hsame.savedOn, hsame.saved]
    exact h.stored
  · intro hpos
    have hflight := h.flight (hpos.trans_le hle)
    rw [hcount, hsame.cfg]
    omega
  · refine ⟨?_, ?_⟩
    · rw [hsame.baseline, htoday, hsame.startingEquity]
      exact h.law.baseline
    · rw [hcount, hsame.cfg]
      exact h.law.entries

theorem LimitInv.calm (h : s.LimitInv) (hcalm : Calm s s') : s'.LimitInv := by
  refine h.sameCount ?_ hcalm.inFlight
  exact {
    now := hcalm.now
    calendar := hcalm.calendar
    cfg := hcalm.cfg
    riskCfg := hcalm.riskCfg
    startingEquity := hcalm.app.startingEquity
    tradesToday := hcalm.app.tradesToday
    approved := hcalm.same History.approved fun _ _ => rfl
    zeroed := hcalm.same History.zeroed fun _ _ => rfl
    baseline := hcalm.same History.baseline fun _ _ => rfl
    savedOn := hcalm.same History.savedOn fun _ _ => rfl
    saved := hcalm.saved }

theorem LimitInv.elsewhere (h : s.LimitInv) {running : Bool} {gateway : Gateway} {store : StateStore}
    {schedule : ScheduleAt} {decision : DecisionAt} {approvals : List Submission} {risk : RiskEngine}
    {orders : OrderManager} {task : FastAt} (hcfg : risk.cfg = s.risk.cfg)
    (hsaved : store.startingEquity = s.store.startingEquity)
    (hle : approvals.length + decision.inFlight ≤ s.inFlight) :
    LimitInv { s with running, gateway, store, schedule, decision, approvals, risk, orders, task } :=
  h.sameCount ⟨rfl, rfl, rfl, hcfg, rfl, rfl, rfl, rfl, rfl, rfl, hsaved⟩ hle

theorem LimitInv.withApp (h : s.LimitInv) {app : AppState}
    (hequity : app.startingEquity = s.app.startingEquity)
    (htrades : app.tradesToday = s.app.tradesToday) : LimitInv { s with app } :=
  h.sameCount ⟨rfl, rfl, rfl, rfl, hequity, htrades, rfl, rfl, rfl, rfl, rfl⟩ le_rfl

/-! ### Submissions -/

theorem LimitInv.approvedToday_le (h : s.LimitInv) (hforgot : s.Forgot = false) :
    (s.approvedToday : ℤ) ≤ s.app.tradesToday := by
  have hnone : s.today ∉ s.history.approved.take s.history.zeroed := of_decide_eq_false hforgot
  have hcount : s.approvedToday = (s.history.approved.drop s.history.zeroed).count s.today := by
    rw [approvedToday, ← List.take_append_drop s.history.zeroed s.history.approved, List.count_append,
      List.count_eq_zero_of_not_mem hnone, Nat.zero_add, List.take_append_drop]
  have hle := List.count_le_length (a := s.today) (l := s.history.approved.drop s.history.zeroed)
  rw [List.length_drop] at hle
  have hzeroed := h.zeroed_le
  rw [h.counted, hcount]
  omega

theorem LimitInv.room (h : s.LimitInv) (hforgot : s.Forgot = false) (hroom : s.HasRoom = true)
    (hopen : s.GateOpen) : (s.approvedToday + s.inFlight + 1 : ℤ) ≤ s.cfg.risk.maxTradesPerDay := by
  have hcounted := h.approvedToday_le hforgot
  have htrades := hopen.trades
  rw [h.riskCfg] at htrades
  rcases Bool.or_eq_true_iff.mp hroom with hroom | hroom
  · rcases Bool.or_eq_true_iff.mp hroom with hnone | hfull
    · have hzero : s.inFlight = 0 := of_decide_eq_true hnone
      omega
    · exact absurd htrades (not_lt.mpr (of_decide_eq_true hfull))
  · have hlt := of_decide_eq_true hroom
    omega

theorem LimitInv.noted {n : ℕ} (h : s.LimitInv) (hnoted : Noted n s s')
    (hfits : 0 < n → (s.approvedToday + n : ℤ) ≤ s.cfg.risk.maxTradesPerDay)
    (hflight : 0 < s'.inFlight → (s.approvedToday + n + s'.inFlight : ℤ) ≤ s.cfg.risk.maxTradesPerDay) :
    s'.LimitInv := by
  have htoday := hnoted.today
  have hlaw := h.law.entries
  have hlength : s'.history.approved.length = s.history.approved.length + n := by
    rw [hnoted.approved, List.length_append, List.length_replicate]
  have hcount : s'.approvedToday = s.approvedToday + n := by
    rw [approvedToday, hnoted.approved, htoday, List.count_append, List.count_replicate_self]
    rfl
  constructor
  · rw [hnoted.riskCfg, hnoted.cfg]
    exact h.riskCfg
  · rw [hnoted.approved, htoday]
    intro day hday
    rcases List.mem_append.mp hday with hday | hday
    · exact h.approved_le day hday
    · exact (List.eq_of_mem_replicate hday).le
  · rw [hnoted.baseline, htoday]
    exact h.baseline_le
  · rw [hnoted.zeroed, hlength]
    exact h.zeroed_le.trans (Nat.le_add_right _ _)
  · rw [hlength, hnoted.tradesToday, hnoted.zeroed, h.counted]
    push_cast
    ring
  · rw [hnoted.baseline, hnoted.savedOn, hnoted.saved]
    exact h.stored
  · rw [hcount, hnoted.cfg]
    push_cast
    exact hflight
  · refine ⟨?_, ?_⟩
    · rw [hnoted.baseline, htoday, hnoted.startingEquity]
      exact h.law.baseline
    · rw [hcount, hnoted.cfg]
      rcases Nat.eq_zero_or_pos n with hzero | hpos
      · omega
      · have hle := hfits hpos
        omega

theorem LimitInv.entered {e : Event} (h : s.LimitInv) (hentered : Entered s e s')
    (hroom : s.maySubmit e = true → s.Forgot = false ∧ s.HasRoom = true) : s'.LimitInv := by
  have hflight := h.flight
  cases hentered with
  | nothing hnoted hle =>
    exact h.noted hnoted (fun hpos => absurd hpos (lt_irrefl 0)) fun hpos => by
      have hold := hflight (hpos.trans_le hle)
      push_cast
      omega
  | suspended hsubmits hopen hnoted hle =>
    have hfree := h.room (hroom hsubmits).1 (hroom hsubmits).2 hopen
    exact h.noted hnoted (fun hpos => absurd hpos (lt_irrefl 0)) fun _ => by
      push_cast
      omega
  | approved hsubmits hopen hnoted hle =>
    have hfree := h.room (hroom hsubmits).1 (hroom hsubmits).2 hopen
    refine h.noted hnoted (fun _ => ?_) fun _ => ?_
    · push_cast
      omega
    · push_cast
      omega
  | answered n hone hnoted hle =>
    have hold := hflight (by omega)
    refine h.noted hnoted (fun _ => ?_) fun _ => ?_
    · omega
    · omega

theorem hasRoom_of_maySubmit {e : Event} (hday : s.WithinDay e = true) (hsubmits : s.maySubmit e = true) :
    s.Forgot = false ∧ s.HasRoom = true := by
  cases e with
  | proposed order i cycleId approvalId =>
    simp only [maySubmit] at hsubmits
    simp only [WithinDay] at hday
    split at hsubmits
    · rename_i hdecision
      have hauto : s.app.executionMode ≠ .manual := of_decide_eq_true hsubmits
      simpa [hdecision, hauto] using hday
    · cases hsubmits
  | clicked id resized i =>
    simp only [maySubmit] at hsubmits
    simp only [WithinDay] at hday
    split at hsubmits
    · rename_i hfind
      have hentry := of_decide_eq_true hsubmits
      simpa [hfind, hentry] using hday
    · cases hsubmits
  | _ => cases hsubmits

theorem LimitInv.proposed (h : s.LimitInv) {order : SizedOrder} {i : EntryInputs}
    {cycleId approvalId : String} (hday : s.WithinDay (.proposed order i cycleId approvalId) = true) :
    (s.proposed order i cycleId approvalId).LimitInv :=
  h.entered (entered_proposed s order i cycleId approvalId) (hasRoom_of_maySubmit hday)

theorem LimitInv.clicked (h : s.LimitInv) {id : String} {resized : Option SizedOrder} {i : EntryInputs}
    (hday : s.WithinDay (.clicked id resized i) = true) : (s.clicked id resized i).LimitInv :=
  h.entered (entered_clicked s id resized i) (hasRoom_of_maySubmit hday)

theorem LimitInv.cyclePlaced (h : s.LimitInv) (reply : Except String (List BrokerOrderStatus)) :
    (s.cyclePlaced reply).LimitInv :=
  h.entered (entered_cyclePlaced s reply) fun hsubmits => nomatch hsubmits

theorem LimitInv.approvalPlaced (h : s.LimitInv) (i : ℕ)
    (reply : Except String (List BrokerOrderStatus)) : (s.approvalPlaced i reply).LimitInv :=
  h.entered (entered_approvalPlaced s i reply) fun hsubmits => nomatch hsubmits

/-! ### Where the baseline is set -/

/-- A baseline that is set now is the first of the day, or the same. -/
def Rebased (s : TradingEngine) (equity : ℚ) : Prop :=
  s.NoBaseline = true ∨ s.history.baseline = some (s.today, equity)

theorem baseline_recordBaseline {equity : ℚ} (h : s.Rebased equity) (savedOn : Option String) :
    (s.history.recordBaseline s.today equity savedOn).baseline = some (s.today, equity) := by
  unfold History.recordBaseline
  dsimp only
  rcases h with hnone | hsame
  · rw [if_neg (of_decide_eq_true hnone)]
  · rw [if_pos (by rw [hsame]; rfl), hsame]

theorem LimitInv.rebased (h : s.LimitInv) {equity : ℚ} (savedOn : Option String)
    (hrebased : s.Rebased equity)
    (hnow : s'.now = s.now) (hcalendar : s'.calendar = s.calendar) (hcfg : s'.cfg = s.cfg)
    (hrisk : s'.risk.cfg = s.cfg.risk) (hequity : s'.app.startingEquity = equity)
    (htrades : s'.app.tradesToday = 0) (happroved : s'.history.approved = s.history.approved)
    (hzeroed : s'.history.zeroed = s.history.approved.length)
    (hbaseline : s'.history.baseline = (s.history.recordBaseline s.today equity savedOn).baseline)
    (hstored : ∀ date, s'.history.savedOn = some date →
      s'.store.startingEquity = some { day := date, equity })
    (hle : s'.inFlight ≤ s.inFlight) : s'.LimitInv := by
  have htoday : s'.today = s.today := by
    rw [today, hnow, hcalendar]
    rfl
  have hcount : s'.approvedToday = s.approvedToday := by
    rw [approvedToday, happroved, htoday]
    rfl
  rw [baseline_recordBaseline hrebased] at hbaseline
  constructor
  · rw [hrisk, hcfg]
  · rw [happroved, htoday]
    exact h.approved_le
  · intro day first hday
    rw [hbaseline] at hday
    have heq : s.today = day := congrArg Prod.fst (Option.some.inj hday)
    rw [htoday, heq]
  · rw [hzeroed, happroved]
  · rw [htrades, hzeroed, happroved, sub_self]
  · intro day first date hday hdate
    rw [hbaseline] at hday
    have heq : equity = first := congrArg Prod.snd (Option.some.inj hday)
    rw [← heq]
    exact hstored date hdate
  · intro hpos
    have hflight := h.flight (hpos.trans_le hle)
    rw [hcount, hcfg]
    omega
  · refine ⟨fun first hday => ?_, ?_⟩
    · rw [hbaseline] at hday
      have heq : equity = first := congrArg Prod.snd (Option.some.inj hday)
      rw [hequity, heq]
    · rw [hcount, hcfg]
      exact h.law.entries

theorem LimitInv.planFetched (h : s.LimitInv) {loop : PlanningLoop}
    {reply : Except String AccountSnapshot} (hday : s.WithinDay (.planFetched loop reply) = true) :
    (s.planFetched loop reply).LimitInv := by
  unfold TradingEngine.planFetched
  split_ifs with hplanning
  · cases reply with
    | error error => exact h.calm (calm_rest s loop)
    | ok account =>
      have hrebased : s.Rebased account.equity := by simpa [WithinDay, hplanning, Rebased] using hday
      have hreset : ((s.resetForNewSession account).notePlan account).LimitInv := by
        refine h.rebased none hrebased rfl rfl rfl h.riskCfg rfl rfl rfl rfl rfl
          (fun date hdate => ?_) le_rfl
        have hdate : (if s.history.baseline.map Prod.fst = some s.today then s.history.savedOn else none) =
            some date := hdate
        rcases hrebased with hnone | hsame
        · rw [if_neg (of_decide_eq_true hnone)] at hdate
          cases hdate
        · rw [if_pos (by rw [hsame]; rfl)] at hdate
          exact h.stored _ _ _ hsame hdate
      exact hreset.calm (calm_suspendIn _ loop .planning)
  · exact h

/-- What a start adopts is what the store then holds for the date. -/
theorem adoptEquity_spec (s : TradingEngine) (account : AccountSnapshot) {store : StateStore}
    (hstore : (s.adoptEquity account).2 = some store) :
    store.startingEquity = some { day := s.now.date, equity := (s.adoptEquity account).1 } := by
  have hwritten : ∀ {equity : ℚ},
      s.store.setStartingEquity { day := s.now.date, equity } = some store →
        store.startingEquity = some { day := s.now.date, equity } := by
    intro equity hset
    unfold StateStore.setStartingEquity at hset
    split_ifs at hset
    exact (Option.some.inj hset) ▸ rfl
  unfold adoptEquity at hstore ⊢
  cases hsaved : s.store.startingEquity with
  | none =>
    rw [hsaved] at hstore
    exact hwritten hstore
  | some saved =>
    rw [hsaved] at hstore
    dsimp only at hstore ⊢
    split_ifs at hstore ⊢ with hdate
    · rw [← Option.some.inj hstore, hsaved, ← hdate]
    · exact hwritten hstore

theorem LimitInv.rebased_adopt (h : s.LimitInv) {orders : OrderManager} {accountId : String}
    {account : AccountSnapshot} (hday : s.WithinDay (.restarted orders accountId (.ok account)) = true) :
    s.Rebased (s.adoptEquity account).1 := by
  rcases Bool.or_eq_true_iff.mp hday with hnone | hdate
  · exact Or.inl hnone
  · by_cases hnone : s.NoBaseline = true
    · exact Or.inl hnone
    · have hsome : s.history.baseline.map Prod.fst = some s.today := by simpa [NoBaseline] using hnone
      obtain ⟨⟨day, first⟩, hbaseline, rfl⟩ := Option.map_eq_some_iff.mp hsome
      have hstored := h.stored _ _ _ hbaseline (of_decide_eq_true hdate)
      have hadopted : (s.adoptEquity account).1 = first := by
        unfold adoptEquity
        rw [hstored]
        simp
      rw [hadopted]
      exact Or.inr hbaseline

theorem LimitInv.restarted (h : s.LimitInv) {orders : OrderManager} {accountId : String}
    {reply : Except String AccountSnapshot}
    (hday : s.WithinDay (.restarted orders accountId reply) = true) :
    (s.restarted orders accountId reply).LimitInv := by
  unfold TradingEngine.restarted
  split
  · exact h.calm (calm_stop s)
  · rename_i account
    dsimp only
    cases hstore : (s.adoptEquity account).2 with
    | none => exact h.calm (calm_stop s)
    | some store =>
      have hrebased := h.rebased_adopt hday
      have hadopted := s.adoptEquity_spec account hstore
      refine h.rebased (some s.now.date) hrebased rfl rfl rfl rfl rfl rfl rfl rfl rfl
        (fun date hdate => ?_) (Nat.zero_le _)
      have hdate : (if s.history.baseline.map Prod.fst = some s.today then s.history.savedOn else some s.now.date) =
          some date := hdate
      split_ifs at hdate with hsome
      · -- the first baseline of the day stays the one on record
        have hnone : s.NoBaseline = false := by simp [NoBaseline, hsome]
        have hfrom : s.history.savedOn = some s.now.date := by simpa [WithinDay, hnone] using hday
        rw [hfrom] at hdate
        rw [← Option.some.inj hdate]
        exact hadopted
      · rw [← Option.some.inj hdate]
        exact hadopted

theorem LimitInv.advanced (h : s.LimitInv) {now : Now} (hle : s.now.epoch ≤ now.epoch) :
    LimitInv { s with now } := by
  have hmono : s.today ≤ s.calendar.etDate now.epoch := s.calendar.etDate_mono hle
  -- either the day is the same, or none of its entries is there
  have hcount : s.history.approved.count (s.calendar.etDate now.epoch) ≤ s.approvedToday := by
    rcases hmono.eq_or_lt with hsame | hlt
    · rw [approvedToday, hsame]
    · have hnotin : s.calendar.etDate now.epoch ∉ s.history.approved :=
        fun hin => absurd (h.approved_le _ hin) (not_le.mpr hlt)
      rw [List.count_eq_zero_of_not_mem hnotin]
      exact Nat.zero_le _
  constructor
  · exact h.riskCfg
  · exact fun day hday => (h.approved_le day hday).trans hmono
  · exact fun day first hday => (h.baseline_le day first hday).trans hmono
  · exact h.zeroed_le
  · exact h.counted
  · exact h.stored
  · intro hpos
    have hroom := h.flight hpos
    show (s.history.approved.count (s.calendar.etDate now.epoch) + s.inFlight : ℤ) ≤
      s.cfg.risk.maxTradesPerDay
    omega
  · refine ⟨fun first hday => ?_, hcount.trans h.law.entries⟩
    have hsame : s.calendar.etDate now.epoch = s.today := le_antisymm (h.baseline_le _ _ hday) hmono
    have hday : s.history.baseline = some (s.calendar.etDate now.epoch, first) := hday
    rw [hsame] at hday
    exact h.law.baseline first hday

/-! ### Ticks -/

theorem LimitInv.scheduleTick (h : s.LimitInv) : s.scheduleTick.LimitInv := by
  have hattended : LimitInv { s with history := { s.history with attendedDay := s.today } } :=
    h.sameCount ⟨rfl, rfl, rfl, rfl, rfl, rfl, rfl, rfl, rfl, rfl, rfl⟩ le_rfl
  unfold TradingEngine.scheduleTick
  dsimp only
  split_ifs
  · exact h
  · exact hattended.calm (calm_suspendIn _ .schedule .fetching)
  · exact hattended
  · exact h.sameCount ⟨rfl, rfl, rfl, rfl, rfl, rfl, rfl, rfl, rfl, rfl, rfl⟩ le_rfl
  · exact h.elsewhere rfl rfl le_rfl
  · exact h

theorem LimitInv.decisionTick (h : s.LimitInv) (deterministicOnly : Bool) :
    (s.decisionTick deterministicOnly).LimitInv := by
  have hlooked : LimitInv { s with risk := s.risk.lookSwitch s.now } := h.elsewhere rfl rfl le_rfl
  unfold TradingEngine.decisionTick
  dsimp only
  split_ifs
  · exact h
  · exact hlooked
  · exact hlooked.calm (calm_suspendIn _ .decision .fetching)
  · exact hlooked
  · exact h.sameCount ⟨rfl, rfl, rfl, rfl, rfl, rfl, rfl, rfl, rfl, rfl, rfl⟩ (s.le_inFlight rfl)

/-! ### Runs -/

theorem LimitInv.act (h : s.LimitInv) (e : Event) (hday : s.WithinDay e = true) : (s.act e).LimitInv := by
  cases e with
  | gateway e => exact h.sameCount ⟨rfl, rfl, rfl, rfl, rfl, rfl, rfl, rfl, rfl, rfl, rfl⟩ le_rfl
  | scheduleTicked =>
    unfold TradingEngine.act
    dsimp only
    split_ifs with hidle
    · exact h.scheduleTick
    · exact h
  | planFetched loop reply => exact h.planFetched hday
  | planned loop ok =>
    show (s.planned loop ok).LimitInv
    unfold TradingEngine.planned
    split_ifs
    · refine LimitInv.calm ?_ (calm_rest _ loop)
      exact h.withApp rfl rfl
    · exact h
  | eodReviewed ok =>
    show (s.eodReviewed ok).LimitInv
    unfold TradingEngine.eodReviewed
    split
    · split_ifs
      · exact h.sameCount ⟨rfl, rfl, rfl, rfl, rfl, rfl, rfl, rfl, rfl, rfl, rfl⟩ le_rfl
      · exact h.elsewhere rfl rfl le_rfl
    · exact h
  | decisionTicked deterministicOnly =>
    unfold TradingEngine.act
    dsimp only
    split
    · exact h.decisionTick deterministicOnly
    · exact h
  | proposed order i cycleId approvalId => exact h.proposed hday
  | cyclePlaced reply => exact h.cyclePlaced reply
  | closeProposed symbol p cycleId approvalId =>
    show (s.closeProposed symbol p cycleId approvalId).LimitInv
    unfold TradingEngine.closeProposed
    split
    · exact h.withApp rfl rfl
    · exact h
  | clicked id resized i => exact h.clicked hday
  | approvalPlaced i reply => exact h.approvalPlaced i reply
  | _ => exact h.calm (calm_act s rfl)

theorem LimitInv.step (h : s.LimitInv) (e : Event) (hday : s.WithinDay e = true) :
    (s.step e).LimitInv := by
  refine step_cases h (fun now _ hle => h.advanced hle) (fun orders accountId reply he => ?_)
    (h.act e hday)
  rw [he] at hday
  exact h.restarted hday

theorem limitInv_off (cfg : StrategyConfig) (isLive : Bool) (calendar : MarketCalendar) (now : Now)
    (killSwitch : KillSwitch) (store : StateStore) (positions : Dict String Position) :
    (off cfg isLive calendar now killSwitch store positions).LimitInv :=
  ⟨rfl, fun _ hday => (nomatch hday), fun _ _ hday => (nomatch hday), le_rfl, rfl,
    fun _ _ _ hday => (nomatch hday), fun hpos => (nomatch hpos), ⟨fun _ hday => (nomatch hday), Nat.zero_le _⟩⟩

/-- **Daily limits survive restarts** in every run whose steps meet the condition, from before the first
start of the process on. -/
theorem daily_limits_survive_restarts (cfg : StrategyConfig) (isLive : Bool) (calendar : MarketCalendar)
    (now : Now) (killSwitch : KillSwitch) (store : StateStore) (positions : Dict String Position)
    (events : List Event)
    (hday : Trace.Each step (fun s e => s.WithinDay e = true)
      (off cfg isLive calendar now killSwitch store positions) events) :
    Trace.Always step LimitsKept (off cfg isLive calendar now killSwitch store positions) events := by
  have hstep : ∀ s e, LimitInv s → s.WithinDay e = true → LimitInv (s.step e) :=
    fun _ e h hday => h.step e hday
  exact Trace.always_of_inductive hstep (fun _ h => h.law)
    (limitInv_off cfg isLive calendar now killSwitch store positions) hday

/-! ### Restarts within a day -/

/-- Not yet started, with a cap of one trade a day. -/
def coldStart : TradingEngine :=
  off { risk := { maxTradesPerDay := 1 } } false dailySessions (clock 0 55800) {} {} Dict.empty

/-- A start in the session, with the planning pass that the decision loop then runs. -/
def bootAndPlan (now : Now) (equity : ℚ) : List Event :=
  [.advanced now, .restarted {} "DU1" (.ok (accountAt now equity)), .decisionTicked false,
    .planFetched .decision (.ok (accountAt now equity)), .planned .decision true]

/-- An entry, and a start at a lower equity. -/
def restartedAfterEntry : List Event :=
  bootAndPlan (clock 0 55800) 100000 ++ entryCycle "AAPL" (clock 0 56000) ++
    [.advanced (clock 0 58000), .restarted {} "DU1" (.ok (accountAt (clock 0 58000) 99000))]

theorem daily_limits_survive_restarts_calm :
    Trace.Always step LimitsKept coldStart restartedAfterEntry :=
  daily_limits_survive_restarts { risk := { maxTradesPerDay := 1 } } false dailySessions (clock 0 55800) {}
    {} Dict.empty _ (by decide +kernel)

/-- An entry, a loss of one percent, a restart, and the next entry. -/
def restartedSession : List Event :=
  bootAndPlan (clock 0 55800) 100000 ++ entryCycle "AAPL" (clock 0 56000) ++
    bootAndPlan (clock 0 58000) 99000 ++ entryCycle "MSFT" (clock 0 58000)

/-- The planning pass after the restart sets the baseline to 99000 and the counter to zero: the day ends with
two entries under a cap of one, measured against the second baseline. -/
theorem planning_after_restart_resets :
    (Trace.run step coldStart restartedSession).history.baseline = some (0, 100000) ∧
      (Trace.run step coldStart restartedSession).app.startingEquity = 99000 ∧
      (Trace.run step coldStart restartedSession).approvedToday = 2 ∧
      ¬ Trace.Always step LimitsKept coldStart restartedSession := by
  have hbaseline : (Trace.run step coldStart restartedSession).history.baseline = some (0, 100000) := by
    decide +kernel
  have hcount : (Trace.run step coldStart restartedSession).approvedToday = 2 := by
    decide +kernel
  refine ⟨hbaseline, by decide +kernel, hcount, fun h => ?_⟩
  have hentries := h.last.entries
  rw [hcount] at hentries
  exact absurd hentries (by decide +kernel)

end TradingEngine

end AiTrader
