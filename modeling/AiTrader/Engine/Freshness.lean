import AiTrader.Engine.Execute

/-!
# The age of a decision

The gate refuses a decision that is too old (check 6). The age is counted from `decided_at`, which a reply may
set: two replies with the same proposals can come to different verdicts.

`same_outcome_iff`: they lead to the same verdicts and the same requests, whatever the cycle meets, exactly when
they give the same time for the decision or propose no entry that gets as far as the gate. If the times differ,
a cycle late enough tells them apart: both are refused as stale, each with its own age in the text
(`heads_of_probe`).

To tell two decisions apart a cycle is built: a desk on which nothing has happened, an account that pays for every
share, features with which each entry is sized, and a clock so late that one decision is a little older than the other
at a tie of the rounding. Proposals that do not reach the gate leave no trace (`executeOne_probe_passes`), and the
first entry that does is refused with the age in its text. The texts differ because a tie and what lies above it are
rounded to different numbers (`Decimal.fixed_zero_ne`). In the other direction, a proposal that does not reach the
gate never asks for the age.
-/

namespace AiTrader

open Lib RiskEngine

/-- An entry that is not turned away for its conviction. -/
def TradeProposal.reachesGate (p : TradeProposal) : Bool := p.isEntry && decide (55 / 100 ≤ p.conviction)

/-! ### Decisions of the same age -/

theorem sizeProposal_of_not_isEntry {p : TradeProposal} (h : p.isEntry = false) (features : FeaturePack)
    (account : AccountSnapshot) (quote : Option Quote) (cfg : RiskConfig) (limitOffsetPct : ℚ) :
    sizeProposal p features account quote cfg limitOffsetPct = none := by
  have hneither : p.action ≠ .buy ∧ p.action ≠ .sell := by
    simpa [TradeProposal.isEntry] using h
  rw [sizeProposal, if_pos hneither]

namespace CycleWorld

variable {w : CycleWorld} {t : Turn} {d e : CycleDecision}

theorem executeOne_congr {p : TradeProposal} (h : p.reachesGate = true → d.ageSeconds = e.ageSeconds)
    (s : Executing) : w.executeOne d t p s = w.executeOne e t p s := by
  unfold executeOne
  by_cases hclose : p.action = .close
  · rw [if_pos hclose, if_pos hclose]
  · rw [if_neg hclose, if_neg hclose]
    cases w.features.get? p.symbol with
    | none => rfl
    | some features =>
      dsimp only
      by_cases hconviction : p.conviction < 55 / 100
      · rw [if_pos hconviction, if_pos hconviction]
      · rw [if_neg hconviction, if_neg hconviction]
        by_cases hentry : p.isEntry = true
        · have hreaches : p.reachesGate = true := by
            simp [TradeProposal.reachesGate, hentry, not_lt.mp hconviction]
          simp only [Executing.enter, h hreaches]
        · rw [sizeProposal_of_not_isEntry (by simpa using hentry)]

theorem executeFrom_congr {ps : List TradeProposal}
    (h : ∀ p ∈ ps, p.reachesGate = true → d.ageSeconds = e.ageSeconds) (i : ℕ) (s : Executing) :
    w.executeFrom d i ps s = w.executeFrom e i ps s := by
  induction ps generalizing i s with
  | nil => rfl
  | cons p ps ih =>
    rw [executeFrom, executeFrom, executeOne_congr (h p List.mem_cons_self),
      ih fun p' hp' => h p' (List.mem_cons_of_mem _ hp')]

end CycleWorld

/-! ### A cycle in which only the age can be wrong -/

namespace RiskEngine

/-- What the gate says of a decision that is too old. -/
def staleDecision (cfg : RiskConfig) (age : ℚ) (symbol : String) : RiskVerdict :=
  .reject .staleMarketData
    ("decision is " ++ Decimal.fixed 0 age ++ "s old (max " ++ Decimal.fixed 0 cfg.maxDecisionAgeSeconds ++ "s)")
    symbol

variable {e : RiskEngine} {order : SizedOrder} {ctx : RiskContext} {now : Now}

theorem evaluate_stale (hswitch : checkKillSwitch (e.killSwitch.look now) = []) (hinterlock : checkInterlock ctx = [])
    (hphase : checkPhase ctx = []) (hcutoff : checkCutoff e.cfg ctx = [])
    (haccount : checkAccountAge e.cfg ctx now = [])
    (hage : e.cfg.maxDecisionAgeSeconds < ctx.decisionAgeSeconds) :
    (e.evaluate order ctx now).1 = staleDecision e.cfg ctx.decisionAgeSeconds order.symbol := by
  have hstale : checkDecisionAge e.cfg ctx =
      [{ reason := .staleMarketData
         detail := "decision is " ++ Decimal.fixed 0 ctx.decisionAgeSeconds ++ "s old (max " ++
           Decimal.fixed 0 e.cfg.maxDecisionAgeSeconds ++ "s)" }] := by
    rw [checkDecisionAge, failIf, if_pos (decide_eq_true hage)]
  unfold evaluate failures
  simp only [hswitch, hinterlock, hphase, hcutoff, haccount, hstale, List.flatten_cons, List.nil_append,
    List.cons_append]
  rfl

theorem staleDecision_ne {cfg : RiskConfig} {n : ℕ} {age : ℚ} (h : 2 * n + 1 / 2 < age) (symbol : String) :
    staleDecision cfg age symbol ≠ staleDecision cfg (2 * n + 1 / 2) symbol := by
  intro heq
  have hdetail := congrArg RiskVerdict.detail heq
  simp only [staleDecision, RiskVerdict.reject, String.append_left_inj, String.append_right_inj] at hdetail
  exact Decimal.fixed_zero_ne h hdetail

end RiskEngine

theorem Desk.submit_of_rejected {g : Desk} {order : SizedOrder} {ctx : RiskContext} {cycleId : String} {now : Now}
    (h : (g.risk.evaluate order ctx now).1.approved = false) :
    (g.submit order ctx cycleId now).2.2 = .returned (g.risk.evaluate order ctx now).1 := by
  unfold Desk.submit RiskEngine.submitStart
  dsimp only
  rw [if_pos (by rw [h]; rfl)]

/-! #### The probe -/

/-- The defaults, without the risk officer. -/
def probeConfig : RiskConfig := { requireRiskOfficer := false }

def probeClock (epoch : ℚ) : Now := .sample epoch 0

def probeAccount (epoch : ℚ) : AccountSnapshot where
  accountId := "DU1"
  equity := 1000000
  cash := 1000000
  buyingPower := 1000000
  asOf := epoch

/-- A paper account without positions, an open market without quotes, and features for one symbol. -/
def probeWorld (symbol : String) (epoch : ℚ) : CycleWorld where
  settings := { secrets := {}, strategy := { risk := probeConfig } }
  account := probeAccount epoch
  phase := .rth
  minutesToClose := none
  features := Dict.empty.set symbol { price := 100 }
  cycleId := "c1"
  turn _ := { now := probeClock epoch, later := probeClock epoch }

def probeDesk : CloseDesk where
  app := {}
  risk := { cfg := probeConfig, killSwitch := {} }
  orders := {}

section Probe

variable {p : TradeProposal} {d : CycleDecision} {symbol : String} {epoch age : ℚ} {t : Turn} {s : Executing}

theorem isValid_probe (hp : p.Admissible) (isLong : Bool) :
    let prices := Sizing.prices p { price := 100 } 100 (1 / 1000) isLong
    Sizing.isValid prices isLong = true ∧ |prices.entry - prices.stop| = 3 / 20 ∧ 0 < prices.entry ∧
      prices.entry ≤ 101 := by
  have hdistance : computeStopDistance p { price := 100 } = 3 / 20 := by
    unfold computeStopDistance
    norm_num
  have htarget := hp.targetRMultiple.1
  cases isLong with
  | true =>
    have hentry : roundToTick (100 + 100 * (1 / 1000)) = 1001 / 10 := by decide +kernel
    have hstop : roundToTick (1001 / 10 - 3 / 20) = 1999 / 20 := by decide +kernel
    have hnear := abs_le.mp (abs_roundToTick_sub_le (1001 / 10 + 3 / 20 * p.targetRMultiple))
    simp only [Sizing.prices, Sizing.isValid, if_true, hdistance, hentry, hstop, decide_eq_true_eq]
    refine ⟨⟨by norm_num, by linarith⟩, by norm_num [abs_of_pos], by norm_num, by norm_num⟩
  | false =>
    have hentry : roundToTick (100 - 100 * (1 / 1000)) = 999 / 10 := by decide +kernel
    have hstop : roundToTick (999 / 10 + 3 / 20) = 2001 / 20 := by decide +kernel
    have hnear := abs_le.mp (abs_roundToTick_sub_le (999 / 10 - 3 / 20 * p.targetRMultiple))
    simp only [Sizing.prices, Sizing.isValid, Bool.false_eq_true, if_false, hdistance, hentry, hstop,
      decide_eq_true_eq]
    refine ⟨⟨by linarith, by norm_num⟩, by norm_num [abs_of_neg], by norm_num, by norm_num⟩

theorem exists_sized_probe (hp : p.Admissible) (hentry : p.isEntry = true) :
    ∃ sized, sizeProposal p { price := 100 } (probeAccount epoch) none probeConfig (1 / 1000) = some sized ∧
      sized.symbol = p.symbol := by
  obtain ⟨hvalid, hdistance, hpos, hle⟩ := isValid_probe hp (decide (p.action = .buy))
  have hsides : ¬ (p.action ≠ .buy ∧ p.action ≠ .sell) := by
    have heither : p.action = .buy ∨ p.action = .sell := of_decide_eq_true hentry
    tauto
  have hbase : Sizing.basePrice { price := 100 } none = 100 := rfl
  have hequity : (probeAccount epoch).equity = 1000000 := rfl
  unfold sizeProposal
  rw [if_neg hsides, hequity, if_neg (by norm_num)]
  dsimp only
  rw [hbase, if_neg (by norm_num), hvalid, hdistance, if_neg (by decide), if_neg (by norm_num)]
  generalize (Sizing.prices p { price := 100 } 100 (1 / 1000) (decide (p.action = .buy))).entry = entry at hpos hle ⊢
  have hbudget : (1500 : ℚ) ≤ Sizing.riskBudget p.conviction 1000000 probeConfig :=
    le_max_of_le_right (by norm_num [probeConfig])
  have haffords : ∀ budget : ℚ, 101 ≤ budget → 1 ≤ Sizing.affordable budget entry := by
    intro budget hbudget
    rw [Sizing.affordable, if_pos hpos, Int.le_floor, Int.cast_one, one_le_div hpos]
    linarith
  have hshares : minShares ≤ Sizing.shares (Sizing.riskBudget p.conviction 1000000 probeConfig) (3 / 20) entry
      { price := 100 } (probeAccount epoch) probeConfig := by
    have hrisk : 1 ≤ ⌊Sizing.riskBudget p.conviction 1000000 probeConfig / (3 / 20)⌋ := by
      rw [Int.le_floor, Int.cast_one, one_le_div (by norm_num)]
      linarith
    have hnotional := haffords (Sizing.maxNotional (probeAccount epoch) probeConfig)
      (by norm_num [Sizing.maxNotional, probeAccount, probeConfig])
    have hpower := haffords (Sizing.usableBuyingPower (probeAccount epoch) probeConfig)
      (by norm_num [Sizing.usableBuyingPower, probeAccount, probeConfig])
    simp only [Sizing.shares, lt_self_iff_false, if_false]
    exact le_min (le_min hrisk hnotional) hpower
  rw [if_neg (not_lt.mpr hshares)]
  exact ⟨_, rfl, rfl⟩

theorem executeOne_probe_passes (h : p.reachesGate = false) (t : Turn) :
    ∃ record, (probeWorld symbol epoch).executeOne d t p s = { s with record } := by
  unfold CycleWorld.executeOne
  by_cases hclose : p.action = .close
  · rw [if_pos hclose]
    have hnone : (probeWorld symbol epoch).account.openPositions.get? p.symbol = none := rfl
    exact ⟨_, Executing.close_of_not_held hnone⟩
  · rw [if_neg hclose]
    cases hfeatures : (probeWorld symbol epoch).features.get? p.symbol with
    | none => exact ⟨_, rfl⟩
    | some features =>
      dsimp only
      by_cases hconviction : p.conviction < 55 / 100
      · rw [if_pos hconviction]
        exact ⟨_, rfl⟩
      · have hentry : p.isEntry = false := by
          simpa [TradeProposal.reachesGate, not_lt.mp hconviction] using h
        rw [if_neg hconviction, sizeProposal_of_not_isEntry hentry]
        exact ⟨_, rfl⟩

theorem executeFrom_probe_passes {ps : List TradeProposal} (h : ∀ p ∈ ps, p.reachesGate = false)
    (hraised : s.raised = none) (i : ℕ) :
    ∃ record, (probeWorld symbol epoch).executeFrom d i ps s = { s with record } := by
  induction ps generalizing i s with
  | nil => exact ⟨s.record, rfl⟩
  | cons p ps ih =>
    rw [CycleWorld.executeFrom_cons hraised]
    obtain ⟨record, hone⟩ := @executeOne_probe_passes p d symbol epoch s (h p List.mem_cons_self)
      ((probeWorld symbol epoch).turn i)
    rw [hone]
    exact @ih { s with record } (fun p' hp' => h p' (List.mem_cons_of_mem _ hp')) hraised _

theorem executeOne_probe_entry (hp : p.Admissible) (hreaches : p.reachesGate = true) (s : Executing) (i : ℕ) :
    ∃ sized features, sized.symbol = p.symbol ∧
      (probeWorld p.symbol epoch).executeOne d ((probeWorld p.symbol epoch).turn i) p s =
        s.enter (probeWorld p.symbol epoch) ((probeWorld p.symbol epoch).turn i) d features sized := by
  obtain ⟨hentry, hconviction⟩ : p.isEntry = true ∧ 55 / 100 ≤ p.conviction := by
    simpa [TradeProposal.reachesGate] using hreaches
  obtain ⟨sized, hsized, hsymbol⟩ := @exists_sized_probe p epoch hp hentry
  have hopen : p.action ≠ .close := by
    rintro hclose
    simp [TradeProposal.isEntry, hclose] at hentry
  have hfeatures : (probeWorld p.symbol epoch).features.get? p.symbol = some { price := 100 } :=
    Dict.get?_set_self _ _ _
  refine ⟨sized, { price := 100 }, hsymbol, ?_⟩
  unfold CycleWorld.executeOne
  rw [if_neg hopen, hfeatures]
  dsimp only
  rw [if_neg (not_lt.mpr hconviction)]
  have hsame : sizeProposal p { price := 100 } (probeWorld p.symbol epoch).account
      ((probeWorld p.symbol epoch).turn i).quote (probeWorld p.symbol epoch).settings.strategy.risk
      (probeWorld p.symbol epoch).settings.strategy.broker.limitOffsetPct = some sized := hsized
  rw [hsame]

theorem evaluate_probe (hold : probeConfig.maxDecisionAgeSeconds < age) (i : ℕ) (features : FeaturePack)
    (order : SizedOrder) :
    (probeDesk.risk.evaluate order ((probeWorld symbol epoch).context ((probeWorld symbol epoch).turn i) probeDesk
      features age) (probeClock epoch)).1 = staleDecision probeConfig age order.symbol := by
  have hpaper : ∀ epoch, (probeAccount epoch).isPaper = true := fun _ => by
    show ("DU".toList.isPrefixOf ("DU1".toList.map Char.toUpper) ||
      "DF".toList.isPrefixOf ("DU1".toList.map Char.toUpper)) = true
    decide
  refine evaluate_stale rfl ?_ rfl rfl ?_ hold
  · have hisPaper := hpaper epoch
    simp [checkInterlock, failIf, CycleWorld.context, probeWorld, hisPaper, Settings.isLive]
  · have hfresh : (0 : ℚ) ≤ probeDesk.risk.cfg.maxAccountAgeSeconds := by decide +kernel
    simp [checkAccountAge, failIf_eq_nil, CycleWorld.context, probeWorld, probeAccount, probeClock,
      AccountSnapshot.ageSeconds, hfresh]

theorem verdicts_enter_stale {stamp : ℚ} (hstamp : d.decidedAt = .aware stamp)
    (hold : probeConfig.maxDecisionAgeSeconds < epoch - stamp) (hdesk : s.desk = probeDesk) (i : ℕ)
    (features : FeaturePack) (sized : SizedOrder) :
    (s.enter (probeWorld symbol epoch) ((probeWorld symbol epoch).turn i) d features sized).verdicts =
      s.verdicts ++ [staleDecision probeConfig (epoch - stamp) sized.symbol] := by
  have hage : d.ageSeconds ((probeWorld symbol epoch).turn i).now.epoch = .ok (epoch - stamp) := by
    rw [CycleDecision.ageSeconds, hstamp]
    rfl
  have hofficer : (probeWorld symbol epoch).settings.strategy.risk.requireRiskOfficer = false := rfl
  have hauto : ¬ probeDesk.app.executionMode = .manual := by decide
  unfold Executing.enter
  rw [hofficer, if_neg Bool.false_ne_true, hage, hdesk]
  dsimp only
  rw [if_neg hauto]
  have hverdict := @evaluate_probe symbol epoch (epoch - stamp) hold i features sized
  have hreturned := @Desk.submit_of_rejected probeDesk.gate sized
    ((probeWorld symbol epoch).context ((probeWorld symbol epoch).turn i) probeDesk features (epoch - stamp)) "c1"
    (probeClock epoch) ((congrArg RiskVerdict.approved hverdict).trans rfl)
  unfold Executing.submit
  dsimp only
  split
  · rename_i verdict hsubmit
    rw [CycleWorld.verdicts_judged]
    have hsame := Submitted.returned.inj (hsubmit.symm.trans hreturned)
    rw [hsame]
    exact congrArg (fun verdict => s.verdicts ++ [verdict]) hverdict
  · rename_i verdict hsubmit
    cases hsubmit.symm.trans hreturned

theorem enter_naive {w : CycleWorld} (hstamp : d.decidedAt = .naive) (features : FeaturePack) (sized : SizedOrder) :
    (s.enter w t d features sized).verdicts = s.verdicts ∧
      (s.enter w t d features sized).raised.isSome = true := by
  have hage : d.ageSeconds t.now.epoch = .error "can't subtract offset-naive and offset-aware datetimes" := by
    rw [CycleDecision.ageSeconds, hstamp]
  unfold Executing.enter
  rw [hage]
  exact ⟨rfl, rfl⟩

variable {pre post : List TradeProposal}

/-- `p` is the first of the proposals that reaches the gate. -/
structure FirstAtGate (proposals pre : List TradeProposal) (p : TradeProposal) (post : List TradeProposal) :
    Prop where
  split : proposals = pre ++ p :: post
  before : ∀ p' ∈ pre, p'.reachesGate = false
  admissible : p.Admissible
  reaches : p.reachesGate = true

theorem execute_probe (hfirst : FirstAtGate d.proposals pre p post) (epoch : ℚ) :
    ∃ record sized features, sized.symbol = p.symbol ∧
      (probeWorld p.symbol epoch).execute d probeDesk {} =
        (probeWorld p.symbol epoch).executeFrom d (pre.length + 1) post
          (({ desk := probeDesk, record } : Executing).enter (probeWorld p.symbol epoch)
            ((probeWorld p.symbol epoch).turn pre.length) d features sized) := by
  obtain ⟨record, hrecord⟩ := @executeFrom_probe_passes d p.symbol epoch { desk := probeDesk } pre hfirst.before
    rfl 0
  obtain ⟨sized, features, hsymbol, hone⟩ := @executeOne_probe_entry p d epoch hfirst.admissible hfirst.reaches
    { desk := probeDesk, record } pre.length
  refine ⟨record, sized, features, hsymbol, ?_⟩
  rw [CycleWorld.execute, hfirst.split, CycleWorld.executeFrom_append, Nat.zero_add, hrecord,
    CycleWorld.executeFrom_cons rfl, hone]

theorem heads_of_probe (hfirst : FirstAtGate d.proposals pre p post) {stamp : ℚ}
    (hstamp : d.decidedAt = .aware stamp) (hold : probeConfig.maxDecisionAgeSeconds < epoch - stamp) :
    [staleDecision probeConfig (epoch - stamp) p.symbol] <+:
      ((probeWorld p.symbol epoch).execute d probeDesk {}).verdicts := by
  obtain ⟨record, sized, features, hsymbol, hrun⟩ := execute_probe hfirst epoch
  have hentered := @verdicts_enter_stale d p.symbol epoch { desk := probeDesk, record } stamp hstamp hold rfl
    pre.length features sized
  rw [hsymbol, List.nil_append] at hentered
  rw [hrun, ← hentered]
  exact CycleWorld.verdicts_executeFrom _ _ _

theorem no_verdict_of_probe (hfirst : FirstAtGate d.proposals pre p post) (hstamp : d.decidedAt = .naive)
    (epoch : ℚ) : ((probeWorld p.symbol epoch).execute d probeDesk {}).verdicts = [] := by
  obtain ⟨record, sized, features, -, hrun⟩ := execute_probe hfirst epoch
  obtain ⟨hverdicts, hraised⟩ := @enter_naive d ((probeWorld p.symbol epoch).turn pre.length)
    { desk := probeDesk, record } (probeWorld p.symbol epoch) hstamp features sized
  rw [hrun, CycleWorld.executeFrom_of_raised hraised, hverdicts]

end Probe

/-! ### Two replies -/

/-- What a cycle can meet that has received its reply at the given moment: an accepted configuration without
the risk officer, positions in symbols the model may name, and a clock that runs on. -/
structure CycleWorld.Possible (w : CycleWorld) (desk : CloseDesk) (allowed : List String) (received : ℚ) :
    Prop where
  accepted : ∃ raw warnings, RiskConfig.validate raw = .ok (w.settings.strategy.risk, warnings)
  officer : w.settings.strategy.risk.requireRiskOfficer = false
  wired : desk.risk.cfg = w.settings.strategy.risk
  held : ∀ symbol ∈ w.account.openPositions.keys, symbol ∈ allowed
  began : received ≤ (w.turn 0).now.epoch
  clock : ∀ i, (w.turn i).now.epoch ≤ (w.turn i).later.epoch ∧
    (w.turn i).later.epoch ≤ (w.turn (i + 1)).now.epoch

/-- The gate gives the same verdicts, on the same ages, and the same orders go out. -/
def SameOutcome (allowed : List String) (received : ℚ) (d e : CycleDecision) : Prop :=
  ∀ (w : CycleWorld) (desk : CloseDesk) (record : CycleRecord), w.Possible desk allowed received →
    (w.execute d desk record).verdicts = (w.execute e desk record).verdicts ∧
      (w.execute d desk record).requests = (w.execute e desk record).requests ∧
      (w.execute d desk record).ages = (w.execute e desk record).ages

theorem SameOutcome.symm {allowed : List String} {received : ℚ} {d e : CycleDecision}
    (h : SameOutcome allowed received d e) : SameOutcome allowed received e d := by
  intro w desk record hpossible
  obtain ⟨hverdicts, hrequests, hages⟩ := h w desk record hpossible
  exact ⟨hverdicts.symm, hrequests.symm, hages.symm⟩

theorem possible_probe {allowed : List String} {received epoch : ℚ} (symbol : String) (h : received ≤ epoch) :
    (probeWorld symbol epoch).Possible probeDesk allowed received where
  accepted :=
    have hvalid : probeConfig.validate = .ok (probeConfig, []) := by decide +kernel
    ⟨probeConfig, [], hvalid⟩
  officer := rfl
  wired := rfl
  held := fun _ hmem => nomatch hmem
  began := h
  clock := fun _ => ⟨le_rfl, le_rfl⟩

theorem exists_late (stamp received : ℚ) :
    ∃ n : ℕ, probeConfig.maxDecisionAgeSeconds < 2 * n + 1 / 2 ∧ received ≤ stamp + (2 * n + 1 / 2) := by
  have hlate := max_le_iff.mp (Nat.le_ceil (max 60 (received - stamp)))
  have hlimit : probeConfig.maxDecisionAgeSeconds = 120 := rfl
  refine ⟨⌈max 60 (received - stamp)⌉₊, ?_, ?_⟩ <;> linarith

section

variable {allowed : List String} {received : ℚ} {d e : CycleDecision} {p : TradeProposal}
  {pre post : List TradeProposal}

theorem not_sameOutcome_of_lt (hd : FirstAtGate d.proposals pre p post) (he : FirstAtGate e.proposals pre p post)
    {older younger : ℚ} (hdstamp : d.decidedAt = .aware older) (hestamp : e.decidedAt = .aware younger)
    (hlt : older < younger) : ¬ SameOutcome allowed received d e := by
  intro hsame
  obtain ⟨n, hlimit, hlate⟩ := exists_late younger received
  have hyoung : younger + (2 * n + 1 / 2) - younger = 2 * n + 1 / 2 := add_sub_cancel_left _ _
  have hold : (2 * n + 1 / 2 : ℚ) < younger + (2 * n + 1 / 2) - older := by linarith
  obtain ⟨hverdicts, -⟩ := hsame _ _ {} (possible_probe p.symbol hlate)
  have hdhead := heads_of_probe hd hdstamp (hlimit.trans hold)
  have hehead := heads_of_probe he hestamp (hlimit.trans_eq hyoung.symm)
  rw [← hverdicts, hyoung] at hehead
  have hboth := (List.prefix_of_prefix_length_le hdhead hehead le_rfl).eq_of_length rfl
  exact staleDecision_ne hold p.symbol (List.singleton_inj.mp hboth)

theorem not_sameOutcome_of_naive (hd : FirstAtGate d.proposals pre p post)
    (he : FirstAtGate e.proposals pre p post) {stamp : ℚ} (hdstamp : d.decidedAt = .aware stamp)
    (hestamp : e.decidedAt = .naive) : ¬ SameOutcome allowed received d e := by
  intro hsame
  obtain ⟨n, hlimit, hlate⟩ := exists_late stamp received
  have hage : stamp + (2 * n + 1 / 2) - stamp = 2 * n + 1 / 2 := add_sub_cancel_left _ _
  obtain ⟨hverdicts, -⟩ := hsame _ _ {} (possible_probe p.symbol hlate)
  have hhead := heads_of_probe hd hdstamp (hlimit.trans_eq hage.symm)
  rw [hverdicts, no_verdict_of_probe he hestamp] at hhead
  exact absurd (List.prefix_nil.mp hhead) (List.cons_ne_nil _ _)

theorem decidedAt_eq_of_sameOutcome (hsame : SameOutcome allowed received d e)
    (hproposals : d.proposals = e.proposals) (hadmissible : ∀ p ∈ d.proposals, p.Admissible)
    (hreaches : ∃ p ∈ d.proposals, p.reachesGate = true) : d.decidedAt = e.decidedAt := by
  obtain ⟨first, hfind⟩ := Option.isSome_iff_exists.mp (List.find?_isSome.mpr hreaches)
  obtain ⟨hgate, pre, post, hsplit, hbefore⟩ := List.find?_eq_some_iff_append.mp hfind
  have hd : FirstAtGate d.proposals pre first post :=
    { split := hsplit
      before := fun p' hp' => by simpa using hbefore p' hp'
      admissible := hadmissible first (by rw [hsplit]; simp)
      reaches := hgate }
  have he : FirstAtGate e.proposals pre first post := hproposals ▸ hd
  cases hdstamp : d.decidedAt with
  | naive =>
    cases hestamp : e.decidedAt with
    | naive => rfl
    | aware younger => exact absurd hsame.symm (not_sameOutcome_of_naive he hd hestamp hdstamp)
  | aware older =>
    cases hestamp : e.decidedAt with
    | naive => exact absurd hsame (not_sameOutcome_of_naive hd he hdstamp hestamp)
    | aware younger =>
      rcases lt_trichotomy older younger with hlt | rfl | hlt
      · exact absurd hsame (not_sameOutcome_of_lt hd he hdstamp hestamp hlt)
      · rfl
      · exact absurd hsame.symm (not_sameOutcome_of_lt he hd hestamp hdstamp hlt)

theorem sameOutcome_of_ageSeconds (hproposals : d.proposals = e.proposals)
    (h : ∀ p ∈ d.proposals, p.reachesGate = true → d.ageSeconds = e.ageSeconds) :
    SameOutcome allowed received d e := by
  intro w desk record _
  have hrun : w.execute d desk record = w.execute e desk record := by
    rw [CycleWorld.execute, CycleWorld.execute, ← hproposals]
    exact CycleWorld.executeFrom_congr h 0 _
  rw [hrun]
  exact ⟨rfl, rfl, rfl⟩

end

/-- **When two replies with the same proposals come to the same outcome**: they give the same time for the
decision, or none of their entries gets past the check of its conviction. -/
theorem same_outcome_iff {py : Pydantic} {allowed : List String} {received : ℚ} {p q : Payload}
    {d e : CycleDecision} (hp : CycleDecision.validate py (some allowed) received p = .ok d)
    (hq : CycleDecision.validate py (some allowed) received q = .ok e) (hproposals : d.proposals = e.proposals)
    (cycleId : String) :
    SameOutcome allowed received (AgentRunner.decide cycleId received (some d))
        (AgentRunner.decide cycleId received (some e)) ↔
      CycleDecision.stampOf py received p = CycleDecision.stampOf py received q ∨
        ∀ x ∈ d.proposals, x.isEntry = true → x.conviction < 55 / 100 := by
  obtain ⟨hadmissible, -, hdstamp⟩ := CycleDecision.fields_of_validate hp
  obtain ⟨-, -, hestamp⟩ := CycleDecision.fields_of_validate hq
  rw [hdstamp, hestamp, Except.ok.injEq]
  have hreaches : (∀ x ∈ d.proposals, x.isEntry = true → x.conviction < 55 / 100) ↔
      ¬ ∃ x ∈ d.proposals, x.reachesGate = true := by
    simp [TradeProposal.reachesGate]
  rw [hreaches]
  constructor
  · intro hsame
    rw [or_iff_not_imp_right, not_not]
    exact @decidedAt_eq_of_sameOutcome allowed received { d with cycleId } { e with cycleId } hsame hproposals
      hadmissible
  · rintro (hstamp | hnone)
    · refine sameOutcome_of_ageSeconds hproposals fun _ _ _ => ?_
      funext now
      show CycleDecision.ageSeconds { d with cycleId } now = CycleDecision.ageSeconds { e with cycleId } now
      unfold CycleDecision.ageSeconds
      dsimp only
      rw [hstamp]
    · exact sameOutcome_of_ageSeconds hproposals fun x hx hgate => absurd ⟨x, hx, hgate⟩ hnone

/-! ### A decision from the next century -/

def digitsValue (cs : List Char) : ℕ := cs.foldl (fun n ch => 10 * n + (ch.toNat - 48)) 0

/-- The value of a literal without sign and exponent. -/
def plainNumber : Json → Option ℚ
  | .number n =>
    let whole := digitsValue (n.literal.takeWhile isDigit)
    match n.literal.dropWhile isDigit with
    | [] => some whole
    | ch :: fraction => if ch = '.' then some (whole + digitsValue fraction / 10 ^ fraction.length) else none
  | _ => none

/-- Of the library's readers the part that the payloads below need. -/
def plainReader : Pydantic where
  number := plainNumber
  integer v := (plainNumber v).bind fun q => if q.den = 1 then some q.num else none
  datetime v := (plainNumber v).map Stamp.aware
  message _ := "invalid"

def literal (s : String) (valid : takeNumber s.toList = some (s.toList, []) := by decide) : Json :=
  .number ⟨s.toList, valid⟩

def buyMember (symbol : String) : Json :=
  .object [("symbol", .string symbol), ("action", .string "BUY"), ("conviction", literal "0.8"),
    ("horizon_minutes", literal "60")]

/-- A reply that says nothing about its time. -/
def undated : Payload := [("proposals", .array [buyMember "AAPL", buyMember "MSFT"])]

/-- The same reply, dated to the year 2100. -/
def postdated : Payload := undated ++ [("decided_at", literal "4102444800")]

def twoBuys (decidedAt : Stamp) : CycleDecision :=
  let buy := fun symbol => { symbol, action := .buy, conviction := 4 / 5, horizonMinutes := 60 : TradeProposal }
  { proposals := [buy "AAPL", buy "MSFT"], decidedAt }

def slowClock (i : ℕ) : Now := .sample (if i = 0 then 1000 else 1100) 0

/-- The broker takes a hundred seconds to answer the first bracket. -/
def slowBroker : CycleWorld where
  settings := { secrets := {}, strategy := { risk := { requireRiskOfficer := false, maxDecisionAgeSeconds := 60 } } }
  account := { accountId := "DU1", equity := 100000, cash := 100000, buyingPower := 100000, asOf := 1000 }
  phase := .rth
  minutesToClose := some 200
  features := (Dict.empty.set "AAPL" { price := 100, atr := 1 }).set "MSFT" { price := 100, atr := 1 }
  cycleId := "c1"
  turn i :=
    { quote := some {
        symbol := if i = 0 then "AAPL" else "MSFT", last := some 100, updatedAt := (slowClock i).epoch }
      now := slowClock i
      later := slowClock 1 }

def slowDesk : CloseDesk where
  app := {}
  risk := { cfg := slowBroker.settings.strategy.risk, killSwitch := {} }
  orders := {}

theorem same_outcome_iff_undated :
    SameOutcome ["AAPL", "MSFT"] 1000 (AgentRunner.decide "c1" 1000 (some (twoBuys (.aware 1000))))
        (AgentRunner.decide "c1" 1000 (some (twoBuys (.aware 4102444800)))) ↔
      CycleDecision.stampOf plainReader 1000 undated = CycleDecision.stampOf plainReader 1000 postdated ∨
        ∀ x ∈ (twoBuys (.aware 1000)).proposals, x.isEntry = true → x.conviction < 55 / 100 :=
  @same_outcome_iff plainReader ["AAPL", "MSFT"] 1000 undated postdated (twoBuys (.aware 1000))
    (twoBuys (.aware 4102444800)) (by decide +kernel) (by decide +kernel) rfl "c1"

theorem possible_slowBroker : slowBroker.Possible slowDesk ["AAPL", "MSFT"] 1000 where
  accepted :=
    have hvalid : RiskConfig.validate slowBroker.settings.strategy.risk =
        .ok (slowBroker.settings.strategy.risk, []) := by decide +kernel
    ⟨slowBroker.settings.strategy.risk, [], hvalid⟩
  officer := rfl
  wired := rfl
  held := fun _ hmem => nomatch hmem
  began := le_rfl
  clock := by
    intro i
    have hlater : (slowBroker.turn i).later.epoch = 1100 := rfl
    have hnext : (slowBroker.turn (i + 1)).now.epoch = 1100 := rfl
    have hnow : (slowBroker.turn i).now.epoch ≤ 1100 := by
      show (if i = 0 then 1000 else 1100 : ℚ) ≤ 1100
      split_ifs <;> norm_num
    rw [hlater, hnext]
    exact ⟨hnow, le_rfl⟩

/-- A hundred seconds after the reply its second entry is too old, where sixty are allowed. The postdated reply
gets it through. -/
theorem postdated_passes :
    CycleDecision.validate plainReader (some ["AAPL", "MSFT"]) 1000 undated = .ok (twoBuys (.aware 1000)) ∧
      CycleDecision.validate plainReader (some ["AAPL", "MSFT"]) 1000 postdated =
        .ok (twoBuys (.aware 4102444800)) ∧
      (slowBroker.execute (AgentRunner.decide "c1" 1000 (some (twoBuys (.aware 1000)))) slowDesk {}).verdicts =
        [.ok "AAPL", .reject .staleMarketData "decision is 100s old (max 60s)" "MSFT"] ∧
      (slowBroker.execute (AgentRunner.decide "c1" 1000 (some (twoBuys (.aware 4102444800)))) slowDesk
        {}).verdicts = [.ok "AAPL", .ok "MSFT"] ∧
      ¬ SameOutcome ["AAPL", "MSFT"] 1000 (AgentRunner.decide "c1" 1000 (some (twoBuys (.aware 1000))))
        (AgentRunner.decide "c1" 1000 (some (twoBuys (.aware 4102444800)))) := by
  have hrefused : (slowBroker.execute (AgentRunner.decide "c1" 1000 (some (twoBuys (.aware 1000)))) slowDesk
      {}).verdicts = [.ok "AAPL", .reject .staleMarketData "decision is 100s old (max 60s)" "MSFT"] := by
    decide +kernel
  have happroved : (slowBroker.execute (AgentRunner.decide "c1" 1000 (some (twoBuys (.aware 4102444800)))) slowDesk
      {}).verdicts = [.ok "AAPL", .ok "MSFT"] := by decide +kernel
  refine ⟨by decide +kernel, by decide +kernel, hrefused, happroved, fun hsame => ?_⟩
  obtain ⟨hverdicts, -⟩ := hsame slowBroker slowDesk {} possible_slowBroker
  rw [hrefused, happroved] at hverdicts
  exact absurd hverdicts (by decide)

end AiTrader
