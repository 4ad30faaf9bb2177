import AiTrader.Engine.Execute
import AiTrader.Lib.Totals

/-!
# Buying power within one decision

`size_proposal` and check 14 hold every order against the buying power of the account snapshot, less the
reserve. `_execute` carries out all proposals of a decision on one snapshot, so each BUY entry it gets approved
costs at most that much, and together they cost at most as many times that much as there are. How many there
are is bounded by the entries a cycle may make.

The count goes down with the room that is left: an entry that is approved leaves room for one entry less in the cycle,
and what does not come to the gate leaves it as it was (`tally_executeOne`). A CLOSE counts nothing, whatever it does
to the position. Since the snapshot is the same for all proposals, each approved BUY is compared with the same buying
power, and the bound on the sum is the number of entries times that (`length_boughtFrom_le`).
-/

namespace AiTrader

open Lib

def SizedOrder.cost (o : SizedOrder) : ℚ := o.quantity * o.entryPrice

namespace CycleWorld

variable (w : CycleWorld) (decision : CycleDecision)

/-- The order with which a proposal comes to the gate. -/
def sizedAt (t : Turn) (proposal : TradeProposal) : Option SizedOrder :=
  if proposal.action = .close ∨ proposal.conviction < 55 / 100 then none
  else (w.features.get? proposal.symbol).bind fun features =>
    sizeProposal proposal features w.account t.quote w.settings.strategy.risk
      w.settings.strategy.broker.limitOffsetPct

/-- The BUY entry that is approved at a proposal, by the count of the cycle record. -/
def boughtAt (t : Turn) (proposal : TradeProposal) (s : Executing) : List SizedOrder :=
  match w.sizedAt t proposal with
  | some sized =>
    if sized.action = .buy ∧ s.record.approved < (w.executeOne decision t proposal s).record.approved then
      [sized]
    else []
  | none => []

/-- The BUY entries approved at the proposals from the `i`-th on, as `executeFrom` goes through them. -/
def boughtFrom : ℕ → List TradeProposal → Executing → List SizedOrder
  | _, [], _ => []
  | i, proposal :: rest, s =>
    if s.raised.isSome then []
    else w.boughtAt decision (w.turn i) proposal s ++
      boughtFrom (i + 1) rest (w.executeOne decision (w.turn i) proposal s)

/-- The BUY entries approved within one `_execute`. -/
def bought (desk : CloseDesk) (record : CycleRecord) : List SizedOrder :=
  w.boughtFrom decision 0 decision.proposals { desk, record }

/-- What one entry may cost. -/
def entryCap : ℚ :=
  min (Sizing.usableBuyingPower w.account w.settings.strategy.risk)
    (Sizing.maxNotional w.account w.settings.strategy.risk)

/-- What runs while the cycle waits takes no entry back from the count and leaves the limits. -/
def Undisturbed : Prop := ∀ i desk, ∀ f ∈ [(w.turn i).reviewing, (w.turn i).sending],
  desk.app.entriesThisCycle ≤ (f desk).app.entriesThisCycle ∧ (f desk).risk.cfg = desk.risk.cfg

variable {w : CycleWorld} {decision : CycleDecision} {t : Turn} {proposal : TradeProposal} {s : Executing}

/-! ### What an entry costs -/

theorem cost_le_of_sizedAt {sized : SizedOrder} (h : w.sizedAt t proposal = some sized) :
    sized.cost ≤ w.entryCap := by
  unfold sizedAt at h
  split_ifs at h
  obtain ⟨features, _, hsized⟩ := Option.bind_eq_some_iff.mp h
  obtain ⟨hnotional, hpower⟩ := cost_le_of_sized hsized
  exact le_min hpower hnotional

theorem cost_le_of_boughtAt {o : SizedOrder} (h : o ∈ w.boughtAt decision t proposal s) :
    o.cost ≤ w.entryCap := by
  unfold boughtAt at h
  split at h
  · rename_i hsized
    split_ifs at h
    · rw [List.mem_singleton.mp h]
      exact cost_le_of_sizedAt hsized
    · cases h
  · cases h

theorem cost_le_of_boughtFrom {i : ℕ} {ps : List TradeProposal} {s : Executing} {o : SizedOrder}
    (h : o ∈ w.boughtFrom decision i ps s) : o.cost ≤ w.entryCap := by
  induction ps generalizing i s with
  | nil => cases h
  | cons p ps ih =>
    rw [boughtFrom] at h
    split_ifs at h
    · cases h
    · rcases List.mem_append.mp h with hnow | hlater
      · exact cost_le_of_boughtAt hnow
      · exact ih hlater

end CycleWorld

/-! ### How many there are -/

namespace Executing

/-- From `d` to `s` `n` entries are counted, at least, and the limits stay. -/
structure Onward (n : ℕ) (d : CloseDesk) (s : Executing) : Prop where
  counter : d.app.entriesThisCycle + n ≤ s.desk.app.entriesThisCycle
  cfg : s.desk.risk.cfg = d.risk.cfg

/-- What a proposal may do to the count: `n` says whether it is an entry that is approved, and then the gate has
found the count below its cap. -/
structure Tallied (n : ℕ) (d : CloseDesk) (s s' : Executing) : Prop extends Onward n d s' where
  one : n ≤ 1
  approved : s'.record.approved = s.record.approved + n
  room : 0 < n → d.app.entriesThisCycle < d.risk.cfg.maxNewEntriesPerCycle

variable {w : CycleWorld} {decision : CycleDecision} {t : Turn} {s : Executing} {d desk : CloseDesk}

theorem onward_of_le (hcounter : d.app.entriesThisCycle ≤ s.desk.app.entriesThisCycle)
    (hcfg : s.desk.risk.cfg = d.risk.cfg) : Onward 0 d s := by
  refine ⟨?_, hcfg⟩
  rwa [Nat.cast_zero, add_zero]

theorem tallied_of_le {s₀ : Executing} (hcounter : d.app.entriesThisCycle ≤ s.desk.app.entriesThisCycle)
    (hcfg : s.desk.risk.cfg = d.risk.cfg) (happroved : s.record.approved = s₀.record.approved) :
    Tallied 0 d s₀ s :=
  ⟨onward_of_le hcounter hcfg, Nat.zero_le _, happroved, fun hpos => absurd hpos (lt_irrefl 0)⟩

theorem onward_judged (s : Executing) (symbol : String) (verdict : RiskVerdict) (now : Now) :
    Onward verdict.approved.toNat s.desk (s.judged symbol verdict now) ∧
      (s.judged symbol verdict now).record.approved = s.record.approved + verdict.approved.toNat := by
  unfold judged
  cases hverdict : verdict.approved with
  | true => exact ⟨⟨le_rfl, rfl⟩, rfl⟩
  | false => exact ⟨⟨(add_zero _).le, rfl⟩, rfl⟩

theorem tallied_judged {s₀ : Executing} {symbol : String} {verdict : RiskVerdict} {now : Now}
    (hcounter : d.app.entriesThisCycle ≤ s.desk.app.entriesThisCycle) (hcfg : s.desk.risk.cfg = d.risk.cfg)
    (hrecord : s.record = s₀.record)
    (hroom : verdict.approved = true → d.app.entriesThisCycle < d.risk.cfg.maxNewEntriesPerCycle) :
    Tallied verdict.approved.toNat d s₀ (s.judged symbol verdict now) := by
  obtain ⟨honward, happroved⟩ := onward_judged s symbol verdict now
  have hmoved := honward.counter
  refine ⟨⟨by omega, honward.cfg.trans hcfg⟩, Bool.toNat_le _, ?_, fun hpos => hroom ?_⟩
  · rw [happroved, hrecord]
  · cases hverdict : verdict.approved with
    | true => rfl
    | false =>
      rw [hverdict] at hpos
      exact absurd hpos (lt_irrefl 0)

theorem tallied_submit (hw : w.Undisturbed) (i : ℕ) (s : Executing) (desk : CloseDesk) (sized : SizedOrder)
    {ctx : RiskContext} (hctx : ctx.entriesThisCycle = desk.app.entriesThisCycle) :
    ∃ n, Tallied n desk s (s.submit w (w.turn i) desk sized ctx) := by
  obtain ⟨hcfg, hcases⟩ := desk.gate.submit_cases sized ctx w.cycleId (w.turn i).now
  have hroom : desk.risk.Passed sized ctx (w.turn i).now →
      desk.app.entriesThisCycle < desk.risk.cfg.maxNewEntriesPerCycle := by
    intro hpassed
    rw [← hctx]
    exact hpassed.entriesThisCycle_lt
  unfold submit
  dsimp only
  rcases hcases with ⟨verdict, hverdict, hpassed, _⟩ | ⟨verdict, hverdict, hpassed, _⟩
  · rw [hverdict]
    exact ⟨_, tallied_judged le_rfl hcfg rfl fun hyes => hroom (hpassed hyes)⟩
  · rw [hverdict]
    obtain ⟨hcounter, hkept⟩ := hw i (desk.withGate (desk.gate.submit sized ctx w.cycleId (w.turn i).now).1)
      (w.turn i).sending (List.mem_cons_of_mem _ List.mem_cons_self)
    refine ⟨_, tallied_judged hcounter ?_ rfl fun _ => hroom hpassed⟩
    exact (Desk.cfg_finish _ _ _ _).trans (hkept.trans hcfg)

theorem tallied_enter (hw : w.Undisturbed) (i : ℕ) (s : Executing) (features : FeaturePack)
    (sized : SizedOrder) : ∃ n, Tallied n s.desk s (s.enter w (w.turn i) decision features sized) := by
  obtain ⟨hcounter, hkept⟩ := hw i s.desk (w.turn i).reviewing List.mem_cons_self
  unfold enter
  dsimp only
  have hreviewed : s.desk.app.entriesThisCycle ≤ (if w.settings.strategy.risk.requireRiskOfficer then
      (w.turn i).reviewing s.desk else s.desk).app.entriesThisCycle ∧
        (if w.settings.strategy.risk.requireRiskOfficer then (w.turn i).reviewing s.desk
          else s.desk).risk.cfg = s.desk.risk.cfg := by
    split_ifs
    · exact ⟨hcounter, hkept⟩
    · exact ⟨le_rfl, rfl⟩
  generalize (if w.settings.strategy.risk.requireRiskOfficer then (w.turn i).reviewing s.desk
    else s.desk) = desk at hreviewed
  obtain ⟨hle, hcfg⟩ := hreviewed
  split
  · exact ⟨0, tallied_of_le hle hcfg rfl⟩
  · rename_i age _
    split_ifs
    · exact ⟨0, tallied_of_le hle hcfg rfl⟩
    · obtain ⟨n, htallied⟩ := tallied_submit hw i s desk sized
        (rfl : (w.context (w.turn i) desk features age).entriesThisCycle = desk.app.entriesThisCycle)
      have hmoved := htallied.counter
      refine ⟨n, ⟨by omega, htallied.cfg.trans hcfg⟩, htallied.one, htallied.approved, fun hpos => ?_⟩
      have hroom := htallied.room hpos
      rw [hcfg] at hroom
      exact hle.trans_lt hroom

theorem onward_close (hw : w.Undisturbed) (i : ℕ) (s : Executing) (symbol : String) :
    Onward 0 s.desk (s.close w (w.turn i) symbol) := by
  rcases s.close_limits w (w.turn i) symbol with ⟨hcounter, hcfg⟩ | ⟨desk, ⟨hbefore, hlimits⟩, hafter, hcfg⟩
  · exact onward_of_le hcounter.ge hcfg
  · obtain ⟨hmoved, hkept⟩ := hw i desk (w.turn i).sending (List.mem_cons_of_mem _ List.mem_cons_self)
    refine onward_of_le ?_ (hcfg.trans (hkept.trans hlimits))
    rw [← hbefore, hafter]
    exact hmoved

theorem onward_reject (s : Executing) (symbol reason detail : String) :
    Onward 0 s.desk (s.reject symbol reason detail) := onward_of_le le_rfl rfl

end Executing

namespace CycleWorld

open Executing

variable {w : CycleWorld} {decision : CycleDecision} {proposal : TradeProposal} {s : Executing}

theorem executeOne_cases (hw : w.Undisturbed) (i : ℕ) (proposal : TradeProposal) (s : Executing) :
    (w.sizedAt (w.turn i) proposal = none ∧ Onward 0 s.desk (w.executeOne decision (w.turn i) proposal s)) ∨
      ∃ sized n, w.sizedAt (w.turn i) proposal = some sized ∧
        Tallied n s.desk s (w.executeOne decision (w.turn i) proposal s) := by
  unfold sizedAt executeOne
  by_cases hclose : proposal.action = .close
  · rw [if_pos hclose, if_pos (Or.inl hclose)]
    exact Or.inl ⟨rfl, onward_close hw i s _⟩
  rw [if_neg hclose]
  by_cases hlow : proposal.conviction < 55 / 100
  · rw [if_pos (Or.inr hlow)]
    refine Or.inl ⟨rfl, ?_⟩
    cases w.features.get? proposal.symbol with
    | none => exact onward_reject s _ _ _
    | some features =>
      dsimp only
      rw [if_pos hlow]
      exact onward_reject s _ _ _
  · rw [if_neg (not_or.mpr ⟨hclose, hlow⟩)]
    cases w.features.get? proposal.symbol with
    | none => exact Or.inl ⟨rfl, onward_reject s _ _ _⟩
    | some features =>
      dsimp only [Option.bind_some]
      rw [if_neg hlow]
      cases hsized : sizeProposal proposal features w.account (w.turn i).quote w.settings.strategy.risk
          w.settings.strategy.broker.limitOffsetPct with
      | none => exact Or.inl ⟨rfl, onward_reject s _ _ _⟩
      | some sized =>
        obtain ⟨n, htallied⟩ := @tallied_enter w decision hw i s features sized
        exact Or.inr ⟨sized, n, rfl, htallied⟩

theorem tally_executeOne (hw : w.Undisturbed) (i : ℕ) (proposal : TradeProposal) (s : Executing) :
    Onward (w.boughtAt decision (w.turn i) proposal s).length s.desk
        (w.executeOne decision (w.turn i) proposal s) ∧
      (w.boughtAt decision (w.turn i) proposal s).length ≤ 1 ∧
        (0 < (w.boughtAt decision (w.turn i) proposal s).length →
          s.desk.app.entriesThisCycle < s.desk.risk.cfg.maxNewEntriesPerCycle) := by
  unfold boughtAt
  rcases @executeOne_cases w decision hw i proposal s with ⟨hnone, honward⟩ | ⟨sized, n, hsized, htallied⟩
  · rw [hnone]
    exact ⟨honward, Nat.zero_le _, fun hpos => absurd hpos (lt_irrefl 0)⟩
  · rw [hsized]
    dsimp only
    have hmoved := htallied.counter
    split_ifs with hbought
    · have hone : n = 1 := by
        have hgrown := hbought.2
        rw [htallied.approved] at hgrown
        have := htallied.one
        omega
      subst hone
      exact ⟨htallied.toOnward, le_rfl, fun _ => htallied.room one_pos⟩
    · refine ⟨⟨?_, htallied.cfg⟩, Nat.zero_le _, fun hpos => absurd hpos (lt_irrefl 0)⟩
      rw [List.length_nil]
      omega

theorem length_boughtFrom_le (hw : w.Undisturbed) (i : ℕ) (ps : List TradeProposal) (s : Executing) :
    ((w.boughtFrom decision i ps s).length : ℤ) ≤
      max 0 (s.desk.risk.cfg.maxNewEntriesPerCycle - s.desk.app.entriesThisCycle) := by
  induction ps generalizing i s with
  | nil => exact le_max_left _ _
  | cons p ps ih =>
    rw [boughtFrom]
    split_ifs
    · exact le_max_left _ _
    · obtain ⟨honward, hone, hroom⟩ := @tally_executeOne w decision hw i p s
      have hcounter := honward.counter
      have hrest := ih (i + 1) (w.executeOne decision (w.turn i) p s)
      rw [honward.cfg] at hrest
      rw [List.length_append]
      push_cast
      omega

/-- **What a decision spends on entries.** Each BUY entry it gets approved costs at most the usable buying power
and the notional cap of the snapshot, all of them at most as many times that as there are, and there are no more
than the cycle may still enter. -/
theorem buying_power_per_entry (w : CycleWorld) (decision : CycleDecision) (desk : CloseDesk)
    (record : CycleRecord) :
    (∀ o ∈ w.bought decision desk record, o.cost ≤ w.entryCap) ∧
      total SizedOrder.cost (w.bought decision desk record) ≤
        (w.bought decision desk record).length • w.entryCap ∧
      (w.Undisturbed → ((w.bought decision desk record).length : ℤ) ≤
        max 0 (desk.risk.cfg.maxNewEntriesPerCycle - desk.app.entriesThisCycle)) := by
  have heach : ∀ o ∈ w.bought decision desk record, o.cost ≤ w.entryCap := fun o ho => cost_le_of_boughtFrom ho
  exact ⟨heach, total_le heach, fun hw => length_boughtFrom_le hw 0 decision.proposals { desk, record }⟩

/-! ### Two entries on one snapshot -/

def noon : Now := .sample 1000 0

/-- An account that has ten thousand to spend, of which the reserve keeps two thousand. -/
def marginAccount : CycleWorld where
  settings := { secrets := {}, strategy := { risk := { requireRiskOfficer := false } } }
  account := { accountId := "DU1", equity := 100000, cash := 10000, buyingPower := 10000, asOf := 1000 }
  phase := .rth
  minutesToClose := some 200
  features := (Dict.empty.set "AAPL" { price := 100, atr := 1 }).set "MSFT" { price := 100, atr := 1 }
  cycleId := "c1"
  turn i :=
    { quote := some { symbol := if i = 0 then "AAPL" else "MSFT", last := some 100, updatedAt := 1000 }
      now := noon
      later := noon }

def marginDesk : CloseDesk where
  app := {}
  risk := { cfg := marginAccount.settings.strategy.risk, killSwitch := {} }
  orders := {}

def pairOfBuys : CycleDecision :=
  let buy := fun symbol => { symbol, action := .buy, conviction := 4 / 5, horizonMinutes := 60 : TradeProposal }
  { proposals := [buy "AAPL", buy "MSFT"], decidedAt := .aware 1000 }

theorem buying_power_per_entry_pair :
    ((marginAccount.bought pairOfBuys marginDesk {}).length : ℤ) ≤
      max 0 (marginDesk.risk.cfg.maxNewEntriesPerCycle - marginDesk.app.entriesThisCycle) :=
  (buying_power_per_entry marginAccount pairOfBuys marginDesk {}).2.2 <| by
    intro i desk f hf
    have hid : f = id := by simpa [marginAccount] using hf
    rw [hid]
    exact ⟨le_rfl, rfl⟩

/-- Each entry is held against the account as the cycle has found it. -/
theorem pair_exceeds :
    RiskConfig.validate marginAccount.settings.strategy.risk = .ok (marginAccount.settings.strategy.risk, []) ∧
      (marginAccount.execute pairOfBuys marginDesk {}).verdicts = [.ok "AAPL", .ok "MSFT"] ∧
      Sizing.usableBuyingPower marginAccount.account marginAccount.settings.strategy.risk = 8000 ∧
      total SizedOrder.cost (marginAccount.bought pairOfBuys marginDesk {}) = 79079 / 5 ∧
      ¬ ∀ (w : CycleWorld) (decision : CycleDecision) (desk : CloseDesk) (record : CycleRecord),
        total SizedOrder.cost (w.bought decision desk record) ≤
          Sizing.usableBuyingPower w.account w.settings.strategy.risk := by
  have husable : Sizing.usableBuyingPower marginAccount.account marginAccount.settings.strategy.risk = 8000 := by
    decide +kernel
  have hspent : total SizedOrder.cost (marginAccount.bought pairOfBuys marginDesk {}) = 79079 / 5 := by
    decide +kernel
  refine ⟨by decide +kernel, by decide +kernel, husable, hspent, fun hwithin => ?_⟩
  have hle := hwithin marginAccount pairOfBuys marginDesk {}
  rw [husable, hspent] at hle
  exact absurd hle (by norm_num)

end CycleWorld

end AiTrader
