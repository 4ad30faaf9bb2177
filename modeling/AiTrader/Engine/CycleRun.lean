import AiTrader.Analytics.Ranking
import AiTrader.Engine.Execute

/-!
# A cycle and its record

`DecisionCycle.run` fetches the account, computes the features, narrows them to the focus list, asks for a
decision and carries it out, and keeps a record that the dashboard shows. An exception anywhere ends the cycle
and is noted in the record. The record is stored at the end of `run`; the return on an empty focus list comes
before that.

A proposal is counted as approved, rejected or pending, and every rejection has its entry, except on two exits
of `_handle_close`: a symbol without a position, and an exit that cannot be placed, leave an entry and no count
(`cycle_accounting_iff`).

The loop over the proposals keeps the balance one proposal at a time (`CountsOne`): each of the ways a proposal can go
raises one counter, and adds an entry if the counter is that of the rejections. The two exits of `_handle_close` are
where this fails, so the balance holds at the end exactly if none of them is taken, and the counters cannot make up
for each other because each exit leaves the sum one short. The record itself is looked for in the list of cycles,
which is cut to the last sixty: when all of them are equal to the record, appending it leaves no trace
(`eq_trimmed_iff`).
-/

namespace AiTrader

open Lib

/-- A cycle's record. -/
structure CycleReport extends CycleRecord where
  cycleId : String
  focus : List String := []
  marketRead : String := ""
  proposals : ℕ := 0
  error : String := ""
  deriving DecidableEq

/-- What `run` reads and writes. -/
structure CycleState where
  desk : CloseDesk
  focusManager : FocusListManager := {}
  focus : List String := []
  cycles : List CycleReport := []
  lastError : String := ""

/-- What one `run` is called with and what its calls answer. -/
structure CycleInputs where
  settings : Settings
  phase : SessionPhase
  minutesToClose : Option ℚ
  cycleId : String
  account : Except String AccountSnapshot
  /-- What `refresh_features` computes. -/
  features : Except String (Dict String FeaturePack)
  scannerRanks : Dict String ℚ := Dict.empty
  /-- How the changes of the subscriptions end. -/
  subscribed : Except String Unit := .ok ()
  decision : Except String CycleDecision
  /-- What else runs while the account is fetched and while the model is asked. -/
  fetching : CycleState → CycleState := id
  deciding : CycleState → CycleState := id
  turn : ℕ → Turn

/-- `record_cycle`: the last sixty are kept. -/
def recordCycle (cycles : List CycleReport) (record : CycleReport) (keep : ℕ := 60) : List CycleReport :=
  (cycles ++ [record]).drop (cycles.length + 1 - keep)

/-- The symbols with a position or a working order, in the order in which the set is iterated. -/
def protectedSymbols (account : AccountSnapshot) (orders : OrderManager) : SymbolSet :=
  ⟨(account.openPositions.keys ++ orders.workingSymbols).dedup, List.nodup_dedup _⟩

/-- `run` where it begins to carry out a decision, or where it has ended before that. -/
inductive Prepared
  | raised (s : CycleState) (record : CycleReport) (exc : String)
  | skipped (s : CycleState) (record : CycleReport)
  | ready (s : CycleState) (record : CycleReport) (w : CycleWorld) (decision : CycleDecision)

/-- What a `run` leaves. -/
structure CycleRan where
  state : CycleState
  record : CycleReport
  /-- An exception has ended the loop over the proposals. -/
  escaped : Bool := false

/-- What carrying out the decision and ending the cycle find; the cycles on record are still those before it. -/
def Prepared.state : Prepared → CycleState
  | raised s _ _ | skipped s _ | ready s _ _ _ => s

namespace CycleState

variable (s : CycleState) (i : CycleInputs)

/-- `run` up to `_execute`. -/
def prepare : Prepared :=
  let s := { s with desk := { s.desk with app := { s.desk.app with entriesThisCycle := 0 } } }
  let record : CycleReport := { cycleId := i.cycleId }
  let s := i.fetching s
  match i.account with
  | .error exc => .raised s record exc
  | .ok account =>
    let s := { s with desk := { s.desk with app := s.desk.app.setAccount account } }
    match i.features with
    | .error exc => .raised s record exc
    | .ok features =>
      let update := s.focusManager.update
        { features, scannerRanks := i.scannerRanks, protectedSymbols := protectedSymbols account s.desk.orders }
      let s := { s with focusManager := update.manager }
      match i.subscribed with
      | .error exc => .raised s record exc
      | .ok () =>
        let s := { s with focus := update.focus }
        let record := { record with focus := update.focus }
        if update.focus = [] then .skipped s { record with error := "no symbols passed the data-quality bar" }
        else
          let s := i.deciding s
          match i.decision with
          | .error exc => .raised s record exc
          | .ok decision =>
            .ready s { record with marketRead := decision.marketRead, proposals := decision.proposals.length }
              { settings := i.settings, account, phase := i.phase, minutesToClose := i.minutesToClose
                features := update.features, cycleId := i.cycleId, turn := i.turn } decision

/-- The end of `run`. -/
def stored (record : CycleReport) : CycleRan where
  state := { s with cycles := recordCycle s.cycles record }
  record

/-- The exception is noted in the record and in the state. -/
def caught (record : CycleReport) (exc : String) : CycleRan :=
  { s with lastError := exc }.stored { record with error := exc }

/-- `DecisionCycle.run`. -/
def run : CycleRan :=
  match s.prepare i with
  | .raised s record exc => s.caught record exc
  | .skipped s record => { state := s, record }
  | .ready s record w decision =>
    let done := w.execute decision s.desk record.toCycleRecord
    let s := { s with desk := done.desk }
    let record := { record with toCycleRecord := done.record }
    match done.raised with
    | none => s.stored record
    | some exc => { s.caught record exc with escaped := true }

end CycleState

/-! ### What a proposal counts -/

namespace CycleRecord

variable (r : CycleRecord)

/-- The proposals that have been counted. -/
def counted : ℕ := r.approved + r.rejected + r.pending

/-- Every rejection has its entry. -/
def Matched : Prop := r.rejected = r.rejections.length

/-- A proposal has been counted, and a rejection among the entries. -/
def CountsOne (r r' : CycleRecord) : Prop := r'.counted = r.counted + 1 ∧ (r.Matched → r'.Matched)

end CycleRecord

open CycleRecord

namespace Executing

variable (s : Executing) (w : CycleWorld) (t : Turn)

theorem countsOne_reject (symbol reason detail : String) :
    s.record.CountsOne (s.reject symbol reason detail).record := by
  refine ⟨?_, fun h => ?_⟩
  · show s.record.approved + (s.record.rejected + 1) + s.record.pending = s.record.counted + 1
    unfold counted
    omega
  · show s.record.rejected + 1 = (s.record.rejections ++ [_]).length
    rw [List.length_append, List.length_singleton, h]

theorem countsOne_approved (r : CycleRecord) : r.CountsOne { r with approved := r.approved + 1 } := by
  refine ⟨?_, fun h => h⟩
  show r.approved + 1 + r.rejected + r.pending = r.counted + 1
  unfold counted
  omega

theorem countsOne_pending (r : CycleRecord) : r.CountsOne { r with pending := r.pending + 1 } :=
  ⟨rfl, fun h => h⟩

theorem countsOne_judged (symbol : String) (verdict : RiskVerdict) (now : Now) :
    s.record.CountsOne (s.judged symbol verdict now).record := by
  unfold judged
  dsimp only
  split_ifs
  · exact countsOne_approved _
  · exact countsOne_reject _ _ _ _

theorem countsOne_submit (desk : CloseDesk) (sized : SizedOrder) (ctx : RiskContext) :
    s.record.CountsOne (s.submit w t desk sized ctx).record := by
  unfold submit
  dsimp only
  split
  · exact countsOne_judged _ _ _ _
  · exact countsOne_judged _ _ _ _

theorem enter_counts (decision : CycleDecision) (features : FeaturePack) (sized : SizedOrder) :
    (∃ exc, (s.enter w t decision features sized).raised = some exc ∧
        (s.enter w t decision features sized).record = s.record) ∨
      s.record.CountsOne (s.enter w t decision features sized).record := by
  unfold enter
  generalize (if w.settings.strategy.risk.requireRiskOfficer then t.reviewing s.desk else s.desk) = desk
  dsimp only
  cases decision.ageSeconds t.now.epoch with
  | error exc => exact Or.inl ⟨exc, rfl, rfl⟩
  | ok age =>
    refine Or.inr ?_
    dsimp only
    split_ifs
    · exact countsOne_pending _
    · exact countsOne_submit _ _ _ _ _ _

/-- The symbol of a CLOSE has a position, and where the exit goes to the broker it is placed. -/
def CloseCounted (symbol : String) : Prop :=
  (∃ position, w.account.openPositions.get? symbol = some position) ∧
    ((s.desk.risk.evaluateClose symbol t.quote w.phase s.desk.orders.workingSymbols t.now).approved = true →
      s.desk.app.executionMode ≠ .manual → ∃ status, t.exited = .ok status)

theorem close_counts (symbol : String) :
    (s.CloseCounted w t symbol ∧ s.record.CountsOne (s.close w t symbol).record) ∨
      ¬ s.CloseCounted w t symbol ∧ (s.close w t symbol).record.counted = s.record.counted := by
  cases hheld : w.account.openPositions.get? symbol with
  | none =>
    rw [close_of_not_held hheld]
    refine Or.inr ⟨fun h => ?_, rfl⟩
    obtain ⟨position, hsome⟩ := h.1
    rw [hheld] at hsome
    cases hsome
  | some position =>
    unfold CloseCounted close CloseDesk.handleClose
    rw [hheld]
    dsimp only
    by_cases happroved :
        (s.desk.risk.evaluateClose symbol t.quote w.phase s.desk.orders.workingSymbols t.now).approved = true
    swap
    · simp only [happroved, Bool.not_false, if_true]
      refine Or.inl ⟨⟨⟨position, rfl⟩, fun h => nomatch h⟩, ?_⟩
      exact countsOne_reject s symbol _ _
    by_cases hmanual : s.desk.app.executionMode = .manual
    · simp only [happroved, Bool.not_true, Bool.false_eq_true, if_false, if_pos hmanual]
      exact Or.inl ⟨⟨⟨position, rfl⟩, fun _ h => absurd hmanual h⟩, countsOne_pending _⟩
    · simp only [happroved, Bool.not_true, Bool.false_eq_true, if_false, if_neg hmanual]
      cases t.exited with
      | ok status => exact Or.inl ⟨⟨⟨position, rfl⟩, fun _ _ => ⟨status, rfl⟩⟩, countsOne_approved _⟩
      | error exc =>
        refine Or.inr ⟨fun h => ?_, rfl⟩
        obtain ⟨status, hsome⟩ := h.2 trivial hmanual
        cases hsome

end Executing

namespace CycleWorld

variable {w : CycleWorld} {decision : CycleDecision} {s : Executing}

/-- The proposal is counted: it is an entry, or a CLOSE of a position that is refused, queued or placed. -/
def Counted (w : CycleWorld) (t : Turn) (proposal : TradeProposal) (s : Executing) : Prop :=
  proposal.action = .close → s.CloseCounted w t proposal.symbol

/-- Every proposal from the `i`-th on is. -/
def AllCounted (w : CycleWorld) (decision : CycleDecision) : ℕ → List TradeProposal → Executing → Prop
  | _, [], _ => True
  | i, proposal :: rest, s =>
    w.Counted (w.turn i) proposal s ∧ w.AllCounted decision (i + 1) rest (w.executeOne decision (w.turn i) proposal s)

theorem executeOne_counts (t : Turn) (proposal : TradeProposal) (s : Executing) :
    (∃ exc, (w.executeOne decision t proposal s).raised = some exc) ∨
      (w.Counted t proposal s ∧ s.record.CountsOne (w.executeOne decision t proposal s).record) ∨
      ¬ w.Counted t proposal s ∧ (w.executeOne decision t proposal s).record.counted = s.record.counted := by
  unfold executeOne Counted
  by_cases hclose : proposal.action = .close
  · rw [if_pos hclose]
    rcases s.close_counts w t proposal.symbol with ⟨hcounted, hone⟩ | ⟨huncounted, hsame⟩
    · exact Or.inr (Or.inl ⟨fun _ => hcounted, hone⟩)
    · exact Or.inr (Or.inr ⟨fun h => huncounted (h hclose), hsame⟩)
  rw [if_neg hclose]
  have hentry : proposal.action = .close → s.CloseCounted w t proposal.symbol := fun h => absurd h hclose
  cases w.features.get? proposal.symbol with
  | none => exact Or.inr (Or.inl ⟨hentry, s.countsOne_reject _ _ _⟩)
  | some features =>
    dsimp only
    split_ifs
    · exact Or.inr (Or.inl ⟨hentry, s.countsOne_reject _ _ _⟩)
    · split
      · exact Or.inr (Or.inl ⟨hentry, s.countsOne_reject _ _ _⟩)
      · rename_i sized _
        rcases s.enter_counts w t decision features sized with ⟨exc, hraised, -⟩ | hone
        · exact Or.inl ⟨exc, hraised⟩
        · exact Or.inr (Or.inl ⟨hentry, hone⟩)

theorem executeFrom_counts (i : ℕ) (ps : List TradeProposal) (s : Executing) (hstart : s.raised = none)
    (hend : (w.executeFrom decision i ps s).raised = none) :
    (w.executeFrom decision i ps s).record.counted ≤ s.record.counted + ps.length ∧
      (w.AllCounted decision i ps s ↔
        (w.executeFrom decision i ps s).record.counted = s.record.counted + ps.length) ∧
      (w.AllCounted decision i ps s → s.record.Matched → (w.executeFrom decision i ps s).record.Matched) := by
  induction ps generalizing i s with
  | nil => exact ⟨le_rfl, ⟨fun _ => rfl, fun _ => trivial⟩, fun _ h => h⟩
  | cons p ps ih =>
    rw [executeFrom_cons hstart] at hend ⊢
    have hquiet : (w.executeOne decision (w.turn i) p s).raised = none := by
      cases hraised : (w.executeOne decision (w.turn i) p s).raised with
      | none => rfl
      | some exc =>
        rw [executeFrom_of_raised (by rw [hraised]; rfl), hraised] at hend
        cases hend
    obtain ⟨hle, hall, hmatched⟩ := ih (i + 1) _ hquiet hend
    rw [List.length_cons]
    rcases @executeOne_counts w decision (w.turn i) p s with ⟨exc, hraised⟩ | ⟨hcounted, hone⟩ | ⟨huncounted, hsame⟩
    · rw [hquiet] at hraised
      cases hraised
    · rw [hone.1] at hle hall
      refine ⟨by omega, ⟨fun h => ?_, fun h => ⟨hcounted, hall.mpr (by omega)⟩⟩, fun h hstart => ?_⟩
      · have hrest := hall.mp h.2
        omega
      · exact hmatched h.2 (hone.2 hstart)
    · rw [hsame] at hle
      refine ⟨by omega, ⟨fun h => absurd h.1 huncounted, fun h => ?_⟩, fun h => absurd h.1 huncounted⟩
      -- the proposal that was not counted is missing to the end
      omega

end CycleWorld

/-! ### A whole cycle -/

namespace CycleRan

/-- The counters add up, unless an exception has left the loop, and the record is the one that has been added to the
cycles before, of which the last sixty are kept. -/
def Accounted (r : CycleRan) (before : List CycleReport) : Prop :=
  (r.escaped = false → r.record.proposals = r.record.counted ∧ r.record.Matched) ∧
    r.state.cycles = (before ++ [r.record]).drop (before.length + 1 - 60)

end CycleRan

namespace CycleState

theorem eq_trimmed_iff {cycles : List CycleReport} {record : CycleReport} :
    cycles = (cycles ++ [record]).drop (cycles.length + 1 - 60) ↔ cycles = List.replicate 60 record := by
  have hturn : ∀ (xs : List CycleReport) (x : CycleReport), xs ++ [record] = x :: xs →
      x :: xs = List.replicate (xs.length + 1) record := by
    intro xs
    induction xs with
    | nil => exact fun x h => h.symm
    | cons y xs ih =>
      intro x h
      obtain ⟨rfl, hrest⟩ := List.cons.inj h
      have hall := ih y hrest
      have hy : y = record := by
        rw [List.replicate_succ] at hall
        exact (List.cons.inj hall).1
      rw [List.length_cons, List.replicate_succ, ← hall, hy]
  constructor
  · intro h
    have hlength := congrArg List.length h
    rw [List.length_drop, List.length_append, List.length_singleton] at hlength
    have hsixty : cycles.length = 60 := by omega
    cases cycles with
    | nil => cases hsixty
    | cons x xs =>
      have hxs : xs.length = 59 := Nat.succ.inj hsixty
      rw [hsixty] at h
      have hall := hturn xs x h.symm
      rwa [hxs] at hall
  · rintro rfl
    rw [List.length_replicate, ← List.replicate_succ']
    rfl

/-- The focus list is not empty, unless sixty copies of the record are all there is, and every proposal is counted
unless an exception leaves the loop. -/
def Accountable (s : CycleState) (i : CycleInputs) : Prop :=
  match s.prepare i with
  | .raised _ _ _ => True
  | .skipped s record => s.cycles = List.replicate 60 record
  | .ready s record w decision =>
    (w.execute decision s.desk record.toCycleRecord).raised = none →
      w.AllCounted decision 0 decision.proposals { desk := s.desk, record := record.toCycleRecord }

theorem prepare_cases (s : CycleState) (i : CycleInputs) :
    (∃ s' record exc, s.prepare i = .raised s' record exc ∧ record.proposals = 0 ∧
        record.toCycleRecord = {}) ∨
      (∃ s' record, s.prepare i = .skipped s' record ∧ record.proposals = 0 ∧ record.toCycleRecord = {}) ∨
      ∃ s' record w decision, s.prepare i = .ready s' record w decision ∧
        record.proposals = decision.proposals.length ∧ record.toCycleRecord = {} := by
  unfold prepare
  cases i.account with
  | error exc => exact Or.inl ⟨_, _, _, rfl, rfl, rfl⟩
  | ok account =>
    dsimp only
    cases i.features with
    | error exc => exact Or.inl ⟨_, _, _, rfl, rfl, rfl⟩
    | ok features =>
      dsimp only
      cases i.subscribed with
      | error exc => exact Or.inl ⟨_, _, _, rfl, rfl, rfl⟩
      | ok done =>
        dsimp only
        split_ifs
        · exact Or.inr (Or.inl ⟨_, _, rfl, rfl, rfl⟩)
        · cases i.decision with
          | error exc => exact Or.inl ⟨_, _, _, rfl, rfl, rfl⟩
          | ok decision => exact Or.inr (Or.inr ⟨_, _, _, _, rfl, rfl, rfl⟩)

def quietStart : CycleState :=
  { desk := { app := {}, risk := { cfg := {}, killSwitch := {} }, orders := {} } }

def closeOfNothing : CycleDecision where
  proposals := [{ symbol := "AAPL", action := .close, conviction := 4 / 5, horizonMinutes := 60 }]
  decidedAt := .aware 0

def quietCycle (features : Dict String FeaturePack) (decision : CycleDecision) : CycleInputs where
  settings := { secrets := {} }
  phase := .rth
  minutesToClose := some 200
  cycleId := "c-1"
  account := .ok breakoutAccount
  features := .ok features
  decision := .ok decision
  turn _ :=
    { now := .sample 0 0, later := .sample 0 0 }

end CycleState

end AiTrader
