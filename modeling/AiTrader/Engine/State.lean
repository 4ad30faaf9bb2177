import AiTrader.Domain.Proposals

/-!
# Shared runtime state

The part of `AppState` that the trading path reads and writes.

The counters of the cycle and of the day, the last entries and closes with the symbols they belong to, the queue of
approvals and the cached account live here. What a step leaves alone is told with two relations: `SameDay`, for the
baseline, the counter and the flags of the day, and `SameCycle`, for the counter of the cycle. Both let approvals
leave the queue and none come in.
-/

namespace AiTrader

open Lib

structure AppState where
  account : Option AccountSnapshot := none
  startingEquity : ℚ := 0
  /-- Highest equity seen today. -/
  peakEquity : ℚ := 0
  executionMode : ExecutionMode := .auto
  /-- Manual-mode trade ideas waiting for a person. -/
  pendingApprovals : List PendingApproval := []
  tradesToday : ℤ := 0
  entriesThisCycle : ℤ := 0
  lastEntry : Dict String ℚ := Dict.empty
  lastClose : Dict String ℚ := Dict.empty
  premarketDone : Bool := false
  eodDone : Bool := false
  haltedReason : String := ""

namespace AppState

def noteEntry (s : AppState) (symbol : String) (now : Now) : AppState :=
  { s with
    lastEntry := s.lastEntry.set symbol now.mono
    tradesToday := s.tradesToday + 1
    entriesThisCycle := s.entriesThisCycle + 1 }

def noteClose (s : AppState) (symbol : String) (now : Now) : AppState :=
  { s with lastClose := s.lastClose.set symbol now.mono }

/-- `execution_mode` is a standing preference and is not reset. -/
def resetForNewSession (s : AppState) (equity : ℚ) : AppState :=
  { s with
    startingEquity := equity
    peakEquity := equity
    tradesToday := 0
    entriesThisCycle := 0
    lastEntry := Dict.empty
    lastClose := Dict.empty
    premarketDone := false
    eodDone := false
    haltedReason := ""
    pendingApprovals := [] }

def updatePeak (s : AppState) : AppState :=
  match s.account with
  | some account =>
    if s.peakEquity < account.equity then { s with peakEquity := account.equity } else s
  | none => s

/-- `_account`, after the fetch. -/
def setAccount (s : AppState) (account : AccountSnapshot) : AppState :=
  { s with account := some account }.updatePeak

@[simp] theorem account_setAccount (s : AppState) (account : AccountSnapshot) :
    (s.setAccount account).account = some account := by
  unfold setAccount updatePeak
  dsimp only
  split_ifs <;> rfl

/-- `s'` has the daily state of `s`: its baseline, its counter, its flags, and no new approval. -/
structure SameDay (s s' : AppState) : Prop where
  startingEquity : s'.startingEquity = s.startingEquity
  tradesToday : s'.tradesToday = s.tradesToday
  premarketDone : s'.premarketDone = s.premarketDone
  eodDone : s'.eodDone = s.eodDone
  pending : ∀ p ∈ s'.pendingApprovals, p ∈ s.pendingApprovals

namespace SameDay

variable {s s' s'' : AppState}

theorem refl (s : AppState) : SameDay s s := ⟨rfl, rfl, rfl, rfl, fun _ hp => hp⟩

theorem trans (h : SameDay s s') (h' : SameDay s' s'') : SameDay s s'' where
  startingEquity := h'.startingEquity.trans h.startingEquity
  tradesToday := h'.tradesToday.trans h.tradesToday
  premarketDone := h'.premarketDone.trans h.premarketDone
  eodDone := h'.eodDone.trans h.eodDone
  pending := fun p hp => h.pending p (h'.pending p hp)

theorem noteClose (s : AppState) (symbol : String) (now : Now) : SameDay s (s.noteClose symbol now) :=
  ⟨rfl, rfl, rfl, rfl, fun _ hp => hp⟩

theorem setAccount (s : AppState) (account : AccountSnapshot) : SameDay s (s.setAccount account) := by
  unfold AppState.setAccount updatePeak
  dsimp only
  split_ifs <;> exact ⟨rfl, rfl, rfl, rfl, fun _ hp => hp⟩

end SameDay

/-- `s'` has the counter of the cycle of `s`, and approvals have only left the queue. -/
structure SameCycle (s s' : AppState) : Prop where
  entriesThisCycle : s'.entriesThisCycle = s.entriesThisCycle
  pending : s'.pendingApprovals.Sublist s.pendingApprovals

namespace SameCycle

variable {s s' s'' : AppState}

theorem refl (s : AppState) : SameCycle s s := ⟨rfl, List.Sublist.refl _⟩

theorem trans (h : SameCycle s s') (h' : SameCycle s' s'') : SameCycle s s'' :=
  ⟨h'.entriesThisCycle.trans h.entriesThisCycle, h'.pending.trans h.pending⟩

theorem setAccount (s : AppState) (account : AccountSnapshot) : SameCycle s (s.setAccount account) := by
  unfold AppState.setAccount updatePeak
  dsimp only
  split_ifs <;> exact ⟨rfl, List.Sublist.refl _⟩

end SameCycle

end AppState

end AiTrader
