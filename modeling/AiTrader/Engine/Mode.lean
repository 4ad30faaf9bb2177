import AiTrader.Engine.Scheduler

/-!
# Who is in the loop

The execution mode is a standing preference: it is set by a person, written to the store at once, and read from there
when the process starts again.

Nothing else in the engine touches it (`mode_act`). What has been set and written is the mode from then on, through
every event and every restart, until it is set again (`Standing.step`).

A restart is where this could fail: the new process begins in the configured mode and takes the saved one when the
store has it. A write that raises leaves the old mode in the store, so what stands is what has been set and written.
-/

namespace AiTrader

namespace FastLoop

theorem executionMode_setAccount (s : AppState) (account : AccountSnapshot) :
    (s.setAccount account).executionMode = s.executionMode := by
  unfold AppState.setAccount AppState.updatePeak
  dsimp only
  split_ifs <;> rfl

theorem kept_mode : Kept fun s s' => s'.app.executionMode = s.app.executionMode where
  trans := fun h h' => h'.trans h
  moved := fun _ _ _ => rfl
  expired := fun _ _ => rfl
  looked := fun _ _ => rfl
  checked := fun _ _ _ => rfl
  asked := fun _ _ _ => rfl
  replied := by
    intro s now symbol spec reply
    cases reply <;> rfl
  synced := fun s account => executionMode_setAccount s.app account
  tripped := fun _ _ => rfl
  filled := fun _ _ => rfl

end FastLoop

namespace TradingEngine

open FastLoop (executionMode_setAccount)

/-- The mode in memory and the store are as they were. -/
def SameMode (s s' : TradingEngine) : Prop :=
  s'.app.executionMode = s.app.executionMode ∧ s'.store = s.store

theorem SameMode.trans {s s' s'' : TradingEngine} (h : SameMode s s') (h' : SameMode s' s'') : SameMode s s'' :=
  ⟨h'.1.trans h.1, h'.2.trans h.2⟩

theorem sameMode_noteVerdict (s : TradingEngine) (symbol : String) (verdict : RiskVerdict) :
    SameMode s (s.noteVerdict symbol verdict) := by
  unfold noteVerdict
  split_ifs <;> exact ⟨rfl, rfl⟩

theorem sameMode_submit (s : TradingEngine) (order : SizedOrder) (ctx : RiskContext) (cycleId : String) :
    SameMode s (s.submit order ctx cycleId).1 := ⟨rfl, rfl⟩

theorem sameMode_finishEntry (s : TradingEngine) (entry : Submission)
    (reply : Except String (List BrokerOrderStatus)) : SameMode s (s.finishEntry entry reply) :=
  SameMode.trans ⟨rfl, rfl⟩ (sameMode_noteVerdict _ _ _)

theorem sameMode_rest (s : TradingEngine) (loop : PlanningLoop) : SameMode s (s.rest loop) := by
  cases loop <;> exact ⟨rfl, rfl⟩

theorem sameMode_planFetched (s : TradingEngine) (loop : PlanningLoop) (reply : Except String AccountSnapshot) :
    SameMode s (s.planFetched loop reply) := by
  unfold planFetched
  split_ifs
  · cases reply with
    | error error => exact sameMode_rest s loop
    | ok account => cases loop <;> exact ⟨executionMode_setAccount _ _, rfl⟩
  · exact ⟨rfl, rfl⟩

theorem sameMode_proposed (s : TradingEngine) (order : SizedOrder) (i : EntryInputs) (cycleId approvalId : String) :
    SameMode s (s.proposed order i cycleId approvalId) := by
  unfold proposed
  split
  · split_ifs
    · exact ⟨rfl, rfl⟩
    · dsimp only
      split
      · exact SameMode.trans (sameMode_submit s order _ cycleId) (sameMode_noteVerdict _ _ _)
      · exact ⟨rfl, rfl⟩
  · exact ⟨rfl, rfl⟩

theorem sameMode_clicked (s : TradingEngine) (id : String) (resized : Option SizedOrder) (i : EntryInputs) :
    SameMode s (s.clicked id resized i) := by
  unfold clicked
  split
  · exact ⟨rfl, rfl⟩
  · dsimp only
    split
    · split
      · exact SameMode.trans ⟨rfl, rfl⟩ (sameMode_noteVerdict _ _ _)
      · exact ⟨rfl, rfl⟩
    · exact ⟨rfl, rfl⟩

/-- **Only the request for it changes the mode.** -/
theorem mode_act (s : TradingEngine) {e : Event} (he : ∀ mode, e ≠ .modeSet mode) : SameMode s (s.act e) := by
  cases e with
  | fast e => exact ⟨FastLoop.kept_mode.step s.toFastLoop e, rfl⟩
  | scheduleTicked =>
    unfold act scheduleTick
    dsimp only
    split_ifs <;> exact ⟨rfl, rfl⟩
  | planFetched loop reply => exact sameMode_planFetched s loop reply
  | planned loop ok =>
    unfold act planned
    dsimp only
    split_ifs
    · exact SameMode.trans ⟨rfl, rfl⟩ (sameMode_rest _ loop)
    · exact ⟨rfl, rfl⟩
  | eodFetched reply =>
    unfold act eodFetched
    dsimp only
    split
    · cases reply with
      | ok account => exact ⟨executionMode_setAccount _ _, rfl⟩
      | error error => exact ⟨rfl, rfl⟩
    · exact ⟨rfl, rfl⟩
  | eodReviewed ok =>
    unfold act eodReviewed
    dsimp only
    split
    · split_ifs <;> exact ⟨rfl, rfl⟩
    · exact ⟨rfl, rfl⟩
  | decisionTicked deterministicOnly =>
    unfold act decisionTick
    dsimp only
    split
    · split_ifs <;> exact ⟨rfl, rfl⟩
    · exact ⟨rfl, rfl⟩
  | cycleFetched reply =>
    unfold act cycleFetched
    dsimp only
    split
    · cases reply with
      | ok account => exact ⟨executionMode_setAccount _ _, rfl⟩
      | error error => exact ⟨rfl, rfl⟩
    · exact ⟨rfl, rfl⟩
  | proposed order i cycleId approvalId => exact sameMode_proposed s order i cycleId approvalId
  | cyclePlaced reply =>
    unfold act cyclePlaced
    dsimp only
    split
    · exact SameMode.trans ⟨rfl, rfl⟩ (sameMode_finishEntry _ _ reply)
    · exact ⟨rfl, rfl⟩
  | cycleEnded =>
    unfold act cycleEnded
    dsimp only
    split <;> exact ⟨rfl, rfl⟩
  | closeProposed symbol p cycleId approvalId =>
    unfold act closeProposed
    dsimp only
    split <;> exact ⟨rfl, rfl⟩
  | clicked id resized i => exact sameMode_clicked s id resized i
  | approvalPlaced i reply =>
    unfold act approvalPlaced
    dsimp only
    split
    · exact SameMode.trans ⟨rfl, rfl⟩ (sameMode_finishEntry _ _ reply)
    · exact ⟨rfl, rfl⟩
  | skipped id =>
    unfold act skipped
    dsimp only
    split <;> exact ⟨rfl, rfl⟩
  | modeSet mode => exact absurd rfl (he mode)
  | advanced | restarted | stopped | gateway | ordersMoved | closed => exact ⟨rfl, rfl⟩

/-- The mode is this one, for this process and the next. -/
structure Standing (mode : ExecutionMode) (s : TradingEngine) : Prop where
  inMemory : s.app.executionMode = mode
  stored : s.store.executionMode = some mode

variable {s s' : TradingEngine} {mode : ExecutionMode}

theorem Standing.of_same (h : Standing mode s) (hsame : SameMode s s') : Standing mode s' :=
  ⟨hsame.1.trans h.inMemory, by rw [hsame.2, h.stored]⟩

theorem Standing.stop (h : Standing mode s) : Standing mode s.stop := ⟨h.inMemory, h.stored⟩

theorem Standing.restarted (h : Standing mode s) (orders : OrderManager) (accountId : String)
    (reply : Except String AccountSnapshot) : Standing mode (s.restarted orders accountId reply) := by
  have hadopted : ∀ account, ∀ store ∈ (s.adoptEquity account).2, store.executionMode = some mode := by
    intro account store hstore
    have hwritten : ∀ saved, ∀ written ∈ s.store.setStartingEquity saved, written.executionMode = some mode := by
      intro saved written hwritten
      unfold StateStore.setStartingEquity at hwritten
      split_ifs at hwritten
      · cases hwritten
      · obtain rfl := Option.mem_some_iff.mp hwritten
        exact h.stored
    unfold adoptEquity at hstore
    dsimp only at hstore
    split at hstore
    · split_ifs at hstore
      · obtain rfl := Option.mem_some_iff.mp hstore
        exact h.stored
      · exact hwritten _ _ hstore
    · exact hwritten _ _ hstore
  unfold TradingEngine.restarted
  split
  · exact h.stop
  · rename_i account
    dsimp only
    split
    · exact h.stop
    · rename_i store hstore
      have hmode := hadopted account store hstore
      exact ⟨by simp [hmode], hmode⟩

/-- **What has been set stays set**, through every event but the request for another mode. -/
theorem Standing.step (h : Standing mode s) {e : Event} (he : ∀ other, e ≠ .modeSet other) : Standing mode (s.step e) := by
  have hact : Standing mode (if s.running then s.act e else s) := by
    split_ifs
    · exact h.of_same (mode_act s he)
    · exact h
  cases e with
  | advanced now =>
    unfold TradingEngine.step
    dsimp only
    split_ifs
    · exact ⟨h.inMemory, h.stored⟩
    · exact h
  | restarted orders accountId reply => exact h.restarted orders accountId reply
  | _ => exact hact

end TradingEngine

end AiTrader
