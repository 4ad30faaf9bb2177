import AiTrader.Engine.Expiry

/-!
# The flip-flop guard

Check 22 refuses a symbol for which `note_close` was called less than `flip_flop_guard_seconds` ago. Three
callers note a close when its exit has been sent: the model's close, a person's close, and the flatten. A
position also closes at the broker, by its own stop or target; the execution reaches the order manager and goes
no further.

`GuardRun` keeps beside the engine when positions went flat and which closes were noted. `last_close` holds the
latest note of each symbol (`GuardRun.Inv`), and `flip_flop_guard_iff` says when that covers every way a
position closes.

The invariant is shown at each place that writes `last_close`: the callers of `note_close`, which the history notes as
well, a reset and a start, which empty it. The other steps leave the dictionary and the list of notes alone
(`lastClose_act`). At a submission the gate is given the dictionary as it stands, so check 22 finds a note of the
symbol exactly if there is one since the last reset within the guard (`Inv.noted_iff`); that a close left none is then
the only way for an entry to slip through.
-/

namespace AiTrader

open Lib

/-! ### Who writes `last_close` -/

/-- `note_close`, if it is called. -/
def noteClosed (symbol : Option String) (now : Now) (lastClose : Dict String ℚ) : Dict String ℚ :=
  match symbol with
  | some symbol => lastClose.set symbol now.mono
  | none => lastClose

namespace FastLoop

/-- The symbol that `_flatten_all` notes in the step. -/
def notesClose (s : FastLoop) : Event → Option String
  | .placeReturned (.ok _) _ _ => match s.task with
    | .flattening _ f => match f.suspended with
      | .placing symbol _ _ => some symbol
      | _ => none
    | _ => none
  | _ => none

theorem kept_lastClose : KeptInSegments fun s s' => s'.app.lastClose = s.app.lastClose where
  trans := fun h h' => h'.trans h
  moved := fun _ _ _ => rfl
  expired := fun _ _ => rfl
  looked := fun _ _ => rfl
  checked := fun _ _ _ => rfl
  asked := fun _ _ _ => rfl

theorem lastClose_setAccount (s : AppState) (account : AccountSnapshot) :
    (s.setAccount account).lastClose = s.lastClose := by
  unfold AppState.setAccount AppState.updatePeak
  dsimp only
  split_ifs <;> rfl

theorem lastClose_step (s : FastLoop) (e : Event) (now : Now) :
    (s.step (e.stamp now)).app.lastClose = noteClosed (s.notesClose e) now s.app.lastClose := by
  cases e with
  | ticked connected now' quotes =>
    show (s.step (.ticked connected now quotes)).app.lastClose = s.app.lastClose
    unfold FastLoop.step
    dsimp only
    split
    · exact kept_lastClose.tick
    · rfl
  | cancelReturned ok now' quotes => exact kept_lastClose.cancelReturned
  | placeReturned reply now' quotes =>
    show (s.placeReturned now quotes reply).app.lastClose = _
    unfold placeReturned notesClose
    cases htask : s.task with
    | idle => cases reply <;> rfl
    | expiring began orderId refs => cases reply <;> rfl
    | flattening eodNext f =>
      dsimp only
      cases hsuspended : f.suspended with
      | cancellingAll orderId refs => cases reply <;> rfl
      | cancellingSymbol symbol p orderId refs => cases reply <;> rfl
      | placing symbol p spec =>
        have hrest : ∀ t : FastLoop, (t.closeNext f.reason now quotes eodNext (afterFlatten now quotes eodNext)
            f.left).app.lastClose = t.app.lastClose :=
          fun t => kept_lastClose.closeNext kept_lastClose.afterFlatten
        refine (hrest _).trans ?_
        cases reply <;> rfl
  | accountSynced account lag => exact lastClose_setAccount _ _
  | _ => rfl

end FastLoop

namespace TradingEngine

variable (s : TradingEngine)

/-- The symbol that `note_close` is called for in the step. -/
def notesClose : Event → Option String
  | .closed symbol => if s.running then some symbol else none
  | .fast e => if s.running then s.toFastLoop.notesClose e else none
  | _ => none

/-- The step empties `last_close`: a new session, or a process that starts. -/
def forgetsCloses : Event → Bool
  | .restarted orders accountId reply => (s.restarted orders accountId reply).running
  | e => s.resets e

theorem lastClose_noteVerdict (symbol : String) (verdict : RiskVerdict) :
    (s.noteVerdict symbol verdict).app.lastClose = s.app.lastClose := by
  rcases s.noteVerdict_cases symbol verdict with ⟨_, heq⟩ | ⟨_, heq⟩
  · rw [heq]
  · rw [heq]
    rfl

theorem lastClose_finishEntry (entry : Submission) (reply : Except String (List BrokerOrderStatus)) :
    (s.finishEntry entry reply).app.lastClose = s.app.lastClose := by
  obtain ⟨risk, orders, verdict, _, heq⟩ := s.finishEntry_cases entry reply
  rw [heq, lastClose_noteVerdict]

theorem lastClose_submitted (order : SizedOrder) (ctx : RiskContext) (cycleId symbol : String)
    (verdict : RiskVerdict) :
    ((s.submit order ctx cycleId).1.noteVerdict symbol verdict).app.lastClose = s.app.lastClose := by
  rw [lastClose_noteVerdict, app_submit]

theorem lastClose_restarted (orders : OrderManager) (accountId : String) (reply : Except String AccountSnapshot) :
    ((s.restarted orders accountId reply).running = false ∧
        (s.restarted orders accountId reply).app.lastClose = s.app.lastClose) ∨
      (s.restarted orders accountId reply).running = true ∧
        (s.restarted orders accountId reply).app.lastClose = Dict.empty := by
  unfold restarted
  cases reply with
  | error error => exact Or.inl ⟨rfl, rfl⟩
  | ok account =>
    dsimp only
    split
    · exact Or.inl ⟨rfl, rfl⟩
    · exact Or.inr ⟨rfl, rfl⟩

theorem lastClose_entry {e : Event} (he : isEntry e = true) : (s.act e).app.lastClose = s.app.lastClose := by
  cases e with
  | proposed order i cycleId approvalId =>
    show (s.proposed order i cycleId approvalId).app.lastClose = s.app.lastClose
    unfold proposed
    split
    · split_ifs
      · rfl
      · dsimp only
        split
        · exact s.lastClose_submitted _ _ _ _ _
        · exact congrArg AppState.lastClose (s.app_submit _ _ _)
    · rfl
  | clicked id resized i =>
    show (s.clicked id resized i).app.lastClose = s.app.lastClose
    unfold clicked
    split
    · rfl
    · dsimp only
      split
      · split
        · exact lastClose_submitted _ _ _ _ _ _
        · exact (congrArg AppState.lastClose (app_submit _ _ _ _)).trans rfl
      · rfl
  | cyclePlaced reply =>
    show (s.cyclePlaced reply).app.lastClose = s.app.lastClose
    unfold cyclePlaced
    split
    · exact lastClose_finishEntry _ _ _
    · rfl
  | approvalPlaced i reply =>
    show (s.approvalPlaced i reply).app.lastClose = s.app.lastClose
    unfold approvalPlaced
    split
    · exact lastClose_finishEntry _ _ _
    · rfl
  | _ => cases he

theorem lastClose_planFetched (hrun : s.running = true) (loop : PlanningLoop)
    (reply : Except String AccountSnapshot) :
    (s.planFetched loop reply).app.lastClose =
      if s.resets (.planFetched loop reply) then Dict.empty else s.app.lastClose := by
  unfold planFetched
  by_cases hfetching : s.planning loop = some .fetching
  · rw [if_pos hfetching]
    cases reply with
    | error error => exact (s.routine_rest loop).lastClose
    | ok account =>
      have hresets : s.resets (.planFetched loop (.ok account)) = true := by
        rw [resets, hrun, hfetching]
        rfl
      rw [if_pos hresets]
      cases loop <;> rfl
  · have hresets : s.resets (.planFetched loop reply) = false := by
      cases reply <;> simp [resets, hfetching]
    rw [if_neg hfetching, hresets, if_neg Bool.false_ne_true]

theorem lastClose_act (hrun : s.running = true) (e : Event) :
    (s.act (s.stamp e)).app.lastClose =
      if s.resets e then Dict.empty else noteClosed (s.notesClose e) s.now s.app.lastClose := by
  cases e with
  | gateway e => exact (s.routine_act rfl).lastClose
  | scheduleTicked => exact (s.routine_act rfl).lastClose
  | planned loop ok => exact (s.routine_act rfl).lastClose
  | eodReviewed ok => exact (s.routine_act rfl).lastClose
  | decisionTicked deterministicOnly => exact (s.routine_act rfl).lastClose
  | proposed order i cycleId approvalId => exact s.lastClose_entry rfl
  | clicked id resized i => exact s.lastClose_entry rfl
  | cyclePlaced reply => exact s.lastClose_entry rfl
  | approvalPlaced i reply => exact s.lastClose_entry rfl
  | closed symbol =>
    rw [notesClose, if_pos hrun]
    rfl
  | fast e =>
    rw [notesClose, if_pos hrun]
    exact s.toFastLoop.lastClose_step e s.now
  | planFetched loop reply => exact s.lastClose_planFetched hrun loop reply
  | eodFetched reply =>
    show (s.eodFetched reply).app.lastClose = s.app.lastClose
    unfold eodFetched
    split
    · cases reply with
      | ok account => exact FastLoop.lastClose_setAccount _ _
      | error error => rfl
    · rfl
  | cycleFetched reply =>
    show (s.cycleFetched reply).app.lastClose = s.app.lastClose
    unfold cycleFetched
    split
    · cases reply with
      | ok account => exact FastLoop.lastClose_setAccount _ _
      | error error => rfl
    · rfl
  | cycleEnded =>
    show s.cycleEnded.app.lastClose = s.app.lastClose
    unfold cycleEnded
    split <;> rfl
  | closeProposed symbol p cycleId approvalId =>
    show (s.closeProposed symbol p cycleId approvalId).app.lastClose = s.app.lastClose
    unfold closeProposed
    split <;> rfl
  | skipped id =>
    show (s.skipped id).app.lastClose = s.app.lastClose
    unfold skipped
    split <;> rfl
  | _ => rfl

/-- **What writes `last_close`**: a reset or a start empties it, and the callers of `note_close` set the time of
their symbol. -/
theorem lastClose_step (e : Event) :
    (s.step (s.stamp e)).app.lastClose =
      if s.forgetsCloses e then Dict.empty else noteClosed (s.notesClose e) s.now s.app.lastClose := by
  have hrunning : ∀ e : Event, s.step (s.stamp e) = (if s.running then s.act (s.stamp e) else s) →
      s.forgetsCloses e = s.resets e → (s.running = false → s.resets e = false ∧ s.notesClose e = none) →
      (s.step (s.stamp e)).app.lastClose =
        if s.forgetsCloses e then Dict.empty else noteClosed (s.notesClose e) s.now s.app.lastClose := by
    intro e hstep hforgets hdown
    rw [hstep, hforgets]
    cases hrun : s.running with
    | true => exact s.lastClose_act hrun e
    | false =>
      obtain ⟨hresets, hnotes⟩ := hdown hrun
      rw [hresets, hnotes]
      rfl
  cases e with
  | advanced now =>
    show (if _ then _ else _ : TradingEngine).app.lastClose = s.app.lastClose
    split_ifs <;> rfl
  | restarted orders accountId reply =>
    show (s.restarted orders accountId reply).app.lastClose =
      if (s.restarted orders accountId reply).running then Dict.empty else s.app.lastClose
    rcases s.lastClose_restarted orders accountId reply with ⟨hdown, hsame⟩ | ⟨hup, hempty⟩
    · rw [hdown, hsame, if_neg Bool.false_ne_true]
    · rw [hup, hempty, if_pos rfl]
  | planFetched loop reply =>
    refine hrunning _ rfl rfl fun hdown => ⟨?_, rfl⟩
    cases reply with
    | error error => rfl
    | ok account => rw [resets, hdown, Bool.false_and]
  | closed symbol => exact hrunning _ rfl rfl fun hdown => ⟨rfl, by rw [notesClose, hdown, if_neg Bool.false_ne_true]⟩
  | fast e => exact hrunning _ rfl rfl fun hdown => ⟨rfl, by rw [notesClose, hdown, if_neg Bool.false_ne_true]⟩
  | _ => exact hrunning _ rfl rfl fun _ => ⟨rfl, rfl⟩

/-! ### Submissions -/

/-- The order that the cycle submits, and what the gate is told with it. -/
def proposedOrder (order : SizedOrder) (i : EntryInputs) : Option (SizedOrder × RiskContext) :=
  match s.decision with
  | .cycle _ session (.deciding account) =>
    if s.app.executionMode = .manual then none else some (order, s.context account session i)
  | _ => none

/-- The same for a click. -/
def clickedOrder (id : String) (resized : Option SizedOrder) (i : EntryInputs) :
    Option (SizedOrder × RiskContext) :=
  match s.app.pendingApprovals.find? fun p => p.id = id with
  | none => none
  | some approval =>
    match approval.kind, s.app.account, approval.sized, resized with
    | .entry, some account, some _, some order =>
      let i := { i with decisionAgeSeconds := 0, riskOfficerApproved := true, riskOfficerComment := "" }
      some (order, s.context account s.session i)
    | _, _, _, _ => none

/-- The order that the step submits. -/
def submits (e : Event) : Option (SizedOrder × RiskContext) :=
  if s.running then
    match e with
    | .proposed order i _ _ => s.proposedOrder order i
    | .clicked id resized i => s.clickedOrder id resized i
    | _ => none
  else none

variable {s}

theorem lastClose_proposedOrder {order : SizedOrder} {i : EntryInputs} {submitted : SizedOrder × RiskContext}
    (h : s.proposedOrder order i = some submitted) : submitted.2.lastClose = s.app.lastClose := by
  unfold proposedOrder at h
  split at h
  · split_ifs at h
    obtain rfl := Option.some.inj h
    rfl
  · cases h

theorem lastClose_clickedOrder {id : String} {resized : Option SizedOrder} {i : EntryInputs}
    {submitted : SizedOrder × RiskContext} (h : s.clickedOrder id resized i = some submitted) :
    submitted.2.lastClose = s.app.lastClose := by
  unfold clickedOrder at h
  split at h
  · cases h
  · split at h
    · obtain rfl := Option.some.inj h
      rfl
    · cases h

theorem lastClose_submits {e : Event} {submitted : SizedOrder × RiskContext} (h : s.submits e = some submitted) :
    submitted.2.lastClose = s.app.lastClose := by
  unfold submits at h
  by_cases hrun : s.running = true
  · rw [if_pos hrun] at h
    split at h
    · exact lastClose_proposedOrder h
    · exact lastClose_clickedOrder h
    · cases h
  · rw [if_neg hrun] at h
    cases h

theorem attempts_proposed (order : SizedOrder) (i : EntryInputs) (cycleId approvalId : String) :
    (s.proposed order i cycleId approvalId).history.attempts.length =
      s.history.attempts.length + (s.proposedOrder order i).isSome.toNat := by
  unfold proposed proposedOrder
  cases s.decision with
  | idle => rfl
  | premarket suspended => rfl
  | cycle day session suspended =>
    cases suspended with
    | fetching => rfl
    | placing account entry => rfl
    | deciding account =>
      dsimp only
      split_ifs
      · rfl
      · split
        · rw [attempts_noteVerdict]
          exact s.attempts_submit _ _ _
        · exact s.attempts_submit _ _ _

theorem isSome_clickedOrder_iff {id : String} {resized : Option SizedOrder} {i : EntryInputs}
    (quotes : String → Option Quote) :
    (s.clickedOrder id resized i).isSome = true ↔ s.approveProposal id resized quotes = some .submitted := by
  rw [approveProposal_eq_submitted]
  unfold clickedOrder
  cases s.app.pendingApprovals.find? fun p => p.id = id with
  | none => simp
  | some approval =>
    cases hkind : approval.kind <;> cases s.app.account <;> cases hsized : approval.sized <;> cases resized <;>
      simp [hkind, hsized]

theorem attempts_step {e : Event} (he : (∃ order i cycleId approvalId, e = .proposed order i cycleId approvalId) ∨
    ∃ id resized i, e = .clicked id resized i) :
    (s.step e).history.attempts.length = s.history.attempts.length + (s.submits e).isSome.toNat := by
  have hstep : s.step e = if s.running then s.act e else s := by
    rcases he with ⟨_, _, _, _, rfl⟩ | ⟨_, _, _, rfl⟩ <;> rfl
  rw [hstep]
  unfold submits
  by_cases hrun : s.running = true
  · rw [if_pos hrun, if_pos hrun]
    rcases he with ⟨order, i, cycleId, approvalId, rfl⟩ | ⟨id, resized, i, rfl⟩
    · exact attempts_proposed order i cycleId approvalId
    · refine (s.attempts_clicked id resized (fun _ => none) i).trans (congrArg _ ?_)
      dsimp only
      by_cases hsubmits : s.approveProposal id resized (fun _ => none) = some .submitted
      · rw [if_pos hsubmits, (isSome_clickedOrder_iff _).mpr hsubmits]
        rfl
      · rw [if_neg hsubmits, Bool.eq_false_iff.mpr fun h => hsubmits ((isSome_clickedOrder_iff _).mp h)]
        rfl
  · rw [if_neg hrun, if_neg hrun]
    rfl

/-! ### Fills -/

/-- The broker fills an order that is no exit of `_flatten_all`: the position moves, and `on_execution` of a
process that runs records the fill. -/
def execute (s : TradingEngine) (e : BrokerExecution) : TradingEngine :=
  { s with
    orders := if s.running then s.orders.onExecution e else s.orders
    broker := { s.broker with
      positions := movePosition s.broker.positions e.symbol (if e.action = "BUY" then e.quantity else -e.quantity)
      past := s.broker.positions :: s.broker.past } }

end TradingEngine

/-! ### Runs -/

/-- The engine, and the past that the guard is about. -/
structure GuardRun where
  engine : TradingEngine
  /-- Which positions have gone flat, and when. -/
  flats : List (String × ℚ) := []
  /-- Which closes have been noted since `last_close` was last emptied, and when. -/
  notes : List (String × ℚ) := []

namespace GuardRun

inductive Event
  | engine (e : TradingEngine.Event)
  | executed (e : BrokerExecution)

/-- The symbols held before and not after. -/
def wentFlat (before after : Dict String Position) : List String :=
  before.keys.filter fun symbol => decide (quantityOf before symbol ≠ 0 ∧ quantityOf after symbol = 0)

variable (r : GuardRun)

def now : ℚ := r.engine.now.mono

def guardSeconds : ℚ := r.engine.risk.cfg.flipFlopGuardSeconds

def advance : Event → TradingEngine
  | .engine e => r.engine.step (r.engine.stamp e)
  | .executed e => r.engine.execute e

def notesAfter : Event → List (String × ℚ)
  | .engine e =>
    if r.engine.forgetsCloses e then []
    else r.notes ++ (r.engine.notesClose e).toList.map fun symbol => (symbol, r.now)
  | .executed _ => r.notes

def step (r : GuardRun) (e : Event) : GuardRun where
  engine := r.advance e
  flats := r.flats ++
    (wentFlat r.engine.broker.positions (r.advance e).broker.positions).map fun symbol => (symbol, r.now)
  notes := r.notesAfter e

/-- The order that the step submits, and its context. -/
def submits : Event → Option (SizedOrder × RiskContext)
  | .engine e => r.engine.submits e
  | .executed _ => none

/-- An entry that is approved is not in a symbol that went flat within the guard. -/
def Guarded (e : Event) : Prop :=
  ∀ submitted ∈ r.submits e, r.engine.risk.Passed submitted.1 submitted.2 r.engine.now →
    ∀ flat ∈ r.flats, flat.1 = submitted.1.symbol → r.guardSeconds ≤ r.now - flat.2

/-- An entry in a symbol that went flat within the guard, with which nothing else is wrong, comes within the
guard of a note for the symbol. -/
def Noted (e : Event) : Prop :=
  ∀ submitted ∈ r.submits e,
    r.engine.risk.Passed submitted.1 { submitted.2 with lastClose := Dict.empty } r.engine.now →
      (∃ flat ∈ r.flats, flat.1 = submitted.1.symbol ∧ r.now - flat.2 < r.guardSeconds) →
        ∃ note ∈ r.notes, note.1 = submitted.1.symbol ∧ r.now - note.2 < r.guardSeconds

/-- `last_close` holds the latest note of each symbol. -/
structure Inv (r : GuardRun) : Prop where
  past : ∀ note ∈ r.notes, note.2 ≤ r.now
  stored : ∀ symbol t, r.engine.app.lastClose.get? symbol = some t → (symbol, t) ∈ r.notes
  latest : ∀ note ∈ r.notes, ∃ t, r.engine.app.lastClose.get? note.1 = some t ∧ note.2 ≤ t

variable {r}

theorem Inv.of_same (h : r.Inv) {r' : GuardRun} (hnotes : r'.notes = r.notes) (hlater : r.now ≤ r'.now)
    (hsame : r'.engine.app.lastClose = r.engine.app.lastClose) : r'.Inv := by
  refine ⟨?_, ?_, ?_⟩ <;> rw [hnotes]
  · exact fun note hmem => (h.past note hmem).trans hlater
  · rw [hsame]
    exact h.stored
  · rw [hsame]
    exact h.latest

theorem Inv.note (h : r.Inv) {r' : GuardRun} {symbol : String} (hnotes : r'.notes = r.notes ++ [(symbol, r.now)])
    (hlater : r.now ≤ r'.now)
    (hset : r'.engine.app.lastClose = r.engine.app.lastClose.set symbol r.now) : r'.Inv := by
  refine ⟨?_, ?_, ?_⟩ <;> rw [hnotes]
  · intro note hmem
    rcases List.mem_append.mp hmem with hold | hnew
    · exact (h.past note hold).trans hlater
    · obtain rfl := List.mem_singleton.mp hnew
      exact hlater
  · intro other t hget
    rw [hset] at hget
    by_cases hother : other = symbol
    · subst hother
      rw [Dict.get?_set_self] at hget
      obtain rfl := Option.some.inj hget
      exact List.mem_append_right _ (List.mem_singleton.mpr rfl)
    · rw [Dict.get?_set_ne _ _ hother] at hget
      exact List.mem_append_left _ (h.stored other t hget)
  · intro note hmem
    rw [hset]
    by_cases hother : note.1 = symbol
    · refine ⟨r.now, by rw [hother, Dict.get?_set_self], ?_⟩
      rcases List.mem_append.mp hmem with hold | hnew
      · exact h.past note hold
      · rw [List.mem_singleton.mp hnew]
    · rw [Dict.get?_set_ne _ _ hother]
      rcases List.mem_append.mp hmem with hold | hnew
      · exact h.latest note hold
      · exact absurd (by rw [List.mem_singleton.mp hnew]) hother

theorem Inv.step (h : r.Inv) (e : Event) : (r.step e).Inv := by
  cases e with
  | executed e => exact h.of_same rfl le_rfl rfl
  | engine e =>
    obtain ⟨-, -, hlater⟩ := r.engine.steady_step (r.engine.stamp e)
    have hclose := r.engine.lastClose_step e
    cases hforgets : r.engine.forgetsCloses e with
    | true =>
      have hnone : (r.step (.engine e)).notes = [] := if_pos hforgets
      have hempty : (r.step (.engine e)).engine.app.lastClose = Dict.empty := hclose.trans (if_pos hforgets)
      refine ⟨?_, ?_, ?_⟩ <;> rw [hnone]
      · exact fun note hmem => (nomatch hmem)
      · intro symbol t hget
        rw [hempty] at hget
        cases hget
      · exact fun note hmem => (nomatch hmem)
    | false =>
      have hnotes : (r.step (.engine e)).notes =
          r.notes ++ (r.engine.notesClose e).toList.map fun symbol => (symbol, r.now) :=
        if_neg (by rw [hforgets]; exact Bool.false_ne_true)
      rw [hforgets, if_neg Bool.false_ne_true] at hclose
      cases hnoted : r.engine.notesClose e with
      | none =>
        rw [hnoted] at hclose hnotes
        exact h.of_same (hnotes.trans (List.append_nil _)) hlater hclose
      | some symbol =>
        rw [hnoted] at hclose hnotes
        exact h.note hnotes hlater hclose

theorem Inv.noted_iff (h : r.Inv) (symbol : String) :
    (∃ note ∈ r.notes, note.1 = symbol ∧ r.now - note.2 < r.guardSeconds) ↔
      ∃ t, r.engine.app.lastClose.get? symbol = some t ∧ r.now - t < r.guardSeconds := by
  constructor
  · rintro ⟨note, hmem, rfl, hrecent⟩
    obtain ⟨t, hget, hle⟩ := h.latest note hmem
    exact ⟨t, hget, lt_of_le_of_lt (sub_le_sub_left hle _) hrecent⟩
  · rintro ⟨t, hget, hrecent⟩
    exact ⟨_, h.stored symbol t hget, rfl, hrecent⟩

theorem submits_lastClose {e : Event} {submitted : SizedOrder × RiskContext} (h : submitted ∈ r.submits e) :
    submitted.2.lastClose = r.engine.app.lastClose := by
  cases e with
  | engine e => exact TradingEngine.lastClose_submits h
  | executed e => cases h

theorem Inv.guarded_iff (h : r.Inv) (e : Event) : r.Guarded e ↔ r.Noted e := by
  refine forall_congr' fun submitted => forall_congr' fun hsubmits => ?_
  rw [RiskEngine.passed_iff_lastClose, submits_lastClose hsubmits, h.noted_iff]
  constructor
  · rintro hguarded hothers ⟨flat, hmem, hsymbol, hrecent⟩
    by_contra hnone
    refine absurd (hguarded ⟨hothers, fun closed hget => ?_⟩ flat hmem hsymbol) (not_le.mpr hrecent)
    exact not_lt.mp fun hlt => hnone ⟨closed, hget, hlt⟩
  · rintro hnoted ⟨hothers, hguard⟩ flat hmem hsymbol
    by_contra hrecent
    obtain ⟨t, hget, hlt⟩ := hnoted hothers ⟨flat, hmem, hsymbol, not_le.mp hrecent⟩
    exact absurd (hguard t hget) (not_le.mpr hlt)

/-- Before the first start of the process. -/
def start (cfg : StrategyConfig) (isLive : Bool) (calendar : MarketCalendar) (now : Now)
    (killSwitch : KillSwitch) (store : StateStore) (positions : Dict String Position) : GuardRun where
  engine := TradingEngine.off cfg isLive calendar now killSwitch store positions

/-- **When the flip-flop guard covers every way a position closes.** In every run, no entry is approved in a
symbol whose position went flat less than `flip_flop_guard_seconds` ago, precisely if every submission in such
a symbol that passes all other checks comes within the guard of a call of `note_close` for the symbol, made
since `last_close` was last emptied. -/
theorem flip_flop_guard_iff (cfg : StrategyConfig) (isLive : Bool) (calendar : MarketCalendar) (now : Now)
    (killSwitch : KillSwitch) (store : StateStore) (positions : Dict String Position) (events : List Event) :
    Trace.Each step Guarded (start cfg isLive calendar now killSwitch store positions) events ↔
      Trace.Each step Noted (start cfg isLive calendar now killSwitch store positions) events := by
  have hstart : (start cfg isLive calendar now killSwitch store positions).Inv :=
    ⟨fun note hmem => (nomatch hmem), fun symbol t hget => (nomatch hget), fun note hmem => (nomatch hmem)⟩
  exact Trace.each_iff_of_invariant (fun r e h => h.step e) (fun r e h => h.guarded_iff e) hstart

/-! #### Stopped out -/

open TradingEngine

instance (e : RiskEngine) (order : SizedOrder) (ctx : RiskContext) (now : Now) : Decidable (e.Passed order ctx now) :=
  decidable_of_iff _ RiskEngine.approved_evaluate

instance (r : GuardRun) (e : Event) : Decidable (r.Guarded e) := by
  unfold Guarded
  infer_instance

/-- A fill of ten shares. -/
def filled (execId kind action : String) : Event :=
  .executed { execId, orderRef := makeRef "c1" "AAPL" kind "2025-01-02", symbol := "AAPL", action, quantity := 10
              price := 100, ts := 0 }

/-- The broker's last word on an order of the bracket. -/
def settled (kind status : String) : TradingEngine.Event :=
  .fast (.status
    { orderRef := makeRef "c1" "AAPL" kind "2025-01-02", orderId := 0, permId := none, status, filled := 0
      remaining := 0, avgFillPrice := none }
    (clock 0 56400))

/-- AAPL is bought, its own stop fills after 400 seconds, and the next cycle proposes it again. -/
def stoppedOut : List Event :=
  let again : List TradingEngine.Event := [
    .advanced (clock 0 56401), .decisionTicked false, .cycleFetched (.ok (accountAt (clock 0 56401) 100000)),
    .proposed (smallEntry "AAPL") (entryInputs "AAPL" (clock 0 56401)) "c2" "a2"]
  (bootAndPlan (clock 0 55800) 100000 ++ entryCycle "AAPL" (clock 0 56000)).map .engine ++
    [filled "e1" "ENTRY" "BUY", .engine (.advanced (clock 0 56400)), filled "e2" "STOP" "SELL"] ++
    ([settled "ENTRY" "Filled", settled "STOP" "Filled", settled "TARGET" "Cancelled"] ++ again).map .engine

/-- One second after the position has gone flat an entry in its symbol is approved and placed. -/
theorem stopped_out_reentered :
    ¬ Trace.Each step Guarded (start {} false dailySessions (clock 0 55800) {} {} Dict.empty) stoppedOut ∧
      (Trace.run step (start {} false dailySessions (clock 0 55800) {} {} Dict.empty)
        stoppedOut).engine.decision.inFlight = 1 :=
  ⟨by decide +kernel, by decide +kernel⟩

end GuardRun

end AiTrader
