import AiTrader.Risk.Sizing

/-!
# The rejection log

`submitIn` is the whole of `submit` with everything around it left open: what becomes of the switch between its
two readings, whether an order manager is wired, what runs while the order is placed, and how the placement ends.
It keeps the events that the call has persisted.

Of its five exits two persist nothing of their own. A placement that fails and an order manager that is missing
return a rejection after the approval has been persisted, so the last event of the call is an approval
(`rejection_log_iff`).

`submitIn_cases` goes through the exits once and says for each what has been persisted and which verdict it returns.
The two that persist nothing come after an approval, and nothing but the order manager and the placement decides
between them and the approval at the end: that is `Unplaced`.
-/

namespace AiTrader

open Lib

/-- What goes on around a `submit`. -/
structure Surroundings where
  /-- An order manager is wired. -/
  wired : Bool
  /-- What becomes of the switch between its two readings. -/
  meanwhile : KillSwitch → KillSwitch := id
  /-- What else runs while the order is placed. -/
  placing : RiskEngine → RiskEngine := id
  placement : Except String Unit := .ok ()
  /-- The clock at the checks, at the last look and at the broker's answer. -/
  now : Now
  looked : Now := now
  later : Now := now

namespace RiskEngine

/-- What a `submit` leaves. -/
structure Reply where
  engine : RiskEngine
  verdict : RiskVerdict
  /-- The events it has persisted, the oldest first. -/
  persisted : List RiskEvent

/-- The event that `_persist` saves. -/
def riskEvent (cycleId : String) (order : SizedOrder) (verdict : RiskVerdict) : RiskEvent where
  cycleId
  symbol := order.symbol
  approved := verdict.approved
  reason := verdict.reason
  detail := verdict.detail

/-- `submit`. -/
def submitIn (e : RiskEngine) (order : SizedOrder) (ctx : RiskContext) (cycleId : String)
    (w : Surroundings) : Reply :=
  let verdict := (e.evaluate order ctx w.now).1
  let e := (e.evaluate order ctx w.now).2.persist cycleId order verdict
  let first := [riskEvent cycleId order verdict]
  if !verdict.approved then { engine := e, verdict, persisted := first }
  else
    let e := ({ e with killSwitch := w.meanwhile e.killSwitch } : RiskEngine).lookSwitch w.looked
    if e.killSwitch.isTripped then
      let late := RiskVerdict.reject .killSwitch "tripped after evaluation" order.symbol
      { engine := e.persist cycleId order late, verdict := late
        persisted := first ++ [riskEvent cycleId order late] }
    else if w.wired then
      let out := (w.placing e).submitFinish order verdict w.placement w.later
      { engine := out.1, verdict := out.2, persisted := first }
    else
      { engine := e, verdict := .reject .tradingModeInterlock "no order manager wired" order.symbol
        persisted := first }

variable {e : RiskEngine} {order : SizedOrder} {ctx : RiskContext} {cycleId : String}

theorem submitIn_eq_submit (wired : Bool) (placement : Except String Unit) (now : Now) :
    ((e.submitIn order ctx cycleId { wired, placement, now }).engine,
        (e.submitIn order ctx cycleId { wired, placement, now }).verdict) =
      e.submit order ctx cycleId wired placement now := by
  unfold submitIn submit submitStart
  dsimp only [id_eq]
  split_ifs <;> rfl

/-! ### What is persisted -/

/-- The last event of the call carries the flag and the reason of its verdict. -/
def Reply.LogAgrees (r : Reply) : Prop :=
  ∃ event, r.persisted.getLast? = some event ∧ event.approved = r.verdict.approved ∧
    event.reason = r.verdict.reason

/-- The gate passes the order and the switch is still off at the last look, but there is no order manager or
the placement fails. -/
def Unplaced (e : RiskEngine) (order : SizedOrder) (ctx : RiskContext) (w : Surroundings) : Prop :=
  Passed e order ctx w.now ∧ (w.meanwhile (e.killSwitch.look w.now)).isTripped = false ∧
    (w.wired = false ∨ ∃ exc, w.placement = .error exc)

theorem store_persist {s : StateStore} {events : List RiskEvent}
    (hstore : e.store = some { s with riskEvents := events })
    (hhealthy : s.faults (.riskEvent order.symbol) = false) (cycleId : String) (verdict : RiskVerdict) :
    (e.persist cycleId order verdict).store =
      some { s with riskEvents := events ++ [riskEvent cycleId order verdict] } := by
  unfold persist StateStore.saveRiskEvent
  rw [hstore, Option.map_some, hhealthy, if_neg Bool.false_ne_true, Option.getD_some]
  rfl

theorem store_evaluate (now : Now) : (e.evaluate order ctx now).2.store = e.store := by
  rw [evaluate_snd]
  rfl

theorem submitIn_cases {s : StateStore} (hstore : e.store = some s)
    (hhealthy : s.faults (.riskEvent order.symbol) = false) (w : Surroundings) :
    (¬ Unplaced e order ctx w ∧ (e.submitIn order ctx cycleId w).verdict.approved = false ∧
        (e.submitIn order ctx cycleId w).persisted.getLast? =
          some (riskEvent cycleId order (e.submitIn order ctx cycleId w).verdict) ∧
        (e.submitIn order ctx cycleId w).engine.store =
          some { s with riskEvents := s.riskEvents ++ (e.submitIn order ctx cycleId w).persisted }) ∨
      (¬ Unplaced e order ctx w ∧ (e.submitIn order ctx cycleId w).verdict.approved = true ∧
        (e.submitIn order ctx cycleId w).persisted =
          [riskEvent cycleId order (e.submitIn order ctx cycleId w).verdict]) ∨
      Unplaced e order ctx w ∧ (e.submitIn order ctx cycleId w).verdict.approved = false ∧
        ∃ verdict : RiskVerdict, verdict.approved = true ∧
          (e.submitIn order ctx cycleId w).persisted = [riskEvent cycleId order verdict] := by
  have hfirst : ((e.evaluate order ctx w.now).2.persist cycleId order (e.evaluate order ctx w.now).1).store =
      some { s with riskEvents := s.riskEvents ++ [riskEvent cycleId order (e.evaluate order ctx w.now).1] } :=
    store_persist ((store_evaluate w.now).trans hstore) hhealthy _ _
  have hswitch : (w.meanwhile (e.evaluate order ctx w.now).2.killSwitch).isTripped =
      (w.meanwhile (e.killSwitch.look w.now)).isTripped := by
    rw [evaluate_snd]
    rfl
  unfold submitIn
  dsimp only
  by_cases happroved : (e.evaluate order ctx w.now).1.approved = true
  swap
  · rw [if_pos (by simpa using happroved)]
    exact Or.inl ⟨fun h => happroved (approved_evaluate.mpr h.1), by simpa using happroved, rfl, hfirst⟩
  rw [if_neg (by simpa using happroved)]
  have hpassed := approved_evaluate.mp happroved
  split_ifs with htripped hwired
  · have htripped : (w.meanwhile (e.killSwitch.look w.now)).isTripped = true := by
      rw [← hswitch]
      exact (KillSwitch.isTripped_look _ _).symm.trans htripped
    refine Or.inl ⟨fun h => ?_, rfl, rfl, ?_⟩
    · rw [h.2.1] at htripped
      cases htripped
    · have hlate := store_persist hfirst hhealthy cycleId
        (.reject .killSwitch "tripped after evaluation" order.symbol)
      rw [List.append_assoc] at hlate
      exact hlate
  · have hoff : (w.meanwhile (e.killSwitch.look w.now)).isTripped = false := by
      rw [← hswitch, ← Bool.not_eq_true]
      exact fun h => htripped ((KillSwitch.isTripped_look _ _).trans h)
    cases hplacement : w.placement with
    | ok done =>
      refine Or.inr (Or.inl ⟨fun h => ?_, happroved, rfl⟩)
      rcases h.2.2 with hunwired | ⟨exc, hfailed⟩
      · rw [hwired] at hunwired
        cases hunwired
      · rw [hplacement] at hfailed
        cases hfailed
    | error exc =>
      exact Or.inr (Or.inr ⟨⟨hpassed, hoff, Or.inr ⟨exc, hplacement⟩⟩, rfl, _, happroved, rfl⟩)
  · have hoff : (w.meanwhile (e.killSwitch.look w.now)).isTripped = false := by
      rw [← hswitch, ← Bool.not_eq_true]
      exact fun h => htripped ((KillSwitch.isTripped_look _ _).trans h)
    exact Or.inr (Or.inr ⟨⟨hpassed, hoff, Or.inl (by simpa using hwired)⟩, rfl, _, happroved, rfl⟩)

/-- **When the log agrees with the verdict.** With a healthy store, for every order, context and switch and
whatever goes on around the call: the last event the call persists has the flag and the reason of its verdict
precisely when no placement fails or is missing after an approval; and a rejection that is logged so is the first
row of `load_rejections`. -/
theorem rejection_log_iff {s : StateStore} (hstore : e.store = some s)
    (hhealthy : s.faults (.riskEvent order.symbol) = false) (w : Surroundings) :
    ((e.submitIn order ctx cycleId w).LogAgrees ↔ ¬ Unplaced e order ctx w) ∧
      ((e.submitIn order ctx cycleId w).LogAgrees → (e.submitIn order ctx cycleId w).verdict.approved = false →
        ∃ s', (e.submitIn order ctx cycleId w).engine.store = some s' ∧ ∀ limit, 0 < limit →
          (s'.loadRejections limit).head? = some
            { symbol := order.symbol
              reason := (e.submitIn order ctx cycleId w).verdict.reason
              detail := (e.submitIn order ctx cycleId w).verdict.detail }) := by
  rcases submitIn_cases hstore hhealthy w with
    ⟨hplaced, hrejected, hlast, hsaved⟩ | ⟨hplaced, happroved, hone⟩ | ⟨hunplaced, hrejected, verdict, happroved, hone⟩
  · refine ⟨⟨fun _ => hplaced, fun _ => ⟨_, hlast, rfl, rfl⟩⟩, fun _ _ => ⟨_, hsaved, fun limit hlimit => ?_⟩⟩
    have hnewest : (s.riskEvents ++ (e.submitIn order ctx cycleId w).persisted).getLast? =
        some (riskEvent cycleId order (e.submitIn order ctx cycleId w).verdict) := by
      rw [List.getLast?_append, hlast, Option.some_or]
    have hrow : (riskEvent cycleId order (e.submitIn order ctx cycleId w).verdict).approved = false := hrejected
    refine StateStore.head?_loadRejections ?_ hrow hlimit
    exact hnewest
  · refine ⟨⟨fun _ => hplaced, fun _ => ⟨_, by rw [hone]; rfl, rfl, rfl⟩⟩, fun _ hrejected => ?_⟩
    rw [happroved] at hrejected
    cases hrejected
  · have hdisagrees : ¬ (e.submitIn order ctx cycleId w).LogAgrees := by
      rintro ⟨event, hevent, hflag, -⟩
      rw [hone] at hevent
      obtain rfl := Option.some.inj hevent
      rw [hrejected] at hflag
      exact absurd (happroved.symm.trans hflag) (by decide)
    exact ⟨⟨fun h => absurd h hdisagrees, fun h => absurd hunplaced h⟩, fun h => absurd h hdisagrees⟩

/-! #### A placement that fails -/

/-- The gate with an empty store. -/
def freshGate : RiskEngine := { cfg := {}, killSwitch := {}, store := some {} }

def breakoutOrder : SizedOrder :=
  Sizing.sizedOrder breakoutProposal { entry := 1001 / 10, stop := 986 / 10, target := 1031 / 10 } 99

def breakoutContext : RiskContext where
  account := breakoutAccount
  quote := some { symbol := "AAPL", last := some 100, updatedAt := 0 }
  phase := .rth
  minutesToClose := some 200
  isLive := false
  startingEquity := 100000

def openingTime : Now := .sample 0 0

theorem rejection_log_placed :
    (freshGate.submitIn breakoutOrder breakoutContext "c-1" { wired := true, now := openingTime }).LogAgrees := by
  refine (rejection_log_iff rfl rfl _).1.mpr ?_
  rintro ⟨-, -, hunwired | ⟨exc, hfailed⟩⟩
  · cases hunwired
  · cases hfailed

/-- The broker refuses the bracket: the verdict is a rejection, the log holds one approval. -/
theorem rejection_log_failed :
    ¬ ∀ (e : RiskEngine) (order : SizedOrder) (ctx : RiskContext) (cycleId : String) (w : Surroundings)
      (s : StateStore), e.store = some s → s.faults (.riskEvent order.symbol) = false →
      (e.submitIn order ctx cycleId w).LogAgrees := by
  intro h
  obtain ⟨event, hevent, hflag, -⟩ := h freshGate breakoutOrder breakoutContext "c-1"
    { wired := true, placement := .error "socket closed", now := openingTime } {} rfl rfl
  have hlogged : (freshGate.submitIn breakoutOrder breakoutContext "c-1"
      { wired := true, placement := .error "socket closed", now := openingTime }).persisted.getLast?.map
        RiskEvent.approved = some true := by decide +kernel
  have hverdict : (freshGate.submitIn breakoutOrder breakoutContext "c-1"
      { wired := true, placement := .error "socket closed", now := openingTime }).verdict.approved = false := by
    decide +kernel
  rw [hevent, Option.map_some, Option.some.injEq, hflag, hverdict] at hlogged
  cases hlogged

end RiskEngine

end AiTrader
