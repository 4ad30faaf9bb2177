import AiTrader.Engine.Mode
import AiTrader.Engine.Rollover
import AiTrader.Lib.Text
import AiTrader.Lib.Trace

/-!
# The dashboard

`create_app`: a request is let in by the token of the dashboard, from the query or from the header, and what it asks for
goes through the engine. What puts trading back into the machine's hands, a reset of the kill switch and the automatic
mode, has to be confirmed.

The token lives in a file and survives restarts, and so does the mode. Once a person has put the trader into manual
mode it stays there, through everything the engine does, every restart and every request, until a request comes that
carries the token and confirms the automatic mode (`manual_until_confirmed`).

The token of a new process is the one in the file (`Ready`), so who could not confirm before the restart cannot after
it. For the mode the proof is a case analysis of the routes; `standing_step` takes the engine's events and the starts
from `Standing.step` and `Standing.restarted`.
-/

namespace AiTrader

open Lib

/-- A new token: letters, digits, dashes and underscores. -/
structure FreshToken where
  text : String
  nonempty : text ≠ ""
  unspaced : text.toList.all (fun ch => !isSpace ch) = true

/-- `get_or_create_dashboard_token`: the token, and the file. Where the file cannot be decoded or written the process does
not come up. -/
def getOrCreateDashboardToken (file : Option String) (fresh : FreshToken) : String × Option String :=
  let token := (file.map fun text => String.ofList (strip text.toList)).getD ""
  if token ≠ "" then (token, file) else (fresh.text, some fresh.text)

/-! ### Requests -/

/-- Where a request goes, with what it brings along. `resized` and `inputs` are what the engine reads for an approval. -/
inductive Route
  /-- The pages and `/api/state`. -/
  | read
  | kill (mode reason : String)
  | reset (confirm : Bool)
  | mode (mode : String) (confirm : Bool)
  | approve (id : String) (resized : Option SizedOrder) (inputs : TradingEngine.EntryInputs)
  | reject (id : String)
  /-- A control endpoint with a body that is none of its own. -/
  | malformed

structure DashboardRequest where
  token : Option String := none
  authorization : Option String := none
  route : Route

/-- `require_token` up to the comparison: the header counts where the query has no token. -/
def DashboardRequest.supplied (r : DashboardRequest) : Option String :=
  if r.token.getD "" ≠ "" then r.token
  else
    match r.authorization with
    | some header =>
      if "bearer ".toList.isPrefixOf (lower header).toList then some (String.ofList (strip (header.toList.drop 7)))
      else r.token
    | none => r.token

inductive Access
  | granted
  | refused
  /-- The comparison raises. -/
  | failed
  deriving DecidableEq

def isAscii (s : String) : Bool := s.toList.all fun ch => decide (ch.toNat < 128)

/-- `_token_ok`. Texts with other than ASCII characters cannot be compared. -/
def tokenOk (token : String) (supplied : Option String) : Access :=
  match supplied with
  | none => .refused
  | some text =>
    if text = "" then .refused
    else if isAscii text && isAscii token then if text = token then .granted else .refused
    else .failed

inductive Response
  | ok
  | error (status : ℕ) (detail : String)
  deriving DecidableEq

/-! ### The engine behind it -/

structure Dashboard where
  engine : TradingEngine
  token : String
  tokenFile : Option String

namespace Dashboard

def moveSwitch (d : Dashboard) (killSwitch : KillSwitch) : Dashboard :=
  { d with engine := d.engine.step (.fast (.killSwitchMoved killSwitch)) }

/-- The exits of a flatten are events of the engine. -/
def kill (d : Dashboard) (mode reason : String) : Dashboard × Response :=
  let action := if mode = "flatten_all" then KillSwitchAction.flattenAll else .haltNewEntries
  (d.moveSwitch (d.engine.risk.killSwitch.trip reason (some action) d.engine.now), .ok)

def resetKill (d : Dashboard) (confirm : Bool) : Dashboard × Response :=
  if confirm then (d.moveSwitch d.engine.risk.killSwitch.reset, .ok)
  else (d, .error 400 "POST \x7b\"confirm\": true\x7d to reset the kill switch")

/-- The mode is switched before it is written; a write that raises fails the request. -/
def switchTo (d : Dashboard) (mode : ExecutionMode) : Dashboard × Response :=
  ({ d with engine := d.engine.step (.modeSet mode) },
    if (d.engine.store.setExecutionMode mode).isSome then .ok else .error 500 "Internal Server Error")

def setMode (d : Dashboard) (mode : String) (confirm : Bool) : Dashboard × Response :=
  if mode = "manual" then d.switchTo .manual
  else if mode = "auto" then
    if confirm then d.switchTo .auto
    else (d, .error 400 "POST \x7b\"mode\": \"auto\", \"confirm\": true\x7d to let the AI trade by itself")
  else (d, .error 400 "mode must be 'auto' or 'manual'")

/-- An answer to a trade idea, if it still waits. -/
def answer (d : Dashboard) (id : String) (e : TradingEngine.Event) : Dashboard × Response :=
  if d.engine.app.pendingApprovals.any fun p => p.id = id then ({ d with engine := d.engine.step e }, .ok)
  else (d, .error 404 "that trade is no longer waiting")

/-- What a request that is let in comes to. -/
def serve (d : Dashboard) : Route → Dashboard × Response
  | .read => (d, .ok)
  | .kill mode reason => d.kill mode reason
  | .reset confirm => d.resetKill confirm
  | .mode mode confirm => d.setMode mode confirm
  | .approve id resized inputs => d.answer id (.clicked id resized inputs)
  | .reject id => d.answer id (.skipped id)
  | .malformed => (d, .error 422 "Unprocessable Entity")

def handle (d : Dashboard) (r : DashboardRequest) : Dashboard × Response :=
  match tokenOk d.token r.supplied with
  | .granted => d.serve r.route
  | .refused => (d, .error 401 "missing or invalid dashboard token")
  | .failed => (d, .error 500 "Internal Server Error")

inductive Input
  | engine (e : TradingEngine.Event)
  | requested (r : DashboardRequest)
  /-- The process starts again, and with it the dashboard; `fresh` is a token for the case that there is none. -/
  | started (fresh : FreshToken) (orders : OrderManager) (accountId : String)
      (reply : Except String AccountSnapshot)

/-- A process that is down serves no request. -/
def step (d : Dashboard) : Input → Dashboard
  | .engine e => { d with engine := d.engine.step e }
  | .requested r => if d.engine.running then (d.handle r).1 else d
  | .started fresh orders accountId reply =>
    let created := getOrCreateDashboardToken d.tokenFile fresh
    { engine := d.engine.step (.restarted orders accountId reply), token := created.1, tokenFile := created.2 }

/-! ### The token -/

/-- The token is the one in the file. -/
structure Ready (d : Dashboard) : Prop where
  filed : d.tokenFile.map (fun text => String.ofList (strip text.toList)) = some d.token
  nonempty : d.token ≠ ""

theorem strip_of_unspaced {cs : List Char} (h : ∀ ch ∈ cs, isSpace ch = false) : strip cs = cs := by
  have hfront : cs.dropWhile isSpace = cs := by
    cases cs with
    | nil => rfl
    | cons ch cs => simp [h ch List.mem_cons_self]
  have hback : cs.rdropWhile isSpace = cs := by
    refine List.rdropWhile_eq_self_iff.mpr fun hne => ?_
    simp [h _ (List.getLast_mem hne)]
  rw [strip, hfront, rstrip, hback]

variable {d : Dashboard}

theorem ready_started (d : Dashboard) (fresh : FreshToken) (orders : OrderManager) (accountId : String)
    (reply : Except String AccountSnapshot) : (d.step (.started fresh orders accountId reply)).Ready := by
  have hfresh : String.ofList (strip fresh.text.toList) = fresh.text := by
    rw [strip_of_unspaced (by simpa using fresh.unspaced), String.ofList_toList]
  unfold step getOrCreateDashboardToken
  dsimp only
  split_ifs with hkept
  · cases hfile : d.tokenFile with
    | none => simp [hfile] at hkept
    | some text => exact ⟨rfl, by simpa [hfile] using hkept⟩
  · exact ⟨congrArg some hfresh, fresh.nonempty⟩

theorem Ready.token_started (h : d.Ready) (fresh : FreshToken) (orders : OrderManager) (accountId : String)
    (reply : Except String AccountSnapshot) : (d.step (.started fresh orders accountId reply)).token = d.token := by
  unfold step getOrCreateDashboardToken
  dsimp only
  rw [h.filed, Option.getD_some, if_pos h.nonempty]

theorem token_handle (d : Dashboard) (r : DashboardRequest) :
    (d.handle r).1.token = d.token ∧ (d.handle r).1.tokenFile = d.tokenFile := by
  unfold handle
  split
  · cases hroute : r.route with
    | reset confirm =>
      simp only [serve, resetKill]
      split_ifs <;> exact ⟨rfl, rfl⟩
    | mode mode confirm =>
      simp only [serve, setMode]
      split_ifs <;> exact ⟨rfl, rfl⟩
    | approve id resized inputs =>
      simp only [serve, answer]
      split_ifs <;> exact ⟨rfl, rfl⟩
    | reject id =>
      simp only [serve, answer]
      split_ifs <;> exact ⟨rfl, rfl⟩
    | read | kill | malformed => exact ⟨rfl, rfl⟩
  · exact ⟨rfl, rfl⟩
  · exact ⟨rfl, rfl⟩

theorem Ready.step (h : d.Ready) (i : Input) : (d.step i).Ready ∧ (d.step i).token = d.token := by
  cases i with
  | engine e => exact ⟨⟨h.filed, h.nonempty⟩, rfl⟩
  | requested r =>
    unfold Dashboard.step
    dsimp only
    split_ifs
    · obtain ⟨htoken, hfile⟩ := token_handle d r
      exact ⟨⟨by rw [htoken, hfile]; exact h.filed, by rw [htoken]; exact h.nonempty⟩, htoken⟩
    · exact ⟨h, rfl⟩
  | started fresh orders accountId reply =>
    exact ⟨ready_started d fresh orders accountId reply, h.token_started fresh orders accountId reply⟩

/-! ### The mode -/

/-- The request carries the token and confirms the automatic mode. -/
def Confirms (token : String) (r : DashboardRequest) : Prop :=
  r.supplied = some token ∧ r.route = .mode "auto" true

/-- Of all inputs only such a request would put the machine in charge. The engine's own part comes from requests and
from starts. -/
def Input.Spares (token : String) : Input → Prop
  | .engine e => ∀ mode, e ≠ .modeSet mode
  | .requested r => ¬ Confirms token r
  | .started _ _ _ _ => True

theorem supplied_of_granted {token : String} {supplied : Option String} (h : tokenOk token supplied = .granted) :
    supplied = some token := by
  unfold tokenOk at h
  split at h
  · cases h
  · split_ifs at h with hempty hascii hsame
    rw [hsame]

open TradingEngine (Standing)

variable {mode : ExecutionMode}

theorem standing_moveSwitch (h : Standing mode d.engine) (killSwitch : KillSwitch) :
    Standing mode (d.moveSwitch killSwitch).engine :=
  h.step (e := .fast (.killSwitchMoved killSwitch)) fun other hother => by cases hother

theorem standing_switchTo (h : Standing .manual d.engine) : Standing .manual (d.switchTo .manual).1.engine := by
  have hset : Standing .manual (d.engine.setExecutionMode .manual) := by
    refine ⟨rfl, ?_⟩
    unfold TradingEngine.setExecutionMode StateStore.setExecutionMode
    dsimp only
    split_ifs
    · exact h.stored
    · rfl
  unfold switchTo
  show Standing .manual (if d.engine.running then d.engine.act (.modeSet .manual) else d.engine)
  split_ifs
  · exact hset
  · exact h

theorem standing_answer (h : Standing mode d.engine) (id : String) {e : TradingEngine.Event}
    (he : ∀ other, e ≠ .modeSet other) : Standing mode (d.answer id e).1.engine := by
  unfold answer
  split_ifs
  · exact h.step he
  · exact h

/-- **One request.** -/
theorem standing_handle (h : Standing .manual d.engine) {r : DashboardRequest} (hspares : ¬ Confirms d.token r) :
    Standing .manual (d.handle r).1.engine := by
  unfold handle
  split
  · rename_i hgranted
    cases hroute : r.route with
    | read | malformed => exact h
    | kill mode reason => exact standing_moveSwitch h _
    | reset confirm =>
      simp only [serve, resetKill]
      split_ifs
      · exact standing_moveSwitch h _
      · exact h
    | mode mode confirm =>
      simp only [serve, setMode]
      split_ifs with hmanual hauto hconfirm
      · exact standing_switchTo h
      · exact absurd ⟨supplied_of_granted hgranted, by rw [hroute, hauto, hconfirm]⟩ hspares
      · exact h
      · exact h
    | approve id resized inputs => exact standing_answer h id fun other hother => by cases hother
    | reject id => exact standing_answer h id fun other hother => by cases hother
  · exact h
  · exact h

theorem standing_step (h : Standing .manual d.engine) {i : Input} (hspares : i.Spares d.token) :
    Standing .manual (d.step i).engine := by
  cases i with
  | engine e => exact h.step hspares
  | requested r =>
    unfold step
    dsimp only
    split_ifs
    · exact standing_handle h hspares
    · exact h
  | started fresh orders accountId reply => exact h.restarted orders accountId reply

theorem standing_of_ok {r : DashboardRequest} {confirm : Bool} (hrunning : d.engine.running = true)
    (hroute : r.route = .mode "manual" confirm) (hok : (d.handle r).2 = .ok) :
    Standing .manual (d.step (.requested r)).engine := by
  unfold step
  dsimp only
  rw [if_pos hrunning]
  unfold handle at hok ⊢
  split at hok
  · rw [hroute] at hok ⊢
    simp only [serve, setMode, if_pos, switchTo] at hok ⊢
    split_ifs at hok with hwritten
    obtain ⟨store, hstore⟩ := Option.isSome_iff_exists.mp hwritten
    show Standing .manual (if d.engine.running then d.engine.act (.modeSet .manual) else d.engine)
    rw [if_pos hrunning]
    refine ⟨rfl, ?_⟩
    show ((d.engine.store.setExecutionMode .manual).getD d.engine.store).executionMode = some .manual
    unfold StateStore.setExecutionMode at hstore ⊢
    split_ifs at hstore
    · obtain rfl := Option.some.inj hstore
      simp_all
  · cases hok
  · cases hok

/-- **Manual mode lasts until it is ended on purpose.** Once a request for it has been answered with success, the mode is
manual, in memory and in the store, through every event of the engine, every restart and every request, as long as no
request carries the token and confirms the automatic mode; and the token stays the same. -/
theorem manual_until_confirmed (hready : d.Ready) (hrunning : d.engine.running = true) (r : DashboardRequest)
    (confirm : Bool) (hroute : r.route = .mode "manual" confirm) (hok : (d.handle r).2 = .ok) (inputs : List Input)
    (hspares : ∀ i ∈ inputs, i.Spares d.token) :
    Trace.Always step (fun later => later.token = d.token ∧ Standing .manual later.engine)
      (d.step (.requested r)) inputs := by
  obtain ⟨hready', htoken⟩ := hready.step (.requested r)
  refine Trace.always_of_inductive (I := fun later : Dashboard =>
      later.Ready ∧ later.token = d.token ∧ Standing .manual later.engine) (fun later i h hi => ?_) (fun _ h => h.2)
    ⟨hready', htoken, standing_of_ok hrunning hroute hok⟩ (Trace.each_of_forall fun i hi _ => hspares i hi)
  obtain ⟨hnow, hsame, hstanding⟩ := h
  obtain ⟨hthen, hkept⟩ := hnow.step i
  exact ⟨hthen, hkept.trans hsame, standing_step hstanding (hsame ▸ hi)⟩

/-- A day with the dashboard. -/
def desk : Dashboard := { engine := TradingEngine.dayZero, token := "t0ken", tokenFile := some "t0ken\n" }

/-- One request does not confirm, one has no token, and the process is restarted. -/
def temptations : List Input :=
  [.requested { token := some "t0ken", route := .mode "auto" false }, .requested { route := .mode "auto" true },
    .started ⟨"n3w", by decide, rfl⟩ {} "DU1" (.error "ConnectionError")]

theorem manual_until_confirmed_desk :
    Trace.Always step (fun later => later.token = desk.token ∧ Standing .manual later.engine)
      (desk.step (.requested { token := some "t0ken", route := .mode "manual" false })) temptations := by
  refine manual_until_confirmed ⟨by decide, by decide⟩ rfl _ false rfl (by decide +kernel) temptations fun i hi => ?_
  simp only [temptations, List.mem_cons, List.not_mem_nil, or_false] at hi
  rcases hi with rfl | rfl | rfl
  · rintro ⟨-, hroute⟩
    cases hroute
  · rintro ⟨hsupplied, -⟩
    cases hsupplied
  · trivial

end Dashboard

end AiTrader
