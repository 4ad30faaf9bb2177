import AiTrader.Lib.Semaphore
import AiTrader.Llm.Request
import Mathlib.Data.Rat.Defs
import Mathlib.Algebra.Order.Ring.Rat
import Mathlib.Logic.Relation

/-!
# The gateway to the model

`LLMGateway`: every call of the model goes through `complete`. A call is a task of the event loop, and calls run side
by side: a state holds, for each task, how far its call has come, and an event is what the task at hand, the provider
or the store does next. Where `complete` awaits, other tasks run; between two awaits none does.

`complete` refuses once the model has failed its schema too often (`deterministic_only`), finds out how to ask the
model (`ensure_strategy`), waits for the semaphore, and makes attempts until one is answered, with a pause after each
that fails. The answer is audited before anything else is made of it.

What an event does is a sequence of `Move`s (`moves_step`), each of them small enough to see what it keeps.

Later modules prove invariants of runs by showing that each move keeps them (`always_of_moves`). A move changes one
call and at most one shared thing: the semaphore, the health, a table of the store or the log. A restart is no move;
it keeps the store and the log and forgets everything else, and each invariant says itself what that leaves of it.
-/

namespace AiTrader

open Lib

structure LLMHealth where
  available : Bool := true
  consecutiveFailures : ℕ := 0
  consecutiveSchemaFailures : ℕ := 0
  quotaExhausted : Bool := false
  lastError : String := ""
  lastSuccess : Option ℚ := none
  totalCalls : ℕ := 0
  totalTokens : ℕ := 0
  deterministicOnly : Bool := false
  strategy : String := ""

/-- A reply with what the provider reports about it. -/
structure ChatReply extends LLMResponse where
  thinking : String := ""
  latencyMs : ℕ := 0
  promptTokens : ℕ := 0
  completionTokens : ℕ := 0

namespace LLMHealth

def onSuccess (h : LLMHealth) (now : ℚ) (reply : ChatReply) : LLMHealth :=
  { h with
    available := true
    consecutiveFailures := 0
    quotaExhausted := false
    lastSuccess := some now
    totalCalls := h.totalCalls + 1
    totalTokens := h.totalTokens + (reply.promptTokens + reply.completionTokens) }

def onFailure (h : LLMHealth) (error : String) : LLMHealth :=
  { h with
    consecutiveFailures := h.consecutiveFailures + 1
    lastError := error
    available := if 3 ≤ h.consecutiveFailures + 1 then false else h.available }

def onQuota (h : LLMHealth) (error : String) : LLMHealth :=
  { h with quotaExhausted := true, available := false, lastError := error }

/-- The model has failed its schema, after the repair too. -/
def onUnparsed (h : LLMHealth) (maxSchemaFailures : ℕ) : LLMHealth :=
  { h with
    consecutiveSchemaFailures := h.consecutiveSchemaFailures + 1
    deterministicOnly := h.deterministicOnly || decide (maxSchemaFailures ≤ h.consecutiveSchemaFailures + 1) }

def onParsed (h : LLMHealth) : LLMHealth := { h with consecutiveSchemaFailures := 0 }

/-- `check_health`, with what the provider says. -/
def checked (h : LLMHealth) (ok : Bool) : LLMHealth := { h with available := ok && !h.quotaExhausted }

end LLMHealth

/-- What becomes of an attempt. -/
inductive Outcome
  | answered (chat : List Message → ChatReply)
  | failed (error : String)
  | timedOut
  | quotaExhausted (error : String)

/-- The arguments of `complete`. `modelValidate` and `modelDump` are those of the response model. -/
structure ModelCall (α : Type) where
  role : String
  cycleId : String
  model : String
  system : String
  user : String
  schema : Payload
  modelValidate : Payload → Except String α
  modelDump : α → Payload
  temperature : Number
  numCtx : Number
  numPredict : Number
  seed : Option Number
  keepAlive : String
  timeout : Number
  think : Option Json

def schemaInstruction (schema : Payload) : List Char :=
  "You must reply with a single JSON object and nothing else. ".toList ++
    "No prose before or after it, no markdown fences, no explanation.\n\n".toList ++
    "The object must conform to this JSON Schema:\n\n".toList ++ describeSchema schema ++ "\n".toList

/-- The request of a call. -/
def ModelCall.request {α : Type} (call : ModelCall α) (strategy : StructuredStrategy) : LLMRequest :=
  let systemPrompt := strip call.system.toList ++ "\n\n".toList ++ schemaInstruction call.schema
  { model := call.model
    messages := [{ role := "system", content := String.ofList systemPrompt },
      { role := "user", content := call.user }]
    schema := call.schema
    strategy
    temperature := call.temperature
    numCtx := call.numCtx
    numPredict := call.numPredict
    seed := call.seed
    keepAlive := call.keepAlive
    think := call.think
    timeout := call.timeout }

/-- What `audit.record` is given. -/
structure AuditRecord where
  cycleId : String
  role : String
  provider : String
  host : String
  model : String
  strategy : String
  messages : List Message
  options : Payload
  rawResponse : String
  thinking : String
  parsed : Option Payload
  validationError : String
  repairAttempted : Bool
  latencyMs : ℕ
  promptTokens : ℕ
  completionTokens : ℕ

/-- A row of `llm_capabilities`. A time that cannot be read is none. -/
structure CapabilityRow where
  strategy : String
  capabilities : List String
  checkedAt : Option ℚ

/-- `CAPABILITY_TTL`, in seconds. -/
def capabilityTtl : ℚ := 86400

structure GatewaySettings where
  providerName : String
  host : String
  maxConcurrent : ℕ := 1
  maxRetries : ℕ := 3
  cacheEnabled : Bool := true
  cacheReadEnabled : Bool := false
  maxSchemaFailures : ℕ := 3
  /-- `AuditLog.enabled`. -/
  auditEnabled : Bool := true

/-- Which writes after an answer go through: of its audit record, and of the answer in the cache. -/
structure Writes where
  audit : Bool := true
  cache : Bool := true

/-- How far a call has come. -/
inductive Phase
  | probing
  | showing (strategy : StructuredStrategy)
  | queued (req : LLMRequest)
  | attempting (req : LLMRequest) (attempt : ℕ)
  | sleeping (req : LLMRequest) (attempt : ℕ)

namespace Phase

/-- Before the semaphore. -/
def outside : Phase → Bool
  | probing | showing _ => true
  | queued _ | attempting _ _ | sleeping _ _ => false

/-- With a permit of the semaphore. -/
def holds : Phase → Bool
  | attempting _ _ | sleeping _ _ => true
  | probing | showing _ | queued _ => false

/-- Waiting for a permit. -/
def waits : Phase → Bool
  | queued _ => true
  | probing | showing _ | attempting _ _ | sleeping _ _ => false

end Phase

structure CallTask (α : Type) where
  call : ModelCall α
  phase : Phase
  attempts : List Outcome := []

/-- How a call ends, and which request an answer was an answer to. -/
inductive Ending (α : Type)
  | refused
  | cached (req : LLMRequest) (a : α)
  | parsed (req : LLMRequest) (a : α)
  | unparsed (req : LLMRequest)
  | gaveUp
  | raised

/-- A call that has ended, the settings of its process, and whether writing its audit record, if it has one, goes
through. -/
structure Finished (α : Type) where
  task : ℕ
  call : ModelCall α
  attempts : List Outcome
  ending : Ending α
  settings : GatewaySettings
  auditWritten : Bool

/-- What the caller of `complete` gets; nothing where an exception leaves it. -/
def Ending.result {α : Type} : Ending α → Option α
  | cached _ a | parsed _ a => some a
  | refused | unparsed _ | gaveUp | raised => none

/-- The gateway of a process, with the tables of the store and the audit log it writes, the calls under way and those
that have ended, in this process (`finished`) and in earlier ones (`past`). -/
structure LLMGateway (α : Type) where
  settings : GatewaySettings
  health : LLMHealth := {}
  strategies : Dict String StructuredStrategy := Dict.empty
  capabilities : Dict (String × String) CapabilityRow := Dict.empty
  cache : Dict String (List Char) := Dict.empty
  audit : List AuditRecord := []
  sem : Semaphore ℕ
  tasks : ℕ → Option (CallTask α) := fun _ => none
  finished : List (Finished α) := []
  past : List (Finished α) := []

namespace LLMGateway

variable {α : Type}

/-- The calls that have ended, of all processes. -/
def ended (s : LLMGateway α) : List (Finished α) := s.past ++ s.finished

/-- The first process, with an empty store. -/
def start (settings : GatewaySettings) : LLMGateway α := { settings, sem := { value := settings.maxConcurrent } }

/-- The next process: what the store and the log hold is kept, the calls under way are lost. -/
def restart (s : LLMGateway α) (settings : GatewaySettings) : LLMGateway α :=
  { start settings with
    capabilities := s.capabilities
    cache := s.cache
    audit := s.audit
    past := s.past ++ s.finished }

inductive Event (α : Type)
  | called (task : ℕ) (call : ModelCall α)
  /-- `negotiate_strategy` is through. -/
  | probed (task : ℕ) (capabilities : List String) (probe : StructuredStrategy → Option LLMResponse)
  /-- The second `show` is through, and the row is written, unless the store raises. -/
  | shown (task : ℕ) (capabilities : List String) (written : Bool)
  | resumed (task : ℕ)
  /-- An attempt is through. -/
  | attempted (task : ℕ) (outcome : Outcome) (written : Writes)
  | slept (task : ℕ)
  /-- The task is cancelled, or an exception that is not handled leaves `complete`. -/
  | aborted (task : ℕ)
  | healthChecked (ok : Bool)
  | restarted (settings : GatewaySettings)

-- the hash of the cache's keys
variable (sha256 : List Char → String)

def put (s : LLMGateway α) (task : ℕ) (t : CallTask α) : LLMGateway α :=
  { s with tasks := Function.update s.tasks task (some t) }

def finish (s : LLMGateway α) (task : ℕ) (call : ModelCall α) (attempts : List Outcome) (ending : Ending α)
    (auditWritten : Bool := true) : LLMGateway α :=
  { s with
    tasks := Function.update s.tasks task none
    finished := s.finished ++ [{ task, call, attempts, ending, settings := s.settings, auditWritten }] }

/-- The strategy of a model is known. -/
def learn (s : LLMGateway α) (model : String) (strategy : StructuredStrategy) : LLMGateway α :=
  { s with
    strategies := s.strategies.set model strategy
    health := { s.health with strategy := strategy.value } }

/-- What the store says of a model, as long as it is fresh. -/
def savedStrategy (s : LLMGateway α) (now : ℚ) (model : String) : Option StructuredStrategy :=
  (s.capabilities.get? (s.settings.host, model)).bind fun row =>
    row.checkedAt.bind fun checked =>
      if now - checked < capabilityTtl then StructuredStrategy.ofValue row.strategy else none

/-- What the cache holds for a request. -/
def cached (s : LLMGateway α) (call : ModelCall α) (req : LLMRequest) : Option α :=
  match (s.cache.get? (req.cacheKey sha256)).bind loads with
  | some (.object payload) => (call.modelValidate payload).toOption
  | _ => none

/-- `async with self._sem`. -/
def enter (s : LLMGateway α) (task : ℕ) (call : ModelCall α) (req : LLMRequest) : LLMGateway α :=
  let sem := s.sem.acquire task
  { s with sem }.put task
    { call, phase := if task ∈ sem.holders then .attempting req 0 else .queued req }

/-- From the strategy to the semaphore. -/
def submit (s : LLMGateway α) (task : ℕ) (call : ModelCall α) (strategy : StructuredStrategy) : LLMGateway α :=
  let req := call.request strategy
  match if s.settings.cacheReadEnabled then s.cached sha256 call req else none with
  | some a => s.finish task call [] (.cached req a)
  | none => s.enter task call req

/-- The start of `complete`, up to its first wait. -/
def called (s : LLMGateway α) (now : ℚ) (task : ℕ) (call : ModelCall α) : LLMGateway α :=
  if s.health.deterministicOnly then s.finish task call [] .refused
  else
    match s.strategies.get? call.model with
    | some strategy => s.submit sha256 task call strategy
    | none =>
      match s.savedStrategy now call.model with
      | some strategy => (s.learn call.model strategy).submit sha256 task call strategy
      | none => s.put task { call, phase := .probing }

def auditRecord (settings : GatewaySettings) (call : ModelCall α) (req : LLMRequest) (reply : ChatReply)
    (outcome : Called α) : AuditRecord :=
  { cycleId := call.cycleId
    role := call.role
    provider := settings.providerName
    host := settings.host
    model := call.model
    strategy := req.strategy.value
    messages := req.messages
    options := req.options
    rawResponse := reply.content
    thinking := reply.thinking
    parsed := outcome.parsed.map call.modelDump
    validationError := outcome.error
    repairAttempted := decide (outcome.error ≠ "") || outcome.parsed.isNone
    latencyMs := reply.latencyMs
    promptTokens := reply.promptTokens
    completionTokens := reply.completionTokens }

/-- The call of the structured caller in an attempt that is answered. -/
def converse (call : ModelCall α) (req : LLMRequest) (chat : List Message → ChatReply) : Called α :=
  StructuredCaller.call call.modelValidate (fun messages => (chat messages).toLLMResponse) req.messages true

/-- The reply that the structured caller returns: that of the repair, where there was one. -/
def lastReply (call : ModelCall α) (req : LLMRequest) (chat : List Message → ChatReply) : ChatReply :=
  chat ((converse call req chat).repair.getD req.messages)

/-- `AuditLog.record`: nothing when it is disabled, and a write that fails is logged and forgotten. -/
def record (s : LLMGateway α) (r : AuditRecord) (written : Bool) : List AuditRecord :=
  if s.settings.auditEnabled && written then s.audit ++ [r] else s.audit

/-- From an answer to the end of `complete`. -/
def answered (s : LLMGateway α) (now : ℚ) (task : ℕ) (t : CallTask α) (req : LLMRequest)
    (chat : List Message → ChatReply) (written : Writes) : LLMGateway α :=
  let outcome := converse t.call req chat
  let reply := lastReply t.call req chat
  let attempts := t.attempts ++ [.answered chat]
  let health := s.health.onSuccess now reply
  let audited := { s with
    sem := s.sem.release task
    audit := s.record (auditRecord s.settings t.call req reply outcome) written.audit }
  match outcome.parsed with
  | none =>
    { audited with health := health.onUnparsed s.settings.maxSchemaFailures }.finish task t.call attempts
      (.unparsed req) written.audit
  | some a =>
    { audited with
      health := health.onParsed
      cache := if s.settings.cacheEnabled && written.cache then
          s.cache.set (req.cacheKey sha256) (dumps (.object (t.call.modelDump a)))
        else s.cache }.finish task t.call attempts (.parsed req a) written.audit

/-- An attempt that failed: a pause, or the end. -/
def failedWith (s : LLMGateway α) (task : ℕ) (t : CallTask α) (req : LLMRequest) (attempt : ℕ) (outcome : Outcome)
    (error : String) : LLMGateway α :=
  let attempts := t.attempts ++ [outcome]
  if s.settings.maxRetries ≤ attempt then
    { s with health := s.health.onFailure error, sem := s.sem.release task }.finish task t.call attempts .gaveUp
  else
    { s with health := s.health.onFailure error }.put task
      { t with phase := .sleeping req attempt, attempts }

def attempted (s : LLMGateway α) (now : ℚ) (task : ℕ) (t : CallTask α) (req : LLMRequest) (attempt : ℕ)
    (outcome : Outcome) (written : Writes) : LLMGateway α :=
  match outcome with
  | .answered chat => s.answered sha256 now task t req chat written
  | .quotaExhausted error =>
    { s with health := s.health.onQuota error, sem := s.sem.release task }.finish task t.call
      (t.attempts ++ [outcome]) .gaveUp
  | .timedOut =>
    s.failedWith task t req attempt outcome
      ("timed out after " ++ String.ofList req.timeout.literal ++ "s")
  | .failed error => s.failedWith task t req attempt outcome error

/-- A call that ends with an exception. -/
def aborted (s : LLMGateway α) (task : ℕ) (t : CallTask α) : LLMGateway α :=
  let s := match t.phase with
    | .probing | .showing _ => s
    | .queued _ => { s with sem := s.sem.cancel task }
    | .attempting _ _ | .sleeping _ _ => { s with sem := s.sem.release task }
  s.finish task t.call t.attempts .raised

def act (s : LLMGateway α) (now : ℚ) : Event α → LLMGateway α
  | .called task call =>
    match s.tasks task with
    | some _ => s
    | none => s.called sha256 now task call
  | .probed task capabilities probe =>
    match s.tasks task with
    | some { call, phase := .probing, attempts } =>
      let strategy := negotiateStrategy capabilities probe
      (s.learn call.model strategy).put task { call, phase := .showing strategy, attempts }
    | _ => s
  | .shown task capabilities written =>
    match s.tasks task with
    | some { call, phase := .showing strategy, attempts } =>
      if written then
        let row := { strategy := strategy.value, capabilities, checkedAt := some now : CapabilityRow }
        { s with capabilities := s.capabilities.set (s.settings.host, call.model) row }.submit sha256 task call
          strategy
      else s.finish task call attempts .raised
    | _ => s
  | .resumed task =>
    match s.tasks task with
    | some { call, phase := .queued req, attempts } =>
      if s.sem.woken task then
        { s with sem := s.sem.resume task }.put task { call, phase := .attempting req 0, attempts }
      else s
    | _ => s
  | .attempted task outcome written =>
    match s.tasks task with
    | some { call, phase := .attempting req attempt, attempts } =>
      s.attempted sha256 now task { call, phase := .attempting req attempt, attempts } req attempt outcome written
    | _ => s
  | .slept task =>
    match s.tasks task with
    | some { call, phase := .sleeping req attempt, attempts } =>
      s.put task { call, phase := .attempting req (attempt + 1), attempts }
    | _ => s
  | .aborted task =>
    match s.tasks task with
    | some t => s.aborted task t
    | none => s
  | .healthChecked ok => { s with health := s.health.checked ok }
  | .restarted settings => s.restart settings

def step (s : LLMGateway α) (e : ℚ × Event α) : LLMGateway α := s.act sha256 e.1 e.2

/-! ### Moves -/

/-- What can happen to the gateway within a process. -/
inductive Move : LLMGateway α → LLMGateway α → Prop
  | checked (s : LLMGateway α) (ok : Bool) : Move s { s with health := s.health.checked ok }
  | refused (s : LLMGateway α) (task : ℕ) (call : ModelCall α) :
      s.tasks task = none → s.health.deterministicOnly = true → Move s (s.finish task call [] .refused)
  | begun (s : LLMGateway α) (task : ℕ) (call : ModelCall α) :
      s.tasks task = none → s.health.deterministicOnly = false → Move s (s.put task { call, phase := .probing })
  | learnt (s : LLMGateway α) (model : String) (strategy : StructuredStrategy) :
      Move s (s.learn model strategy)
  | probed (s : LLMGateway α) (task : ℕ) (t : CallTask α) (strategy : StructuredStrategy) :
      s.tasks task = some t → t.phase = .probing → Move s (s.put task { t with phase := .showing strategy })
  | saved (s : LLMGateway α) (rows : Dict (String × String) CapabilityRow) : Move s { s with capabilities := rows }
  | served (s : LLMGateway α) (task : ℕ) (t : CallTask α) (strategy : StructuredStrategy) (a : α) :
      s.tasks task = some t → t.phase.outside = true → s.settings.cacheReadEnabled = true →
        s.cached sha256 t.call (t.call.request strategy) = some a →
          Move s (s.finish task t.call [] (.cached (t.call.request strategy) a))
  | entered (s : LLMGateway α) (task : ℕ) (t : CallTask α) (strategy : StructuredStrategy) :
      s.tasks task = some t → t.phase.outside = true → Move s (s.enter task t.call (t.call.request strategy))
  | resumed (s : LLMGateway α) (task : ℕ) (t : CallTask α) (req : LLMRequest) :
      s.tasks task = some t → t.phase = .queued req → s.sem.woken task = true →
        Move s ({ s with sem := s.sem.resume task }.put task { t with phase := .attempting req 0 })
  | answered (s : LLMGateway α) (now : ℚ) (task : ℕ) (t : CallTask α) (req : LLMRequest) (attempt : ℕ)
      (chat : List Message → ChatReply) (written : Writes) :
      s.tasks task = some t → t.phase = .attempting req attempt →
        Move s (s.answered sha256 now task t req chat written)
  | failed (s : LLMGateway α) (task : ℕ) (t : CallTask α) (req : LLMRequest) (attempt : ℕ) (outcome : Outcome)
      (error : String) :
      s.tasks task = some t → t.phase = .attempting req attempt →
        outcome = .timedOut ∨ outcome = .failed error →
          Move s (s.failedWith task t req attempt outcome error)
  | exhausted (s : LLMGateway α) (task : ℕ) (t : CallTask α) (req : LLMRequest) (attempt : ℕ) (error : String) :
      s.tasks task = some t → t.phase = .attempting req attempt →
        Move s ({ s with health := s.health.onQuota error, sem := s.sem.release task }.finish task t.call
          (t.attempts ++ [Outcome.quotaExhausted error]) .gaveUp)
  | slept (s : LLMGateway α) (task : ℕ) (t : CallTask α) (req : LLMRequest) (attempt : ℕ) :
      s.tasks task = some t → t.phase = .sleeping req attempt →
        Move s (s.put task { t with phase := .attempting req (attempt + 1) })
  | aborted (s : LLMGateway α) (task : ℕ) (t : CallTask α) :
      s.tasks task = some t → Move s (s.aborted task t)

abbrev Moves : LLMGateway α → LLMGateway α → Prop := Relation.ReflTransGen (Move sha256)

@[simp] theorem tasks_put_self (s : LLMGateway α) (task : ℕ) (t : CallTask α) : (s.put task t).tasks task = some t :=
  Function.update_self ..

theorem tasks_put_ne (s : LLMGateway α) {task other : ℕ} (h : other ≠ task) (t : CallTask α) :
    (s.put task t).tasks other = s.tasks other :=
  Function.update_of_ne h ..

@[simp] theorem tasks_finish_self (s : LLMGateway α) (task : ℕ) (call : ModelCall α) (attempts : List Outcome)
    (ending : Ending α) (auditWritten : Bool) : (s.finish task call attempts ending auditWritten).tasks task = none :=
  Function.update_self ..

theorem tasks_finish_ne (s : LLMGateway α) {task other : ℕ} (h : other ≠ task) (call : ModelCall α)
    (attempts : List Outcome) (ending : Ending α) (auditWritten : Bool) :
    (s.finish task call attempts ending auditWritten).tasks other = s.tasks other :=
  Function.update_of_ne h ..

theorem ended_finish (s : LLMGateway α) (task : ℕ) (call : ModelCall α) (attempts : List Outcome)
    (ending : Ending α) (auditWritten : Bool) :
    (s.finish task call attempts ending auditWritten).ended =
      s.ended ++ [⟨task, call, attempts, ending, s.settings, auditWritten⟩] :=
  (List.append_assoc ..).symm

theorem ended_restart (s : LLMGateway α) (settings : GatewaySettings) : (s.restart settings).ended = s.ended :=
  List.append_nil _

theorem moves_submit (s : LLMGateway α) {task : ℕ} {t : CallTask α} (strategy : StructuredStrategy)
    (ht : s.tasks task = some t) (hphase : t.phase.outside = true) :
    Moves sha256 s (s.submit sha256 task t.call strategy) := by
  unfold submit
  dsimp only
  split
  · rename_i a hcached
    split_ifs at hcached with hread
    exact .single (.served s task t strategy a ht hphase hread hcached)
  · exact .single (.entered s task t strategy ht hphase)

theorem moves_submit_begun (s : LLMGateway α) (task : ℕ) (call : ModelCall α) (strategy : StructuredStrategy) :
    Moves sha256 (s.put task { call, phase := .probing }) (s.submit sha256 task call strategy) := by
  have hsubmit := moves_submit sha256 (s.put task { call, phase := .probing }) strategy
    (tasks_put_self s task { call, phase := .probing }) rfl
  have hsame : (s.put task { call, phase := .probing }).submit sha256 task call strategy =
      s.submit sha256 task call strategy := by
    unfold submit cached enter put finish
    simp only [Function.update_idem]
  rwa [hsame] at hsubmit

theorem moves_called (s : LLMGateway α) (now : ℚ) {task : ℕ} (call : ModelCall α) (hidle : s.tasks task = none) :
    Moves sha256 s (s.called sha256 now task call) := by
  unfold called
  split_ifs with hlatched
  · exact .single (.refused s task call hidle hlatched)
  · have hbegun : Moves sha256 s (s.put task { call, phase := .probing }) :=
      .single (.begun s task call hidle (by simpa using hlatched))
    split
    · exact hbegun.trans (moves_submit_begun sha256 s task call _)
    · split
      · rename_i strategy _
        have hlearnt : Moves sha256 (s.put task { call, phase := .probing })
            ((s.learn call.model strategy).put task { call, phase := .probing }) :=
          .single (.learnt _ call.model strategy)
        exact (hbegun.trans hlearnt).trans (moves_submit_begun sha256 _ task call strategy)
      · exact hbegun

/-- What an event within a process does is a sequence of moves. -/
theorem moves_step (s : LLMGateway α) {e : ℚ × Event α} (hevent : ∀ settings, e.2 ≠ .restarted settings) :
    Moves sha256 s (s.step sha256 e) := by
  obtain ⟨now, event⟩ := e
  unfold step act
  cases event with
  | called task call =>
    dsimp only
    split
    · exact .refl
    · rename_i hidle
      exact moves_called sha256 s now call hidle
  | probed task capabilities probe =>
    dsimp only
    split
    · rename_i call attempts ht
      exact .head (.learnt s call.model _) (.single (.probed _ task { call, phase := .probing, attempts } _ ht rfl))
    · exact .refl
  | shown task capabilities written =>
    dsimp only
    split
    · rename_i call strategy attempts ht
      split_ifs
      · have hsaved := @Move.saved α sha256 s (s.capabilities.set (s.settings.host, call.model)
          { strategy := strategy.value, capabilities, checkedAt := some now })
        refine .head hsaved ?_
        exact @moves_submit α sha256 _ task { call, phase := .showing strategy, attempts } strategy ht rfl
      · exact .single (.aborted s task { call, phase := .showing strategy, attempts } ht)
    · exact .refl
  | resumed task =>
    dsimp only
    split
    · rename_i call req attempts ht
      split_ifs with hwoken
      · exact .single (.resumed s task { call, phase := .queued req, attempts } req ht rfl hwoken)
      · exact .refl
    · exact .refl
  | attempted task outcome written =>
    dsimp only
    split
    · rename_i call req attempt attempts ht
      cases outcome with
      | answered chat => exact .single (.answered s now task _ req attempt chat written ht rfl)
      | failed error => exact .single (.failed s task _ req attempt _ error ht rfl (Or.inr rfl))
      | timedOut => exact .single (.failed s task _ req attempt _ _ ht rfl (Or.inl rfl))
      | quotaExhausted error => exact .single (.exhausted s task _ req attempt error ht rfl)
    · exact .refl
  | slept task =>
    dsimp only
    split
    · rename_i call req attempt attempts ht
      exact .single (.slept s task { call, phase := .sleeping req attempt, attempts } req attempt ht rfl)
    · exact .refl
  | aborted task =>
    dsimp only
    split
    · rename_i t ht
      exact .single (.aborted s task t ht)
    · exact .refl
  | healthChecked ok => exact .single (.checked s ok)
  | restarted settings => exact absurd rfl (hevent settings)

theorem kept_by_moves {I : LLMGateway α → Prop} (hmove : ∀ {s s'}, Move sha256 s s' → I s → I s')
    {s : LLMGateway α} {e : ℚ × Event α} (hevent : ∀ settings, e.2 ≠ .restarted settings) (hI : I s) :
    I (s.step sha256 e) := by
  have hmoves : ∀ {s'}, Moves sha256 s s' → I s' := by
    intro s' hmoves
    induction hmoves with
    | refl => exact hI
    | tail _ hlast ih => exact hmove hlast ih
  exact hmoves (moves_step sha256 s hevent)

/-- What every move and every restart keeps holds in every state of every run. -/
theorem always_of_moves {I P : LLMGateway α → Prop} (hmove : ∀ {s s'}, Move sha256 s s' → I s → I s')
    (hrestart : ∀ s settings, I s → I (restart s settings)) (hP : ∀ s, I s → P s) {s : LLMGateway α} (hI : I s)
    (events : List (ℚ × Event α)) : Trace.Always (step sha256) P s events := by
  refine Trace.always_of_invariant (fun s e hs => ?_) hP hI
  by_cases hevent : ∃ settings, e.2 = .restarted settings
  · obtain ⟨now, event⟩ := e
    obtain ⟨settings, rfl⟩ := hevent
    exact hrestart s settings hs
  · exact kept_by_moves sha256 hmove (fun settings heq => hevent ⟨settings, heq⟩) hs

end LLMGateway

end AiTrader
