import AiTrader.Lib.JsonLines
import AiTrader.Llm.Gateway

/-!
# The audit log on disk

`AuditLog`: one file a day, one line a record, written before anything is done with the answer. The write can end
early, when the disk is full or the machine goes down, and then auditing goes on behind what is there.

`read_today` gives no line that was not recorded, whatever has been cut off (`read_after_crashes`); it gives each record
whose own line is complete and begins where a line begins. Only the half of a character makes it raise.

A day's file is that of the writes of the day (`files_run`), each of them a line of a `Lib.Journal`. A record is an
object with distinct keys and is written on one line (`Entry`); what a torn write leaves of it, and what becomes of
the next line behind it, is the business of the journal.
-/

namespace AiTrader

open Lib

namespace AuditRecord

/-- The record as `record` writes it. -/
def json (r : AuditRecord) (ts : String) : Json :=
  .object
    [("ts", .string ts), ("cycle_id", .string r.cycleId), ("role", .string r.role), ("provider", .string r.provider),
      ("host", .string r.host), ("model", .string r.model), ("strategy", .string r.strategy),
      ("messages", .array (r.messages.map LLMRequest.messageJson)), ("options", .object r.options),
      ("raw_response", .string (cutText 20000 r.rawResponse)), ("thinking", .string (cutText 8000 r.thinking)),
      ("parsed", (r.parsed.map Json.object).getD .null), ("validation_error", .string r.validationError),
      ("repair_attempted", .bool r.repairAttempted), ("latency_ms", .number (.ofNat r.latencyMs)),
      ("prompt_tokens", .number (.ofNat r.promptTokens)), ("completion_tokens", .number (.ofNat r.completionTokens)),
      ("from_cache", .bool false)]

/-- What comes from dictionaries has distinct keys. -/
structure WellFormed (r : AuditRecord) : Prop where
  options : (Json.object r.options).Distinct
  parsed : ∀ p ∈ r.parsed, (Json.object p).Distinct

theorem WellFormed.entry {r : AuditRecord} (h : r.WellFormed) (ts : String) : Entry (r.json ts) := by
  have hmessages : ElementsDistinct (r.messages.map LLMRequest.messageJson) := by
    refine elementsDistinct_iff.mpr fun v hv => ?_
    obtain ⟨m, -, rfl⟩ := List.mem_map.mp hv
    exact ⟨by simp, trivial, trivial, trivial⟩
  have hparsed : ((r.parsed.map Json.object).getD .null).Distinct := by
    cases hp : r.parsed with
    | none => trivial
    | some p => exact h.parsed p hp
  refine ⟨⟨by simp only [List.map_cons, List.map_nil]; decide, ?_⟩, _, _, _, 't', ['s'], rfl, by decide, by decide, by decide⟩
  exact ⟨trivial, trivial, trivial, trivial, trivial, trivial, trivial, hmessages, h.options, trivial, trivial, hparsed,
    trivial, trivial, trivial, trivial, trivial, trivial, trivial⟩

end AuditRecord

/-- A file of the log. A file that is not there is empty. -/
structure AuditFile where
  text : List Char := []
  /-- Bytes that are no character. -/
  stray : Bool := false

/-- A call of `record`, at a time. The first `taken` characters of the line reach the disk, and of the next one perhaps
a few bytes. -/
structure AuditWrite where
  day : ℕ
  ts : String
  record : AuditRecord
  taken : ℕ
  bytes : Bool := false

namespace AuditWrite

def line (w : AuditWrite) : LineWrite := { value := w.record.json w.ts, taken := w.taken }

/-- A character is cut through. -/
def splits (w : AuditWrite) : Bool :=
  w.bytes && (((dumpsText (w.record.json w.ts))[w.taken]?).map fun ch => decide (128 ≤ ch.toNat)).getD false

end AuditWrite

structure AuditLog where
  enabled : Bool
  files : ℕ → AuditFile := fun _ => {}

namespace AuditLog

def record (log : AuditLog) (w : AuditWrite) : AuditLog :=
  if log.enabled then
    let file := log.files w.day
    { log with
      files := Function.update log.files w.day
        { text := file.text ++ w.line.text, stray := file.stray || w.splits } }
  else log

/-- `read_today` on a day. -/
def readToday (log : AuditLog) (day : ℕ) (limit : ℤ) : Except String (List Json) :=
  let file := log.files day
  if file.stray then .error "UnicodeDecodeError" else .ok (sliceFrom (readLines file.text) (-limit))

/-- The writes of a day. -/
def writesOf (day : ℕ) (writes : List AuditWrite) : List AuditWrite := writes.filter fun w => decide (w.day = day)

theorem files_run (writes : List AuditWrite) (day : ℕ) :
    (writes.foldl record { enabled := true }).enabled = true ∧
      (writes.foldl record { enabled := true }).files day =
        { text := ((writesOf day writes).map AuditWrite.line).flatMap LineWrite.text
          stray := (writesOf day writes).any AuditWrite.splits } := by
  induction writes using List.reverseRecOn with
  | nil => exact ⟨rfl, rfl⟩
  | append_singleton writes w ih =>
    obtain ⟨henabled, hfile⟩ := ih
    rw [List.foldl_append, List.foldl_cons, List.foldl_nil, record, if_pos henabled]
    refine ⟨henabled, ?_⟩
    by_cases hday : w.day = day
    · subst hday
      simp [hfile, writesOf]
    · simp [Function.update_of_ne (Ne.symm hday), hfile, writesOf, hday]

/-- **What the audit log keeps through crashes**: reading a day gives the last of the records that are left, and raises
only where a write has left the half of a character. What is left was recorded, in this order; a record is left whose
line is complete, and begins where the line before it has ended; and all are, where no write ended early. -/
theorem read_after_crashes (writes : List AuditWrite) (hwell : ∀ w ∈ writes, w.record.WellFormed) (day : ℕ) :
    ∃ left : List Json,
      (∀ limit, (writes.foldl record { enabled := true }).readToday day limit =
          if (writesOf day writes).any AuditWrite.splits then .error "UnicodeDecodeError"
          else .ok (sliceFrom left (-limit))) ∧
        left.Sublist ((writesOf day writes).map fun w => w.record.json w.ts) ∧
        (∀ before w after, writesOf day writes = before ++ w :: after → w.line.Full →
          (∀ b ∈ (before.filter fun b => decide (b.taken ≠ 0)).getLast?, b.line.Full) →
            w.record.json w.ts ∈ left) ∧
        ((∀ w ∈ writesOf day writes, w.line.Full) →
          left = (writesOf day writes).map fun w => w.record.json w.ts) := by
  have hentry : ∀ w ∈ (writesOf day writes).map AuditWrite.line, Entry w.value := by
    intro w hw
    obtain ⟨a, ha, rfl⟩ := List.mem_map.mp hw
    exact (hwell a (List.mem_of_mem_filter ha)).entry a.ts
  have hvalues : ∀ ws : List AuditWrite, (ws.map AuditWrite.line).map (fun w => w.value) =
      ws.map fun w => w.record.json w.ts := fun ws => by
    rw [List.map_map]
    rfl
  refine ⟨(Journal.run ((writesOf day writes).map AuditWrite.line)).readable, ?_, ?_, ?_, ?_⟩
  · intro limit
    rw [readToday, (files_run writes day).2]
    dsimp only
    rw [readLines_writes _ hentry]
  · rw [← hvalues]
    exact Journal.readable_sublist _
  · intro before w after hsplit hfull hbefore
    have hempty : (Journal.run (before.map AuditWrite.line)).last = .empty := by
      refine (Journal.last_eq_empty_iff _).mpr fun b hb => ?_
      rw [List.filter_map, List.getLast?_map] at hb
      obtain ⟨a, ha, rfl⟩ := Option.map_eq_some_iff.mp hb
      exact hbefore a ha
    rw [hsplit, List.map_append, List.map_cons]
    exact Journal.readable_of_entries (Journal.mem_entries _ _ hfull hempty)
  · intro hfull
    have hall : ∀ w ∈ (writesOf day writes).map AuditWrite.line, w.Full := by
      intro w hw
      obtain ⟨a, ha, rfl⟩ := List.mem_map.mp hw
      exact hfull a ha
    rw [Journal.run_full hall, Journal.readable, hvalues]

def bareRecord (role : String) : AuditRecord where
  cycleId := "c7"
  role := role
  provider := "ollama"
  host := "http://localhost:11434"
  model := "qwen3"
  strategy := "json_mode"
  messages := []
  options := []
  rawResponse := ""
  thinking := ""
  parsed := none
  validationError := ""
  repairAttempted := false
  latencyMs := 12
  promptTokens := 40
  completionTokens := 9

/-- A crash in the first line, and a record behind it. -/
def crashWrites : List AuditWrite :=
  [⟨3, "2026-03-02T14:30:00+00:00", bareRecord "trader", 30, false⟩,
    ⟨3, "2026-03-02T14:31:00+00:00", bareRecord "risk", 20000, false⟩]

theorem read_after_crashes_torn :
    ∃ left : List Json,
      (∀ limit, (crashWrites.foldl record { enabled := true }).readToday 3 limit =
          if (writesOf 3 crashWrites).any AuditWrite.splits then .error "UnicodeDecodeError"
          else .ok (sliceFrom left (-limit))) ∧
        left.Sublist ((writesOf 3 crashWrites).map fun w => w.record.json w.ts) ∧
        (∀ before w after, writesOf 3 crashWrites = before ++ w :: after → w.line.Full →
          (∀ b ∈ (before.filter fun b => decide (b.taken ≠ 0)).getLast?, b.line.Full) →
            w.record.json w.ts ∈ left) ∧
        ((∀ w ∈ writesOf 3 crashWrites, w.line.Full) →
          left = (writesOf 3 crashWrites).map fun w => w.record.json w.ts) := by
  refine read_after_crashes crashWrites (fun w hw => ?_) 3
  have hbare : ∀ role, (bareRecord role).WellFormed := fun role => ⟨⟨List.nodup_nil, trivial⟩, by simp [bareRecord]⟩
  simp only [crashWrites, List.mem_cons, List.not_mem_nil, or_false] at hw
  rcases hw with rfl | rfl <;> exact hbare _

end AuditLog

theorem LLMGateway.wellFormed_auditRecord {α : Type} (settings : GatewaySettings) (call : ModelCall α)
    (req : LLMRequest) (reply : ChatReply) (outcome : Called α)
    (hdump : ∀ a, (Json.object (call.modelDump a)).Distinct) :
    (auditRecord settings call req reply outcome).WellFormed where
  options := by
    show (Json.object req.options).Distinct
    unfold LLMRequest.options
    cases req.seed with
    | none => exact ⟨by simp, trivial, trivial, trivial, trivial⟩
    | some seed => exact ⟨by simp, trivial, trivial, trivial, trivial, trivial⟩
  parsed := by
    intro p hp
    obtain ⟨a, -, rfl⟩ := Option.map_eq_some_iff.mp hp
    exact hdump a

end AiTrader
