import AiTrader.Llm.Gateway
import Mathlib.Algebra.BigOperators.Group.List.Basic
import Mathlib.Algebra.Order.Ring.Nat

/-!
# What the gateway leaves behind

Every answer is handed to the audit log once, in the order of the answers, whether it could be parsed or not, and an
object is returned only after that. The log takes it unless auditing is switched off or the write fails, which stops
nobody (`answers_audited`). What the cache serves was the answer to the very same question, in this process or an
earlier one (`served_was_answered`).

Both proofs follow the calls that have ended. A move either ends no call, or ends one without an answer, or ends one
with an answer (`TrailInv.quiet`, `TrailInv.unanswered`, `TrailInv.heard`), and only the last kind touches the log,
the counters and the cache. What the cache holds under a key was put there by a call that ended with that answer, and
a call that is served ends with what is under the key of its own request; the keys are equal only where the questions
are, or where the hash collides (`LLMRequest.cacheKey_eq`).
-/

namespace AiTrader

open Lib

namespace LLMGateway

variable {α : Type} {sha256 : List Char → String} {s s' : LLMGateway α}

/-- What is handed to the log of a call that has ended: the last attempt, if it was answered. -/
def recordOf (f : Finished α) : Option AuditRecord :=
  match f.ending, f.attempts.getLast? with
  | .parsed req _, some (.answered chat) | .unparsed req, some (.answered chat) =>
    some (auditRecord f.settings f.call req (lastReply f.call req chat) (converse f.call req chat))
  | _, _ => none

/-- What the log has of it. -/
def recorded (f : Finished α) : Option AuditRecord :=
  if f.settings.auditEnabled && f.auditWritten then recordOf f else none

theorem recorded_eq_none {f : Finished α} (h : recordOf f = none) : recorded f = none := by
  unfold recorded
  split_ifs
  · exact h
  · rfl

/-- The object that a call returns was parsed in its last attempt. -/
def ParsedLast (f : Finished α) : Prop :=
  ∀ req a, f.ending = .parsed req a →
    ∃ chat, f.attempts.getLast? = some (.answered chat) ∧ (converse f.call req chat).parsed = some a

def tokensIn (records : List AuditRecord) : ℕ := (records.map fun r => r.promptTokens + r.completionTokens).sum

structure TrailInv (s : LLMGateway α) : Prop where
  audit : s.audit = s.ended.filterMap recorded
  calls : s.health.totalCalls = (s.finished.filterMap recordOf).length
  tokens : s.health.totalTokens = tokensIn (s.finished.filterMap recordOf)
  parsed : ∀ f ∈ s.ended, ParsedLast f

theorem trailInv_start (settings : GatewaySettings) : TrailInv (start settings : LLMGateway α) where
  audit := rfl
  calls := rfl
  tokens := rfl
  parsed := by simp [start, ended]

theorem TrailInv.quiet (h : TrailInv s) (haudit : s'.audit = s.audit) (hended : s'.ended = s.ended)
    (hfinished : s'.finished = s.finished) (hcalls : s'.health.totalCalls = s.health.totalCalls)
    (htokens : s'.health.totalTokens = s.health.totalTokens) : TrailInv s' :=
  ⟨by rw [haudit, hended, h.audit], by rw [hcalls, hfinished, h.calls], by rw [htokens, hfinished, h.tokens],
    by rw [hended]; exact h.parsed⟩

theorem TrailInv.unanswered (h : TrailInv s) {f : Finished α} (hnone : recordOf f = none)
    (hparsed : ∀ req a, f.ending ≠ .parsed req a) (haudit : s'.audit = s.audit) (hended : s'.ended = s.ended ++ [f])
    (hfinished : s'.finished = s.finished ++ [f]) (hcalls : s'.health.totalCalls = s.health.totalCalls)
    (htokens : s'.health.totalTokens = s.health.totalTokens) : TrailInv s' := by
  have hsame : (s.finished ++ [f]).filterMap recordOf = s.finished.filterMap recordOf := by
    simp [List.filterMap_append, hnone]
  refine ⟨?_, by rw [hcalls, hfinished, hsame, h.calls], by rw [htokens, hfinished, hsame, h.tokens], ?_⟩
  · rw [haudit, hended, h.audit]
    simp [List.filterMap_append, recorded_eq_none hnone]
  · rw [hended]
    intro g hg
    rcases List.mem_append.mp hg with hg | hg
    · exact h.parsed g hg
    · obtain rfl := List.mem_singleton.mp hg
      exact fun req a heq => absurd heq (hparsed req a)

theorem TrailInv.heard (h : TrailInv s) {f : Finished α} {record : AuditRecord} (hrecord : recordOf f = some record)
    (hparsed : ParsedLast f) (hsettings : f.settings = s.settings)
    (haudit : s'.audit = s.record record f.auditWritten) (hended : s'.ended = s.ended ++ [f])
    (hfinished : s'.finished = s.finished ++ [f]) (hcalls : s'.health.totalCalls = s.health.totalCalls + 1)
    (htokens : s'.health.totalTokens = s.health.totalTokens + (record.promptTokens + record.completionTokens)) :
    TrailInv s' := by
  refine ⟨?_, ?_, ?_, ?_⟩
  · have hlog : s.record record f.auditWritten = s.audit ++ (recorded f).toList := by
      unfold LLMGateway.record recorded
      rw [hrecord, hsettings]
      split_ifs <;> simp
    rw [haudit, hlog, hended, List.filterMap_append, h.audit, List.filterMap_cons, List.filterMap_nil]
    cases recorded f <;> rfl
  · rw [hcalls, hfinished, h.calls, List.filterMap_append]
    simp [hrecord]
  · rw [htokens, hfinished, h.tokens, List.filterMap_append]
    simp [hrecord, tokensIn]
  · rw [hended]
    intro g hg
    rcases List.mem_append.mp hg with hg | hg
    · exact h.parsed g hg
    · obtain rfl := List.mem_singleton.mp hg
      exact hparsed

theorem TrailInv.answered (h : TrailInv s) (now : ℚ) (task : ℕ) (t : CallTask α) (req : LLMRequest)
    (chat : List Message → ChatReply) (written : Writes) :
    TrailInv (s.answered sha256 now task t req chat written) := by
  unfold LLMGateway.answered
  dsimp only
  split
  · rename_i hparsed
    have hrecord : recordOf ⟨task, t.call, t.attempts ++ [.answered chat], .unparsed req, s.settings, written.audit⟩ =
        some (auditRecord s.settings t.call req (lastReply t.call req chat) (converse t.call req chat)) := by
      simp [recordOf]
    have hlast : ParsedLast ⟨task, t.call, t.attempts ++ [.answered chat], .unparsed req, s.settings, written.audit⟩ := by
      simp [ParsedLast]
    exact h.heard hrecord hlast rfl rfl (ended_finish ..) rfl rfl rfl
  · rename_i a hparsed
    have hrecord : recordOf ⟨task, t.call, t.attempts ++ [.answered chat], .parsed req a, s.settings, written.audit⟩ =
        some (auditRecord s.settings t.call req (lastReply t.call req chat) (converse t.call req chat)) := by
      simp [recordOf]
    have hlast : ParsedLast ⟨task, t.call, t.attempts ++ [.answered chat], .parsed req a, s.settings, written.audit⟩ := by
      rintro req' a' heq
      obtain ⟨rfl, rfl⟩ := Ending.parsed.inj heq
      exact ⟨chat, by simp, hparsed⟩
    exact h.heard hrecord hlast rfl rfl (ended_finish ..) rfl rfl rfl

theorem TrailInv.move (hmove : Move sha256 s s') (h : TrailInv s) : TrailInv s' := by
  cases hmove with
  | checked | learnt | saved | begun | probed | entered | resumed | slept => exact h.quiet rfl rfl rfl rfl rfl
  | refused task call hidle hlatched =>
    exact h.unanswered (by simp [recordOf]) (by simp) rfl (ended_finish ..) rfl rfl rfl
  | served task t strategy a ht hphase hread hcached =>
    exact h.unanswered (by simp [recordOf]) (by simp) rfl (ended_finish ..) rfl rfl rfl
  | answered now task t req attempt chat written ht hphase => exact h.answered now task t req chat written
  | failed task t req attempt outcome error ht hphase houtcome =>
    unfold failedWith
    dsimp only
    split_ifs
    · exact h.unanswered (by simp [recordOf]) (by simp) rfl (ended_finish ..) rfl rfl rfl
    · exact h.quiet rfl rfl rfl rfl rfl
  | exhausted task t req attempt error ht hphase =>
    exact h.unanswered (by simp [recordOf]) (by simp) rfl (ended_finish ..) rfl rfl rfl
  | aborted task t ht =>
    unfold LLMGateway.aborted
    split <;> exact h.unanswered (by simp [recordOf]) (by simp) rfl (ended_finish ..) rfl rfl rfl

theorem TrailInv.restart (h : TrailInv s) (settings : GatewaySettings) : TrailInv (s.restart settings) := by
  refine ⟨?_, rfl, rfl, ?_⟩
  · rw [ended_restart]
    exact h.audit
  · rw [ended_restart]
    exact h.parsed

/-- **Every answer is handed to the audit log**: the log holds the record of each call that was answered where auditing
is on and the write goes through, in the order of the answers, and no other; an object that was returned stands in its
record; and the counters of the process count its answers, whether they could be logged or not. -/
theorem answers_audited (sha256 : List Char → String) (settings : GatewaySettings) (events : List (ℚ × Event α)) :
    Trace.Always (step sha256)
      (fun s => s.audit = s.ended.filterMap recorded ∧
        (∀ f ∈ s.ended, ∀ req a, f.ending = .parsed req a →
          ∃ r, recordOf f = some r ∧ r.parsed = some (f.call.modelDump a) ∧ r.messages = req.messages ∧
            r.role = f.call.role ∧ r.cycleId = f.call.cycleId ∧
              (f.settings.auditEnabled = true → f.auditWritten = true → r ∈ s.audit)) ∧
        s.health.totalCalls = (s.finished.filterMap recordOf).length ∧
        s.health.totalTokens = tokensIn (s.finished.filterMap recordOf))
      (start settings) events := by
  refine always_of_moves sha256 TrailInv.move (fun _ settings h => h.restart settings)
    (fun s h => ⟨h.audit, fun f hf req a hending => ?_, h.calls, h.tokens⟩) (trailInv_start settings) events
  obtain ⟨chat, hlast, hparsed⟩ := h.parsed f hf req a hending
  have hrecord : recordOf f =
      some (auditRecord f.settings f.call req (lastReply f.call req chat) (converse f.call req chat)) := by
    simp [recordOf, hending, hlast]
  refine ⟨_, hrecord, by simp [auditRecord, hparsed], rfl, rfl, rfl, fun henabled hwritten => ?_⟩
  rw [h.audit]
  refine List.mem_filterMap.mpr ⟨f, hf, ?_⟩
  rw [recorded, henabled, hwritten]
  exact hrecord

/-! ### The cache -/

/-- The text is what a call parsed from the answer to a request with the key. -/
def Answered (sha256 : List Char → String) (ended : List (Finished α)) (key : String) (text : List Char) : Prop :=
  ∃ g ∈ ended, ∃ req b chat, g.ending = .parsed req b ∧ g.attempts.getLast? = some (.answered chat) ∧
    (converse g.call req chat).parsed = some b ∧ key = req.cacheKey sha256 ∧ text = dumps (.object (g.call.modelDump b))

/-- What a call was served passes its own schema, and was an answer. -/
def ServedAnswer (sha256 : List Char → String) (ended : List (Finished α)) (f : Finished α) : Prop :=
  ∀ req a, f.ending = .cached req a → f.settings.cacheReadEnabled = true ∧
    ∃ text payload, Answered sha256 ended (req.cacheKey sha256) text ∧ loads text = some (.object payload) ∧
      f.call.modelValidate payload = .ok a

structure CacheInv (sha256 : List Char → String) (s : LLMGateway α) : Prop where
  cache : ∀ key text, s.cache.get? key = some text → Answered sha256 s.ended key text
  served : ∀ f ∈ s.ended, ServedAnswer sha256 s.ended f

theorem Answered.mono {ended ended' : List (Finished α)} {key : String} {text : List Char}
    (h : Answered sha256 ended key text) (hsub : ∀ g ∈ ended, g ∈ ended') : Answered sha256 ended' key text := by
  obtain ⟨g, hg, hrest⟩ := h
  exact ⟨g, hsub g hg, hrest⟩

theorem ServedAnswer.mono {ended ended' : List (Finished α)} {f : Finished α} (h : ServedAnswer sha256 ended f)
    (hsub : ∀ g ∈ ended, g ∈ ended') : ServedAnswer sha256 ended' f := by
  intro req a hending
  obtain ⟨hread, text, payload, hanswered, hrest⟩ := h req a hending
  exact ⟨hread, text, payload, hanswered.mono hsub, hrest⟩

theorem cacheInv_start (settings : GatewaySettings) : CacheInv sha256 (start settings : LLMGateway α) where
  cache key text hget := by simp [start, Dict.empty, Dict.get?] at hget
  served f hf := by simp [start, ended] at hf

theorem CacheInv.quiet (h : CacheInv sha256 s) (hcache : s'.cache = s.cache) (hended : s'.ended = s.ended) :
    CacheInv sha256 s' :=
  ⟨by rw [hcache, hended]; exact h.cache, by rw [hended]; exact h.served⟩

theorem CacheInv.concluded (h : CacheInv sha256 s) {f : Finished α} (hended : s'.ended = s.ended ++ [f])
    (hcache : ∀ key text, s'.cache.get? key = some text →
      s.cache.get? key = some text ∨ Answered sha256 [f] key text)
    (hserved : ServedAnswer sha256 s.ended f) : CacheInv sha256 s' := by
  have hold : ∀ g ∈ s.ended, g ∈ s'.ended := fun g hg => by
    rw [hended]
    exact List.mem_append_left _ hg
  have hnew : ∀ g ∈ [f], g ∈ s'.ended := fun g hg => by
    rw [hended]
    exact List.mem_append_right _ hg
  refine ⟨fun key text hget => ?_, fun g hg => ?_⟩
  · rcases hcache key text hget with hbefore | hanswer
    · exact (h.cache key text hbefore).mono hold
    · exact hanswer.mono hnew
  · rw [hended] at hg
    rcases List.mem_append.mp hg with hg | hg
    · exact (h.served g hg).mono hold
    · rw [List.mem_singleton.mp hg]
      exact hserved.mono hold

theorem CacheInv.answered (h : CacheInv sha256 s) (now : ℚ) (task : ℕ) (t : CallTask α) (req : LLMRequest)
    (chat : List Message → ChatReply) (written : Writes) :
    CacheInv sha256 (s.answered sha256 now task t req chat written) := by
  unfold LLMGateway.answered
  dsimp only
  split
  · exact h.concluded (ended_finish ..) (fun key text hget => Or.inl hget) (by simp [ServedAnswer])
  · rename_i a hparsed
    refine h.concluded (ended_finish ..) (fun key text hget => ?_) (by simp [ServedAnswer])
    change (if s.settings.cacheEnabled && written.cache then
      s.cache.set (req.cacheKey sha256) (dumps (.object (t.call.modelDump a))) else s.cache).get? key =
        some text at hget
    split_ifs at hget with hwritten
    · by_cases hkey : key = req.cacheKey sha256
      · subst hkey
        rw [Dict.get?_set_self, Option.some.injEq] at hget
        exact Or.inr ⟨_, List.mem_singleton_self _, req, a, chat, rfl, by simp, hparsed, rfl, hget.symm⟩
      · rw [Dict.get?_set_ne _ _ hkey] at hget
        exact Or.inl hget
    · exact Or.inl hget

theorem CacheInv.served_cached (h : CacheInv sha256 s) {call : ModelCall α} {req : LLMRequest} {a : α}
    (hcached : s.cached sha256 call req = some a) :
    ∃ text payload, Answered sha256 s.ended (req.cacheKey sha256) text ∧ loads text = some (.object payload) ∧
      call.modelValidate payload = .ok a := by
  unfold cached at hcached
  split at hcached
  · rename_i payload hfound
    obtain ⟨text, hget, hloads⟩ := Option.bind_eq_some_iff.mp hfound
    refine ⟨text, payload, h.cache _ _ hget, hloads, ?_⟩
    cases hvalid : call.modelValidate payload with
    | error e => simp [hvalid, Except.toOption] at hcached
    | ok b =>
      rw [hvalid] at hcached
      rw [show b = a from Option.some.inj hcached]
  · cases hcached

theorem CacheInv.move (hmove : Move sha256 s s') (h : CacheInv sha256 s) : CacheInv sha256 s' := by
  cases hmove with
  | checked | learnt | saved | begun | probed | entered | resumed | slept => exact h.quiet rfl rfl
  | refused task call hidle hlatched =>
    exact h.concluded (ended_finish ..) (fun _ _ hget => Or.inl hget) (by simp [ServedAnswer])
  | served task t strategy a ht hphase hread hcached =>
    refine h.concluded (ended_finish ..) (fun _ _ hget => Or.inl hget) ?_
    rintro req' a' heq
    obtain ⟨rfl, rfl⟩ := Ending.cached.inj heq
    exact ⟨hread, h.served_cached hcached⟩
  | answered now task t req attempt chat written ht hphase => exact h.answered now task t req chat written
  | failed task t req attempt outcome error ht hphase houtcome =>
    unfold failedWith
    dsimp only
    split_ifs
    · exact h.concluded (ended_finish ..) (fun _ _ hget => Or.inl hget) (by simp [ServedAnswer])
    · exact h.quiet rfl rfl
  | exhausted task t req attempt error ht hphase =>
    exact h.concluded (ended_finish ..) (fun _ _ hget => Or.inl hget) (by simp [ServedAnswer])
  | aborted task t ht =>
    unfold LLMGateway.aborted
    split <;> exact h.concluded (ended_finish ..) (fun _ _ hget => Or.inl hget) (by simp [ServedAnswer])

/-- **What the cache serves was an answer**: an answer is served only where reading the cache is allowed, it passes the
schema of the call it is served to, and it was parsed from a reply to the same question, in this process or an earlier
one, unless the hash collides. -/
theorem served_was_answered (sha256 : List Char → String) (settings : GatewaySettings)
    (events : List (ℚ × Event α)) :
    Trace.Always (step sha256)
      (fun s => ∀ f ∈ s.ended, ∀ req a, f.ending = .cached req a →
        f.settings.cacheReadEnabled = true ∧
        ∃ g ∈ s.ended, ∃ asked b chat payload, g.ending = .parsed asked b ∧
          g.attempts.getLast? = some (.answered chat) ∧
          (StructuredCaller.call g.call.modelValidate (fun messages => (chat messages).toLLMResponse)
            asked.messages true).parsed = some b ∧
          loads (dumps (.object (g.call.modelDump b))) = some (.object payload) ∧
          f.call.modelValidate payload = .ok a ∧
          (req.SameQuestion asked ∨ dumps req.cachePayload ≠ dumps asked.cachePayload ∧
            sha256 (dumps req.cachePayload) = sha256 (dumps asked.cachePayload)))
      (start settings) events := by
  refine always_of_moves sha256 CacheInv.move (fun _ _ h => h.quiet rfl (ended_restart ..))
    (fun s h f hf req a hending => ?_) (cacheInv_start settings) events
  obtain ⟨hread, text, payload, ⟨g, hg, asked, b, chat, hending, hlast, hparsed, hkey, rfl⟩, hloads, hvalid⟩ :=
    h.served f hf req a hending
  exact ⟨hread, g, hg, asked, b, chat, payload, hending, hlast, hparsed, hloads, hvalid, LLMRequest.cacheKey_eq hkey⟩

end LLMGateway

end AiTrader
