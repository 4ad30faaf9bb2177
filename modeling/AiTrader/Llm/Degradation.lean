import AiTrader.Llm.Gateway

/-!
# Giving the model up

A model that fails its schema `max_schema_failures` times in a row, over whichever calls, is given up for the rest of
the process. A call that gave up on the provider counts neither as a failure nor as a success.

Exactly such a streak latches (`given_up_iff_streak`), and from then on no call that is not already under way reaches
the provider (`quiet_once_given_up`). A used-up quota makes the model unavailable until a call is answered.

`LatchInv` compares the counter with the calls that have ended, latest first: it is the number of unparsed ones up to
the last parsed one, and the latch is up when that number has reached the limit at some prefix. A move that ends no
call or ends it without an answer changes neither side. Once the latch is up, `QuietSince` follows the calls that were
under way: each takes its remaining steps and ends once, and whoever comes is turned away.
-/

namespace AiTrader

open Lib

/-- A call that was not turned away at once. -/
def Ending.admitted {α : Type} : Ending α → Bool
  | .refused => false
  | .cached _ _ | .parsed _ _ | .unparsed _ | .gaveUp | .raised => true

namespace LLMGateway

variable {α : Type} {sha256 : List Char → String} {s s' : LLMGateway α}

/-- One more call has ended. -/
def streakNext (n : ℕ) (f : Finished α) : ℕ :=
  match f.ending with
  | .parsed _ _ => 0
  | .unparsed _ => n + 1
  | .refused | .cached _ _ | .gaveUp | .raised => n

/-- How often the schema has failed since it was last met. -/
def streak (finished : List (Finished α)) : ℕ := finished.foldl streakNext 0

/-- Somewhere in the history a failure completed a streak of `limit`. -/
def GivenUp (limit : ℕ) (finished : List (Finished α)) : Prop :=
  ∃ before f, before ++ [f] <+: finished ∧ (∃ req, f.ending = .unparsed req) ∧ limit ≤ streak (before ++ [f])

theorem streak_concat (finished : List (Finished α)) (f : Finished α) :
    streak (finished ++ [f]) = streakNext (streak finished) f := by
  simp [streak]

theorem givenUp_concat {limit : ℕ} {finished : List (Finished α)} {f : Finished α} :
    GivenUp limit (finished ++ [f]) ↔
      GivenUp limit finished ∨ (∃ req, f.ending = .unparsed req) ∧ limit ≤ streak (finished ++ [f]) := by
  constructor
  · rintro ⟨before, g, hpre, hending, hlimit⟩
    rcases List.prefix_concat_iff.mp hpre with heq | hpre
    · obtain ⟨rfl, hg⟩ := List.append_inj' heq rfl
      obtain rfl : g = f := by simpa using hg
      exact Or.inr ⟨hending, hlimit⟩
    · exact Or.inl ⟨before, g, hpre, hending, hlimit⟩
  · rintro (⟨before, g, hpre, hending, hlimit⟩ | ⟨hending, hlimit⟩)
    · exact ⟨before, g, hpre.trans (List.prefix_append _ _), hending, hlimit⟩
    · exact ⟨finished, f, List.prefix_refl _, hending, hlimit⟩

structure LatchInv (s : LLMGateway α) : Prop where
  counter : s.health.consecutiveSchemaFailures = streak s.finished
  latch : s.health.deterministicOnly = true ↔ GivenUp s.settings.maxSchemaFailures s.finished
  quota : s.health.quotaExhausted = true → s.health.available = false

theorem latchInv_start (settings : GatewaySettings) : LatchInv (start settings : LLMGateway α) where
  counter := rfl
  latch := by simp [start, GivenUp]
  quota := by simp [start]

theorem LatchInv.unanswered (h : LatchInv s) (hsettings : s'.settings = s.settings)
    (hcounter : s'.health.consecutiveSchemaFailures = s.health.consecutiveSchemaFailures)
    (hlatch : s'.health.deterministicOnly = s.health.deterministicOnly)
    (hquota : s'.health.quotaExhausted = true → s'.health.available = false)
    (hfinished : s'.finished = s.finished ∨ ∃ f, s'.finished = s.finished ++ [f] ∧
      ∀ n, streakNext n f = n ∧ ∀ req, f.ending ≠ .unparsed req) : LatchInv s' := by
  rcases hfinished with heq | ⟨f, heq, hf⟩
  · exact ⟨by rw [hcounter, heq, h.counter], by rw [hlatch, hsettings, heq, h.latch], hquota⟩
  · refine ⟨by rw [hcounter, heq, streak_concat, (hf _).1, h.counter], ?_, hquota⟩
    have hnot : ¬ ∃ req, f.ending = .unparsed req := fun ⟨req, hreq⟩ => (hf 0).2 req hreq
    rw [hlatch, hsettings, heq, givenUp_concat, h.latch]
    simp [hnot]

theorem LatchInv.answered (h : LatchInv s) (now : ℚ) (task : ℕ) (t : CallTask α) (req : LLMRequest)
    (chat : List Message → ChatReply) (written : Writes) :
    LatchInv (s.answered sha256 now task t req chat written) := by
  unfold LLMGateway.answered
  dsimp only
  split
  · -- one more failure, and the latch when the streak is long enough
    refine ⟨?_, ?_, by simp [finish, LLMHealth.onUnparsed, LLMHealth.onSuccess]⟩
    · show s.health.consecutiveSchemaFailures + 1 = streak (s.finished ++ [_])
      rw [streak_concat, h.counter]
      rfl
    · show (s.health.deterministicOnly || decide (s.settings.maxSchemaFailures ≤
        s.health.consecutiveSchemaFailures + 1)) = true ↔ GivenUp s.settings.maxSchemaFailures (s.finished ++ [_])
      rw [givenUp_concat, streak_concat, Bool.or_eq_true, decide_eq_true_eq, h.latch, h.counter]
      simp [streakNext]
  · rename_i a hparsed
    refine ⟨?_, ?_, by simp [finish, LLMHealth.onParsed, LLMHealth.onSuccess]⟩
    · show 0 = streak (s.finished ++ [_])
      rw [streak_concat]
      rfl
    · show s.health.deterministicOnly = true ↔ GivenUp s.settings.maxSchemaFailures (s.finished ++ [_])
      rw [givenUp_concat, h.latch]
      simp

theorem LatchInv.move (hmove : Move sha256 s s') (h : LatchInv s) : LatchInv s' := by
  cases hmove with
  | checked ok =>
    refine h.unanswered rfl rfl rfl ?_ (Or.inl rfl)
    intro hquota
    have hexhausted : s.health.quotaExhausted = true := hquota
    simp [LLMHealth.checked, hexhausted]
  | learnt | saved | begun | probed | entered | resumed | slept => exact h.unanswered rfl rfl rfl h.quota (Or.inl rfl)
  | refused task call hidle hlatched =>
    exact h.unanswered rfl rfl rfl h.quota (Or.inr ⟨_, rfl, by simp [streakNext]⟩)
  | served task t strategy a ht hphase hread hcached =>
    exact h.unanswered rfl rfl rfl h.quota (Or.inr ⟨_, rfl, by simp [streakNext]⟩)
  | answered now task t req attempt chat written ht hphase => exact h.answered now task t req chat written
  | failed task t req attempt outcome error ht hphase houtcome =>
    have hquota : (s.health.onFailure error).quotaExhausted = true → (s.health.onFailure error).available = false := by
      intro hexhausted
      have havailable := h.quota hexhausted
      simp [LLMHealth.onFailure, havailable]
    unfold failedWith
    dsimp only
    split_ifs
    · exact h.unanswered rfl rfl rfl hquota (Or.inr ⟨_, rfl, by simp [streakNext]⟩)
    · exact h.unanswered rfl rfl rfl hquota (Or.inl rfl)
  | exhausted task t req attempt error ht hphase =>
    exact h.unanswered rfl rfl rfl (fun _ => rfl) (Or.inr ⟨_, rfl, by simp [streakNext]⟩)
  | aborted task t ht =>
    unfold LLMGateway.aborted
    split <;> exact h.unanswered rfl rfl rfl h.quota (Or.inr ⟨_, rfl, by simp [streakNext]⟩)

theorem LatchInv.restart (settings : GatewaySettings) : LatchInv (s.restart settings) := by
  have hstart := @latchInv_start α settings
  exact ⟨hstart.counter, hstart.latch, hstart.quota⟩

/-- **When the model is given up**: exactly when its schema failed as often in a row as is allowed, over the calls of
the process in the order in which they ended. A used-up quota leaves the model unavailable. -/
theorem given_up_iff_streak (sha256 : List Char → String) (settings : GatewaySettings)
    (events : List (ℚ × Event α)) :
    Trace.Always (step sha256)
      (fun s => (s.health.deterministicOnly = true ↔ GivenUp s.settings.maxSchemaFailures s.finished) ∧
        s.health.consecutiveSchemaFailures = streak s.finished ∧
        (s.health.quotaExhausted = true → s.health.available = false))
      (start settings) events :=
  always_of_moves sha256 LatchInv.move (fun _ settings _ => LatchInv.restart settings)
    (fun _ h => ⟨h.latch, h.counter, h.quota⟩) (latchInv_start settings) events

/-! ### After that -/

/-- What has become of the calls since the state `s`, in which the model was given up. -/
structure QuietSince (s t : LLMGateway α) : Prop where
  latched : t.health.deterministicOnly = true
  underWay : ∀ task c, t.tasks task = some c → ∃ c₀, s.tasks task = some c₀ ∧ c₀.call = c.call
  since : ∃ later, t.finished = s.finished ++ later ∧
    (∀ f ∈ later, f.ending.admitted = true →
      t.tasks f.task = none ∧ ∃ c₀, s.tasks f.task = some c₀ ∧ c₀.call = f.call) ∧
    (∀ f ∈ later, f.ending.admitted = false → f.attempts = []) ∧
    (later.filter (fun f => f.ending.admitted)).Pairwise (fun f g => f.task ≠ g.task)

theorem quietSince_self (h : s.health.deterministicOnly = true) : QuietSince s s where
  latched := h
  underWay := fun _ c hc => ⟨c, hc, rfl⟩
  since := ⟨[], by simp⟩

variable {t t' : LLMGateway α}

theorem QuietSince.quiet (h : QuietSince s t) (hlatched : t'.health.deterministicOnly = true)
    (htasks : ∀ task, (t'.tasks task).map (·.call) = (t.tasks task).map (·.call))
    (hfinished : t'.finished = t.finished) : QuietSince s t' := by
  refine ⟨hlatched, ?_, ?_⟩
  · intro task c hc
    obtain ⟨c₁, hc₁, hcall⟩ : ∃ c₁, t.tasks task = some c₁ ∧ c₁.call = c.call := by
      have hmap := htasks task
      rw [hc] at hmap
      simpa using hmap.symm
    obtain ⟨c₀, hc₀, hcall₀⟩ := h.underWay task c₁ hc₁
    exact ⟨c₀, hc₀, hcall₀.trans hcall⟩
  · obtain ⟨later, heq, hadmitted, hrefused, honce⟩ := h.since
    refine ⟨later, hfinished.trans heq, fun f hf hend => ?_, hrefused, honce⟩
    obtain ⟨hidle, hcall⟩ := hadmitted f hf hend
    have hmap := htasks f.task
    rw [hidle] at hmap
    exact ⟨by simpa using hmap, hcall⟩

theorem QuietSince.put (h : QuietSince s t) {task : ℕ} {c c' : CallTask α} (hc : t.tasks task = some c)
    (htasks : t'.tasks = (t.put task c').tasks) (hcall : c'.call = c.call)
    (hlatched : t'.health.deterministicOnly = t.health.deterministicOnly) (hfinished : t'.finished = t.finished) :
    QuietSince s t' := by
  refine h.quiet (hlatched.trans h.latched) (fun other => ?_) hfinished
  rw [htasks]
  by_cases hother : other = task
  · subst hother
    simp [hc, hcall]
  · rw [tasks_put_ne t hother]

theorem QuietSince.finish (h : QuietSince s t) {f : Finished α} {c : CallTask α}
    (hfinished : t'.finished = t.finished ++ [f]) (htasks : t'.tasks = Function.update t.tasks f.task none)
    (hc : t.tasks f.task = some c) (hcall : c.call = f.call) (hadmitted : f.ending.admitted = true)
    (hlatched : t'.health.deterministicOnly = true) : QuietSince s t' := by
  obtain ⟨later, heq, hearlier, hrefused, honce⟩ := h.since
  refine ⟨hlatched, ?_, later ++ [f], by rw [hfinished, heq, List.append_assoc], ?_, ?_, ?_⟩
  · intro other c₁ hc₁
    have hne : other ≠ f.task := by
      rintro rfl
      simp [htasks] at hc₁
    rw [htasks, Function.update_of_ne hne] at hc₁
    exact h.underWay other c₁ hc₁
  · intro g hg hend
    rw [htasks]
    rcases List.mem_append.mp hg with hg | hg
    · obtain ⟨hidle, hcall₀⟩ := hearlier g hg hend
      have hne : g.task ≠ f.task := by
        intro heq
        simp [heq, hc] at hidle
      exact ⟨by rw [Function.update_of_ne hne, hidle], hcall₀⟩
    · obtain rfl := List.mem_singleton.mp hg
      obtain ⟨c₀, hc₀, hcall₀⟩ := h.underWay g.task c hc
      exact ⟨Function.update_self .., c₀, hc₀, hcall₀.trans hcall⟩
  · intro g hg hend
    rcases List.mem_append.mp hg with hg | hg
    · exact hrefused g hg hend
    · obtain rfl := List.mem_singleton.mp hg
      simp [hadmitted] at hend
  · rw [List.filter_append, List.pairwise_append]
    refine ⟨honce, by simp [hadmitted], fun g hg g' hg' => ?_⟩
    obtain ⟨hg, hend⟩ := List.mem_filter.mp hg
    obtain rfl : g' = f := by simpa [hadmitted] using hg'
    intro heq
    have hidle := (hearlier g hg hend).1
    simp [heq, hc] at hidle

theorem QuietSince.refused (h : QuietSince s t) {task : ℕ} (call : ModelCall α) (hidle : t.tasks task = none) :
    QuietSince s (t.finish task call [] .refused) := by
  obtain ⟨later, heq, hadmitted, hrefused, honce⟩ := h.since
  have hsame : ∀ other, (t.finish task call [] .refused).tasks other = t.tasks other := by
    intro other
    by_cases hother : other = task
    · subst hother
      rw [tasks_finish_self, hidle]
    · rw [tasks_finish_ne t hother]
  refine ⟨h.latched, fun other c hc => h.underWay other c (by rwa [hsame] at hc), ?_⟩
  refine ⟨later ++ [⟨task, call, [], .refused, t.settings, true⟩], ?_, ?_, ?_, ?_⟩
  · show t.finished ++ [_] = _
    rw [heq, List.append_assoc]
  · intro f hf hend
    rcases List.mem_append.mp hf with hf | hf
    · rw [hsame]
      exact hadmitted f hf hend
    · obtain rfl := List.mem_singleton.mp hf
      simp [Ending.admitted] at hend
  · intro f hf hend
    rcases List.mem_append.mp hf with hf | hf
    · exact hrefused f hf hend
    · obtain rfl := List.mem_singleton.mp hf
      rfl
  · simpa [Ending.admitted] using honce

theorem QuietSince.move (hmove : Move sha256 t t') (h : QuietSince s t) : QuietSince s t' := by
  have latched {t₁ : LLMGateway α} (heq : t₁.health.deterministicOnly = t.health.deterministicOnly)
      (htasks : t₁.tasks = t.tasks) (hfinished : t₁.finished = t.finished) : QuietSince s t₁ :=
    h.quiet (heq.trans h.latched) (by simp [htasks]) hfinished
  cases hmove with
  | begun task call hidle hlatched => simp [h.latched] at hlatched
  | refused task call hidle hlatched => exact h.refused call hidle
  | checked | learnt | saved => exact latched rfl rfl rfl
  | probed task c strategy hc hphase => exact h.put hc rfl rfl rfl rfl
  | served task c strategy a hc hphase hread hcached => exact h.finish rfl rfl hc rfl rfl h.latched
  | entered task c strategy hc hphase =>
    exact h.put hc rfl rfl rfl rfl
  | resumed task c req hc hphase hwoken =>
    exact h.put hc rfl rfl rfl rfl
  | answered now task c req attempt chat written hc hphase =>
    unfold LLMGateway.answered
    dsimp only
    split
    · refine h.finish rfl rfl hc rfl rfl ?_
      simp [LLMGateway.finish, LLMHealth.onUnparsed, LLMHealth.onSuccess, h.latched]
    · exact h.finish rfl rfl hc rfl rfl h.latched
  | failed task c req attempt outcome error hc hphase houtcome =>
    unfold failedWith
    dsimp only
    split_ifs
    · exact h.finish rfl rfl hc rfl rfl h.latched
    · exact h.put hc rfl rfl rfl rfl
  | exhausted task c req attempt error hc hphase => exact h.finish rfl rfl hc rfl rfl h.latched
  | slept task c req attempt hc hphase => exact h.put hc rfl rfl rfl rfl
  | aborted task c hc =>
    unfold LLMGateway.aborted
    split <;> exact h.finish rfl rfl hc rfl rfl h.latched

/-- **A model that is given up is left alone**: until the process is restarted it stays given up, and only the calls
that were under way go on, each to its end and none twice; every other call is turned away without an attempt. -/
theorem quiet_once_given_up (sha256 : List Char → String) (s : LLMGateway α)
    (hlatched : s.health.deterministicOnly = true) (events : List (ℚ × Event α))
    (hevents : ∀ e ∈ events, ∀ settings, e.2 ≠ .restarted settings) :
    Trace.Always (step sha256) (QuietSince s) s events :=
  Trace.always_of_inductive (fun _ _ h hevent => kept_by_moves sha256 QuietSince.move hevent h) (fun _ h => h)
    (quietSince_self hlatched) (Trace.each_of_forall fun e he _ => hevents e he)

def zeroNumber : Number := ⟨['0'], rfl⟩

def glance : ModelCall Unit where
  role := "market_read"
  cycleId := "c7"
  model := "qwen3"
  system := ""
  user := "What has changed?"
  schema := []
  modelValidate := fun _ => .ok ()
  modelDump := fun _ => []
  temperature := zeroNumber
  numCtx := zeroNumber
  numPredict := zeroNumber
  seed := none
  keepAlive := "5m"
  timeout := zeroNumber
  think := none

/-- The first call times out once. While its second attempt is made, the second call gets a reply without an object,
and that is one too many. -/
def givenUp : LLMGateway Unit :=
  Trace.run (step fun _ => "")
    (start { providerName := "ollama", host := "http://localhost:11434", maxConcurrent := 2, maxSchemaFailures := 1 })
    [(0, .called 1 glance), (1, .probed 1 [] fun _ => none), (2, .shown 1 [] true), (182, .attempted 1 .timedOut {}),
      (183, .called 2 glance), (184, .slept 1), (185, .attempted 2 (.answered fun _ => {}) {})]

theorem quiet_once_given_up_glance :
    Trace.Always (step fun _ => "") (QuietSince givenUp) givenUp
      [(190, .called 3 glance), (364, .attempted 1 .timedOut {}), (366, .slept 1), (367, .called 1 glance)] :=
  quiet_once_given_up (fun _ => "") givenUp (by decide +kernel) _ (by simp)

end LLMGateway

end AiTrader
