import AiTrader.Agents.Boundary
import AiTrader.Llm.Gateway

/-!
# Calls side by side

Whatever the other calls do, a call returns what it would return if it were alone: the value that the loop of
`complete` makes of the outcomes of its own attempts (`returns_alone`). So what is proved of one call at a time holds of
calls that run side by side.

The invariant goes with the call from its first await to its end: the attempts it has made so far have failed, one for
each round of the loop, and its request is the one it began with. The outcome that ends it is therefore the one at
which the sequential loop stops, if the provider answers the attempts as they were answered (`providerOf`). No other
call appears in the invariant; what they share, the semaphore and the counters, decides when an attempt is made and
not what it returns.
-/

namespace AiTrader

open Lib

/-- The attempt failed, and another may follow. -/
def Outcome.failing : Outcome → Bool
  | failed _ | timedOut => true
  | answered _ | quotaExhausted _ => false

/-- What the loop of `complete` sees of an outcome. -/
def Outcome.attempt : Outcome → LLMGateway.Attempt
  | answered chat => .answered fun messages => (chat messages).toLLMResponse
  | failed _ | timedOut => .failed
  | quotaExhausted _ => .quotaExhausted

/-- The structured caller's conversation, with what the provider answers. Its messages are the same under every
strategy. -/
def ModelCall.ask {α : Type} (call : ModelCall α) (chat : List Message → LLMResponse) : Called α :=
  StructuredCaller.call call.modelValidate chat (call.request .textExtract).messages true

/-- The call was refused before it began. -/
def Ending.isRefused {α : Type} : Ending α → Bool
  | refused => true
  | cached _ _ | parsed _ _ | unparsed _ | gaveUp | raised => false

namespace LLMGateway

variable {α : Type} {sha256 : List Char → String} {s s' : LLMGateway α}

/-- The provider as a call met it. -/
def providerOf (attempts : List Outcome) (n : ℕ) : Attempt := (attempts[n]?).elim .failed Outcome.attempt

theorem converse_eq_ask (call : ModelCall α) (strategy : StructuredStrategy) (chat : List Message → ChatReply) :
    converse call (call.request strategy) chat = call.ask fun messages => (chat messages).toLLMResponse :=
  rfl

/-! ### The loop on its own -/

theorem providerOf_failing {attempts : List Outcome} (h : ∀ o ∈ attempts, o.failing = true) (last : List Outcome)
    {n : ℕ} (hn : n < attempts.length) : providerOf (attempts ++ last) n = .failed := by
  have ho := h attempts[n] (List.getElem_mem hn)
  rw [providerOf, List.getElem?_append_left hn, List.getElem?_eq_getElem hn, Option.elim_some]
  cases hcase : attempts[n] <;> simp_all [Outcome.failing, Outcome.attempt]

theorem providerOf_last (attempts : List Outcome) (o : Outcome) :
    providerOf (attempts ++ [o]) attempts.length = o.attempt := by
  simp [providerOf]

theorem answerFrom_add {provider : ℕ → Attempt} {first count : ℕ}
    (h : ∀ n, first ≤ n → n < first + count → provider n = .failed) (left : ℕ) :
    answerFrom provider first (count + left) = answerFrom provider (first + count) left := by
  induction count generalizing first with
  | zero => simp
  | succ count ih =>
    have hhead : provider first = .failed := h first (Nat.le_refl _) (by omega)
    rw [Nat.succ_add, answerFrom, hhead]
    simp only
    rw [ih fun n hle hlt => h n (by omega) (by omega), Nat.add_assoc, Nat.add_comm 1]

theorem answerFrom_providerOf {attempts : List Outcome} (h : ∀ o ∈ attempts, o.failing = true) (last : List Outcome)
    (budget : ℕ) (hbudget : attempts.length ≤ budget) :
    answerFrom (providerOf (attempts ++ last)) 0 budget =
      answerFrom (providerOf (attempts ++ last)) attempts.length (budget - attempts.length) := by
  have hfailed : ∀ n, 0 ≤ n → n < 0 + attempts.length → providerOf (attempts ++ last) n = .failed :=
    fun n _ hlt => providerOf_failing h last (by omega)
  have hadd := answerFrom_add hfailed (budget - attempts.length)
  rwa [Nat.add_sub_cancel' hbudget, Nat.zero_add] at hadd

theorem answerFrom_last {failing : List Outcome} (h : ∀ o ∈ failing, o.failing = true) (o : Outcome) (budget : ℕ)
    (hbudget : failing.length + 1 ≤ budget) :
    (∀ chat, o = .answered chat → answerFrom (providerOf (failing ++ [o])) 0 budget =
        some fun messages => (chat messages).toLLMResponse) ∧
      (∀ error, o = .quotaExhausted error → answerFrom (providerOf (failing ++ [o])) 0 budget = none) := by
  have hfrom := answerFrom_providerOf h [o] budget (by omega)
  obtain ⟨left, hleft⟩ : ∃ left, budget - failing.length = left + 1 := ⟨budget - failing.length - 1, by omega⟩
  rw [hfrom, hleft]
  constructor
  · rintro chat rfl
    simp [answerFrom, providerOf_last, Outcome.attempt]
  · rintro error rfl
    simp [answerFrom, providerOf_last, Outcome.attempt]

/-! ### The calls -/

/-- The attempts of a call that is under way: they all failed, and there is room for what comes next. -/
def UnderWay (settings : GatewaySettings) (t : CallTask α) : Prop :=
  (∀ o ∈ t.attempts, o.failing = true) ∧
    match t.phase with
    | .probing | .showing _ => t.attempts = []
    | .queued req => t.attempts = [] ∧ ∃ strategy, req = t.call.request strategy
    | .attempting req n => t.attempts.length = n ∧ n ≤ settings.maxRetries ∧ ∃ strategy, req = t.call.request strategy
    | .sleeping req n =>
      t.attempts.length = n + 1 ∧ n < settings.maxRetries ∧ ∃ strategy, req = t.call.request strategy

/-- The attempts of a call that has ended, and how it ended. -/
def Concluded (f : Finished α) : Prop :=
  f.attempts.length ≤ f.settings.maxRetries + 1 ∧
    match f.ending with
    | .refused => f.attempts = []
    | .cached _ _ => f.settings.cacheReadEnabled = true
    | .parsed req a => ∃ strategy failing chat, req = f.call.request strategy ∧
        f.attempts = failing ++ [.answered chat] ∧ (∀ o ∈ failing, o.failing = true) ∧
          (converse f.call req chat).parsed = some a
    | .unparsed req => ∃ strategy failing chat, req = f.call.request strategy ∧
        f.attempts = failing ++ [.answered chat] ∧ (∀ o ∈ failing, o.failing = true) ∧
          (converse f.call req chat).parsed = none
    | .gaveUp => (∃ failing error, f.attempts = failing ++ [.quotaExhausted error] ∧
          ∀ o ∈ failing, o.failing = true) ∨
        f.attempts.length = f.settings.maxRetries + 1 ∧ ∀ o ∈ f.attempts, o.failing = true
    | .raised => True

structure AttemptsInv (s : LLMGateway α) : Prop where
  underWay : ∀ task t, s.tasks task = some t → UnderWay s.settings t
  concluded : ∀ f ∈ s.ended, Concluded f

theorem attemptsInv_start (settings : GatewaySettings) : AttemptsInv (start settings : LLMGateway α) where
  underWay task t ht := by simp [start] at ht
  concluded f hf := by simp [start, ended] at hf

theorem AttemptsInv.put (h : AttemptsInv s) (hsettings : s'.settings = s.settings)
    (hended : s'.ended = s.ended) {task : ℕ} {t : CallTask α}
    (htasks : s'.tasks = Function.update s.tasks task (some t)) (ht : UnderWay s.settings t) : AttemptsInv s' := by
  refine ⟨fun other t' ht' => ?_, by rw [hended]; exact h.concluded⟩
  rw [hsettings]
  rw [htasks] at ht'
  by_cases heq : other = task
  · subst heq
    rw [Function.update_self, Option.some.injEq] at ht'
    exact ht' ▸ ht
  · rw [Function.update_of_ne heq] at ht'
    exact h.underWay other t' ht'

theorem AttemptsInv.finish (h : AttemptsInv s) (hsettings : s'.settings = s.settings) {f : Finished α}
    (hended : s'.ended = s.ended ++ [f]) (htasks : s'.tasks = Function.update s.tasks f.task none)
    (hf : Concluded f) : AttemptsInv s' := by
  refine ⟨fun other t' ht' => ?_, fun g hg => ?_⟩
  · rw [htasks] at ht'
    rw [hsettings]
    by_cases heq : other = f.task
    · subst heq
      rw [Function.update_self] at ht'
      cases ht'
    · rw [Function.update_of_ne heq] at ht'
      exact h.underWay other t' ht'
  · rw [hended] at hg
    rcases List.mem_append.mp hg with hg | hg
    · exact h.concluded g hg
    · rw [List.mem_singleton.mp hg]
      exact hf

theorem UnderWay.length_concat {settings : GatewaySettings} {t : CallTask α} {req : LLMRequest} {n : ℕ}
    (h : UnderWay settings t) (hphase : t.phase = .attempting req n) (o : Outcome) :
    (t.attempts ++ [o]).length ≤ settings.maxRetries + 1 := by
  have hattempt := h.2
  rw [hphase] at hattempt
  simp only [List.length_append, List.length_singleton]
  omega

theorem UnderWay.length_le {settings : GatewaySettings} {t : CallTask α} (h : UnderWay settings t) :
    t.attempts.length ≤ settings.maxRetries + 1 := by
  obtain ⟨-, hphase⟩ := h
  cases hcase : t.phase with
  | probing | showing =>
    rw [hcase] at hphase
    simp [show t.attempts = [] from hphase]
  | queued req =>
    rw [hcase] at hphase
    simp [hphase.1]
  | attempting req n =>
    rw [hcase] at hphase
    have hle := hphase.2.1
    have hcount := hphase.1
    omega
  | sleeping req n =>
    rw [hcase] at hphase
    have hlt := hphase.2.1
    have hcount := hphase.1
    omega

theorem AttemptsInv.answered (h : AttemptsInv s) {now : ℚ} {task : ℕ} {t : CallTask α} {req : LLMRequest} {n : ℕ}
    (ht : s.tasks task = some t) (hphase : t.phase = .attempting req n) (chat : List Message → ChatReply)
    (written : Writes) : AttemptsInv (s.answered sha256 now task t req chat written) := by
  have hunder := h.underWay task t ht
  have hlength := hunder.length_concat hphase (.answered chat)
  have hattempt := hunder.2
  rw [hphase] at hattempt
  obtain ⟨-, -, strategy, hreq⟩ := hattempt
  unfold LLMGateway.answered
  dsimp only
  split
  · rename_i hparsed
    exact h.finish rfl (ended_finish ..) rfl ⟨hlength, strategy, t.attempts, chat, hreq, rfl, hunder.1, hparsed⟩
  · rename_i a hparsed
    exact h.finish rfl (ended_finish ..) rfl ⟨hlength, strategy, t.attempts, chat, hreq, rfl, hunder.1, hparsed⟩

theorem AttemptsInv.failed (h : AttemptsInv s) {task : ℕ} {t : CallTask α} {req : LLMRequest} {n : ℕ}
    {outcome : Outcome} (ht : s.tasks task = some t) (hphase : t.phase = .attempting req n)
    (houtcome : outcome.failing = true) (error : String) :
    AttemptsInv (s.failedWith task t req n outcome error) := by
  have hunder := h.underWay task t ht
  have hlength := hunder.length_concat hphase outcome
  have hattempt := hunder.2
  rw [hphase] at hattempt
  obtain ⟨hcount, hle, hreq⟩ := hattempt
  have hfailing : ∀ o ∈ t.attempts ++ [outcome], o.failing = true := by
    intro o ho
    rcases List.mem_append.mp ho with ho | ho
    · exact hunder.1 o ho
    · rw [List.mem_singleton.mp ho]
      exact houtcome
  unfold failedWith
  dsimp only
  split_ifs with hlast
  · refine h.finish rfl (ended_finish ..) rfl ⟨hlength, Or.inr ⟨?_, hfailing⟩⟩
    simp only [List.length_append, List.length_singleton] at hlength ⊢
    omega
  · refine h.put rfl rfl rfl ⟨hfailing, ?_, by omega, hreq⟩
    simp [hcount]

theorem AttemptsInv.move (hmove : Move sha256 s s') (h : AttemptsInv s) : AttemptsInv s' := by
  cases hmove with
  | checked | learnt | saved => exact ⟨h.underWay, h.concluded⟩
  | refused task call hidle hlatched => exact h.finish rfl (ended_finish ..) rfl ⟨by simp, rfl⟩
  | begun task call hidle hlatched => exact h.put rfl rfl rfl ⟨by simp, rfl⟩
  | probed task t strategy ht hphase =>
    have hunder := h.underWay task t ht
    have hnone := hunder.2
    rw [hphase] at hnone
    exact h.put rfl rfl rfl ⟨hunder.1, hnone⟩
  | served task t strategy a ht hphase hread hcached => exact h.finish rfl (ended_finish ..) rfl ⟨by simp, hread⟩
  | entered task t strategy ht hphase =>
    refine h.put rfl rfl rfl ⟨by simp, ?_⟩
    split_ifs
    · exact ⟨rfl, Nat.zero_le _, strategy, rfl⟩
    · exact ⟨rfl, strategy, rfl⟩
  | resumed task t req ht hphase hwoken =>
    have hunder := h.underWay task t ht
    have hqueued := hunder.2
    rw [hphase] at hqueued
    exact h.put rfl rfl rfl ⟨hunder.1, by simp [hqueued.1], Nat.zero_le _, hqueued.2⟩
  | answered now task t req attempt chat written ht hphase => exact h.answered ht hphase chat written
  | failed task t req attempt outcome error ht hphase houtcome =>
    exact h.failed ht hphase (by rcases houtcome with rfl | rfl <;> rfl) error
  | exhausted task t req attempt error ht hphase =>
    have hunder := h.underWay task t ht
    exact h.finish rfl (ended_finish ..) rfl ⟨hunder.length_concat hphase _, Or.inl ⟨t.attempts, error, rfl, hunder.1⟩⟩
  | slept task t req attempt ht hphase =>
    have hunder := h.underWay task t ht
    have hsleeping := hunder.2
    rw [hphase] at hsleeping
    exact h.put rfl rfl rfl ⟨hunder.1, hsleeping.1, hsleeping.2.1, hsleeping.2.2⟩
  | aborted task t ht =>
    have hraised : Concluded ⟨task, t.call, t.attempts, .raised, s.settings, true⟩ :=
      ⟨(h.underWay task t ht).length_le, trivial⟩
    unfold LLMGateway.aborted
    split <;> exact h.finish rfl (ended_finish ..) rfl hraised

theorem AttemptsInv.restart (h : AttemptsInv s) (settings : GatewaySettings) : AttemptsInv (s.restart settings) := by
  refine ⟨(@attemptsInv_start α settings).underWay, ?_⟩
  rw [ended_restart]
  exact h.concluded

/-- What a call that has ended returns is what it would have returned alone. -/
theorem Concluded.alone {f : Finished α} (h : Concluded f)
    (hlive : f.settings.cacheReadEnabled = false) (hended : f.ending ≠ .raised) :
    f.ending.result =
      complete f.ending.isRefused f.settings.maxRetries (providerOf f.attempts) f.call.ask := by
  obtain ⟨hlength, hending⟩ := h
  -- the attempt that is answered, after those that failed
  have hanswered : ∀ {strategy failing chat}, f.attempts = failing ++ [.answered chat] →
      (∀ o ∈ failing, o.failing = true) →
        complete false f.settings.maxRetries (providerOf f.attempts) f.call.ask =
          (converse f.call (f.call.request strategy) chat).parsed := by
    intro strategy failing chat hattempts hfailing
    rw [hattempts, List.length_append, List.length_singleton] at hlength
    have hlast := (answerFrom_last hfailing (.answered chat) (f.settings.maxRetries + 1) hlength).1 chat rfl
    rw [complete, if_neg Bool.false_ne_true, hattempts, hlast, converse_eq_ask]
    rfl
  cases hcase : f.ending with
  | refused => simp [Ending.result, Ending.isRefused, complete]
  | cached req a =>
    rw [hcase] at hending
    rw [hlive] at hending
    cases hending
  | parsed req a =>
    rw [hcase] at hending
    obtain ⟨strategy, failing, chat, rfl, hattempts, hfailing, hparsed⟩ := hending
    rw [Ending.isRefused, hanswered hattempts hfailing, hparsed]
    rfl
  | unparsed req =>
    rw [hcase] at hending
    obtain ⟨strategy, failing, chat, rfl, hattempts, hfailing, hparsed⟩ := hending
    rw [Ending.isRefused, hanswered hattempts hfailing, hparsed]
    rfl
  | gaveUp =>
    rw [hcase] at hending
    rw [Ending.isRefused, complete, if_neg Bool.false_ne_true]
    rcases hending with ⟨failing, error, hattempts, hfailing⟩ | ⟨hall, hfailing⟩
    · rw [hattempts, List.length_append, List.length_singleton] at hlength
      have hlast := (answerFrom_last hfailing (.quotaExhausted error) (f.settings.maxRetries + 1) hlength).2 error rfl
      rw [hattempts, hlast]
      rfl
    · have hfrom := answerFrom_providerOf hfailing [] (f.settings.maxRetries + 1) (by omega)
      rw [hall, Nat.sub_self, List.append_nil] at hfrom
      rw [hfrom]
      rfl
  | raised => exact absurd hcase hended

/-- **Every call returns what it would return alone**, in every interleaving with other calls: the value that the loop
makes of its own attempts, of which it makes no more than it is allowed. Only a call that was refused is not made. -/
theorem returns_alone (sha256 : List Char → String) (settings : GatewaySettings) (events : List (ℚ × Event α)) :
    Trace.Always (step sha256)
      (fun s => ∀ f ∈ s.ended, f.attempts.length ≤ f.settings.maxRetries + 1 ∧
        (f.settings.cacheReadEnabled = false → f.ending ≠ .raised →
          f.ending.result =
            complete f.ending.isRefused f.settings.maxRetries (providerOf f.attempts) f.call.ask))
      (start settings) events :=
  always_of_moves sha256 AttemptsInv.move (fun _ settings h => h.restart settings)
    (fun _ h f hf => ⟨(h.concluded f hf).1, (h.concluded f hf).alone⟩) (attemptsInv_start settings) events

end LLMGateway

end AiTrader
