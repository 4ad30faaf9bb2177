import AiTrader.Llm.Gateway

/-!
# How many calls are past the semaphore

The provider's account allows so many concurrent calls, and a semaphore with as many permits stands before the
attempts. In every interleaving of calls, pauses, cancellations and restarts no more calls than that are past it, and
none waits while a permit is free: the permits are all in use, or one is on its way to a call that waits
(`load_bounded`).

A call that still has to find out how to ask the model talks to the provider before that: `negotiate_strategy` and
`show` run outside of the semaphore, and any number of calls may be there at a time.

The invariant ties the semaphore's lists to the phases of the calls: a call holds a permit exactly while it is past
the semaphore, and waits exactly while it is queued. A move changes the phase of one call and what the semaphore knows
of it (`LoadInv.change`), or happens where the semaphore does not look (`LoadInv.aside`). The bound and the absence of
lost wake-ups are then facts about the semaphore alone.
-/

namespace AiTrader

open Lib

namespace LLMGateway

variable {α : Type} {sha256 : List Char → String} {s s' : LLMGateway α}

/-- The call is past the semaphore: it is at the provider, or pauses between two attempts. -/
def PastSemaphore (s : LLMGateway α) (task : ℕ) : Prop := ∃ t, s.tasks task = some t ∧ t.phase.holds = true

/-- The call waits for a permit. -/
def Waits (s : LLMGateway α) (task : ℕ) : Prop := ∃ t, s.tasks task = some t ∧ t.phase.waits = true

/-- The semaphore knows where the calls are. -/
structure LoadInv (s : LLMGateway α) : Prop where
  sound : s.sem.Sound s.settings.maxConcurrent
  holders : ∀ task, task ∈ s.sem.holders ↔ s.PastSemaphore task
  waiting : ∀ task, task ∈ s.sem.waiting ↔ s.Waits task

theorem loadInv_start (settings : GatewaySettings) : LoadInv (start settings : LLMGateway α) where
  sound := Semaphore.Sound.fresh _
  holders _ := by simp [start, PastSemaphore]
  waiting _ := by simp [start, Semaphore.waiting, Waits]

theorem LoadInv.change (h : LoadInv s) (task : ℕ) (hsound : s'.sem.Sound s'.settings.maxConcurrent)
    (hothers : ∀ other ≠ task, s'.tasks other = s.tasks other ∧
      (other ∈ s'.sem.holders ↔ other ∈ s.sem.holders) ∧ (other ∈ s'.sem.waiting ↔ other ∈ s.sem.waiting))
    (hholds : task ∈ s'.sem.holders ↔ s'.PastSemaphore task) (hwaits : task ∈ s'.sem.waiting ↔ s'.Waits task) :
    LoadInv s' := by
  refine ⟨hsound, fun other => ?_, fun other => ?_⟩
  · by_cases heq : other = task
    · rw [heq, hholds]
    · obtain ⟨htasks, hholders, -⟩ := hothers other heq
      rw [hholders, h.holders, PastSemaphore, PastSemaphore, htasks]
  · by_cases heq : other = task
    · rw [heq, hwaits]
    · obtain ⟨htasks, -, hwaiting⟩ := hothers other heq
      rw [hwaiting, h.waiting, Waits, Waits, htasks]

theorem pastSemaphore_iff {task : ℕ} {t : CallTask α} (ht : s.tasks task = some t) :
    s.PastSemaphore task ↔ t.phase.holds = true := by
  simp [PastSemaphore, ht]

theorem waits_iff {task : ℕ} {t : CallTask α} (ht : s.tasks task = some t) : s.Waits task ↔ t.phase.waits = true := by
  simp [Waits, ht]

theorem not_pastSemaphore {task : ℕ} (ht : s.tasks task = none) : ¬ s.PastSemaphore task := by
  simp [PastSemaphore, ht]

theorem not_waits {task : ℕ} (ht : s.tasks task = none) : ¬ s.Waits task := by
  simp [Waits, ht]

theorem LoadInv.aside (h : LoadInv s) {task : ℕ} {t : Option (CallTask α)} (hsem : s'.sem = s.sem)
    (hsettings : s'.settings = s.settings) (htasks : s'.tasks = Function.update s.tasks task t)
    (hholds : s.PastSemaphore task ↔ s'.PastSemaphore task) (hwaits : s.Waits task ↔ s'.Waits task) : LoadInv s' := by
  refine h.change task (by rw [hsem, hsettings]; exact h.sound) (fun other hne => ⟨?_, ?_, ?_⟩) ?_ ?_
  · simp [htasks, hne]
  · rw [hsem]
  · rw [hsem]
  · rw [hsem, h.holders, hholds]
  · rw [hsem, h.waiting, hwaits]

theorem aside_of_outside {task : ℕ} {t : CallTask α} (ht : s.tasks task = some t) (hphase : t.phase.outside = true) :
    ¬ s.PastSemaphore task ∧ ¬ s.Waits task := by
  rw [pastSemaphore_iff ht, waits_iff ht]
  cases hp : t.phase <;> simp_all [Phase.outside, Phase.holds, Phase.waits]

theorem LoadInv.entered (h : LoadInv s) {task : ℕ} {t : CallTask α} (ht : s.tasks task = some t)
    (hphase : t.phase.outside = true) (call : ModelCall α) (req : LLMRequest) : LoadInv (s.enter task call req) := by
  have hneither := aside_of_outside ht hphase
  have hholders : task ∉ s.sem.holders := by simp [h.holders, hneither]
  have hwaiting : task ∉ s.sem.waiting := by simp [h.waiting, hneither]
  have hfresh : task ∉ s.sem.tasks := by simp [Semaphore.tasks, hholders, hwaiting]
  have hsound := h.sound.acquire hfresh
  have hself : (s.enter task call req).tasks task =
      some ⟨call, if task ∈ (s.sem.acquire task).holders then .attempting req 0 else .queued req, []⟩ :=
    tasks_put_self _ task _
  refine h.change task hsound (fun other hne => ⟨tasks_put_ne _ hne _, ?_, ?_⟩) ?_ ?_
  · exact Semaphore.mem_holders_acquire.trans (by simp [hne])
  · exact Semaphore.mem_waiting_acquire.trans (by simp [hne])
  · rw [pastSemaphore_iff hself]
    show task ∈ (s.sem.acquire task).holders ↔ _
    by_cases hmem : task ∈ (s.sem.acquire task).holders <;> simp [hmem, Phase.holds]
  · rw [waits_iff hself]
    show task ∈ (s.sem.acquire task).waiting ↔ _
    rw [Semaphore.mem_waiting_acquire]
    have hmem : task ∈ (s.sem.acquire task).holders ↔ s.sem.locked = false := by
      simp [Semaphore.mem_holders_acquire, hholders]
    cases hlocked : s.sem.locked <;> simp [hmem, hlocked, hwaiting, Phase.waits]

theorem LoadInv.released (h : LoadInv s) {task : ℕ} (hholds : s.PastSemaphore task)
    (htasks : s'.tasks = Function.update s.tasks task none) (hsem : s'.sem = s.sem.release task)
    (hsettings : s'.settings = s.settings) : LoadInv s' := by
  obtain ⟨t, ht, hphase⟩ := hholds
  have hwaiting : task ∉ s.sem.waiting := by
    rw [h.waiting, waits_iff ht]
    cases hp : t.phase <;> simp_all [Phase.holds, Phase.waits]
  have hself : s'.tasks task = none := by simp [htasks]
  refine h.change task (by rw [hsem, hsettings]; exact h.sound.release) (fun other hne => ⟨?_, ?_, ?_⟩) ?_ ?_
  · simp [htasks, hne]
  · simp [hsem, Semaphore.mem_holders_release, hne]
  · rw [hsem, Semaphore.waiting_release]
  · simp [hsem, Semaphore.mem_holders_release, not_pastSemaphore hself]
  · simp [hsem, Semaphore.waiting_release, hwaiting, not_waits hself]

theorem LoadInv.resumed (h : LoadInv s) {task : ℕ} (t : CallTask α) (req : LLMRequest)
    (hwoken : s.sem.woken task = true) :
    LoadInv ({ s with sem := s.sem.resume task }.put task { t with phase := .attempting req 0 }) := by
  refine h.change task (h.sound.resume hwoken) (fun other hne => ⟨tasks_put_ne _ hne _, ?_, ?_⟩) ?_ ?_
  · show other ∈ (s.sem.resume task).holders ↔ _
    simp [Semaphore.holders_resume hwoken, hne]
  · show other ∈ (s.sem.resume task).waiting ↔ _
    simp [Semaphore.mem_waiting_resume hwoken, hne]
  · rw [pastSemaphore_iff (tasks_put_self _ task _)]
    show task ∈ (s.sem.resume task).holders ↔ _
    simp [Semaphore.holders_resume hwoken, Phase.holds]
  · rw [waits_iff (tasks_put_self _ task _)]
    show task ∈ (s.sem.resume task).waiting ↔ _
    simp [Semaphore.mem_waiting_resume hwoken, Phase.waits]

theorem LoadInv.aborted (h : LoadInv s) {task : ℕ} {t : CallTask α} (ht : s.tasks task = some t) :
    LoadInv (s.aborted task t) := by
  have houtside : t.phase.outside = true → LoadInv (s.finish task t.call t.attempts .raised) := by
    intro hphase
    have hbefore := aside_of_outside ht hphase
    have hself := tasks_finish_self s task t.call t.attempts .raised true
    exact h.aside rfl rfl rfl (iff_of_false hbefore.1 (not_pastSemaphore hself))
      (iff_of_false hbefore.2 (not_waits hself))
  unfold LLMGateway.aborted
  cases hphase : t.phase with
  | probing | showing => exact houtside (by simp [hphase, Phase.outside])
  | queued req =>
    have hself := tasks_finish_self { s with sem := s.sem.cancel task } task t.call t.attempts .raised true
    have hholders : task ∉ s.sem.holders := by simp [h.holders, pastSemaphore_iff ht, hphase, Phase.holds]
    refine h.change task (h.sound.cancel task) (fun other hne => ⟨tasks_finish_ne _ hne .., ?_, ?_⟩) ?_ ?_
    · show other ∈ (s.sem.cancel task).holders ↔ _
      rw [Semaphore.holders_cancel]
    · show other ∈ (s.sem.cancel task).waiting ↔ _
      simp [Semaphore.mem_waiting_cancel, hne]
    · refine iff_of_false ?_ (not_pastSemaphore hself)
      show task ∉ (s.sem.cancel task).holders
      rwa [Semaphore.holders_cancel]
    · refine iff_of_false ?_ (not_waits hself)
      show task ∉ (s.sem.cancel task).waiting
      simp [Semaphore.mem_waiting_cancel]
  | attempting | sleeping =>
    exact h.released ((pastSemaphore_iff ht).mpr (by simp [hphase, Phase.holds])) rfl rfl rfl

theorem LoadInv.move (hmove : Move sha256 s s') (h : LoadInv s) : LoadInv s' := by
  cases hmove with
  | checked | learnt | saved => exact ⟨h.sound, h.holders, h.waiting⟩
  | refused task call hidle hlatched =>
    have hself := tasks_finish_self s task call [] .refused true
    exact h.aside rfl rfl rfl (iff_of_false (not_pastSemaphore hidle) (not_pastSemaphore hself))
      (iff_of_false (not_waits hidle) (not_waits hself))
  | begun task call hidle hlatched =>
    have hself := aside_of_outside (tasks_put_self s task { call, phase := .probing }) rfl
    exact h.aside rfl rfl rfl (iff_of_false (not_pastSemaphore hidle) hself.1)
      (iff_of_false (not_waits hidle) hself.2)
  | probed task t strategy ht hphase =>
    have hbefore := aside_of_outside ht (by simp [hphase, Phase.outside])
    have hself := aside_of_outside (tasks_put_self s task { t with phase := .showing strategy }) rfl
    exact h.aside rfl rfl rfl (iff_of_false hbefore.1 hself.1) (iff_of_false hbefore.2 hself.2)
  | served task t strategy a ht hphase hread hcached =>
    have hbefore := aside_of_outside ht hphase
    have hself := tasks_finish_self s task t.call [] (.cached (t.call.request strategy) a) true
    exact h.aside rfl rfl rfl (iff_of_false hbefore.1 (not_pastSemaphore hself))
      (iff_of_false hbefore.2 (not_waits hself))
  | entered task t strategy ht hphase => exact h.entered ht hphase t.call _
  | resumed task t req ht hphase hwoken => exact h.resumed t req hwoken
  | answered now task t req attempt chat written ht hphase =>
    have hholds : s.PastSemaphore task := (pastSemaphore_iff ht).mpr (by simp [hphase, Phase.holds])
    unfold LLMGateway.answered
    dsimp only
    split <;> exact h.released hholds rfl rfl rfl
  | failed task t req attempt outcome error ht hphase houtcome =>
    have hholds : s.PastSemaphore task := (pastSemaphore_iff ht).mpr (by simp [hphase, Phase.holds])
    unfold failedWith
    dsimp only
    split_ifs
    · exact h.released hholds rfl rfl rfl
    · refine h.aside rfl rfl rfl (iff_of_true hholds ?_) (iff_of_false ?_ ?_)
      · exact (pastSemaphore_iff (tasks_put_self _ task _)).mpr rfl
      · simp [waits_iff ht, hphase, Phase.waits]
      · rw [waits_iff (tasks_put_self _ task _)]
        simp [Phase.waits]
  | exhausted task t req attempt error ht hphase =>
    exact h.released ((pastSemaphore_iff ht).mpr (by simp [hphase, Phase.holds])) rfl rfl rfl
  | slept task t req attempt ht hphase =>
    refine h.aside rfl rfl rfl ?_ ?_
    · rw [pastSemaphore_iff ht, pastSemaphore_iff (tasks_put_self s task _), hphase]
      simp [Phase.holds]
    · rw [waits_iff ht, waits_iff (tasks_put_self s task _), hphase]
      simp [Phase.waits]
  | aborted task t ht => exact h.aborted ht

theorem LoadInv.restart (settings : GatewaySettings) : LoadInv (s.restart settings) := by
  have hstart := @loadInv_start α settings
  exact ⟨hstart.sound, hstart.holders, hstart.waiting⟩

/-- **How many calls are past the semaphore**: in every interleaving never more than the account allows; and where a
call waits, all permits are in use, or one is on its way. -/
theorem load_bounded (sha256 : List Char → String) (settings : GatewaySettings) (events : List (ℚ × Event α)) :
    Trace.Always (step sha256)
      (fun s =>
        (∀ tasks : List ℕ, tasks.Nodup → (∀ task ∈ tasks, s.PastSemaphore task) →
          tasks.length ≤ s.settings.maxConcurrent) ∧
        ((∃ task, s.Waits task) →
          (∃ tasks : List ℕ, tasks.Nodup ∧ (∀ task ∈ tasks, s.PastSemaphore task) ∧
              tasks.length = s.settings.maxConcurrent) ∨
            ∃ task, s.Waits task ∧ s.sem.woken task = true))
      (start settings) events := by
  refine always_of_moves sha256 (fun hmove h => LoadInv.move hmove h) (fun s settings _ => LoadInv.restart settings)
    (fun s h => ⟨fun tasks hnodup hall => ?_, ?_⟩) (loadInv_start settings) events
  · have hsubset : tasks ⊆ s.sem.holders := fun task hmem => (h.holders task).mpr (hall task hmem)
    exact (List.subperm_of_subset hnodup hsubset).length_le.trans h.sound.length_holders_le
  · rintro ⟨task, hwaits⟩
    have hmem := (h.waiting task).mpr hwaits
    rcases h.sound.busy (by rintro hnil; simp [Semaphore.waiting, hnil] at hmem) with hfull | hgranted
    · exact Or.inl ⟨s.sem.holders, h.sound.nodup.of_append_left, fun t ht => (h.holders t).mp ht, hfull⟩
    · obtain ⟨w, hw, hwoken⟩ := List.countP_pos_iff.mp hgranted
      have hmem : w.task ∈ s.sem.waiting := List.mem_map_of_mem hw
      refine Or.inr ⟨w.task, (h.waiting _).mp hmem, List.any_eq_true.mpr ⟨w, hw, by simp [hwoken]⟩⟩

end LLMGateway

end AiTrader
