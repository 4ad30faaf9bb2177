import Mathlib.Data.List.Nodup
import Mathlib.Logic.Function.Iterate

/-!
# A counting semaphore

Tasks that find no free permit wait in the order in which they came. A permit that is given back goes to the first
of them that is still asleep. That task is woken, and until it runs it waits with its permit: the permit counts
neither as free nor as held, and a newcomer queues behind the task.

`Sound permits s` is what the operations keep: no permit is lost or made (`conserved`), no task waits while a
permit is free, unless one is about to run and hand it on (`eager`), and no task is in the semaphore twice.

Waking is a loop in the source: as long as a permit is free and a task asleep, the first such task is woken. After it,
either no permit is free or nobody is asleep (`wakeIfFree_iterate`), which is `eager`. Every operation ends with this
loop, so each proof shows that the permits are counted correctly before it and leaves the rest to `Sound.wakeAll`.
-/

namespace Lib

structure Waiter (ι : Type) where
  task : ι
  woken : Bool := false

structure Semaphore (ι : Type) where
  value : ℕ
  waiters : List (Waiter ι) := []
  holders : List ι := []

namespace Semaphore

variable {ι : Type}

/-- Wake the first task that is asleep, if there is one. -/
def wakeFirst : List (Waiter ι) → Option (List (Waiter ι))
  | [] => none
  | w :: ws => if w.woken then (wakeFirst ws).map (w :: ·) else some ({ w with woken := true } :: ws)

/-- A free permit goes to the first task that is asleep. -/
def wakeNext (s : Semaphore ι) : Semaphore ι :=
  match wakeFirst s.waiters with
  | some waiters => { s with value := s.value - 1, waiters }
  | none => s

/-- One turn of the loop that wakes as many as are allowed. -/
def wakeIfFree (s : Semaphore ι) : Semaphore ι := if 0 < s.value then s.wakeNext else s

def wakeAll (s : Semaphore ι) : Semaphore ι := wakeIfFree^[s.waiters.length] s

def locked (s : Semaphore ι) : Bool := decide (s.value = 0) || !s.waiters.isEmpty

/-- The call of `acquire`, up to where it returns or suspends. -/
def acquire (s : Semaphore ι) (task : ι) : Semaphore ι :=
  if s.locked then { s with waiters := s.waiters ++ [{ task }] }
  else { s with value := s.value - 1, holders := s.holders ++ [task] }

def release [DecidableEq ι] (s : Semaphore ι) (task : ι) : Semaphore ι :=
  if task ∈ s.holders then
    { s with value := s.value + 1, holders := s.holders.filter fun holder => holder ≠ task }.wakeNext
  else s

variable [DecidableEq ι]

def leave (s : Semaphore ι) (task : ι) : List (Waiter ι) := s.waiters.filter fun w => w.task ≠ task

/-- The task has been woken. -/
def woken (s : Semaphore ι) (task : ι) : Bool := s.waiters.any fun w => w.woken && decide (w.task = task)

/-- A task that has been woken runs: `acquire` returns. -/
def resume (s : Semaphore ι) (task : ι) : Semaphore ι :=
  if s.woken task then { s with waiters := s.leave task, holders := s.holders ++ [task] }.wakeAll else s

/-- A task that waits is cancelled. The permit it was woken with goes back. -/
def cancel (s : Semaphore ι) (task : ι) : Semaphore ι :=
  { s with value := s.value + (if s.woken task then 1 else 0), waiters := s.leave task }.wakeAll

def waiting (s : Semaphore ι) : List ι := s.waiters.map Waiter.task

/-- The tasks that are in the semaphore, with a permit or without. -/
def tasks (s : Semaphore ι) : List ι := s.holders ++ s.waiting

/-- The permits that are on their way to a task. -/
def granted (s : Semaphore ι) : ℕ := s.waiters.countP Waiter.woken

structure Sound (permits : ℕ) (s : Semaphore ι) : Prop where
  conserved : s.value + s.granted + s.holders.length = permits
  eager : 0 < s.value → s.waiters = [] ∨ 0 < s.granted
  nodup : s.tasks.Nodup

variable {permits : ℕ} {s : Semaphore ι} {task : ι}

/-! ### Waking -/

omit [DecidableEq ι] in
theorem wakeFirst_eq_some {ws ws' : List (Waiter ι)} (h : wakeFirst ws = some ws') :
    ws'.map Waiter.task = ws.map Waiter.task ∧ ws'.countP Waiter.woken = ws.countP Waiter.woken + 1 := by
  induction ws generalizing ws' with
  | nil => simp [wakeFirst] at h
  | cons w ws ih =>
    unfold wakeFirst at h
    split_ifs at h with hwoken
    · obtain ⟨rest, hrest, rfl⟩ := Option.map_eq_some_iff.mp h
      obtain ⟨htasks, hcount⟩ := ih hrest
      exact ⟨by simp [htasks], by simp [hcount, hwoken]⟩
    · obtain rfl := Option.some.inj h
      exact ⟨by simp, by simp [hwoken]⟩

omit [DecidableEq ι] in
theorem wakeFirst_eq_none {ws : List (Waiter ι)} (h : wakeFirst ws = none) :
    ws.countP Waiter.woken = ws.length := by
  induction ws with
  | nil => simp
  | cons w ws ih =>
    unfold wakeFirst at h
    split_ifs at h with hwoken
    simp [hwoken, ih (Option.map_eq_none_iff.mp h)]

omit [DecidableEq ι] in
theorem wakeIfFree_spec (s : Semaphore ι) :
    s.wakeIfFree.holders = s.holders ∧ s.wakeIfFree.waiting = s.waiting ∧
      s.wakeIfFree.value + s.wakeIfFree.granted = s.value + s.granted ∧ s.granted ≤ s.wakeIfFree.granted ∧
      (0 < s.value → s.granted < s.waiters.length → s.wakeIfFree.granted = s.granted + 1) := by
  unfold wakeIfFree wakeNext granted waiting
  split_ifs with hvalue
  · cases hwake : wakeFirst s.waiters with
    | none =>
      have hall := wakeFirst_eq_none hwake
      exact ⟨rfl, rfl, rfl, Nat.le_refl _, fun _ hlt => by omega⟩
    | some ws =>
      obtain ⟨htasks, hcount⟩ := wakeFirst_eq_some hwake
      simp only
      exact ⟨trivial, htasks, by omega, by omega, fun _ _ => hcount⟩
  · exact ⟨rfl, rfl, rfl, Nat.le_refl _, fun hpos => absurd hpos hvalue⟩

omit [DecidableEq ι] in
theorem wakeIfFree_iterate (s : Semaphore ι) (n : ℕ) :
    (wakeIfFree^[n] s).holders = s.holders ∧
      (wakeIfFree^[n] s).waiting = s.waiting ∧
      (wakeIfFree^[n] s).value + (wakeIfFree^[n] s).granted = s.value + s.granted ∧
      ((wakeIfFree^[n] s).value = 0 ∨ (wakeIfFree^[n] s).granted = s.waiters.length ∨
        s.granted + n ≤ (wakeIfFree^[n] s).granted) := by
  induction n with
  | zero => exact ⟨rfl, rfl, rfl, Or.inr (Or.inr (Nat.le_refl _))⟩
  | succ n ih =>
    rw [Function.iterate_succ_apply']
    generalize wakeIfFree^[n] s = t at ih ⊢
    obtain ⟨hholders, htasks, hsum, hprogress⟩ := ih
    obtain ⟨hholders', htasks', hsum', hmore, hone⟩ := wakeIfFree_spec t
    have hlength : t.waiters.length = s.waiters.length := by
      simpa [waiting] using congrArg List.length htasks
    have hbound : t.granted ≤ t.waiters.length := List.countP_le_length
    have hbound' : t.wakeIfFree.granted ≤ t.waiters.length := by
      have hlength' : t.wakeIfFree.waiters.length = t.waiters.length := by
        simpa [waiting] using congrArg List.length htasks'
      rw [← hlength']
      exact List.countP_le_length
    refine ⟨hholders'.trans hholders, htasks'.trans htasks, hsum'.trans hsum, ?_⟩
    by_cases hvalue : 0 < t.value
    · by_cases hasleep : t.granted < t.waiters.length
      · have := hone hvalue hasleep
        omega
      · omega
    · omega

omit [DecidableEq ι] in
theorem Sound.wakeAll (hconserved : s.value + s.granted + s.holders.length = permits)
    (hnodup : s.tasks.Nodup) : s.wakeAll.Sound permits := by
  obtain ⟨hholders, htasks, hsum, hprogress⟩ := wakeIfFree_iterate s s.waiters.length
  have hsame : s.wakeAll.tasks = s.tasks := by
    unfold tasks Semaphore.wakeAll
    rw [hholders, htasks]
  refine ⟨?_, fun hvalue => ?_, hsame ▸ hnodup⟩
  · unfold Semaphore.wakeAll
    rw [hholders]
    omega
  · unfold Semaphore.wakeAll at hvalue ⊢
    have hlength : (wakeIfFree^[s.waiters.length] s).waiters.length = s.waiters.length := by
      simpa [waiting] using congrArg List.length htasks
    rcases Nat.eq_zero_or_pos s.waiters.length with hnone | hsome
    · exact Or.inl (List.length_eq_zero_iff.mp (hlength.trans hnone))
    · right
      omega

/-! ### The operations -/

omit [DecidableEq ι] in
theorem Sound.fresh (permits : ℕ) : ({ value := permits } : Semaphore ι).Sound permits :=
  ⟨by simp [granted], fun _ => Or.inl rfl, by simp [tasks, waiting]⟩

omit [DecidableEq ι] in
/-- Only so many tasks hold a permit. -/
theorem Sound.length_holders_le (h : s.Sound permits) : s.holders.length ≤ permits := by
  have := h.conserved
  omega

omit [DecidableEq ι] in
/-- No wake-up is lost: where a task waits, the permits are all in use, or one is on its way. -/
theorem Sound.busy (h : s.Sound permits) (hwaits : s.waiters ≠ []) :
    s.holders.length = permits ∨ 0 < s.granted := by
  have hconserved := h.conserved
  rcases Nat.eq_zero_or_pos s.value with hzero | hfree
  · omega
  · exact Or.inr ((h.eager hfree).resolve_left hwaits)

omit [DecidableEq ι] in
theorem mem_holders_acquire {t : ι} :
    t ∈ (s.acquire task).holders ↔ t ∈ s.holders ∨ t = task ∧ s.locked = false := by
  unfold acquire
  split_ifs with hlocked
  · simp [hlocked]
  · simp [hlocked]

omit [DecidableEq ι] in
theorem mem_waiting_acquire {t : ι} :
    t ∈ (s.acquire task).waiting ↔ t ∈ s.waiting ∨ t = task ∧ s.locked = true := by
  unfold acquire waiting
  split_ifs with hlocked
  · simp [hlocked]
  · simp [hlocked]

omit [DecidableEq ι] in
theorem Sound.acquire (h : s.Sound permits) (hnew : task ∉ s.tasks) : (s.acquire task).Sound permits := by
  have hconserved := h.conserved
  have hnodup := h.nodup
  unfold tasks waiting at hnew hnodup
  unfold Semaphore.acquire
  split_ifs with hlocked
  · -- a newcomer waits for its turn, behind the tasks that wait already
    refine ⟨by simpa [granted] using hconserved, fun hvalue => Or.inr ?_, ?_⟩
    · have hwaits : s.waiters ≠ [] := by
        have hpos : s.value ≠ 0 := Nat.pos_iff_ne_zero.mp hvalue
        simpa [locked, hpos] using hlocked
      have hgranted := (h.eager hvalue).resolve_left hwaits
      simp only [granted, List.countP_append] at hgranted ⊢
      omega
    · simp only [tasks, waiting, List.map_append, List.map_singleton, ← List.append_assoc]
      exact List.concat_eq_append ▸ hnodup.concat hnew
  · have hopen : s.value ≠ 0 ∧ s.waiters = [] := by simpa [locked] using hlocked
    simp only [granted, hopen.2, List.countP_nil] at hconserved
    refine ⟨?_, fun _ => Or.inl hopen.2, ?_⟩
    · simp only [granted, hopen.2, List.countP_nil, List.length_append, List.length_singleton]
      omega
    · simp only [tasks, waiting, hopen.2, List.map_nil, List.append_nil] at hnodup hnew ⊢
      exact List.concat_eq_append ▸ hnodup.concat hnew

omit [DecidableEq ι] in
theorem wakeNext_keeps (s : Semaphore ι) : s.wakeNext.holders = s.holders ∧ s.wakeNext.waiting = s.waiting := by
  unfold wakeNext waiting
  split
  · rename_i ws hwake
    exact ⟨rfl, (wakeFirst_eq_some hwake).1⟩
  · exact ⟨rfl, rfl⟩

theorem mem_holders_release {t : ι} : t ∈ (s.release task).holders ↔ t ∈ s.holders ∧ t ≠ task := by
  unfold release
  split_ifs with hholds
  · rw [(wakeNext_keeps _).1]
    simp
  · exact ⟨fun ht => ⟨ht, fun heq => hholds (heq ▸ ht)⟩, fun ht => ht.1⟩

theorem waiting_release (task : ι) : (s.release task).waiting = s.waiting := by
  unfold release
  split_ifs
  · exact (wakeNext_keeps _).2
  · rfl

theorem length_filter_of_nodup {ts : List ι} (h : ts.Nodup) (hmem : task ∈ ts) :
    (ts.filter fun t => t ≠ task).length + 1 = ts.length := by
  have herase : (ts.filter fun t => t ≠ task) = ts.erase task := by
    rw [h.erase_eq_filter]
    exact List.filter_congr fun t _ => by simp [bne, beq_eq_decide]
  rw [herase, List.length_erase_of_mem hmem]
  have := List.length_pos_of_mem hmem
  omega

theorem Sound.release (h : s.Sound permits) : (s.release task).Sound permits := by
  unfold Semaphore.release
  split_ifs with hholds
  · have hnodup := h.nodup
    unfold tasks waiting at hnodup
    have hlength := length_filter_of_nodup hnodup.of_append_left hholds
    have hconserved := h.conserved
    generalize hr : ({ s with value := s.value + 1, holders := s.holders.filter fun t => t ≠ task } :
      Semaphore ι) = r
    have hvalue : 0 < r.value := by simp [← hr]
    have hwake : r.wakeNext = r.wakeIfFree := by rw [wakeIfFree, if_pos hvalue]
    obtain ⟨hholders, htasks, hsum, hmore, hone⟩ := wakeIfFree_spec r
    rw [hwake]
    refine ⟨?_, fun _ => ?_, ?_⟩
    · rw [hholders, hsum, ← hr]
      simp only [granted] at hconserved ⊢
      omega
    · by_cases hasleep : r.granted < r.waiters.length
      · have := hone hvalue hasleep
        omega
      · rcases hwaits : r.waiters with _ | ⟨w, ws⟩
        · left
          simpa [waiting, hwaits] using htasks
        · rw [hwaits, List.length_cons] at hasleep
          omega
    · rw [tasks, hholders, htasks, waiting, ← hr]
      exact hnodup.sublist (List.filter_sublist.append_right _)
  · exact h

theorem granted_leave {ws : List (Waiter ι)} (h : (ws.map Waiter.task).Nodup) (task : ι) :
    (ws.filter fun w => w.task ≠ task).countP Waiter.woken +
      (if ws.any fun w => w.woken && decide (w.task = task) then 1 else 0) = ws.countP Waiter.woken := by
  induction ws with
  | nil => simp
  | cons w ws ih =>
    rw [List.map_cons, List.nodup_cons] at h
    have htail := ih h.2
    by_cases hw : w.task = task
    · -- the others are other tasks
      have hnone : (ws.any fun w => w.woken && decide (w.task = task)) = false := by
        rw [List.any_eq_false]
        intro w' hmem hboth
        have hsame : w'.task = task := by simpa using (Bool.and_eq_true_iff.mp hboth).2
        exact h.1 (List.mem_map.mpr ⟨w', hmem, hsame.trans hw.symm⟩)
      have hleaves : ((w :: ws).filter fun w => w.task ≠ task) = ws.filter fun w => w.task ≠ task :=
        List.filter_cons_of_neg (by simpa using hw)
      rw [hnone, if_neg Bool.false_ne_true] at htail
      rw [hleaves, List.countP_cons, List.any_cons, hnone, decide_eq_true hw, Bool.and_true, Bool.or_false]
      omega
    · have hstays : ((w :: ws).filter fun w => w.task ≠ task) = w :: ws.filter fun w => w.task ≠ task :=
        List.filter_cons_of_pos (by simpa using hw)
      rw [hstays, List.countP_cons, List.countP_cons, List.any_cons, decide_eq_false hw, Bool.and_false,
        Bool.false_or]
      omega

theorem mem_leave {t : ι} : t ∈ (s.leave task).map Waiter.task ↔ t ∈ s.waiting ∧ t ≠ task := by
  simp only [leave, waiting, List.mem_map, List.mem_filter, decide_eq_true_eq]
  constructor
  · rintro ⟨w, ⟨hmem, hne⟩, rfl⟩
    exact ⟨⟨w, hmem, rfl⟩, hne⟩
  · rintro ⟨⟨w, hmem, rfl⟩, hne⟩
    exact ⟨w, ⟨hmem, hne⟩, rfl⟩

theorem mem_waiting_of_woken (h : s.woken task = true) : task ∈ s.waiting := by
  obtain ⟨w, hmem, hw⟩ := List.any_eq_true.mp h
  exact List.mem_map.mpr ⟨w, hmem, by simpa using (Bool.and_eq_true_iff.mp hw).2⟩

theorem holders_resume (hwoken : s.woken task = true) : (s.resume task).holders = s.holders ++ [task] := by
  unfold resume wakeAll
  rw [if_pos hwoken, (wakeIfFree_iterate _ _).1]

theorem mem_waiting_resume (hwoken : s.woken task = true) {t : ι} :
    t ∈ (s.resume task).waiting ↔ t ∈ s.waiting ∧ t ≠ task := by
  unfold resume wakeAll
  rw [if_pos hwoken, (wakeIfFree_iterate _ _).2.1]
  exact mem_leave

theorem holders_cancel (task : ι) : (s.cancel task).holders = s.holders := by
  unfold cancel wakeAll
  rw [(wakeIfFree_iterate _ _).1]

theorem mem_waiting_cancel {t : ι} : t ∈ (s.cancel task).waiting ↔ t ∈ s.waiting ∧ t ≠ task := by
  unfold cancel wakeAll
  rw [(wakeIfFree_iterate _ _).2.1]
  exact mem_leave

theorem Sound.resume (h : s.Sound permits) (hwoken : s.woken task = true) : (s.resume task).Sound permits := by
  have hnodup := h.nodup
  have hwaiting : (s.waiters.map Waiter.task).Nodup := hnodup.of_append_right
  have hgranted := granted_leave hwaiting task
  rw [← Semaphore.woken, hwoken, if_pos rfl] at hgranted
  have hconserved := h.conserved
  have hsublist : ((s.leave task).map Waiter.task).Sublist s.waiting := List.filter_sublist.map _
  -- the task moves from those that wait to those that hold a permit
  have htasks : (s.holders ++ [task] ++ (s.leave task).map Waiter.task).Nodup := by
    rw [List.append_assoc, List.nodup_append]
    obtain ⟨hholders, -, hapart⟩ := List.nodup_append.mp hnodup
    refine ⟨hholders, List.nodup_cons.mpr ⟨fun hmem => (mem_leave.mp hmem).2 rfl, hwaiting.sublist hsublist⟩,
      fun a ha b hb => ?_⟩
    rcases List.mem_cons.mp hb with rfl | hb
    · exact hapart a ha _ (mem_waiting_of_woken hwoken)
    · exact hapart a ha b (hsublist.subset hb)
  unfold Semaphore.resume
  rw [if_pos hwoken]
  refine Sound.wakeAll ?_ htasks
  simp only [granted, leave, List.length_append, List.length_singleton] at hgranted hconserved ⊢
  omega

theorem Sound.cancel (h : s.Sound permits) (task : ι) : (s.cancel task).Sound permits := by
  have hnodup := h.nodup
  have hwaiting : (s.waiters.map Waiter.task).Nodup := hnodup.of_append_right
  have hgranted := granted_leave hwaiting task
  rw [← Semaphore.woken] at hgranted
  have hconserved := h.conserved
  have hsublist : ((s.leave task).map Waiter.task).Sublist s.waiting := List.filter_sublist.map _
  unfold Semaphore.cancel
  refine Sound.wakeAll ?_ (hnodup.sublist (hsublist.append_left _))
  simp only [granted, leave] at hgranted hconserved ⊢
  omega

end Semaphore

end Lib
