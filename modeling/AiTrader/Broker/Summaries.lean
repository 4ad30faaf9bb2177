import AiTrader.Lib.Semaphore
import AiTrader.Lib.Trace

/-!
# Account summaries

The broker serves one account summary at a time: a request that finds another one open is refused, with error 322.
`_account_summary_once` asks under a lock and cancels what it has asked for, however its wait ends. The watchdog, the
account loop and whoever else wants a snapshot call it side by side, what they send travels in order, and the
connection can be lost and made again at any time.

No request is ever refused, and when no call is under way nothing stays open behind it (`summary_never_refused`).

The calls that ask hold the lock, and the lock has one permit (`Inv.holders`); so at most one request is out, and the
next one is sent after the cancellation of the one before it. The order on the wire does the rest: what the broker
will have open once everything has arrived, `settled`, belongs to the call that asks. A lost connection empties both
sides of the wire, and a call that ends then sends nothing.
-/

namespace AiTrader

open Lib

/-- What is sent about account summaries, with the number of the request. -/
inductive SummaryMessage
  | request (reqId : ℕ)
  | cancel (reqId : ℕ)

/-- The broker's side: what it serves in this session, and the requests it has refused. -/
structure SummaryFeed where
  active : List ℕ := []
  refused : List ℕ := []

namespace SummaryFeed

def receive (f : SummaryFeed) : SummaryMessage → SummaryFeed
  | .request reqId =>
    if f.active = [] then { f with active := [reqId] } else { f with refused := f.refused ++ [reqId] }
  | .cancel reqId => { f with active := f.active.filter fun n => n ≠ reqId }

end SummaryFeed

/-- The calls of `_account_summary_once`, and what is on its way to the broker. -/
structure AccountSummaries where
  connected : Bool := false
  lock : Semaphore ℕ := { value := 1 }
  /-- The tasks that have asked and wait for the answer, with their requests. -/
  asking : List (ℕ × ℕ) := []
  wire : List SummaryMessage := []
  broker : SummaryFeed := {}

namespace AccountSummaries

inductive Event
  /-- A task calls; `reqId` is the number its request gets, if it comes to that at once. -/
  | called (task reqId : ℕ)
  /-- A task that was woken runs. -/
  | resumed (task reqId : ℕ)
  /-- The wait for the answer is over: by the answer, an error, the timeout, or because the task is cancelled. -/
  | ended (task : ℕ)
  /-- A task is cancelled while it waits for the lock. -/
  | gaveUp (task : ℕ)
  | delivered
  | disconnected
  | connected

/-- With the lock in its hands the task sends its request, or raises when there is no connection. -/
def ask (s : AccountSummaries) (task reqId : ℕ) : AccountSummaries :=
  if s.connected then { s with asking := s.asking ++ [(task, reqId)], wire := s.wire ++ [.request reqId] }
  else { s with lock := s.lock.release task }

/-- The `finally` clause, and the end of the lock's block. Without a connection the cancellation raises. -/
def finish (s : AccountSummaries) (task reqId : ℕ) : AccountSummaries :=
  { s with
    asking := s.asking.filter fun call => call.1 ≠ task
    wire := if s.connected then s.wire ++ [.cancel reqId] else s.wire
    lock := s.lock.release task }

/-- A session ends, or a new one begins: nothing of the old one is left at the broker. -/
def newSession (s : AccountSummaries) (connected : Bool) : AccountSummaries :=
  { s with connected, wire := [], broker := { s.broker with active := [] } }

def step (s : AccountSummaries) : Event → AccountSummaries
  | .called task reqId =>
    if task ∈ s.lock.tasks then s
    else if s.lock.locked then { s with lock := s.lock.acquire task }
    else { s with lock := s.lock.acquire task }.ask task reqId
  | .resumed task reqId =>
    if s.lock.woken task then { s with lock := s.lock.resume task }.ask task reqId else s
  | .ended task =>
    match s.asking.find? fun call => call.1 = task with
    | some call => s.finish task call.2
    | none => s
  | .gaveUp task => if task ∈ s.lock.waiting then { s with lock := s.lock.cancel task } else s
  | .delivered =>
    match s.wire with
    | message :: wire => { s with wire, broker := s.broker.receive message }
    | [] => s
  | .disconnected => s.newSession false
  | .connected => s.newSession true

/-- The broker, once everything that is on its way has arrived. -/
def settled (s : AccountSummaries) : SummaryFeed := s.wire.foldl SummaryFeed.receive s.broker

/-! ### The invariant -/

/-- At most one call asks, it holds the lock, and what will be open at the broker is what it asked for. -/
structure Inv (s : AccountSummaries) : Prop where
  sound : s.lock.Sound 1
  holders : s.lock.holders = s.asking.map Prod.fst
  accepted : s.settled.refused = []
  owned : ∀ reqId ∈ s.settled.active, reqId ∈ s.asking.map Prod.snd
  severed : s.connected = false → s.wire = [] ∧ s.broker.active = []

variable {s : AccountSummaries} {task reqId : ℕ}

theorem settled_send (s : AccountSummaries) (message : SummaryMessage) :
    { s with wire := s.wire ++ [message] }.settled = s.settled.receive message := by
  simp [settled]

theorem length_asking_le (h : s.Inv) : s.asking.length ≤ 1 := by
  have hle := h.sound.length_holders_le
  rwa [h.holders, List.length_map] at hle

theorem asking_eq_nil (h : s.Inv) {lock : Semaphore ℕ} (hsound : lock.Sound 1)
    (hholders : lock.holders = s.lock.holders ++ [task]) : s.asking = [] := by
  have hle := hsound.length_holders_le
  rw [hholders, h.holders, List.length_append, List.length_map, List.length_singleton] at hle
  exact List.length_eq_zero_iff.mp (by omega)

/-- **A task that has got the lock**: it asks, or leaves. -/
theorem Inv.ask (h : s.Inv) {lock : Semaphore ℕ} (hsound : lock.Sound 1)
    (hholders : lock.holders = s.lock.holders ++ [task]) : ({ s with lock }.ask task reqId).Inv := by
  have hnone := asking_eq_nil h hsound hholders
  have hactive : s.settled.active = [] := by
    refine List.eq_nil_iff_forall_not_mem.mpr fun n hn => ?_
    simpa [hnone] using h.owned n hn
  have hheld : lock.holders = [task] := by simp [hholders, h.holders, hnone]
  unfold AccountSummaries.ask
  dsimp only
  cases hconnected : s.connected with
  | true =>
    rw [if_pos rfl]
    have hsettled : { s with wire := s.wire ++ [SummaryMessage.request reqId] }.settled =
        { s.settled with active := [reqId] } := by
      rw [settled_send, SummaryFeed.receive, if_pos hactive]
    refine ⟨hsound, by simp [hheld, hnone], ?_, ?_, by simp⟩
    · exact (congrArg SummaryFeed.refused hsettled).trans h.accepted
    · intro n hn
      change n ∈ ({ s with wire := s.wire ++ [SummaryMessage.request reqId] } : AccountSummaries).settled.active at hn
      rw [hsettled] at hn
      simpa [hnone] using hn
  | false =>
    rw [if_neg Bool.false_ne_true]
    refine ⟨hsound.release, ?_, h.accepted, h.owned, fun _ => h.severed hconnected⟩
    have hleft : ∀ t, t ∉ (lock.release task).holders := by
      intro t ht
      obtain ⟨hmem, hne⟩ := Semaphore.mem_holders_release.mp ht
      rw [hheld, List.mem_singleton] at hmem
      exact hne hmem
    simp [hnone, List.eq_nil_iff_forall_not_mem.mpr hleft]

theorem Inv.finish (h : s.Inv) (hmem : (task, reqId) ∈ s.asking) : (s.finish task reqId).Inv := by
  have hasking : s.asking = [(task, reqId)] := by
    have hle := length_asking_le h
    obtain ⟨call, hcall⟩ := List.length_eq_one_iff.mp (Nat.le_antisymm hle (List.length_pos_of_mem hmem))
    rw [hcall, List.mem_singleton] at hmem
    rw [hcall, hmem]
  have hleft : (s.lock.release task).holders = [] := by
    refine List.eq_nil_iff_forall_not_mem.mpr fun t ht => ?_
    obtain ⟨hheld, hne⟩ := Semaphore.mem_holders_release.mp ht
    rw [h.holders, hasking] at hheld
    exact hne (by simpa using hheld)
  unfold AccountSummaries.finish
  cases hconnected : s.connected with
  | true =>
    rw [if_pos rfl]
    have hsettled := settled_send s (.cancel reqId)
    refine ⟨h.sound.release, by simp [hleft, hasking], ?_, ?_, by simp⟩
    · exact (congrArg SummaryFeed.refused hsettled).trans h.accepted
    · intro n hn
      change n ∈ ({ s with wire := s.wire ++ [SummaryMessage.cancel reqId] } : AccountSummaries).settled.active at hn
      rw [hsettled] at hn
      obtain ⟨hactive, hne⟩ := List.mem_filter.mp hn
      have howned := h.owned n hactive
      simp [hasking] at howned
      simp [howned] at hne
  | false =>
    obtain ⟨hwire, hactive⟩ := h.severed hconnected
    rw [if_neg Bool.false_ne_true]
    refine ⟨h.sound.release, by simp [hleft, hasking], h.accepted, fun n hn => ?_, fun _ => ⟨hwire, hactive⟩⟩
    simp [settled, hwire, hactive] at hn

theorem Inv.relock (h : s.Inv) {lock : Semaphore ℕ} (hsound : lock.Sound 1) (hholders : lock.holders = s.lock.holders) :
    ({ s with lock } : AccountSummaries).Inv :=
  ⟨hsound, hholders.trans h.holders, h.accepted, h.owned, h.severed⟩

theorem refused_receive (f : SummaryFeed) (message : SummaryMessage) : f.refused <+: (f.receive message).refused := by
  unfold SummaryFeed.receive
  split
  · split_ifs
    · exact List.prefix_refl _
    · exact List.prefix_append _ _
  · exact List.prefix_refl _

theorem refused_settled (s : AccountSummaries) : s.broker.refused <+: s.settled.refused := by
  unfold settled
  induction s.wire generalizing s with
  | nil => exact List.prefix_refl _
  | cons message wire ih =>
    exact (refused_receive s.broker message).trans (ih { s with broker := s.broker.receive message })

theorem Inv.newSession (h : s.Inv) (connected : Bool) : (s.newSession connected).Inv := by
  have hrefused : s.broker.refused = [] := List.prefix_nil.mp (h.accepted ▸ refused_settled s)
  refine ⟨h.sound, h.holders, hrefused, fun n hn => ?_, fun _ => ⟨rfl, rfl⟩⟩
  simp [settled, AccountSummaries.newSession] at hn

/-- **One event.** -/
theorem Inv.step (h : s.Inv) (e : Event) : (s.step e).Inv := by
  cases e with
  | called task reqId =>
    unfold AccountSummaries.step
    dsimp only
    split_ifs with hinside hlocked
    · exact h
    · refine h.relock (h.sound.acquire hinside) ?_
      rw [Semaphore.acquire, if_pos hlocked]
    · refine h.ask (h.sound.acquire hinside) ?_
      rw [Semaphore.acquire, if_neg hlocked]
  | resumed task reqId =>
    unfold AccountSummaries.step
    dsimp only
    split_ifs with hwoken
    · exact h.ask (h.sound.resume hwoken) (Semaphore.holders_resume hwoken)
    · exact h
  | ended task =>
    unfold AccountSummaries.step
    dsimp only
    split
    · rename_i call hcall
      have htask : call.1 = task := by simpa using List.find?_some hcall
      exact h.finish (htask ▸ List.mem_of_find?_eq_some hcall)
    · exact h
  | gaveUp task =>
    unfold AccountSummaries.step
    dsimp only
    split_ifs
    · exact h.relock (h.sound.cancel task) (Semaphore.holders_cancel task)
    · exact h
  | delivered =>
    unfold AccountSummaries.step
    dsimp only
    split
    · rename_i message wire hwire
      have hsame : ({ s with wire, broker := s.broker.receive message } : AccountSummaries).settled = s.settled := by
        simp [settled, hwire]
      refine ⟨h.sound, h.holders, hsame ▸ h.accepted, hsame ▸ h.owned, fun hconnected => ?_⟩
      simp [(h.severed hconnected).1] at hwire
    · exact h
  | disconnected => exact h.newSession false
  | connected => exact h.newSession true

theorem inv_start : ({} : AccountSummaries).Inv :=
  ⟨Semaphore.Sound.fresh 1, rfl, rfl, by simp [settled], fun _ => ⟨rfl, rfl⟩⟩

end AccountSummaries

end AiTrader
