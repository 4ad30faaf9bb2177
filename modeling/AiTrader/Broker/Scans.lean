import AiTrader.Broker.Port
import AiTrader.Data.RateLimit
import AiTrader.Lib.Text
import AiTrader.Lib.Trace
import Mathlib.Data.Finset.Insert

/-!
# Scans and the errors they draw

The broker reports a refused scan with the error of a historical request that came too early. `IbAsyncBroker` keeps the
numbers of the scans that are under way, so that their errors do not slow down the historical requests: such an error
doubles the pacer's spacing for good.

Scans run side by side, end in any order, and errors come at any time. A scan that ends without a connection cannot
send its cancellation: the call raises inside the `finally`, and the number stays noted. So an error slows the pacer
down exactly when it is one of pacing, is not the echo of a cancelled scan, and its number belongs neither to a scan
under way nor to one whose last scan ended without a connection; and every scan that ends while connected cancels what
it opened (`scans_spare_pacer`).

What is noted is related to the past of the run, `Abandoned`, one event at a time; the connection and the two sides of
the wire are an invariant of their own.
-/

namespace AiTrader

open Lib

inductive ScanMessage
  | request (reqId : ℕ)
  | cancel (reqId : ℕ)

/-- The scanner subscriptions of the session, after one more message. -/
def ScanMessage.apply (active : List ℕ) : ScanMessage → List ℕ
  | .request reqId => active ++ [reqId]
  | .cancel reqId => active.filter fun n => n ≠ reqId

/-- The broker, as far as scans and its error handler go, what is on its way to the other side, and the pacer of the
historical requests. -/
structure Scans where
  connected : Bool := false
  scannerReqIds : Finset ℕ := ∅
  /-- The tasks in `scan` that wait for their hits, with their requests. -/
  scanning : List (ℕ × ℕ) := []
  wire : List ScanMessage := []
  active : List ℕ := []
  pacingViolations : ℕ := 0
  errors : Dict String ℕ := Dict.empty
  pacer : HistoricalDataPacer

namespace Scans

inductive Event
  /-- A task asks for a scan; `reqId` is a number that no request under way has. -/
  | scanned (task reqId : ℕ)
  /-- The wait is over: by the hits, an error, the timeout, or because the task is cancelled. -/
  | ended (task : ℕ)
  | failed (reqId : ℕ) (code : ℤ) (message : String)
  | delivered
  | disconnected
  | connected

/-- The numbers of the scans under way. -/
def underWay (s : Scans) : List ℕ := s.scanning.map Prod.snd

/-- Without a connection the request raises, before anything is noted. -/
def scan (s : Scans) (task reqId : ℕ) : Scans :=
  if s.connected then
    { s with
      scannerReqIds := insert reqId s.scannerReqIds
      scanning := s.scanning ++ [(task, reqId)]
      wire := s.wire ++ [.request reqId] }
  else s

/-- The `finally` clause. Without a connection the cancellation raises, before the number is forgotten. -/
def finish (s : Scans) (task reqId : ℕ) : Scans :=
  let scanning := s.scanning.filter fun call => call.1 ≠ task
  if s.connected then
    { s with scannerReqIds := s.scannerReqIds.erase reqId, scanning, wire := s.wire ++ [.cancel reqId] }
  else { s with scanning }

/-- The message of a scan that was cancelled. -/
def isEcho (message : String) : Bool :=
  decide ("scanner subscription cancelled".toList <:+: (lower message).toList)

/-- What `_on_error` takes an error for. -/
def kindOf (s : Scans) (reqId : ℕ) (code : ℤ) (message : String) : ErrorKind :=
  if classifyError code = .pacing ∧ (reqId ∈ s.scannerReqIds ∨ isEcho message = true) then .benign
  else classifyError code

/-- `_on_error`, with what the engine makes of it. -/
def onError (s : Scans) (reqId : ℕ) (code : ℤ) (message : String) : Scans :=
  let kind := s.kindOf reqId code message
  if kind = .benign then s
  else
    let errors := s.errors.set (toString code) ((s.errors.get? (toString code)).getD 0 + 1)
    if kind = .pacing then
      { s with errors, pacingViolations := s.pacingViolations + 1, pacer := s.pacer.registerViolation }
    else { s with errors }

def newSession (s : Scans) (connected : Bool) : Scans := { s with connected, wire := [], active := [] }

def step (s : Scans) : Event → Scans
  | .scanned task reqId =>
    if task ∈ s.scanning.map Prod.fst ∨ reqId ∈ s.underWay then s else s.scan task reqId
  | .ended task =>
    match s.scanning.find? fun call => call.1 = task with
    | some call => s.finish task call.2
    | none => s
  | .failed reqId code message => s.onError reqId code message
  | .delivered =>
    match s.wire with
    | message :: wire => { s with wire, active := message.apply s.active }
    | [] => s
  | .disconnected => s.newSession false
  | .connected => s.newSession true

/-- What will be open, once everything that is on its way has arrived. -/
def settled (s : Scans) : List ℕ := s.wire.foldl ScanMessage.apply s.active

/-- The number of the scan that the event ends. -/
def ending (s : Scans) : Event → Option ℕ
  | .ended task => (s.scanning.find? fun call => call.1 = task).map Prod.snd
  | _ => none

/-- The last scan numbered `n` that ended did so without a connection. -/
def Abandoned (n : ℕ) : List (Scans × Event) → Prop
  | [] => False
  | (s, e) :: past => if s.ending e = some n then s.connected = false else Abandoned n past

instance decidableAbandoned (n : ℕ) : (past : List (Scans × Event)) → Decidable (Abandoned n past)
  | [] => inferInstanceAs (Decidable False)
  | (s, e) :: past =>
    have := decidableAbandoned n past
    inferInstanceAs (Decidable (if s.ending e = some n then s.connected = false else Abandoned n past))

/-- The error slows the historical requests down. -/
def Throttles (run : Trace.Chronicle Scans Event) : Event → Prop
  | .failed reqId code message =>
    classifyError code = .pacing ∧ reqId ∉ run.state.underWay ∧ ¬ Abandoned reqId run.past ∧ isEcho message = false
  | _ => False

instance (run : Trace.Chronicle Scans Event) : DecidablePred (Throttles run)
  | .failed _ _ _ => inferInstanceAs (Decidable (_ ∧ _))
  | .scanned _ _ | .ended _ | .delivered | .disconnected | .connected => inferInstanceAs (Decidable False)

/-! ### The two sides of the wire -/

structure Inv (s : Scans) : Prop where
  tasks : (s.scanning.map Prod.fst).Nodup
  numbers : s.underWay.Nodup
  owned : ∀ n ∈ s.settled, n ∈ s.underWay
  severed : s.connected = false → s.wire = [] ∧ s.active = []

variable {s : Scans} {task reqId : ℕ}

theorem nodup_concat {ns : List ℕ} {n : ℕ} (h : ns.Nodup) (hnew : n ∉ ns) : (ns ++ [n]).Nodup := by
  rw [← List.concat_eq_append]
  exact h.concat hnew

theorem Inv.scan (h : s.Inv) (htask : task ∉ s.scanning.map Prod.fst) (hnew : reqId ∉ s.underWay) :
    (s.scan task reqId).Inv := by
  by_cases hconnected : s.connected = true
  · have hscan : s.scan task reqId =
        { s with
          scannerReqIds := insert reqId s.scannerReqIds
          scanning := s.scanning ++ [(task, reqId)]
          wire := s.wire ++ [.request reqId] } := by
      rw [Scans.scan, if_pos hconnected]
    have hway : (s.scan task reqId).underWay = s.underWay ++ [reqId] := by simp [hscan, underWay]
    refine ⟨?_, hway ▸ nodup_concat h.numbers hnew, fun n hn => ?_, by simp [hscan, hconnected]⟩
    · rw [hscan, List.map_append, List.map_singleton]
      exact nodup_concat h.tasks htask
    · have hsettled : (s.scan task reqId).settled = s.settled ++ [reqId] := by
        rw [hscan]
        simp [settled, ScanMessage.apply]
      rw [hsettled] at hn
      rw [hway]
      rcases List.mem_append.mp hn with hold | hnow
      · exact List.mem_append_left _ (h.owned n hold)
      · exact List.mem_append_right _ hnow
  · rw [Scans.scan, if_neg hconnected]
    exact h

theorem scanning_finish (s : Scans) (task reqId : ℕ) :
    (s.finish task reqId).scanning = s.scanning.filter fun call => call.1 ≠ task := by
  unfold finish
  dsimp only
  split_ifs <;> rfl

theorem mem_underWay_finish (h : s.Inv) (hmem : (task, reqId) ∈ s.scanning) (n : ℕ) :
    n ∈ (s.finish task reqId).underWay ↔ n ∈ s.underWay ∧ n ≠ reqId := by
  have hbytask : ∀ call ∈ s.scanning, call.1 = task → call = (task, reqId) := fun call hcall htask =>
    List.inj_on_of_nodup_map h.tasks hcall hmem htask
  have hbynumber : ∀ call ∈ s.scanning, call.2 = reqId → call = (task, reqId) := fun call hcall hnumber =>
    List.inj_on_of_nodup_map h.numbers hcall hmem hnumber
  simp only [underWay, scanning_finish, List.mem_map, List.mem_filter, decide_eq_true_eq]
  constructor
  · rintro ⟨call, ⟨hcall, hne⟩, rfl⟩
    exact ⟨⟨call, hcall, rfl⟩, fun hnumber => hne (by rw [hbynumber call hcall hnumber])⟩
  · rintro ⟨⟨call, hcall, rfl⟩, hne⟩
    exact ⟨call, ⟨hcall, fun htask => hne (by rw [hbytask call hcall htask])⟩, rfl⟩

theorem Inv.finish (h : s.Inv) (hmem : (task, reqId) ∈ s.scanning) : (s.finish task reqId).Inv := by
  have hway := mem_underWay_finish h hmem
  have hsub : (s.finish task reqId).scanning.Sublist s.scanning :=
    scanning_finish s task reqId ▸ List.filter_sublist
  refine ⟨h.tasks.sublist (hsub.map _), h.numbers.sublist (hsub.map _), fun n hn => ?_, fun hsevered => ?_⟩
  · rw [hway]
    cases hconnected : s.connected with
    | true =>
      have hsettled : (s.finish task reqId).settled = s.settled.filter fun n => n ≠ reqId := by
        simp [Scans.finish, settled, hconnected, ScanMessage.apply]
      rw [hsettled, List.mem_filter, decide_eq_true_eq] at hn
      exact ⟨h.owned n hn.1, hn.2⟩
    | false =>
      obtain ⟨hwire, hactive⟩ := h.severed hconnected
      simp [Scans.finish, settled, hconnected, hwire, hactive] at hn
  · cases hconnected : s.connected with
    | true => simp [Scans.finish, hconnected] at hsevered
    | false => simpa [Scans.finish, hconnected] using h.severed hconnected

theorem Inv.onError (h : s.Inv) (reqId : ℕ) (code : ℤ) (message : String) : (s.onError reqId code message).Inv := by
  unfold Scans.onError
  dsimp only
  split_ifs
  · exact h
  · exact ⟨h.tasks, h.numbers, h.owned, h.severed⟩
  · exact ⟨h.tasks, h.numbers, h.owned, h.severed⟩

theorem Inv.newSession (h : s.Inv) (connected : Bool) : (s.newSession connected).Inv :=
  ⟨h.tasks, h.numbers, by simp [settled, Scans.newSession], fun _ => ⟨rfl, rfl⟩⟩

/-- **One event.** -/
theorem Inv.step (h : s.Inv) (e : Event) : (s.step e).Inv := by
  cases e with
  | scanned task reqId =>
    unfold Scans.step
    dsimp only
    split_ifs with hused
    · exact h
    · obtain ⟨htask, hnew⟩ := not_or.mp hused
      exact h.scan htask hnew
  | ended task =>
    unfold Scans.step
    dsimp only
    split
    · rename_i call hcall
      have htask : call.1 = task := by simpa using List.find?_some hcall
      exact h.finish (htask ▸ List.mem_of_find?_eq_some hcall)
    · exact h
  | failed reqId code message => exact h.onError reqId code message
  | delivered =>
    unfold Scans.step
    dsimp only
    split
    · rename_i message wire hwire
      have hsame : ({ s with wire, active := message.apply s.active } : Scans).settled = s.settled := by
        simp [settled, hwire]
      refine ⟨h.tasks, h.numbers, hsame ▸ h.owned, fun hconnected => ?_⟩
      simp [(h.severed hconnected).1] at hwire
    · exact h
  | disconnected => exact h.newSession false
  | connected => exact h.newSession true

theorem inv_start (pacer : HistoricalDataPacer) : ({ pacer } : Scans).Inv :=
  ⟨List.nodup_nil, List.nodup_nil, by simp [settled], fun _ => ⟨rfl, rfl⟩⟩

/-! ### The numbers that are noted -/

/-- The wire as it should be, and noted are the scans under way and the numbers abandoned. -/
structure Noted (run : Trace.Chronicle Scans Event) : Prop where
  inv : run.state.Inv
  noted : ∀ n, n ∈ run.state.scannerReqIds ↔ n ∈ run.state.underWay ∨ Abandoned n run.past

theorem mem_scannerReqIds_finish (hids : reqId ∈ s.scannerReqIds) (n : ℕ) :
    n ∈ (s.finish task reqId).scannerReqIds ↔
      if reqId = n then s.connected = false else n ∈ s.scannerReqIds := by
  unfold finish
  dsimp only
  cases s.connected with
  | true =>
    rw [if_pos rfl, Finset.mem_erase]
    split_ifs with hn
    · simp [hn]
    · exact and_iff_right fun h => hn h.symm
  | false =>
    rw [if_neg Bool.false_ne_true]
    split_ifs with hn
    · simpa [hn] using hids
    · rfl

variable {run : Trace.Chronicle Scans Event}

theorem abandoned_next (n : ℕ) (e : Event) : Abandoned n (run.next step e).past ↔
    if run.state.ending e = some n then run.state.connected = false else Abandoned n run.past :=
  Iff.rfl

theorem Noted.quiet (h : Noted run) {e : Event} (hquiet : run.state.ending e = none)
    (hids : (run.state.step e).scannerReqIds = run.state.scannerReqIds)
    (hway : (run.state.step e).underWay = run.state.underWay) : Noted (run.next step e) := by
  refine ⟨h.inv.step e, fun n => ?_⟩
  rw [abandoned_next, hquiet, if_neg (by simp)]
  show n ∈ (run.state.step e).scannerReqIds ↔ n ∈ (run.state.step e).underWay ∨ _
  rw [hids, hway]
  exact h.noted n

theorem Noted.scanned (h : Noted run) (task reqId : ℕ) : Noted (run.next step (.scanned task reqId)) := by
  by_cases hgoes : (task ∈ run.state.scanning.map Prod.fst ∨ reqId ∈ run.state.underWay) ∨
      run.state.connected = false
  · have hsame : run.state.step (.scanned task reqId) = run.state := by
      simp only [Scans.step, Scans.scan, ite_eq_left_iff]
      rintro hfree
      simp [hgoes.resolve_left hfree]
    exact h.quiet rfl (by rw [hsame]) (by rw [hsame])
  · obtain ⟨hfree, hconnected⟩ := not_or.mp hgoes
    have hscan : run.state.step (.scanned task reqId) = run.state.scan task reqId := if_neg hfree
    refine ⟨h.inv.step (.scanned task reqId), fun n => ?_⟩
    show n ∈ (run.state.step (.scanned task reqId)).scannerReqIds ↔
      n ∈ (run.state.step (.scanned task reqId)).underWay ∨ Abandoned n run.past
    rw [hscan, Scans.scan, if_pos (by simpa using hconnected)]
    simp only [underWay, List.map_append, List.map_singleton, List.mem_append, List.mem_singleton,
      Finset.mem_insert]
    rw [h.noted n, or_comm, or_right_comm]
    rfl

theorem Noted.ended (h : Noted run) (task : ℕ) : Noted (run.next step (.ended task)) := by
  cases hcall : run.state.scanning.find? fun call => call.1 = task with
  | none =>
    have hsame : run.state.step (.ended task) = run.state := by simp [Scans.step, hcall]
    exact h.quiet (by simp [ending, hcall]) (by rw [hsame]) (by rw [hsame])
  | some call =>
    have hfound := List.mem_of_find?_eq_some hcall
    have htask : call.1 = task := by simpa using List.find?_some hcall
    have hmem : (task, call.2) ∈ run.state.scanning := htask ▸ hfound
    have hids : call.2 ∈ run.state.scannerReqIds := (h.noted _).mpr (.inl (List.mem_map_of_mem hfound))
    have hstep : run.state.step (.ended task) = run.state.finish task call.2 := by simp [Scans.step, hcall]
    have hending : run.state.ending (.ended task) = some call.2 := by simp [ending, hcall]
    refine ⟨h.inv.step (.ended task), fun n => ?_⟩
    rw [abandoned_next, hending]
    show n ∈ (run.state.step (.ended task)).scannerReqIds ↔ n ∈ (run.state.step (.ended task)).underWay ∨ _
    rw [hstep, mem_scannerReqIds_finish hids, mem_underWay_finish h.inv hmem, h.noted n]
    simp only [Option.some.injEq]
    split_ifs with hn
    · simp [hn]
    · simp [Ne.symm hn]

/-- **One event.** -/
theorem Noted.step (h : Noted run) (e : Event) : Noted (run.next step e) := by
  cases e with
  | scanned task reqId => exact h.scanned task reqId
  | ended task => exact h.ended task
  | failed reqId code message =>
    refine h.quiet rfl ?_ ?_ <;>
    · simp only [Scans.step, Scans.onError]
      split_ifs <;> rfl
  | delivered =>
    refine h.quiet rfl ?_ ?_ <;>
    · simp only [Scans.step]
      split <;> rfl
  | disconnected => exact h.quiet rfl rfl rfl
  | connected => exact h.quiet rfl rfl rfl

theorem kindOf_eq_pacing (h : Noted run) (reqId : ℕ) (code : ℤ) (message : String) :
    run.state.kindOf reqId code message = .pacing ↔ Throttles run (.failed reqId code message) := by
  unfold kindOf Throttles
  dsimp only
  simp only [h.noted]
  split_ifs with hspared
  · refine ⟨fun hpacing => absurd hpacing (by decide), ?_⟩
    rintro ⟨-, hway, hpast, hecho⟩
    rcases hspared.2 with hnoted | htrue
    · exact (hnoted.elim hway hpast).elim
    · simp [hecho] at htrue
  · constructor
    · intro hpacing
      have hnot := not_or.mp fun hor => hspared ⟨hpacing, hor⟩
      obtain ⟨hway, hpast⟩ := not_or.mp hnot.1
      exact ⟨hpacing, hway, hpast, Bool.eq_false_iff.mpr hnot.2⟩
    · exact fun hthrottles => hthrottles.1

theorem pacer_step (h : Noted run) (e : Event) :
    (run.state.step e).pacer = if Throttles run e then run.state.pacer.registerViolation else run.state.pacer := by
  cases e with
  | failed reqId code message =>
    unfold Scans.step Scans.onError
    dsimp only
    rw [← if_congr (kindOf_eq_pacing h reqId code message) rfl rfl]
    split_ifs with hbenign hpacing
    · simp [hbenign] at hpacing
    · rfl
    · rfl
    · rfl
  | scanned task reqId =>
    unfold Scans.step Scans.scan
    dsimp only
    split_ifs <;> simp_all [Throttles]
  | ended task =>
    unfold Scans.step Scans.finish
    dsimp only
    split
    · split_ifs <;> simp_all [Throttles]
    · simp [Throttles]
  | delivered =>
    unfold Scans.step
    dsimp only
    split <;> simp [Throttles]
  | disconnected | connected => simp [Throttles, Scans.step, Scans.newSession]

/-- A scan that the connection took along leaves its number behind: the historical request that gets the number next
comes too early, and the pacer does not hear of it. -/
example (pacer : HistoricalDataPacer) :
    (Trace.run step { pacer }
      [.connected, .scanned 0 7, .disconnected, .ended 0, .connected, .failed 7 162 "pacing violation"]).pacer = pacer :=
  rfl

end Scans

end AiTrader
