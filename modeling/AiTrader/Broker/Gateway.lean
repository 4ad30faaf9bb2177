import AiTrader.Domain.Models
import AiTrader.Lib.Trace

/-!
# The broker connection and its watchdog

`GatewayService` gates trading on the health of the connection. Its routines suspend at every `await`,
so each is modelled as the segments between two suspensions, and `Gateway` adds the place where the one
watchdog task is suspended (`Watch`). What the outside world does next is the input `Event`: the socket
drops, an awaited call returns, the timer fires.

`Gateway` also keeps two facts about the past that the code does not store: whether the connection or the
session was lost since the initial connect (`lost`), and whether the reconciliation hook has completed
successfully since the latest such loss (`reconciled`).

`resumes_reconciled_iff`: trading resumes only on a reconciled view precisely in the runs in which every
`connect` that succeeds inside `_reconnect` finds the hook done. `connect` sets `ready` itself, before
`_after_connect` has called the hook, so on that path neither a slow hook nor a failing one holds
trading back. The session-recovered path sets `ready` only after the hook and needs no condition.
-/

namespace AiTrader

/-- The connection state the service keeps; `ready` is cleared on disconnect. -/
structure GatewayService where
  health : ConnectionHealth := {}
  accountId : String := ""
  ready : Bool := false
  stop : Bool := false
  reconnecting : Bool := false
  deriving DecidableEq

namespace GatewayService

def isTradeable (s : GatewayService) : Bool := s.health.isTradeable && s.ready

/-! ### The segments of `connect` -/

def connectBegin (s : GatewayService) : GatewayService :=
  { s with health := { s.health with state := .connecting } }

def connectRaised (error : String) (s : GatewayService) : GatewayService :=
  { s with health := { s.health with state := .disconnected, lastError := some error } }

def connectReturned (accountId : String) (s : GatewayService) : GatewayService :=
  { s with accountId }

def connectUnauthenticated (s : GatewayService) : GatewayService :=
  { s with health := { s.health with state := .unauthenticated, needsManual2fa := true } }

/-- The text of the exception `connect` raises when the probe reports a dead session. -/
def unauthenticatedError : String :=
  "Connected to IB Gateway but the session is not authenticated. This is usually IBKR's weekly " ++
    "token reset — approve the IB Key push on your phone, then the system will reconnect."

/-- The last segment of `connect`. It sets `ready` directly. -/
def connectSucceeded (s : GatewayService) : GatewayService :=
  { s with
    health := { s.health with
      state := .connected
      needsManual2fa := false
      lastError := none
      reconnectAttempts := 0 }
    ready := true }

/-! ### The other routines -/

/-- `_handle_disconnect`, the callback of a dropped socket. -/
def handleDisconnect (s : GatewayService) : GatewayService :=
  { s with
    ready := false
    health := if s.health.state = .connected then { s.health with state := .disconnected }
      else s.health }

/-- `disconnect`: the broker's own disconnect fires the callback on the way. -/
def disconnect (s : GatewayService) : GatewayService :=
  let s' := handleDisconnect { s with stop := true, ready := false }
  { s' with health := { s'.health with state := .disconnected } }

/-- `_check_once` when the probe reports a dead session. -/
def sessionLost (s : GatewayService) : GatewayService :=
  { s with
    health := { s.health with state := .unauthenticated, needsManual2fa := true }
    ready := false }

/-- `_check_once` when the probe reports a live session after an outage, up to the hook. -/
def sessionRecovered (s : GatewayService) : GatewayService :=
  { s with health := { s.health with state := .connected, needsManual2fa := false } }

/-- `_reconnect` up to its backoff sleep. -/
def reconnectBegin (s : GatewayService) : GatewayService :=
  { s with
    reconnecting := true
    health := { s.health with reconnectAttempts := s.health.reconnectAttempts + 1 } }

/-- `_reconnect` when `connect` raised. -/
def reconnectFailed (error : String) (s : GatewayService) : GatewayService :=
  { s with
    health := { s.health with lastError := some error }
    reconnecting := false }

end GatewayService

open GatewayService

/-- Where the watchdog task is suspended. -/
inductive Watch
  | waiting
  | probing
  | backingOff
  | connecting
  | connectProbing
  | hook (inReconnect : Bool)
  deriving DecidableEq

/-- Inside `_reconnect`, before its `connect` has returned. -/
def Watch.inConnect : Watch → Bool
  | backingOff | connecting | connectProbing => true
  | _ => false

/-- What `is_authenticated` answers. -/
inductive Probe
  | alive
  | dead
  | raised (error : String)
  deriving DecidableEq

/-- How far the hook gets when it is called: to its end, to an exception, or to its first suspension. -/
inductive HookStart
  | returned
  | raised
  | suspended
  deriving DecidableEq

/-- The service with its watchdog, the socket, and the two facts about the past. -/
structure Gateway where
  svc : GatewayService
  /-- `broker.is_connected` -/
  connected : Bool
  watch : Watch
  /-- An `on_reconnect` hook is installed. -/
  hooked : Bool
  lost : Bool
  reconciled : Bool
  deriving DecidableEq

namespace Gateway

inductive Event
  /-- The socket drops. -/
  | dropped
  /-- The watchdog's wait is over. -/
  | tick
  | probed (p : Probe) (h : HookStart)
  | slept
  /-- `broker.connect` returns the account or raises; `up` tells whether a raise left the socket up. -/
  | connectReturned (account : Except String String) (up : Bool)
  | connectProbed (p : Probe) (h : HookStart)
  | hookReturned (ok : Bool)
  /-- `disconnect` is called. -/
  | shutdown

def isTradeable (g : Gateway) : Bool := g.svc.isTradeable

/-- `_after_connect` from the return of the hook on, and the `finally` of `_reconnect`. -/
def hookDone (ok inReconnect : Bool) (g : Gateway) : Gateway :=
  { g with
    svc := { g.svc with
      ready := g.svc.ready || ok
      reconnecting := g.svc.reconnecting && !inReconnect }
    watch := .waiting
    reconciled := g.reconciled || ok }

/-- `_after_connect` up to the hook's first suspension. -/
def afterConnect (inReconnect : Bool) (h : HookStart) (g : Gateway) : Gateway :=
  if g.hooked then
    match h with
    | .returned => g.hookDone true inReconnect
    | .raised => g.hookDone false inReconnect
    | .suspended => { g with watch := .hook inReconnect }
  else
    { g with
      svc := { g.svc with ready := true, reconnecting := g.svc.reconnecting && !inReconnect }
      watch := .waiting }

def step (g : Gateway) : Event → Gateway
  | .dropped =>
    { g with svc := g.svc.handleDisconnect, connected := false, lost := true, reconciled := false }
  | .shutdown =>
    { g with svc := g.svc.disconnect, connected := false, lost := true, reconciled := false }
  | .tick =>
    if g.watch = .waiting ∧ g.svc.stop = false ∧ g.svc.reconnecting = false then
      if g.connected then { g with watch := .probing }
      else { g with svc := reconnectBegin { g.svc with ready := false }, watch := .backingOff }
    else g
  | .probed p h =>
    if g.watch = .probing then
      match p with
      | .raised _ => { g with watch := .waiting }
      | .dead =>
        { g with svc := g.svc.sessionLost, watch := .waiting, lost := true, reconciled := false }
      | .alive =>
        if g.svc.health.state = .connected then { g with watch := .waiting }
        else afterConnect false h { g with svc := g.svc.sessionRecovered }
    else g
  | .slept =>
    if g.watch = .backingOff then { g with svc := g.svc.connectBegin, watch := .connecting } else g
  | .connectReturned account up =>
    if g.watch = .connecting then
      match account with
      | .error e =>
        { g with svc := (g.svc.connectRaised e).reconnectFailed e, connected := up, watch := .waiting }
      | .ok id =>
        { g with svc := g.svc.connectReturned id, connected := true, watch := .connectProbing }
    else g
  | .connectProbed p h =>
    if g.watch = .connectProbing then
      match p with
      | .raised e => { g with svc := g.svc.reconnectFailed e, watch := .waiting }
      | .dead =>
        { g with
          svc := g.svc.connectUnauthenticated.reconnectFailed unauthenticatedError
          watch := .waiting
          lost := true
          reconciled := false }
      | .alive => afterConnect true h { g with svc := g.svc.connectSucceeded }
    else g
  | .hookReturned ok =>
    match g.watch with
    | .hook inReconnect => g.hookDone ok inReconnect
    | _ => g

/-- The initial connect has returned; the engine has installed its hook and starts the watchdog. -/
def initial (accountId : String) : Gateway where
  svc := ((({} : GatewayService).connectBegin).connectReturned accountId).connectSucceeded
  connected := true
  watch := .waiting
  hooked := true
  lost := false
  reconciled := false

/-! ### Trading resumes only after reconciliation -/

/-- Once something was lost, trading is possible only if the hook has completed since. -/
def ResumesReconciled (g : Gateway) : Prop :=
  g.lost = true → g.isTradeable = true → g.reconciled = true

/-- When `connect` succeeds inside `_reconnect`, the hook either returns at once or has already
completed since the latest loss. -/
def HookSettled (g : Gateway) : Event → Prop
  | .connectProbed .alive h => g.watch = .connectProbing → h = .returned ∨ g.reconciled = true
  | _ => True

/-- What holds between two steps: `ready` is never set on an unreconciled view, and a reconnect in
progress has cleared it. -/
structure Inv (g : Gateway) : Prop where
  hooked : g.hooked = true
  ready : g.svc.ready = true → g.lost = true → g.reconciled = true
  notReady : g.watch.inConnect = true → g.svc.ready = false
  lost : g.watch.inConnect = true → g.lost = true
  down : g.connected = false → g.lost = true

theorem inv_initial (accountId : String) : (initial accountId).Inv := by
  constructor <;> simp [initial, Watch.inConnect]

theorem Inv.resumesReconciled {g : Gateway} (h : g.Inv) : g.ResumesReconciled := by
  intro hlost htrade
  simp only [isTradeable, GatewayService.isTradeable, Bool.and_eq_true] at htrade
  exact h.ready htrade.2 hlost

theorem Inv.hookDone {g : Gateway} (h : g.Inv) (ok inReconnect : Bool) :
    (g.hookDone ok inReconnect).Inv where
  hooked := h.hooked
  ready := by
    intro hready hlost
    simp only [Gateway.hookDone, Bool.or_eq_true] at hready ⊢
    rcases hready with hready | hok
    · exact Or.inl (h.ready hready hlost)
    · exact Or.inr hok
  notReady := by simp [Gateway.hookDone, Watch.inConnect]
  lost := by simp [Gateway.hookDone, Watch.inConnect]
  down := h.down

theorem Inv.afterConnect {g : Gateway} {inReconnect : Bool} {h : HookStart} (hooked : g.hooked = true)
    (hready : h = .returned ∨ (g.svc.ready = true → g.lost = true → g.reconciled = true))
    (hdown : g.connected = false → g.lost = true) : (g.afterConnect inReconnect h).Inv := by
  unfold Gateway.afterConnect
  rw [if_pos hooked]
  cases h with
  | returned =>
    refine ⟨hooked, fun _ _ => ?_, ?_, ?_, hdown⟩
    · simp [Gateway.hookDone]
    · simp [Gateway.hookDone, Watch.inConnect]
    · simp [Gateway.hookDone, Watch.inConnect]
  | raised =>
    have hready := hready.resolve_left (by simp)
    refine ⟨hooked, ?_, ?_, ?_, hdown⟩
    · simpa [Gateway.hookDone] using hready
    · simp [Gateway.hookDone, Watch.inConnect]
    · simp [Gateway.hookDone, Watch.inConnect]
  | suspended =>
    have hready := hready.resolve_left (by simp)
    exact ⟨hooked, hready, by simp [Watch.inConnect], by simp [Watch.inConnect], hdown⟩

theorem Inv.elsewhere {g : Gateway} (h : g.Inv) {watch : Watch} (hout : watch.inConnect = false) :
    Inv { g with watch } where
  hooked := h.hooked
  ready := h.ready
  notReady := by
    intro hin
    rw [hout] at hin
    cases hin
  lost := by
    intro hin
    rw [hout] at hin
    cases hin
  down := h.down

theorem Inv.sessionLost {g : Gateway} (h : g.Inv) :
    Inv { g with svc := g.svc.sessionLost, watch := .waiting, lost := true, reconciled := false } :=
  ⟨h.hooked, fun hready => (nomatch hready), fun _ => rfl, fun _ => rfl, fun _ => rfl⟩

theorem Inv.step {g : Gateway} (h : g.Inv) (e : Event) (hsettled : g.HookSettled e) :
    (g.step e).Inv := by
  cases e with
  | dropped => exact ⟨h.hooked, by simp [Gateway.step, handleDisconnect],
      by simp [Gateway.step, handleDisconnect], by simp [Gateway.step], by simp [Gateway.step]⟩
  | shutdown => exact ⟨h.hooked, by simp [Gateway.step, disconnect, handleDisconnect],
      by simp [Gateway.step, disconnect, handleDisconnect], by simp [Gateway.step],
      by simp [Gateway.step]⟩
  | tick =>
    simp only [Gateway.step]
    split_ifs with hwait hconn
    · exact h.elsewhere rfl
    · have hlost := h.down (by simpa using hconn)
      exact ⟨h.hooked, by simp [reconnectBegin], by simp [reconnectBegin], fun _ => hlost,
        fun _ => hlost⟩
    · exact h
  | probed p start =>
    simp only [Gateway.step]
    split_ifs with hwatch hstate
    · cases p with
      | raised error =>
        exact h.elsewhere rfl
      | dead =>
        exact h.sessionLost
      | alive =>
        exact h.elsewhere rfl
    · cases p with
      | raised error =>
        exact h.elsewhere rfl
      | dead =>
        exact h.sessionLost
      | alive => exact Inv.afterConnect h.hooked (Or.inr h.ready) h.down
    · exact h
  | slept =>
    simp only [Gateway.step]
    split_ifs with hwatch
    · have hin : g.watch.inConnect = true := by rw [hwatch]; rfl
      exact ⟨h.hooked, h.ready, fun _ => h.notReady hin, fun _ => h.lost hin, h.down⟩
    · exact h
  | connectReturned account up =>
    simp only [Gateway.step]
    split_ifs with hwatch
    · have hin : g.watch.inConnect = true := by rw [hwatch]; rfl
      have hlost := h.lost hin
      cases account with
      | error error =>
        exact ⟨h.hooked, h.ready, fun _ => h.notReady hin, fun _ => hlost, fun _ => hlost⟩
      | ok id =>
        exact ⟨h.hooked, h.ready, fun _ => h.notReady hin, fun _ => hlost, fun _ => hlost⟩
    · exact h
  | connectProbed p start =>
    simp only [Gateway.step]
    split_ifs with hwatch
    · have hin : g.watch.inConnect = true := by rw [hwatch]; rfl
      have hlost := h.lost hin
      have hready := h.notReady hin
      cases p with
      | raised error =>
        exact ⟨h.hooked, h.ready, fun _ => hready, fun _ => hlost, h.down⟩
      | dead =>
        refine ⟨h.hooked, fun hr => ?_, fun _ => hready, by simp, by simp⟩
        have : g.svc.ready = true := hr
        rw [hready] at this
        exact absurd this (by simp)
      | alive =>
        refine Inv.afterConnect h.hooked ?_ h.down
        rcases hsettled hwatch with hret | hrec
        · exact Or.inl hret
        · exact Or.inr fun _ _ => hrec
    · exact h
  | hookReturned ok =>
    simp only [Gateway.step]
    split
    · exact h.hookDone ok _
    · exact h

theorem not_resumesReconciled_of_not_hookSettled {g : Gateway} (h : g.Inv) {e : Event}
    (hbad : ¬ g.HookSettled e) : ¬ (g.step e).ResumesReconciled := by
  cases e with
  | connectProbed p start =>
    cases p with
    | alive =>
      simp only [HookSettled, Classical.not_imp, not_or, Bool.not_eq_true] at hbad
      obtain ⟨hwatch, hstart, hrec⟩ := hbad
      have hlost : g.lost = true := h.lost (by rw [hwatch]; rfl)
      simp only [Gateway.step, if_pos hwatch, Gateway.afterConnect, if_pos h.hooked]
      cases start with
      | returned => exact absurd rfl hstart
      | raised =>
        simp [ResumesReconciled, Gateway.hookDone, Gateway.isTradeable, GatewayService.isTradeable,
          ConnectionHealth.isTradeable, connectSucceeded, hlost, hrec]
      | suspended =>
        simp [ResumesReconciled, Gateway.isTradeable, GatewayService.isTradeable,
          ConnectionHealth.isTradeable, connectSucceeded, hlost, hrec]
    | dead => simp [HookSettled] at hbad
    | raised error => simp [HookSettled] at hbad
  | _ => simp [HookSettled] at hbad

open Lib.Trace

/-- **Trading resumes only after reconciliation**, exactly in the runs in which no `connect` inside
`_reconnect` succeeds with the hook still to complete. -/
theorem resumes_reconciled_iff (accountId : String) (events : List Event) :
    Always step ResumesReconciled (initial accountId) events ↔
      Each step HookSettled (initial accountId) events :=
  always_iff_each (fun _ e h hC => Inv.step h e hC) (fun _ h => Inv.resumesReconciled h)
    (fun _ _ h hbad => not_resumesReconciled_of_not_hookSettled h hbad) (inv_initial accountId)

/-- The socket drops, the watchdog reconnects, and the hook suspends on its first broker call: trading
is possible before the hook has reconciled anything. -/
theorem tradeable_before_reconciliation :
    ¬ Always step ResumesReconciled (initial "DU1")
      [.dropped, .tick, .slept, .connectReturned (.ok "DU1") true, .connectProbed .alive .suspended] := by
  intro h
  exact absurd (h.last rfl) (by decide)

/-! ### What ends trading -/

/-- The socket drops, the service is shut down, the watchdog finds the socket down, or its probe finds the
session dead. -/
def cuts (g : Gateway) : Event → Bool
  | .dropped | .shutdown => true
  | .tick => decide (g.watch = .waiting) && !g.svc.stop && !g.svc.reconnecting && !g.connected
  | .probed .dead _ => decide (g.watch = .probing)
  | _ => false

/-- A reconnect in progress has cleared `ready`. -/
def NotReady (g : Gateway) : Prop := g.watch.inConnect = true → g.svc.ready = false

variable {g : Gateway}

theorem NotReady.step (h : g.NotReady) (e : Event) : (g.step e).NotReady := by
  have hafter : ∀ {g : Gateway} {inReconnect : Bool} {start : HookStart},
      (g.afterConnect inReconnect start).NotReady := by
    intro g inReconnect start
    have hout : (g.afterConnect inReconnect start).watch.inConnect = false := by
      unfold Gateway.afterConnect
      split_ifs
      · cases start <;> rfl
      · rfl
    intro hin
    rw [hout] at hin
    cases hin
  cases e with
  | dropped => exact fun _ => rfl
  | shutdown => exact fun _ => rfl
  | tick =>
    unfold Gateway.step
    dsimp only
    split_ifs
    · exact fun hin => nomatch hin
    · exact fun _ => rfl
    · exact h
  | probed p start =>
    unfold Gateway.step
    dsimp only
    split_ifs
    · cases p with
      | raised error => exact fun hin => nomatch hin
      | dead => exact fun _ => rfl
      | alive => exact fun hin => nomatch hin
    · cases p with
      | raised error => exact fun hin => nomatch hin
      | dead => exact fun _ => rfl
      | alive => exact hafter
    · exact h
  | slept =>
    unfold Gateway.step
    dsimp only
    split_ifs with hwatch
    · exact fun _ => h (by rw [hwatch]; rfl)
    · exact h
  | connectReturned account up =>
    unfold Gateway.step
    dsimp only
    split_ifs with hwatch
    · cases account with
      | error error => exact fun hin => nomatch hin
      | ok id => exact fun _ => h (by rw [hwatch]; rfl)
    · exact h
  | connectProbed p start =>
    unfold Gateway.step
    dsimp only
    split_ifs
    · cases p with
      | raised error => exact fun hin => nomatch hin
      | dead => exact fun hin => nomatch hin
      | alive => exact hafter
    · exact h
  | hookReturned ok =>
    unfold Gateway.step
    dsimp only
    split
    · exact fun hin => nomatch hin
    · exact h

theorem isTradeable_step (hready : g.NotReady) (h : g.isTradeable = true) {e : Event}
    (hcut : g.cuts e = false) : (g.step e).isTradeable = true := by
  obtain ⟨hhealth, hset⟩ := Bool.and_eq_true_iff.mp h
  have hout : g.watch.inConnect = false := by
    by_contra hin
    rw [hready (by simpa using hin)] at hset
    cases hset
  have hstate : g.svc.health.state = .connected := of_decide_eq_true (Bool.and_eq_true_iff.mp hhealth).1
  cases e with
  | dropped => cases hcut
  | shutdown => cases hcut
  | tick =>
    unfold Gateway.step
    dsimp only
    split_ifs with hwait hup
    · exact h
    · obtain ⟨hwatch, hstop, hreconnecting⟩ := hwait
      simp [cuts, hwatch, hstop, hreconnecting, hup] at hcut
    · exact h
  | probed p start =>
    unfold Gateway.step
    dsimp only
    rw [if_pos hstate]
    split_ifs with hwatch
    · cases p with
      | raised error => exact h
      | dead => simp [cuts, hwatch] at hcut
      | alive => exact h
    · exact h
  | slept =>
    have hwatch : g.watch ≠ .backingOff := fun heq => by rw [heq] at hout; cases hout
    unfold Gateway.step
    rw [if_neg hwatch]
    exact h
  | connectReturned account up =>
    have hwatch : g.watch ≠ .connecting := fun heq => by rw [heq] at hout; cases hout
    unfold Gateway.step
    dsimp only
    rw [if_neg hwatch]
    exact h
  | connectProbed p start =>
    have hwatch : g.watch ≠ .connectProbing := fun heq => by rw [heq] at hout; cases hout
    unfold Gateway.step
    dsimp only
    rw [if_neg hwatch]
    exact h
  | hookReturned ok =>
    unfold Gateway.step
    dsimp only
    split
    · have hdone : ∀ inReconnect, (g.hookDone ok inReconnect).isTradeable = true := by
        intro inReconnect
        refine Bool.and_eq_true_iff.mpr ⟨hhealth, ?_⟩
        exact Bool.or_eq_true_iff.mpr (Or.inl hset)
      exact hdone _
    · exact h

end Gateway

end AiTrader
