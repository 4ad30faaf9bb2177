import AiTrader.Broker.Gateway

/-!
# Recovery of the session

`checkOnce` is one whole `_check_once`, with nothing else running. On a live session it is to make the gateway
tradeable again, whatever has happened before (`Recovers`). It goes by the remembered state: if that is
CONNECTED it does nothing, so it heals every state but connected and not ready
(`isTradeable_recheck_iff`).

Only the session-recovered path leaves such a state at rest: it writes CONNECTED before it calls the hook, and
a hook that fails then leaves `ready` clear, where it was clear before (`recovers_iff`). The path through
`_reconnect` does not, because `connect` sets `ready` itself.

A state at rest is one in which `Tracked` determines what the next check does: it relates the remembered state, the
flag of the weekly login and `ready` to the watchdog's place. There is one lemma for each event that it is kept, and
only the return of a hook needs the condition; a return that breaks the condition leaves a connected gateway that is
not ready and at which every later check does nothing (`not_recovers`).
-/

namespace AiTrader

open GatewayService

/-- Inside `_reconnect`. -/
def Watch.inReconnect : Watch → Bool
  | backingOff | connecting | connectProbing | hook true => true
  | _ => false

/-- Inside the `connect` of `_reconnect`. -/
def Watch.begun : Watch → Bool
  | connecting | connectProbing => true
  | _ => false

namespace Gateway

/-- `_check_once`, up to the backoff sleep where it goes into `_reconnect`, and up to the hook's first
suspension where it calls it. -/
def checkOnce (g : Gateway) (p : Probe) (h : HookStart) : Gateway :=
  if g.svc.reconnecting then g
  else if !g.connected then
    { g with svc := reconnectBegin { g.svc with ready := false }, watch := .backingOff }
  else ({ g with watch := .probing } : Gateway).step (.probed p h)

theorem checkOnce_eq_run {g : Gateway} (hwatch : g.watch = .waiting) (hstop : g.svc.stop = false) (p : Probe)
    (h : HookStart) : g.checkOnce p h = Lib.Trace.run step g [.tick, .probed p h] := by
  rw [Lib.Trace.run_cons, Lib.Trace.run_cons, Lib.Trace.run_nil]
  unfold checkOnce
  by_cases hreconnecting : g.svc.reconnecting = true
  · have hidle : g.step .tick = g := by simp [step, hreconnecting]
    rw [if_pos hreconnecting, hidle]
    simp [step, hwatch]
  · by_cases hup : g.connected = true
    · have htick : g.step .tick = { g with watch := .probing } := by
        simp [step, hwatch, hstop, hreconnecting, hup]
      rw [if_neg hreconnecting, htick, hup, Bool.not_true, if_neg Bool.false_ne_true]
    · have htick : g.step .tick =
          { g with svc := reconnectBegin { g.svc with ready := false }, watch := .backingOff } := by
        simp [step, hwatch, hstop, hreconnecting, hup]
      rw [if_neg hreconnecting, htick, if_pos (by simpa using hup)]
      simp [step]

/-- A `_check_once` during which the broker reports connected and authenticated and the hook, if it is called,
succeeds, at once or later. -/
def recheck (g : Gateway) (h : HookStart) : Gateway :=
  (({ g with connected := true } : Gateway).checkOnce .alive h).step (.hookReturned true)

/-- Where no reconnect is in progress, such a check ends tradeable. -/
def Recovers (g : Gateway) : Prop :=
  g.watch = .waiting → g.svc.reconnecting = false → ∀ h : HookStart, h ≠ .raised →
    (g.recheck h).isTradeable = true

/-! ### What the check makes of a state -/

/-- The remembered state, the flag of the weekly login and `ready`, as the watchdog's place determines
them. -/
structure Tracked (g : Gateway) : Prop where
  manual : g.svc.health.state = .connected → g.svc.health.needsManual2fa = false
  reconnecting : g.svc.reconnecting = g.watch.inReconnect
  connecting : g.watch.begun = true → g.svc.health.state ≠ .connected
  ready : g.svc.health.state = .connected →
    g.svc.ready = true ∨ g.watch = .backingOff ∨ g.watch = .hook false

theorem tracked_initial (accountId : String) (hooked : Bool) :
    Tracked { initial accountId with hooked } :=
  ⟨fun _ => rfl, rfl, fun hwatch => (nomatch hwatch), fun _ => Or.inl rfl⟩

theorem isTradeable_recheck_iff {g : Gateway} (hg : g.Tracked) (hidle : g.svc.reconnecting = false)
    {h : HookStart} (hh : h ≠ .raised) :
    (g.recheck h).isTradeable = true ↔ (g.svc.health.state = .connected → g.svc.ready = true) := by
  unfold recheck checkOnce
  rw [hidle, if_neg Bool.false_ne_true, Bool.not_true, if_neg Bool.false_ne_true]
  by_cases hstate : g.svc.health.state = .connected
  · have hquiet : ({ g with connected := true, watch := .probing } : Gateway).step (.probed .alive h) =
        { g with connected := true, watch := .waiting } := by
      simp [step, hstate]
    rw [hquiet]
    simp [step, isTradeable, GatewayService.isTradeable, ConnectionHealth.isTradeable, hstate,
      hg.manual hstate]
  · have hheals : (((({ g with connected := true, watch := .probing } : Gateway).step
        (.probed .alive h)).step (.hookReturned true)).isTradeable = true) := by
      cases g.hooked with
      | false =>
        simp [step, hstate, afterConnect, sessionRecovered, isTradeable,
          GatewayService.isTradeable, ConnectionHealth.isTradeable]
      | true =>
        cases h with
        | raised => exact absurd rfl hh
        | returned =>
          simp [step, hstate, afterConnect, hookDone, sessionRecovered, isTradeable,
            GatewayService.isTradeable, ConnectionHealth.isTradeable]
        | suspended =>
          simp [step, hstate, afterConnect, hookDone, sessionRecovered, isTradeable,
            GatewayService.isTradeable, ConnectionHealth.isTradeable]
    exact ⟨fun _ hconnected => absurd hconnected hstate, fun _ => hheals⟩

/-! ### What the steps keep -/

theorem Tracked.ready_at {g : Gateway} (h : g.Tracked) {w : Watch} (hwatch : g.watch = w)
    (hbackoff : w ≠ .backingOff) (hhook : w ≠ .hook false) (hstate : g.svc.health.state = .connected) :
    g.svc.ready = true := by
  rcases h.ready hstate with hready | hin | hin
  · exact hready
  · exact absurd (hwatch.symm.trans hin) hbackoff
  · exact absurd (hwatch.symm.trans hin) hhook

/-- A hook that fails after a session has recovered leaves the gateway ready, or its connection has been lost
meanwhile. -/
def HookKept (g : Gateway) : Event → Prop
  | .probed .alive .raised => g.watch = .probing → g.hooked = true → g.svc.health.state ≠ .connected →
      g.svc.ready = true
  | .hookReturned false => g.watch = .hook false → g.svc.health.state = .connected → g.svc.ready = true
  | _ => True

theorem state_handleDisconnect (s : GatewayService) : s.handleDisconnect.health.state ≠ .connected := by
  unfold handleDisconnect
  dsimp only
  split_ifs with hstate
  · exact fun h => nomatch h
  · exact hstate

theorem Tracked.of_not_connected {g : Gateway} (hstate : g.svc.health.state ≠ .connected)
    (hreconnecting : g.svc.reconnecting = g.watch.inReconnect) : g.Tracked :=
  ⟨fun h => absurd h hstate, hreconnecting, fun _ => hstate, fun h => absurd h hstate⟩

theorem Tracked.of_ready {g : Gateway} (hready : g.svc.ready = true)
    (hmanual : g.svc.health.needsManual2fa = false)
    (hreconnecting : g.svc.reconnecting = g.watch.inReconnect) (hwatch : g.watch.begun = false) :
    g.Tracked :=
  ⟨fun _ => hmanual, hreconnecting, fun hin => absurd hin (by simp [hwatch]), fun _ => Or.inl hready⟩

theorem Tracked.hookDone {g : Gateway} (h : g.Tracked) {ok inReconnect : Bool}
    (hwatch : g.watch = .hook inReconnect)
    (hkept : ok = true ∨ (g.svc.health.state = .connected → g.svc.ready = true)) :
    (g.hookDone ok inReconnect).Tracked := by
  refine ⟨h.manual, ?_, fun hin => (nomatch hin), fun hstate => Or.inl ?_⟩
  · have hreconnecting := h.reconnecting
    rw [hwatch] at hreconnecting
    cases inReconnect with
    | false => simp [Gateway.hookDone, hreconnecting, Watch.inReconnect]
    | true => simp [Gateway.hookDone, Watch.inReconnect]
  · rcases hkept with rfl | hready
    · exact Bool.or_true _
    · exact Bool.or_eq_true_iff.mpr (Or.inl (hready hstate))

theorem Tracked.tick {g : Gateway} (h : g.Tracked) : (g.step .tick).Tracked := by
  unfold Gateway.step
  dsimp only
  split_ifs with hwait hup
  · exact ⟨h.manual, hwait.2.2, by rintro ⟨⟩, fun hstate => Or.inl
      (h.ready_at hwait.1 (by rintro ⟨⟩) (by rintro ⟨⟩) hstate)⟩
  · exact ⟨h.manual, rfl, by rintro ⟨⟩, fun _ => Or.inr (Or.inl rfl)⟩
  · exact h

theorem Tracked.afterConnect {g : Gateway} (hidle : g.svc.reconnecting = false) {start : HookStart}
    (hkept : start = .raised → g.hooked = true → g.svc.ready = true) :
    (({ g with svc := g.svc.sessionRecovered } : Gateway).afterConnect false start).Tracked := by
  unfold Gateway.afterConnect
  split_ifs with hhooked
  · cases start with
    | returned =>
      exact Tracked.of_ready (Bool.or_true _) rfl
        (by simp [Gateway.hookDone, sessionRecovered, hidle, Watch.inReconnect]) rfl
    | raised =>
      exact Tracked.of_ready (by simp [Gateway.hookDone, sessionRecovered, hkept rfl hhooked]) rfl
        (by simp [Gateway.hookDone, sessionRecovered, hidle, Watch.inReconnect]) rfl
    | suspended =>
      exact ⟨fun _ => rfl, hidle, by rintro ⟨⟩, fun _ => Or.inr (Or.inr rfl)⟩
  · exact Tracked.of_ready rfl rfl (by simp [sessionRecovered, hidle, Watch.inReconnect]) rfl

theorem Tracked.probed {g : Gateway} (h : g.Tracked) {p : Probe} {start : HookStart}
    (hkept : g.HookKept (.probed p start)) : (g.step (.probed p start)).Tracked := by
  unfold Gateway.step
  dsimp only
  by_cases hwatch : g.watch = .probing
  swap
  · rw [if_neg hwatch]
    exact h
  rw [if_pos hwatch]
  have hidle : g.svc.reconnecting = false := by rw [h.reconnecting, hwatch]; rfl
  have hset : g.svc.health.state = .connected → g.svc.ready = true :=
    h.ready_at hwatch (by rintro ⟨⟩) (by rintro ⟨⟩)
  have hrest : Tracked { g with watch := .waiting } :=
    ⟨h.manual, hidle, by rintro ⟨⟩, fun hstate => Or.inl (hset hstate)⟩
  cases p with
  | raised error => exact hrest
  | dead => exact Tracked.of_not_connected (by rintro ⟨⟩) hidle
  | alive =>
    dsimp only
    by_cases hstate : g.svc.health.state = .connected
    · rw [if_pos hstate]
      exact hrest
    · rw [if_neg hstate]
      refine Tracked.afterConnect hidle ?_
      rintro rfl hhooked
      exact hkept hwatch hhooked hstate

theorem Tracked.slept {g : Gateway} (h : g.Tracked) : (g.step .slept).Tracked := by
  unfold Gateway.step
  dsimp only
  split_ifs with hwatch
  · have hin : g.svc.reconnecting = true := by rw [h.reconnecting, hwatch]; rfl
    exact Tracked.of_not_connected (by rintro ⟨⟩) hin
  · exact h

theorem Tracked.connectReturned {g : Gateway} (h : g.Tracked) (account : Except String String) (up : Bool) :
    (g.step (.connectReturned account up)).Tracked := by
  unfold Gateway.step
  dsimp only
  split_ifs with hwatch
  · have hin : g.svc.reconnecting = true := by rw [h.reconnecting, hwatch]; rfl
    have hstate := h.connecting (by rw [hwatch]; rfl)
    cases account with
    | error error => exact Tracked.of_not_connected (by rintro ⟨⟩) rfl
    | ok id => exact Tracked.of_not_connected hstate hin
  · exact h

theorem Tracked.connectProbed {g : Gateway} (h : g.Tracked) (p : Probe) (start : HookStart) :
    (g.step (.connectProbed p start)).Tracked := by
  unfold Gateway.step
  dsimp only
  split_ifs with hwatch
  · have hin : g.svc.reconnecting = true := by rw [h.reconnecting, hwatch]; rfl
    have hstate := h.connecting (by rw [hwatch]; rfl)
    cases p with
    | raised error => exact Tracked.of_not_connected hstate rfl
    | dead => exact Tracked.of_not_connected (by rintro ⟨⟩) rfl
    | alive =>
      unfold Gateway.afterConnect
      dsimp only
      split_ifs
      · cases start with
        | returned => exact Tracked.of_ready rfl rfl (Bool.and_false _) rfl
        | raised => exact Tracked.of_ready rfl rfl (Bool.and_false _) rfl
        | suspended => exact Tracked.of_ready rfl rfl hin rfl
      · exact Tracked.of_ready rfl rfl (Bool.and_false _) rfl
  · exact h

theorem Tracked.hookReturned {g : Gateway} (h : g.Tracked) {ok : Bool} (hkept : g.HookKept (.hookReturned ok)) :
    (g.step (.hookReturned ok)).Tracked := by
  unfold Gateway.step
  cases hwatch : g.watch with
  | hook inReconnect =>
    refine h.hookDone hwatch ?_
    cases ok with
    | true => exact Or.inl rfl
    | false =>
      refine Or.inr fun hstate => ?_
      cases inReconnect with
      | false => exact hkept hwatch hstate
      | true => exact h.ready_at hwatch (by rintro ⟨⟩) (by rintro ⟨⟩) hstate
  | _ => exact h

theorem Tracked.step {g : Gateway} (h : g.Tracked) (e : Event) (hkept : g.HookKept e) : (g.step e).Tracked := by
  cases e with
  | dropped => exact Tracked.of_not_connected (state_handleDisconnect _) h.reconnecting
  | shutdown => exact Tracked.of_not_connected (by rintro ⟨⟩) h.reconnecting
  | tick => exact h.tick
  | probed p start => exact h.probed hkept
  | slept => exact h.slept
  | connectReturned account up => exact h.connectReturned account up
  | connectProbed p start => exact h.connectProbed p start
  | hookReturned ok => exact h.hookReturned hkept

theorem Tracked.recovers {g : Gateway} (h : g.Tracked) : g.Recovers := by
  intro hwatch hidle start hstart
  exact (isTradeable_recheck_iff h hidle hstart).mpr
    (h.ready_at hwatch (fun heq => nomatch heq) (fun heq => nomatch heq))

theorem not_recovers {g : Gateway} (hwatch : g.watch = .waiting) (hidle : g.svc.reconnecting = false)
    (hstate : g.svc.health.state = .connected) (hready : g.svc.ready = false) : ¬ g.Recovers := by
  intro h
  have htradeable := h hwatch hidle .returned (fun heq => nomatch heq)
  have hquiet : g.recheck .returned = { g with connected := true, watch := .waiting } := by
    simp [recheck, checkOnce, step, hidle, hstate]
  rw [hquiet] at htradeable
  have hset : g.svc.ready = true := (Bool.and_eq_true_iff.mp htradeable).2
  rw [hready] at hset
  cases hset

theorem not_recovers_of_not_hookKept {g : Gateway} (h : g.Tracked) {e : Event} (hbad : ¬ g.HookKept e) :
    ¬ (g.step e).Recovers := by
  cases e with
  | probed p start =>
    cases p with
    | alive =>
      cases start with
      | raised =>
        simp only [HookKept, Classical.not_imp, Bool.not_eq_true] at hbad
        obtain ⟨hwatch, hhooked, hstate, hready⟩ := hbad
        have hidle : g.svc.reconnecting = false := by rw [h.reconnecting, hwatch]; rfl
        have hfailed : g.step (.probed .alive .raised) =
            ({ g with svc := g.svc.sessionRecovered } : Gateway).hookDone false false := by
          simp [Gateway.step, hwatch, hstate, afterConnect, hhooked]
        rw [hfailed]
        exact not_recovers rfl (by simp [Gateway.hookDone, sessionRecovered, hidle]) rfl
          (by simp [Gateway.hookDone, sessionRecovered, hready])
      | returned => exact absurd trivial hbad
      | suspended => exact absurd trivial hbad
    | dead => exact absurd trivial hbad
    | raised error => exact absurd trivial hbad
  | hookReturned ok =>
    cases ok with
    | true => exact absurd trivial hbad
    | false =>
      simp only [HookKept, Classical.not_imp, Bool.not_eq_true] at hbad
      obtain ⟨hwatch, hstate, hready⟩ := hbad
      have hidle : g.svc.reconnecting = false := by rw [h.reconnecting, hwatch]; rfl
      have hfailed : g.step (.hookReturned false) = g.hookDone false false := by
        simp [Gateway.step, hwatch]
      rw [hfailed]
      exact not_recovers rfl (by simp [Gateway.hookDone, hidle]) hstate (by simp [Gateway.hookDone, hready])
  | _ => exact absurd trivial hbad

open Lib.Trace

/-- **Session recovery completes** from every state at rest that a run reaches, exactly in the runs in which no
hook fails after a session has recovered with the gateway connected and not ready. -/
theorem recovers_iff (accountId : String) (hooked : Bool) (events : List Event) :
    Always step Recovers { initial accountId with hooked } events ↔
      Each step HookKept { initial accountId with hooked } events :=
  always_iff_each (fun _ e h hC => h.step e hC) (fun _ h => h.recovers)
    (fun _ _ h hbad => not_recovers_of_not_hookKept h hbad) (tracked_initial accountId hooked)

/-- The session is lost, the login is confirmed, and the hook fails on the first check after it. The gateway
stays untradeable until the next outage. -/
theorem not_recovers_after_failed_hook : ¬ Always step Recovers (initial "DU1")
    [.tick, .probed .dead .returned, .tick, .probed .alive .raised] := by
  intro h
  exact not_recovers rfl rfl rfl rfl h.last

end Gateway

end AiTrader
