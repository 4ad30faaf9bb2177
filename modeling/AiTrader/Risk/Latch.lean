import AiTrader.Lib.Trace
import AiTrader.Risk.KillSwitch

/-!
# The kill switch over restarts

The switch lives in an event, a file and a row of the store. A run is any order of trips, files created from
outside, reads, restarts, resets and outages; an outage decides which of the durable writes raise from then
on.

Every trip that outlives its process has left the file or the row, and the file goes only with a reset: so
the switch stays tripped until then (`latched_until_reset`), unless its file cannot be decoded.
`_read_sentinel` catches `OSError` alone. Bytes that are not UTF-8 raise out of the first `is_tripped` that
meets them and out of every constructor: after such a file no process starts until somebody removes it
(`undecodable_sentinel`).

The requested action has no carrier that survives. It is in memory alone, a restart takes the configured one
and a `kill` command leaves the one it finds: `flatten_follows_request_iff`.
-/

namespace AiTrader

open Lib

namespace KillSwitch

/-- A trip now manages at least one of its two durable writes. -/
def saves (ks : KillSwitch) : Bool :=
  !ks.sentinelLocked || ks.store.any fun s => !s.faults .killSwitch

/-- Tripped for a process that starts now. -/
def durable (ks : KillSwitch) : Bool := ks.sentinel.isPresent || ks.savedTripped

/-- Another process creates the sentinel. -/
def touch (ks : KillSwitch) (text : Option String) : KillSwitch := { ks with sentinel := .file text }

/-- The first lines of `is_tripped`, before it reads the text: the event is set. -/
def setEvent (ks : KillSwitch) : KillSwitch := { ks with event := ks.isTripped }

theorem isTripped_setEvent (ks : KillSwitch) : ks.setEvent.isTripped = ks.isTripped := by
  unfold setEvent isTripped
  cases ks.event <;> cases ks.sentinel.isPresent <;> rfl

def restart (ks : KillSwitch) (action : KillSwitchAction) (now : Now) : KillSwitch :=
  init ks.sentinel ks.sentinelLocked ks.store action now

/-- From now on the given writes raise. -/
def outage (ks : KillSwitch) (sentinelLocked : Bool) (faults : Write → Bool) : KillSwitch :=
  { ks with sentinelLocked, store := ks.store.map fun s => { s with faults } }

theorem isTripped_restart (ks : KillSwitch) (action : KillSwitchAction) (now : Now) :
    (ks.restart action now).isTripped = ks.durable :=
  isTripped_init _ _ _ _ _

theorem durable_init (ks : KillSwitch) (action : KillSwitchAction) (now : Now) :
    (ks.restart action now).durable = ks.durable := by
  unfold restart init
  dsimp only
  split
  · rfl
  · split
    · split_ifs <;> rfl
    · rfl

theorem durable_look (ks : KillSwitch) (now : Now) : (ks.look now).durable = ks.durable := by
  unfold look
  split_ifs <;> rfl

theorem durable_outage (ks : KillSwitch) (sentinelLocked : Bool) (faults : Write → Bool) :
    (ks.outage sentinelLocked faults).durable = ks.durable := by
  unfold durable savedTripped outage
  cases ks.store <;> rfl

theorem durable_trip {ks : KillSwitch} (h : ks.saves = true) (reason : String)
    (action : Option KillSwitchAction) (now : Now) : (ks.trip reason action now).durable = true := by
  unfold durable savedTripped trip
  dsimp only
  rw [saves, Bool.or_eq_true] at h
  rcases h with hfile | hrow
  · rw [Bool.not_eq_true'] at hfile
    rw [hfile]
    rfl
  · cases hstore : ks.store with
    | none => simp [hstore] at hrow
    | some s =>
      rw [hstore] at hrow
      have hwrites : s.faults .killSwitch = false := by simpa using hrow
      simp [StateStore.setKillSwitch, hwrites]

theorem durable_reset {ks : KillSwitch} (hfile : ks.sentinelLocked = false) (hrow : ks.rowWritable = true) :
    ks.reset.durable = false := by
  unfold durable savedTripped reset
  dsimp only
  rw [hfile]
  cases hstore : ks.store with
  | none => rfl
  | some s =>
    rw [rowWritable, hstore] at hrow
    have hwrites : s.faults .killSwitch = false := by simpa using hrow
    simp [StateStore.setKillSwitch, hwrites, Sentinel.isPresent]

theorem isTripped_of_sentinel {ks : KillSwitch} (h : ks.sentinel.isPresent = true) : ks.isTripped = true := by
  rw [isTripped, h, Bool.or_true]

end KillSwitch

/-! ### Latching -/

/-- What another process writes into the sentinel. -/
inductive Content
  | text (s : String)
  /-- Opening it raises `OSError`. -/
  | unreadable
  /-- Bytes that are not UTF-8. -/
  | undecodable
  deriving DecidableEq

def Content.text? : Content → Option String
  | text s => some s
  | unreadable | undecodable => none

/-- A switch with its past: tripped since the last reset, reset cleanly and not tripped since, and whether
some trip managed neither of its durable writes. -/
structure SwitchRun where
  ks : KillSwitch
  /-- The sentinel is there and is not UTF-8: `read_text` raises what `_read_sentinel` does not catch. -/
  undecodable : Bool := false
  /-- `__post_init__` has returned. -/
  up : Bool := true
  latched : Bool := false
  cleared : Bool := false
  lost : Bool := false

namespace SwitchRun

inductive Event
  | tripped (reason : String) (action : Option KillSwitchAction) (now : Now)
  | touched (content : Content)
  | read (now : Now)
  | restarted (action : KillSwitchAction) (now : Now)
  | reset
  | outage (sentinelLocked : Bool) (faults : Write → Bool)

/-- What `is_tripped` answers, `none` when it raises or there is no process to ask. -/
def answer (s : SwitchRun) : Option Bool :=
  if !s.up || (!s.ks.event && s.undecodable) then none else some s.ks.isTripped

/-- A process that is not up takes no call. -/
def step (s : SwitchRun) : Event → SwitchRun
  | .tripped reason action now =>
    if s.up then
      { s with
        ks := s.ks.trip reason action now
        -- the text of the reason takes the place of what was there
        undecodable := s.undecodable && s.ks.sentinelLocked
        latched := true
        cleared := false
        lost := s.lost || !s.ks.saves }
    else s
  | .touched content =>
    { s with
      ks := s.ks.touch content.text?
      undecodable := decide (content = .undecodable)
      latched := true
      cleared := false }
  | .read now =>
    if s.up then { s with ks := if s.undecodable then s.ks.setEvent else s.ks.look now } else s
  | .restarted action now =>
    if s.undecodable then { s with up := false }
    else { s with ks := s.ks.restart action now, up := true }
  | .reset =>
    if s.up then
      { s with
        ks := s.ks.reset
        undecodable := s.undecodable && s.ks.sentinelLocked
        latched := false
        cleared := !s.ks.sentinelLocked && s.ks.rowWritable }
    else s
  | .outage sentinelLocked faults => { s with ks := s.ks.outage sentinelLocked faults }

/-- Every trip before a restart has managed at least one of its two durable writes. -/
def SavedBefore (s : SwitchRun) : Event → Prop
  | .restarted _ _ => s.lost = false
  | _ => True

instance (s : SwitchRun) : ∀ e, Decidable (s.SavedBefore e)
  | .restarted _ _ => inferInstanceAs (Decidable (s.lost = false))
  | .tripped _ _ _ | .touched _ | .read _ | .reset | .outage _ _ => inferInstanceAs (Decidable True)

/-- A file that is not UTF-8 comes only while the event is set, and is gone before the next process. -/
def Decodable (s : SwitchRun) : Event → Prop
  | .touched content => content = .undecodable → s.ks.event = true
  | .restarted _ _ => s.undecodable = false
  | _ => True

instance (s : SwitchRun) : ∀ e, Decidable (s.Decodable e)
  | .touched content => inferInstanceAs (Decidable (content = .undecodable → s.ks.event = true))
  | .restarted _ _ => inferInstanceAs (Decidable (s.undecodable = false))
  | .tripped _ _ _ | .read _ | .reset | .outage _ _ => inferInstanceAs (Decidable True)

/-- What a read answers: yes while latched, no after a clean reset. -/
def Answers (s : SwitchRun) : Prop :=
  (s.latched = true → s.answer = some true) ∧ (s.cleared = true → s.answer = some false)

instance (s : SwitchRun) : Decidable s.Answers := inferInstanceAs (Decidable (_ ∧ _))

/-- While no trip has been lost, whatever is latched is durable. -/
structure Inv (s : SwitchRun) : Prop where
  up : s.up = true
  tripped : s.latched = true → s.ks.isTripped = true
  durable : s.latched = true → s.lost = false → s.ks.durable = true
  untripped : s.cleared = true → s.ks.isTripped = false
  undurable : s.cleared = true → s.ks.durable = false
  /-- The event was set before the text could raise. -/
  decoded : s.latched = true → s.undecodable = true → s.ks.event = true
  clean : s.cleared = true → s.undecodable = false

/-- An invariant switch answers for what it knows: the only read that raises is the one `decoded` excludes. -/
theorem Inv.answers {s : SwitchRun} (h : s.Inv) : s.Answers := by
  unfold Answers answer
  rw [h.up]
  refine ⟨fun hlatched => ?_, fun hcleared => ?_⟩
  · rw [h.tripped hlatched, if_neg]
    intro hraises
    cases hbytes : s.undecodable with
    | false => simp [hbytes] at hraises
    | true => simp [h.decoded hlatched hbytes] at hraises
  · rw [h.untripped hcleared, h.clean hcleared, if_neg (by simp)]

theorem Inv.tripped_step {s : SwitchRun} (h : s.Inv) (reason : String) (action : Option KillSwitchAction)
    (now : Now) : (s.step (.tripped reason action now)).Inv := by
  rw [step, if_pos h.up]
  refine ⟨h.up, fun _ => rfl, fun _ hlost => ?_, fun hc => ?_, fun hc => ?_, fun _ _ => rfl, fun hc => ?_⟩
  · rw [Bool.or_eq_false_iff, Bool.not_eq_false'] at hlost
    exact KillSwitch.durable_trip hlost.2 reason action now
  all_goals cases hc

theorem Inv.touched_step {s : SwitchRun} (h : s.Inv) (content : Content)
    (hdecodable : s.Decodable (.touched content)) : (s.step (.touched content)).Inv := by
  refine ⟨h.up, fun _ => KillSwitch.isTripped_of_sentinel rfl, fun _ _ => rfl, fun hc => ?_, fun hc => ?_,
    fun _ hbytes => hdecodable (of_decide_eq_true hbytes), fun hc => ?_⟩
  all_goals cases hc

theorem Inv.read_step {s : SwitchRun} (h : s.Inv) (now : Now) : (s.step (.read now)).Inv := by
  rw [step, if_pos h.up]
  by_cases hbytes : s.undecodable = true
  · have htripped := s.ks.isTripped_setEvent
    rw [if_pos hbytes]
    refine ⟨h.up, fun hl => htripped.trans (h.tripped hl), h.durable, fun hc => ?_, h.undurable,
      fun hl _ => h.tripped hl, h.clean⟩
    exact absurd (hbytes.symm.trans (h.clean hc)) (by decide)
  · have htripped := s.ks.isTripped_look now
    have hdurable := s.ks.durable_look now
    rw [if_neg hbytes]
    exact ⟨h.up, fun hl => htripped.trans (h.tripped hl),
      fun hl hlost => hdurable.trans (h.durable hl hlost), fun hc => htripped.trans (h.untripped hc),
      fun hc => hdurable.trans (h.undurable hc), fun _ hraises => absurd hraises hbytes, h.clean⟩

theorem Inv.restarted_step {s : SwitchRun} (h : s.Inv) (action : KillSwitchAction) (now : Now)
    (hsaved : s.SavedBefore (.restarted action now)) (hdecodable : s.Decodable (.restarted action now)) :
    (s.step (.restarted action now)).Inv := by
  have hbytes : s.undecodable = false := hdecodable
  have htripped := s.ks.isTripped_restart action now
  have hdurable := s.ks.durable_init action now
  rw [step, if_neg (by rw [hbytes]; decide)]
  exact ⟨rfl, fun hl => htripped.trans (h.durable hl hsaved),
    fun hl hlost => hdurable.trans (h.durable hl hlost), fun hc => htripped.trans (h.undurable hc),
    fun hc => hdurable.trans (h.undurable hc), fun _ hraises => absurd (hbytes.symm.trans hraises) (by decide),
    h.clean⟩

theorem Inv.reset_step {s : SwitchRun} (h : s.Inv) : (s.step .reset).Inv := by
  have hgone : (!s.ks.sentinelLocked && s.ks.rowWritable) = true →
      s.ks.sentinelLocked = false ∧ s.ks.reset.durable = false := by
    intro hcleared
    rw [Bool.and_eq_true, Bool.not_eq_true'] at hcleared
    exact ⟨hcleared.1, KillSwitch.durable_reset hcleared.1 hcleared.2⟩
  rw [step, if_pos h.up]
  refine ⟨h.up, fun hl => ?_, fun hl => ?_, fun hc => ?_, fun hc => (hgone hc).2, fun hl => ?_, fun hc => ?_⟩
  · cases hl
  · cases hl
  · have hnone := (hgone hc).2
    rw [KillSwitch.durable, Bool.or_eq_false_iff] at hnone
    exact hnone.1
  · cases hl
  · show (s.undecodable && s.ks.sentinelLocked) = false
    rw [(hgone hc).1, Bool.and_false]

theorem Inv.outage_step {s : SwitchRun} (h : s.Inv) (sentinelLocked : Bool) (faults : Write → Bool) :
    (s.step (.outage sentinelLocked faults)).Inv := by
  have hdurable := s.ks.durable_outage sentinelLocked faults
  exact ⟨h.up, h.tripped, fun hl hlost => hdurable.trans (h.durable hl hlost), h.untripped,
    fun hc => hdurable.trans (h.undurable hc), h.decoded, h.clean⟩

theorem Inv.step {s : SwitchRun} (h : s.Inv) (e : Event) (hsaved : s.SavedBefore e)
    (hdecodable : s.Decodable e) : (s.step e).Inv := by
  cases e with
  | tripped reason action now => exact h.tripped_step reason action now
  | touched content => exact h.touched_step content hdecodable
  | read now => exact h.read_step now
  | restarted action now => exact h.restarted_step action now hsaved hdecodable
  | reset => exact h.reset_step
  | outage sentinelLocked faults => exact h.outage_step sentinelLocked faults

/-- **When the kill switch latches across restarts and write failures.** From any switch, in every run in
which each trip that a restart follows has managed one of its durable writes, and a file that is not UTF-8
comes only while the event is set and is gone before a restart: after a trip or a file created from outside
the switch reads as tripped until a reset, and after a clean reset it does not until the next. -/
theorem latched_until_reset (ks : KillSwitch) (events : List Event)
    (hsaved : Trace.Each step SavedBefore { ks } events)
    (hdecodable : Trace.Each step Decodable { ks } events) : Trace.Always step Answers { ks } events := by
  have hstep : ∀ (s : SwitchRun) e, s.Inv → s.SavedBefore e ∧ s.Decodable e → (s.step e).Inv :=
    fun s e hI he => hI.step e he.1 he.2
  have hstart : ({ ks } : SwitchRun).Inv := by
    refine ⟨rfl, fun h => ?_, fun h => ?_, fun h => ?_, fun h => ?_, fun h => ?_, fun h => ?_⟩ <;> cases h
  exact Trace.always_of_inductive hstep (fun s hI => hI.answers) hstart (Trace.each_and hsaved hdecodable)

def noon : Now := .sample 0 0

/-- The file cannot be written, the row can; after the reset both can, and the next process starts calm. A
file that is not UTF-8 does no harm to a switch that is set already and reset before the restart. -/
theorem latched_until_reset_outage :
    Trace.Always step Answers { ks := { store := some {} } }
      [.outage true fun _ => false, .tripped "manual" none noon, .restarted .haltNewEntries noon, .read noon,
        .outage false fun _ => false, .touched .undecodable, .read noon, .reset, .restarted .haltNewEntries noon,
        .read noon] :=
  latched_until_reset _ _ (by decide) (by decide)

/-- Another process writes a file that is not UTF-8. The next read raises; after it the switch answers, and
no process starts on the file. -/
theorem undecodable_sentinel :
    Trace.Each step SavedBefore { ks := { store := some {} } }
        [.touched .undecodable, .read noon, .restarted .haltNewEntries noon] ∧
      ¬ Trace.Always step Answers { ks := { store := some {} } } [.touched .undecodable, .read noon] ∧
      (Trace.run step { ks := { store := some {} } } [.touched .undecodable]).answer = none ∧
      (Trace.run step { ks := { store := some {} } } [.touched .undecodable, .read noon]).answer = some true ∧
      (Trace.run step { ks := { store := some {} } }
        [.touched .undecodable, .read noon, .restarted .haltNewEntries noon]).answer = none := by
  refine ⟨?_, ?_, ?_, ?_, ?_⟩ <;> decide

end SwitchRun

/-! ### The requested action -/

/-- A switch, and the action the most recent request asked for. -/
structure RequestRun where
  ks : KillSwitch
  latest : Option KillSwitchAction := none

namespace RequestRun

open SwitchRun (noon)

inductive Event
  /-- `trip_kill_switch` with an action. -/
  | tripped (reason : String) (action : KillSwitchAction) (now : Now)
  /-- The `kill` command. -/
  | commanded (mode reason : String)
  | read (now : Now)
  /-- The configuration holds the given action. -/
  | restarted (configured : KillSwitchAction) (now : Now)

def step (s : RequestRun) : Event → RequestRun
  | .tripped reason action now => { ks := s.ks.trip reason (some action) now, latest := some action }
  | .commanded mode reason =>
    { ks := s.ks.command mode reason, latest := some (KillSwitch.commandAction mode) }
  | .read now => { s with ks := s.ks.look now }
  | .restarted configured now => { s with ks := s.ks.restart configured now }

/-- The switch asks for a flatten exactly when the most recent request did. -/
def Follows (s : RequestRun) : Prop := s.ks.shouldFlatten = true ↔ s.latest = some .flattenAll

instance (s : RequestRun) : Decidable s.Follows := inferInstanceAs (Decidable (_ ↔ _))

/-- A command asks for the action in the memory of the process, and a restart finds the action of the most
recent request in the configuration. -/
def ActionCarried (s : RequestRun) : Event → Prop
  | .commanded mode _ => KillSwitch.commandAction mode = s.ks.action
  | .restarted configured _ => s.latest.all fun action => action = configured
  | _ => True

instance (s : RequestRun) : ∀ e, Decidable (s.ActionCarried e)
  | .commanded mode _ => inferInstanceAs (Decidable (KillSwitch.commandAction mode = s.ks.action))
  | .restarted configured _ => inferInstanceAs (Decidable ((s.latest.all fun action => action = configured) = true))
  | .tripped _ _ _ | .read _ => inferInstanceAs (Decidable True)

/-- Every write succeeds. Without a request nothing is tripped, here or for the next process; after one the
file is there and the action is the requested one. -/
structure Inv (s : RequestRun) : Prop where
  unlocked : s.ks.sentinelLocked = false
  calm : s.latest = none → s.ks.isTripped = false ∧ s.ks.durable = false
  present : s.latest.isSome = true → s.ks.sentinel.isPresent = true
  action : ∀ action, s.latest = some action → s.ks.action = action

theorem shouldFlatten_of_sentinel {ks : KillSwitch} (h : ks.sentinel.isPresent = true) :
    ks.shouldFlatten = true ↔ ks.action = .flattenAll := by
  rw [KillSwitch.shouldFlatten, KillSwitch.isTripped_of_sentinel h, Bool.true_and, decide_eq_true_eq]

theorem Inv.follows {s : RequestRun} (h : s.Inv) : s.Follows := by
  unfold Follows
  cases hlatest : s.latest with
  | none =>
    rw [KillSwitch.shouldFlatten, (h.calm hlatest).1, Bool.false_and]
    simp
  | some action =>
    rw [shouldFlatten_of_sentinel (h.present (by rw [hlatest]; rfl)), h.action action hlatest]
    simp

theorem look_carriers (ks : KillSwitch) (now : Now) : (ks.look now).action = ks.action ∧
    (ks.look now).sentinel = ks.sentinel ∧ (ks.look now).sentinelLocked = ks.sentinelLocked := by
  unfold KillSwitch.look
  split_ifs <;> exact ⟨rfl, rfl, rfl⟩

theorem restart_carriers (ks : KillSwitch) (configured : KillSwitchAction) (now : Now) :
    (ks.restart configured now).action = configured ∧ (ks.restart configured now).sentinel = ks.sentinel ∧
      (ks.restart configured now).sentinelLocked = ks.sentinelLocked := by
  unfold KillSwitch.restart KillSwitch.init
  dsimp only
  split
  · exact ⟨rfl, rfl, rfl⟩
  · split
    · split_ifs <;> exact ⟨rfl, rfl, rfl⟩
    · exact ⟨rfl, rfl, rfl⟩

theorem Inv.step {s : RequestRun} (h : s.Inv) (e : Event) (he : s.ActionCarried e) : (s.step e).Inv := by
  cases e with
  | tripped reason action now =>
    refine ⟨h.unlocked, fun hnone => ?_, fun _ => ?_, fun a ha => Option.some.inj ha⟩
    · cases hnone
    · show (if s.ks.sentinelLocked then s.ks.sentinel else .file (some reason)).isPresent = true
      rw [h.unlocked]
      rfl
  | commanded mode reason =>
    refine ⟨h.unlocked, fun hnone => ?_, fun _ => rfl, fun a ha => ?_⟩
    · cases hnone
    · exact he.symm.trans (Option.some.inj ha)
  | read now =>
    obtain ⟨haction, hsentinel, hlocked⟩ := look_carriers s.ks now
    refine ⟨hlocked.trans h.unlocked, fun hnone => ?_, fun hsome => ?_, fun a ha => ?_⟩
    · exact ⟨(s.ks.isTripped_look now).trans (h.calm hnone).1, (s.ks.durable_look now).trans (h.calm hnone).2⟩
    · exact (congrArg Sentinel.isPresent hsentinel).trans (h.present hsome)
    · exact haction.trans (h.action a ha)
  | restarted configured now =>
    obtain ⟨haction, hsentinel, hlocked⟩ := restart_carriers s.ks configured now
    refine ⟨hlocked.trans h.unlocked, fun hnone => ?_, fun hsome => ?_, fun a ha => ?_⟩
    · have hcalm := (h.calm hnone).2
      exact ⟨(s.ks.isTripped_restart configured now).trans hcalm,
        (s.ks.durable_init configured now).trans hcalm⟩
    · exact (congrArg Sentinel.isPresent hsentinel).trans (h.present hsome)
    · have hlatest : s.latest = some a := ha
      have hconfigured : a = configured := by simpa [ActionCarried, hlatest] using he
      exact haction.trans hconfigured.symm

theorem flattenAll_iff_of_ne {action action' : KillSwitchAction} (h : action ≠ action') :
    ¬ (action = .flattenAll ↔ action' = .flattenAll) := by
  cases action <;> cases action' <;> simp_all

theorem not_follows_step {s : RequestRun} (h : s.Inv) (e : Event) (he : ¬ s.ActionCarried e) :
    ¬ (s.step e).Follows := by
  cases e with
  | tripped reason action now => exact absurd trivial he
  | read now => exact absurd trivial he
  | commanded mode reason =>
    have hflatten : (s.step (.commanded mode reason)).ks.shouldFlatten = true ↔ s.ks.action = .flattenAll :=
      shouldFlatten_of_sentinel rfl
    unfold Follows
    rw [hflatten]
    have hlatest : (s.step (.commanded mode reason)).latest = some (KillSwitch.commandAction mode) := rfl
    rw [hlatest, Option.some.injEq]
    exact flattenAll_iff_of_ne (Ne.symm he)
  | restarted configured now =>
    cases hlatest : s.latest with
    | none => exact absurd (by rw [ActionCarried, hlatest]; rfl) he
    | some action =>
      have hne : configured ≠ action := fun heq => he (by simp [ActionCarried, hlatest, heq])
      obtain ⟨haction, hsentinel, -⟩ := restart_carriers s.ks configured now
      have hpresent : (s.ks.restart configured now).sentinel.isPresent = true := by
        rw [hsentinel]
        exact h.present (by rw [hlatest]; rfl)
      have hflatten := shouldFlatten_of_sentinel hpresent
      rw [haction] at hflatten
      have hsame : (s.step (.restarted configured now)).latest = some action := hlatest
      unfold Follows
      rw [hsame, Option.some.injEq]
      exact fun hiff => flattenAll_iff_of_ne hne (hflatten.symm.trans hiff)

/-- **When a requested flatten is not downgraded.** From a switch that nobody has tripped, with every write
succeeding: along a run of requests, reads and restarts the switch asks for a flatten exactly when the most
recent request did, precisely when every command asks for the action the process has in memory and every
restart finds the requested action configured. -/
theorem flatten_follows_request_iff (ks : KillSwitch) (hwrites : ks.sentinelLocked = false)
    (huntripped : ks.isTripped = false) (hundurable : ks.durable = false) (events : List Event) :
    Trace.Always step Follows { ks } events ↔ Trace.Each step ActionCarried { ks } events := by
  have hstep : ∀ (s : RequestRun) e, s.Inv → s.ActionCarried e → (s.step e).Inv := fun s e hI he => hI.step e he
  have hP : ∀ s : RequestRun, s.Inv → s.Follows := fun s hI => hI.follows
  have hbad : ∀ (s : RequestRun) e, s.Inv → ¬ s.ActionCarried e → ¬ (s.step e).Follows :=
    fun s e hI he => not_follows_step hI e he
  have hstart : ({ ks } : RequestRun).Inv := by
    refine ⟨hwrites, fun _ => ⟨huntripped, hundurable⟩, fun h => ?_, fun _ h => ?_⟩ <;> cases h
  exact Trace.always_iff_each hstep hP hbad hstart

theorem flatten_follows_request_iff_default :
    Trace.Always step Follows { ks := {} } [.commanded "halt" "ops", .read noon] ↔
      Trace.Each step ActionCarried { ks := {} } [.commanded "halt" "ops", .read noon] :=
  flatten_follows_request_iff {} rfl rfl rfl _

/-- The command asks for a flatten and the running process halts; the dashboard asks for a flatten and the
next process halts. -/
theorem flatten_downgraded :
    ¬ Trace.Always step Follows { ks := { store := some {} } }
        [.commanded "flatten" "ops", .read noon] ∧
      ¬ Trace.Always step Follows { ks := { store := some {} } }
        [.tripped "ops" .flattenAll noon, .restarted .haltNewEntries noon] := by
  constructor <;> decide

end RequestRun

end AiTrader
