import AiTrader.Data.Store

/-!
# The kill switch

Three sources: an event in the process, a sentinel file and a row of the store. Reading the switch can
change it: a sentinel another process has created sets the event. Once the switch reads as tripped it
reads as tripped until `reset` (`isTripped_isTripped`, `isTripped_trip`).

Each write can fail by itself: the sentinel because it cannot be written or removed, the row because the store raises.
`trip` goes on after either, `reset` does not go on after the row. A fresh switch looks at the sentinel and, where
there is none, at the row (`isTripped_init`).
-/

namespace AiTrader

/-- The sentinel file: absent, or there with a text, `none` when opening it raises `OSError`. A file that is
not UTF-8 is none of these: reading it raises what nobody catches, and `SwitchRun` has it. -/
inductive Sentinel
  | absent
  | file (text : Option String)
  deriving DecidableEq

namespace Sentinel

def isPresent : Sentinel → Bool
  | absent => false
  | file _ => true

/-- `_read_sentinel`: the stripped text, empty when the file cannot be opened. -/
def read : Sentinel → String
  | file (some text) =>
    let stripLeft := List.dropWhile Char.isWhitespace
    String.ofList (stripLeft (stripLeft text.toList).reverse).reverse
  | _ => ""

end Sentinel

/-- Python's `x or y` on a text. -/
def orElseText (text fallback : String) : String := if text = "" then fallback else text

structure KillSwitch where
  event : Bool := false
  reason : String := ""
  trippedAt : Option ℚ := none
  action : KillSwitchAction := .haltNewEntries
  sentinel : Sentinel := .absent
  /-- Writing or removing the sentinel raises. -/
  sentinelLocked : Bool := false
  store : Option StateStore := none

namespace KillSwitch

/-- `__post_init__`: a switch set before a restart survives it. -/
def init (sentinel : Sentinel) (sentinelLocked : Bool) (store : Option StateStore)
    (action : KillSwitchAction) (now : Now) : KillSwitch :=
  let ks : KillSwitch := { action, sentinel, sentinelLocked, store }
  if sentinel.isPresent then
    { ks with
      event := true
      reason := orElseText sentinel.read "sentinel file present at startup"
      trippedAt := some now.epoch }
  else match store.bind fun s => s.killSwitch with
    | some saved =>
      if saved.tripped then
        { ks with event := true, reason := saved.reason.getD "persisted kill switch" }
      else ks
    | none => ks

/-- What `is_tripped` answers. -/
def isTripped (ks : KillSwitch) : Bool := ks.event || ks.sentinel.isPresent

/-- The switch after `is_tripped` has been read. -/
def look (ks : KillSwitch) (now : Now) : KillSwitch :=
  if ks.event then ks
  else if ks.sentinel.isPresent then
    { ks with
      event := true
      reason := orElseText ks.sentinel.read "sentinel file created"
      trippedAt := some now.epoch }
  else ks

def trip (ks : KillSwitch) (reason : String) (action : Option KillSwitchAction) (now : Now) :
    KillSwitch :=
  let action := action.getD ks.action
  { ks with
    action
    event := true
    reason
    trippedAt := some now.epoch
    sentinel := if ks.sentinelLocked then ks.sentinel else .file (some reason)
    store := ks.store.map fun s =>
      (s.setKillSwitch { tripped := true, reason := some reason, action := some action }).getD s }

/-- `reset`, and what it leaves when the write of the row raises. -/
def reset (ks : KillSwitch) : KillSwitch :=
  { ks with
    event := false
    reason := ""
    trippedAt := none
    sentinel := if ks.sentinelLocked then ks.sentinel else .absent
    store := ks.store.map fun s => (s.setKillSwitch { tripped := false }).getD s }

/-- What the `kill` command asks for. -/
def commandAction (mode : String) : KillSwitchAction :=
  if mode = "flatten" then .flattenAll else .haltNewEntries

/-- `_kill`, run in a process of its own: it writes the sentinel, with the mode in its text. -/
def command (ks : KillSwitch) (mode reason : String) : KillSwitch :=
  { ks with sentinel := .file (some (reason ++ " (mode=" ++ (commandAction mode).value ++ ")")) }

/-- `should_flatten`. -/
def shouldFlatten (ks : KillSwitch) : Bool := ks.isTripped && decide (ks.action = .flattenAll)

@[simp] theorem isTripped_look (ks : KillSwitch) (now : Now) :
    (ks.look now).isTripped = ks.isTripped := by
  unfold look isTripped
  split_ifs with hevent hsentinel
  · rfl
  · simp [hsentinel]
  · rfl

theorem isTripped_reset {ks : KillSwitch} (h : ks.isTripped = false) : ks.reset.isTripped = false := by
  obtain ⟨-, hsentinel⟩ := Bool.or_eq_false_iff.mp h
  unfold reset isTripped
  cases ks.sentinelLocked with
  | true => exact hsentinel
  | false => rfl

/-- The row of the store says tripped. -/
def savedTripped (ks : KillSwitch) : Bool := (ks.store.bind fun s => s.killSwitch).any fun saved => saved.tripped

/-- The row can be written; without a store there is none to write. -/
def rowWritable (ks : KillSwitch) : Bool := ks.store.all fun s => !s.faults .killSwitch

/-- A fresh switch is tripped when the sentinel is there or the row says so. -/
theorem isTripped_init (sentinel : Sentinel) (sentinelLocked : Bool) (store : Option StateStore)
    (action : KillSwitchAction) (now : Now) :
    (init sentinel sentinelLocked store action now).isTripped =
      (sentinel.isPresent || (store.bind fun s => s.killSwitch).any fun saved => saved.tripped) := by
  unfold init isTripped
  dsimp only
  split_ifs with hsentinel
  · simp [hsentinel]
  · cases hsaved : store.bind fun s => s.killSwitch with
    | none => simp [hsentinel]
    | some saved => by_cases htripped : saved.tripped = true <;> simp [htripped, hsentinel]

@[simp] theorem isTripped_trip (ks : KillSwitch) (reason : String) (action : Option KillSwitchAction)
    (now : Now) : (ks.trip reason action now).isTripped = true := rfl

end KillSwitch

end AiTrader
