import AiTrader.Risk.Gate

/-!
# The live-trading locks

Two interlocks stand between an order and the wrong account. `verify_live_interlock` looks at the account the
first connect reports, and runs once; check 2 of the gate looks at the account of every order, and only at its
prefix. A reconnect may report another account, and what the gate then approves is an order for that one.

`locks_hold_iff` says after which connects every order the gate can approve is for an account that all three
locks admit.
-/

namespace AiTrader

open Lib RiskEngine

/-! ### The two interlocks -/

/-- All three locks admit the account: the configured one, with live trading allowed; in paper mode, a paper
account. -/
def Settings.Admits (s : Settings) (id : String) : Prop :=
  if s.isLive then
    s.secrets.allowLiveTrading = true ∧ upper id = upper s.secrets.ibAccountId ∧
      isPaperAccount (upper id) = false
  else isPaperAccount (upper id) = true

instance (s : Settings) (id : String) : Decidable (s.Admits id) := by
  unfold Settings.Admits
  infer_instance

/-- What check 2 asks of an account. -/
def gateAdmits (isLive : Bool) (id : String) : Prop :=
  if isLive then isPaperAccount (upper id) = false else isPaperAccount (upper id) = true ∨ id = ""

theorem isPaper_eq (a : AccountSnapshot) : a.isPaper = isPaperAccount (upper a.accountId) := by
  unfold AccountSnapshot.isPaper isPaperAccount upper
  simp only [String.toList_ofList]

theorem checkInterlock_eq_nil_iff {ctx : RiskContext} :
    checkInterlock ctx = [] ↔ gateAdmits ctx.isLive ctx.account.accountId := by
  unfold checkInterlock gateAdmits
  simp only [List.append_eq_nil_iff, failIf_eq_nil, isPaper_eq]
  cases ctx.isLive with
  | true => simp
  | false => cases isPaperAccount (upper ctx.account.accountId) <;> simp

theorem isPaperAccount_empty : isPaperAccount (upper "") = false := by decide

theorem verifyLiveInterlock_ok_iff {s : Settings} {id : String} :
    s.verifyLiveInterlock id = .ok () ↔
      (s.Admits id ∧ (s.isLive = true → s.secrets.ibAccountId ≠ "")) ∨ (s.isLive = false ∧ id = "") := by
  unfold Settings.verifyLiveInterlock Settings.Admits
  dsimp only
  cases hlive : s.isLive with
  | false =>
    rw [Bool.not_false, if_pos rfl, if_neg Bool.false_ne_true]
    by_cases hempty : id = ""
    · subst hempty
      simp [upper_eq_empty.mpr rfl]
    · have hname : upper id ≠ "" := mt upper_eq_empty.mp hempty
      cases isPaperAccount (upper id) <;> simp [hempty, hname]
  | true =>
    rw [Bool.not_true, if_neg Bool.false_ne_true, if_pos rfl]
    cases hallow : s.secrets.allowLiveTrading with
    | false => simp
    | true =>
      by_cases hid : s.secrets.ibAccountId = ""
      · simp [hid]
      · by_cases hsame : upper id = upper s.secrets.ibAccountId
        · cases hpaper : isPaperAccount (upper id) <;> simp_all
        · simp [hid, hsame]

/-! ### Connects -/

/-- The engine, as far as its connection matters: whether it got past the interlock, and the account the
latest connect reported. -/
structure Connection where
  running : Bool := false
  accountId : String := ""
  deriving DecidableEq

/-- The broker reports an account: to `TradingEngine.start`, or to the watchdog's `_reconnect`. -/
inductive Connect
  | started (id : String)
  | reconnected (id : String)

namespace Connection

/-- The interlock stops `start`. A running engine takes whatever it is connected to. -/
def connect (s : Settings) (c : Connection) : Connect → Connection
  | .started id =>
    if c.running then c
    else
      match s.verifyLiveInterlock id with
      | .ok () => { running := true, accountId := id }
      | .error _ => { running := false, accountId := id }
  | .reconnected id => if c.running then { c with accountId := id } else c

/-- Every order that the gate approves while the engine runs is for an account the locks admit. Its context is
arbitrary, but that the mode is the configured one and the snapshot carries the account of the latest connect. -/
def LocksHold (s : Settings) (c : Connection) : Prop :=
  c.running = true → ∀ (e : RiskEngine) (order : SizedOrder) (ctx : RiskContext) (now : Now),
    ctx.isLive = s.isLive → ctx.account.accountId = c.accountId →
      (e.evaluate order ctx now).1.approved = true → s.Admits c.accountId

/-- In live mode a reconnect finds the configured account again, or one that the gate refuses; in paper mode
no account is without a name. -/
def Careful (s : Settings) (c : Connection) : Connect → Prop
  | .started id => c.running = true ∨ s.isLive = true ∨ id ≠ ""
  | .reconnected id =>
    c.running = true →
      if s.isLive then upper id = upper s.secrets.ibAccountId ∨ isPaperAccount (upper id) = true
      else id ≠ ""

/-! ### The gate on an arbitrary account -/

/-- An order that any gate with the default configuration approves, in a quiet market. -/
def quietOrder : SizedOrder where
  proposal := breakoutProposal
  symbol := "AAPL"
  action := .buy
  quantity := 1
  entryPrice := 100
  stopPrice := 97
  targetPrice := 106
  riskAmount := 3
  notional := 100

def quietOn (isLive : Bool) (id : String) : RiskContext :=
  let ctx := quietContext {} quietOrder Dict.empty
  { ctx with isLive, account := { ctx.account with accountId := id } }

theorem approved_quietOn {isLive : Bool} {id : String} (h : gateAdmits isLive id) :
    (RiskEngine.evaluate { cfg := {}, killSwitch := {} } quietOrder (quietOn isLive id)
      quietNow).1.approved = true := by
  have hpassed : Passed { cfg := {}, killSwitch := {} } quietOrder
      (quietContext {} quietOrder Dict.empty) quietNow :=
    exists_approval (RiskConfig.accepted_of_validate validate_defaults)
      (by unfold Refused; decide +kernel) (Or.inl ⟨by decide, rfl⟩)
  have hinterlock : checkInterlock (quietOn isLive id) = [] := checkInterlock_eq_nil_iff.mpr h
  obtain ⟨killSwitch, -, rest⟩ := (passed_iff _ _ _ _).mp hpassed
  exact approved_evaluate.mpr ((passed_iff _ _ _ _).mpr ⟨killSwitch, hinterlock, rest⟩)

theorem locksHold_iff {s : Settings} {c : Connection} :
    c.LocksHold s ↔ (c.running = true → gateAdmits s.isLive c.accountId → s.Admits c.accountId) := by
  constructor
  · intro h hrunning hgate
    exact h hrunning _ quietOrder (quietOn s.isLive c.accountId) quietNow rfl rfl (approved_quietOn hgate)
  · intro h hrunning e order ctx now hlive hid happroved
    have hgate := checkInterlock_eq_nil_iff.mp (approved_evaluate.mp happroved).interlock
    rw [hlive, hid] at hgate
    exact h hrunning hgate

/-! ### Runs of connects -/

/-- What the startup interlock has made sure of: real money needs its lock. -/
def Allowed (s : Settings) (c : Connection) : Prop :=
  c.running = true → s.isLive = true → s.secrets.allowLiveTrading = true

theorem Allowed.connect {s : Settings} {c : Connection} (h : c.Allowed s) (i : Connect) :
    (c.connect s i).Allowed s := by
  cases i with
  | started id =>
    rw [Connection.connect]
    split_ifs with hrunning
    · exact h
    · split
      · rename_i hverify
        intro _ hlive
        rcases verifyLiveInterlock_ok_iff.mp hverify with ⟨hadmits, -⟩ | ⟨hpaper, -⟩
        · rw [Settings.Admits, if_pos hlive] at hadmits
          exact hadmits.1
        · rw [hpaper] at hlive
          cases hlive
      · exact fun hrunning => (nomatch hrunning)
  | reconnected id =>
    rw [Connection.connect]
    split_ifs with hrunning
    · exact fun _ => h hrunning
    · exact h

theorem admits_reconnected_iff {s : Settings} {id : String}
    (hallow : s.isLive = true → s.secrets.allowLiveTrading = true) :
    (gateAdmits s.isLive id → s.Admits id) ↔
      if s.isLive then upper id = upper s.secrets.ibAccountId ∨ isPaperAccount (upper id) = true
      else id ≠ "" := by
  unfold gateAdmits Settings.Admits
  cases hlive : s.isLive with
  | true =>
    rw [if_pos rfl, if_pos rfl, if_pos rfl, hallow hlive]
    cases isPaperAccount (upper id) <;> simp
  | false =>
    rw [if_neg Bool.false_ne_true, if_neg Bool.false_ne_true, if_neg Bool.false_ne_true]
    by_cases hempty : id = ""
    · subst hempty
      simp [isPaperAccount_empty]
    · simp [hempty]

theorem locksHold_connect_iff {s : Settings} {c : Connection} (hallow : c.Allowed s) (hlocks : c.LocksHold s)
    (i : Connect) : (c.connect s i).LocksHold s ↔ Careful s c i := by
  cases hrunning : c.running with
  | true =>
    cases i with
    | started id =>
      rw [connect, if_pos hrunning]
      exact iff_of_true hlocks (Or.inl hrunning)
    | reconnected id =>
      rw [connect, if_pos hrunning, locksHold_iff, Careful, forall_prop_of_true hrunning,
        forall_prop_of_true hrunning]
      exact admits_reconnected_iff (hallow hrunning)
  | false =>
    have hstopped : ¬ c.running = true := by simp [hrunning]
    cases i with
    | started id =>
      rw [connect, if_neg hstopped, Careful, or_iff_right hstopped, locksHold_iff]
      split
      · rename_i hverify
        rw [forall_prop_of_true rfl]
        dsimp only
        rcases verifyLiveInterlock_ok_iff.mp hverify with ⟨hadmits, -⟩ | ⟨hpaper, hempty⟩
        · refine iff_of_true (fun _ => hadmits) ?_
          rw [or_iff_not_imp_left]
          rintro hpaper rfl
          rw [Settings.Admits, if_neg hpaper, isPaperAccount_empty] at hadmits
          cases hadmits
        · subst hempty
          simp [hpaper, gateAdmits, Settings.Admits, isPaperAccount_empty]
      · rename_i hverify
        refine iff_of_true (fun h => (nomatch h)) ?_
        by_contra hcareless
        rw [not_or, Bool.not_eq_true, not_not] at hcareless
        rw [verifyLiveInterlock_ok_iff.mpr (Or.inr hcareless)] at hverify
        cases hverify
    | reconnected id =>
      rw [connect, if_neg hstopped]
      exact iff_of_true hlocks fun h => absurd h hstopped

/-- **When the locks hold for every order**, whatever the broker reports at each connect. -/
theorem locks_hold_iff (s : Settings) (connects : List Connect) :
    Trace.Always (connect s) (LocksHold s) {} connects ↔ Trace.Each (connect s) (Careful s) {} connects := by
  have hstep : ∀ (c : Connection) i, c.Allowed s ∧ c.LocksHold s → Careful s c i →
      (c.connect s i).Allowed s ∧ (c.connect s i).LocksHold s :=
    fun c i h hcareful => ⟨h.1.connect i, (locksHold_connect_iff h.1 h.2 i).mpr hcareful⟩
  have hbad : ∀ (c : Connection) i, c.Allowed s ∧ c.LocksHold s → ¬ Careful s c i →
      ¬ (c.connect s i).LocksHold s :=
    fun c i h hcareless => mt (locksHold_connect_iff h.1 h.2 i).mp hcareless
  have hfresh : Allowed s {} ∧ LocksHold s {} := ⟨fun h => (nomatch h), fun h => (nomatch h)⟩
  exact Trace.always_iff_each hstep (fun c h => h.2) hbad hfresh

/-! #### Another account after a reconnect -/

/-- Live, on account `U1111111`. -/
def liveSettings : Settings where
  secrets := { tradingMode := .live, allowLiveTrading := true, ibAccountId := "U1111111" }

/-- The engine starts on the configured account; the reconnect lands on another live one, and an order for it
is approved. -/
theorem other_account_approved :
    let c := Trace.run (connect liveSettings) {} [.started "U1111111", .reconnected "U2222222"]
    c.running = true ∧ (quietOn liveSettings.isLive c.accountId).account.accountId = c.accountId ∧
      (RiskEngine.evaluate { cfg := {}, killSwitch := {} } quietOrder (quietOn liveSettings.isLive c.accountId)
        quietNow).1.approved = true ∧ ¬ liveSettings.Admits c.accountId := by
  dsimp only
  decide +kernel

end Connection

end AiTrader
