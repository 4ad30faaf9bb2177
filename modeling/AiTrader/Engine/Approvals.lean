import AiTrader.Engine.Closing
import AiTrader.Engine.Rollover

/-!
# Approvals are used at most once

A trade idea of manual mode waits in `pending_approvals` until a person answers it, the fast loop drops it, or
a reset clears the list. `ApprovalRun` is the trading engine with a book of its approvals: the ids that were
ever queued, and how each one left the queue. The book balances along every run (`ApprovalRun.Inv`), so when
the ids are distinct each one leaves at most once, and finds nobody afterwards.

Three facts carry the invariant. An idea stands in the queue once, with an id of its own; a click, a skip and the
sweep look for the idea by its id and take it out in one segment, before anything suspends (`pending_clicked`); and no
event but a proposal puts anything in (`pending_act`). So the ids that were ever queued are, up to order, those still
queued and those that have left (`balanced_step`), and where the ids are distinct none has left twice (`Inv.once`).
-/

namespace AiTrader

open Lib

/-- How an approval leaves the queue. -/
inductive ApprovalEnd
  /-- `approve_proposal` calls `submit`. -/
  | submitted
  /-- `approve_proposal` calls `close_position`. -/
  | closing
  /-- `approve_proposal` returns a rejection without calling either. -/
  | refused
  /-- `reject_proposal`. -/
  | skipped
  /-- `_expire_stale_approvals`. -/
  | expired
  /-- A new session or a new process. -/
  | cleared
  deriving DecidableEq

namespace TradingEngine

variable (s : TradingEngine)

/-- The ids in `pending_approvals`. -/
def approvalIds : List String := s.app.pendingApprovals.map PendingApproval.id

/-- What the exits of a person's approvals are decided on. -/
def closeDesk : CloseDesk := { app := s.app, risk := s.risk, orders := s.orders }

/-- `approve_proposal` up to its first suspension; `none` is its return of None. -/
def approveProposal (id : String) (resized : Option SizedOrder) (quotes : String → Option Quote) :
    Option ApprovalEnd :=
  match s.app.pendingApprovals.find? fun p => p.id = id with
  | none => none
  | some approval =>
    match approval.kind with
    | .close =>
      match (s.closeDesk.approveClose id s.session.phase quotes s.now).2 with
      | some _ => some .closing
      | none => some .refused
    | .entry =>
      match s.app.account, approval.sized, resized with
      | some _, some _, some _ => some .submitted
      | _, _, _ => some .refused

/-- The answer of `reject_proposal`. -/
def rejectProposal (id : String) : Bool := (s.app.pendingApprovals.find? fun p => p.id = id).isSome

/-- The id that a step queues. -/
def queues (e : Event) : List String :=
  if s.running then
    match e with
    | .proposed _ _ _ approvalId => match s.decision with
      | .cycle _ _ (.deciding _) => if s.app.executionMode = .manual then [approvalId] else []
      | _ => []
    | .closeProposed _ _ _ approvalId => match s.decision with
      | .cycle _ _ (.deciding _) => [approvalId]
      | _ => []
    | _ => []
  else []

/-- The ids that a step takes out of the queue, and how. Nobody but the fast loop, a reset and a start takes
out any besides the two answers. -/
def ends (e : Event) (quotes : String → Option Quote) : List (String × ApprovalEnd) :=
  match e with
  | .clicked id resized _ =>
    if s.running then (s.approveProposal id resized quotes).toList.map fun how => (id, how) else []
  | .skipped id => if s.running && s.rejectProposal id then [(id, .skipped)] else []
  | .fast e => (s.approvalIds.diff (s.step (.fast e)).approvalIds).map fun id => (id, .expired)
  | e => (s.approvalIds.diff (s.step e).approvalIds).map fun id => (id, .cleared)

end TradingEngine

/-- The engine and the book of its approvals. -/
structure ApprovalRun where
  engine : TradingEngine
  queued : List String
  ends : List (String × ApprovalEnd) := []

namespace ApprovalRun

/-- An event, with the quotes of the moment. -/
abbrev Input : Type := TradingEngine.Event × (String → Option Quote)

def step (r : ApprovalRun) (x : Input) : ApprovalRun where
  engine := r.engine.step x.1
  queued := r.queued ++ r.engine.queues x.1
  ends := r.ends ++ r.engine.ends x.1 x.2

def start (s : TradingEngine) : ApprovalRun := { engine := s, queued := s.approvalIds }

/-- The ids are distinct: a step queues none that was there before. -/
def Fresh (r : ApprovalRun) (x : Input) : Prop := ∀ id ∈ r.engine.queues x.1, id ∉ r.queued

instance (r : ApprovalRun) (x : Input) : Decidable (r.Fresh x) :=
  inferInstanceAs (Decidable (∀ id ∈ r.engine.queues x.1, id ∉ r.queued))

/-- How an id has left the queue, each time it has. -/
def endsOf (r : ApprovalRun) (id : String) : List (String × ApprovalEnd) :=
  r.ends.filter fun e => e.1 = id

/-- The two answers find nothing at this id. -/
def Spent (r : ApprovalRun) (id : String) : Prop :=
  (∀ resized quotes, r.engine.approveProposal id resized quotes = none) ∧ r.engine.rejectProposal id = false

end ApprovalRun

/-! ### One step -/

namespace TradingEngine

variable (s : TradingEngine)

theorem pending_noteVerdict (symbol : String) (verdict : RiskVerdict) :
    (s.noteVerdict symbol verdict).app.pendingApprovals = s.app.pendingApprovals := by
  rcases s.noteVerdict_cases symbol verdict with ⟨_, heq⟩ | ⟨_, heq⟩
  · rw [heq]
  · rw [heq]
    rfl

theorem pending_finishEntry (entry : Submission) (reply : Except String (List BrokerOrderStatus)) :
    (s.finishEntry entry reply).app.pendingApprovals = s.app.pendingApprovals := by
  obtain ⟨risk, orders, verdict, _, heq⟩ := s.finishEntry_cases entry reply
  rw [heq, pending_noteVerdict]

theorem pending_clicked {id : String} {resized : Option SizedOrder} {i : EntryInputs}
    {approval : PendingApproval} (hfind : (s.app.pendingApprovals.find? fun p => p.id = id) = some approval) :
    (s.clicked id resized i).app.pendingApprovals = s.app.pendingApprovals.erase approval := by
  unfold clicked
  rw [hfind]
  dsimp only
  split
  · split
    · rw [pending_noteVerdict, app_submit]
    · rw [app_submit]
  · rfl

theorem clicked_of_none {id : String} {resized : Option SizedOrder} {i : EntryInputs}
    (hfind : (s.app.pendingApprovals.find? fun p => p.id = id) = none) : s.clicked id resized i = s := by
  unfold clicked
  rw [hfind]

theorem attempts_noteVerdict (symbol : String) (verdict : RiskVerdict) :
    (s.noteVerdict symbol verdict).history.attempts = s.history.attempts := by
  rcases s.noteVerdict_cases symbol verdict with ⟨_, heq⟩ | ⟨_, heq⟩
  · rw [heq]
  · rw [heq]

theorem attempts_submit (order : SizedOrder) (ctx : RiskContext) (cycleId : String) :
    (s.submit order ctx cycleId).1.history.attempts.length = s.history.attempts.length + 1 := by
  obtain ⟨placed, risk, orders, heq, _, _⟩ := s.submit_cases order ctx cycleId
  rw [heq]
  exact List.length_append

theorem approveProposal_eq_submitted {id : String} {resized : Option SizedOrder}
    {quotes : String → Option Quote} : s.approveProposal id resized quotes = some .submitted ↔
      ∃ approval, (s.app.pendingApprovals.find? fun p => p.id = id) = some approval ∧
        approval.kind = .entry ∧ s.app.account.isSome ∧ approval.sized.isSome ∧ resized.isSome := by
  unfold approveProposal
  cases s.app.pendingApprovals.find? fun p => p.id = id with
  | none => simp
  | some approval =>
    cases hkind : approval.kind with
    | close =>
      cases (s.closeDesk.approveClose id s.session.phase quotes s.now).2 <;> simp [hkind]
    | entry =>
      cases s.app.account <;> cases hsized : approval.sized <;> cases resized <;> simp [hkind, hsized]

theorem attempts_clicked (id : String) (resized : Option SizedOrder) (quotes : String → Option Quote)
    (i : EntryInputs) :
    (s.clicked id resized i).history.attempts.length = s.history.attempts.length +
      if s.approveProposal id resized quotes = some .submitted then 1 else 0 := by
  by_cases hsubmits : s.approveProposal id resized quotes = some .submitted
  · rw [if_pos hsubmits]
    obtain ⟨approval, hfind, hkind, haccount, hsized, hresized⟩ := s.approveProposal_eq_submitted.mp hsubmits
    obtain ⟨account, haccount⟩ := Option.isSome_iff_exists.mp haccount
    obtain ⟨sized, hsized⟩ := Option.isSome_iff_exists.mp hsized
    obtain ⟨order, rfl⟩ := Option.isSome_iff_exists.mp hresized
    unfold clicked
    simp only [hfind, hkind, haccount, hsized]
    split
    · rw [attempts_noteVerdict, attempts_submit]
    · exact attempts_submit _ _ _ _
  · rw [if_neg hsubmits]
    unfold clicked
    split
    · rfl
    · rename_i approval hfind
      dsimp only
      split
      · rename_i account sized order hkind haccount hsized
        refine absurd (s.approveProposal_eq_submitted.mpr ⟨approval, hfind, hkind, ?_⟩) hsubmits
        simp [haccount, hsized]
      · rfl

/-- The events that may queue an idea. -/
def Event.isIdea : Event → Bool
  | .proposed _ _ _ _ | .closeProposed _ _ _ _ => true
  | _ => false

theorem queues_eq_nil {e : Event} (he : e.isIdea = false) : s.queues e = [] := by
  cases e with
  | proposed order i cycleId approvalId => cases he
  | closeProposed symbol p cycleId approvalId => cases he
  | _ => exact ite_self []

theorem pending_act {e : Event} (he : e.isIdea = false) :
    (s.act e).app.pendingApprovals.Sublist s.app.pendingApprovals := by
  have hsame : ∀ {t : TradingEngine}, t.app.pendingApprovals = s.app.pendingApprovals →
      t.app.pendingApprovals.Sublist s.app.pendingApprovals := fun h => h ▸ List.Sublist.refl _
  cases e with
  | proposed order i cycleId approvalId => cases he
  | closeProposed symbol p cycleId approvalId => cases he
  | planFetched loop reply =>
    show (s.planFetched loop reply).app.pendingApprovals.Sublist _
    unfold planFetched
    split_ifs
    · cases reply with
      | ok account => cases loop <;> exact List.nil_sublist _
      | error error => exact hsame (s.routine_rest loop).pending
    · exact hsame rfl
  | gateway e => exact hsame (s.routine_act rfl).pending
  | scheduleTicked => exact hsame (s.routine_act rfl).pending
  | planned loop ok => exact hsame (s.routine_act rfl).pending
  | eodReviewed ok => exact hsame (s.routine_act rfl).pending
  | decisionTicked deterministicOnly => exact hsame (s.routine_act rfl).pending
  | cyclePlaced reply =>
    refine hsame ?_
    show (s.cyclePlaced reply).app.pendingApprovals = _
    unfold cyclePlaced
    split
    · rw [pending_finishEntry]
    · rfl
  | clicked id resized i =>
    show (s.clicked id resized i).app.pendingApprovals.Sublist _
    cases hfind : s.app.pendingApprovals.find? fun p => p.id = id with
    | none =>
      rw [s.clicked_of_none hfind]
    | some approval =>
      rw [s.pending_clicked hfind]
      exact List.erase_sublist
  | approvalPlaced i reply =>
    refine hsame ?_
    show (s.approvalPlaced i reply).app.pendingApprovals = _
    unfold approvalPlaced
    split
    · rw [pending_finishEntry]
    · rfl
  | _ => exact (s.sameCycle_act rfl).pending

theorem approvalIds_act {e : Event} (hrun : s.running = true) (he : e.isIdea = true) :
    (s.act e).approvalIds = s.approvalIds ++ s.queues e := by
  have hsame : ∀ {t : TradingEngine}, t.app.pendingApprovals = s.app.pendingApprovals →
      t.approvalIds = s.approvalIds ++ [] :=
    fun h => (congrArg _ h).trans (List.append_nil _).symm
  unfold queues
  rw [if_pos hrun]
  cases e with
  | proposed order i cycleId approvalId =>
    show (s.proposed order i cycleId approvalId).approvalIds = _
    unfold proposed
    cases s.decision with
    | idle => exact hsame rfl
    | premarket suspended => exact hsame rfl
    | cycle day session suspended =>
      cases suspended with
      | fetching => exact hsame rfl
      | placing account entry => exact hsame rfl
      | deciding account =>
        dsimp only
        split_ifs with hmanual
        · exact List.map_append
        · refine hsame ?_
          split
          · rw [pending_noteVerdict, app_submit]
          · rw [app_submit]
  | closeProposed symbol p cycleId approvalId =>
    show (s.closeProposed symbol p cycleId approvalId).approvalIds = _
    unfold closeProposed
    cases s.decision with
    | idle => exact hsame rfl
    | premarket suspended => exact hsame rfl
    | cycle day session suspended =>
      cases suspended with
      | fetching => exact hsame rfl
      | placing account entry => exact hsame rfl
      | deciding account => exact List.map_append
  | _ => cases he

theorem pending_step {e : Event} (he : e.isIdea = false) :
    (s.step e).app.pendingApprovals.Sublist s.app.pendingApprovals := by
  refine @step_cases s (fun t => t.app.pendingApprovals.Sublist s.app.pendingApprovals) e
    (List.Sublist.refl _) (fun _ _ _ => List.Sublist.refl _) (fun _ _ reply _ => ?_) (s.pending_act he)
  unfold restarted
  split
  · exact List.Sublist.refl _
  · dsimp only
    split
    · exact List.Sublist.refl _
    · exact List.nil_sublist _

theorem approvalIds_step {e : Event} (he : e.isIdea = true) :
    (s.step e).approvalIds = s.approvalIds ++ s.queues e := by
  have hstep : s.step e = if s.running then s.act e else s := by
    cases e with
    | proposed order i cycleId approvalId => rfl
    | closeProposed symbol p cycleId approvalId => rfl
    | _ => cases he
  rw [hstep]
  by_cases hrun : s.running = true
  · rw [if_pos hrun]
    exact s.approvalIds_act hrun he
  · rw [if_neg hrun]
    unfold queues
    rw [if_neg hrun, List.append_nil]

theorem perm_diff {α : Type} [BEq α] [LawfulBEq α] {l l' : List α} (h : l'.Sublist l) :
    (l' ++ l.diff l').Perm l :=
  List.subperm_append_diff_self_of_count_le fun x _ => h.count_le x

theorem diff_append_self {α : Type} [BEq α] [LawfulBEq α] (l new : List α) : l.diff (l ++ new) = [] := by
  have hlength := (perm_diff (List.Sublist.refl l)).length_eq
  rw [List.length_append] at hlength
  have hself : l.diff l = [] := List.eq_nil_of_length_eq_zero (by omega)
  rw [List.diff_append, hself, List.nil_diff]

theorem id_of_find? {l : List PendingApproval} {id : String} {approval : PendingApproval}
    (hfind : (l.find? fun p => p.id = id) = some approval) : approval.id = id := by
  have hid := List.find?_some hfind
  exact of_decide_eq_true hid

theorem perm_erase {l : List PendingApproval} {id : String} {approval : PendingApproval}
    (hfind : (l.find? fun p => p.id = id) = some approval) :
    ((l.erase approval).map PendingApproval.id ++ [id]).Perm (l.map PendingApproval.id) := by
  have hmem : approval ∈ l := List.mem_of_find?_eq_some hfind
  have hcons := (List.perm_cons_erase hmem).map PendingApproval.id
  rw [List.map_cons, id_of_find? hfind] at hcons
  exact (List.perm_append_singleton _ _).trans hcons.symm

theorem approveProposal_eq_none {id : String} {resized : Option SizedOrder}
    {quotes : String → Option Quote} : s.approveProposal id resized quotes = none ↔
      (s.app.pendingApprovals.find? fun p => p.id = id) = none := by
  unfold approveProposal
  cases s.app.pendingApprovals.find? fun p => p.id = id with
  | none => simp
  | some approval =>
    cases hkind : approval.kind with
    | close =>
      cases (s.closeDesk.approveClose id s.session.phase quotes s.now).2 <;> simp [hkind]
    | entry =>
      cases s.app.account <;> cases hsized : approval.sized <;> cases resized <;> simp [hkind, hsized]

theorem balanced_clicked (id : String) (resized : Option SizedOrder) (i : EntryInputs)
    (quotes : String → Option Quote) :
    ((s.clicked id resized i).approvalIds ++
      ((s.approveProposal id resized quotes).toList.map fun how => (id, how)).map Prod.fst).Perm
        s.approvalIds := by
  cases hfind : s.app.pendingApprovals.find? fun p => p.id = id with
  | none =>
    rw [s.clicked_of_none hfind, s.approveProposal_eq_none.mpr hfind]
    exact (List.append_nil _).symm ▸ List.Perm.refl _
  | some approval =>
    have hsome : s.approveProposal id resized quotes ≠ none := by
      rw [ne_eq, s.approveProposal_eq_none, hfind]
      exact fun h => nomatch h
    obtain ⟨how, hhow⟩ := Option.ne_none_iff_exists'.mp hsome
    rw [hhow, approvalIds, s.pending_clicked hfind]
    exact perm_erase hfind

theorem balanced_skipped (id : String) :
    ((s.skipped id).approvalIds ++
      (if s.rejectProposal id then [(id, ApprovalEnd.skipped)] else []).map Prod.fst).Perm
        s.approvalIds := by
  unfold skipped rejectProposal
  cases hfind : s.app.pendingApprovals.find? fun p => p.id = id with
  | none => exact (List.append_nil _).symm ▸ List.Perm.refl _
  | some approval => exact perm_erase hfind

/-- **The book balances** over a step: what was there and what was queued are what is there now and what has
left. -/
theorem balanced_step (e : Event) (quotes : String → Option Quote) :
    ((s.step e).approvalIds ++ (s.ends e quotes).map Prod.fst).Perm (s.approvalIds ++ s.queues e) := by
  have hshrinks : ∀ how : ApprovalEnd, e.isIdea = false →
      ((s.step e).approvalIds ++
        ((s.approvalIds.diff (s.step e).approvalIds).map fun id => (id, how)).map Prod.fst).Perm
          (s.approvalIds ++ s.queues e) := by
    intro how he
    have hids : ((s.approvalIds.diff (s.step e).approvalIds).map fun id => (id, how)).map Prod.fst =
        s.approvalIds.diff (s.step e).approvalIds := by
      rw [List.map_map]
      exact List.map_id _
    rw [hids, s.queues_eq_nil he, List.append_nil]
    exact perm_diff ((s.pending_step he).map _)
  have hgrows : e.isIdea = true →
      ((s.step e).approvalIds ++
        ((s.approvalIds.diff (s.step e).approvalIds).map fun id => (id, ApprovalEnd.cleared)).map
          Prod.fst).Perm (s.approvalIds ++ s.queues e) := by
    intro he
    rw [s.approvalIds_step he, diff_append_self, List.map_nil, List.map_nil, List.append_nil]
  have hdown : s.running = false → (s.approvalIds ++ ([] : List (String × ApprovalEnd)).map Prod.fst).Perm
      s.approvalIds := fun _ => (List.append_nil _).symm ▸ List.Perm.refl _
  cases e with
  | clicked id resized i =>
    rw [s.queues_eq_nil rfl, List.append_nil]
    show ((if s.running then s.clicked id resized i else s).approvalIds ++
      (if s.running then (s.approveProposal id resized quotes).toList.map fun how => (id, how)
        else []).map Prod.fst).Perm _
    cases hrun : s.running with
    | true => exact s.balanced_clicked id resized i quotes
    | false => exact hdown hrun
  | skipped id =>
    rw [s.queues_eq_nil rfl, List.append_nil]
    show ((if s.running then s.skipped id else s).approvalIds ++
      (if s.running && s.rejectProposal id then [(id, ApprovalEnd.skipped)] else []).map Prod.fst).Perm _
    cases hrun : s.running with
    | true => exact s.balanced_skipped id
    | false => exact hdown hrun
  | proposed order i cycleId approvalId => exact hgrows rfl
  | closeProposed symbol p cycleId approvalId => exact hgrows rfl
  | fast e => exact hshrinks .expired rfl
  | _ => exact hshrinks .cleared rfl

end TradingEngine

/-! ### Runs -/

namespace ApprovalRun

/-- What holds between two steps. -/
structure Inv (r : ApprovalRun) : Prop where
  distinct : r.queued.Nodup
  balanced : (r.engine.approvalIds ++ r.ends.map Prod.fst).Perm r.queued

variable {r : ApprovalRun}

theorem inv_start {s : TradingEngine} (hids : s.approvalIds.Nodup) : (start s).Inv :=
  ⟨hids, (List.append_nil _).symm ▸ List.Perm.refl _⟩

theorem nodup_queues (s : TradingEngine) (e : TradingEngine.Event) : (s.queues e).Nodup := by
  unfold TradingEngine.queues
  split
  · split
    · split
      · split
        · exact List.nodup_singleton _
        · exact List.nodup_nil
      · exact List.nodup_nil
    · split
      · exact List.nodup_singleton _
      · exact List.nodup_nil
    · exact List.nodup_nil
  · exact List.nodup_nil

theorem Inv.step (h : r.Inv) (x : Input) (hfresh : r.Fresh x) : (r.step x).Inv where
  distinct := by
    refine List.nodup_append.mpr ⟨h.distinct, nodup_queues _ _, fun id hqueued new hnew heq => ?_⟩
    exact hfresh new hnew (heq ▸ hqueued)
  balanced := by
    have hstep := r.engine.balanced_step x.1 x.2
    show ((r.engine.step x.1).approvalIds ++ (r.ends ++ r.engine.ends x.1 x.2).map Prod.fst).Perm
      (r.queued ++ r.engine.queues x.1)
    rw [List.map_append]
    generalize (r.engine.step x.1).approvalIds = here, (r.engine.ends x.1 x.2).map Prod.fst = left at hstep
    have hbefore := h.balanced
    generalize r.ends.map Prod.fst = gone at hbefore ⊢
    calc here ++ (gone ++ left)
        _ = here ++ gone ++ left := (List.append_assoc _ _ _).symm
        List.Perm _ (here ++ left ++ gone) := by
          rw [List.append_assoc, List.append_assoc]
          exact List.perm_append_comm.append_left here
        List.Perm _ (r.engine.approvalIds ++ r.engine.queues x.1 ++ gone) := hstep.append_right gone
        List.Perm _ (r.engine.approvalIds ++ gone ++ r.engine.queues x.1) := by
          rw [List.append_assoc, List.append_assoc]
          exact List.perm_append_comm.append_left r.engine.approvalIds
        List.Perm _ (r.queued ++ r.engine.queues x.1) := hbefore.append_right _

theorem Inv.once (h : r.Inv) (id : String) : (r.endsOf id).length ≤ 1 := by
  have hnodup : (r.ends.map Prod.fst).Nodup :=
    (List.nodup_append.mp (h.balanced.nodup_iff.mpr h.distinct)).2.1
  have hcount := List.nodup_iff_count_le_one.mp hnodup id
  rw [List.count, List.countP_map, List.countP_eq_length_filter] at hcount
  exact hcount

theorem Inv.spent (h : r.Inv) {e : String × ApprovalEnd} (he : e ∈ r.ends) : r.Spent e.1 := by
  have hdisjoint := (List.nodup_append.mp (h.balanced.nodup_iff.mpr h.distinct)).2.2
  have hnone : (r.engine.app.pendingApprovals.find? fun p => p.id = e.1) = none := by
    refine List.find?_eq_none.mpr fun p hp hid => ?_
    exact hdisjoint p.id (List.mem_map_of_mem hp) e.1 (List.mem_map_of_mem he) (of_decide_eq_true hid)
  refine ⟨fun _ _ => r.engine.approveProposal_eq_none.mpr hnone, ?_⟩
  unfold TradingEngine.rejectProposal
  rw [hnone]
  rfl

theorem ends_run (r : ApprovalRun) (inputs : List Input) : r.ends <+: (Trace.run step r inputs).ends := by
  have hrefl : ∀ r : ApprovalRun, r.ends <+: r.ends := fun r => List.prefix_refl r.ends
  have htrans : ∀ a b c : ApprovalRun, a.ends <+: b.ends → b.ends <+: c.ends → a.ends <+: c.ends :=
    fun _ _ _ h h' => h.trans h'
  have hgrows : ∀ x : Input, ∀ r : ApprovalRun, r.ends <+: (r.step x).ends :=
    fun _ _ => List.prefix_append _ _
  exact Trace.rel_run hrefl htrans (Trace.each_of_forall fun x _ => hgrows x)

/-- **Approvals are used at most once**: each id has left the queue at most once, and once it has, both answers
find nothing, however the run goes on. -/
theorem approvals_used_once (s : TradingEngine) (inputs : List Input) (hids : s.approvalIds.Nodup)
    (hfresh : Trace.Each step Fresh (start s) inputs) (pre mid : List Input) (hrun : pre ++ mid <+: inputs) :
    (∀ id, ((Trace.run step (start s) pre).endsOf id).length ≤ 1) ∧
      ∀ e ∈ (Trace.run step (start s) pre).ends, (Trace.run step (start s) (pre ++ mid)).Spent e.1 := by
  have hinv : Trace.Always step Inv (start s) inputs :=
    Trace.always_of_inductive (fun _ x h hfresh => h.step x hfresh) (fun _ h => h) (inv_start hids) hfresh
  have hvisited := (Trace.always_iff_prefixes (start s) inputs).mp hinv
  refine ⟨fun id => ?_, fun e he => ?_⟩
  · exact (hvisited pre ((List.prefix_append pre mid).trans hrun)).once id
  · refine (hvisited (pre ++ mid) hrun).spent ?_
    rw [Trace.run_append]
    exact (ends_run _ mid).subset he

/-! #### A double click -/

section

open TradingEngine

/-- A cycle in manual mode with two ideas. The first is clicked twice, the second is skipped and then clicked. -/
def doubleClick : List Input :=
  let ideas : List TradingEngine.Event := [
    .modeSet .manual, .advanced (clock 0 56000), .decisionTicked false,
    .cycleFetched (.ok (accountAt (clock 0 56000) 100000)),
    .proposed (smallEntry "AAPL") (entryInputs "AAPL" (clock 0 56000)) "c1" "a1",
    .proposed (smallEntry "MSFT") (entryInputs "MSFT" (clock 0 56000)) "c1" "a2"]
  let answers : List TradingEngine.Event := [
    .clicked "a1" (some (smallEntry "AAPL")) (entryInputs "AAPL" (clock 0 56000)),
    .clicked "a1" (some (smallEntry "AAPL")) (entryInputs "AAPL" (clock 0 56000)),
    .skipped "a2", .approvalPlaced 0 (.ok []),
    .clicked "a2" (some (smallEntry "MSFT")) (entryInputs "MSFT" (clock 0 56000))]
  (planningPass (clock 0 45000) ++ ideas ++ answers).map fun e => (e, fun _ => none)

example : (Trace.run step (start dayZero) doubleClick).ends = [("a1", .submitted), ("a2", .skipped)] := by
  decide +kernel

theorem approvals_used_once_doubleClick :
    (∀ id, ((Trace.run step (start dayZero) doubleClick).endsOf id).length ≤ 1) ∧
      ∀ e ∈ (Trace.run step (start dayZero) doubleClick).ends,
        (Trace.run step (start dayZero) (doubleClick ++ [])).Spent e.1 :=
  approvals_used_once dayZero doubleClick (by decide +kernel) (by decide +kernel) doubleClick []
    (by rw [List.append_nil])

end

end ApprovalRun

end AiTrader
