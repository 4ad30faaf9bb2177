import AiTrader.Analytics.Ranking

/-!
# What the focus list promises

Through the contest the members are incumbents and symbols added in this call, as many as there were at its
beginning (`ContestInv`); so the list has no duplicates, keeps the protected symbols and stays within its
size, over any sequence of updates (`focus_list_invariants`).

What is removed is what has left the list. What is added is what has joined it only when no protected symbol
joins, which is not recorded, and nobody promoted in this call is displaced again (`focus_delta_iff`).

The contest opens with the best incumbents and, in the slots that are free, the best challengers; the protected
symbols have their places beside it. It is a run over the challengers, best first, and `ContestInv` is kept by every
turn: a turn is not judged, ends or continues a streak, or displaces the weakest member (`contestOne_members`). That
nobody promoted is displaced again needs the scores: the challengers come in falling order, so where no score is
negative a later one cannot beat a symbol promoted before by any margin (`spares_of_nonneg`).
-/

namespace AiTrader.FocusListManager

open Lib

variable {m : FocusListManager} {i : FocusInputs}

theorem mem_keep {s : String} :
    s ∈ m.keep i ↔ s ∈ i.protectedSymbols.1 ∧ (s ∈ i.scored ∨ s ∈ m.current) := by
  simp [keep]

theorem mem_incumbents {s : String} :
    s ∈ m.incumbents i ↔ s ∈ m.current ∧ s ∉ m.keep i ∧ s ∈ i.scored := by
  simp [incumbents]

theorem mem_challengers {s : String} :
    s ∈ m.challengers i ↔ s ∈ i.scored ∧ s ∉ m.keep i ∧ s ∉ m.incumbents i := by
  simp [challengers]

theorem not_mem_current_of_challenger {s : String} (h : s ∈ m.challengers i) : s ∉ m.current := by
  obtain ⟨hscored, hkeep, hincumbent⟩ := mem_challengers.mp h
  exact fun hcurrent => hincumbent (mem_incumbents.mpr ⟨hcurrent, hkeep, hscored⟩)

theorem nodup_keep : (m.keep i).Nodup := i.protectedSymbols.2.filter _

theorem nodup_challengers : (m.challengers i).Nodup := by
  rw [challengers, nodup_byScore]
  exact i.features.nodup.filter _

/-! ### The contest -/

structure ContestInv (m : FocusListManager) (i : FocusInputs) (c : Contest) : Prop where
  nodup : c.retained.Nodup
  length : c.retained.length ≤ m.slots i
  members : ∀ s ∈ c.retained, s ∈ m.incumbents i ∨ s ∈ c.added
  challenged : ∀ s ∈ c.added, s ∈ m.challengers i
  few : c.added.length ≤ m.maxPromotionsPerCycle

/-- The member that a challenger displaces. -/
def displaced (m : FocusListManager) (i : FocusInputs) (c : Contest) (symbol : String) : Option String :=
  if c.stopped = true ∨ symbol ∈ c.added ∨ m.maxPromotionsPerCycle ≤ c.added.length then none
  else (c.retained.argmin i.score).filter fun weakest =>
    weakest ∉ i.protectedSymbols.1 ∧ m.Beats i symbol weakest ∧ m.persistenceCycles ≤ streak c symbol

theorem mem_displaced {c : Contest} {symbol weakest : String} :
    weakest ∈ m.displaced i c symbol ↔
      c.stopped = false ∧ symbol ∉ c.added ∧ c.added.length < m.maxPromotionsPerCycle ∧
        weakest ∈ c.retained.argmin i.score ∧ weakest ∉ i.protectedSymbols.1 ∧ m.Beats i symbol weakest ∧
        m.persistenceCycles ≤ streak c symbol := by
  unfold displaced
  split_ifs with hout
  · refine ⟨fun hmem => (nomatch hmem), fun h => ?_⟩
    obtain ⟨hstopped, hnew, hfew, -⟩ := h
    rcases hout with hout | hout | hout
    · rw [hstopped] at hout
      cases hout
    · exact absurd hout hnew
    · exact absurd hfew (not_lt.mpr hout)
  · obtain ⟨hstopped, hnew, hfew⟩ := by simpa only [not_or] using hout
    rw [Option.mem_filter_iff, decide_eq_true_eq]
    have hstopped : c.stopped = false := eq_false_of_ne_true hstopped
    have hfew := not_le.mp hfew
    tauto

/-- The turn of a challenger reaches the comparison. -/
def Judged (m : FocusListManager) (i : FocusInputs) (c : Contest) (symbol : String) : Prop :=
  c.stopped = false ∧ symbol ∉ c.added ∧ c.added.length < m.maxPromotionsPerCycle ∧
    ∃ weakest ∈ c.retained.argmin i.score, weakest ∉ i.protectedSymbols.1

instance (m : FocusListManager) (i : FocusInputs) (c : Contest) (symbol : String) :
    Decidable (Judged m i c symbol) :=
  inferInstanceAs (Decidable (_ ∧ _ ∧ _ ∧ ∃ weakest ∈ c.retained.argmin i.score, weakest ∉ i.protectedSymbols.1))

theorem contestOne_cases (c : Contest) (symbol : String) :
    (¬ Judged m i c symbol ∧ m.displaced i c symbol = none ∧ ∃ stopped, m.contestOne i c symbol = { c with stopped }) ∨
      Judged m i c symbol ∧ ∃ weakest ∈ c.retained.argmin i.score,
        (m.displaced i c symbol = none ∧
            m.contestOne i c symbol = { c with streaks := c.streaks.erase symbol }) ∨
          (m.Beats i symbol weakest ∧ m.displaced i c symbol = none ∧
            m.contestOne i c symbol = { c with streaks := c.streaks.set symbol (streak c symbol) }) ∨
          m.displaced i c symbol = some weakest ∧ m.contestOne i c symbol =
            { c with
              retained := c.retained.erase weakest ++ [symbol]
              added := c.added ++ [symbol]
              streaks := c.streaks.erase symbol } := by
  by_cases hjudged : Judged m i c symbol
  swap
  · have hnone : m.displaced i c symbol = none := by
      rw [Option.eq_none_iff_forall_not_mem]
      intro weakest hmem
      obtain ⟨hstopped, hnew, hfew, hweakest, hprotected, -⟩ := mem_displaced.mp hmem
      exact hjudged ⟨hstopped, hnew, hfew, weakest, hweakest, hprotected⟩
    refine Or.inl ⟨hjudged, hnone, ?_⟩
    unfold contestOne
    by_cases hstopped : c.stopped = true
    · exact ⟨c.stopped, if_pos hstopped⟩
    by_cases hskip : symbol ∈ c.added ∨ m.maxPromotionsPerCycle ≤ c.added.length
    · exact ⟨c.stopped, by rw [if_neg hstopped, if_pos hskip]⟩
    rw [if_neg hstopped, if_neg hskip]
    obtain ⟨hnew, hfew⟩ := not_or.mp hskip
    cases hweakest : c.retained.argmin i.score with
    | none => exact ⟨true, rfl⟩
    | some weakest =>
      have hprotected : weakest ∈ i.protectedSymbols.1 := by
        by_contra hprotected
        exact hjudged ⟨eq_false_of_ne_true hstopped, hnew, not_le.mp hfew, weakest, hweakest, hprotected⟩
      exact ⟨true, if_pos hprotected⟩
  obtain ⟨hstopped, hnew, hfew, weakest, hweakest, hprotected⟩ := hjudged
  refine Or.inr ⟨⟨hstopped, hnew, hfew, weakest, hweakest, hprotected⟩, weakest, hweakest, ?_⟩
  have hskip : ¬ (symbol ∈ c.added ∨ m.maxPromotionsPerCycle ≤ c.added.length) := not_or.mpr ⟨hnew, not_le.mpr hfew⟩
  have hout : ¬ (c.stopped = true ∨ symbol ∈ c.added ∨ m.maxPromotionsPerCycle ≤ c.added.length) :=
    not_or.mpr ⟨ne_true_of_eq_false hstopped, hskip⟩
  unfold contestOne displaced
  rw [if_neg (ne_true_of_eq_false hstopped), if_neg hskip, if_neg hout, Option.mem_def.mp hweakest]
  dsimp only
  rw [if_neg hprotected, Option.filter_some]
  by_cases hbeats : m.Beats i symbol weakest
  · rw [if_pos hbeats]
    by_cases hstreak : m.persistenceCycles ≤ streak c symbol
    · rw [if_pos hstreak, if_pos (decide_eq_true ⟨hprotected, hbeats, hstreak⟩)]
      exact Or.inr (Or.inr ⟨rfl, rfl⟩)
    · rw [if_neg hstreak, if_neg fun h => hstreak (of_decide_eq_true h).2.2]
      exact Or.inr (Or.inl ⟨hbeats, rfl, rfl⟩)
  · rw [if_neg hbeats, if_neg fun h => hbeats (of_decide_eq_true h).2.1]
    exact Or.inl ⟨rfl, rfl⟩

/-- Members change by displacement only. -/
theorem contestOne_members (c : Contest) (symbol : String) :
    (m.displaced i c symbol = none ∧ (m.contestOne i c symbol).retained = c.retained ∧
        (m.contestOne i c symbol).added = c.added) ∨
      ∃ weakest ∈ c.retained, m.displaced i c symbol = some weakest ∧ symbol ∉ c.added ∧
        c.added.length < m.maxPromotionsPerCycle ∧
        (m.contestOne i c symbol).retained = c.retained.erase weakest ++ [symbol] ∧
        (m.contestOne i c symbol).added = c.added ++ [symbol] := by
  rcases @contestOne_cases m i c symbol with
    ⟨-, hnone, stopped, hturn⟩ | ⟨hjudged, weakest, hweakest, ⟨hnone, hturn⟩ | ⟨-, hnone, hturn⟩ | ⟨hsome, hturn⟩⟩
  · exact Or.inl ⟨hnone, by rw [hturn], by rw [hturn]⟩
  · exact Or.inl ⟨hnone, by rw [hturn], by rw [hturn]⟩
  · exact Or.inl ⟨hnone, by rw [hturn], by rw [hturn]⟩
  · obtain ⟨-, hnew, hfew, -⟩ := hjudged
    exact Or.inr ⟨weakest, List.argmin_mem hweakest, hsome, hnew, hfew, by rw [hturn], by rw [hturn]⟩

theorem mem_added_contestOne {c : Contest} {symbol s : String} :
    s ∈ (m.contestOne i c symbol).added ↔ s ∈ c.added ∨ s = symbol ∧ m.displaced i c symbol ≠ none := by
  rcases @contestOne_members m i c symbol with ⟨hnone, -, hadded⟩ | ⟨weakest, -, hsome, -, -, -, hadded⟩
  · rw [hadded, hnone]
    tauto
  · rw [hadded, hsome, List.mem_append, List.mem_singleton, and_iff_left (Option.some_ne_none weakest)]

theorem mem_retained_contestOne {c : Contest} (hnodup : c.retained.Nodup) {symbol s : String}
    (hold : s = symbol → s ∈ c.added) :
    s ∈ (m.contestOne i c symbol).retained ↔ s ∈ c.retained ∧ s ∉ m.displaced i c symbol := by
  rcases @contestOne_members m i c symbol with ⟨hnone, hretained, -⟩ | ⟨weakest, -, hsome, hnew, -, hretained, -⟩
  · rw [hretained, hnone]
    exact (and_iff_left fun hmem => (nomatch hmem)).symm
  · have hne : s ≠ symbol := by
      rintro rfl
      exact hnew (hold rfl)
    rw [hretained, hsome, List.mem_append, List.mem_singleton, or_iff_left hne, List.Nodup.mem_erase_iff hnodup,
      and_comm, Option.mem_some_iff, eq_comm]

theorem ContestInv.contestOne {c : Contest} (h : ContestInv m i c) {symbol : String}
    (hsymbol : symbol ∈ m.challengers i) : ContestInv m i (m.contestOne i c symbol) := by
  rcases @contestOne_members m i c symbol with
    ⟨-, hretained, hadded⟩ | ⟨weakest, hweakest, -, hnew, hfew, hretained, hadded⟩
  · exact ⟨hretained ▸ h.nodup, hretained ▸ h.length, by rw [hretained, hadded]; exact h.members,
      hadded ▸ h.challenged, hadded ▸ h.few⟩
  have hout : symbol ∉ c.retained := by
    intro hmem
    rcases h.members symbol hmem with hincumbent | hmem
    · exact (mem_challengers.mp hsymbol).2.2 hincumbent
    · exact hnew hmem
  have hpos := List.length_pos_of_mem hweakest
  refine ⟨?_, ?_, fun s hmem => ?_, fun s hmem => ?_, ?_⟩
  · rw [hretained]
    refine List.Nodup.append (h.nodup.erase _) (List.nodup_singleton _) ?_
    intro s hmem hs
    obtain rfl := List.mem_singleton.mp hs
    exact hout (List.mem_of_mem_erase hmem)
  · have hlength := h.length
    rw [hretained, List.length_append, List.length_erase_of_mem hweakest, List.length_singleton]
    omega
  · rw [hretained, List.mem_append] at hmem
    rw [hadded, List.mem_append]
    rcases hmem with hmem | hmem
    · exact (h.members s (List.mem_of_mem_erase hmem)).imp id Or.inl
    · exact Or.inr (Or.inr hmem)
  · rw [hadded, List.mem_append] at hmem
    rcases hmem with hmem | hmem
    · exact h.challenged s hmem
    · obtain rfl := List.mem_singleton.mp hmem
      exact hsymbol
  · rw [hadded, List.length_append, List.length_singleton]
    omega

theorem contestInv_opening (hcurrent : m.current.Nodup) : ContestInv m i (m.opening i) := by
  have hbest : ∀ s ∈ m.best i, s ∈ m.incumbents i := fun s hmem => mem_byScore.mp (List.mem_of_mem_take hmem)
  have hfillers : ∀ s ∈ m.fillers i, s ∈ m.challengers i := fun s hmem => List.mem_of_mem_take hmem
  have hincumbents : (byScore i.score (m.incumbents i)).Nodup := nodup_byScore.mpr (hcurrent.filter _)
  have hlength : (m.best i).length ≤ m.slots i := List.length_take_le _ _
  have hfill : (m.fillers i).length ≤ min (m.slots i - (m.best i).length) m.maxPromotionsPerCycle :=
    List.length_take_le _ _
  refine ⟨?_, ?_, fun s hmem => ?_, hfillers, hfill.trans (min_le_right _ _)⟩
  · refine List.Nodup.append (hincumbents.sublist (List.take_sublist _ _))
      (nodup_challengers.sublist (List.take_sublist _ _)) ?_
    exact fun s hmem hfiller => (mem_challengers.mp (hfillers s hfiller)).2.2 (hbest s hmem)
  · have hroom := hfill.trans (min_le_left _ _)
    show (m.best i ++ m.fillers i).length ≤ m.slots i
    rw [List.length_append]
    omega
  · rcases List.mem_append.mp hmem with hmem | hmem
    · exact Or.inl (hbest s hmem)
    · exact Or.inr hmem

theorem each_challenger (c : Contest) :
    Trace.Each (m.contestOne i) (fun _ symbol => symbol ∈ m.challengers i) c (m.challengers i) :=
  Trace.each_of_forall fun _ hmem _ => hmem

theorem contestInv_run (hcurrent : m.current.Nodup) {symbols : List String}
    (hsymbols : ∀ s ∈ symbols, s ∈ m.challengers i) :
    ContestInv m i (Trace.run (m.contestOne i) (m.opening i) symbols) := by
  have hstep : ∀ (c : Contest) symbol, ContestInv m i c → symbol ∈ m.challengers i →
      ContestInv m i (m.contestOne i c symbol) := fun c symbol h hsymbol => h.contestOne hsymbol
  exact (Trace.always_of_inductive hstep (fun c h => h) (contestInv_opening hcurrent)
    (Trace.each_of_forall fun s hmem _ => hsymbols s hmem)).last

theorem contestInv_outcome (hcurrent : m.current.Nodup) : ContestInv m i (m.outcome i) :=
  contestInv_run hcurrent fun _ hmem => hmem

/-! ### One update -/

theorem mem_newFocus {s : String} : s ∈ m.newFocus i ↔ s ∈ m.keep i ∨ s ∈ (m.outcome i).retained := by
  rw [newFocus, List.mem_append, List.mem_filter, decide_eq_true_eq]
  tauto

/-- What is promised after one update. -/
structure FocusLaw (m : FocusListManager) (i : FocusInputs) : Prop where
  nodup : (m.update i).focus.Nodup
  protects : ∀ s ∈ i.protectedSymbols.1, s ∈ i.scored ∨ s ∈ m.current → s ∈ (m.update i).focus
  length : (m.update i).focus.length ≤ max m.size (m.keep i).length
  promotions : (m.update i).added.length ≤ m.maxPromotionsPerCycle

theorem focusLaw_of_nodup (hcurrent : m.current.Nodup) : FocusLaw m i := by
  have hcontest := @contestInv_outcome m i hcurrent
  refine ⟨?_, fun s hprotected hknown => ?_, ?_, hcontest.few⟩
  · refine List.Nodup.append nodup_keep (hcontest.nodup.filter _) ?_
    intro s hkeep hmem
    exact (of_decide_eq_true (List.mem_filter.mp hmem).2) hkeep
  · exact mem_newFocus.mpr (Or.inl (mem_keep.mpr ⟨hprotected, hknown⟩))
  · have hmembers : ((m.outcome i).retained.filter fun s => s ∉ m.keep i).length ≤ m.slots i :=
      (List.length_filter_le _ _).trans hcontest.length
    show (m.keep i ++ (m.outcome i).retained.filter fun s => s ∉ m.keep i).length ≤ _
    rw [List.length_append]
    unfold slots at hmembers
    omega

/-- The manager after an update. -/
def next (m : FocusListManager) (i : FocusInputs) : FocusListManager := (m.update i).manager

theorem each_focusLaw (hcurrent : m.current.Nodup) {updates : List FocusInputs} :
    Trace.Each next FocusLaw m updates := by
  have hstep : ∀ (m : FocusListManager) i, m.current.Nodup → (m.next i).current.Nodup :=
    fun m i hcurrent => (focusLaw_of_nodup hcurrent).nodup
  exact Trace.each_of_invariant hstep (fun m i hcurrent => focusLaw_of_nodup hcurrent) hcurrent

/-- **The focus list keeps its promises.** From a list without duplicates, over every sequence of updates
with any features, scanner ranks and protected symbols: after each of them the list has no duplicates and
holds every protected symbol with features or with a place on the last list, it is no longer than the size
or the protected symbols on it, and no more symbols are added than may be promoted. -/
theorem focus_list_invariants (m : FocusListManager) (hcurrent : m.current.Nodup) (updates : List FocusInputs) :
    Trace.Each next FocusLaw m updates :=
  each_focusLaw hcurrent

/-! ### The delta -/

/-- What is added is what has joined the list, and what is removed is what has left it. -/
def ExactDelta (m : FocusListManager) (i : FocusInputs) : Prop :=
  (m.update i).added.toFinset = (m.update i).focus.toFinset \ m.current.toFinset ∧
    (m.update i).removed.toFinset = m.current.toFinset \ (m.update i).focus.toFinset

instance (m : FocusListManager) (i : FocusInputs) : Decidable (ExactDelta m i) :=
  inferInstanceAs (Decidable (_ ∧ _))

/-- No protected symbol joins the list. -/
def ProtectedListed (m : FocusListManager) (i : FocusInputs) : Prop :=
  ∀ s ∈ i.protectedSymbols.1, s ∈ i.scored → s ∈ m.current

/-- The challenger displaces nobody who was promoted in this call. -/
def SparesPromoted (m : FocusListManager) (i : FocusInputs) (c : Contest) (symbol : String) : Prop :=
  ∀ weakest ∈ m.displaced i c symbol, weakest ∉ c.added

/-- Whoever was added is still there. -/
def AddedStay (c : Contest) : Prop := ∀ s ∈ c.added, s ∈ c.retained

theorem addedStay_contestOne {c : Contest} (h : ContestInv m i c) {symbol : String} (hstay : AddedStay c) :
    AddedStay (m.contestOne i c symbol) ↔ SparesPromoted m i c symbol := by
  constructor
  · intro hafter weakest hdisplaced hpromoted
    have hthere := hafter weakest (mem_added_contestOne.mpr (Or.inl hpromoted))
    exact ((mem_retained_contestOne h.nodup fun _ => hpromoted).mp hthere).2 hdisplaced
  · intro hspares s hmem
    rcases mem_added_contestOne.mp hmem with hpromoted | ⟨rfl, hdisplaced⟩
    · exact (mem_retained_contestOne h.nodup fun _ => hpromoted).mpr
        ⟨hstay s hpromoted, fun hloser => hspares s hloser hpromoted⟩
    · rcases @contestOne_members m i c s with ⟨hnone, -⟩ | ⟨_, -, -, -, -, hretained, -⟩
      · exact absurd hnone hdisplaced
      · rw [hretained]
        exact List.mem_append_right _ (List.mem_singleton_self s)

theorem not_addedStay_contestOne {c : Contest} (h : ContestInv m i c) {symbol : String} (hstay : ¬ AddedStay c) :
    ¬ AddedStay (m.contestOne i c symbol) := by
  refine mt (fun hafter s hmem => ?_) hstay
  exact ((mem_retained_contestOne h.nodup fun _ => hmem).mp (hafter s (mem_added_contestOne.mpr (Or.inl hmem)))).1

theorem addedStay_outcome_iff (hcurrent : m.current.Nodup) :
    AddedStay (m.outcome i) ↔
      Trace.Each (m.contestOne i) (SparesPromoted m i) (m.opening i) (m.challengers i) := by
  have hstep : ∀ (c : Contest) symbol, ContestInv m i c → symbol ∈ m.challengers i →
      ContestInv m i (m.contestOne i c symbol) := fun c symbol h hsymbol => h.contestOne hsymbol
  have hkeep : ∀ (c : Contest) symbol, ContestInv m i c → symbol ∈ m.challengers i → AddedStay c →
      (AddedStay (m.contestOne i c symbol) ↔ SparesPromoted m i c symbol) :=
    fun c symbol h _ hstay => addedStay_contestOne h hstay
  have hlost : ∀ (c : Contest) symbol, ContestInv m i c → symbol ∈ m.challengers i → ¬ AddedStay c →
      ¬ AddedStay (m.contestOne i c symbol) := fun c symbol h _ hstay => not_addedStay_contestOne h hstay
  have hopening : AddedStay (m.opening i) := fun s hmem => List.mem_append_right _ hmem
  exact Trace.run_iff_each hstep hkeep hlost (contestInv_opening hcurrent) (each_challenger _) hopening

/-- **When the delta is exact.** For every list without duplicates and every update: what is added and what
is removed are the differences between the old list and the new one precisely when every protected symbol
with features is on the old list, and in the contest no challenger displaces a symbol that was promoted in
the same call. -/
theorem focus_delta_iff (m : FocusListManager) (i : FocusInputs) (hcurrent : m.current.Nodup) :
    ExactDelta m i ↔ ProtectedListed m i ∧
      Trace.Each (m.contestOne i) (SparesPromoted m i) (m.opening i) (m.challengers i) := by
  rw [← addedStay_outcome_iff hcurrent]
  have hcontest := @contestInv_outcome m i hcurrent
  have hremoved : (m.update i).removed.toFinset = m.current.toFinset \ (m.update i).focus.toFinset := by
    ext s
    simp [update, removed]
  have hadded : (m.update i).added.toFinset = (m.update i).focus.toFinset \ m.current.toFinset ↔
      ∀ s, s ∈ (m.outcome i).added ↔ s ∈ m.newFocus i ∧ s ∉ m.current := by
    rw [Finset.ext_iff]
    simp [update]
  unfold ExactDelta
  rw [and_iff_left hremoved, hadded]
  constructor
  · intro hexact
    refine ⟨fun s hprotected hscored => ?_, fun s hmem => ?_⟩
    · by_contra hnew
      have hkeep : s ∈ m.keep i := mem_keep.mpr ⟨hprotected, Or.inl hscored⟩
      have hmem := (hexact s).mpr ⟨mem_newFocus.mpr (Or.inl hkeep), hnew⟩
      exact (mem_challengers.mp (hcontest.challenged s hmem)).2.1 hkeep
    · rcases mem_newFocus.mp ((hexact s).mp hmem).1 with hkeep | hretained
      · exact absurd hkeep (mem_challengers.mp (hcontest.challenged s hmem)).2.1
      · exact hretained
  · rintro ⟨hlisted, hstay⟩ s
    constructor
    · intro hmem
      exact ⟨mem_newFocus.mpr (Or.inr (hstay s hmem)), not_mem_current_of_challenger (hcontest.challenged s hmem)⟩
    · rintro ⟨hfocus, hnew⟩
      rcases mem_newFocus.mp hfocus with hkeep | hretained
      · obtain ⟨hprotected, hscored | hlast⟩ := mem_keep.mp hkeep
        · exact absurd (hlisted s hprotected hscored) hnew
        · exact absurd hlast hnew
      · rcases hcontest.members s hretained with hincumbent | hmem
        · exact absurd (mem_incumbents.mp hincumbent).1 hnew
        · exact hmem

/-! ### Who can be displaced after a promotion -/

/-- The contest takes the challengers best first. Where no score is negative, nobody who comes later beats a
symbol promoted before by any margin. -/
theorem spares_of_nonneg (hcurrent : m.current.Nodup) (hmargin : 0 ≤ m.churnMargin)
    (hscore : ∀ s ∈ m.challengers i, 0 ≤ i.score s) :
    Trace.Each (m.contestOne i) (SparesPromoted m i) (m.opening i) (m.challengers i) := by
  have hloop : ∀ (rest : List String) (c : Contest), ContestInv m i c → (∀ s ∈ rest, s ∈ m.challengers i) →
      rest.Pairwise (fun a b => i.score b ≤ i.score a) →
      (∀ a ∈ c.added, ∀ s ∈ rest, s ∈ c.added ∨ i.score s ≤ i.score a) →
      Trace.Each (m.contestOne i) (SparesPromoted m i) c rest := by
    intro rest
    induction rest with
    | nil => exact fun _ _ _ _ _ => trivial
    | cons x rest ih =>
      intro c h hrest hsorted horder
      rw [List.pairwise_cons] at hsorted
      refine ⟨fun weakest hdisplaced hpromoted => ?_, ih _ (h.contestOne (hrest x List.mem_cons_self))
        (fun s hmem => hrest s (List.mem_cons_of_mem _ hmem)) hsorted.2 fun a ha s hs => ?_⟩
      · obtain ⟨-, hnew, -, -, -, hbeats, -⟩ := mem_displaced.mp hdisplaced
        have hle : i.score x ≤ i.score weakest :=
          (horder weakest hpromoted x List.mem_cons_self).resolve_left hnew
        have hpos := mul_nonneg (hscore weakest (h.challenged weakest hpromoted)) hmargin
        unfold Beats at hbeats
        linarith
      · have hbefore : ∀ a ∈ c.added, s ∈ c.added ∨ i.score s ≤ i.score a :=
          fun a ha => horder a ha s (List.mem_cons_of_mem _ hs)
        rcases mem_added_contestOne.mp ha with ha | ⟨rfl, -⟩
        · exact (hbefore a ha).imp (fun hmem => mem_added_contestOne.mpr (Or.inl hmem)) id
        · exact Or.inr (hsorted.1 s hs)
  have hsorted : (m.challengers i).Pairwise fun a b => i.score b ≤ i.score a := pairwise_byScore _ _
  refine hloop _ _ (contestInv_opening hcurrent) (fun s hmem => hmem) hsorted fun a ha s hs => ?_
  -- the fillers are the first challengers
  have hsplit := List.take_append_drop (min (m.slots i - (m.best i).length) m.maxPromotionsPerCycle)
    (m.challengers i)
  rw [← hsplit] at hsorted hs
  rcases List.mem_append.mp hs with hs | hs
  · exact Or.inl hs
  · exact Or.inr ((List.pairwise_append.mp hsorted).2.2 a ha s hs)

/-! #### Two symbols -/

instance (m : FocusListManager) (i : FocusInputs) : Decidable (ProtectedListed m i) :=
  inferInstanceAs (Decidable (∀ s ∈ i.protectedSymbols.1, s ∈ i.scored → s ∈ m.current))

instance (m : FocusListManager) (i : FocusInputs) (c : Contest) (symbol : String) :
    Decidable (SparesPromoted m i c symbol) :=
  inferInstanceAs (Decidable (∀ weakest ∈ m.displaced i c symbol, weakest ∉ c.added))

/-- A quiet symbol and a busy one. -/
def quietAndBusy : Dict String FeaturePack :=
  (Dict.empty.set "AAPL" { symbol := "AAPL", price := 100 }).set "MSFT"
    { symbol := "MSFT", price := 100, rvol := 5 }

theorem focus_list_invariants_session :
    Trace.Each next FocusLaw {} [{ features := quietAndBusy }, { features := quietAndBusy }] :=
  focus_list_invariants {} (by decide) _

theorem focus_delta_promotion : ExactDelta { size := 1 } { features := quietAndBusy } :=
  (focus_delta_iff { size := 1 } { features := quietAndBusy } (by decide)).mpr (by decide +kernel)

/-- A position is taken in a symbol that is not on the list: it joins and is not reported. -/
theorem focus_delta_held : ¬ ∀ (m : FocusListManager) (i : FocusInputs), m.current.Nodup → ExactDelta m i := by
  intro h
  have hexact := h {} { features := quietAndBusy, protectedSymbols := ⟨["AAPL"], by decide⟩ } (by decide)
  exact absurd hexact (by decide +kernel)

end AiTrader.FocusListManager
