import AiTrader.Analytics.FocusList

/-!
# Who displaces whom

A challenger displaces the weakest member when its score exceeds the member's by the margin. The margin is a
factor: it lifts the bar above a positive score and lowers it below a negative one, so that under a negative
score there is a band of scores that beat the member without being higher (`Inverted`).

`displaces_weaker_iff`: in the turns of an update's contest the places of incumbents go to higher scores exactly
where no ripe challenger from that band meets its member. An incumbent whose place is taken has left the list
(`removed_of_displaced`).

What a turn does to the members is read off them: the challenger takes a place where one member goes and it comes last
(`TakesSlot`), and this is the member that the contest looks at (`takesSlot_iff`), also if the list had duplicates.
With the member fixed, the law is about two scores and the margin: at a score that is not negative a factor of one or
more only lifts the bar, and at a negative one the band is what it lets through.
-/

namespace AiTrader.FocusListManager

open Lib

variable {m : FocusListManager} {i : FocusInputs}

/-- In its turn the challenger takes the place of a member. -/
def TakesSlot (m : FocusListManager) (i : FocusInputs) (c : Contest) (symbol weakest : String) : Prop :=
  (m.contestOne i c symbol).retained = c.retained.erase weakest ++ [symbol] ∧
    (m.contestOne i c symbol).added = c.added ++ [symbol]

instance (m : FocusListManager) (i : FocusInputs) (c : Contest) (symbol weakest : String) :
    Decidable (TakesSlot m i c symbol weakest) :=
  inferInstanceAs (Decidable (_ ∧ _))

/-- It takes the place of an incumbent only with a higher score. -/
def DisplacesWeaker (m : FocusListManager) (i : FocusInputs) (c : Contest) (symbol : String) : Prop :=
  ∀ weakest ∈ c.retained, TakesSlot m i c symbol weakest → weakest ∈ m.incumbents i → i.score weakest < i.score symbol

/-- The score beats a negative one by the margin and is not higher. -/
def Inverted (m : FocusListManager) (i : FocusInputs) (symbol weakest : String) : Prop :=
  i.score weakest < 0 ∧ i.score weakest * (1 + m.churnMargin) < i.score symbol ∧ i.score symbol ≤ i.score weakest

/-- The challenger would take a slot if it beat the weakest member. -/
def Ripe (m : FocusListManager) (c : Contest) (symbol : String) : Prop :=
  c.stopped = false ∧ symbol ∉ c.added ∧ c.added.length < m.maxPromotionsPerCycle ∧
    m.persistenceCycles ≤ streak c symbol

/-- No ripe challenger meets a weakest incumbent from the band under its score. -/
def OutsideBand (m : FocusListManager) (i : FocusInputs) (c : Contest) (symbol : String) : Prop :=
  Ripe m c symbol → ∀ weakest ∈ c.retained.argmin i.score, weakest ∈ m.incumbents i → ¬ Inverted m i symbol weakest

instance (m : FocusListManager) (i : FocusInputs) (c : Contest) (symbol : String) :
    Decidable (DisplacesWeaker m i c symbol) :=
  inferInstanceAs (Decidable (∀ weakest ∈ c.retained, TakesSlot m i c symbol weakest → _ → _))

theorem not_protected_of_incumbent {s : String} (h : s ∈ m.incumbents i) : s ∉ i.protectedSymbols.1 := by
  obtain ⟨-, hkeep, hscored⟩ := mem_incumbents.mp h
  exact fun hprotected => hkeep (mem_keep.mpr ⟨hprotected, Or.inl hscored⟩)

/-- The member whose place is taken is the one that `displaced` names. -/
theorem takesSlot_iff {c : Contest} {symbol weakest : String} :
    weakest ∈ c.retained ∧ TakesSlot m i c symbol weakest ↔ weakest ∈ m.displaced i c symbol := by
  unfold TakesSlot
  rcases @contestOne_members m i c symbol with
    ⟨hnone, -, hadded⟩ | ⟨named, hnamed, hsome, -, -, hretained, hadded⟩
  · rw [hadded, hnone]
    refine ⟨fun h => ?_, fun h => (nomatch h)⟩
    have hlonger := congrArg List.length h.2.2
    rw [List.length_append, List.length_singleton] at hlonger
    omega
  · rw [hretained, hadded, hsome, Option.mem_some_iff]
    constructor
    · rintro ⟨hmem, hsame, -⟩
      by_contra hne
      -- erasing the other one leaves every copy of this
      have hcount := congrArg (List.count weakest) (List.append_cancel_right hsame)
      rw [List.count_erase_of_ne (Ne.symm hne), List.count_erase_self] at hcount
      have hpos := List.count_pos_iff.mpr hmem
      omega
    · rintro rfl
      exact ⟨hnamed, rfl, rfl⟩

theorem displaced_incumbent_iff {c : Contest} {symbol weakest : String} (h : weakest ∈ m.incumbents i) :
    weakest ∈ m.displaced i c symbol ↔
      Ripe m c symbol ∧ weakest ∈ c.retained.argmin i.score ∧ m.Beats i symbol weakest := by
  have hprotected := not_protected_of_incumbent h
  rw [mem_displaced]
  unfold Ripe
  tauto

theorem displacesWeaker_iff (hmargin : 0 ≤ m.churnMargin) (c : Contest) (symbol : String) :
    DisplacesWeaker m i c symbol ↔ OutsideBand m i c symbol := by
  constructor
  · rintro h hripe weakest hweakest hincumbent ⟨-, hbeats, hle⟩
    obtain ⟨hmem, htakes⟩ := takesSlot_iff.mpr
      ((displaced_incumbent_iff hincumbent).mpr ⟨hripe, hweakest, hbeats⟩)
    exact absurd (h weakest hmem htakes hincumbent) (not_lt.mpr hle)
  · intro h weakest hmem htakes hincumbent
    obtain ⟨hripe, hweakest, hbeats⟩ := (displaced_incumbent_iff hincumbent).mp (takesSlot_iff.mp ⟨hmem, htakes⟩)
    by_contra hle
    have hle := not_lt.mp hle
    refine h hripe weakest hweakest hincumbent ⟨?_, hbeats, hle⟩
    -- a factor of one and more lifts what is not negative
    by_contra hnonneg
    have hlift := mul_nonneg (not_lt.mp hnonneg) hmargin
    unfold Beats at hbeats
    linarith

/-- **When a challenger displaces only a weaker member.** For every manager with a margin that is not negative,
every feature map, ranks and protected symbols: every incumbent whose place is taken in the contest has a lower
score than its challenger precisely when no ripe challenger meets a weakest incumbent with a negative score from
the band under it. -/
theorem displaces_weaker_iff (m : FocusListManager) (i : FocusInputs) (hmargin : 0 ≤ m.churnMargin) :
    Trace.Each (m.contestOne i) (DisplacesWeaker m i) (m.opening i) (m.challengers i) ↔
      Trace.Each (m.contestOne i) (OutsideBand m i) (m.opening i) (m.challengers i) :=
  Trace.each_congr fun c symbol => displacesWeaker_iff hmargin c symbol

theorem outsideBand_of_nonneg (hscore : ∀ s ∈ m.incumbents i, 0 ≤ i.score s) (c : Contest) :
    Trace.Each (m.contestOne i) (OutsideBand m i) c (m.challengers i) :=
  Trace.each_of_forall fun _ _ _ _ weakest _ hincumbent hinverted =>
    absurd hinverted.1 (not_lt.mpr (hscore weakest hincumbent))

/-! ### The displaced leave the list -/

theorem not_mem_retained_run {s : String} (hs : s ∈ m.incumbents i) {c : Contest} (hout : s ∉ c.retained)
    {rest : List String} (hrest : ∀ x ∈ rest, x ∈ m.challengers i) :
    s ∉ (Trace.run (m.contestOne i) c rest).retained := by
  induction rest generalizing c with
  | nil => exact hout
  | cons x rest ih =>
    rw [Trace.run_cons]
    refine ih ?_ fun y hmem => hrest y (List.mem_cons_of_mem _ hmem)
    rcases @contestOne_members m i c x with ⟨-, hretained, -⟩ | ⟨weakest, -, -, -, -, hretained, -⟩
    · rw [hretained]
      exact hout
    · rw [hretained, List.mem_append]
      rintro (hmem | hmem)
      · exact hout (List.mem_of_mem_erase hmem)
      · obtain rfl := List.mem_singleton.mp hmem
        exact (mem_challengers.mp (hrest s List.mem_cons_self)).2.2 hs

/-- An incumbent whose place is taken in the contest is among the removed. -/
theorem removed_of_displaced (hcurrent : m.current.Nodup) {pre rest : List String} {symbol weakest : String}
    (hsplit : m.challengers i = pre ++ symbol :: rest)
    (hmember : weakest ∈ (Trace.run (m.contestOne i) (m.opening i) pre).retained)
    (htakes : TakesSlot m i (Trace.run (m.contestOne i) (m.opening i) pre) symbol weakest)
    (hincumbent : weakest ∈ m.incumbents i) : weakest ∈ (m.update i).removed := by
  have hchallenger : ∀ x ∈ pre ++ symbol :: rest, x ∈ m.challengers i := fun x hmem => hsplit ▸ hmem
  have hinv := contestInv_run hcurrent fun x hmem => hchallenger x (List.mem_append_left (symbol :: rest) hmem)
  have hne : weakest ≠ symbol := by
    rintro rfl
    exact (mem_challengers.mp (hchallenger weakest (List.mem_append_right _ List.mem_cons_self))).2.2 hincumbent
  have hgone : weakest ∉ (m.contestOne i (Trace.run (m.contestOne i) (m.opening i) pre) symbol).retained :=
    fun hmem => ((mem_retained_contestOne hinv.nodup fun heq => absurd heq hne).mp hmem).2
      (takesSlot_iff.mp ⟨hmember, htakes⟩)
  have hend : weakest ∉ (m.outcome i).retained := by
    rw [outcome, hsplit, Trace.run_append, Trace.run_cons]
    exact not_mem_retained_run hincumbent hgone fun x hmem =>
      hchallenger x (List.mem_append_right _ (List.mem_cons_of_mem _ hmem))
  obtain ⟨hlisted, hkeep, -⟩ := mem_incumbents.mp hincumbent
  refine List.mem_filter.mpr ⟨hlisted, decide_eq_true fun hmem => ?_⟩
  rcases mem_newFocus.mp hmem with hmem | hmem
  · exact hkeep hmem
  · exact hend hmem

/-! #### Two illiquid symbols -/

/-- Both have a spread of a percent; AAPL has a little of its usual volume, MSFT none. -/
def illiquid : Dict String FeaturePack :=
  (Dict.empty.set "AAPL" { symbol := "AAPL", price := 100, rvol := 15 / 100, spreadPct := some (1 / 100) }).set "MSFT"
    { symbol := "MSFT", price := 100, rvol := 0, spreadPct := some (1 / 100) }

/-- One slot, which AAPL has filled, and MSFT has beaten it once. -/
def illiquidList : FocusListManager :=
  Trace.run next { size := 1 }
    [{ features := Dict.empty.set "AAPL" { symbol := "AAPL", price := 100, rvol := 15 / 100, spreadPct := some (1 / 100) } },
      { features := illiquid }]

theorem displaces_weaker_busy :
    Trace.Each (contestOne { size := 1, current := ["AAPL"] } { features := quietAndBusy })
      (DisplacesWeaker { size := 1, current := ["AAPL"] } { features := quietAndBusy })
      (opening { size := 1, current := ["AAPL"] } { features := quietAndBusy })
      (challengers { size := 1, current := ["AAPL"] } { features := quietAndBusy }) :=
  (displaces_weaker_iff _ _ (by decide +kernel)).mpr (outsideBand_of_nonneg (by decide +kernel) _)

/-- MSFT, at -3, takes the slot of AAPL, at -2.7: the bar is at -3.105. -/
theorem displaces_stronger_illiquid :
    ¬ ∀ (m : FocusListManager) (i : FocusInputs), 0 ≤ m.churnMargin →
      Trace.Each (m.contestOne i) (DisplacesWeaker m i) (m.opening i) (m.challengers i) := by
  intro h
  exact absurd (h illiquidList { features := illiquid } (by decide +kernel)) (by decide +kernel)

end AiTrader.FocusListManager
