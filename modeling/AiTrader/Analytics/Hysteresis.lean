import AiTrader.Analytics.FocusList
import Mathlib.Data.List.TakeWhile

/-!
# Consecutive cycles

A challenger takes a contested slot when its streak is long enough. The streak counts the calls in which it beat
the weakest member by the margin at its turn; a call in which it does not beat it ends the streak, if the contest
judges it at all. A contest judges nobody once it has added as many symbols as it may or has nobody to displace,
and leaves the streaks of those it has not judged as they were.

`hysteresis_consecutive`: where no challenger with a streak is left unjudged in a call that it does not win, whoever
takes a contested slot has won that call and the calls immediately before it. Precisely then the streaks tell the
truth (`truthful_iff`).
-/

namespace AiTrader.FocusListManager

open Lib Lib.Trace

variable {m : FocusListManager} {i : FocusInputs} {s : String}

/-- The contest as it stands when it comes to the symbol. -/
def turn (m : FocusListManager) (i : FocusInputs) (symbol : String) : Contest :=
  Trace.run (m.contestOne i) (m.opening i) ((m.challengers i).takeWhile fun s => s ≠ symbol)

/-- The weakest member is beaten by the margin. -/
def BeatsWeakest (m : FocusListManager) (i : FocusInputs) (c : Contest) (symbol : String) : Prop :=
  ∃ weakest ∈ c.retained.argmin i.score, m.Beats i symbol weakest

/-- A symbol with features that is not a member beats the weakest one at its turn. -/
def Won (m : FocusListManager) (i : FocusInputs) (symbol : String) : Prop :=
  symbol ∉ m.current ∧ symbol ∈ i.scored ∧ BeatsWeakest m i (m.turn i symbol) symbol

/-- Whoever takes a contested slot has won this call and as many of the last ones as it takes. -/
def Consecutive (h : Chronicle FocusListManager FocusInputs) (i : FocusInputs) : Prop :=
  ∀ symbol ∈ h.state.challengers i, h.state.displaced i (h.state.turn i symbol) symbol ≠ none →
    Won h.state i symbol ∧ LastSteps (fun m i => Won m i symbol) (h.state.persistenceCycles - 1) h.past

/-- The symbol fills a free slot and is not displaced from it. -/
def FillsSlot (m : FocusListManager) (i : FocusInputs) (symbol : String) : Prop :=
  symbol ∈ m.fillers i ∧
    Trace.Each (m.contestOne i) (fun c s => symbol ∉ m.displaced i c s) (m.opening i) (m.challengers i)

/-- A challenger with a streak wins, or is judged, or fills a free slot. -/
def Attended (m : FocusListManager) (i : FocusInputs) : Prop :=
  ∀ symbol ∈ m.challengers i, symbol ∈ m.challengerStreak.keys →
    Won m i symbol ∨ Judged m i (m.turn i symbol) symbol ∨ FillsSlot m i symbol

instance (m : FocusListManager) (i : FocusInputs) (c : Contest) (symbol : String) :
    Decidable (BeatsWeakest m i c symbol) :=
  inferInstanceAs (Decidable (∃ weakest ∈ c.retained.argmin i.score, m.Beats i symbol weakest))

instance (m : FocusListManager) (i : FocusInputs) (symbol : String) : Decidable (Won m i symbol) :=
  inferInstanceAs (Decidable (_ ∧ _))

instance (h : Chronicle FocusListManager FocusInputs) (i : FocusInputs) : Decidable (Consecutive h i) :=
  inferInstanceAs (Decidable (∀ symbol ∈ h.state.challengers i, _ → _))

instance (m : FocusListManager) (i : FocusInputs) (symbol : String) : Decidable (FillsSlot m i symbol) :=
  inferInstanceAs (Decidable (_ ∧ _))

instance (m : FocusListManager) (i : FocusInputs) : Decidable (Attended m i) :=
  inferInstanceAs (Decidable (∀ symbol ∈ m.challengers i, _ → _))

/-! ### What a turn does to the streaks -/

theorem streaks_contestOne_of_not_judged {c : Contest} (h : ¬ Judged m i c s) :
    (m.contestOne i c s).streaks = c.streaks := by
  rcases @contestOne_cases m i c s with ⟨-, -, stopped, hturn⟩ | ⟨hjudged, -⟩
  · rw [hturn]
  · exact absurd hjudged h

theorem get?_contestOne_self {c : Contest} (h : Judged m i c s) :
    (m.contestOne i c s).streaks.get? s = none ∨
      BeatsWeakest m i c s ∧ (m.contestOne i c s).streaks.get? s = some (streak c s) := by
  rcases @contestOne_cases m i c s with
    ⟨hnot, -⟩ | ⟨-, weakest, hweakest, ⟨-, hturn⟩ | ⟨hbeats, -, hturn⟩ | ⟨-, hturn⟩⟩
  · exact absurd h hnot
  · rw [hturn]
    exact Or.inl (Dict.get?_erase_self _ _)
  · rw [hturn]
    exact Or.inr ⟨⟨weakest, hweakest, hbeats⟩, Dict.get?_set_self _ _ _⟩
  · rw [hturn]
    exact Or.inl (Dict.get?_erase_self _ _)

theorem get?_contestOne_ne {c : Contest} {symbol : String} (h : s ≠ symbol) :
    (m.contestOne i c symbol).streaks.get? s = c.streaks.get? s := by
  rcases @contestOne_cases m i c symbol with
    ⟨-, -, stopped, hturn⟩ | ⟨-, weakest, -, ⟨-, hturn⟩ | ⟨-, -, hturn⟩ | ⟨-, hturn⟩⟩
  · rw [hturn]
  · rw [hturn]
    exact Dict.get?_erase_ne _ h
  · rw [hturn]
    exact Dict.get?_set_ne _ _ h
  · rw [hturn]
    exact Dict.get?_erase_ne _ h

theorem get?_run_of_not_mem {c : Contest} {symbols : List String} (h : s ∉ symbols) :
    (Trace.run (m.contestOne i) c symbols).streaks.get? s = c.streaks.get? s := by
  induction symbols generalizing c with
  | nil => rfl
  | cons symbol symbols ih =>
    rw [List.mem_cons, not_or] at h
    rw [Trace.run_cons, ih h.2, get?_contestOne_ne h.1]

theorem outcome_split (h : s ∈ m.challengers i) :
    ∃ rest, s ∉ rest ∧ m.outcome i = Trace.run (m.contestOne i) (m.contestOne i (m.turn i s) s) rest := by
  obtain ⟨pre, rest, hsplit⟩ := List.append_of_mem h
  have hnodup : (pre ++ s :: rest).Nodup := hsplit ▸ nodup_challengers
  obtain ⟨-, hcons, hdisjoint⟩ := List.nodup_append.mp hnodup
  have hbefore : ∀ x ∈ pre, decide (x ≠ s) = true :=
    fun x hmem => decide_eq_true (hdisjoint x hmem s List.mem_cons_self)
  have hpre : (m.challengers i).takeWhile (fun x => x ≠ s) = pre := by
    rw [hsplit, List.takeWhile_append_of_pos hbefore, List.takeWhile_cons_of_neg (by simp), List.append_nil]
  refine ⟨rest, (List.nodup_cons.mp hcons).1, ?_⟩
  rw [turn, hpre, outcome, hsplit, Trace.run_append, Trace.run_cons]

theorem not_mem_before : s ∉ (m.challengers i).takeWhile fun x => x ≠ s := by
  intro hmem
  have hne := List.mem_takeWhile_imp hmem
  rw [decide_eq_true_eq] at hne
  exact hne rfl

theorem get?_turn : (m.turn i s).streaks.get? s = m.challengerStreak.get? s :=
  get?_run_of_not_mem not_mem_before

theorem get?_outcome_of_challenger (h : s ∈ m.challengers i) :
    (m.outcome i).streaks.get? s = (m.contestOne i (m.turn i s) s).streaks.get? s := by
  obtain ⟨rest, hrest, houtcome⟩ := outcome_split h
  rw [houtcome, get?_run_of_not_mem hrest]

/-! ### The streaks tell the truth -/

/-- Members have no streak, and a symbol has won as many of the last calls as its streak counts. -/
structure Truthful (h : Chronicle FocusListManager FocusInputs) : Prop where
  members : ∀ s ∈ h.state.current, h.state.challengerStreak.get? s = none
  streaks : ∀ s, ∀ k ∈ h.state.challengerStreak.get? s, 0 < k ∧ LastSteps (fun m i => Won m i s) k h.past

theorem mem_newFocus_of_fillsSlot (h : FillsSlot m i s) : s ∈ m.newFocus i := by
  have hstep : ∀ (c : Contest) x, s ∈ c.retained → s ∉ m.displaced i c x → s ∈ (m.contestOne i c x).retained := by
    intro c x hmem hspared
    rcases @contestOne_members m i c x with ⟨-, hretained, -⟩ | ⟨weakest, -, hsome, -, -, hretained, -⟩
    · rw [hretained]
      exact hmem
    · have hne : s ≠ weakest := by
        rintro rfl
        exact hspared hsome
      rw [hretained]
      exact List.mem_append_left _ ((List.mem_erase_of_ne hne).mpr hmem)
  have hopening : s ∈ (m.opening i).retained := List.mem_append_right _ h.1
  exact mem_newFocus.mpr (Or.inr (Trace.always_of_inductive hstep (fun c hmem => hmem) hopening h.2).last)

theorem Truthful.next {h : Chronicle FocusListManager FocusInputs} (htrue : Truthful h)
    (hattended : Attended h.state i) : Truthful (Chronicle.next next h i) := by
  refine ⟨fun s hmem => ?_, fun s k hmem => ?_⟩
  · rw [Option.eq_none_iff_forall_not_mem]
    intro k hk
    exact (of_decide_eq_true (Dict.mem_get?_filter.mp hk).2).1 hmem
  obtain ⟨hk, hkept⟩ := Dict.mem_get?_filter.mp hmem
  obtain ⟨hout, hscored⟩ := of_decide_eq_true hkept
  by_cases hchallenger : s ∈ h.state.challengers i
  swap
  · -- a member that has been dropped
    have hcurrent : s ∈ h.state.current := by
      by_contra hnew
      refine hchallenger (mem_challengers.mpr ⟨hscored, fun hkeep => ?_, fun hincumbent => ?_⟩)
      · exact hout (mem_newFocus.mpr (Or.inl hkeep))
      · exact hnew (mem_incumbents.mp hincumbent).1
    rw [outcome, get?_run_of_not_mem hchallenger, opening, htrue.members s hcurrent] at hk
    cases hk
  have hnew := not_mem_current_of_challenger hchallenger
  rw [get?_outcome_of_challenger hchallenger] at hk
  by_cases hjudged : Judged h.state i (h.state.turn i s) s
  · rcases get?_contestOne_self hjudged with hnone | ⟨hbeats, hsome⟩
    · rw [hnone] at hk
      cases hk
    · rw [hsome] at hk
      obtain rfl := Option.some.inj hk
      refine ⟨Nat.succ_pos _, ⟨hnew, hscored, hbeats⟩, ?_⟩
      rw [get?_turn]
      cases hlast : h.state.challengerStreak.get? s with
      | none => trivial
      | some k => exact (htrue.streaks s k hlast).2
  · rw [streaks_contestOne_of_not_judged hjudged, get?_turn] at hk
    have hstreak : s ∈ h.state.challengerStreak.keys := by
      by_contra hnone
      rw [Dict.get?_eq_none_iff.mpr hnone] at hk
      cases hk
    obtain ⟨hpos, hlast⟩ := htrue.streaks s k hk
    rcases hattended s hchallenger hstreak with hwon | hjudged' | hfills
    · have hmore : LastSteps (fun m i => Won m i s) (k + 1) ((h.state, i) :: h.past) := ⟨hwon, hlast⟩
      exact ⟨hpos, hmore.of_le (Nat.le_succ k)⟩
    · exact absurd hjudged' hjudged
    · exact absurd (mem_newFocus_of_fillsSlot hfills) hout

theorem consecutive_of_truthful {h : Chronicle FocusListManager FocusInputs} (htrue : Truthful h) :
    Consecutive h i := by
  intro s hchallenger hdisplaced
  obtain ⟨weakest, hsome⟩ := Option.ne_none_iff_exists'.mp hdisplaced
  obtain ⟨-, -, -, hweakest, -, hbeats, hripe⟩ := mem_displaced.mp hsome
  have hscored := (mem_challengers.mp hchallenger).1
  refine ⟨⟨not_mem_current_of_challenger hchallenger, hscored, weakest, hweakest, hbeats⟩, ?_⟩
  unfold streak at hripe
  rw [get?_turn] at hripe
  have hripe := Nat.sub_le_of_le_add hripe
  cases hlast : h.state.challengerStreak.get? s with
  | none =>
    rw [hlast] at hripe
    rw [Nat.le_zero.mp hripe]
    trivial
  | some k =>
    rw [hlast] at hripe
    exact (htrue.streaks s k hlast).2.of_le hripe

theorem truthful_fresh (hfresh : m.challengerStreak = Dict.empty) : Truthful ⟨m, []⟩ := by
  refine ⟨fun s _ => ?_, fun s k hk => ?_⟩
  · show m.challengerStreak.get? s = none
    rw [hfresh]
    rfl
  · have hk : m.challengerStreak.get? s = some k := hk
    rw [hfresh] at hk
    cases hk

/-- **Consecutive cycles.** From a manager without streaks, with any settings and any list, over every sequence of
updates in which no challenger with a streak is left unjudged in a call that it does not win, unless it fills a free
slot: whoever takes a contested slot in some call has won that call and the `persistence_cycles - 1` calls
immediately before it. -/
theorem hysteresis_consecutive (m : FocusListManager) (hfresh : m.challengerStreak = Dict.empty)
    (updates : List FocusInputs) (hattended : Trace.Each next Attended m updates) :
    Trace.Each (Chronicle.next next) Consecutive ⟨m, []⟩ updates := by
  have hstep : ∀ (h : Chronicle FocusListManager FocusInputs) i, Truthful h → Attended h.state i →
      Truthful (Chronicle.next next h i) := fun h i htrue hattended => htrue.next hattended
  exact Trace.each_of_inductive hstep (fun h i htrue _ => consecutive_of_truthful htrue) (truthful_fresh hfresh)
    (each_chronicle.mpr hattended)

/-! ### A streak that is left standing -/

theorem mem_added_of_run {c : Contest} {symbols : List String} (hout : s ∉ symbols)
    (hmem : s ∈ (Trace.run (m.contestOne i) c symbols).added) : s ∈ c.added := by
  induction symbols generalizing c with
  | nil => exact hmem
  | cons symbol symbols ih =>
    rw [List.mem_cons, not_or] at hout
    rcases mem_added_contestOne.mp (ih hout.2 hmem) with hbefore | ⟨rfl, -⟩
    · exact hbefore
    · exact absurd rfl hout.1

theorem filler_of_added (hchallenger : s ∈ m.challengers i) (hjudged : ¬ Judged m i (m.turn i s) s)
    (hmem : s ∈ (m.outcome i).added) : s ∈ m.fillers i := by
  obtain ⟨rest, hrest, houtcome⟩ := outcome_split hchallenger
  rw [houtcome] at hmem
  rcases mem_added_contestOne.mp (mem_added_of_run hrest hmem) with hbefore | ⟨-, hdisplaced⟩
  · exact mem_added_of_run not_mem_before hbefore
  · obtain ⟨weakest, hsome⟩ := Option.ne_none_iff_exists'.mp hdisplaced
    obtain ⟨hstopped, hnew, hfew, hweakest, hprotected, -⟩ := mem_displaced.mp hsome
    exact absurd ⟨hstopped, hnew, hfew, weakest, hweakest, hprotected⟩ hjudged

/-- A filler is still a member at the end precisely when nobody has displaced it. -/
theorem mem_outcome_of_filler_iff (hcurrent : m.current.Nodup) (hfiller : s ∈ m.fillers i) :
    s ∈ (m.outcome i).retained ↔
      Trace.Each (m.contestOne i) (fun c x => s ∉ m.displaced i c x) (m.opening i) (m.challengers i) := by
  have hstep : ∀ (c : Contest) x, ContestInv m i c ∧ s ∈ c.added → x ∈ m.challengers i →
      ContestInv m i (m.contestOne i c x) ∧ s ∈ (m.contestOne i c x).added :=
    fun c x h hx => ⟨h.1.contestOne hx, mem_added_contestOne.mpr (Or.inl h.2)⟩
  have hkeep : ∀ (c : Contest) x, ContestInv m i c ∧ s ∈ c.added → x ∈ m.challengers i → s ∈ c.retained →
      (s ∈ (m.contestOne i c x).retained ↔ s ∉ m.displaced i c x) :=
    fun c x h _ hmem => (mem_retained_contestOne h.1.nodup fun _ => h.2).trans (and_iff_right hmem)
  have hlost : ∀ (c : Contest) x, ContestInv m i c ∧ s ∈ c.added → x ∈ m.challengers i → s ∉ c.retained →
      s ∉ (m.contestOne i c x).retained :=
    fun c x h _ hout hmem => hout ((mem_retained_contestOne h.1.nodup fun _ => h.2).mp hmem).1
  have hopening : s ∈ (m.opening i).retained := List.mem_append_right _ hfiller
  exact Trace.run_iff_each hstep hkeep hlost ⟨contestInv_opening hcurrent, hfiller⟩ (each_challenger _) hopening

theorem not_truthful_next {h : Chronicle FocusListManager FocusInputs} (hcurrent : h.state.current.Nodup)
    (hmissed : ¬ Attended h.state i) : ¬ Truthful (Chronicle.next next h i) := by
  intro hafter
  refine hmissed fun s hchallenger hstreak => ?_
  by_contra hnot
  obtain ⟨hlost, hjudged, hfills⟩ := by simpa only [not_or] using hnot
  cases hlast : h.state.challengerStreak.get? s with
  | none => exact Dict.get?_eq_none_iff.mp hlast hstreak
  | some k =>
    have hout : s ∉ h.state.newFocus i := by
      intro hmem
      rcases mem_newFocus.mp hmem with hkeep | hretained
      · exact (mem_challengers.mp hchallenger).2.1 hkeep
      · have hadded := ((contestInv_outcome hcurrent).members s hretained).resolve_left
          (mem_challengers.mp hchallenger).2.2
        have hfiller := filler_of_added hchallenger hjudged hadded
        exact hfills ⟨hfiller, (mem_outcome_of_filler_iff hcurrent hfiller).mp hretained⟩
    have hkept : k ∈ (h.state.next i).challengerStreak.get? s := by
      refine Dict.mem_get?_filter.mpr ⟨?_, decide_eq_true ⟨hout, (mem_challengers.mp hchallenger).1⟩⟩
      rw [get?_outcome_of_challenger hchallenger, streaks_contestOne_of_not_judged hjudged, get?_turn]
      exact hlast
    obtain ⟨hpos, hwon⟩ := hafter.streaks s k hkept
    cases k with
    | zero => exact absurd hpos (Nat.lt_irrefl 0)
    | succ k => exact hlost hwon.1

/-- The streaks count the last calls throughout precisely when every call attends to them. -/
theorem truthful_iff (hcurrent : m.current.Nodup) (hfresh : m.challengerStreak = Dict.empty)
    (updates : List FocusInputs) :
    Trace.Always (Chronicle.next next) Truthful ⟨m, []⟩ updates ↔ Trace.Each next Attended m updates := by
  have hstep : ∀ (h : Chronicle FocusListManager FocusInputs) i, Truthful h ∧ h.state.current.Nodup →
      Attended h.state i → Truthful (Chronicle.next next h i) ∧ (h.state.next i).current.Nodup :=
    fun h i hinv hattended => ⟨hinv.1.next hattended, (focusLaw_of_nodup hinv.2).nodup⟩
  have hbad : ∀ (h : Chronicle FocusListManager FocusInputs) i, Truthful h ∧ h.state.current.Nodup →
      ¬ Attended h.state i → ¬ Truthful (Chronicle.next next h i) :=
    fun h i hinv hmissed => not_truthful_next hinv.2 hmissed
  exact (Trace.always_iff_each hstep (fun h hinv => hinv.1) hbad ⟨truthful_fresh hfresh, hcurrent⟩).trans each_chronicle

/-! #### A call in which the promotions are used up -/

def packWith (symbol : String) (rvol : ℚ) : FeaturePack := { symbol := symbol, price := 100, rvol := rvol }

/-- Two members, and MSFT ahead of both. -/
def msftAhead (second : String) : FocusInputs where
  features := ((Dict.empty.set "AAPL" (packWith "AAPL" 2)).set second (packWith second 2)).set "MSFT" (packWith "MSFT" 4)

/-- NVDA has left, AMD fills the free slot, and MSFT is behind AAPL. -/
def msftBehind : FocusInputs where
  features := ((Dict.empty.set "AAPL" (packWith "AAPL" 2)).set "AMD" (packWith "AMD" 3)).set "MSFT" (packWith "MSFT" 1)

def onePromotion : FocusListManager := { size := 2, maxPromotionsPerCycle := 1, current := ["AAPL", "NVDA"] }

theorem hysteresis_consecutive_busy :
    Trace.Each (Chronicle.next next) Consecutive ⟨{ size := 1 }, []⟩
      [{ features := quietAndBusy.erase "MSFT" }, { features := quietAndBusy }, { features := quietAndBusy }] :=
  hysteresis_consecutive { size := 1 } rfl _ (by decide +kernel)

/-- MSFT is ahead, behind, and ahead again; its streak passes over the call in between. -/
theorem not_consecutive_onePromotion :
    ¬ ∀ (m : FocusListManager) (updates : List FocusInputs), m.challengerStreak = Dict.empty →
      Trace.Each (Chronicle.next next) Consecutive ⟨m, []⟩ updates := by
  intro h
  exact absurd (h onePromotion [msftAhead "NVDA", msftBehind, msftAhead "AMD"] rfl) (by decide +kernel)

end AiTrader.FocusListManager
