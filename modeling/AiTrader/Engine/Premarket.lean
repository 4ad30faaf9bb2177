import AiTrader.Agents.Plan
import AiTrader.Analytics.FocusList
import AiTrader.Engine.CycleRun

/-!
# The pre-market seed

`run_premarket` resets the day, ranks the morning's candidates, asks the strategist for a plan, and installs a seed
as the focus list: the names of the plan's watchlist that have features, then the ranking without the names that are
there already or are to be avoided, cut at the size of the list.

The ranking is checked against the seed and the watchlist is not checked against itself. So the seed has no name
twice, and with it every later list, precisely when the known names of the watchlist have none within the size
(`premarket_seed_iff`). A name that is there twice stays there through every update that brings no challenger, and
holds two slots (`repeats_survive`).
-/

namespace AiTrader

open Lib

namespace DailyPlan

/-- The names of the watchlist that have features. -/
def watched (plan : DailyPlan) (features : Dict String FeaturePack) : List String :=
  plan.watchlist.filter fun s => s ∈ features.keys

/-- The list that `run_premarket` installs. -/
def seed (plan : DailyPlan) (features : Dict String FeaturePack) (ranked : List String) (size : ℕ) : List String :=
  (plan.watched features ++ ranked.filter fun s => s ∉ plan.watched features ∧ s ∉ plan.avoid).take size

theorem length_seed {plan : DailyPlan} {features : Dict String FeaturePack} {ranked : List String} {size : ℕ} :
    (plan.seed features ranked size).length ≤ size :=
  List.length_take_le _ _

theorem nodup_seed_iff {plan : DailyPlan} {features : Dict String FeaturePack} {ranked : List String} {size : ℕ}
    (hranked : ranked.Nodup) :
    (plan.seed features ranked size).Nodup ↔ ((plan.watched features).take size).Nodup := by
  unfold seed
  rw [List.take_append]
  constructor
  · exact fun h => (List.nodup_append.mp h).1
  · intro h
    refine List.Nodup.append h ((hranked.filter _).sublist (List.take_sublist _ _)) fun s hwatched hmem => ?_
    have hfilled := of_decide_eq_true (List.mem_filter.mp (List.mem_of_mem_take hmem)).2
    exact hfilled.1 (List.mem_of_mem_take hwatched)

end DailyPlan

theorem nodup_rankCandidates (i : FocusInputs) (limit : ℕ) : (rankCandidates i limit).Nodup :=
  (nodup_byScore.mpr i.features.nodup).sublist (List.take_sublist _ _)

/-- What `run_premarket` is called with and what its calls answer. -/
structure PremarketInputs where
  universeCfg : UniverseConfig := {}
  account : Except String AccountSnapshot
  /-- The features of the morning's candidates, from their daily bars; or what the scanners, the backfill or the
  cache raise. -/
  features : Except String (Dict String FeaturePack)
  scannerHits : Dict String (List String) := Dict.empty
  /-- What the strategist is read to say, if anything. -/
  answer : Option DailyPlan
  /-- How the subscriptions and the loading of their bars end. -/
  subscribed : Except String Unit := .ok ()
  /-- What else runs while the account is fetched, the data are loaded and the model is asked. -/
  fetching : CycleState → CycleState := id
  loading : CycleState → CycleState := id
  planning : CycleState → CycleState := id

/-- The list to install: from the plan, and from the ranking of the candidates. -/
def PremarketInputs.seed (i : PremarketInputs) (features : Dict String FeaturePack) : List String :=
  let ranked := rankCandidates { features, scannerRanks := scannerRankScores i.scannerHits (3 / 2) } 40
  (AgentRunner.planSession i.answer).seed features ranked i.universeCfg.focusListSize

/-- What `run_premarket` leaves, the list it has installed, and the exception that has ended it. -/
structure PremarketRan where
  state : CycleState
  installed : Option (List String) := none
  raised : Option String := none

namespace CycleState

/-- The seed as the state of the manager and of the engine. -/
def install (s : CycleState) (seed : List String) : CycleState :=
  { s with focusManager := { s.focusManager with current := seed }, focus := seed }

/-- `run_premarket`. -/
def runPremarket (s : CycleState) (i : PremarketInputs) : PremarketRan :=
  let s := i.fetching s
  match i.account with
  | .error exc => { state := s, raised := some exc }
  | .ok account =>
    let app := { s.desk.app with account := some account }.resetForNewSession account.equity
    let s := { s with desk := { s.desk with app, risk := s.desk.risk.resetForNewSession }, cycles := [] }
    let s := i.loading s
    match i.features with
    | .error exc => { state := s, raised := some exc }
    | .ok features =>
      let s := i.planning s
      let seed := i.seed features
      let s := s.install seed
      match i.subscribed with
      | .error exc => { state := s, installed := some seed, raised := some exc }
      | .ok () =>
        { state := { s with desk := { s.desk with app := { s.desk.app with premarketDone := true } } }
          installed := some seed }

end CycleState

namespace PremarketRan

/-- The installed list has no name twice and fits, and no later list has a name twice. -/
def ValidSeed (ran : PremarketRan) (size : ℕ) : Prop :=
  ∀ seed ∈ ran.installed, seed.Nodup ∧ seed.length ≤ size ∧
    ∀ updates, Trace.Each FocusListManager.next (fun m i => (m.update i).focus.Nodup) ran.state.focusManager updates

end PremarketRan

namespace PremarketInputs

/-- Within the size of the list no known name is on the watchlist twice. -/
def DistinctWatchlist (i : PremarketInputs) : Prop :=
  ∀ account features, i.account = .ok account → i.features = .ok features →
    (((AgentRunner.planSession i.answer).watched features).take i.universeCfg.focusListSize).Nodup

end PremarketInputs

namespace CycleState

theorem runPremarket_cases (s : CycleState) (i : PremarketInputs) :
    ((s.runPremarket i).installed = none ∧
        ∀ account features, i.account = .ok account → i.features ≠ .ok features) ∨
      ∃ account features, i.account = .ok account ∧ i.features = .ok features ∧
        (s.runPremarket i).installed = some (i.seed features) ∧
        (s.runPremarket i).state.focusManager.current = i.seed features ∧
        (s.runPremarket i).state.focus = i.seed features := by
  unfold runPremarket
  cases i.account with
  | error exc => exact Or.inl ⟨rfl, fun _ _ h => (nomatch h)⟩
  | ok account =>
    cases i.features with
    | error exc => exact Or.inl ⟨rfl, fun _ _ _ h => (nomatch h)⟩
    | ok features =>
      cases i.subscribed with
      | error exc => exact Or.inr ⟨account, features, rfl, rfl, rfl, rfl, rfl⟩
      | ok _ => exact Or.inr ⟨account, features, rfl, rfl, rfl, rfl, rfl⟩

/-- **When the seed is a valid focus list.** For every state, every plan the model may return and every ranking:
the list that the pass installs has no name twice and at most `focus_list_size` names, and after it every list of
every sequence of updates has no name twice, precisely when no known name is on the watchlist twice within that
size. -/
theorem premarket_seed_iff (s : CycleState) (i : PremarketInputs) :
    (s.runPremarket i).ValidSeed i.universeCfg.focusListSize ↔ i.DistinctWatchlist := by
  rcases s.runPremarket_cases i with
    ⟨hnone, hmissing⟩ | ⟨account, features, haccount, hfeatures, hinstalled, hcurrent, -⟩
  · constructor
    · exact fun _ account features haccount hfeatures => absurd hfeatures (hmissing account features haccount)
    · intro _ seed hmem
      rw [hnone] at hmem
      cases hmem
  have hseed : (i.seed features).Nodup ↔ _ := DailyPlan.nodup_seed_iff (nodup_rankCandidates _ _)
  constructor
  · intro h account' features' _ hfeatures'
    obtain rfl := Except.ok.inj (hfeatures.symm.trans hfeatures')
    exact hseed.mp (h _ hinstalled).1
  · intro hdistinct seed hmem
    obtain rfl := Option.some.inj (hinstalled.symm.trans hmem)
    have hnodup := hseed.mpr (hdistinct account features haccount hfeatures)
    refine ⟨hnodup, DailyPlan.length_seed, fun updates => ?_⟩
    exact (FocusListManager.each_focusLaw (hcurrent ▸ hnodup)).mono fun m i hlaw => hlaw.nodup

end CycleState

/-! ### A name that is there twice -/

namespace FocusListManager

variable {m : FocusListManager} {i : FocusInputs}

theorem focus_perm_of_unchallenged (hlength : m.current.length ≤ m.size) (hprotected : i.protectedSymbols.1 = [])
    (hscored : ∀ s, s ∈ i.scored ↔ s ∈ m.current) : (m.update i).focus.Perm m.current := by
  have hkeep : m.keep i = [] := by
    rw [keep, hprotected]
    rfl
  have hincumbents : m.incumbents i = m.current := by
    refine List.filter_eq_self.mpr fun s hmem => decide_eq_true ⟨?_, (hscored s).mpr hmem⟩
    rw [hkeep]
    exact List.not_mem_nil
  have hchallengers : m.challengers i = [] := by
    rw [List.eq_nil_iff_forall_not_mem]
    intro s hmem
    exact not_mem_current_of_challenger hmem ((hscored s).mp (mem_challengers.mp hmem).1)
  have hslots : m.slots i = m.size := by
    rw [slots, hkeep]
    rfl
  have hbest : m.best i = byScore i.score m.current := by
    rw [best, hincumbents, hslots, List.take_of_length_le]
    rw [byScore, List.length_insertionSort]
    exact hlength
  have hfocus : (m.update i).focus = byScore i.score m.current := by
    show m.keep i ++ (m.outcome i).retained.filter (fun s => s ∉ m.keep i) = _
    have hretained : (m.outcome i).retained = byScore i.score m.current := by
      rw [outcome, hchallengers, Trace.run_nil, opening, fillers, hchallengers, List.take_nil, List.append_nil, hbest]
    rw [hkeep, hretained, List.nil_append]
    exact List.filter_eq_self.mpr fun s _ => decide_eq_true List.not_mem_nil
  rw [hfocus]
  exact List.perm_insertionSort _ _

theorem repeats_survive (hlength : m.current.length ≤ m.size) {updates : List FocusInputs}
    (hprotected : ∀ i ∈ updates, i.protectedSymbols.1 = [])
    (hscored : ∀ i ∈ updates, ∀ s, s ∈ i.scored ↔ s ∈ m.current) :
    Trace.Each next (fun m' i => (m'.update i).focus.Perm m.current) m updates := by
  have hstep : ∀ (m' : FocusListManager) (i : FocusInputs), i ∈ updates → m'.current.Perm m.current →
      m'.current.length ≤ m'.size → (m'.update i).focus.Perm m.current := by
    intro m' i hmem hperm hfits
    refine (focus_perm_of_unchallenged hfits (hprotected i hmem) fun s => ?_).trans hperm
    rw [hscored i hmem s]
    exact hperm.mem_iff.symm
  have hinv : ∀ (m' : FocusListManager) (i : FocusInputs), m'.current.Perm m.current ∧ m'.current.length ≤ m'.size →
      i ∈ updates → (m'.next i).current.Perm m.current ∧ (m'.next i).current.length ≤ (m'.next i).size := by
    intro m' i hm' hmem
    have hperm := hstep m' i hmem hm'.1 hm'.2
    exact ⟨hperm, (hperm.trans hm'.1.symm).length_eq.trans_le hm'.2⟩
  exact Trace.each_of_inductive hinv (fun m' i hm' hmem => hstep m' i hmem hm'.1 hm'.2)
    ⟨List.Perm.refl _, hlength⟩ (Trace.each_of_forall fun i hmem _ => hmem)

end FocusListManager

/-! #### A watchlist that names AAPL twice -/

def morning (answer : Option DailyPlan) : PremarketInputs where
  account := .ok breakoutAccount
  features := .ok FocusListManager.quietAndBusy
  answer

/-- AAPL has two places on the list. -/
theorem not_validSeed_repeated :
    ¬ ∀ (s : CycleState) (i : PremarketInputs), (s.runPremarket i).ValidSeed i.universeCfg.focusListSize := by
  intro h
  have hvalid := h CycleState.quietStart (morning (some { watchlist := ["AAPL", "AAPL"] })) ["AAPL", "AAPL", "MSFT"]
    (by decide +kernel)
  exact absurd hvalid.1 (by decide)

end AiTrader
