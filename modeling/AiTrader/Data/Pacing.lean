import AiTrader.Data.RateLimit
import AiTrader.Lib.Window
import Mathlib.Data.List.Chain
import Mathlib.Data.List.TakeWhile
import Mathlib.Tactic.Linarith

/-!
# The pace of historical requests

The pacer remembers the times of its grants and forgets those that have left the window. Whoever prunes it,
under the lock or beside it, forgets no grant that a later window still holds (`PacerInv.prune`); so the
times that are left after a pruning are the grants of the window, and a grant finds fewer of them than the
capacity (`historical_pacing`).

A grant is made when `waitLocked` asks for no wait, and then there is room among the remembered times and the last
grant is a spacing ago (`waitLocked_le_zero`). The remembered times are the grants less some at the front that no
window ending now holds (`PacerInv.kept`), so room among them is room in the window; the rest is
`Window.Bounded.concat`.
-/

namespace AiTrader

open Lib

/-- What the limit asks of the grants: no window holds more of them than the capacity, and two in a row are
the later one's spacing apart. -/
def Paced (p : HistoricalDataPacer) (grants : List HistoricalGrant) : Prop :=
  Window.Bounded p.window p.capacity (grants.map HistoricalGrant.time) ∧
    grants.IsChain fun earlier later => later.spacing ≤ later.time - earlier.time

/-- The pacer forgets grants from the front, and only those that a window ending now no longer holds. -/
structure PacerInv (p : HistoricalDataPacer) (clock : ℚ) (grants : List HistoricalGrant) : Prop where
  capacity : 1 ≤ p.capacity
  paced : Paced p grants
  sorted : (grants.map HistoricalGrant.time).Pairwise (· ≤ ·)
  past : ∀ g ∈ grants, g.time ≤ clock
  last : p.lastRequest = grants.getLast?.map HistoricalGrant.time
  kept : ∃ gone, grants.map HistoricalGrant.time = gone ++ p.timestamps ∧ ∀ t ∈ gone, t ≤ clock - p.window

namespace PacerInv

variable {p : HistoricalDataPacer} {clock now : ℚ} {grants : List HistoricalGrant}

theorem later (h : PacerInv p clock grants) (htime : clock ≤ now) : PacerInv p now grants := by
  obtain ⟨gone, hsplit, hgone⟩ := h.kept
  refine ⟨h.capacity, h.paced, h.sorted, fun g hmem => (h.past g hmem).trans htime, h.last, gone, hsplit, ?_⟩
  intro t hmem
  have hold := hgone t hmem
  linarith

theorem prune (h : PacerInv p now grants) : PacerInv (p.prune now) now grants := by
  obtain ⟨gone, hsplit, hgone⟩ := h.kept
  refine ⟨h.capacity, h.paced, h.sorted, h.past, h.last,
    gone ++ p.timestamps.takeWhile (fun t => t ≤ now - p.window), ?_, ?_⟩
  · show _ = _ ++ p.timestamps.dropWhile fun t => decide (t ≤ now - p.window)
    rw [hsplit, List.append_assoc, List.takeWhile_append_dropWhile]
  · intro t hmem
    rcases List.mem_append.mp hmem with hmem | hmem
    · exact hgone t hmem
    · have hout := List.mem_takeWhile_imp hmem
      show t ≤ now - p.window
      simpa using hout

theorem congr {q : HistoricalDataPacer} (h : PacerInv p clock grants) (hcapacity : q.capacity = p.capacity)
    (hwindow : q.window = p.window) (htimes : q.timestamps = p.timestamps)
    (hlast : q.lastRequest = p.lastRequest) : PacerInv q clock grants := by
  refine ⟨hcapacity ▸ h.capacity, ?_, h.sorted, h.past, hlast.trans h.last, ?_⟩
  · unfold Paced
    rw [hwindow, hcapacity]
    exact h.paced
  · rw [htimes, hwindow]
    exact h.kept

theorem touch (h : PacerInv p now grants) (event : PacerEvent) : PacerInv (p.touch event now) now grants := by
  cases event with
  | violated | spaced => exact h.congr rfl rfl rfl rfl
  | estimated n =>
    show PacerInv (p.estimatedWait n now).2 now grants
    unfold HistoricalDataPacer.estimatedWait
    dsimp only
    split_ifs <;> exact h.prune
  | utilised =>
    show PacerInv (p.utilization now).2 now grants
    unfold HistoricalDataPacer.utilization
    dsimp only
    split_ifs <;> exact h.prune

end PacerInv

theorem waitLocked_le_zero {p : HistoricalDataPacer} {now wait : ℚ}
    (hfresh : ∀ t ∈ p.timestamps, now - p.window < t) (hwait : p.waitLocked now = .ok wait) (hle : wait ≤ 0) :
    (p.timestamps.length : ℤ) < p.capacity ∧ ∀ last ∈ p.lastRequest, p.spacing ≤ now - last := by
  have hspaced : ∀ last, p.lastRequest = some last → max 0 (p.spacing - (now - last)) ≤ wait →
      p.spacing ≤ now - last := by
    intro last _ hmax
    have hright := (le_max_right 0 (p.spacing - (now - last))).trans hmax
    linarith
  unfold HistoricalDataPacer.waitLocked at hwait
  dsimp only at hwait
  by_cases hfull : p.capacity ≤ p.timestamps.length
  · rw [if_pos hfull] at hwait
    cases htimes : p.timestamps with
    | nil =>
      rw [htimes] at hwait
      cases hwait
    | cons oldest rest =>
      rw [htimes] at hwait
      have hlow : oldest + p.window - now ≤ wait := by
        rw [← Except.ok.inj hwait]
        exact (le_max_right _ _).trans (le_max_left _ _)
      have hin := hfresh oldest (htimes ▸ List.mem_cons_self)
      linarith
  · rw [if_neg hfull] at hwait
    refine ⟨not_le.mp hfull, fun last hlast => hspaced last hlast ?_⟩
    rw [Option.mem_def.mp hlast] at hwait
    rw [← Except.ok.inj hwait]
    exact le_max_left _ _

theorem PacerInv.attempt {p : HistoricalDataPacer} {now : ℚ} {grants : List HistoricalGrant}
    (h : PacerInv p now grants) :
    PacerInv (p.attempt now).1 now (grants ++ (p.attempt now).2.entries) := by
  have hprune := h.prune
  obtain ⟨_, hold, _⟩ := h.kept
  have hsorted : p.timestamps.Pairwise (· ≤ ·) := (List.pairwise_append.mp (hold ▸ h.sorted)).2.1
  unfold HistoricalDataPacer.attempt
  dsimp only
  cases hwait : (p.prune now).waitLocked now with
  | error => exact (List.append_nil grants).symm ▸ hprune
  | ok wait =>
    dsimp only
    split_ifs with hle
    swap
    · exact (List.append_nil grants).symm ▸ hprune
    obtain ⟨hroom, hspacing⟩ := waitLocked_le_zero (fun t hmem => Window.lt_of_mem_dropWhile hsorted hmem) hwait hle
    obtain ⟨gone, hsplit, hgone⟩ := hprune.kept
    have hpast : ∀ t ∈ grants.map HistoricalGrant.time, t ≤ now := List.forall_mem_map.mpr h.past
    -- the window that ends now holds remembered times only
    have hwindow : (Window.inWindow p.window now (grants.map HistoricalGrant.time)).length ≤
        (p.prune now).timestamps.length := by
      have hgone' : ∀ t ∈ gone, t ≤ now - p.window := hgone
      rw [hsplit, Window.inWindow_append_of_le hgone']
      exact List.length_filter_le _ _
    refine ⟨h.capacity, ⟨?_, ?_⟩, ?_, ?_, ?_, gone, ?_, hgone⟩
    · show Window.Bounded p.window p.capacity ((grants ++ [_]).map HistoricalGrant.time)
      rw [List.map_append]
      refine h.paced.1.concat hpast ?_
      have hwindow' : ((Window.inWindow p.window now (grants.map HistoricalGrant.time)).length : ℤ) ≤
          (p.prune now).timestamps.length := by exact_mod_cast hwindow
      exact hwindow'.trans_lt hroom
    · refine List.isChain_append.mpr ⟨h.paced.2, List.isChain_singleton _, fun last hlast next hnext => ?_⟩
      obtain rfl := Option.some.inj hnext
      refine hspacing last.time ?_
      show p.lastRequest = some last.time
      rw [h.last, Option.mem_def.mp hlast]
      rfl
    · show ((grants ++ [_]).map HistoricalGrant.time).Pairwise (· ≤ ·)
      rw [List.map_append]
      refine List.pairwise_append.mpr ⟨h.sorted, List.pairwise_singleton _ _, fun t hmem next hnext => ?_⟩
      obtain rfl := List.mem_singleton.mp hnext
      exact hpast t hmem
    · intro g hmem
      rcases List.mem_append.mp hmem with hmem | hmem
      · exact h.past g hmem
      · obtain rfl := List.mem_singleton.mp hmem
        exact le_rfl
    · show some now = _
      simp [Verdict.entries]
    · show (grants ++ [_]).map HistoricalGrant.time = _
      rw [List.map_append, hsplit, List.append_assoc]
      rfl

theorem historicalLimiter_keeps : historicalLimiter.Keeps PacerInv fun _ => True where
  later := PacerInv.later
  attempt _ h := h.attempt
  aside h := h.touch _

/-- **The pacer keeps the pace.** In every interleaving of calls of `acquire`, their wake-ups and
cancellations, violations, readings of the pacer and changes of its spacing: no window holds more grants
than the capacity, and two grants in a row are the spacing in force at the later one apart. -/
theorem historical_pacing (capacity : ℤ) (window minSpacing clock : ℚ) (hcapacity : 1 ≤ capacity)
    (events : List (ℚ × Turnstile.Event Unit PacerEvent)) :
    Trace.Always (Turnstile.step historicalLimiter) (fun s => Paced s.resource s.grants)
      { resource := { capacity, window, minSpacing }, clock } events := by
  have hbounded : Window.Bounded window capacity [] := Window.bounded_nil (zero_le_one.trans hcapacity)
  have hstart : PacerInv { capacity, window, minSpacing } clock [] :=
    ⟨hcapacity, ⟨hbounded, List.IsChain.nil⟩, List.Pairwise.nil, fun _ hmem => (nomatch hmem), rfl, [], rfl,
      fun _ hmem => (nomatch hmem)⟩
  have hasks : ∀ e ∈ events, e.2.Asks fun _ => True := by
    rintro ⟨now, event⟩ -
    cases event <;> trivial
  exact (historicalLimiter_keeps.always hstart hasks).mono fun s h => h.paced

/-! #### A violation between two requests -/

/-- Two callers; the broker reports a violation while the second one sleeps. -/
def twoRequests : List (ℚ × Turnstile.Event Unit PacerEvent) :=
  [(0, .called 0 ()), (0, .called 1 ()), (1 / 2, .aside .violated), (1, .resumed 1), (2, .aside .utilised),
    (21 / 10, .resumed 1)]

theorem historical_pacing_backfill :
    Trace.Always (Turnstile.step historicalLimiter) (fun s => Paced s.resource s.grants)
      { resource := { capacity := 50, window := 600, minSpacing := 105 / 100 }, clock := 0 } twoRequests :=
  historical_pacing 50 600 (105 / 100) 0 (by decide) twoRequests

example : (Trace.run (Turnstile.step historicalLimiter)
    { resource := { capacity := 50, window := 600, minSpacing := 105 / 100 }, clock := 0 } twoRequests).grants =
    [⟨0, 105 / 100⟩, ⟨21 / 10, 21 / 10⟩] := by decide +kernel

end AiTrader
