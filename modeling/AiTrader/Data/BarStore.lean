import AiTrader.Domain.Models
import AiTrader.Lib.Buckets
import Mathlib.Data.List.Dedup

/-!
# The bars on disk

`BarStore` keeps one row for each symbol, start and width of a bar: saving a bar again replaces its row. What is loaded
is the end of a series, oldest first. The column of the starts has no time zone; all bars are in UTC.

A save may end early. Whatever the saves were, loading gives the newest bars of the series, each as it was saved last
and none twice (`load_bars_spec`).

A row is the value under its key, so a run of saves is a run of `Dict.set`, and what stands under a key is the row
that was set last (`get?_upserts`, by induction from the last row). That the query sorts downwards, cuts and turns
around comes to the end of the series in order of time (`loadBars_eq`), since no two bars of a series begin at the
same moment. What is left is to count the bars that are newer than one that is loaded, in the store and among the
saves.
-/

namespace AiTrader

open Lib

/-- The primary key. -/
structure BarKey where
  symbol : String
  ts : ℚ
  period : ℕ
  deriving DecidableEq

structure BarRow where
  openPrice : ℚ
  high : ℚ
  low : ℚ
  close : ℚ
  volume : ℚ
  deriving DecidableEq

def Bar.key (b : Bar) : BarKey := ⟨b.symbol, b.ts, b.period⟩

def Bar.row (b : Bar) : BarRow := ⟨b.openPrice, b.high, b.low, b.close, b.volume⟩

/-- The bar of a row. -/
def BarRow.bar (r : BarRow) (key : BarKey) : Bar where
  symbol := key.symbol
  ts := key.ts
  openPrice := r.openPrice
  high := r.high
  low := r.low
  close := r.close
  volume := r.volume
  period := key.period

@[simp] theorem Bar.bar_row (b : Bar) : b.row.bar b.key = b := rfl

@[simp] theorem BarRow.key_bar (r : BarRow) (key : BarKey) : (r.bar key).key = key := rfl

/-- The bar is one of this series. -/
def Bar.Of (b : Bar) (symbol : String) (period : ℕ) : Prop := b.symbol = symbol ∧ b.period = period

instance (b : Bar) (symbol : String) (period : ℕ) : Decidable (b.Of symbol period) :=
  inferInstanceAs (Decidable (_ ∧ _))

structure BarStore where
  rows : Dict BarKey BarRow := Dict.empty
  deriving DecidableEq

namespace BarStore

def upsert (s : BarStore) (b : Bar) : BarStore := { rows := s.rows.set b.key b.row }

/-- `save_bars`, of which so many rows are written. -/
def saveBars (s : BarStore) (bars : List Bar) (written : ℕ) : BarStore := (bars.take written).foldl upsert s

/-- The rows of a series, as bars. -/
def series (s : BarStore) (symbol : String) (period : ℕ) : List Bar :=
  (s.rows.entries.map fun entry => entry.2.bar entry.1).filter fun b => b.Of symbol period

/-- `load_bars`: the newest first and so many of them, turned around. -/
def loadBars (s : BarStore) (symbol : String) (period limit : ℕ) : List Bar :=
  ((sortBy (fun b => -b.ts) (s.series symbol period)).take limit).reverse

/-! ### One row a bar -/

variable {s : BarStore} {symbol : String} {period limit : ℕ} {b : Bar}

theorem mem_series : b ∈ s.series symbol period ↔ s.rows.get? b.key = some b.row ∧ b.Of symbol period := by
  rw [series, List.mem_filter, decide_eq_true_eq, Dict.get?_eq_some_iff, List.mem_map]
  refine and_congr_left fun _ => ⟨?_, fun hmem => ⟨_, hmem, b.bar_row⟩⟩
  rintro ⟨⟨key, row⟩, hmem, rfl⟩
  exact hmem

theorem nodup_series (s : BarStore) (symbol : String) (period : ℕ) : ((s.series symbol period).map Bar.ts).Nodup := by
  have hkeys : ((s.rows.entries.map fun entry => entry.2.bar entry.1).map Bar.key).Nodup := by
    rw [List.map_map]
    exact s.rows.nodup
  have hseries : ((s.series symbol period).map Bar.key).Nodup := hkeys.sublist (List.filter_sublist.map Bar.key)
  rw [List.Nodup, List.pairwise_map] at hseries ⊢
  refine hseries.imp_of_mem fun {a b} ha hb hne hts => hne ?_
  obtain ⟨hsymbol, hperiod⟩ := (mem_series.mp ha).2
  obtain ⟨hsymbol', hperiod'⟩ := (mem_series.mp hb).2
  rw [Bar.key, Bar.key, hsymbol, hsymbol', hperiod, hperiod', hts]

theorem loadBars_eq (s : BarStore) (symbol : String) (period limit : ℕ) :
    s.loadBars symbol period limit = (sortBy Bar.ts (s.series symbol period)).rtake limit := by
  have hback : (sortBy (fun b : Bar => -b.ts) (s.series symbol period)).reverse =
      sortBy Bar.ts (s.series symbol period) := by
    refine Chronological.ext ?_ (chronological_sortBy (nodup_series s symbol period)) fun b => by simp [mem_sortBy]
    have hnodup : ((s.series symbol period).map fun b => -b.ts).Nodup := by
      have hneg := (nodup_series s symbol period).map neg_injective
      rwa [List.map_map] at hneg
    exact List.pairwise_reverse.mpr ((chronological_sortBy hnodup).imp fun hlt => neg_lt_neg_iff.mp hlt)
  rw [loadBars, List.reverse_take, List.rtake, ← hback, List.length_reverse]

/-! ### Any number of saves -/

/-- What was saved last under a key. -/
def lastSaved (history : List Bar) (key : BarKey) : Option Bar := history.reverse.find? fun b => b.key = key

theorem lastSaved_concat (history : List Bar) (b : Bar) (key : BarKey) :
    lastSaved (history ++ [b]) key = if b.key = key then some b else lastSaved history key := by
  unfold lastSaved
  rw [List.reverse_append, List.reverse_singleton, List.singleton_append, List.find?_cons]
  by_cases hkey : b.key = key
  · simp [hkey]
  · simp [hkey]

theorem key_of_lastSaved {history : List Bar} {key : BarKey} (h : lastSaved history key = some b) : b.key = key := by
  simpa using List.find?_some h

theorem exists_lastSaved {history : List Bar} (hb : b ∈ history) : ∃ a, lastSaved history b.key = some a := by
  rw [← Option.isSome_iff_exists, lastSaved, List.find?_isSome]
  exact ⟨b, List.mem_reverse.mpr hb, by simp⟩

theorem mem_of_lastSaved {history : List Bar} {key : BarKey} (h : lastSaved history key = some b) : b ∈ history :=
  List.mem_reverse.mp (List.mem_of_find?_eq_some h)

/-- **The store after any rows**: under every key the row that was written last. -/
theorem get?_upserts (history : List Bar) (key : BarKey) :
    (history.foldl upsert {}).rows.get? key = (lastSaved history key).map Bar.row := by
  induction history using List.reverseRecOn with
  | nil => rfl
  | append_singleton history b ih =>
    rw [List.foldl_append, List.foldl_cons, List.foldl_nil, lastSaved_concat, upsert]
    by_cases hkey : b.key = key
    · rw [if_pos hkey, ← hkey, Dict.get?_set_self]
      rfl
    · rw [if_neg hkey, Dict.get?_set_ne _ _ (Ne.symm hkey), ih]

/-- A call of `save_bars`, and how many of its rows are written. -/
structure Save where
  bars : List Bar
  written : ℕ

def Save.rows (save : Save) : List Bar := save.bars.take save.written

def run (saves : List Save) : BarStore := saves.foldl (fun s save => s.saveBars save.bars save.written) {}

/-- All rows that were written, in order. -/
def history (saves : List Save) : List Bar := saves.flatMap Save.rows

theorem run_eq (saves : List Save) : run saves = (history saves).foldl upsert {} := by
  rw [history, List.foldl_flatMap]
  rfl

/-- The starts of the bars of the series that are newer than this one. -/
def newer (history : List Bar) (b : Bar) : List ℚ :=
  ((history.filter fun a => a.Of b.symbol b.period && decide (b.ts < a.ts)).map Bar.ts).dedup

/-- **What is loaded**, after any saves: the newest bars of the series, as many as are asked for, in order of time,
each as it was saved last. -/
theorem load_bars_spec (saves : List Save) (symbol : String) (period limit : ℕ) :
    Chronological Bar.ts ((run saves).loadBars symbol period limit) ∧
      ∀ b, b ∈ (run saves).loadBars symbol period limit ↔
        b.Of symbol period ∧ lastSaved (history saves) b.key = some b ∧ (newer (history saves) b).length < limit := by
  have hsorted := chronological_sortBy (nodup_series (run saves) symbol period)
  have hmem : ∀ b, b ∈ (run saves).series symbol period ↔
      b.Of symbol period ∧ lastSaved (history saves) b.key = some b := by
    intro b
    rw [mem_series, run_eq, get?_upserts, and_comm]
    refine and_congr_right fun _ => ⟨fun hrow => ?_, fun hlast => by rw [hlast]; rfl⟩
    obtain ⟨a, ha, hrow⟩ := Option.map_eq_some_iff.mp hrow
    rw [ha, ← a.bar_row, hrow, key_of_lastSaved ha, b.bar_row]
  rw [loadBars_eq]
  refine ⟨hsorted.sublist (List.drop_sublist _ _), fun b => ?_⟩
  rw [hsorted.mem_rtake, mem_sortBy, hmem, and_assoc]
  refine and_congr_right fun hof => and_congr_right fun _ => ?_
  -- the newer bars that are stored begin when the newer bars begin that were saved
  have hperm : (((sortBy Bar.ts ((run saves).series symbol period)).filter fun a => b.ts < a.ts).map Bar.ts).Perm
      (newer (history saves) b) := by
    refine (List.perm_ext_iff_of_nodup ?_ (List.nodup_dedup _)).mpr fun ts => ?_
    · exact hsorted.nodup.sublist (List.filter_sublist.map Bar.ts)
    · simp only [List.mem_map, List.mem_filter, mem_sortBy, hmem, List.mem_dedup, decide_eq_true_eq,
        Bool.and_eq_true]
      constructor
      · rintro ⟨a, ⟨⟨ha, hlast⟩, hlater⟩, rfl⟩
        exact ⟨a, ⟨mem_of_lastSaved hlast, ⟨ha.1.trans hof.1.symm, ha.2.trans hof.2.symm⟩, hlater⟩, rfl⟩
      · rintro ⟨a, ⟨ha, hsame, hlater⟩, rfl⟩
        obtain ⟨c, hc⟩ := exists_lastSaved ha
        have hkey := key_of_lastSaved hc
        obtain ⟨hsymbol, hts, hperiod⟩ := BarKey.mk.inj hkey
        refine ⟨c, ⟨⟨⟨?_, ?_⟩, hkey ▸ hc⟩, hts ▸ hlater⟩, hts⟩
        · exact hsymbol.trans (hsame.1.trans hof.1)
        · exact hperiod.trans (hsame.2.trans hof.2)
  rw [← hperm.length_eq, List.length_map]

end BarStore

end AiTrader
