import AiTrader.Domain.Models
import AiTrader.Lib.Decimal
import AiTrader.Lib.Dict
import AiTrader.Lib.Trace
import Mathlib.Data.List.MinMax
import Mathlib.Data.List.Sort

/-!
# The focus list

The broad universe is narrowed to the symbols worth streaming by a score, and membership is damped: a
challenger displaces the weakest member only when it has beaten it by a margin for several cycles in a row.

`update` rebuilds the list from three parts: the protected symbols, the best of the other members, and the
challengers that fill the free slots; then the remaining challengers, best first, contest the slots one by
one (`contestOne`).
-/

namespace AiTrader

open Lib

/-- A set of symbols, in the order in which it is iterated. -/
abbrev SymbolSet := { symbols : List String // symbols.Nodup }

/-- `score_symbol`. -/
def scoreSymbol (f : FeaturePack) (scannerRank : ℚ) : ℚ :=
  let participation := min f.rvol 5 * 2
  let range :=
    if 1 / 2 ≤ f.atrPct ∧ f.atrPct ≤ 6 then min f.atrPct 4 else if 6 < f.atrPct then -1 else 0
  let displacement := min |f.vwapDistanceAtr| 3
  let momentum := |f.rsi - 50| / 25
  let macdHist := f.macd - f.macdSignal
  let trend := if f.emaTrend ≠ 0 ∧ (0 < macdHist ↔ 0 < f.emaTrend) then 1 / 2 else 0
  let breakout := match f.openingRangePosition with
    | some position => if 1 < position ∨ position < 0 then 1 else 0
    | none => 0
  let gap := min (|f.gapPct| / 2) 2
  let wide := match f.spreadPct with
    | some spread => if 3 / 1000 < spread then 3 else 0
    | none => 0
  let thin := if f.avgVolume ≠ 0 ∧ f.avgVolume < 300000 then 2 else 0
  Decimal.roundTo 4
    (participation + range + displacement + momentum + trend + breakout + gap + scannerRank - wide - thin)

/-- Best first; symbols with one score stay in their order. -/
def byScore (score : String → ℚ) (symbols : List String) : List String :=
  symbols.insertionSort fun a b => score b ≤ score a

structure FocusListManager where
  size : ℕ := 20
  churnMargin : ℚ := 15 / 100
  persistenceCycles : ℕ := 2
  maxPromotionsPerCycle : ℕ := 4
  current : List String := []
  challengerStreak : Dict String ℕ := Dict.empty
  deriving DecidableEq

/-- What one `update` is given: the features, the ranks from the scanners, and the symbols with a position or
a working order. -/
structure FocusInputs where
  features : Dict String FeaturePack
  scannerRanks : Dict String ℚ := Dict.empty
  protectedSymbols : SymbolSet := ⟨[], List.nodup_nil⟩

namespace FocusInputs

variable (i : FocusInputs)

/-- The symbols with features. -/
def scored : List String := i.features.keys

def scoreOf (symbol : String) (pack : FeaturePack) : ℚ :=
  scoreSymbol pack ((i.scannerRanks.get? symbol).getD 0)

/-- `scored.get(symbol, 0.0)`. -/
def score (symbol : String) : ℚ := ((i.features.get? symbol).map (i.scoreOf symbol)).getD 0

/-- `update` writes the score into each pack. -/
def rankedFeatures : Dict String FeaturePack :=
  i.features.mapValues fun symbol pack => { pack with rankScore := i.scoreOf symbol pack }

end FocusInputs

/-- The contest for the slots: its members, the symbols added in this call, the streaks, and whether the loop
has been left. -/
structure Contest where
  retained : List String
  added : List String
  streaks : Dict String ℕ
  stopped : Bool := false
  deriving DecidableEq

namespace FocusListManager

variable (m : FocusListManager) (i : FocusInputs)

/-- Protected symbols with features or with a place on the list. -/
def keep : List String := i.protectedSymbols.1.filter fun s => s ∈ i.scored ∨ s ∈ m.current

def slots : ℕ := m.size - (m.keep i).length

def incumbents : List String := m.current.filter fun s => s ∉ m.keep i ∧ s ∈ i.scored

def challengers : List String :=
  byScore i.score (i.scored.filter fun s => s ∉ m.keep i ∧ s ∉ m.incumbents i)

/-- The best incumbents, as many as there are slots. -/
def best : List String := (byScore i.score (m.incumbents i)).take (m.slots i)

/-- The challengers that fill the free slots. -/
def fillers : List String :=
  (m.challengers i).take (min (m.slots i - (m.best i).length) m.maxPromotionsPerCycle)

/-- The weakest member is beaten by the margin. -/
def Beats (symbol weakest : String) : Prop := i.score weakest * (1 + m.churnMargin) < i.score symbol

instance (symbol weakest : String) : Decidable (m.Beats i symbol weakest) :=
  inferInstanceAs (Decidable (_ < _))

/-- The streak of a challenger that has won this round as well. -/
def streak (c : Contest) (symbol : String) : ℕ := (c.streaks.get? symbol).getD 0 + 1

/-- One challenger in the contest. -/
def contestOne (c : Contest) (symbol : String) : Contest :=
  if c.stopped = true then c
  else if symbol ∈ c.added ∨ m.maxPromotionsPerCycle ≤ c.added.length then c
  else
    match c.retained.argmin i.score with
    | none => { c with stopped := true }
    | some weakest =>
      if weakest ∈ i.protectedSymbols.1 then { c with stopped := true }
      else if m.Beats i symbol weakest then
        if m.persistenceCycles ≤ streak c symbol then
          { c with
            retained := c.retained.erase weakest ++ [symbol]
            added := c.added ++ [symbol]
            streaks := c.streaks.erase symbol }
        else { c with streaks := c.streaks.set symbol (streak c symbol) }
      else { c with streaks := c.streaks.erase symbol }

/-- The contest as it begins, the free slots filled. -/
def opening : Contest where
  retained := m.best i ++ m.fillers i
  added := m.fillers i
  streaks := m.challengerStreak

/-- The contest as it ends. -/
def outcome : Contest := Trace.run (m.contestOne i) (m.opening i) (m.challengers i)

def newFocus : List String := m.keep i ++ (m.outcome i).retained.filter fun s => s ∉ m.keep i

def removed : List String := m.current.filter fun s => s ∉ m.newFocus i

/-- What `update` returns, the manager it leaves and the features it has ranked. -/
structure Update where
  focus : List String
  added : List String
  removed : List String
  manager : FocusListManager
  features : Dict String FeaturePack

def update : Update where
  focus := m.newFocus i
  added := (m.outcome i).added
  removed := m.removed i
  manager :=
    { m with
      current := m.newFocus i
      challengerStreak := (m.outcome i).streaks.filter fun s _ => s ∉ m.newFocus i ∧ s ∈ i.scored }
  features := i.rankedFeatures

end FocusListManager

/-- `rank_candidates`. -/
def rankCandidates (i : FocusInputs) (limit : ℕ) : List String := (byScore i.score i.scored).take limit

/-- The bonus of one scan: a symbol near its top earns more. -/
def addScan (weight : ℚ) (out : Dict String ℚ) (symbols : List String) : Dict String ℚ :=
  symbols.zipIdx.foldl (fun out entry =>
    out.set entry.1 ((out.get? entry.1).getD 0 + weight * (1 - entry.2 / symbols.length))) out

/-- `scanner_rank_scores`. -/
def scannerRankScores (hitsByCode : Dict String (List String)) (weight : ℚ) : Dict String ℚ :=
  hitsByCode.values.foldl (addScan weight) Dict.empty

/-! ### Sorting -/

@[simp] theorem mem_byScore {score : String → ℚ} {symbols : List String} {s : String} :
    s ∈ byScore score symbols ↔ s ∈ symbols :=
  (List.perm_insertionSort _ _).mem_iff

theorem nodup_byScore {score : String → ℚ} {symbols : List String} :
    (byScore score symbols).Nodup ↔ symbols.Nodup :=
  (List.perm_insertionSort _ _).nodup_iff

theorem pairwise_byScore (score : String → ℚ) (symbols : List String) :
    (byScore score symbols).Pairwise fun a b => score b ≤ score a := by
  have : Std.Total fun a b : String => score b ≤ score a := ⟨fun a b => le_total (score b) (score a)⟩
  have : IsTrans String fun a b => score b ≤ score a := ⟨fun _ _ _ hab hbc => hbc.trans hab⟩
  exact List.pairwise_insertionSort _ symbols

end AiTrader
