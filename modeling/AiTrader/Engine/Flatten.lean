import AiTrader.Engine.FastLoop
import AiTrader.Lib.Totals
import AiTrader.Lib.Trace

/-!
# Flattening does not over-exit

Between two account refreshes the fast loop can flatten several times from the same cached account. The
exits it sends stay within the position that existed when flattening began precisely in the runs in which
every exit is sent on a current view: no exit of the symbol is live, and the captured quantity still is the
position (`flatten_never_over_exits_iff`).

`BrokerBook.Sound` is what holds at the broker along such a run: every exit closes the position, what has
filled is gone from it, and filled plus live quantity fit into it. Since positions then only shrink, every
view the loop may hold, cached or captured, lies between the present position and the first one (`Shows`).

Each step is looked at from the position of one symbol. A fill takes its quantity from the position and from the live
exit and adds it to what is filled (`Sound.fill_moves`), so the sum of what is filled and what is live does not grow.
Placing an exit adds its quantity to what is live: it fits when nothing was live and the captured quantity still is
the position. An exit that does not fit breaks the law at once (`Sound.over_exits`), which makes the condition exact.
-/

namespace AiTrader

open Lib

/-! ### Filled and live quantities -/

namespace Exit

def filledOn (symbol : String) (x : Exit) : ℚ := if x.symbol = symbol then x.filled else 0

def liveOn (symbol : String) (x : Exit) : ℚ :=
  if x.symbol = symbol ∧ x.live = true then x.quantity - x.filled else 0

end Exit

namespace BrokerBook

/-- Filled by exits of the symbol. -/
def filledOf (b : BrokerBook) (symbol : String) : ℚ := total (Exit.filledOn symbol) b.exits

/-- Still live in exits of the symbol. -/
def liveOf (b : BrokerBook) (symbol : String) : ℚ := total (Exit.liveOn symbol) b.exits

/-- The position in the symbol when flattening began. -/
def openingOf (b : BrokerBook) (symbol : String) : ℚ := quantityOf b.opening symbol

/-- The position in the symbol now. -/
def heldOf (b : BrokerBook) (symbol : String) : ℚ := quantityOf b.positions symbol

theorem filledOf_accept (b : BrokerBook) (spec : BrokerOrderSpec) (symbol : String) :
    (b.accept spec).filledOf symbol = b.filledOf symbol := by
  unfold filledOf accept
  rw [total_concat]
  simp [Exit.filledOn]

theorem liveOf_accept (b : BrokerBook) (spec : BrokerOrderSpec) (symbol : String) :
    (b.accept spec).liveOf symbol =
      b.liveOf symbol + if spec.symbol = symbol then spec.quantity else 0 := by
  unfold liveOf accept
  rw [total_concat]
  simp [Exit.liveOn]

theorem fill_cases (b : BrokerBook) (i : ℕ) (quantity : ℚ) :
    b.fill i quantity = b ∨ ∃ x, b.exits[i]? = some x ∧ x.live = true ∧ 0 < quantity ∧
      quantity ≤ x.quantity - x.filled ∧
      b.fill i quantity =
        { b with
          positions := movePosition b.positions x.symbol (if x.sells then -quantity else quantity)
          past := b.positions :: b.past
          exits := b.exits.set i { x with
            filled := x.filled + quantity
            live := decide (x.filled + quantity < x.quantity) } } := by
  unfold fill
  cases hx : b.exits[i]? with
  | none => exact Or.inl rfl
  | some x =>
    by_cases hcan : x.live = true ∧ 0 < quantity ∧ quantity ≤ x.quantity - x.filled
    · refine Or.inr ⟨x, rfl, hcan.1, hcan.2.1, hcan.2.2, ?_⟩
      dsimp only
      rw [if_pos hcan]
    · left
      dsimp only
      rw [if_neg hcan]

theorem filledOn_fill (x : Exit) (quantity : ℚ) (live : Bool) (symbol : String) :
    Exit.filledOn symbol { x with filled := x.filled + quantity, live } =
      Exit.filledOn symbol x + if x.symbol = symbol then quantity else 0 := by
  unfold Exit.filledOn
  dsimp only
  split_ifs
  · rfl
  · rw [add_zero]

theorem liveOn_fill {x : Exit} {quantity : ℚ} (hlive : x.live = true)
    (hle : quantity ≤ x.quantity - x.filled) (symbol : String) :
    Exit.liveOn symbol { x with
        filled := x.filled + quantity, live := decide (x.filled + quantity < x.quantity) } =
      Exit.liveOn symbol x - if x.symbol = symbol then quantity else 0 := by
  unfold Exit.liveOn
  by_cases hsymbol : x.symbol = symbol
  · by_cases hrest : x.filled + quantity < x.quantity
    · simp only [hsymbol, hlive, hrest, decide_true, and_self, if_true]
      ring
    · have heq : quantity = x.quantity - x.filled := by linarith
      simp [hsymbol, hlive, heq]
  · simp [hsymbol]

theorem finish_cases (b : BrokerBook) (i : ℕ) :
    b.finish i = b ∨ ∃ x, b.exits[i]? = some x ∧
      b.finish i = { b with exits := b.exits.set i { x with live := false } } := by
  unfold finish
  cases hx : b.exits[i]? with
  | none => exact Or.inl rfl
  | some x => exact Or.inr ⟨x, rfl, rfl⟩

/-! ### What holds at the broker -/

/-- The size of `quantity` as a part of a position on the side of `opening`. -/
def along (opening quantity : ℚ) : ℚ := if 0 ≤ opening then quantity else -quantity

theorem along_self (opening : ℚ) : along opening opening = |opening| := by
  unfold along
  split_ifs with h
  · exact (abs_of_nonneg h).symm
  · exact (abs_of_neg (not_le.mp h)).symm

theorem along_add (opening q r : ℚ) : along opening (q + r) = along opening q + along opening r := by
  unfold along
  split_ifs
  · rfl
  · ring

theorem along_inj {opening q r : ℚ} (h : along opening q = along opening r) : q = r := by
  unfold along at h
  split_ifs at h
  · exact h
  · exact neg_injective h

theorem along_closing {opening quantity : ℚ} {sells : Bool} (hne : opening ≠ 0)
    (hsells : sells = decide (0 < opening)) :
    along opening (if sells then -quantity else quantity) = -quantity := by
  unfold along
  rcases lt_or_gt_of_ne hne with hneg | hpos
  · simp [hsells, not_lt.mpr hneg.le, not_le.mpr hneg]
  · simp [hsells, hpos, hpos.le]

theorem along_eq_abs {opening quantity : ℚ} (hne : quantity ≠ 0) (hnonneg : 0 ≤ along opening quantity)
    (hle : along opening quantity ≤ |opening|) :
    along opening quantity = |quantity| ∧ opening ≠ 0 ∧
      decide (0 < quantity) = decide (0 < opening) := by
  unfold along at hnonneg hle ⊢
  split_ifs at hnonneg hle ⊢ with hside
  · have hpos : 0 < quantity := lt_of_le_of_ne hnonneg hne.symm
    rw [abs_of_nonneg hside] at hle
    have hopening : 0 < opening := hpos.trans_le hle
    exact ⟨(abs_of_pos hpos).symm, hopening.ne', by simp [hpos, hopening]⟩
  · have hopening : opening < 0 := not_le.mp hside
    have hneg : quantity < 0 := lt_of_le_of_ne (by linarith) hne
    exact ⟨(abs_of_neg hneg).symm, hopening.ne, by simp [not_lt.mpr hneg.le, not_lt.mpr hopening.le]⟩

/-- An exit closes a position that existed, and has filled by no more than its quantity. -/
structure Closing (b : BrokerBook) (x : Exit) : Prop where
  filled_nonneg : 0 ≤ x.filled
  filled_le : x.filled ≤ x.quantity
  opening_ne : b.openingOf x.symbol ≠ 0
  sells : x.sells = decide (0 < b.openingOf x.symbol)

/-- `quantity` lies between the position now and the position when flattening began. -/
def Shows (b : BrokerBook) (symbol : String) (quantity : ℚ) : Prop :=
  along (b.openingOf symbol) (b.heldOf symbol) ≤ along (b.openingOf symbol) quantity ∧
    along (b.openingOf symbol) quantity ≤ |b.openingOf symbol|

structure Sound (b : BrokerBook) : Prop where
  held : ∀ symbol, along (b.openingOf symbol) (b.heldOf symbol) =
    |b.openingOf symbol| - b.filledOf symbol
  fits : ∀ symbol, b.filledOf symbol + b.liveOf symbol ≤ |b.openingOf symbol|
  exits : ∀ x ∈ b.exits, b.Closing x
  past : ∀ old ∈ b.past, ∀ symbol, b.Shows symbol (quantityOf old symbol)

theorem Sound.filledOf_nonneg {b : BrokerBook} (h : b.Sound) (symbol : String) :
    0 ≤ b.filledOf symbol := by
  refine total_nonneg fun x hx => ?_
  unfold Exit.filledOn
  split_ifs
  · exact (h.exits x hx).filled_nonneg
  · exact le_rfl

theorem Sound.liveOf_nonneg {b : BrokerBook} (h : b.Sound) (symbol : String) :
    0 ≤ b.liveOf symbol := by
  refine total_nonneg fun x hx => ?_
  unfold Exit.liveOn
  split_ifs
  · exact sub_nonneg.mpr (h.exits x hx).filled_le
  · exact le_rfl

theorem Sound.shows_portfolio {b : BrokerBook} (h : b.Sound) (lag : ℕ) (symbol : String) :
    b.Shows symbol (quantityOf (b.portfolio lag) symbol) := by
  have hpresent : b.Shows symbol (b.heldOf symbol) := by
    refine ⟨le_rfl, ?_⟩
    have hfilled := h.filledOf_nonneg symbol
    rw [h.held]
    linarith
  unfold portfolio
  cases hview : (b.positions :: b.past)[lag]? with
  | none => exact hpresent
  | some old =>
    rcases List.mem_cons.mp (List.mem_of_getElem? hview) with rfl | hmem
    · exact hpresent
    · exact h.past old hmem symbol

theorem sound_open (positions : Dict String Position) : Sound { opening := positions, positions } := by
  constructor
  · intro symbol
    have hfilled : filledOf { opening := positions, positions } symbol = 0 := rfl
    rw [hfilled, sub_zero]
    exact along_self _
  · intro symbol
    exact (add_zero (0 : ℚ)).le.trans (abs_nonneg _)
  · intro x hx
    cases hx
  · intro old hold
    cases hold

/-! #### Fills -/

theorem Sound.fill_moves {b : BrokerBook} (h : b.Sound) (i : ℕ) (quantity : ℚ) (symbol : String) :
    ∃ moved, 0 ≤ moved ∧
      along (b.openingOf symbol) ((b.fill i quantity).heldOf symbol) =
        along (b.openingOf symbol) (b.heldOf symbol) - moved ∧
      (b.fill i quantity).filledOf symbol = b.filledOf symbol + moved ∧
      (b.fill i quantity).liveOf symbol = b.liveOf symbol - moved := by
  rcases b.fill_cases i quantity with hsame | ⟨x, hx, hlive, hpos, hle, heq⟩
  · refine ⟨0, le_rfl, ?_, ?_, ?_⟩ <;> simp [hsame]
  · have hclosing := h.exits x (List.mem_of_getElem? hx)
    refine ⟨if x.symbol = symbol then quantity else 0, ?_, ?_, ?_, ?_⟩
    · split_ifs
      · exact hpos.le
      · exact le_rfl
    · rw [heq]
      unfold heldOf
      rw [quantityOf_movePosition, along_add]
      by_cases hsymbol : x.symbol = symbol
      · subst hsymbol
        rw [if_pos rfl, if_pos rfl, along_closing hclosing.opening_ne hclosing.sells, sub_eq_add_neg]
      · have hzero : along (b.openingOf symbol) 0 = 0 := by simp [along]
        rw [if_neg hsymbol, if_neg fun h => hsymbol h.symm, hzero, add_zero, sub_zero]
    · rw [heq]
      unfold filledOf
      rw [total_set _ hx, filledOn_fill]
      ring
    · rw [heq]
      unfold liveOf
      rw [total_set _ hx, liveOn_fill hlive hle]
      ring

@[simp] theorem openingOf_fill (b : BrokerBook) (i : ℕ) (quantity : ℚ) (symbol : String) :
    (b.fill i quantity).openingOf symbol = b.openingOf symbol := by
  rcases b.fill_cases i quantity with hsame | ⟨x, _, _, _, _, heq⟩
  · rw [hsame]
  · rw [heq]
    rfl

theorem Sound.shows_fill {b : BrokerBook} (h : b.Sound) {i : ℕ} {quantity : ℚ} {symbol : String} {q : ℚ}
    (hq : b.Shows symbol q) : (b.fill i quantity).Shows symbol q := by
  obtain ⟨moved, hmoved, hheld, _, _⟩ := h.fill_moves i quantity symbol
  unfold Shows
  rw [openingOf_fill, hheld]
  have hlow := hq.1
  exact ⟨by linarith, hq.2⟩

theorem Sound.closing_fill {b : BrokerBook} (h : b.Sound) (i : ℕ) (quantity : ℚ) :
    ∀ x ∈ (b.fill i quantity).exits, (b.fill i quantity).Closing x := by
  rcases b.fill_cases i quantity with hsame | ⟨x, hx, _, hpos, hle, heq⟩
  · rw [hsame]
    exact h.exits
  · rw [heq]
    intro y hy
    rcases List.mem_or_eq_of_mem_set hy with hy | rfl
    · have hclosing := h.exits y hy
      exact ⟨hclosing.filled_nonneg, hclosing.filled_le, hclosing.opening_ne, hclosing.sells⟩
    · have hclosing := h.exits x (List.mem_of_getElem? hx)
      have hnonneg := hclosing.filled_nonneg
      refine ⟨?_, ?_, hclosing.opening_ne, hclosing.sells⟩
      · dsimp only
        linarith
      · dsimp only
        linarith

theorem Sound.fill {b : BrokerBook} (h : b.Sound) (i : ℕ) (quantity : ℚ) :
    (b.fill i quantity).Sound := by
  constructor
  · intro symbol
    obtain ⟨moved, _, hheld, hfilled, _⟩ := h.fill_moves i quantity symbol
    rw [openingOf_fill, hheld, hfilled, h.held]
    ring
  · intro symbol
    obtain ⟨moved, _, _, hfilled, hlive⟩ := h.fill_moves i quantity symbol
    have hfits := h.fits symbol
    rw [openingOf_fill, hfilled, hlive]
    linarith
  · exact h.closing_fill i quantity
  · intro old hold symbol
    have hbefore : old ∈ b.positions :: b.past := by
      rcases b.fill_cases i quantity with hsame | ⟨x, _, _, _, _, heq⟩
      · rw [hsame] at hold
        exact List.mem_cons_of_mem _ hold
      · rw [heq] at hold
        exact hold
    refine h.shows_fill ?_
    rcases List.mem_cons.mp hbefore with rfl | hmem
    · exact h.shows_portfolio 0 symbol
    · exact h.past old hmem symbol

/-! #### Cancellations -/

theorem Sound.finish {b : BrokerBook} (h : b.Sound) (i : ℕ) : (b.finish i).Sound := by
  rcases b.finish_cases i with hsame | ⟨x, hx, heq⟩
  · rw [hsame]
    exact h
  · have hclosing := h.exits x (List.mem_of_getElem? hx)
    have hfilled : ∀ symbol, (b.finish i).filledOf symbol = b.filledOf symbol := by
      intro symbol
      rw [heq]
      exact total_set_of_eq _ hx rfl
    have hlive : ∀ symbol, (b.finish i).liveOf symbol ≤ b.liveOf symbol := by
      intro symbol
      rw [heq]
      unfold liveOf
      rw [total_set _ hx]
      have hold : 0 ≤ Exit.liveOn symbol x := by
        unfold Exit.liveOn
        split_ifs
        · exact sub_nonneg.mpr hclosing.filled_le
        · exact le_rfl
      have hnew : Exit.liveOn symbol { x with live := false } = 0 := by simp [Exit.liveOn]
      rw [hnew]
      linarith
    constructor
    · intro symbol
      rw [hfilled]
      have hheld := h.held symbol
      rw [heq]
      exact hheld
    · intro symbol
      have hfits := h.fits symbol
      have hle := hlive symbol
      rw [hfilled]
      have hopening : (b.finish i).openingOf symbol = b.openingOf symbol := by rw [heq]; rfl
      rw [hopening]
      linarith
    · rw [heq]
      intro y hy
      rcases List.mem_or_eq_of_mem_set hy with hy | rfl
      · have hy := h.exits y hy
        exact ⟨hy.filled_nonneg, hy.filled_le, hy.opening_ne, hy.sells⟩
      · exact ⟨hclosing.filled_nonneg, hclosing.filled_le, hclosing.opening_ne, hclosing.sells⟩
    · rw [heq]
      exact h.past

/-! #### Exits -/

/-- An exit fits when no exit of its symbol is live and the position is still what it was sized on. -/
def Fits (b : BrokerBook) (symbol : String) (p : Position) : Prop :=
  b.liveOf symbol = 0 ∧ b.heldOf symbol = p.quantity

/-- The order that closes `p`. -/
structure Closes (symbol : String) (p : Position) (spec : BrokerOrderSpec) : Prop where
  symbol_eq : spec.symbol = symbol
  action : spec.action = if p.isLong then "SELL" else "BUY"
  quantity : spec.quantity = |p.quantity|

theorem Sound.accept {b : BrokerBook} (h : b.Sound) {symbol : String} {p : Position}
    {spec : BrokerOrderSpec} (hspec : Closes symbol p spec) (hopen : p.quantity ≠ 0)
    (hshows : b.Shows symbol p.quantity) (hfits : b.Fits symbol p) : (b.accept spec).Sound := by
  have hnonneg : 0 ≤ along (b.openingOf symbol) (b.heldOf symbol) := by
    have hfits := h.fits symbol
    have hlive := h.liveOf_nonneg symbol
    rw [h.held]
    linarith
  obtain ⟨hsize, hne, hside⟩ := along_eq_abs hopen (hnonneg.trans hshows.1) hshows.2
  constructor
  · intro symbol'
    rw [filledOf_accept]
    exact h.held symbol'
  · intro symbol'
    rw [filledOf_accept, liveOf_accept, hspec.symbol_eq]
    split_ifs with hsymbol
    · subst hsymbol
      have hheld := h.held symbol
      rw [hfits.2, hsize] at hheld
      have hopening : (b.accept spec).openingOf symbol = b.openingOf symbol := rfl
      rw [hfits.1, hspec.quantity, hopening]
      linarith
    · rw [add_zero]
      exact h.fits symbol'
  · intro x hx
    rcases List.mem_append.mp hx with hx | hx
    · have hx := h.exits x hx
      exact ⟨hx.filled_nonneg, hx.filled_le, hx.opening_ne, hx.sells⟩
    · rw [List.mem_singleton.mp hx]
      refine ⟨le_rfl, ?_, ?_, ?_⟩
      · rw [hspec.quantity]
        exact abs_nonneg _
      · rw [hspec.symbol_eq]
        exact hne
      · dsimp only
        rw [hspec.symbol_eq, hspec.action]
        refine Eq.trans ?_ hside
        unfold Position.isLong
        by_cases hpos : 0 < p.quantity <;> simp [hpos]
  · exact h.past

/-- The law: filled plus live exit quantity stays within the first position, which never changes side. -/
def WithinOpening (b : BrokerBook) : Prop :=
  ∀ symbol, b.filledOf symbol + b.liveOf symbol ≤ |b.openingOf symbol| ∧
    (0 ≤ b.openingOf symbol → 0 ≤ b.heldOf symbol) ∧
    (b.openingOf symbol ≤ 0 → b.heldOf symbol ≤ 0)

theorem Sound.withinOpening {b : BrokerBook} (h : b.Sound) : b.WithinOpening := by
  intro symbol
  have hfits := h.fits symbol
  have hfilled := h.filledOf_nonneg symbol
  have hlive := h.liveOf_nonneg symbol
  have hheld := h.held symbol
  refine ⟨hfits, fun hlong => ?_, fun hshort => ?_⟩
  · rw [along, if_pos hlong] at hheld
    linarith
  · rcases hshort.lt_or_eq with hshort | hflat
    · rw [along, if_neg (not_le.mpr hshort)] at hheld
      linarith
    · rw [hflat, abs_zero] at hfits
      rw [along, if_pos hflat.ge, hflat, abs_zero] at hheld
      linarith

theorem Sound.over_exits {b : BrokerBook} (h : b.Sound) {symbol : String} {p : Position}
    {spec : BrokerOrderSpec} (hspec : Closes symbol p spec) (hopen : p.quantity ≠ 0)
    (hshows : b.Shows symbol p.quantity) (hbad : ¬ b.Fits symbol p) :
    ¬ (b.accept spec).WithinOpening := by
  intro hlaw
  have hsum := (hlaw symbol).1
  have hfits := h.fits symbol
  have hlive := h.liveOf_nonneg symbol
  have hheld := h.held symbol
  have hnonneg : 0 ≤ along (b.openingOf symbol) (b.heldOf symbol) := by
    rw [hheld]
    linarith
  have hsize := (along_eq_abs hopen (hnonneg.trans hshows.1) hshows.2).1
  have hopening : (b.accept spec).openingOf symbol = b.openingOf symbol := rfl
  rw [filledOf_accept, liveOf_accept, if_pos hspec.symbol_eq, hspec.quantity, hopening] at hsum
  have hle := hshows.1
  refine hbad ⟨by linarith, @along_inj (b.openingOf symbol) _ _ ?_⟩
  linarith

end BrokerBook

open BrokerBook

/-! ### What the loop holds -/

/-- A position the loop is to close, sized on a view the broker has shown. -/
def BrokerBook.Captures (b : BrokerBook) (e : String × Position) : Prop :=
  e.2.quantity ≠ 0 ∧ b.Shows e.1 e.2.quantity

/-- The exit the loop is suspended on is the one for its position. -/
def FlattenAt.Captured (b : BrokerBook) : FlattenAt → Prop
  | .cancellingAll _ _ => True
  | .cancellingSymbol symbol p _ _ => b.Captures (symbol, p)
  | .placing symbol p spec => b.Captures (symbol, p) ∧ Closes symbol p spec

def FastAt.Captured (b : BrokerBook) : FastAt → Prop
  | .flattening _ f => (∀ e ∈ f.left, b.Captures e) ∧ f.suspended.Captured b
  | _ => True

theorem FlattenAt.Captured.mono {b b' : BrokerBook} {f : FlattenAt} (h : f.Captured b)
    (hmono : ∀ symbol q, b.Shows symbol q → b'.Shows symbol q) : f.Captured b' := by
  cases f with
  | cancellingAll orderId refs => trivial
  | cancellingSymbol symbol p orderId refs => exact ⟨h.1, hmono _ _ h.2⟩
  | placing symbol p spec => exact ⟨⟨h.1.1, hmono _ _ h.1.2⟩, h.2⟩

theorem FastAt.Captured.mono {b b' : BrokerBook} {task : FastAt} (h : task.Captured b)
    (hmono : ∀ symbol q, b.Shows symbol q → b'.Shows symbol q) : task.Captured b' := by
  cases task with
  | idle => trivial
  | expiring began orderId refs => trivial
  | flattening eodNext f =>
    exact ⟨fun e he => ⟨(h.1 e he).1, hmono _ _ (h.1 e he).2⟩, h.2.mono hmono⟩

namespace FastLoop

/-- The cached account is a view the broker has shown. -/
def Cached (s : FastLoop) : Prop :=
  ∀ account ∈ s.app.account, ∀ symbol,
    s.broker.Shows symbol (quantityOf account.positions symbol)

/-- What a flatten that starts now would close. -/
def Offers (b : BrokerBook) (s : FastLoop) : Prop :=
  ∀ account ∈ s.app.account, ∀ e ∈ account.openPositions.entries, b.Captures e

theorem Cached.offers {s : FastLoop} (h : s.Cached) : Offers s.broker s := by
  intro account haccount e he
  obtain ⟨hmem, hopen⟩ := AccountSnapshot.mem_openPositions.mp he
  refine ⟨hopen, ?_⟩
  have hshows := h account haccount e.1
  rw [quantityOf, Dict.get?_eq_some_iff.mpr hmem] at hshows
  exact hshows

/-! #### What the segments capture -/

variable {b : BrokerBook} {s : FastLoop} {reason : String} {now : Now}
  {quotes : String → Option Quote} {eodNext : Bool} {after : FastLoop → FastLoop}

theorem captured_expireFrom (began : ℚ) (refs : List String) :
    (s.expireFrom began refs now).task.Captured b := by
  unfold expireFrom
  split
  · trivial
  · trivial

theorem captured_cancelThenExit {symbol : String} {p : Position} {refs : List String}
    {left : List (String × Position)} (hp : b.Captures (symbol, p)) (hleft : ∀ e ∈ left, b.Captures e) :
    (s.cancelThenExit reason now quotes eodNext symbol p refs left).task.Captured b := by
  unfold cancelThenExit
  split
  · exact ⟨hleft, hp⟩
  · exact ⟨hleft, hp, rfl, rfl, rfl⟩

theorem captured_closeNext {left : List (String × Position)} (hafter : (after s).task.Captured b)
    (hleft : ∀ e ∈ left, b.Captures e) :
    (s.closeNext reason now quotes eodNext after left).task.Captured b := by
  cases left with
  | nil => exact hafter
  | cons e left =>
    exact captured_cancelThenExit (hleft e List.mem_cons_self)
      fun e he => hleft e (List.mem_cons_of_mem _ he)

theorem captured_cancelThenClose {refs : List String} {left : List (String × Position)}
    (hafter : (after s).task.Captured b) (hleft : ∀ e ∈ left, b.Captures e) :
    (s.cancelThenClose reason now quotes eodNext after refs left).task.Captured b := by
  unfold cancelThenClose
  split
  · exact ⟨hleft, trivial⟩
  · exact captured_closeNext hafter hleft

theorem captured_flattenAll (hoffers : Offers b s) (hafter : (after s).task.Captured b) :
    (s.flattenAll reason now quotes eodNext after).task.Captured b := by
  unfold flattenAll
  split
  · exact hafter
  · rename_i account haccount
    exact captured_cancelThenClose hafter (hoffers account haccount)

theorem captured_afterFlatten (hoffers : Offers b s) :
    (afterFlatten now quotes eodNext s).task.Captured b := by
  unfold afterFlatten
  split_ifs
  · exact captured_flattenAll hoffers (captured_expireFrom _ _)
  · exact captured_expireFrom _ _

theorem captured_tick {connected : Bool} (hoffers : Offers b s) (hidle : s.task.Captured b) :
    (s.tick now quotes connected).task.Captured b := by
  unfold tick
  dsimp only
  split
  · rename_i account _
    have hchecked : Offers b (checkLoss { s with risk := s.risk.lookSwitch now } now account) := hoffers
    unfold flattenDue
    dsimp only
    split_ifs
    · exact captured_flattenAll hchecked (captured_afterFlatten hchecked)
    · exact captured_afterFlatten hchecked
  · exact hidle

theorem captured_cancelReturned {ok : Bool} (hoffers : Offers b s) (hcaptured : s.task.Captured b) :
    (s.cancelReturned now quotes ok).task.Captured b := by
  have hasked : ∀ orderId, Offers b (s.cancelled orderId ok) := fun _ => hoffers
  unfold cancelReturned
  cases htask : s.task with
  | idle =>
    dsimp only
    exact hcaptured
  | expiring began orderId refs => exact captured_expireFrom _ _
  | flattening eodNext f =>
    have hflatten := hcaptured
    rw [htask] at hflatten
    obtain ⟨hleft, hat⟩ := hflatten
    dsimp only
    cases hsuspended : f.suspended with
    | cancellingAll orderId refs =>
      exact captured_cancelThenClose (captured_afterFlatten (hasked orderId)) hleft
    | cancellingSymbol symbol p orderId refs =>
      rw [hsuspended] at hat
      exact captured_cancelThenExit hat hleft
    | placing symbol p spec => exact hcaptured

/-! ### The law along a run -/

/-- What holds between two steps. -/
structure Inv (s : FastLoop) : Prop where
  sound : s.broker.Sound
  cached : s.Cached
  captured : s.task.Captured s.broker

def NeverOverExits (s : FastLoop) : Prop := s.broker.WithinOpening

theorem Inv.neverOverExits {s : FastLoop} (h : s.Inv) : s.NeverOverExits := h.sound.withinOpening

/-- Every exit that reaches the broker fits. -/
def ExitsFit (s : FastLoop) : Event → Prop
  | .placeReturned (.ok _) _ _ => ∀ eodNext f symbol p spec, s.task = .flattening eodNext f →
      f.suspended = .placing symbol p spec → s.broker.Fits symbol p
  | _ => True

theorem inv_start (cfg : StrategyConfig) (calendar : MarketCalendar) (app : AppState) (risk : RiskEngine)
    (orders : OrderManager) (positions : Dict String Position) :
    (start cfg calendar app risk orders positions).Inv where
  sound := sound_open positions
  cached := by
    intro account hmem symbol
    obtain ⟨account', _, rfl⟩ := Option.map_eq_some_iff.mp (Option.mem_def.mp hmem)
    exact (sound_open positions).shows_portfolio 0 symbol
  captured := trivial

theorem Inv.of_segment {s s' : FastLoop} (h : s.Inv) (hsegment : Segment s s')
    (hcaptured : s'.task.Captured s.broker) : s'.Inv where
  sound := hsegment.broker ▸ h.sound
  cached := by
    unfold Cached
    rw [hsegment.broker, hsegment.account]
    exact h.cached
  captured := hsegment.broker ▸ hcaptured

theorem placeReturned_of_placing {s : FastLoop} {now : Now} {quotes : String → Option Quote}
    {reply : Except String BrokerOrderStatus} {eodNext : Bool} {f : Flatten} {symbol : String}
    {p : Position} {spec : BrokerOrderSpec} (htask : s.task = .flattening eodNext f)
    (hsuspended : f.suspended = .placing symbol p spec) :
    s.placeReturned now quotes reply =
      (s.replied now symbol spec reply).closeNext f.reason now quotes eodNext
        (afterFlatten now quotes eodNext) f.left := by
  unfold placeReturned
  rw [htask]
  dsimp only
  rw [hsuspended]

theorem placeReturned_cases (s : FastLoop) (now : Now) (quotes : String → Option Quote)
    (reply : Except String BrokerOrderStatus) : s.placeReturned now quotes reply = s ∨
      ∃ eodNext f symbol p spec, s.task = .flattening eodNext f ∧
        f.suspended = .placing symbol p spec := by
  unfold placeReturned
  cases htask : s.task with
  | idle => exact Or.inl rfl
  | expiring began orderId refs => exact Or.inl rfl
  | flattening eodNext f =>
    dsimp only
    cases hsuspended : f.suspended with
    | cancellingAll orderId refs => exact Or.inl rfl
    | cancellingSymbol symbol p orderId refs => exact Or.inl rfl
    | placing symbol p spec => exact Or.inr ⟨eodNext, f, symbol, p, spec, rfl, hsuspended⟩

theorem Inv.placing {s : FastLoop} (h : s.Inv) {eodNext : Bool} {f : Flatten} {symbol : String}
    {p : Position} {spec : BrokerOrderSpec} (htask : s.task = .flattening eodNext f)
    (hsuspended : f.suspended = .placing symbol p spec) :
    (∀ e ∈ f.left, s.broker.Captures e) ∧ s.broker.Captures (symbol, p) ∧ Closes symbol p spec := by
  have hcaptured := h.captured
  rw [htask] at hcaptured
  obtain ⟨hleft, hat⟩ := hcaptured
  rw [hsuspended] at hat
  exact ⟨hleft, hat⟩

theorem Inv.replied {s : FastLoop} (h : s.Inv) {symbol : String} {p : Position} {spec : BrokerOrderSpec}
    (hp : s.broker.Captures (symbol, p)) (hspec : Closes symbol p spec) (now : Now)
    {reply : Except String BrokerOrderStatus}
    (hfits : ∀ status, reply = .ok status → s.broker.Fits symbol p) :
    (s.replied now symbol spec reply).Inv := by
  cases reply with
  | error error => exact h
  | ok status =>
    refine ⟨h.sound.accept hspec hp.1 hp.2 (hfits status rfl), h.cached, ?_⟩
    exact h.captured.mono fun _ _ hq => hq

theorem segment_placeReturned {s : FastLoop} {now : Now} {quotes : String → Option Quote}
    {reply : Except String BrokerOrderStatus} {eodNext : Bool} {f : Flatten} {symbol : String}
    {p : Position} {spec : BrokerOrderSpec} (htask : s.task = .flattening eodNext f)
    (hsuspended : f.suspended = .placing symbol p spec) :
    Segment (s.replied now symbol spec reply) (s.placeReturned now quotes reply) := by
  rw [placeReturned_of_placing htask hsuspended]
  exact kept_segment.closeNext kept_segment.afterFlatten

theorem captured_placeReturned {s : FastLoop} {b : BrokerBook} {now : Now}
    {quotes : String → Option Quote} {reply : Except String BrokerOrderStatus} {eodNext : Bool}
    {f : Flatten} {symbol : String} {p : Position} {spec : BrokerOrderSpec}
    (htask : s.task = .flattening eodNext f) (hsuspended : f.suspended = .placing symbol p spec)
    (hoffers : Offers b (s.replied now symbol spec reply)) (hcaptured : s.task.Captured b) :
    (s.placeReturned now quotes reply).task.Captured b := by
  rw [placeReturned_of_placing htask hsuspended]
  rw [htask] at hcaptured
  exact captured_closeNext (captured_afterFlatten hoffers) hcaptured.1

theorem Inv.step {s : FastLoop} (h : s.Inv) (e : Event) (hfits : s.ExitsFit e) : (s.step e).Inv := by
  cases e with
  | ticked connected now quotes =>
    unfold FastLoop.step
    dsimp only
    split
    · exact h.of_segment kept_segment.tick (captured_tick h.cached.offers h.captured)
    · exact h
  | cancelReturned ok now quotes =>
    exact h.of_segment kept_segment.cancelReturned (captured_cancelReturned h.cached.offers h.captured)
  | placeReturned reply now quotes =>
    show (s.placeReturned now quotes reply).Inv
    rcases s.placeReturned_cases now quotes reply with hsame | ⟨eodNext, f, symbol, p, spec, htask, hat⟩
    · rw [hsame]
      exact h
    · obtain ⟨_, hp, hspec⟩ := h.placing htask hat
      have hreplied : (s.replied now symbol spec reply).Inv := by
        refine h.replied hp hspec now fun status hok => ?_
        subst hok
        exact hfits eodNext f symbol p spec htask hat
      have htask' : (s.replied now symbol spec reply).task = s.task := by cases reply <;> rfl
      have hcaptured := hreplied.captured
      rw [htask'] at hcaptured
      exact hreplied.of_segment (segment_placeReturned htask hat)
        (captured_placeReturned htask hat hreplied.cached.offers hcaptured)
  | accountSynced account lag =>
    refine ⟨h.sound, ?_, h.captured⟩
    intro account' hmem symbol
    have haccount : account' = { account with positions := s.broker.portfolio lag } := by
      simpa [FastLoop.step] using hmem.symm
    rw [haccount]
    exact h.sound.shows_portfolio lag symbol
  | status status now => exact ⟨h.sound, h.cached, h.captured⟩
  | killSwitchMoved killSwitch => exact ⟨h.sound, h.cached, h.captured⟩
  | filled i quantity =>
    exact ⟨h.sound.fill i quantity, fun account hmem symbol => h.sound.shows_fill (h.cached account hmem symbol),
      h.captured.mono fun _ _ hq => h.sound.shows_fill hq⟩
  | ended i =>
    have hviews : ∀ symbol q, s.broker.Shows symbol q → (s.broker.finish i).Shows symbol q := by
      intro symbol q hq
      rcases s.broker.finish_cases i with hsame | ⟨x, _, heq⟩
      · rw [hsame]
        exact hq
      · rw [heq]
        exact hq
    exact ⟨h.sound.finish i, fun account hmem symbol => hviews symbol _ (h.cached account hmem symbol),
      h.captured.mono hviews⟩

theorem not_neverOverExits_of_not_exitsFit {s : FastLoop} (h : s.Inv) {e : Event}
    (hbad : ¬ s.ExitsFit e) : ¬ (s.step e).NeverOverExits := by
  cases e with
  | placeReturned reply now quotes =>
    cases reply with
    | error error => exact absurd trivial hbad
    | ok status =>
      simp only [ExitsFit, not_forall] at hbad
      obtain ⟨eodNext, f, symbol, p, spec, htask, hat, hbad⟩ := hbad
      obtain ⟨_, hp, hspec⟩ := h.placing htask hat
      have hsegment : Segment (s.replied now symbol spec (.ok status))
          (s.placeReturned now quotes (.ok status)) := segment_placeReturned htask hat
      show ¬ (s.placeReturned now quotes (.ok status)).broker.WithinOpening
      rw [hsegment.broker]
      exact h.sound.over_exits hspec hp.1 hp.2 hbad
  | _ => exact absurd trivial hbad

/-- **Flattening never over-exits**, exactly in the runs in which every exit is sent on a current view. -/
theorem flatten_never_over_exits_iff (cfg : StrategyConfig) (calendar : MarketCalendar) (app : AppState)
    (risk : RiskEngine) (orders : OrderManager) (positions : Dict String Position)
    (events : List Event) :
    Trace.Always step NeverOverExits (start cfg calendar app risk orders positions) events ↔
      Trace.Each step ExitsFit (start cfg calendar app risk orders positions) events := by
  have hstep : ∀ s e, Inv s → ExitsFit s e → Inv (step s e) := fun _ e h hfits => h.step e hfits
  have hlaw : ∀ s, Inv s → NeverOverExits s := fun _ h => h.neverOverExits
  have hbad : ∀ s e, Inv s → ¬ ExitsFit s e → ¬ NeverOverExits (step s e) :=
    fun _ _ h hbad => not_neverOverExits_of_not_exitsFit h hbad
  exact Trace.always_iff_each hstep hlaw hbad (inv_start cfg calendar app risk orders positions)

/-! #### Two ticks on one account -/

def noSessions : MarketCalendar where
  sessionBounds _ := none
  etDate _ := 0
  etDate_mono := monotone_const

def longAapl : Dict String Position :=
  Dict.empty.set "AAPL" { symbol := "AAPL", quantity := 100, avgCost := 100 }

/-- Flattening is requested while 100 shares are held. -/
def flattenRequested : FastLoop :=
  let account : AccountSnapshot :=
    { accountId := "DU1", equity := 10000, cash := 0, buyingPower := 0, asOf := 0 }
  start {} noSessions { account := some account }
    { cfg := {}, killSwitch := { event := true, action := .flattenAll } } {} longAapl

def secondsIn (seconds : ℚ) : Now := .sample seconds seconds

def exitStatus (seconds : ℚ) (orderId : ℤ) (status : String) (filled : ℚ) : BrokerOrderStatus where
  orderRef := makeRef ("exit-" ++ epochSeconds (secondsIn seconds)) "AAPL" "EXIT" "2025-01-02"
  orderId
  permId := none
  status
  filled
  remaining := 100 - filled
  avgFillPrice := none

/-- The first exit fills completely; the next tick, five seconds later, still sees 100 shares. -/
def twoTicks : List Event :=
  [.ticked true (secondsIn 0) fun _ => none,
    .placeReturned (.ok (exitStatus 0 1 "Submitted" 0)) (secondsIn 0) fun _ => none,
    .filled 0 100,
    .status (exitStatus 0 1 "Filled" 100) (secondsIn 1),
    .ticked true (secondsIn 5) fun _ => none,
    .placeReturned (.ok (exitStatus 5 2 "Submitted" 0)) (secondsIn 5) fun _ => none,
    .filled 1 100]

theorem over_exit_on_stale_account :
    (Trace.run step flattenRequested twoTicks).broker.heldOf "AAPL" = -100 ∧
      ¬ Trace.Always step NeverOverExits flattenRequested twoTicks := by
  have hheld : (Trace.run step flattenRequested twoTicks).broker.heldOf "AAPL" = -100 := by
    decide +kernel
  refine ⟨hheld, fun h => ?_⟩
  have hlong : 0 ≤ (Trace.run step flattenRequested twoTicks).broker.openingOf "AAPL" := by
    decide +kernel
  have hside := (h.last "AAPL").2.1 hlong
  rw [hheld] at hside
  exact absurd hside (by decide +kernel)

end FastLoop

end AiTrader
