import AiTrader.Broker.Orders
import AiTrader.Data.RateLimit
import Mathlib.Data.Finset.Insert

/-!
# Streaming subscriptions, their quotes and the lines they hold

A `Ticker` is what the broker's library holds for a subscribed symbol; `getQuote` makes a quote of it.

Three records of the same fact: the lines reserved in the budget, the set `subscribed`, and what the broker
streams. `subscribe` reserves, asks the broker for quotes and then for bars, and takes the reservation back
when either is refused; `unsubscribe` gives the lines back whatever the broker says; `resubscribe` clears the
set and leaves the lines.

The three agree as long as no symbol is left half way at the broker and `resubscribe` is asked for every
symbol that was subscribed (`line_accounting`).
-/

namespace AiTrader

open Lib

/-! ### Quotes -/

/-- The fields of a ticker that the adapter reads; a number that is not there is missing, as is NaN. `halted` is
NaN until the broker has sent a tick for it, and 0 when the contract is not halted. -/
structure Ticker where
  time : Option ℚ := none
  bid : Option ℚ := none
  ask : Option ℚ := none
  last : Option ℚ := none
  close : Option ℚ := none
  halted : Option ℚ := none
  deriving DecidableEq

/-- `_f`: the broker sends `-1` for no value. -/
def known (value : Option ℚ) : Option ℚ := value.filter fun v => 0 ≤ v

/-- `bool(halted)`: NaN is true. -/
def Ticker.isHalted (t : Ticker) : Bool := decide (t.halted ≠ some 0)

/-- The quote of a ticker, at the moment it is asked for. -/
def Ticker.quote (t : Ticker) (symbol : String) (utcnow : ℚ) : Quote where
  symbol
  bid := known t.bid
  ask := known t.ask
  last := (truthy (known t.last)).orElse fun _ => known t.close
  halted := t.isHalted
  updatedAt := t.time.getD utcnow

/-- `IbAsyncBroker.get_quote`, for the ticker on record, if any. -/
def getQuote (ticker : Option Ticker) (symbol : String) (utcnow : ℚ) : Option Quote :=
  ticker.map fun t => t.quote symbol utcnow

/-! ### Subscriptions -/

structure MarketDataService where
  lines : MarketDataLineBudget
  subscribed : Finset String := ∅
  deriving DecidableEq

/-- Whether the broker accepts the call about a symbol's quotes, and the one about its bars. -/
structure FeedReplies where
  quotes : Bool
  bars : Bool
  deriving DecidableEq

/-- The service, and the symbols for which the broker holds a quote or a bar subscription. -/
structure Feeds where
  service : MarketDataService
  quotes : Finset String := ∅
  bars : Finset String := ∅
  deriving DecidableEq

namespace Feeds

/-- The symbol is not subscribed and finds its lines, so the broker is asked. -/
def Asked (s : Feeds) (symbol : String) : Prop :=
  symbol ∉ s.service.subscribed ∧ (s.service.lines.reserve symbol 2).1 = true

instance (s : Feeds) (symbol : String) : Decidable (s.Asked symbol) :=
  inferInstanceAs (Decidable (_ ∧ _))

/-- One symbol of `subscribe`, with the symbols added so far. -/
def subscribeOne : Feeds × List String → String × FeedReplies → Feeds × List String
  | (s, added), (symbol, replies) =>
    if symbol ∈ s.service.subscribed then (s, added)
    else
      match s.service.lines.reserve symbol 2 with
      | (false, _) => (s, added)
      | (true, lines) =>
        if replies.quotes then
          if replies.bars then
            ({ service := { lines, subscribed := insert symbol s.service.subscribed }
               quotes := insert symbol s.quotes
               bars := insert symbol s.bars }, added ++ [symbol])
          else
            ({ s with
               service := { s.service with lines := lines.release symbol }
               quotes := insert symbol s.quotes }, added)
        else ({ s with service := { s.service with lines := lines.release symbol } }, added)

def subscribe (s : Feeds) (symbols : List (String × FeedReplies)) : Feeds × List String :=
  symbols.foldl subscribeOne (s, [])

/-- The broker has dropped what it held, and the set of subscriptions is cleared. -/
def dropped (s : Feeds) : Feeds := { service := { s.service with subscribed := ∅ } }

/-- `resubscribe`, after a reconnect. -/
def resubscribe (s : Feeds) (symbols : List (String × FeedReplies)) : Feeds × List String :=
  s.dropped.subscribe symbols

/-- One symbol of `unsubscribe`. The bars are cancelled only if the quotes were. -/
def unsubscribeOne (s : Feeds) : String × FeedReplies → Feeds
  | (symbol, replies) =>
    if symbol ∈ s.service.subscribed then
      { service :=
          { lines := s.service.lines.release symbol, subscribed := s.service.subscribed.erase symbol }
        quotes := if replies.quotes then s.quotes.erase symbol else s.quotes
        bars := if replies.quotes && replies.bars then s.bars.erase symbol else s.bars }
    else s

def unsubscribe (s : Feeds) (symbols : List (String × FeedReplies)) : Feeds := symbols.foldl unsubscribeOne s

inductive Call
  | subscribe (symbols : List (String × FeedReplies))
  | unsubscribe (symbols : List (String × FeedReplies))
  | resubscribe (symbols : List (String × FeedReplies))

def step (s : Feeds) : Call → Feeds
  | .subscribe symbols => (s.subscribe symbols).1
  | .unsubscribe symbols => s.unsubscribe symbols
  | .resubscribe symbols => (s.resubscribe symbols).1

/-- The three records agree, within the capacity. -/
structure Accounted (s : Feeds) : Prop where
  reserved : ∀ symbol, symbol ∈ s.service.lines.reserved.keys ↔ symbol ∈ s.service.subscribed
  quotes : s.quotes ⊆ s.service.subscribed
  bars : s.bars ⊆ s.service.subscribed
  used : (s.service.lines.used : ℤ) ≤ s.service.lines.capacity

/-! ## Calls that leave nothing half way -/

/-- A symbol that the broker is asked to stream is refused its quotes, or granted both. -/
def SubscribesWhole (s : Feeds × List String) (ask : String × FeedReplies) : Prop :=
  s.1.Asked ask.1 → ask.2.quotes = true → ask.2.bars = true

/-- A symbol that the broker is asked to drop is dropped. -/
def UnsubscribesWhole (s : Feeds) (ask : String × FeedReplies) : Prop :=
  ask.1 ∈ s.service.subscribed → ask.2.quotes = true ∧ ask.2.bars = true

instance (s : Feeds × List String) (ask : String × FeedReplies) : Decidable (SubscribesWhole s ask) :=
  inferInstanceAs (Decidable (_ → _ → _))

instance (s : Feeds) (ask : String × FeedReplies) : Decidable (s.UnsubscribesWhole ask) :=
  inferInstanceAs (Decidable (_ → _ ∧ _))

/-- Nothing is left half way at the broker, and after a reconnect every subscription is asked for again. -/
def Whole (s : Feeds) : Call → Prop
  | .subscribe symbols => Trace.Each subscribeOne SubscribesWhole (s, []) symbols
  | .unsubscribe symbols => Trace.Each unsubscribeOne UnsubscribesWhole s symbols
  | .resubscribe symbols =>
    (∀ symbol ∈ s.service.subscribed, symbol ∈ symbols.map Prod.fst) ∧
      Trace.Each subscribeOne SubscribesWhole (s.dropped, []) symbols

instance (s : Feeds) : ∀ call, Decidable (s.Whole call)
  | .subscribe symbols => inferInstanceAs (Decidable (Trace.Each subscribeOne SubscribesWhole (s, []) symbols))
  | .unsubscribe symbols => inferInstanceAs (Decidable (Trace.Each unsubscribeOne UnsubscribesWhole s symbols))
  | .resubscribe symbols =>
    inferInstanceAs (Decidable ((∀ symbol ∈ s.service.subscribed, symbol ∈ symbols.map Prod.fst) ∧
      Trace.Each subscribeOne SubscribesWhole (s.dropped, []) symbols))

/-- Between the clearing and the last symbol of a `resubscribe`, `stale` symbols hold lines without being
subscribed. -/
structure Holding (stale : Finset String) (s : Feeds) : Prop where
  reserved : ∀ symbol,
    symbol ∈ s.service.lines.reserved.keys ↔ symbol ∈ s.service.subscribed ∨ symbol ∈ stale
  quotes : s.quotes ⊆ s.service.subscribed
  bars : s.bars ⊆ s.service.subscribed
  used : (s.service.lines.used : ℤ) ≤ s.service.lines.capacity

theorem holding_empty_iff {s : Feeds} : Holding ∅ s ↔ Accounted s :=
  ⟨fun h => ⟨fun symbol => by simpa using h.reserved symbol, h.quotes, h.bars, h.used⟩,
    fun h => ⟨fun symbol => by simpa using h.reserved symbol, h.quotes, h.bars, h.used⟩⟩

theorem Holding.subscribeOne {stale : Finset String} {s : Feeds} (h : Holding stale s) (added : List String)
    {ask : String × FeedReplies} (hwhole : SubscribesWhole (s, added) ask) :
    Holding (stale.erase ask.1) (subscribeOne (s, added) ask).1 := by
  obtain ⟨symbol, replies⟩ := ask
  unfold Feeds.subscribeOne
  dsimp only
  by_cases hin : symbol ∈ s.service.subscribed
  · -- already streaming
    rw [if_pos hin]
    refine ⟨fun other => ?_, h.quotes, h.bars, h.used⟩
    rw [h.reserved, Finset.mem_erase]
    by_cases hother : other = symbol
    · simp [hother, hin]
    · simp [hother]
  rw [if_neg hin]
  cases hreserve : s.service.lines.reserve symbol 2 with
  | mk ok lines =>
    cases ok with
    | false =>
      have hfree := MarketDataLineBudget.not_mem_of_reserve_false (congrArg Prod.fst hreserve)
      have hstale : symbol ∉ stale := fun hmem => hfree ((h.reserved symbol).mpr (Or.inr hmem))
      rw [Finset.erase_eq_of_notMem hstale]
      exact h
    | true =>
      obtain ⟨hcapacity, hused, hkeys⟩ := MarketDataLineBudget.reserve_spec hreserve h.used
      have hasked : s.Asked symbol := ⟨hin, congrArg Prod.fst hreserve⟩
      dsimp only
      by_cases hquotes : replies.quotes = true
      · have hbars : replies.bars = true := hwhole hasked hquotes
        rw [if_pos hquotes, if_pos hbars]
        refine ⟨fun other => ?_, ?_, ?_, hcapacity ▸ hused⟩
        · rw [hkeys, h.reserved, Finset.mem_insert, Finset.mem_erase]
          by_cases hother : other = symbol <;> simp [hother]
        · exact Finset.insert_subset_insert _ h.quotes
        · exact Finset.insert_subset_insert _ h.bars
      · -- the broker refuses the quotes, and the lines go back
        rw [if_neg hquotes]
        have hle := MarketDataLineBudget.used_release_le lines symbol
        refine ⟨fun other => ?_, h.quotes, h.bars, ?_⟩
        · rw [MarketDataLineBudget.mem_keys_release, hkeys, h.reserved, Finset.mem_erase]
          by_cases hother : other = symbol
          · simp [hother, hin]
          · simp [hother]
        · show ((lines.release symbol).used : ℤ) ≤ lines.capacity
          omega

theorem Holding.subscribe {stale : Finset String} {s : Feeds} (h : Holding stale s) {added : List String}
    {symbols : List (String × FeedReplies)}
    (hwhole : Trace.Each Feeds.subscribeOne SubscribesWhole (s, added) symbols) :
    Holding (stale \ (symbols.map Prod.fst).toFinset) (symbols.foldl Feeds.subscribeOne (s, added)).1 := by
  induction symbols generalizing stale s added with
  | nil => simpa using h
  | cons ask symbols ih =>
    have hone := h.subscribeOne added hwhole.1
    have hrest := @ih _ (Feeds.subscribeOne (s, added) ask).1 hone (Feeds.subscribeOne (s, added) ask).2 hwhole.2
    have hstale : stale \ ((ask :: symbols).map Prod.fst).toFinset =
        stale.erase ask.1 \ (symbols.map Prod.fst).toFinset := by
      ext symbol
      simp only [List.map_cons, List.toFinset_cons, Finset.mem_sdiff, Finset.mem_insert, Finset.mem_erase]
      tauto
    rw [hstale]
    exact hrest

theorem Accounted.unsubscribeOne {s : Feeds} (h : s.Accounted) {ask : String × FeedReplies}
    (hwhole : s.UnsubscribesWhole ask) : (s.unsubscribeOne ask).Accounted := by
  obtain ⟨symbol, replies⟩ := ask
  unfold Feeds.unsubscribeOne
  dsimp only
  by_cases hin : symbol ∈ s.service.subscribed
  swap
  · rw [if_neg hin]
    exact h
  obtain ⟨hquotes, hbars⟩ : replies.quotes = true ∧ replies.bars = true := hwhole hin
  rw [if_pos hin, hquotes, hbars]
  have hle := MarketDataLineBudget.used_release_le s.service.lines symbol
  have hused := h.used
  refine ⟨fun other => ?_, Finset.erase_subset_erase _ h.quotes, Finset.erase_subset_erase _ h.bars, ?_⟩
  · rw [MarketDataLineBudget.mem_keys_release, h.reserved, Finset.mem_erase]
  · show ((s.service.lines.release symbol).used : ℤ) ≤ s.service.lines.capacity
    omega

theorem Accounted.unsubscribe {s : Feeds} (h : s.Accounted) {symbols : List (String × FeedReplies)}
    (hwhole : Trace.Each Feeds.unsubscribeOne UnsubscribesWhole s symbols) : (s.unsubscribe symbols).Accounted := by
  induction symbols generalizing s with
  | nil => exact h
  | cons ask symbols ih => exact ih (h.unsubscribeOne hwhole.1) hwhole.2

theorem Accounted.step {s : Feeds} (h : s.Accounted) (call : Call) (hwhole : s.Whole call) :
    (s.step call).Accounted := by
  cases call with
  | subscribe symbols =>
    have hholding := (holding_empty_iff.mpr h).subscribe hwhole
    rw [Finset.empty_sdiff] at hholding
    exact holding_empty_iff.mp hholding
  | unsubscribe symbols => exact h.unsubscribe hwhole
  | resubscribe symbols =>
    -- the lines of the last session are stale until their symbols are subscribed again
    have hstale : Holding s.service.subscribed s.dropped :=
      ⟨fun symbol => by simpa [dropped] using h.reserved symbol, Finset.Subset.refl _, Finset.Subset.refl _,
        h.used⟩
    have hholding := hstale.subscribe hwhole.2
    have hnone : s.service.subscribed \ (symbols.map Prod.fst).toFinset = ∅ := by
      apply Finset.sdiff_eq_empty_iff_subset.mpr
      exact fun symbol hmem => List.mem_toFinset.mpr (hwhole.1 symbol hmem)
    rw [hnone] at hholding
    exact holding_empty_iff.mp hholding

/-- A service that has subscribed to nothing. -/
def fresh (capacity : ℤ) : Feeds := { service := { lines := { capacity } } }

/-- **When the lines on record are the lines in use.** Over every sequence of calls, with every pattern of
refusals, that leave no symbol half way at the broker and ask for every subscription again after a
reconnect: the symbols with lines are the subscribed ones, the broker streams nothing else, and the lines are
within the capacity. -/
theorem line_accounting {capacity : ℤ} (hcapacity : 0 ≤ capacity) (calls : List Call)
    (hwhole : Trace.Each step Whole (fresh capacity) calls) :
    Trace.Always step Accounted (fresh capacity) calls := by
  have hstart : (fresh capacity).Accounted :=
    ⟨fun symbol => by simp [fresh, Dict.keys], Finset.Subset.refl _, Finset.Subset.refl _, hcapacity⟩
  have hstep : ∀ (s : Feeds) call, s.Accounted → s.Whole call → (s.step call).Accounted :=
    fun s call h hcall => h.step call hcall
  exact Trace.always_of_inductive hstep (fun s h => h) hstart hwhole

/-! #### A reconnect -/

def both : FeedReplies := { quotes := true, bars := true }

/-- Two symbols; one leaves, and after a reconnect the other is asked for again. -/
def aSession : List Call :=
  [.subscribe [("AAPL", both), ("MSFT", both)], .unsubscribe [("AAPL", both)],
    .resubscribe [("MSFT", both), ("NVDA", { quotes := false, bars := false })]]

theorem line_accounting_session : Trace.Always step Accounted (fresh 90) aSession :=
  line_accounting (by decide) aSession (by decide +kernel)

/-- The broker takes the quotes and refuses the bars. -/
theorem line_accounting_half :
    ¬ ∀ (capacity : ℤ) (calls : List Call), 1 ≤ capacity →
      Trace.Always step Accounted (fresh capacity) calls := by
  intro h
  have hlast := (h 90 [.subscribe [("AAPL", { quotes := true, bars := false })]] (by decide)).last
  have hstreams : "AAPL" ∈ (Trace.run step (fresh 90)
      [.subscribe [("AAPL", { quotes := true, bars := false })]]).quotes := by decide +kernel
  exact absurd (hlast.quotes hstreams) (by decide +kernel)

end Feeds

end AiTrader
