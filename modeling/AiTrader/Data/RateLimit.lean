import AiTrader.Lib.Dict
import AiTrader.Lib.Turnstile
import Mathlib.Algebra.Order.BigOperators.Group.List
import Mathlib.Algebra.Order.Ring.Rat
import Mathlib.Algebra.Order.Field.Rat

/-!
# The limiters in front of the broker's connection

`TokenBucket` paces the messages, `HistoricalDataPacer` the requests for historical data, and
`MarketDataLineBudget` counts the market-data lines. The first two are limiters of a `Lib.Turnstile`: an
`acquire` holds one `asyncio.Lock` until it is granted, across its sleeps. Times are readings of
`time.monotonic()`.

A reservation for a symbol that holds lines replaces what it holds. `reserve_spec` says what a successful one leaves:
the symbol holds what was asked for, the others what they had, and the budget is not exceeded; a refused one changes
nothing.
-/

namespace AiTrader

open Lib

/-! ## The token bucket -/

structure TokenBucket where
  rate : ℚ
  capacity : ℚ
  tokens : ℚ
  last : ℚ
  deriving DecidableEq

namespace TokenBucket

/-- `__init__`. -/
def new (rate : ℚ) (capacity : Option ℚ) (now : ℚ) : TokenBucket where
  rate := max rate (1 / 1000)
  capacity := capacity.getD (max rate (1 / 1000))
  tokens := capacity.getD (max rate (1 / 1000))
  last := now

/-- `_refill_locked`. -/
def refill (b : TokenBucket) (now : ℚ) : TokenBucket :=
  if 0 < now - b.last then
    { b with tokens := min b.capacity (b.tokens + (now - b.last) * b.rate), last := now }
  else b

/-- What a request for `n` messages takes out of the bucket: a larger one than the bucket drains it. -/
def need (b : TokenBucket) (n : ℕ) : ℚ := min n b.capacity

/-- One round of the loop in `acquire`. A grant is recorded with its time and its messages. -/
def attempt (b : TokenBucket) (n : ℕ) (now : ℚ) : TokenBucket × Verdict (ℚ × ℕ) :=
  let b := b.refill now
  if b.need n ≤ b.tokens then ({ b with tokens := b.tokens - b.need n }, .granted (now, n))
  else (b, .asleep)

end TokenBucket

/-- The bucket is touched under its lock only. -/
def messageLimiter : Limiter TokenBucket ℕ Empty (ℚ × ℕ) ℚ where
  attempt := TokenBucket.attempt
  aside b _ _ := b

/-! ## The pacer for historical data -/

structure HistoricalDataPacer where
  capacity : ℤ
  window : ℚ := 600
  minSpacing : ℚ := 1
  timestamps : List ℚ := []
  lastRequest : Option ℚ := none
  penalty : ℚ := 1
  deriving DecidableEq

/-- A granted request: its time, and the spacing in force. -/
structure HistoricalGrant where
  time : ℚ
  spacing : ℚ
  deriving DecidableEq

/-- What touches the pacer without its lock. -/
inductive PacerEvent
  | violated
  | estimated (n : ℤ)
  | utilised
  | spaced (minSpacing : ℚ)

namespace HistoricalDataPacer

def spacing (p : HistoricalDataPacer) : ℚ := p.minSpacing * p.penalty

/-- `_prune`. -/
def prune (p : HistoricalDataPacer) (now : ℚ) : HistoricalDataPacer :=
  { p with timestamps := p.timestamps.dropWhile fun t => t ≤ now - p.window }

/-- `_wait_locked` after the pruning. The oldest request of an empty window cannot be read. -/
def waitLocked (p : HistoricalDataPacer) (now : ℚ) : Except String ℚ :=
  let spaced := match p.lastRequest with
    | some last => max 0 (p.spacing - (now - last))
    | none => 0
  if p.capacity ≤ p.timestamps.length then
    match p.timestamps with
    | oldest :: _ => .ok (max (max spaced (oldest + p.window - now)) 0)
    | [] => .error "IndexError"
  else .ok (max spaced 0)

/-- One round of the loop in `acquire`. -/
def attempt (p : HistoricalDataPacer) (now : ℚ) : HistoricalDataPacer × Verdict HistoricalGrant :=
  let p := p.prune now
  match p.waitLocked now with
  | .ok wait =>
    if wait ≤ 0 then
      ({ p with timestamps := p.timestamps ++ [now], lastRequest := some now },
        .granted { time := now, spacing := p.spacing })
    else (p, .asleep)
  | .error _ => (p, .raised)

/-- `estimated_wait`: the estimate and the pacer it leaves. -/
def estimatedWait (p : HistoricalDataPacer) (n : ℤ) (now : ℚ) : ℚ × HistoricalDataPacer :=
  let p := p.prune now
  let remaining := max (p.capacity - p.timestamps.length) 0
  if n ≤ remaining then (max (n - 1) 0 * p.spacing, p)
  else
    (max (remaining - 1) 0 * p.spacing +
      (n - remaining) * max (p.window / max p.capacity 1) p.spacing, p)

/-- `utilization`: the fraction in use and the pacer it leaves. -/
def utilization (p : HistoricalDataPacer) (now : ℚ) : ℚ × HistoricalDataPacer :=
  let p := p.prune now
  if p.capacity ≤ 0 then (0, p) else (min 1 (p.timestamps.length / p.capacity), p)

/-- `register_violation`. -/
def registerViolation (p : HistoricalDataPacer) : HistoricalDataPacer :=
  { p with penalty := min (p.penalty * 2) 8 }

def touch (p : HistoricalDataPacer) (event : PacerEvent) (now : ℚ) : HistoricalDataPacer :=
  match event with
  | .violated => p.registerViolation
  | .estimated n => (p.estimatedWait n now).2
  | .utilised => (p.utilization now).2
  | .spaced minSpacing => { p with minSpacing }

end HistoricalDataPacer

/-- The pacer: a request carries nothing that its turn depends on. -/
def historicalLimiter : Limiter HistoricalDataPacer Unit PacerEvent HistoricalGrant ℚ where
  attempt p _ now := p.attempt now
  aside := HistoricalDataPacer.touch

/-! ## The budget of market-data lines -/

structure MarketDataLineBudget where
  capacity : ℤ
  reserved : Dict String ℕ := Dict.empty
  deriving DecidableEq

namespace MarketDataLineBudget

def used (b : MarketDataLineBudget) : ℕ := (b.reserved.entries.map fun entry => entry.2).sum

/-- `reserve`: a symbol that holds lines keeps those it has. -/
def reserve (b : MarketDataLineBudget) (symbol : String) (n : ℕ) : Bool × MarketDataLineBudget :=
  if symbol ∈ b.reserved.keys then (true, b)
  else if b.capacity < (b.used + n : ℕ) then (false, b)
  else (true, { b with reserved := b.reserved.set symbol n })

def release (b : MarketDataLineBudget) (symbol : String) : MarketDataLineBudget :=
  { b with reserved := b.reserved.erase symbol }

theorem mem_keys_release {b : MarketDataLineBudget} {symbol other : String} :
    other ∈ (b.release symbol).reserved.keys ↔ other ≠ symbol ∧ other ∈ b.reserved.keys := by
  simp [release, Dict.erase, Dict.mem_keys, and_comm]

theorem used_release_le (b : MarketDataLineBudget) (symbol : String) : (b.release symbol).used ≤ b.used :=
  ((List.filter_sublist).map _).sum_le_sum fun _ _ => Nat.zero_le _

/-- What a successful reservation leaves: the symbol holds lines, the others those they had, and the budget
is not exceeded. -/
theorem reserve_spec {b lines : MarketDataLineBudget} {symbol : String} {n : ℕ}
    (h : b.reserve symbol n = (true, lines)) (hused : (b.used : ℤ) ≤ b.capacity) :
    lines.capacity = b.capacity ∧ (lines.used : ℤ) ≤ b.capacity ∧
      ∀ other, other ∈ lines.reserved.keys ↔ other = symbol ∨ other ∈ b.reserved.keys := by
  unfold reserve at h
  split_ifs at h with hheld hfull
  · obtain rfl := congrArg Prod.snd h
    refine ⟨rfl, hused, fun other => ⟨Or.inr, ?_⟩⟩
    rintro (rfl | hother)
    · exact hheld
    · exact hother
  · cases congrArg Prod.fst h
  · obtain rfl := congrArg Prod.snd h
    refine ⟨rfl, ?_, fun other => Dict.mem_keys_set⟩
    have hentries : (b.reserved.set symbol n).entries = b.reserved.entries ++ [(symbol, n)] := if_neg hheld
    have hsum : used { b with reserved := b.reserved.set symbol n } = b.used + n := by
      simp [used, hentries]
    show (used { b with reserved := b.reserved.set symbol n } : ℤ) ≤ b.capacity
    rw [hsum]
    exact not_lt.mp hfull

theorem not_mem_of_reserve_false {b : MarketDataLineBudget} {symbol : String} {n : ℕ}
    (h : (b.reserve symbol n).1 = false) : symbol ∉ b.reserved.keys := by
  intro hheld
  unfold reserve at h
  rw [if_pos hheld] at h
  cases h

end MarketDataLineBudget

end AiTrader
