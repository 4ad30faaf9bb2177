import Mathlib.Data.Rat.Defs
import Mathlib.Algebra.Order.Ring.Rat
import Mathlib.Algebra.Order.Field.Rat
import Mathlib.Algebra.BigOperators.Group.List.Basic
import Mathlib.Data.List.ReduceOption

/-!
# Technical indicators

A series is a list of numbers. An indicator gives one value for each of them, `none` inside its warm-up
window, where the source has NaN. The standard deviation, a square root, is a parameter of the Bollinger
bands.

Each indicator is written as the source computes it, over whole lists, with the warm-up as leading gaps. What the
other modules use of them is where a value is defined and what it is made of; the recursive averages have a module of
their own (`Smoothing`).
-/

namespace AiTrader.Indicators

/-- A value for every number, none of them defined. -/
def undefined (x : List ℚ) : List (Option ℚ) := x.map fun _ => none

def mean (x : List ℚ) : ℚ := x.sum / x.length

/-- The sums of the first numbers, from none of them to all. -/
def cumulative (x : List ℚ) : List ℚ := x.scanl (· + ·) 0

/-- Simple moving average. -/
def sma (x : List ℚ) (period : ℕ) : List (Option ℚ) :=
  if period = 0 ∨ x.length < period then undefined x
  else
    List.replicate (period - 1) none ++
      List.zipWith (fun late early : ℚ => some ((late - early) / period)) ((cumulative x).drop period)
        ((cumulative x).take (x.length + 1 - period))

/-- A recursive average: seeded with the mean of the first `period` numbers, then `next` of the last value and
the next number. -/
def smoothed (next : ℚ → ℚ → ℚ) (x : List ℚ) (period : ℕ) : List (Option ℚ) :=
  if period = 0 ∨ x.length < period then undefined x
  else List.replicate (period - 1) none ++ ((x.drop period).scanl next (mean (x.take period))).map some

/-- Exponential moving average. -/
def ema (x : List ℚ) (period : ℕ) : List (Option ℚ) :=
  smoothed (fun last v => 2 / (period + 1) * v + (1 - 2 / (period + 1)) * last) x period

/-- Wilder's smoothing. -/
def wilderSmooth (x : List ℚ) (period : ℕ) : List (Option ℚ) :=
  smoothed (fun last v => (last * (period - 1) + v) / period) x period

/-- `np.diff`. -/
def diff (x : List ℚ) : List ℚ := List.zipWith (fun later earlier => later - earlier) x.tail x

/-- RSI of an average gain and an average loss. -/
def rsiValue (avgGain avgLoss : ℚ) : ℚ :=
  if avgLoss = 0 ∧ avgGain = 0 then 50
  else if avgLoss = 0 ∧ 0 < avgGain then 100
  else 100 - 100 / (1 + avgGain / avgLoss)

/-- Relative Strength Index. -/
def rsi (closes : List ℚ) (period : ℕ) : List (Option ℚ) :=
  if closes.length < period + 1 then undefined closes
  else
    let delta := diff closes
    let avgGain := wilderSmooth (delta.map fun d => if 0 < d then d else 0) period
    let avgLoss := wilderSmooth (delta.map fun d => if d < 0 then -d else 0) period
    none :: List.zipWith (fun gain loss => do return rsiValue (← gain) (← loss)) avgGain avgLoss

/-- The largest of the bar's range and its distances from the close before it. -/
def rangeAfter (prev high low : ℚ) : ℚ := max (max (high - low) |high - prev|) |low - prev|

def trueRange : List ℚ → List ℚ → List ℚ → List ℚ
  | h :: highs, l :: lows, closes =>
    (h - l) :: List.zipWith (fun prev bar => rangeAfter prev bar.1 bar.2) closes (highs.zip lows)
  | _, _, _ => []

/-- Average True Range. -/
def atr (highs lows closes : List ℚ) (period : ℕ) : List (Option ℚ) :=
  wilderSmooth (trueRange highs lows closes) period

/-- The difference of two series, where both are defined. -/
def minus (x y : List (Option ℚ)) : List (Option ℚ) :=
  List.zipWith (fun a b => do return (← a) - (← b)) x y

/-- Line, signal and histogram. The signal starts at the first defined value of the line. -/
def macd (closes : List ℚ) (fast slow signal : ℕ) :
    List (Option ℚ) × List (Option ℚ) × List (Option ℚ) :=
  let line := minus (ema closes fast) (ema closes slow)
  let sig := (line.takeWhile Option.isNone) ++ ema (line.dropWhile Option.isNone).reduceOption signal
  (line, sig, minus line sig)

/-- Upper band, middle and lower band. -/
def bollinger (std : List ℚ → ℚ) (closes : List ℚ) (period : ℕ) (numStd : ℚ) :
    List (Option ℚ) × List (Option ℚ) × List (Option ℚ) :=
  let mid := sma closes period
  let deviation := List.replicate (period - 1) none ++
    (List.range (closes.length + 1 - period)).map fun k => some (std ((closes.drop k).take period))
  (List.zipWith (fun m d => do return (← m) + numStd * (← d)) mid deviation, mid,
    List.zipWith (fun m d => do return (← m) - numStd * (← d)) mid deviation)

/-- VWAP of the typical price, from the first bar on. -/
def vwap (highs lows closes volumes : List ℚ) : List (Option ℚ) :=
  let typical := List.zipWith (fun sum close => (sum + close) / 3) (List.zipWith (· + ·) highs lows) closes
  let vol := volumes.map fun v => if 0 < v then v else 0
  List.zipWith (fun pv v => if 0 < v then some (pv / v) else none)
    (cumulative (List.zipWith (· * ·) typical vol)).tail (cumulative vol).tail

/-- The last volume against the average of the ones before it; `1` without enough history. -/
def relativeVolume (volumes : List ℚ) (lookback : ℕ) : ℚ :=
  match volumes.getLast? with
  | none => 1
  | some current =>
    let prior := ((volumes.dropLast).drop (volumes.length - 1 - lookback)).filter fun v => 0 < v
    if volumes.length < 2 ∨ prior = [] then 1
    else if 0 < mean prior then current / mean prior else 1

/-- High and low of the first bars. -/
def openingRange (highs lows : List ℚ) (barsInRange : ℕ) : Option (ℚ × ℚ) :=
  if highs.length < barsInRange ∨ barsInRange = 0 then none
  else do return (← (highs.take barsInRange).max?, ← (lows.take barsInRange).min?)

/-- Where the price sits in the opening range. -/
def openingRangePosition (price : ℚ) (range : Option (ℚ × ℚ)) : Option ℚ :=
  match range with
  | some (high, low) => if high - low ≤ 0 then none else some ((price - low) / (high - low))
  | none => none

/-- The most recent defined value. -/
def lastValid (x : List (Option ℚ)) (default : ℚ) : ℚ := x.reduceOption.getLast?.getD default

example : sma [1, 2, 3, 4, 5] 3 = [none, none, some 2, some 3, some 4] := by decide +kernel

example : lastValid (vwap [10, 12] [8, 10] [9, 11] [0, 100]) 0 = 11 := by decide +kernel

end AiTrader.Indicators
