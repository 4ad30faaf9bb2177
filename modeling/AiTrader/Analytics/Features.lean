import AiTrader.Analytics.Indicators
import AiTrader.Domain.Models
import AiTrader.Engine.Calendar
import Mathlib.Tactic.Linarith
import Mathlib.Tactic.GCongr
import Mathlib.Tactic.NormNum
import Mathlib.Data.Rat.Floor

/-!
# Features and the session

`buildFeaturePack` turns the bars of a symbol into its feature pack. It takes the history as it is: the VWAP,
the opening range, the day's extremes and the day's open are those of the whole list, whose bars span
several days in the service that calls it. So they are those of the latest session only when there is
nothing in front of it (`session_features_iff`).

In one direction nothing stands in front of the session, and the two packs are made of the same list. In the other,
one earlier bar is enough to tell them apart: its high may be anything, and no bar is above the day's high
(`high_le_dayHigh`), so two histories of the same session, one with a bar above the other's top, show two different
days (`not_seesSessionOnly`). Histories of any length are provided by flat bars of an earlier day
(`history_flatBars`).
-/

namespace AiTrader

open Lib Indicators

def emaFastPeriod : ℕ := 9
def emaSlowPeriod : ℕ := 21
def rsiPeriod : ℕ := 14
def atrPeriod : ℕ := 14

/-- The price of a pack: the mid of a usable quote, else the last close. -/
def packPrice (intraday : List Bar) (quote : Option Quote) : ℚ :=
  let lastClose := (intraday.map fun b => b.close).getLast?.getD 0
  match quote with
  | some q =>
    match q.mid with
    | some mid => if q.isUsable = true ∧ mid ≠ 0 then mid else lastClose
    | none => lastClose
  | none => lastClose

/-- The previous close and the average volume: from the daily bars, else the first close and none. -/
def dailyView (intraday daily : List Bar) : ℚ × ℚ :=
  match daily.getLast? with
  | some last =>
    if 2 ≤ daily.length then
      (last.close, mean ((daily.map fun b => b.volume).filter fun v => 0 < v))
    else ((intraday.map fun b => b.close).headD 0, 0)
  | none => ((intraday.map fun b => b.close).headD 0, 0)

def percentOver (value base : ℚ) : ℚ := if 0 < base then (value - base) / base * 100 else 0

/-- The range of the bars, or a fraction of the price where they have none. -/
def packAtr (intraday : List Bar) (price : ℚ) : ℚ :=
  let value := lastValid (atr (intraday.map fun b => b.high) (intraday.map fun b => b.low)
    (intraday.map fun b => b.close) atrPeriod) 0
  if value ≤ 0 then max (price * (5 / 1000)) (1 / 100) else value

/-- `build_feature_pack`, past its two early returns. -/
def featurePack (std : List ℚ → ℚ) (symbol : String) (intraday daily : List Bar) (quote : Option Quote)
    (openingRangeBars : ℕ) : FeaturePack :=
  let closes := intraday.map fun b => b.close
  let highs := intraday.map fun b => b.high
  let lows := intraday.map fun b => b.low
  let volumes := intraday.map fun b => b.volume
  let price := packPrice intraday quote
  let atrVal := packAtr intraday price
  let vwapVal := lastValid (vwap highs lows closes volumes) price
  let emaF := lastValid (ema closes emaFastPeriod) price
  let emaS := lastValid (ema closes emaSlowPeriod) price
  let lines := macd closes 12 26 9
  let bands := bollinger std closes 20 2
  let prevClose := (dailyView intraday daily).1
  { symbol
    price
    changePct := percentOver price prevClose
    gapPct := percentOver ((intraday.map fun b => b.openPrice).headD 0) prevClose
    rvol := relativeVolume volumes 20
    atr := atrVal
    atrPct := atrVal / price * 100
    vwap := some vwapVal
    vwapDistanceAtr := if 0 < atrVal then (price - vwapVal) / atrVal else 0
    rsi := lastValid (rsi closes rsiPeriod) 50
    emaFast := some emaF
    emaSlow := some emaS
    emaTrend := if emaS < emaF then 1 else if emaF < emaS then -1 else 0
    macd := lastValid lines.1 0
    macdSignal := lastValid lines.2.1 0
    bbUpper := some (lastValid bands.1 price)
    bbLower := some (lastValid bands.2.2 price)
    openingRangePosition := openingRangePosition price (openingRange highs lows openingRangeBars)
    dayHigh := highs.max?
    dayLow := lows.min?
    avgVolume := (dailyView intraday daily).2
    spreadPct := quote.bind Quote.spreadPct }

/-- `build_feature_pack`. -/
def buildFeaturePack (std : List ℚ → ℚ) (symbol : String) (intraday daily : List Bar) (quote : Option Quote)
    (openingRangeBars : ℕ) : Option FeaturePack :=
  if intraday.length < emaSlowPeriod then none
  else if packPrice intraday quote ≤ 0 then none
  else some (featurePack std symbol intraday daily quote openingRangeBars)

/-! ### Histories -/

/-- A bar as the market makes them. -/
structure Bar.Sound (symbol : String) (b : Bar) : Prop where
  symbol_eq : b.symbol = symbol
  low_pos : 0 < b.low
  open_mem : b.low ≤ b.openPrice ∧ b.openPrice ≤ b.high
  close_mem : b.low ≤ b.close ∧ b.close ≤ b.high
  volume_nonneg : 0 ≤ b.volume

/-- A history of `earlier` bars and those of the latest `session`. -/
structure BarHistory (calendar : MarketCalendar) (symbol : String) (earlier session : List Bar) : Prop where
  sound : ∀ b ∈ earlier ++ session, b.Sound symbol
  ordered : (earlier ++ session).Pairwise fun a b => a.ts < b.ts
  oneSession : ∀ a ∈ session, ∀ b ∈ session, calendar.etDate a.ts = calendar.etDate b.ts
  before : ∀ a ∈ earlier, ∀ b ∈ session, calendar.etDate a.ts < calendar.etDate b.ts

/-- Two packs have the same session-anchored features. -/
structure SameSession (a b : FeaturePack) : Prop where
  vwap : a.vwap = b.vwap
  openingRangePosition : a.openingRangePosition = b.openingRangePosition
  dayHigh : a.dayHigh = b.dayHigh
  dayLow : a.dayLow = b.dayLow
  gapPct : a.gapPct = b.gapPct

/-- Whatever is in front of the session, `n` bars in one history and `k` in the other, the packs that are
built have the same session-anchored features. -/
def SeesSessionOnly (std : List ℚ → ℚ) (calendar : MarketCalendar) (symbol : String) (session daily : List Bar)
    (quote : Option Quote) (openingRangeBars n k : ℕ) : Prop :=
  ∀ first second : List Bar, first.length = n → second.length = k →
    BarHistory calendar symbol first session → BarHistory calendar symbol second session →
    ∀ a ∈ buildFeaturePack std symbol (first ++ session) daily quote openingRangeBars,
      ∀ b ∈ buildFeaturePack std symbol (second ++ session) daily quote openingRangeBars, SameSession a b

/-- A bar at one price. -/
def flatBar (symbol : String) (price ts : ℚ) : Bar :=
  { symbol, ts, openPrice := price, high := price, low := price, close := price, volume := 1, period := 300 }

/-- Flat bars, five minutes apart, before a moment. -/
def flatBars (symbol : String) (price ts : ℚ) : ℕ → List Bar
  | 0 => []
  | n + 1 => flatBar symbol price (ts - 300 * (n + 1)) :: flatBars symbol price ts n

section Flat

variable {symbol : String} {price ts : ℚ}

@[simp] theorem length_flatBars (n : ℕ) : (flatBars symbol price ts n).length = n := by
  induction n with
  | zero => rfl
  | succ n ih => simp [flatBars, ih]

theorem mem_flatBars {n : ℕ} {b : Bar} (h : b ∈ flatBars symbol price ts n) :
    ∃ t, b = flatBar symbol price t ∧ ts - 300 * n ≤ t ∧ t < ts := by
  induction n with
  | zero => cases h
  | succ n ih =>
    rcases List.mem_cons.mp h with rfl | h
    · refine ⟨_, rfl, by push_cast; exact le_rfl, ?_⟩
      have hn : (0 : ℚ) ≤ n := Nat.cast_nonneg n
      linarith
    · obtain ⟨t, rfl, hlow, hhigh⟩ := ih h
      refine ⟨t, rfl, ?_, hhigh⟩
      push_cast
      linarith

theorem pairwise_flatBars (n : ℕ) : (flatBars symbol price ts n).Pairwise fun a b => a.ts < b.ts := by
  induction n with
  | zero => exact List.Pairwise.nil
  | succ n ih =>
    refine List.pairwise_cons.mpr ⟨fun b hmem => ?_, ih⟩
    obtain ⟨t, rfl, hlow, -⟩ := mem_flatBars hmem
    show ts - 300 * (n + 1) < t
    linarith

theorem history_flatBars {calendar : MarketCalendar} {session : List Bar} (hprice : 0 < price)
    (hsession : BarHistory calendar symbol [] session)
    (hts : ∀ b ∈ session, calendar.etDate ts < calendar.etDate b.ts) (n : ℕ) :
    BarHistory calendar symbol (flatBars symbol price ts n) session := by
  have hdate : ∀ a ∈ flatBars symbol price ts n, ∀ b ∈ session, calendar.etDate a.ts < calendar.etDate b.ts := by
    intro a ha b hb
    obtain ⟨t, rfl, -, hlt⟩ := mem_flatBars ha
    exact (calendar.etDate_mono hlt.le).trans_lt (hts b hb)
  refine ⟨fun b hmem => ?_, ?_, hsession.oneSession, hdate⟩
  · rcases List.mem_append.mp hmem with hmem | hmem
    · obtain ⟨t, rfl, -, -⟩ := mem_flatBars hmem
      exact ⟨rfl, hprice, ⟨le_rfl, le_rfl⟩, ⟨le_rfl, le_rfl⟩, zero_le_one⟩
    · exact hsession.sound b hmem
  · refine List.pairwise_append.mpr ⟨pairwise_flatBars n, hsession.ordered, fun a ha b hb => ?_⟩
    by_contra hle
    exact absurd (calendar.etDate_mono (not_lt.mp hle)) (not_le.mpr (hdate a ha b hb))

end Flat

/-! ### What a pack sees -/

section Sees

variable {std : List ℚ → ℚ} {calendar : MarketCalendar} {symbol : String} {session daily : List Bar}
  {quote : Option Quote} {openingRangeBars n k : ℕ}

theorem SameSession.symm {a b : FeaturePack} (h : SameSession a b) : SameSession b a :=
  ⟨h.vwap.symm, h.openingRangePosition.symm, h.dayHigh.symm, h.dayLow.symm, h.gapPct.symm⟩

theorem SeesSessionOnly.symm (h : SeesSessionOnly std calendar symbol session daily quote openingRangeBars n k) :
    SeesSessionOnly std calendar symbol session daily quote openingRangeBars k n :=
  fun first second hfirst hsecond hhistory hhistory' a ha b hb =>
    (h second first hsecond hfirst hhistory' hhistory b hb a ha).symm

theorem packPrice_append (earlier : List Bar) (hne : session ≠ []) :
    packPrice (earlier ++ session) quote = packPrice session quote := by
  have hlast : ((earlier ++ session).map fun b => b.close).getLast? = (session.map fun b => b.close).getLast? := by
    rw [List.map_append, List.getLast?_append_of_ne_nil _ (by simpa using hne)]
  unfold packPrice
  rw [hlast]

theorem buildFeaturePack_append {earlier : List Bar} (hne : session ≠ [])
    (hlength : emaSlowPeriod ≤ earlier.length + session.length) (hprice : 0 < packPrice session quote) :
    buildFeaturePack std symbol (earlier ++ session) daily quote openingRangeBars =
      some (featurePack std symbol (earlier ++ session) daily quote openingRangeBars) := by
  unfold buildFeaturePack
  rw [packPrice_append earlier hne, if_neg (by rw [List.length_append]; exact not_lt.mpr hlength),
    if_neg (not_le.mpr hprice)]

theorem high_le_dayHigh {bars : List Bar} {b : Bar} (hmem : b ∈ bars) :
    ∃ high, (featurePack std symbol bars daily quote openingRangeBars).dayHigh = some high ∧ b.high ≤ high := by
  show ∃ high, (bars.map fun b => b.high).max? = some high ∧ b.high ≤ high
  have hhigh : b.high ∈ bars.map fun b => b.high := List.mem_map_of_mem hmem
  cases hmax : (bars.map fun b => b.high).max? with
  | none =>
    rw [List.max?_eq_none_iff.mp hmax] at hhigh
    cases hhigh
  | some high => exact ⟨high, rfl, (List.max?_eq_some_iff.mp hmax).2 _ hhigh⟩

theorem not_seesSessionOnly (hsession : BarHistory calendar symbol [] session) (hne : session ≠ [])
    (hprevious : ∃ t, ∀ b ∈ session, calendar.etDate t < calendar.etDate b.ts) (hk : 0 < k)
    (hfirst : emaSlowPeriod ≤ n + session.length) (hsecond : emaSlowPeriod ≤ k + session.length)
    (hprice : 0 < packPrice session quote) :
    ¬ SeesSessionOnly std calendar symbol session daily quote openingRangeBars n k := by
  intro hsees
  obtain ⟨t, ht⟩ := hprevious
  obtain ⟨last, hlast⟩ := List.exists_mem_of_ne_nil session hne
  obtain ⟨high, hhigh, -⟩ := @high_le_dayHigh std symbol daily quote openingRangeBars
    (flatBars symbol 1 t n ++ session) last (List.mem_append_right _ hlast)
  -- earlier bars above the first history's high
  have habove : 0 < |high| + 1 := by linarith [abs_nonneg high]
  have hthere : flatBar symbol (|high| + 1) (t - 300 * ((k - 1 : ℕ) + 1)) ∈
      flatBars symbol (|high| + 1) t k ++ session := by
    obtain ⟨j, rfl⟩ := Nat.exists_eq_succ_of_ne_zero hk.ne'
    exact List.mem_append_left _ List.mem_cons_self
  obtain ⟨top, htop, hle⟩ := @high_le_dayHigh std symbol daily quote openingRangeBars _ _ hthere
  have hsame := hsees _ _ (length_flatBars n) (length_flatBars k) (history_flatBars one_pos hsession ht n)
    (history_flatBars habove hsession ht k) _
    (buildFeaturePack_append hne (by rwa [length_flatBars]) hprice) _
    (buildFeaturePack_append hne (by rwa [length_flatBars]) hprice)
  have heq : high = top := Option.some.inj (hhigh.symm.trans (hsame.dayHigh.trans htop))
  have hle' : |high| + 1 ≤ high := heq ▸ hle
  linarith [le_abs_self high]

/-- **When the session's features are the session's.** For every session, daily bars and quote, and every
number of bars in front of the session in two histories of the symbol: whatever those bars are, the packs
have the same VWAP, opening-range position, day's high and low and gap, precisely when there are no such
bars or one of the packs is not built. -/
theorem session_features_iff (hsession : BarHistory calendar symbol [] session) (hne : session ≠ [])
    (hprevious : ∃ t, ∀ b ∈ session, calendar.etDate t < calendar.etDate b.ts) :
    SeesSessionOnly std calendar symbol session daily quote openingRangeBars n k ↔
      (n = 0 ∧ k = 0) ∨ n + session.length < 21 ∨ k + session.length < 21 ∨ packPrice session quote ≤ 0 := by
  constructor
  · intro hsees
    by_contra hnot
    obtain ⟨hearlier, hnot⟩ := not_or.mp hnot
    obtain ⟨hfirst, hnot⟩ := not_or.mp hnot
    obtain ⟨hsecond, hprice⟩ := not_or.mp hnot
    have hfirst' : emaSlowPeriod ≤ n + session.length := not_lt.mp hfirst
    have hsecond' : emaSlowPeriod ≤ k + session.length := not_lt.mp hsecond
    by_cases hk : 0 < k
    · exact not_seesSessionOnly hsession hne hprevious hk hfirst' hsecond' (not_le.mp hprice) hsees
    · have hn : 0 < n := by omega
      exact not_seesSessionOnly hsession hne hprevious hn hsecond' hfirst' (not_le.mp hprice) hsees.symm
  · intro hcase first second hfirst hsecond _ _ a ha b hb
    have hbuilt : ∀ {earlier : List Bar} {pack : FeaturePack},
        pack ∈ buildFeaturePack std symbol (earlier ++ session) daily quote openingRangeBars →
          21 ≤ earlier.length + session.length ∧ 0 < packPrice session quote := by
      intro earlier pack hpack
      unfold buildFeaturePack at hpack
      split_ifs at hpack with hshort hprice
      · cases hpack
      · cases hpack
      · rw [packPrice_append earlier hne] at hprice
        rw [List.length_append] at hshort
        exact ⟨not_lt.mp hshort, not_le.mp hprice⟩
    obtain ⟨hlong, hprice⟩ := hbuilt ha
    obtain ⟨hlong', -⟩ := hbuilt hb
    rcases hcase with ⟨rfl, rfl⟩ | hshort | hshort | hlow
    · -- nothing in front of the session
      obtain rfl := List.length_eq_zero_iff.mp hfirst
      obtain rfl := List.length_eq_zero_iff.mp hsecond
      obtain rfl := Option.some.inj (ha.symm.trans hb)
      exact ⟨rfl, rfl, rfl, rfl, rfl⟩
    · omega
    · omega
    · exact absurd hlow (not_le.mpr hprice)

end Sees

/-! #### A day in front of the session -/

def utcDays : MarketCalendar where
  sessionBounds _ := none
  etDate t := ⌊t / 86400⌋
  etDate_mono := MarketCalendar.utcDay_mono

/-- Twenty-one bars at a hundred. -/
def flatSession : List Bar := flatBars "AAPL" 100 158400 21

theorem etDate_flatSession {b : Bar} (h : b ∈ flatSession) : utcDays.etDate b.ts = 1 := by
  obtain ⟨t, rfl, hlow, hhigh⟩ := mem_flatBars h
  show ⌊t / 86400⌋ = 1
  rw [Int.floor_eq_iff]
  push_cast at hlow ⊢
  constructor <;> linarith

theorem barHistory_flatSession : BarHistory utcDays "AAPL" [] flatSession := by
  refine ⟨fun b hmem => ?_, pairwise_flatBars 21, fun a ha b hb => ?_, fun a ha => (nomatch ha)⟩
  · obtain ⟨t, rfl, -, -⟩ := mem_flatBars hmem
    exact ⟨rfl, by norm_num [flatBar], ⟨le_rfl, le_rfl⟩, ⟨le_rfl, le_rfl⟩, zero_le_one⟩
  · rw [etDate_flatSession ha, etDate_flatSession hb]

theorem session_features_alone : SeesSessionOnly (fun _ => 0) utcDays "AAPL" flatSession [] none 3 0 0 := by
  have hprevious : ∃ t, ∀ b ∈ flatSession, utcDays.etDate t < utcDays.etDate b.ts :=
    ⟨72000, fun b hmem => (etDate_flatSession hmem).symm ▸ by decide +kernel⟩
  exact (session_features_iff barHistory_flatSession (by decide +kernel) hprevious).mpr (Or.inl ⟨rfl, rfl⟩)

/-- One bar of the day before, at two hundred. -/
theorem session_features_leak :
    ¬ ∀ (std : List ℚ → ℚ) (calendar : MarketCalendar) (symbol : String) (session first second daily : List Bar)
      (quote : Option Quote) (openingRangeBars : ℕ),
      BarHistory calendar symbol first session → BarHistory calendar symbol second session → session ≠ [] →
      ∀ a ∈ buildFeaturePack std symbol (first ++ session) daily quote openingRangeBars,
        ∀ b ∈ buildFeaturePack std symbol (second ++ session) daily quote openingRangeBars, SameSession a b := by
  intro h
  have hne : flatSession ≠ [] := by decide +kernel
  have hhistory : BarHistory utcDays "AAPL" (flatBars "AAPL" 200 72000 1) flatSession :=
    history_flatBars (by norm_num) barHistory_flatSession
      (fun b hmem => (etDate_flatSession hmem).symm ▸ by decide +kernel) 1
  have hprice : 0 < packPrice flatSession none := by decide +kernel
  have hsame := h (fun _ => 0) utcDays "AAPL" flatSession [] (flatBars "AAPL" 200 72000 1) [] none 3
    barHistory_flatSession hhistory hne _ (buildFeaturePack_append hne (by decide +kernel) hprice) _
    (buildFeaturePack_append hne (by decide +kernel) hprice)
  exact absurd hsame.dayHigh (by decide +kernel)

end AiTrader
