import AiTrader.Broker.Bars
import AiTrader.Lib.Trace

/-!
# Five-minute bars from the stream

`_on_bar` appends every bar of the stream to the raw bars of its symbol, keeps a window of them, rolls the window
up and puts the result in the place of the stored five-minute bars from the window's first bucket on.

The stored bars are therefore those of the window, behind a history that is older (`Covers`), and a bucket that is
over is rolled up anew, from the same bars, with every bar that comes in. It is not when the window has been cut in
the middle of the bucket: what is left of it then replaces the bar that was finished. A run that never cuts a
bucket so keeps every finished bar (`finished_stay_finished`).

Times are what the proof is about. The raw bars come in order of time, so the window is an end of the stream, and its
first bucket is the only one of which a part may have been cut off (`bucketStart_dropped_le`). A bucket that is over
lies before the bucket of the bar that comes in (`lt_bucketStart`); if it is not the first of the window, or nothing
has been cut from it, rolling it up gives the bar that is stored (`bucket_trim`), and replacing the tail puts that bar
back (`replaceTail_keeps`).
-/

namespace AiTrader

open Lib

/-- `DataConfig`, as far as the stream reads it. -/
structure DataConfig where
  memoryBars : ℕ := 500
  memoryBars_ge : 50 ≤ memoryBars := by decide

/-- `INTRADAY_PERIOD`. -/
def intradayPeriod : ℕ := 300

/-- The bars that the window loses, when it has become too long. -/
def dropped (series : List Bar) : List Bar := if 5000 < series.length then series.rdrop 4000 else []

/-- The window that is kept. -/
def trim (series : List Bar) : List Bar := if 5000 < series.length then series.rtake 4000 else series

/-- The bars in front of the first rolled one are kept, and so are the last `memory_bars` of them all. -/
def replaceTail (cfg : DataConfig) (existing : List Bar) : List Bar → List Bar
  | [] => existing
  | first :: later =>
    let kept := existing.filter fun b => b.ts < first.ts
    (kept ++ first :: later).rtake cfg.memoryBars

/-- What the service holds of the stream. -/
structure MarketBars where
  rawBars : Dict String (List Bar) := Dict.empty
  intraday : Dict String (List Bar) := Dict.empty
  deriving DecidableEq

namespace MarketBars

def raw (s : MarketBars) (symbol : String) : List Bar := (s.rawBars.get? symbol).getD []

def stored (s : MarketBars) (symbol : String) : List Bar := (s.intraday.get? symbol).getD []

/-- `_on_bar`. -/
def onBar (cfg : DataConfig) (s : MarketBars) (bar : Bar) : MarketBars :=
  let series := trim (s.raw bar.symbol ++ [bar])
  let rolled := aggregate series intradayPeriod
  { rawBars := s.rawBars.set bar.symbol series
    intraday :=
      if rolled = [] then s.intraday
      else s.intraday.set bar.symbol (replaceTail cfg (s.stored bar.symbol) rolled) }

end MarketBars

/-! ### The window -/

theorem dropped_append_trim (series : List Bar) : dropped series ++ trim series = series := by
  unfold dropped trim
  split_ifs
  · exact List.take_append_drop _ _
  · rfl

theorem mem_of_mem_trim {series : List Bar} {b : Bar} (h : b ∈ trim series) : b ∈ series := by
  rw [← dropped_append_trim series]
  exact List.mem_append_right _ h

theorem mem_trim_concat (series : List Bar) (bar : Bar) : bar ∈ trim (series ++ [bar]) := by
  unfold trim
  split_ifs
  · rw [List.rtake_concat_succ]
    simp
  · simp

theorem chronological_trim {series : List Bar} (h : Chronological Bar.ts series) :
    Chronological Bar.ts (trim series) := by
  rw [← dropped_append_trim series] at h
  exact (List.pairwise_append.mp h).2.1

theorem lt_bucketStart {n : ℤ} {ts : ℚ} (h : (n : ℚ) + 300 ≤ ts) : n < bucketStart intradayPeriod ts := by
  have hepoch : n + 300 ≤ epoch ts := by
    rw [← epoch_intCast (n + 300)]
    exact epoch_mono (by exact_mod_cast h)
  have hmod := Int.emod_lt_of_pos (epoch ts) (b := 300) (by norm_num)
  show n < epoch ts - epoch ts % 300
  omega

/-! ### One bar -/

/-- The stored bars are those of the window, behind older ones. -/
def Covers (cfg : DataConfig) (raw stored : List Bar) : Prop :=
  Chronological Bar.ts raw ∧ ∀ first ∈ raw.head?, ∃ older : List Bar,
    (∀ B ∈ older, B.ts < bucketStart intradayPeriod first.ts) ∧
      stored = (older ++ aggregate raw intradayPeriod).rtake cfg.memoryBars

/-- Where the window is cut, the bars on both sides of the cut lie in different buckets; or that bucket is not over
yet, or it is no longer in memory. -/
def TrimsCleanly (cfg : DataConfig) (raw : List Bar) (bar : Bar) : Prop :=
  let series := raw ++ [bar]
  ∀ first ∈ (trim series).head?,
    (∀ b ∈ dropped series, bucketStart intradayPeriod b.ts ≠ bucketStart intradayPeriod first.ts) ∨
      bucketStart intradayPeriod bar.ts = bucketStart intradayPeriod first.ts ∨
      cfg.memoryBars < (starts (trim series) intradayPeriod).length

instance (cfg : DataConfig) (raw : List Bar) (bar : Bar) : Decidable (TrimsCleanly cfg raw bar) :=
  inferInstanceAs (Decidable (∀ first ∈ (trim (raw ++ [bar])).head?, _ ∨ _ ∨ _))

section Step

variable {cfg : DataConfig} {raw stored : List Bar} {bar first : Bar} {rest : List Bar}

theorem replaceTail_aggregate (h : Chronological Bar.ts (first :: rest)) (existing : List Bar) :
    replaceTail cfg existing (aggregate (first :: rest) intradayPeriod) =
      ((existing.filter fun b => b.ts < (bucketStart intradayPeriod first.ts : ℚ)) ++
        aggregate (first :: rest) intradayPeriod).rtake cfg.memoryBars := by
  obtain ⟨head, later, haggregate, hts⟩ := head_aggregate h intradayPeriod
  rw [haggregate, replaceTail, hts]

theorem Covers.step (hcov : Covers cfg raw stored) (hnew : ∀ b ∈ raw, b.ts < bar.ts) :
    Covers cfg (trim (raw ++ [bar]))
      (replaceTail cfg stored (aggregate (trim (raw ++ [bar])) intradayPeriod)) := by
  have hwindow : Chronological Bar.ts (trim (raw ++ [bar])) := chronological_trim (hcov.1.concat hnew)
  refine ⟨hwindow, fun first hfirst => ?_⟩
  obtain ⟨rest, hrest⟩ := List.head?_eq_some_iff.mp hfirst
  rw [hrest] at hwindow ⊢
  refine ⟨_, fun B hB => ?_, replaceTail_aggregate hwindow stored⟩
  simpa using (List.mem_filter.mp hB).2

theorem bucket_trim (hwindow : trim (raw ++ [bar]) = first :: rest) {start : ℤ}
    (hover : start < bucketStart intradayPeriod bar.ts)
    (hclean : ∀ b ∈ dropped (raw ++ [bar]), bucketStart intradayPeriod b.ts ≠ start) :
    bucket (first :: rest) intradayPeriod start = bucket raw intradayPeriod start := by
  have hsplit := dropped_append_trim (raw ++ [bar])
  have hnone : (dropped (raw ++ [bar])).filter (fun b => bucketStart intradayPeriod b.ts = start) = [] := by
    rw [List.filter_eq_nil_iff]
    intro b hb
    simpa using hclean b hb
  have hbar : [bar].filter (fun b => bucketStart intradayPeriod b.ts = start) = [] := by
    rw [List.filter_eq_nil_iff]
    intro b hb
    rw [List.mem_singleton.mp hb]
    simpa using hover.ne'
  have hfilter := congrArg (List.filter fun b => bucketStart intradayPeriod b.ts = start) hsplit
  rw [List.filter_append, List.filter_append, hnone, hbar, List.nil_append, List.append_nil, hwindow] at hfilter
  rw [bucket, bucket, hfilter]

theorem bucketStart_dropped_le (hchron : Chronological Bar.ts (raw ++ [bar]))
    (hwindow : trim (raw ++ [bar]) = first :: rest) {b : Bar} (hb : b ∈ dropped (raw ++ [bar])) :
    bucketStart intradayPeriod b.ts ≤ bucketStart intradayPeriod first.ts := by
  rw [← dropped_append_trim (raw ++ [bar]), hwindow] at hchron
  exact bucketStart_mono _ ((List.pairwise_append.mp hchron).2.2 b hb first List.mem_cons_self).le

theorem length_later_le (hchron : Chronological Bar.ts (raw ++ [bar]))
    (hwindow : trim (raw ++ [bar]) = first :: rest) {t : ℚ} (ht : (bucketStart intradayPeriod first.ts : ℚ) ≤ t) :
    ((aggregate raw intradayPeriod).filter fun B => t < B.ts).length ≤
      ((aggregate (first :: rest) intradayPeriod).filter fun B => t < B.ts).length := by
  have hnodup : (((aggregate raw intradayPeriod).filter fun B => t < B.ts).map Bar.ts).Nodup :=
    (chronological_aggregate raw intradayPeriod).nodup.sublist (List.filter_sublist.map _)
  have hsubset : ((aggregate raw intradayPeriod).filter fun B => t < B.ts).map Bar.ts ⊆
      ((aggregate (first :: rest) intradayPeriod).filter fun B => t < B.ts).map Bar.ts := by
    intro ts hts
    obtain ⟨B, hB, rfl⟩ := List.mem_map.mp hts
    obtain ⟨hB, hlater⟩ := List.mem_filter.mp hB
    obtain ⟨b, hb, hroll⟩ := mem_aggregate.mp hB
    have hin : b ∈ first :: rest := by
      have hmem : b ∈ dropped (raw ++ [bar]) ++ trim (raw ++ [bar]) := by
        rw [dropped_append_trim]
        exact List.mem_append_left _ hb
      rw [hwindow] at hmem
      refine (List.mem_append.mp hmem).resolve_left fun hgone => ?_
      have hle := bucketStart_dropped_le hchron hwindow hgone
      rw [ts_of_rollUp hroll, decide_eq_true_eq] at hlater
      have hlt : bucketStart intradayPeriod first.ts < bucketStart intradayPeriod b.ts := by
        exact_mod_cast ht.trans_lt hlater
      omega
    obtain ⟨B', hB'⟩ := exists_rollUp hin intradayPeriod
    have hsame : B'.ts = B.ts := by rw [ts_of_rollUp hB', ts_of_rollUp hroll]
    refine List.mem_map.mpr ⟨B', List.mem_filter.mpr ⟨mem_aggregate.mpr ⟨b, hin, hB'⟩, ?_⟩, hsame⟩
    rw [hsame]
    exact hlater
  have hle := (List.subperm_of_subset hnodup hsubset).length_le
  rwa [List.length_map, List.length_map] at hle

theorem ts_ne_of_full (hchron : Chronological Bar.ts (first :: rest))
    (hfull : cfg.memoryBars < (starts (first :: rest) intradayPeriod).length) {C : Bar}
    (hkept : C ∈ (aggregate (first :: rest) intradayPeriod).rtake cfg.memoryBars) :
    C.ts ≠ bucketStart intradayPeriod first.ts := by
  intro hts
  have hlength : (aggregate (first :: rest) intradayPeriod).length =
      (starts (first :: rest) intradayPeriod).length := by
    have hmap := congrArg List.length (map_ts_aggregate (first :: rest) intradayPeriod)
    rwa [List.length_map, List.length_map] at hmap
  have hsorted := chronological_aggregate (first :: rest) intradayPeriod
  obtain ⟨head, later, haggregate, hhead⟩ := head_aggregate hchron intradayPeriod
  rw [haggregate] at hlength hsorted hkept
  obtain ⟨-, hlater⟩ := hsorted.mem_rtake.mp hkept
  rw [hts, ← hhead, List.filter_cons_of_neg (by simp),
    List.filter_eq_self.mpr (by simpa using (List.pairwise_cons.mp hsorted).1)] at hlater
  rw [List.length_cons] at hlength
  omega

theorem Covers.mem_stored (hcov : Covers cfg raw stored) {B : Bar} (hB : B ∈ aggregate raw intradayPeriod)
    (hlater : ((aggregate raw intradayPeriod).filter fun B' => B.ts < B'.ts).length < cfg.memoryBars) :
    B ∈ stored := by
  cases hraw : raw with
  | nil =>
    rw [hraw] at hB
    cases hB
  | cons oldest others =>
    obtain ⟨older, holder, hstored⟩ := hcov.2 oldest (by rw [hraw]; rfl)
    have hnotOlder : B ∉ older := by
      intro hmem
      have hge := le_ts_of_mem_aggregate (hraw ▸ hcov.1) (hraw ▸ hB)
      exact absurd hge (holder B hmem).not_ge
    rw [hstored, rtake_append_of_notMem hnotOlder, (chronological_aggregate _ _).mem_rtake]
    exact ⟨hB, hlater⟩

theorem not_cut_of_kept (hchron : Chronological Bar.ts (raw ++ [bar])) (hclean : TrimsCleanly cfg raw bar)
    (hwindow : trim (raw ++ [bar]) = first :: rest) {C : Bar}
    (hkept : C ∈ (aggregate (first :: rest) intradayPeriod).rtake cfg.memoryBars) {start : ℤ} (hts : C.ts = start)
    (hbefore : start < bucketStart intradayPeriod bar.ts) :
    ∀ b ∈ dropped (raw ++ [bar]), bucketStart intradayPeriod b.ts ≠ start := by
  have hchronWindow : Chronological Bar.ts (first :: rest) := hwindow ▸ chronological_trim hchron
  have hfirst := le_ts_of_mem_aggregate hchronWindow ((chronological_aggregate _ _).mem_rtake.mp hkept).1
  rw [hts] at hfirst
  intro b hb hsame
  -- so it would be the window's first bucket
  have hle := bucketStart_dropped_le hchron hwindow hb
  have hcut : bucketStart intradayPeriod first.ts = start := le_antisymm (by exact_mod_cast hfirst) (hsame ▸ hle)
  have hhead : first ∈ (trim (raw ++ [bar])).head? := by rw [hwindow]; rfl
  rcases hclean first hhead with hother | hopen | hfull
  · exact hother b hb (hsame.trans hcut.symm)
  · omega
  · rw [hwindow] at hfull
    exact ts_ne_of_full hchronWindow hfull hkept (by rw [hts, hcut])

theorem mem_stored_of_kept (hcov : Covers cfg raw stored) (hnew : ∀ b ∈ raw, b.ts < bar.ts)
    (hclean : TrimsCleanly cfg raw bar) (hwindow : trim (raw ++ [bar]) = first :: rest) {C : Bar}
    (hkept : C ∈ (aggregate (first :: rest) intradayPeriod).rtake cfg.memoryBars) (hover : C.ts + 300 ≤ bar.ts) :
    C ∈ stored := by
  have hchron : Chronological Bar.ts (raw ++ [bar]) := hcov.1.concat hnew
  have hchronWindow : Chronological Bar.ts (first :: rest) := hwindow ▸ chronological_trim hchron
  obtain ⟨hmem, hlater⟩ := (chronological_aggregate _ _).mem_rtake.mp hkept
  obtain ⟨b, hb, hroll⟩ := mem_aggregate.mp hmem
  have hts := ts_of_rollUp hroll
  have hbefore : bucketStart intradayPeriod b.ts < bucketStart intradayPeriod bar.ts := by
    apply lt_bucketStart
    rw [← hts]
    exact hover
  have hraw : b ∈ raw := by
    rw [← hwindow] at hb
    refine (List.mem_append.mp (mem_of_mem_trim hb)).resolve_right fun hbar => ?_
    rw [List.mem_singleton.mp hbar] at hbefore
    exact lt_irrefl _ hbefore
  rw [bucket_trim hwindow hbefore (not_cut_of_kept hchron hclean hwindow hkept hts hbefore)] at hroll
  have hfirst := le_ts_of_mem_aggregate hchronWindow hmem
  exact hcov.mem_stored (mem_aggregate.mpr ⟨b, hraw, hroll⟩)
    ((length_later_le hchron hwindow hfirst).trans_lt hlater)

theorem filter_replaceTail_of_lt (hchron : Chronological Bar.ts (first :: rest)) {start : ℚ}
    (hfront : start < (bucketStart intradayPeriod first.ts : ℚ)) :
    ((replaceTail cfg stored (aggregate (first :: rest) intradayPeriod)).filter fun B => B.ts = start).Sublist
      (stored.filter fun B => B.ts = start) := by
  rw [replaceTail_aggregate hchron]
  have hnone : (aggregate (first :: rest) intradayPeriod).filter (fun B => B.ts = start) = [] := by
    rw [List.filter_eq_nil_iff]
    intro B hB
    have hge := le_ts_of_mem_aggregate hchron hB
    simpa using (hfront.trans_le hge).ne'
  refine (List.Sublist.filter _ (List.drop_sublist _ _)).trans ?_
  rw [List.filter_append, hnone, List.append_nil]
  exact List.filter_sublist.filter _

theorem filter_replaceTail_of_ge (hchron : Chronological Bar.ts (first :: rest)) {start : ℚ}
    (hback : (bucketStart intradayPeriod first.ts : ℚ) ≤ start) :
    (replaceTail cfg stored (aggregate (first :: rest) intradayPeriod)).filter (fun B => B.ts = start) = [] ∨
      ∃ C ∈ (aggregate (first :: rest) intradayPeriod).rtake cfg.memoryBars, C.ts = start ∧
        (replaceTail cfg stored (aggregate (first :: rest) intradayPeriod)).filter (fun B => B.ts = start) = [C] := by
  rw [replaceTail_aggregate hchron]
  set kept := stored.filter fun b => b.ts < (bucketStart intradayPeriod first.ts : ℚ)
  set rolled := aggregate (first :: rest) intradayPeriod
  have hgone : ∀ B ∈ kept, B.ts ≠ start := by
    intro B hB hts
    have hlt : B.ts < (bucketStart intradayPeriod first.ts : ℚ) := by simpa using (List.mem_filter.mp hB).2
    exact absurd hback (not_le.mpr (hts ▸ hlt))
  have hnone : kept.filter (fun B => B.ts = start) = [] :=
    List.filter_eq_nil_iff.mpr fun B hB => by simpa using hgone B hB
  have hsub : (((kept ++ rolled).rtake cfg.memoryBars).filter fun B => B.ts = start).Sublist
      (rolled.filter fun B => B.ts = start) := by
    refine (List.Sublist.filter _ (List.drop_sublist _ _)).trans ?_
    rw [List.filter_append, hnone, List.nil_append]
  cases hlist : ((kept ++ rolled).rtake cfg.memoryBars).filter fun B => B.ts = start with
  | nil => exact Or.inl rfl
  | cons C others =>
    have hC : C ∈ ((kept ++ rolled).rtake cfg.memoryBars).filter fun B => B.ts = start := by
      rw [hlist]
      exact List.mem_cons_self
    obtain ⟨hCkept, hCts⟩ := List.mem_filter.mp hC
    rw [decide_eq_true_eq] at hCts
    subst hCts
    rw [rtake_append_of_notMem fun hmem => hgone C hmem rfl] at hCkept
    have hone := filter_of_nodup (chronological_aggregate (first :: rest) intradayPeriod).nodup
      ((chronological_aggregate _ _).mem_rtake.mp hCkept).1
    rw [hlist, hone] at hsub
    have hothers : others = [] := List.sublist_nil.mp (List.cons_sublist_cons.mp hsub)
    exact Or.inr ⟨C, hCkept, rfl, by rw [hothers]⟩

theorem replaceTail_keeps (hcov : Covers cfg raw stored) (hnew : ∀ b ∈ raw, b.ts < bar.ts)
    (hclean : TrimsCleanly cfg raw bar) {start : ℚ} (hover : start + 300 ≤ bar.ts) :
    ((replaceTail cfg stored (aggregate (trim (raw ++ [bar])) intradayPeriod)).filter
      fun B => B.ts = start).Sublist (stored.filter fun B => B.ts = start) := by
  have hchron := chronological_trim (hcov.1.concat hnew)
  have hbar := mem_trim_concat raw bar
  cases hwindow : trim (raw ++ [bar]) with
  | nil =>
    rw [hwindow] at hbar
    cases hbar
  | cons first rest =>
    rw [hwindow] at hchron
    rcases lt_or_ge start (bucketStart intradayPeriod first.ts : ℚ) with hfront | hback
    · exact filter_replaceTail_of_lt hchron hfront
    · rcases filter_replaceTail_of_ge hchron hback with hnone | ⟨C, hkept, rfl, hone⟩
      · rw [hnone]
        exact List.nil_sublist _
      · rw [hone]
        have hstored := mem_stored_of_kept hcov hnew hclean hwindow hkept hover
        exact List.singleton_sublist.mpr (List.mem_filter.mpr ⟨hstored, by simp⟩)

end Step

/-! ### Runs -/

namespace MarketBars

variable {cfg : DataConfig} {s : MarketBars} {bar : Bar} {symbol : String}

@[simp] theorem raw_onBar_self : (s.onBar cfg bar).raw bar.symbol = trim (s.raw bar.symbol ++ [bar]) := by
  simp [raw, onBar]

theorem raw_onBar_ne (h : symbol ≠ bar.symbol) : (s.onBar cfg bar).raw symbol = s.raw symbol := by
  rw [raw, onBar, Dict.get?_set_ne _ _ h, raw]

theorem stored_onBar_self : (s.onBar cfg bar).stored bar.symbol =
    replaceTail cfg (s.stored bar.symbol)
      (aggregate (trim (s.raw bar.symbol ++ [bar])) intradayPeriod) := by
  rw [stored, onBar]
  dsimp only
  split_ifs with hrolled
  · rw [hrolled]
    rfl
  · rw [Dict.get?_set_self]
    rfl

theorem stored_onBar_ne (h : symbol ≠ bar.symbol) : (s.onBar cfg bar).stored symbol = s.stored symbol := by
  rw [stored, onBar]
  dsimp only
  split_ifs
  · rfl
  · rw [Dict.get?_set_ne _ _ h, stored]

/-- The bar is newer than those of its symbol in the window. -/
def Newer (s : MarketBars) (bar : Bar) : Prop := ∀ b ∈ s.raw bar.symbol, b.ts < bar.ts

/-- Every symbol has its stored bars from its window. -/
def Covered (cfg : DataConfig) (s : MarketBars) : Prop := ∀ symbol, Covers cfg (s.raw symbol) (s.stored symbol)

theorem covered_onBar (h : s.Covered cfg) (hnew : s.Newer bar) : (s.onBar cfg bar).Covered cfg := by
  intro symbol
  by_cases hsymbol : symbol = bar.symbol
  · subst hsymbol
    rw [raw_onBar_self, stored_onBar_self]
    exact (h bar.symbol).step hnew
  · rw [raw_onBar_ne hsymbol, stored_onBar_ne hsymbol]
    exact h symbol

/-- What is stored for a bucket was stored for it before. -/
def Keeps (symbol : String) (start : ℚ) (s s' : MarketBars) : Prop :=
  ((s'.stored symbol).filter fun B => B.ts = start).Sublist ((s.stored symbol).filter fun B => B.ts = start)

theorem keeps_onBar (h : s.Covered cfg) (hnew : s.Newer bar) (hclean : TrimsCleanly cfg (s.raw bar.symbol) bar)
    {start : ℚ} (hover : bar.symbol = symbol → start + 300 ≤ bar.ts) : Keeps symbol start s (s.onBar cfg bar) := by
  by_cases hsymbol : symbol = bar.symbol
  · subst hsymbol
    rw [Keeps, stored_onBar_self]
    exact replaceTail_keeps (h bar.symbol) hnew hclean (hover rfl)
  · rw [Keeps, stored_onBar_ne hsymbol]

/-- A stream of bars, in order of time for every symbol. -/
def Stream (bars : List Bar) : Prop := bars.Pairwise fun a b => a.symbol = b.symbol → a.ts < b.ts

instance (bars : List Bar) : Decidable (Stream bars) :=
  inferInstanceAs (Decidable (bars.Pairwise fun a b => a.symbol = b.symbol → a.ts < b.ts))

theorem each_newer {bars : List Bar} (hstream : Stream bars) (hnew : ∀ bar ∈ bars, s.Newer bar) :
    Trace.Each (onBar cfg) Newer s bars := by
  induction bars generalizing s with
  | nil => trivial
  | cons bar bars ih =>
    obtain ⟨hfirst, hrest⟩ := List.pairwise_cons.mp hstream
    refine ⟨hnew bar List.mem_cons_self, ih hrest fun next hnext b hb => ?_⟩
    have hnext' := hnew next (List.mem_cons_of_mem _ hnext)
    by_cases hsymbol : next.symbol = bar.symbol
    · rw [hsymbol, raw_onBar_self] at hb
      rcases List.mem_append.mp (mem_of_mem_trim hb) with hold | hbar
      · exact hnext' b (hsymbol ▸ hold)
      · rw [List.mem_singleton.mp hbar]
        exact hfirst next hnext hsymbol.symm
    · rw [raw_onBar_ne hsymbol] at hb
      exact hnext' b hb

theorem covered_of_fresh (hstart : s.rawBars = Dict.empty) : s.Covered cfg := by
  intro symbol
  rw [raw, hstart]
  exact ⟨List.Pairwise.nil, fun first hfirst => nomatch hfirst⟩

theorem each_newer_of_fresh {bars : List Bar} (hstart : s.rawBars = Dict.empty) (hstream : Stream bars) :
    Trace.Each (onBar cfg) Newer s bars := by
  apply each_newer hstream
  intro bar _ b hb
  rw [raw, hstart] at hb
  cases hb

theorem covered_run {bars : List Bar} (h : s.Covered cfg) (hnewer : Trace.Each (onBar cfg) Newer s bars) :
    (Trace.run (onBar cfg) s bars).Covered cfg :=
  (Trace.always_of_inductive (P := Covered cfg) (fun _ _ h hnew => covered_onBar h hnew) (fun _ h => h) h
    hnewer).last

/-- From the moment a bucket is over, nothing is stored for it but what was stored then. -/
def KeepsFinished (cfg : DataConfig) (s : MarketBars) (bars : List Bar) : Prop :=
  ∀ pre mid, pre ++ mid <+: bars → ∀ (symbol : String) (start : ℚ),
    (∃ b ∈ pre, b.symbol = symbol ∧ start + 300 ≤ b.ts) →
      Keeps symbol start (Trace.run (onBar cfg) s pre) (Trace.run (onBar cfg) s (pre ++ mid))

/-- **Finished bars stay finished** in every run that cuts no bucket that is over and still in memory, whatever
history is in front of the stream. -/
theorem finished_stay_finished {bars : List Bar} (hstart : s.rawBars = Dict.empty) (hstream : Stream bars)
    (hclean : Trace.Each (onBar cfg) (fun s bar => TrimsCleanly cfg (s.raw bar.symbol) bar) s bars) :
    KeepsFinished cfg s bars := by
  rintro pre mid ⟨post, rfl⟩ symbol start ⟨b, hb, hsymbol, hover⟩
  have hnewer := @each_newer_of_fresh cfg s _ hstart hstream
  obtain ⟨hnewerPre, hnewerMid⟩ := Trace.each_append.mp (Trace.each_append.mp hnewer).1
  have hcleanMid := (Trace.each_append.mp (Trace.each_append.mp hclean).1).2
  -- what comes in later for the symbol comes after the end of the bucket
  have hlater : ∀ bar ∈ mid, bar.symbol = symbol → start + 300 ≤ bar.ts := by
    intro bar hbar hsame
    have hpair := (List.pairwise_append.mp (List.pairwise_append.mp hstream).1).2.2 b hb bar hbar
    exact hover.trans (hpair (hsymbol.trans hsame.symm)).le
  rw [Trace.run_append]
  refine Trace.rel_run (R := Keeps symbol start) (fun _ => List.Sublist.refl _)
    (fun _ _ _ hab hbc => List.Sublist.trans hbc hab) ?_
  exact Trace.each_of_inductive (fun _ _ h hc => covered_onBar h hc.1.1)
    (fun _ _ h hc => keeps_onBar h hc.1.1 hc.1.2 hc.2) (covered_run (covered_of_fresh hstart) hnewerPre)
    (Trace.each_and (Trace.each_and hnewerMid hcleanMid) (Trace.each_of_forall fun bar hbar _ => hlater bar hbar))

/-! #### A window that is cut -/

/-- A five-second bar after `n` others; every bar opens higher than the last. -/
def tick (n : ℕ) : Bar := risingBar (5 * n) (100 + n) 1

/-- A history of one bar, and no stream yet. -/
def backfilled : MarketBars where
  intraday := Dict.empty.set "AAPL" [{ risingBar (-300) 99 900 with period := 300 }]

theorem finished_stay_finished_backfilled : KeepsFinished {} backfilled [tick 0, tick 59, tick 60, tick 61] :=
  finished_stay_finished rfl (by decide +kernel) (by decide +kernel)

theorem raw_run {bars : List Bar} (hsymbol : ∀ bar ∈ bars, bar.symbol = symbol)
    (hlength : (s.raw symbol).length + bars.length ≤ 5000) :
    (Trace.run (onBar cfg) s bars).raw symbol = s.raw symbol ++ bars := by
  induction bars generalizing s with
  | nil => exact (List.append_nil _).symm
  | cons bar bars ih =>
    obtain ⟨rfl, hrest⟩ := List.forall_mem_cons.mp hsymbol
    rw [List.length_cons] at hlength
    have hshort : ¬ 5000 < (s.raw bar.symbol ++ [bar]).length := by
      rw [List.length_append, List.length_singleton]
      omega
    have hnext : (s.onBar cfg bar).raw bar.symbol = s.raw bar.symbol ++ [bar] := by
      rw [raw_onBar_self, trim, if_neg hshort]
    have hfit : ((s.onBar cfg bar).raw bar.symbol).length + bars.length ≤ 5000 := by
      rw [hnext, List.length_append, List.length_singleton]
      omega
    rw [Trace.run_cons, ih hrest hfit, hnext, List.append_assoc, List.singleton_append]

theorem bucketStart_tick (n : ℕ) : bucketStart intradayPeriod (tick n).ts = 300 * (n / 60 : ℕ) := by
  have hts : (tick n).ts = ((5 * n : ℤ) : ℚ) := by
    rw [tick]
    push_cast
    rfl
  rw [hts, bucketStart, epoch_intCast]
  show (5 * n : ℤ) - 5 * n % 300 = 300 * (n / 60 : ℕ)
  omega

/-- Ticks that follow each other. -/
def ticks (first count : ℕ) : List Bar := (List.range' first count).map tick

theorem ticks_concat (first count : ℕ) :
    ticks first count ++ [tick (first + count)] = ticks first (count + 1) := by
  rw [ticks, ticks, List.range'_1_concat, List.map_append, List.map_singleton]

theorem rtake_ticks (first gone count : ℕ) :
    (ticks first (gone + count)).rtake count = ticks (first + gone) count := by
  rw [List.rtake, ticks, List.length_map, List.length_range', Nat.add_sub_cancel, ← List.map_drop,
    List.drop_range', Nat.mul_one, Nat.add_sub_cancel_left]
  rfl

theorem chronological_ticks (first count : ℕ) : Chronological Bar.ts (ticks first count) := by
  refine List.pairwise_map.mpr ((List.pairwise_lt_range' ).imp fun {m n} hlt => ?_)
  show (5 * m : ℚ) < 5 * n
  exact_mod_cast (by omega : 5 * m < 5 * n)

theorem stream_ticks (first count : ℕ) : Stream (ticks first count) := by
  refine (chronological_ticks first count).imp ?_
  intro a b hlt _
  exact hlt

theorem exists_opening {first count n : ℕ}
    (hfirst : (List.range' first count).find? (fun m => m / 60 = 16) = some n) :
    ∃ B ∈ aggregate (ticks first count) intradayPeriod, B.ts = 4800 ∧ B.openPrice = 100 + n := by
  have hin : tick n ∈ ticks first count := List.mem_map_of_mem (List.mem_of_find?_eq_some hfirst)
  have hstart : bucketStart intradayPeriod (tick n).ts = 4800 := by
    have hn : n / 60 = 16 := by simpa using List.find?_some hfirst
    rw [bucketStart_tick, hn]
    rfl
  have hsame : ((fun b : Bar => decide (bucketStart intradayPeriod b.ts = 4800)) ∘ tick) =
      fun m => decide (m / 60 = 16) := by
    funext m
    rw [Function.comp_apply, bucketStart_tick, decide_eq_decide]
    omega
  have hhead : (bucket (ticks first count) intradayPeriod 4800).head? = some (tick n) := by
    rw [bucket, Chronological.sortBy_eq ((chronological_ticks first count).filter _), List.head?_filter, ticks,
      List.find?_map, hsame, hfirst]
    rfl
  obtain ⟨rest, hbucket⟩ := List.head?_eq_some_iff.mp hhead
  obtain ⟨B, hB⟩ := exists_rollUp hin intradayPeriod
  refine ⟨B, mem_aggregate.mpr ⟨_, hin, hB⟩, ?_, ?_⟩
  · rw [ts_of_rollUp hB, hstart]
    rfl
  · rw [hstart, hbucket] at hB
    obtain rfl := Option.some.inj hB
    rfl

theorem length_aggregate_ticks {first count : ℕ} (h : first + count ≤ 5040) :
    (aggregate (ticks first count) intradayPeriod).length ≤ 84 := by
  have hsubset : starts (ticks first count) intradayPeriod ⊆ (List.range 84).map fun n : ℕ => (300 * (n : ℤ)) := by
    intro start hstart
    obtain ⟨b, hb, rfl⟩ := mem_starts.mp hstart
    obtain ⟨n, hn, rfl⟩ := List.mem_map.mp hb
    rw [List.mem_range'_1] at hn
    have hlt : n / 60 < 84 := by omega
    rw [bucketStart_tick]
    exact List.mem_map.mpr ⟨n / 60, List.mem_range.mpr hlt, rfl⟩
  have hle := (List.subperm_of_subset (starts_increasing _ intradayPeriod).nodup hsubset).length_le
  have hmap := congrArg List.length (map_ts_aggregate (ticks first count) intradayPeriod)
  rw [List.length_map, List.length_map] at hmap
  rwa [hmap]

/-- Seven hours of ticks fill the window. -/
def fullWindow : List Bar := ticks 0 5000

/-- A finished bar is made anew from what is left of it: with the next tick the first 1001 leave the window, and
the bar that opened at 1060 now opens at 1101. -/
theorem finished_bar_reopened :
    let s := Trace.run (onBar {}) {} fullWindow
    Stream (fullWindow ++ [tick 5000]) ∧ (∃ b ∈ fullWindow, b.symbol = "AAPL" ∧ 4800 + 300 ≤ b.ts) ∧
      (∃ B ∈ s.stored "AAPL", B.ts = 4800 ∧ B.openPrice = 1060) ∧
        ∃ B ∈ (s.onBar {} (tick 5000)).stored "AAPL", B.ts = 4800 ∧ B.openPrice = 1101 := by
  intro s
  have hconcat : fullWindow ++ [tick 5000] = ticks 0 5001 := ticks_concat 0 5000
  have hsymbol : ∀ bar ∈ fullWindow, bar.symbol = "AAPL" := by
    intro bar hbar
    obtain ⟨n, -, rfl⟩ := List.mem_map.mp hbar
    rfl
  have hlength : fullWindow.length = 5000 := by rw [fullWindow, ticks, List.length_map, List.length_range']
  have hraw : s.raw "AAPL" = fullWindow := raw_run hsymbol (by rw [hlength]; decide)
  have hnext : (s.onBar {} (tick 5000)).raw "AAPL" = ticks 1001 4000 := by
    have hwindow : (s.onBar {} (tick 5000)).raw "AAPL" = trim (s.raw "AAPL" ++ [tick 5000]) := raw_onBar_self
    rw [hwindow, trim, hraw, List.length_append, hlength, List.length_singleton, if_pos (by decide), hconcat]
    exact rtake_ticks 0 1001 4000
  have hnewer := @each_newer_of_fresh {} {} _ rfl (hconcat ▸ stream_ticks 0 5001)
  have hcovered : s.Covered {} := covered_run (covered_of_fresh rfl) (Trace.each_append.mp hnewer).1
  have hcoveredNext : (s.onBar {} (tick 5000)).Covered {} :=
    covered_onBar hcovered (Trace.each_append.mp hnewer).2.1
  refine ⟨hconcat ▸ stream_ticks 0 5001, ⟨tick 4999, ?_, rfl, ?_⟩, ?_, ?_⟩
  · exact List.mem_map_of_mem (List.mem_range'_1.mpr (by decide))
  · norm_num [tick, risingBar]
  · obtain ⟨B, hB, hts, hopening⟩ := @exists_opening 0 5000 960 (by decide +kernel)
    refine ⟨B, (hcovered "AAPL").mem_stored ?_ ?_, hts, by rw [hopening]; norm_num⟩
    · rw [hraw]
      exact hB
    · rw [hraw]
      exact (List.length_filter_le _ _).trans_lt ((length_aggregate_ticks (by decide)).trans_lt (by decide))
  · obtain ⟨B, hB, hts, hopening⟩ := @exists_opening 1001 4000 1001 (by decide +kernel)
    refine ⟨B, (hcoveredNext "AAPL").mem_stored ?_ ?_, hts, by rw [hopening]; norm_num⟩
    · rw [hnext]
      exact hB
    · rw [hnext]
      exact (List.length_filter_le _ _).trans_lt ((length_aggregate_ticks (by decide)).trans_lt (by decide))

end MarketBars

end AiTrader
