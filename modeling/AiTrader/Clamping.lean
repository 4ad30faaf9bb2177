import AiTrader.Config
import Mathlib.Data.List.TakeWhile

/-!
# What clamping changes, and what it says

A configuration that is accepted comes out at most as loose as it went in, still ordered, and with one
warning for each capped field. The floor on the risk is the exception: it is lowered with the cap above it,
and no warning names it.

Which fields clamping changes is computed from one table of ceilings (`ceilings`), with its warning from the same row;
so the two agree field by field (`map_clampWarnings`). The floor is clamped by its cap, outside the table. A
configuration comes out without a silent change exactly if its floor was not above the lowered cap
(`tightenedLoudly_iff`).
-/

namespace AiTrader

/-- The value of a field, whatever its type. -/
inductive FieldValue
  | number (value : ℚ)
  | flag (value : Bool)
  | action (value : KillSwitchAction)
  deriving DecidableEq

/-- The field that a warning names: its text up to the first `=`. -/
def mentionedField (warning : String) : String :=
  String.ofList (warning.toList.takeWhile (· ≠ '='))

theorem mentionedField_append {name rest : String} (h : '=' ∉ name.toList) :
    mentionedField (name ++ "=" ++ rest) = name := by
  have htext : (name ++ "=" ++ rest).toList = name.toList ++ '=' :: rest.toList := by
    simp [String.toList_append]
  have hname : ∀ c ∈ name.toList, decide (c ≠ '=') = true := by
    intro c hc
    refine decide_eq_true ?_
    rintro rfl
    exact h hc
  rw [mentionedField, htext, List.takeWhile_append_of_pos hname]
  simp

namespace HardLimits

theorem map_clampWarning {name : String} (h : '=' ∉ name.toList) (value ceiling : ℚ) :
    (clampWarning value ceiling name).map mentionedField = if ceiling < value then [name] else [] := by
  unfold clampWarning
  split_ifs
  · simp only [List.map_cons, List.map_nil, String.append_assoc]
    rw [← String.append_assoc, mentionedField_append h]
  · rfl

theorem map_clampIntWarning {name : String} (h : '=' ∉ name.toList) (value ceiling : ℤ) :
    (clampIntWarning value ceiling name).map mentionedField = if ceiling < value then [name] else [] := by
  unfold clampIntWarning
  split_ifs
  · simp only [List.map_cons, List.map_nil, String.append_assoc]
    rw [← String.append_assoc, mentionedField_append h]
  · rfl

end HardLimits

namespace RiskConfig

/-- The fields under their names in the file. -/
def fields : List (String × (RiskConfig → FieldValue)) :=
  [("max_risk_per_trade_pct", fun c => .number c.maxRiskPerTradePct),
    ("min_risk_per_trade_pct", fun c => .number c.minRiskPerTradePct),
    ("max_position_notional_pct", fun c => .number c.maxPositionNotionalPct),
    ("max_concurrent_positions", fun c => .number c.maxConcurrentPositions),
    ("max_new_entries_per_cycle", fun c => .number c.maxNewEntriesPerCycle),
    ("daily_loss_limit_pct", fun c => .number c.dailyLossLimitPct),
    ("max_trades_per_day", fun c => .number c.maxTradesPerDay),
    ("price_collar_pct", fun c => .number c.priceCollarPct),
    ("max_spread_pct", fun c => .number c.maxSpreadPct),
    ("min_avg_volume", fun c => .number c.minAvgVolume),
    ("min_price", fun c => .number c.minPrice),
    ("max_price", fun c => .number c.maxPrice),
    ("max_quote_age_seconds", fun c => .number c.maxQuoteAgeSeconds),
    ("max_account_age_seconds", fun c => .number c.maxAccountAgeSeconds),
    ("buying_power_reserve_pct", fun c => .number c.buyingPowerReservePct),
    ("symbol_cooldown_seconds", fun c => .number c.symbolCooldownSeconds),
    ("flip_flop_guard_seconds", fun c => .number c.flipFlopGuardSeconds),
    ("no_entry_minutes_before_close", fun c => .number c.noEntryMinutesBeforeClose),
    ("flatten_minutes_before_close", fun c => .number c.flattenMinutesBeforeClose),
    ("max_orders_per_minute", fun c => .number c.maxOrdersPerMinute),
    ("max_decision_age_seconds", fun c => .number c.maxDecisionAgeSeconds),
    ("allow_shorts", fun c => .flag c.allowShorts),
    ("require_risk_officer", fun c => .flag c.requireRiskOfficer),
    ("kill_switch_action", fun c => .action c.killSwitchAction)]

/-- A field with a hard ceiling. -/
structure Ceiling where
  name : String
  value : RiskConfig → ℚ
  ceiling : ℚ

open HardLimits in
/-- The fields with a hard ceiling, in the order in which they are clamped. -/
def ceilings : List Ceiling :=
  [⟨"max_risk_per_trade_pct", fun c => c.maxRiskPerTradePct, absMaxRiskPerTradePct⟩,
    ⟨"max_position_notional_pct", fun c => c.maxPositionNotionalPct, absMaxPositionNotionalPct⟩,
    ⟨"max_concurrent_positions", fun c => c.maxConcurrentPositions, absMaxConcurrentPositions⟩,
    ⟨"max_new_entries_per_cycle", fun c => c.maxNewEntriesPerCycle, absMaxNewEntriesPerCycle⟩,
    ⟨"daily_loss_limit_pct", fun c => c.dailyLossLimitPct, absMaxDailyLossPct⟩,
    ⟨"max_trades_per_day", fun c => c.maxTradesPerDay, absMaxTradesPerDay⟩,
    ⟨"max_orders_per_minute", fun c => c.maxOrdersPerMinute, absMaxOrdersPerMinute⟩,
    ⟨"price_collar_pct", fun c => c.priceCollarPct, absMaxPriceCollarPct⟩,
    ⟨"max_spread_pct", fun c => c.maxSpreadPct, absMaxSpreadPct⟩,
    ⟨"max_quote_age_seconds", fun c => c.maxQuoteAgeSeconds, absMaxQuoteAgeSeconds⟩,
    ⟨"max_account_age_seconds", fun c => c.maxAccountAgeSeconds, absMaxAccountAgeSeconds⟩,
    ⟨"max_decision_age_seconds", fun c => c.maxDecisionAgeSeconds, absMaxDecisionAgeSeconds⟩]

/-- The names of the fields whose value is not the one given. -/
def changedFields (given result : RiskConfig) : List String :=
  (fields.filter fun f => f.2 given ≠ f.2 result).map Prod.fst

/-- The result keeps to the ceilings and is no looser than what was given. -/
def Tightened (given result : RiskConfig) : Prop :=
  ∀ f ∈ ceilings, f.value result ≤ f.ceiling ∧ f.value result ≤ f.value given

/-- The warnings name the changed fields and no others. -/
def Reported (given result : RiskConfig) (warnings : List String) : Prop :=
  ∀ name, name ∈ warnings.map mentionedField ↔ name ∈ changedFields given result

/-- The configuration is tightened, stays ordered, and every change is reported. -/
structure TightenedLoudly (given result : RiskConfig) (warnings : List String) : Prop where
  tightened : Tightened given result
  ordered : result.checkOrdering = none
  reported : Reported given result warnings

theorem tightened_clampToHardLimits (c : RiskConfig) : Tightened c c.clampToHardLimits := by
  have hmin : ∀ value ceiling : ℚ, HardLimits.clamp value ceiling ≤ ceiling ∧
      HardLimits.clamp value ceiling ≤ value := by
    intro value ceiling
    rw [HardLimits.clamp_eq_min]
    exact ⟨min_le_right _ _, min_le_left _ _⟩
  have hminInt : ∀ value ceiling : ℤ, ((HardLimits.clamp value ceiling : ℤ) : ℚ) ≤ ceiling ∧
      ((HardLimits.clamp value ceiling : ℤ) : ℚ) ≤ value := by
    intro value ceiling
    rw [HardLimits.clamp_eq_min]
    exact ⟨by exact_mod_cast min_le_right _ _, by exact_mod_cast min_le_left _ _⟩
  unfold Tightened ceilings
  simp only [List.forall_mem_cons, List.not_mem_nil, false_implies, implies_true, and_true]
  exact ⟨hmin _ _, hmin _ _, hminInt _ _, hminInt _ _, hmin _ _, hminInt _ _, hminInt _ _, hmin _ _,
    hmin _ _, hmin _ _, hmin _ _, hmin _ _⟩

theorem checkOrdering_clampToHardLimits {c : RiskConfig} (h : c.checkOrdering = none) :
    c.clampToHardLimits.checkOrdering = none := by
  unfold checkOrdering at h
  split_ifs at h with hrisk hcutoff hband
  have hfloor : c.clampToHardLimits.minRiskPerTradePct ≤ c.clampToHardLimits.maxRiskPerTradePct :=
    min_le_right _ _
  unfold checkOrdering
  rw [if_neg (not_lt.mpr hfloor)]
  exact (if_neg hcutoff).trans (if_neg hband)

theorem map_clampWarnings (c : RiskConfig) : c.clampWarnings.map mentionedField =
    ceilings.flatMap fun f => if f.ceiling < f.value c then [f.name] else [] := by
  unfold clampWarnings ceilings
  simp only [List.map_append, List.flatMap_cons, List.flatMap_nil, List.append_nil, Int.cast_lt,
    List.append_assoc]
  rw [HardLimits.map_clampWarning (by decide), HardLimits.map_clampWarning (by decide),
    HardLimits.map_clampIntWarning (by decide), HardLimits.map_clampIntWarning (by decide),
    HardLimits.map_clampWarning (by decide), HardLimits.map_clampIntWarning (by decide),
    HardLimits.map_clampIntWarning (by decide), HardLimits.map_clampWarning (by decide),
    HardLimits.map_clampWarning (by decide), HardLimits.map_clampWarning (by decide),
    HardLimits.map_clampWarning (by decide), HardLimits.map_clampWarning (by decide)]

theorem mem_map_clampWarnings {c : RiskConfig} {name : String} :
    name ∈ c.clampWarnings.map mentionedField ↔ ∃ f ∈ ceilings, f.ceiling < f.value c ∧ f.name = name := by
  rw [map_clampWarnings, List.mem_flatMap]
  refine exists_congr fun f => and_congr_right fun _ => ?_
  split_ifs with h
  · simp [h, eq_comm]
  · simp [h]

theorem mem_changedFields {given result : RiskConfig} {name : String} :
    name ∈ changedFields given result ↔ ∃ f ∈ fields, f.2 given ≠ f.2 result ∧ f.1 = name := by
  simp [changedFields, and_assoc]

theorem number_ne_clamp {value ceiling : ℚ} :
    FieldValue.number value ≠ .number (HardLimits.clamp value ceiling) ↔ ceiling < value := by
  rw [HardLimits.clamp_eq_min, Ne, FieldValue.number.injEq, eq_comm, min_eq_left_iff, not_le]

theorem number_ne_clampInt {value ceiling : ℤ} :
    FieldValue.number value ≠ .number (HardLimits.clamp value ceiling : ℤ) ↔ ceiling < value := by
  rw [HardLimits.clamp_eq_min, Ne, FieldValue.number.injEq, Int.cast_inj, eq_comm, min_eq_left_iff,
    not_le]

theorem number_ne_floor {c : RiskConfig} (h : c.minRiskPerTradePct ≤ c.maxRiskPerTradePct) :
    FieldValue.number c.minRiskPerTradePct ≠ .number c.clampToHardLimits.minRiskPerTradePct ↔
      HardLimits.absMaxRiskPerTradePct < c.minRiskPerTradePct := by
  have hfloor : c.clampToHardLimits.minRiskPerTradePct =
      min c.minRiskPerTradePct (HardLimits.clamp c.maxRiskPerTradePct HardLimits.absMaxRiskPerTradePct) := rfl
  rw [hfloor, HardLimits.clamp_eq_min, ← min_assoc, min_eq_left h, Ne, FieldValue.number.injEq, eq_comm,
    min_eq_left_iff, not_le]

theorem mem_changedFields_clamp {c : RiskConfig} (h : c.minRiskPerTradePct ≤ c.maxRiskPerTradePct)
    {name : String} : name ∈ changedFields c c.clampToHardLimits ↔
      name ∈ c.clampWarnings.map mentionedField ∨
        (HardLimits.absMaxRiskPerTradePct < c.minRiskPerTradePct ∧ "min_risk_per_trade_pct" = name) := by
  rw [mem_changedFields, mem_map_clampWarnings]
  simp only [fields, ceilings, List.mem_cons, exists_eq_or_imp, exists_eq_left, List.not_mem_nil, or_false,
    number_ne_floor h]
  simp only [clampToHardLimits, number_ne_clamp, number_ne_clampInt, ne_eq, not_true_eq_false, false_and,
    false_or, or_false, Int.cast_lt]
  exact Iff.of_eq (by ac_rfl)

theorem floor_not_mentioned (c : RiskConfig) :
    "min_risk_per_trade_pct" ∉ c.clampWarnings.map mentionedField := by
  rw [mem_map_clampWarnings]
  rintro ⟨f, hf, -, hname⟩
  have hnames : ∀ f ∈ ceilings, f.name ≠ "min_risk_per_trade_pct" := by
    simp only [ceilings, List.forall_mem_cons, List.not_mem_nil, false_implies, implies_true, and_true]
    decide
  exact hnames f hf hname

theorem warnings_of_validate {c : RiskConfig} {out : RiskConfig × List String} (h : c.validate = .ok out) :
    out.2 = c.clampWarnings := by
  unfold validate at h
  split at h
  · split at h
    · cases h
    · cases h
      rfl
  · cases h

theorem minRisk_le_of_checkOrdering {c : RiskConfig} (h : c.checkOrdering = none) :
    c.minRiskPerTradePct ≤ c.maxRiskPerTradePct := by
  unfold checkOrdering at h
  split_ifs at h with hrisk
  exact not_lt.mp hrisk

/-- **Clamping tightens, keeps the order and reports each change exactly when the floor on the risk lies
within the ceiling of the cap.** A floor above it is lowered without a warning. -/
theorem tightenedLoudly_iff {c : RiskConfig} {out : RiskConfig × List String} (h : c.validate = .ok out) :
    TightenedLoudly c out.1 out.2 ↔ c.minRiskPerTradePct ≤ HardLimits.absMaxRiskPerTradePct := by
  obtain ⟨-, hordering, hout⟩ := validate_eq_ok h
  have hrisk := minRisk_le_of_checkOrdering hordering
  rw [hout, warnings_of_validate h]
  constructor
  · intro hloud
    by_contra hfloor
    have hchanged : "min_risk_per_trade_pct" ∈ changedFields c c.clampToHardLimits :=
      (mem_changedFields_clamp hrisk).mpr (.inr ⟨not_le.mp hfloor, rfl⟩)
    exact floor_not_mentioned c ((hloud.reported _).mpr hchanged)
  · intro hfloor
    refine ⟨tightened_clampToHardLimits c, checkOrdering_clampToHardLimits hordering, fun name => ?_⟩
    rw [mem_changedFields_clamp hrisk]
    constructor
    · exact .inl
    · rintro (hname | ⟨hlow, -⟩)
      · exact hname
      · exact absurd hfloor (not_le.mpr hlow)

/-- A floor of three percent under a cap of five: both come down to two, and one warning is left. -/
def highFloor : RiskConfig := { maxRiskPerTradePct := 5 / 100, minRiskPerTradePct := 3 / 100 }

theorem highFloor_lowered_silently :
    ∃ out, highFloor.validate = .ok out ∧ ¬ TightenedLoudly highFloor out.1 out.2 := by
  refine ⟨(highFloor.clampToHardLimits, highFloor.clampWarnings), by decide +kernel, fun hloud => ?_⟩
  have hchanged : "min_risk_per_trade_pct" ∈ changedFields highFloor highFloor.clampToHardLimits := by
    decide +kernel
  exact floor_not_mentioned highFloor ((hloud.reported _).mpr hchanged)

/-- A cap of five percent alone is lowered with its warning. -/
theorem tightenedLoudly_highCap :
    ∃ out, ({ maxRiskPerTradePct := 5 / 100 } : RiskConfig).validate = .ok out ∧
      out.1.maxRiskPerTradePct = 2 / 100 ∧ TightenedLoudly { maxRiskPerTradePct := 5 / 100 } out.1 out.2 := by
  have h : ({ maxRiskPerTradePct := 5 / 100 } : RiskConfig).validate =
      .ok (({ maxRiskPerTradePct := 5 / 100 } : RiskConfig).clampToHardLimits,
        ({ maxRiskPerTradePct := 5 / 100 } : RiskConfig).clampWarnings) := by
    decide +kernel
  exact ⟨_, h, by decide +kernel, (tightenedLoudly_iff h).mpr (by decide +kernel)⟩

end RiskConfig

end AiTrader
