import AiTrader.Risk.Gate

/-!
# The prices of a bracket

`size_proposal` rounds the entry to a cent, and the stop and the target, each from the rounded entry, to a cent
of their own. Each is off by half a cent at most, so the reward misses its multiple of the risk by no more than
a half cent for itself and a half cent for each multiple of the risk (`bracket_geometry`).

Nothing keeps the far side of the bracket above zero: the stop of a BUY and the target of a SELL are positive
only where their distance leaves more than half a cent of the entry (`placeable_iff`). The gate compares the
entry with its band and never looks at the other two prices.
-/

namespace AiTrader

open Lib

/-! ### Whole cents -/

def IsCents (price : ℚ) : Prop := ∃ cents : ℤ, price = cents / 100

theorem isCents_roundToTick (price : ℚ) : IsCents (roundToTick price) := ⟨_, roundToTick_eq price⟩

theorem IsCents.add_le_of_lt {a b : ℚ} (ha : IsCents a) (hb : IsCents b) (hlt : a < b) : a + 1 / 100 ≤ b := by
  obtain ⟨m, rfl⟩ := ha
  obtain ⟨n, rfl⟩ := hb
  have hcents : (m : ℚ) < n := (div_lt_div_iff_of_pos_right (by norm_num)).mp hlt
  have hcent : m + 1 ≤ n := by exact_mod_cast hcents
  have hcent' : (m : ℚ) + 1 ≤ n := by exact_mod_cast hcent
  linarith

theorem roundToTick_pos_iff {price : ℚ} : 0 < roundToTick price ↔ 1 / 200 < price := by
  rw [roundToTick_eq, div_pos_iff_of_pos_right (by norm_num), Int.cast_pos, Decimal.roundHalfEven_pos_iff]
  constructor <;> intro h <;> linarith

theorem computeStopDistance_pos (proposal : TradeProposal) (features : FeaturePack) :
    0 < computeStopDistance proposal features := by
  have hfloor : (1 / 100 : ℚ) ≤ computeStopDistance proposal features := le_max_right _ _
  linarith

/-! ### The geometry -/

/-- Stop and target lie on their sides of the entry, the prices are whole cents, and the reward is the
multiple of the risk up to what the rounding of the two can add up to. -/
structure Geometry (order : SizedOrder) (targetR : ℚ) : Prop where
  action : order.action = .buy ∨ order.action = .sell
  long : order.action = .buy → order.stopPrice < order.entryPrice ∧ order.entryPrice < order.targetPrice
  short : order.action = .sell → order.targetPrice < order.entryPrice ∧ order.entryPrice < order.stopPrice
  cents : IsCents order.entryPrice ∧ IsCents order.stopPrice ∧ IsCents order.targetPrice
  reward : |(|order.targetPrice - order.entryPrice| - targetR * |order.entryPrice - order.stopPrice|)| ≤
    (1 + targetR) / 2 / 100

theorem abs_reward_sub_le {reward risk distance targetR : ℚ} (hdistance : 0 < distance)
    (hreward : |reward - distance * targetR| ≤ 1 / 200) (hrisk : |risk - distance| ≤ 1 / 200)
    (hcent : 1 / 100 ≤ reward) : |reward - targetR * risk| ≤ (1 + targetR) / 2 / 100 := by
  have hpositive : 0 < targetR := by
    have hnear := (abs_le.mp hreward).2
    have hproduct : 0 < distance * targetR := by linarith
    exact (pos_iff_pos_of_mul_pos hproduct).mp hdistance
  have hsplit : reward - targetR * risk = (reward - distance * targetR) - targetR * (risk - distance) := by ring
  calc |reward - targetR * risk|
      ≤ |reward - distance * targetR| + |targetR * (risk - distance)| := by
        rw [hsplit]
        exact abs_sub _ _
    _ = |reward - distance * targetR| + targetR * |risk - distance| := by rw [abs_mul, abs_of_pos hpositive]
    _ ≤ 1 / 200 + targetR * (1 / 200) := add_le_add hreward (mul_le_mul_of_nonneg_left hrisk hpositive.le)
    _ = (1 + targetR) / 2 / 100 := by ring

section

variable {proposal : TradeProposal} {features : FeaturePack} {account : AccountSnapshot}
  {quote : Option Quote} {cfg : RiskConfig} {limitOffsetPct : ℚ} {order : SizedOrder}

/-- **Bracket geometry**: in every order that `size_proposal` returns. -/
theorem bracket_geometry (h : sizeProposal proposal features account quote cfg limitOffsetPct = some order) :
    Geometry order proposal.targetRMultiple := by
  obtain ⟨isLong, p, shares, hlong, hp, -, haction, -, -, hvalid, -, -, rfl⟩ := sizeProposal_eq_some h
  have hdistance := computeStopDistance_pos proposal features
  have hentry : IsCents p.entry := hp ▸ isCents_roundToTick _
  have hstop : IsCents p.stop := hp ▸ isCents_roundToTick _
  have htarget : IsCents p.target := hp ▸ isCents_roundToTick _
  cases isLong with
  | true =>
    have hbuy : proposal.action = .buy := of_decide_eq_true hlong.symm
    obtain ⟨hbelow, habove⟩ : p.stop < p.entry ∧ p.entry < p.target := of_decide_eq_true hvalid
    have hstopNear : |p.stop - (p.entry - computeStopDistance proposal features)| ≤ 1 / 200 := by
      rw [hp]
      exact abs_roundToTick_sub_le _
    have htargetNear :
        |p.target - (p.entry + computeStopDistance proposal features * proposal.targetRMultiple)| ≤ 1 / 200 := by
      rw [hp]
      exact abs_roundToTick_sub_le _
    refine ⟨haction, fun _ => ⟨hbelow, habove⟩, fun hsell => ?_, ⟨hentry, hstop, htarget⟩, ?_⟩
    · have hsell : proposal.action = .sell := hsell
      rw [hbuy] at hsell
      cases hsell
    · show |(|p.target - p.entry| - proposal.targetRMultiple * |p.entry - p.stop|)| ≤ _
      rw [abs_of_pos (sub_pos.mpr habove), abs_of_pos (sub_pos.mpr hbelow)]
      refine abs_reward_sub_le hdistance ?_ ?_ (by linarith [hentry.add_le_of_lt htarget habove])
      · rwa [sub_sub]
      · rw [abs_sub_comm] at hstopNear
        rwa [show p.entry - p.stop - computeStopDistance proposal features =
          p.entry - computeStopDistance proposal features - p.stop by ring]
  | false =>
    have hnotBuy : proposal.action ≠ .buy := of_decide_eq_false hlong.symm
    obtain ⟨hbelow, habove⟩ : p.target < p.entry ∧ p.entry < p.stop := of_decide_eq_true hvalid
    have hstopNear : |p.stop - (p.entry + computeStopDistance proposal features)| ≤ 1 / 200 := by
      rw [hp]
      exact abs_roundToTick_sub_le _
    have htargetNear :
        |p.target - (p.entry - computeStopDistance proposal features * proposal.targetRMultiple)| ≤ 1 / 200 := by
      rw [hp]
      exact abs_roundToTick_sub_le _
    refine ⟨haction, fun hbuy => absurd hbuy hnotBuy, fun _ => ⟨hbelow, habove⟩, ⟨hentry, hstop, htarget⟩, ?_⟩
    show |(|p.target - p.entry| - proposal.targetRMultiple * |p.entry - p.stop|)| ≤ _
    rw [abs_sub_comm p.target, abs_sub_comm p.entry p.stop, abs_of_pos (sub_pos.mpr hbelow),
      abs_of_pos (sub_pos.mpr habove)]
    refine abs_reward_sub_le hdistance ?_ ?_ (by linarith [htarget.add_le_of_lt hentry hbelow])
    · rw [abs_sub_comm] at htargetNear
      rwa [show p.entry - p.target - computeStopDistance proposal features * proposal.targetRMultiple =
        p.entry - computeStopDistance proposal features * proposal.targetRMultiple - p.target by ring]
    · rwa [sub_sub]

/-! ### The far side -/

/-- Every price of the order can be placed. -/
def Placeable (order : SizedOrder) : Prop := 0 < order.entryPrice ∧ 0 < order.stopPrice ∧ 0 < order.targetPrice

instance (order : SizedOrder) : Decidable (Placeable order) := inferInstanceAs (Decidable (_ ∧ _ ∧ _))

/-- The price of a BUY's stop, of a SELL's target, lies below the entry by its distance; what that leaves of
the entry is more than half a cent. -/
def ClearsZero (proposal : TradeProposal) (features : FeaturePack) (quote : Option Quote)
    (limitOffsetPct : ℚ) : Prop :=
  let price := Sizing.basePrice features quote
  let stopDistance := computeStopDistance proposal features
  if proposal.action = .buy then 1 / 200 < roundToTick (price + price * limitOffsetPct) - stopDistance
  else 1 / 200 < roundToTick (price - price * limitOffsetPct) - stopDistance * proposal.targetRMultiple

instance (proposal : TradeProposal) (features : FeaturePack) (quote : Option Quote) (limitOffsetPct : ℚ) :
    Decidable (ClearsZero proposal features quote limitOffsetPct) := by
  unfold ClearsZero
  infer_instance

theorem entryPrice_pos_of_sized
    (h : sizeProposal proposal features account quote cfg limitOffsetPct = some order) : 0 < order.entryPrice := by
  obtain ⟨isLong, p, shares, -, -, hshares, -, -, -, -, -, hone, rfl⟩ := sizeProposal_eq_some h
  obtain ⟨-, hnotional, -⟩ := @Sizing.shares_le
    (Sizing.riskBudget proposal.conviction account.equity cfg) |p.entry - p.stop| p.entry features account cfg
  rw [← hshares] at hnotional
  by_contra hentry
  have hentry : ¬ 0 < p.entry := hentry
  rw [Sizing.affordable, if_neg hentry] at hnotional
  exact absurd (hone.trans hnotional) (by decide)

theorem placeable_iff_clearsZero
    (h : sizeProposal proposal features account quote cfg limitOffsetPct = some order) :
    Placeable order ↔ ClearsZero proposal features quote limitOffsetPct := by
  have hentry := entryPrice_pos_of_sized h
  obtain ⟨isLong, p, shares, hlong, hp, -, -, -, -, hvalid, -, -, rfl⟩ := sizeProposal_eq_some h
  cases isLong with
  | true =>
    have hbuy : proposal.action = .buy := of_decide_eq_true hlong.symm
    have hstop : 0 < p.stop ↔ ClearsZero proposal features quote limitOffsetPct := by
      rw [ClearsZero, if_pos hbuy, hp]
      exact roundToTick_pos_iff
    obtain ⟨-, habove⟩ : p.stop < p.entry ∧ p.entry < p.target := of_decide_eq_true hvalid
    have htarget : 0 < p.target := hentry.trans habove
    exact ⟨fun hall => hstop.mp hall.2.1, fun hclears => ⟨hentry, hstop.mpr hclears, htarget⟩⟩
  | false =>
    have hnotBuy : proposal.action ≠ .buy := of_decide_eq_false hlong.symm
    have htarget : 0 < p.target ↔ ClearsZero proposal features quote limitOffsetPct := by
      rw [ClearsZero, if_neg hnotBuy, hp]
      exact roundToTick_pos_iff
    obtain ⟨-, habove⟩ : p.target < p.entry ∧ p.entry < p.stop := of_decide_eq_true hvalid
    have hstop : 0 < p.stop := hentry.trans habove
    exact ⟨fun hall => htarget.mp hall.2.2, fun hclears => ⟨hentry, hstop, htarget.mpr hclears⟩⟩

/-- **When what is approved can be placed.** For every order that `size_proposal` returns, every gate and every
context: if the gate approves it, its three prices are positive precisely when the far side of its bracket
leaves more than half a cent of the entry. -/
theorem placeable_iff (h : sizeProposal proposal features account quote cfg limitOffsetPct = some order)
    (e : RiskEngine) (ctx : RiskContext) (now : Now) :
    ((e.evaluate order ctx now).1.approved = true → Placeable order) ↔
      ((e.evaluate order ctx now).1.approved = true → ClearsZero proposal features quote limitOffsetPct) :=
  imp_congr_right fun _ => placeable_iff_clearsZero h

end

/-! #### A calm symbol and a wild one -/

theorem bracket_geometry_breakout : Geometry
    (Sizing.sizedOrder breakoutProposal { entry := 1001 / 10, stop := 986 / 10, target := 1031 / 10 } 99) 2 :=
  bracket_geometry
    (show sizeProposal breakoutProposal breakoutFeatures breakoutAccount none {} = _ by decide +kernel)

theorem placeable_breakout : Placeable
    (Sizing.sizedOrder breakoutProposal { entry := 1001 / 10, stop := 986 / 10, target := 1031 / 10 } 99) :=
  (placeable_iff (show sizeProposal breakoutProposal breakoutFeatures breakoutAccount none {} = _ by decide +kernel)
    { cfg := {}, killSwitch := {} } (openMarket Dict.empty) RiskEngine.quietNow).mpr (fun _ => by decide +kernel)
    (by decide +kernel)

/-- A stop five ATRs away, on a symbol of four dollars that moves one dollar. -/
def wideProposal : TradeProposal := { breakoutProposal with stopAtrMultiple := 5 }

def wildFeatures : FeaturePack := { breakoutFeatures with price := 4 }

def wildMarket : RiskContext :=
  { openMarket Dict.empty with quote := some { symbol := "AAPL", last := some 4, updatedAt := 0 } }

/-- Ninety shares are approved at four dollars with a stop at minus one. -/
theorem not_placeable_wild :
    ¬ ∀ (proposal : TradeProposal) (features : FeaturePack) (account : AccountSnapshot) (quote : Option Quote)
      (cfg : RiskConfig) (limitOffsetPct : ℚ) (order : SizedOrder) (e : RiskEngine) (ctx : RiskContext) (now : Now),
      1 / 2 ≤ proposal.stopAtrMultiple → proposal.stopAtrMultiple ≤ 5 →
      1 / 2 ≤ proposal.targetRMultiple → proposal.targetRMultiple ≤ 10 →
      sizeProposal proposal features account quote cfg limitOffsetPct = some order →
      e.cfg = cfg → (e.evaluate order ctx now).1.approved = true → Placeable order := by
  intro h
  have hplaceable := h wideProposal wildFeatures breakoutAccount wildMarket.quote {} (1 / 1000)
    (Sizing.sizedOrder wideProposal { entry := 4, stop := -1, target := 14 } 90) { cfg := {}, killSwitch := {} }
    wildMarket RiskEngine.quietNow (by decide +kernel) (by decide +kernel) (by decide +kernel) (by decide +kernel)
    (by decide +kernel) rfl (by decide +kernel)
  exact absurd hplaceable (by decide +kernel)

end AiTrader
