import AiTrader.Data.RateLimit
import Mathlib.Tactic.Linarith
import Mathlib.Tactic.Ring
import Mathlib.Algebra.BigOperators.Group.List.Basic
import Mathlib.Tactic.NormNum

/-!
# The rate of messages to the broker

The broker closes the socket above fifty messages a second. The adapter's bucket holds a second's worth of
tokens and mints as many in the next second, so that within one second it lets through twice its rate; and
a request larger than the bucket pays for a bucket only. A potential argument shows that nothing worse
happens: the tokens in the bucket and those spent since `t` are at most one bucket and what was minted
since `t` (`BucketInv.potential`). So the limit is kept in every run precisely when neither the rate nor a
request is above twenty-five (`message_rate_iff`).

What was sent is bounded by what was spent: a request that is larger than the bucket spends a bucket only, and counts
at most so many messages for each token (`messages_le`). For the other direction three runs break the limit: two waves
of single messages a second apart when the rate is above twenty-five, two large requests a second apart when a request
is, and any burst when the bucket has no size.
-/

namespace AiTrader

open Lib

/-- The bucket that `IbAsyncBroker.__init__` builds. -/
def messageBucket (messagesPerSecond : ℤ) (now : ℚ) : TokenBucket :=
  TokenBucket.new messagesPerSecond (some messagesPerSecond) now

/-- The messages granted from `a` to `b`, both included. -/
def sent (a b : ℚ) (grants : List (ℚ × ℕ)) : ℕ :=
  ((grants.filter fun g => a ≤ g.1 ∧ g.1 ≤ b).map fun g => g.2).sum

/-- No second holds more than fifty messages. -/
def UnderSocketLimit (grants : List (ℚ × ℕ)) : Prop := ∀ t, sent t (t + 1) grants ≤ 50

/-- The tokens spent from `t` on. -/
def spent (capacity t : ℚ) (grants : List (ℚ × ℕ)) : ℚ :=
  ((grants.filter fun g => t ≤ g.1).map fun g => min (g.2 : ℚ) capacity).sum

theorem sent_append (a b : ℚ) (first second : List (ℚ × ℕ)) :
    sent a b (first ++ second) = sent a b first + sent a b second := by
  simp [sent, List.filter_append]

theorem spent_append (capacity t : ℚ) (first second : List (ℚ × ℕ)) :
    spent capacity t (first ++ second) = spent capacity t first + spent capacity t second := by
  simp [spent, List.filter_append]

theorem sent_replicate {a b now : ℚ} (ha : a ≤ now) (hb : now ≤ b) (k n : ℕ) :
    sent a b (List.replicate k (now, n)) = k * n := by
  simp [sent, ha, hb]

theorem spent_of_lt {capacity t : ℚ} {grants : List (ℚ × ℕ)} (h : ∀ g ∈ grants, g.1 < t) :
    spent capacity t grants = 0 := by
  have hnone : (grants.filter fun g => decide (t ≤ g.1)) = [] := by
    apply List.filter_eq_nil_iff.mpr
    intro g hmem hin
    exact absurd (of_decide_eq_true hin) (not_le.mpr (h g hmem))
  simp [spent, hnone]

theorem messages_le {capacity : ℚ} (hcapacity : 0 < capacity) {n most : ℕ} (hn : n ≤ most) :
    (n : ℚ) * capacity ≤ max capacity most * min (n : ℚ) capacity := by
  have hmost : (n : ℚ) ≤ most := by exact_mod_cast hn
  rcases le_total (n : ℚ) capacity with hle | hle
  · rw [min_eq_left hle, mul_comm]
    exact mul_le_mul_of_nonneg_right (le_max_left _ _) (Nat.cast_nonneg n)
  · rw [min_eq_right hle]
    exact mul_le_mul_of_nonneg_right (hmost.trans (le_max_right _ _)) hcapacity.le

theorem sent_le_spent {capacity : ℚ} (hcapacity : 0 < capacity) {most : ℕ} (a b : ℚ)
    {grants : List (ℚ × ℕ)} (h : ∀ g ∈ grants, g.2 ≤ most) :
    (sent a b grants : ℚ) * capacity ≤ max capacity most * spent capacity a grants := by
  induction grants with
  | nil => simp [sent, spent]
  | cons g grants ih =>
    have hrest := ih fun g' hmem => h g' (List.mem_cons_of_mem _ hmem)
    have hg := messages_le hcapacity (h g List.mem_cons_self)
    have hmax : 0 ≤ max capacity (most : ℚ) := hcapacity.le.trans (le_max_left _ _)
    have hmin : 0 ≤ min (g.2 : ℚ) capacity := le_min (Nat.cast_nonneg _) hcapacity.le
    by_cases ha : a ≤ g.1
    · have hspent : spent capacity a (g :: grants) = min (g.2 : ℚ) capacity + spent capacity a grants := by
        simp [spent, ha]
      rw [hspent, mul_add]
      by_cases hb : g.1 ≤ b
      · have hsent : sent a b (g :: grants) = g.2 + sent a b grants := by simp [sent, ha, hb]
        rw [hsent, Nat.cast_add, add_mul]
        exact add_le_add hg hrest
      · have hsent : sent a b (g :: grants) = sent a b grants := by simp [sent, hb]
        rw [hsent]
        exact hrest.trans (le_add_of_nonneg_left (mul_nonneg hmax hmin))
    · have hspent : spent capacity a (g :: grants) = spent capacity a grants := by simp [spent, ha]
      have hsent : sent a b (g :: grants) = sent a b grants := by simp [sent, ha]
      rw [hspent, hsent]
      exact hrest

/-! ## The potential of the bucket -/

/-- In no second are more messages granted than the bucket and a second's minting pay for. -/
def WithinMint (capacity rate : ℚ) (most : ℕ) (grants : List (ℚ × ℕ)) : Prop :=
  ∀ t, (sent t (t + 1) grants : ℚ) * capacity ≤ max capacity most * (capacity + rate)

/-- What the bucket keeps, for requests of at most `most` messages. -/
structure BucketInv (rate capacity : ℚ) (most : ℕ) (b : TokenBucket) (clock : ℚ)
    (grants : List (ℚ × ℕ)) : Prop where
  rate_eq : b.rate = rate
  capacity_eq : b.capacity = capacity
  last_le : b.last ≤ clock
  past : ∀ g ∈ grants, g.1 ≤ b.last
  small : ∀ g ∈ grants, g.2 ≤ most
  full : b.tokens ≤ capacity
  potential : ∀ t, b.tokens + spent capacity t grants ≤ capacity + rate * max 0 (b.last - t)
  within : WithinMint capacity rate most grants

namespace BucketInv

variable {rate capacity : ℚ} {most : ℕ} {b : TokenBucket} {clock now : ℚ} {grants : List (ℚ × ℕ)}

theorem refill (hrate : 0 ≤ rate) (h : BucketInv rate capacity most b now grants) :
    BucketInv rate capacity most (b.refill now) now grants ∧ (b.refill now).last = now := by
  unfold TokenBucket.refill
  split_ifs with helapsed
  swap
  · have hlast := h.last_le
    exact ⟨h, by linarith⟩
  have hcapped : min b.capacity (b.tokens + (now - b.last) * b.rate) ≤ capacity :=
    h.capacity_eq ▸ min_le_left _ _
  refine ⟨⟨h.rate_eq, h.capacity_eq, le_rfl, fun g hmem => (h.past g hmem).trans h.last_le, h.small, hcapped,
    fun t => ?_, h.within⟩, rfl⟩
  show min b.capacity (b.tokens + (now - b.last) * b.rate) + spent capacity t grants ≤
    capacity + rate * max 0 (now - t)
  by_cases ht : t ≤ b.last
  · -- minted since the last refill, on top of what was minted before
    have hpotential := h.potential t
    have hminted := min_le_right b.capacity (b.tokens + (now - b.last) * b.rate)
    rw [max_eq_right (sub_nonneg.mpr ht)] at hpotential
    rw [max_eq_right (by linarith), h.rate_eq] at *
    linarith
  · -- nothing has been spent since `t`
    rw [spent_of_lt fun g hmem => (h.past g hmem).trans_lt (not_le.mp ht), add_zero]
    have hmint : 0 ≤ rate * max 0 (now - t) := mul_nonneg hrate (le_max_left _ _)
    linarith

theorem grant (hrate : 0 ≤ rate) (hcapacity : 0 < capacity) (h : BucketInv rate capacity most b now grants)
    (hlast : b.last = now) {n : ℕ} (hn : n ≤ most) (hneed : b.need n ≤ b.tokens) :
    BucketInv rate capacity most { b with tokens := b.tokens - b.need n } now (grants ++ [(now, n)]) := by
  have hneed_eq : b.need n = min (n : ℚ) capacity := by
    unfold TokenBucket.need
    rw [h.capacity_eq]
  have hneed_nonneg : 0 ≤ b.need n := hneed_eq ▸ le_min (Nat.cast_nonneg n) hcapacity.le
  have hsmall : ∀ g ∈ grants ++ [(now, n)], g.2 ≤ most := by
    intro g hmem
    rcases List.mem_append.mp hmem with hmem | hmem
    · exact h.small g hmem
    · obtain rfl := List.mem_singleton.mp hmem
      exact hn
  have hpotential : ∀ t, b.tokens - b.need n + spent capacity t (grants ++ [(now, n)]) ≤
      capacity + rate * max 0 (b.last - t) := by
    intro t
    have hbefore := h.potential t
    have hone : spent capacity t [(now, n)] ≤ b.need n := by
      by_cases ht : t ≤ now
      · simp [spent, ht, hneed_eq]
      · simp [spent, ht, hneed_nonneg]
    rw [spent_append]
    linarith
  refine ⟨h.rate_eq, h.capacity_eq, h.last_le, fun g hmem => ?_, hsmall, ?_, hpotential, fun t => ?_⟩
  · rcases List.mem_append.mp hmem with hmem | hmem
    · exact h.past g hmem
    · obtain rfl := List.mem_singleton.mp hmem
      exact hlast.ge
  · have hfull := h.full
    show b.tokens - b.need n ≤ capacity
    linarith
  · by_cases hin : t ≤ now ∧ now ≤ t + 1
    · have hspent := hpotential t
      have hsent := sent_le_spent hcapacity t (t + 1) hsmall
      have hsecond : max 0 (b.last - t) ≤ 1 := max_le zero_le_one (by linarith [hin.2])
      have hmint : rate * max 0 (b.last - t) ≤ rate := by
        simpa using mul_le_mul_of_nonneg_left hsecond hrate
      have hmax : 0 ≤ max capacity (most : ℚ) := hcapacity.le.trans (le_max_left _ _)
      refine hsent.trans (mul_le_mul_of_nonneg_left ?_ hmax)
      linarith
    · have hnone : sent t (t + 1) [(now, n)] = 0 := by
        rw [sent, List.filter_singleton, decide_eq_false hin]
        rfl
      rw [sent_append, hnone, add_zero]
      exact h.within t

theorem attempt (hrate : 0 ≤ rate) (hcapacity : 0 < capacity)
    (h : BucketInv rate capacity most b now grants) {n : ℕ} (hn : n ≤ most) :
    BucketInv rate capacity most (b.attempt n now).1 now (grants ++ (b.attempt n now).2.entries) := by
  obtain ⟨hrefill, hlast⟩ := h.refill hrate
  unfold TokenBucket.attempt
  dsimp only
  split_ifs with hneed
  · exact hrefill.grant hrate hcapacity hlast hn hneed
  · exact (List.append_nil grants).symm ▸ hrefill

end BucketInv

/-- A request is for one message at least, and for `most` at most. -/
def AsksAtMost (most n : ℕ) : Prop := 1 ≤ n ∧ n ≤ most

theorem messageLimiter_keeps {rate capacity : ℚ} (hrate : 0 ≤ rate) (hcapacity : 0 < capacity) (most : ℕ) :
    messageLimiter.Keeps (BucketInv rate capacity most) (AsksAtMost most) where
  later h htime :=
    ⟨h.rate_eq, h.capacity_eq, h.last_le.trans htime, h.past, h.small, h.full, h.potential, h.within⟩
  attempt hasks h := h.attempt hrate hcapacity hasks.2
  aside h := h

/-! ## Bursts -/

/-- The bucket with its lock free and nobody in the queue. -/
def idle (b : TokenBucket) (clock : ℚ) (grants : List (ℚ × ℕ)) : Turnstile TokenBucket ℕ (ℚ × ℕ) ℚ :=
  { resource := b, clock, grants }

/-- Calls for single messages, all at one moment. -/
def singles (k : ℕ) (now : ℚ) : List (ℚ × Turnstile.Event ℕ Empty) := List.replicate k (now, .called 0 1)

theorem step_called {b : TokenBucket} {clock now : ℚ} {grants : List (ℚ × ℕ)} (task : ℕ) {n : ℕ}
    (htime : clock ≤ now) (hneed : b.need n ≤ (b.refill now).tokens) :
    (idle b clock grants).step messageLimiter (now, .called task n) =
      idle { b.refill now with tokens := (b.refill now).tokens - b.need n } now (grants ++ [(now, n)]) := by
  have hneed_eq : (b.refill now).need n = b.need n := by
    unfold TokenBucket.need TokenBucket.refill
    split_ifs <;> rfl
  have hattempt : b.attempt n now =
      ({ b.refill now with tokens := (b.refill now).tokens - b.need n }, .granted (now, n)) := by
    unfold TokenBucket.attempt
    dsimp only
    rw [hneed_eq, if_pos hneed]
  show (if clock ≤ now then _ else _) = _
  rw [if_pos htime]
  show ({ (idle b clock grants).attempt messageLimiter task n now with clock := now } :
    Turnstile TokenBucket ℕ (ℚ × ℕ) ℚ) = _
  unfold Turnstile.attempt
  show ({ resource := (b.attempt n now).1, clock := now, holder := (b.attempt n now).2.keeps (task, n),
          queue := [], grants := grants ++ (b.attempt n now).2.entries } : Turnstile _ _ _ _) = _
  rw [hattempt]
  rfl

theorem refill_last (b : TokenBucket) : b.refill b.last = b := by
  unfold TokenBucket.refill
  rw [sub_self, if_neg (lt_irrefl _)]

theorem run_burst (k : ℕ) {b : TokenBucket} {grants : List (ℚ × ℕ)}
    (htokens : ∀ j < k, b.need 1 * (j + 1) ≤ b.tokens) :
    Trace.run (Turnstile.step messageLimiter) (idle b b.last grants) (singles k b.last) =
      idle { b with tokens := b.tokens - k * b.need 1 } b.last (grants ++ List.replicate k (b.last, 1)) := by
  induction k generalizing b grants with
  | zero => simp [idle, singles]
  | succ k ih =>
    have hfirst : b.need 1 ≤ b.tokens := by simpa using htokens 0 (Nat.succ_pos k)
    have hstep := @step_called b b.last b.last grants 0 1 le_rfl ((refill_last b).symm ▸ hfirst)
    rw [refill_last] at hstep
    rw [singles, List.replicate_succ, Trace.run_cons, hstep]
    have hrest := @ih { b with tokens := b.tokens - b.need 1 } (grants ++ [(b.last, 1)]) fun j hj => by
      have hnext := htokens (j + 1) (Nat.succ_lt_succ hj)
      show b.need 1 * (j + 1) ≤ b.tokens - b.need 1
      push_cast at hnext
      linarith
    refine hrest.trans ?_
    have htotal : b.tokens - b.need 1 - k * b.need 1 = b.tokens - (k + 1 : ℕ) * b.need 1 := by
      push_cast
      ring
    show idle { b with tokens := b.tokens - b.need 1 - k * b.need 1 } b.last _ = _
    rw [htotal, List.append_assoc, List.replicate_succ]
    rfl

/-! ## The limit -/

/-- The limit in every run that asks for at most `most` messages at a time. -/
def LimitKept (messagesPerSecond : ℤ) (most : ℕ) : Prop :=
  ∀ (clock : ℚ) (events : List (ℚ × Turnstile.Event ℕ Empty)), (∀ e ∈ events, e.2.Asks (AsksAtMost most)) →
    Trace.Always (Turnstile.step messageLimiter) (fun s => UnderSocketLimit s.grants)
      (idle (messageBucket messagesPerSecond clock) clock []) events

theorem messageBucket_rate {messagesPerSecond : ℤ} (hpos : 1 ≤ messagesPerSecond) (now : ℚ) :
    (messageBucket messagesPerSecond now).rate = messagesPerSecond := by
  have hpos' : (1 : ℚ) ≤ messagesPerSecond := by exact_mod_cast hpos
  show max (messagesPerSecond : ℚ) (1 / 1000) = _
  exact max_eq_left (by linarith)

theorem limitKept_of_small {messagesPerSecond : ℤ} {most : ℕ} (hpos : 1 ≤ messagesPerSecond)
    (hrate : messagesPerSecond ≤ 25) (hmost : most ≤ 25) : LimitKept messagesPerSecond most := by
  intro clock events hasks
  have hpos' : (1 : ℚ) ≤ messagesPerSecond := by exact_mod_cast hpos
  have hrate' : (messagesPerSecond : ℚ) ≤ 25 := by exact_mod_cast hrate
  have hmost' : (most : ℚ) ≤ 25 := by exact_mod_cast hmost
  have hcapacity : (0 : ℚ) < messagesPerSecond := by linarith
  have hwithin : WithinMint messagesPerSecond messagesPerSecond most [] := by
    intro t
    have hmax : 0 ≤ max (messagesPerSecond : ℚ) most := hcapacity.le.trans (le_max_left _ _)
    simpa [sent] using mul_nonneg hmax (by linarith : (0 : ℚ) ≤ messagesPerSecond + messagesPerSecond)
  have hpotential : ∀ t : ℚ, (messagesPerSecond : ℚ) + spent messagesPerSecond t [] ≤
      messagesPerSecond + messagesPerSecond * max 0 (clock - t) := by
    intro t
    simpa [spent] using mul_nonneg hcapacity.le (le_max_left 0 (clock - t))
  have hstart : BucketInv messagesPerSecond messagesPerSecond most (messageBucket messagesPerSecond clock)
      clock [] :=
    ⟨messageBucket_rate hpos clock, rfl, le_rfl, fun _ hmem => (nomatch hmem), fun _ hmem => (nomatch hmem),
      le_rfl, hpotential, hwithin⟩
  refine ((messageLimiter_keeps hcapacity.le hcapacity most).always hstart hasks).mono fun s h t => ?_
  -- twice the larger of the rate and the largest request
  have hsent := h.within t
  have hmax : max (messagesPerSecond : ℚ) most ≤ 25 := max_le hrate' hmost'
  have hbound : (sent t (t + 1) s.grants : ℚ) * messagesPerSecond ≤ 50 * messagesPerSecond := by
    have hmul := mul_le_mul_of_nonneg_right hmax (by linarith : (0 : ℚ) ≤ messagesPerSecond + messagesPerSecond)
    linarith
  exact_mod_cast le_of_mul_le_mul_right hbound hcapacity

theorem asks_singles {most : ℕ} (hmost : 1 ≤ most) (k : ℕ) (now : ℚ) :
    ∀ e ∈ singles k now, e.2.Asks (AsksAtMost most) := by
  intro e hmem
  rw [List.eq_of_mem_replicate hmem]
  exact ⟨le_rfl, hmost⟩

theorem not_limitKept_of_nonpos {messagesPerSecond : ℤ} {most : ℕ} (hmost : 1 ≤ most)
    (hrate : messagesPerSecond ≤ 0) : ¬ LimitKept messagesPerSecond most := by
  intro hkept
  obtain ⟨k, hk⟩ : ∃ k, k = 51 := ⟨51, rfl⟩
  have hrate' : (messagesPerSecond : ℚ) ≤ 0 := by exact_mod_cast hrate
  have hneed : (messageBucket messagesPerSecond 0).need 1 = messagesPerSecond := by
    show min ((1 : ℕ) : ℚ) messagesPerSecond = _
    rw [Nat.cast_one, min_eq_right (by linarith)]
  have hburst := @run_burst k (messageBucket messagesPerSecond 0) [] fun j _ => by
    have hj : (0 : ℚ) ≤ j := Nat.cast_nonneg j
    rw [hneed]
    show (messagesPerSecond : ℚ) * (j + 1) ≤ messagesPerSecond
    nlinarith
  have hlast := (hkept 0 _ (asks_singles hmost k 0)).last 0
  have hsent : sent 0 (0 + 1) (List.replicate k (0, 1)) ≤ 50 := by
    have hgrants := congrArg (fun s => sent 0 (0 + 1) s.grants) hburst
    exact hgrants.symm.trans_le hlast
  rw [sent_replicate le_rfl (by norm_num)] at hsent
  omega

/-- A bucket as wide as its rate. -/
def bucketAt (size tokens last : ℚ) : TokenBucket := { rate := size, capacity := size, tokens, last }

theorem messageBucket_eq {messagesPerSecond : ℤ} (hpos : 1 ≤ messagesPerSecond) (now : ℚ) :
    messageBucket messagesPerSecond now = bucketAt messagesPerSecond messagesPerSecond now := by
  have hrate : max (messagesPerSecond : ℚ) (1 / 1000) = messagesPerSecond := messageBucket_rate hpos now
  show TokenBucket.mk (max (messagesPerSecond : ℚ) (1 / 1000)) messagesPerSecond messagesPerSecond now = _
  rw [hrate]
  rfl

theorem refill_second {size tokens : ℚ} (htokens : 0 ≤ tokens) (now : ℚ) :
    (bucketAt size tokens now).refill (now + 1) = bucketAt size size (now + 1) := by
  have hmint : min size (tokens + (now + 1 - now) * size) = size := min_eq_left (by linarith)
  show (if 0 < now + 1 - now then bucketAt size (min size (tokens + (now + 1 - now) * size)) (now + 1)
    else _) = _
  rw [if_pos (by linarith), hmint]

theorem step_called_full {b : TokenBucket} {size clock now : ℚ} {grants : List (ℚ × ℕ)} {n : ℕ}
    (htime : clock ≤ now) (hcapacity : b.capacity = size) (hfull : b.refill now = bucketAt size size now) :
    (idle b clock grants).step messageLimiter (now, .called 0 n) =
      idle (bucketAt size (size - min (n : ℚ) size) now) now (grants ++ [(now, n)]) := by
  have hneed : b.need n = min (n : ℚ) size := by
    unfold TokenBucket.need
    rw [hcapacity]
  have hle : b.need n ≤ (b.refill now).tokens := by
    rw [hfull, hneed]
    exact min_le_right _ _
  rw [step_called 0 htime hle, hfull, hneed]
  rfl

theorem run_singles (k : ℕ) {size tokens now : ℚ} {grants : List (ℚ × ℕ)} (hsize : 1 ≤ size)
    (htokens : k ≤ tokens) :
    Trace.run (Turnstile.step messageLimiter) (idle (bucketAt size tokens now) now grants)
        (singles k now) =
      idle (bucketAt size (tokens - k) now) now (grants ++ List.replicate k (now, 1)) := by
  have hneed : (bucketAt size tokens now).need 1 = 1 := by
    show min ((1 : ℕ) : ℚ) size = 1
    rw [Nat.cast_one, min_eq_left hsize]
  refine (@run_burst k (bucketAt size tokens now) grants fun j hj => ?_).trans ?_
  · have hle : ((j + 1 : ℕ) : ℚ) ≤ k := by exact_mod_cast hj
    push_cast at hle
    rw [hneed]
    show (1 : ℚ) * (j + 1) ≤ tokens
    linarith
  · rw [hneed, mul_one]
    rfl

theorem not_limitKept_of_rate {messagesPerSecond : ℤ} {most : ℕ} (hmost : 1 ≤ most)
    (hrate : 25 < messagesPerSecond) : ¬ LimitKept messagesPerSecond most := by
  intro hkept
  obtain ⟨k, hk⟩ : ∃ k : ℕ, messagesPerSecond = k + 1 := ⟨(messagesPerSecond - 1).toNat, by omega⟩
  have hsize : (messagesPerSecond : ℚ) = k + 1 := by exact_mod_cast hk
  have hone : (1 : ℚ) ≤ k + 1 := by exact_mod_cast Nat.succ_pos k
  have hfirst := @run_singles (k + 1) (k + 1) (k + 1) 0 [] hone (by push_cast; exact le_rfl)
  have hcall := @step_called_full (bucketAt (k + 1) (k + 1 - (k + 1 : ℕ)) 0) (k + 1) 0 1
    ([] ++ List.replicate (k + 1) (0, 1)) 1 zero_le_one rfl (by
      have hfill := @refill_second (k + 1) (k + 1 - (k + 1 : ℕ)) (by push_cast; linarith) 0
      rwa [zero_add] at hfill)
  have hsecond := @run_singles k (k + 1) (k + 1 - min ((1 : ℕ) : ℚ) (k + 1)) 1
    ([] ++ List.replicate (k + 1) (0, 1) ++ [(1, 1)]) hone (by
      rw [Nat.cast_one, min_eq_left hone]
      linarith)
  have hasks : ∀ e ∈ singles (k + 1) 0 ++ singles (k + 1) 1, e.2.Asks (AsksAtMost most) := by
    intro e hmem
    rcases List.mem_append.mp hmem with hmem | hmem
    · exact asks_singles hmost _ _ e hmem
    · exact asks_singles hmost _ _ e hmem
  have hcons : singles (k + 1) 1 = (1, .called 0 1) :: singles k 1 := List.replicate_succ
  have hlast := (hkept 0 _ hasks).last 0
  rw [messageBucket_eq (by omega), hsize, Trace.run_append, hfirst, hcons, Trace.run_cons, hcall, hsecond] at hlast
  have hsent : sent 0 (0 + 1) ([] ++ List.replicate (k + 1) (0, 1) ++ [(1, 1)] ++ List.replicate k (1, 1)) ≤ 50 :=
    hlast
  have hin : (1 : ℚ) ≤ 0 + 1 := by norm_num
  rw [List.nil_append, List.append_assoc, sent_append, sent_replicate le_rfl (zero_le_one.trans hin),
    List.singleton_append, ← List.replicate_succ, sent_replicate zero_le_one hin] at hsent
  omega

theorem not_limitKept_of_most {messagesPerSecond : ℤ} {most : ℕ} (hpos : 1 ≤ messagesPerSecond)
    (hmost : 25 < most) : ¬ LimitKept messagesPerSecond most := by
  intro hkept
  obtain ⟨twice, htwice⟩ : ∃ events : List (ℚ × Turnstile.Event ℕ Empty),
      events = [(0, .called 0 most), (1, .called 0 most)] := ⟨_, rfl⟩
  have hfirst := @step_called_full (bucketAt messagesPerSecond messagesPerSecond 0) messagesPerSecond 0 0 []
    most le_rfl rfl (refill_last _)
  have hsecond := @step_called_full
    (bucketAt messagesPerSecond (messagesPerSecond - min (most : ℚ) messagesPerSecond) 0) messagesPerSecond 0 1
    ([] ++ [(0, most)]) most zero_le_one rfl (by
      have hfill := @refill_second messagesPerSecond (messagesPerSecond - min (most : ℚ) messagesPerSecond)
        (sub_nonneg.mpr (min_le_right _ _)) 0
      rwa [zero_add] at hfill)
  have hasks : ∀ e ∈ twice, e.2.Asks (AsksAtMost most) := by
    intro e hmem
    have hone : 1 ≤ most := by omega
    simp only [htwice, List.mem_cons, List.not_mem_nil, or_false] at hmem
    rcases hmem with rfl | rfl <;> exact ⟨hone, le_rfl⟩
  have hlast := (hkept 0 twice hasks).last 0
  rw [messageBucket_eq hpos, htwice, Trace.run_cons, hfirst, Trace.run_cons, hsecond] at hlast
  have hsent : sent 0 (0 + 1) ([] ++ [(0, most)] ++ [(1, most)]) ≤ 50 := hlast
  simp [sent] at hsent
  omega

/-- **When the pacer keeps under the socket limit.** For every configured rate, and every bound on the
number of messages that one `acquire` asks for: in every interleaving of calls, wake-ups and cancellations
no second holds more than fifty granted messages, precisely when the rate is from one to twenty-five and so
is the bound. -/
theorem message_rate_iff (messagesPerSecond : ℤ) {most : ℕ} (hmost : 1 ≤ most) :
    LimitKept messagesPerSecond most ↔ 1 ≤ messagesPerSecond ∧ messagesPerSecond ≤ 25 ∧ most ≤ 25 := by
  constructor
  · intro hkept
    have hpos : 1 ≤ messagesPerSecond := by
      by_contra hneg
      exact not_limitKept_of_nonpos hmost (by omega) hkept
    refine ⟨hpos, ?_, ?_⟩
    · by_contra hrate
      exact not_limitKept_of_rate hmost (by omega) hkept
    · by_contra hlarge
      exact not_limitKept_of_most hpos (by omega) hkept
  · rintro ⟨hpos, hrate, hlarge⟩
    exact limitKept_of_small hpos hrate hlarge

/-! #### The default rate -/

theorem message_rate_quarter : LimitKept 25 25 ↔ (1 : ℤ) ≤ 25 ∧ (25 : ℤ) ≤ 25 ∧ 25 ≤ 25 :=
  message_rate_iff 25 (by decide)

/-- A full bucket, and nearly another one before the second is over: eighty-nine messages. -/
def twoBursts : List (ℚ × Turnstile.Event ℕ Empty) := [(0, .called 0 45), (44 / 45, .called 1 44)]

theorem message_rate_exceeded : ¬ ∀ messagesPerSecond : ℤ, 1 ≤ messagesPerSecond → messagesPerSecond ≤ 45 →
    ∀ (clock : ℚ) (events : List (ℚ × Turnstile.Event ℕ Empty)), (∀ e ∈ events, e.2.Asks fun n => 1 ≤ n) →
      Trace.Always (Turnstile.step messageLimiter) (fun s => UnderSocketLimit s.grants)
        (idle (messageBucket messagesPerSecond clock) clock []) events := by
  intro h
  have hasks : ∀ e ∈ twoBursts, e.2.Asks fun n => 1 ≤ n := by
    simp [twoBursts, Turnstile.Event.Asks]
  exact absurd ((h 45 (by decide) le_rfl 0 twoBursts hasks).last 0) (by decide +kernel)

end AiTrader
