import Mathlib.Data.Rat.Floor
import Mathlib.Algebra.Order.Floor.Ring
import Mathlib.Tactic.Linarith
import Mathlib.Tactic.FieldSimp
import Mathlib.Tactic.Positivity
import Mathlib.Tactic.Ring

/-!
# Decimal rounding and decimal text

`roundTo n q` is the multiple of `10⁻ⁿ` nearest to `q`, ties to the even neighbour; an integer is rounded to from
no further than a half (`abs_roundHalfEven_sub_le`). `fixed`, `grouped` and `shortest` are the usual texts of
a number: a fixed number of decimals, the same with thousands separators, and as few decimals as
represent it exactly.
-/

namespace Lib.Decimal

/-- The nearest integer, ties to even. -/
def roundHalfEven (q : ℚ) : ℤ :=
  if q - ⌊q⌋ < 1 / 2 then ⌊q⌋
  else if 1 / 2 < q - ⌊q⌋ then ⌊q⌋ + 1
  else if ⌊q⌋ % 2 = 0 then ⌊q⌋ else ⌊q⌋ + 1

/-- The nearest number with `n` decimals, ties to even. -/
def roundTo (n : ℕ) (q : ℚ) : ℚ := roundHalfEven (q * 10 ^ n) / 10 ^ n

theorem abs_roundHalfEven_sub_le (q : ℚ) : |(roundHalfEven q : ℚ) - q| ≤ 1 / 2 := by
  have hlow := Int.floor_le q
  have hhigh := Int.lt_floor_add_one q
  rw [abs_le]
  unfold roundHalfEven
  split_ifs
  · constructor <;> linarith
  · push_cast
    constructor <;> linarith
  · constructor <;> linarith
  · push_cast
    constructor <;> linarith

@[simp] theorem roundHalfEven_intCast (n : ℤ) : roundHalfEven n = n := by
  simp [roundHalfEven]

theorem roundHalfEven_tie (n : ℤ) : roundHalfEven (2 * n + 1 / 2) = 2 * n := by
  have hfloor : ⌊(2 * n + 1 / 2 : ℚ)⌋ = 2 * n := by
    rw [Int.floor_eq_iff]
    push_cast
    constructor <;> linarith
  unfold roundHalfEven
  rw [hfloor, if_neg (by push_cast; linarith), if_neg (by push_cast; linarith),
    if_pos (Int.mul_emod_right 2 n)]

theorem lt_roundHalfEven {n : ℤ} {q : ℚ} (h : n + 1 / 2 < q) : n < roundHalfEven q := by
  have hnear := (abs_le.mp (abs_roundHalfEven_sub_le q)).1
  have hlt : (n : ℚ) < roundHalfEven q := by linarith
  exact_mod_cast hlt

theorem roundHalfEven_pos_iff {q : ℚ} : 0 < roundHalfEven q ↔ 1 / 2 < q := by
  constructor
  · intro h
    by_contra hle
    rcases (not_lt.mp hle).lt_or_eq with hlt | heq
    · have hnear := (abs_le.mp (abs_roundHalfEven_sub_le q)).2
      have hsmall : (roundHalfEven q : ℚ) < 1 := by linarith
      have hzero : roundHalfEven q < 1 := by exact_mod_cast hsmall
      omega
    · have htie := roundHalfEven_tie 0
      rw [Int.cast_zero, mul_zero, zero_add, mul_zero] at htie
      rw [heq, htie] at h
      exact absurd h (lt_irrefl 0)
  · intro h
    exact lt_roundHalfEven (by simpa using h)

/-! ### Text -/

/-- Left-pad a digit string with zeros. -/
def padLeft (width : ℕ) (s : String) : String :=
  String.ofList (List.replicate (width - s.length) '0' ++ s.toList)

/-- Thousands separators in a digit string. -/
def separate (s : String) : String :=
  let rec go : List Char → List Char
    | a :: b :: c :: d :: rest => a :: b :: c :: ',' :: go (d :: rest)
    | short => short
  String.ofList (go s.toList.reverse).reverse

def fixedWith (whole : String → String) (n : ℕ) (q : ℚ) : String :=
  let digits := (roundHalfEven (|q| * 10 ^ n)).toNat
  let sign := if q < 0 then "-" else ""
  let fraction := if n = 0 then "" else "." ++ padLeft n (toString (digits % 10 ^ n))
  sign ++ whole (toString (digits / 10 ^ n)) ++ fraction

/-- `n` decimals. -/
def fixed (n : ℕ) (q : ℚ) : String := fixedWith id n q

/-- `n` decimals and thousands separators. -/
def grouped (n : ℕ) (q : ℚ) : String := fixedWith separate n q

theorem toString_inj {m n : ℕ} (h : toString m = toString n) : m = n := by
  have hdigits : Nat.toDigits 10 m = Nat.toDigits 10 n := by
    rw [← Nat.toList_repr, ← Nat.toList_repr]
    exact congrArg String.toList h
  have hinverse : ∀ k : ℕ, Nat.ofDigitChars 10 (Nat.toDigits 10 k) 0 = k := fun _ =>
    Nat.ofDigitChars_toDigits (by decide) (by decide)
  rw [← hinverse m, hdigits, hinverse]

theorem fixed_zero {q : ℚ} (h : 0 ≤ q) : fixed 0 q = toString (roundHalfEven q).toNat := by
  unfold fixed fixedWith
  simp [abs_of_nonneg h, not_lt.mpr h]

theorem fixed_zero_ne {n : ℕ} {q : ℚ} (h : 2 * n + 1 / 2 < q) : fixed 0 q ≠ fixed 0 (2 * n + 1 / 2) := by
  have hn : (0 : ℚ) ≤ n := Nat.cast_nonneg n
  rw [fixed_zero (by linarith), fixed_zero (by linarith)]
  intro heq
  have hsame := toString_inj heq
  have htie := roundHalfEven_tie n
  have habove : (2 * n : ℤ) < roundHalfEven q := lt_roundHalfEven (by push_cast; exact h)
  push_cast at htie
  rw [htie] at hsame
  omega

/-- As few decimals as represent `q`, at least one and at most sixteen. -/
def shortest (q : ℚ) : String :=
  fixed (((List.range' 1 16).find? fun n => (q * 10 ^ n).den = 1).getD 16) q

example : fixed 2 (-7 / 3) = "-2.33" ∧ grouped 2 1234567 = "1,234,567.00" ∧
    shortest (3 / 8) = "0.375" := by decide +kernel

end Lib.Decimal
