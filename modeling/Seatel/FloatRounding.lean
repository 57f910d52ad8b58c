import Mathlib.Algebra.Order.Field.Power
import Mathlib.Algebra.Order.Floor.Ring
import Mathlib.Data.Int.Log
import Mathlib.Tactic.FieldSimp
import Mathlib.Tactic.Linarith
import Mathlib.Tactic.Ring

/-!
# Rounding to a binary floating-point number

`roundTo p x` is the number nearest to `x` among those with `p`
significant binary digits, ties going to the even significand: what an
IEEE operation returns for the exact result `x` as long as it stays
inside the range of the normal numbers (`p = 24` for `float`, `p = 53`
for `double`). Exponents have no bounds here.

An operation is accurate to a relative `2^-p` (`abs_roundTo_sub_le`),
exact on integers of `p` digits (`roundTo_intCast`), and a quotient by a
quotient that was itself rounded loses no more than `4 / 2^p`
(`abs_roundTo_div_roundTo_sub_le`).
-/

namespace FloatRounding

variable {K : Type} [Field K] [LinearOrder K] [IsStrictOrderedRing K] [FloorRing K]

/-! ## Nearest integers -/

/-- The nearest integer, the even one of two. -/
def roundEven (x : K) : ℤ :=
  if x - ⌊x⌋ < ⌊x⌋ + 1 - x then ⌊x⌋
  else if ⌊x⌋ + 1 - x < x - ⌊x⌋ then ⌊x⌋ + 1
  else if Even ⌊x⌋ then ⌊x⌋ else ⌊x⌋ + 1

theorem roundEven_intCast (n : ℤ) : roundEven (n : K) = n := by
  have hdown : (n : K) - ⌊(n : K)⌋ < ⌊(n : K)⌋ + 1 - n := by
    rw [Int.floor_intCast, sub_self, add_sub_cancel_left]
    exact one_pos
  rw [roundEven, if_pos hdown, Int.floor_intCast]

theorem abs_roundEven_sub_le (x : K) : |roundEven x - x| ≤ 1 / 2 := by
  have hlo := Int.floor_le x
  have hhi := Int.lt_floor_add_one x
  rw [abs_le]
  unfold roundEven
  split_ifs with hdown hup heven
  · constructor <;> linarith
  · push_cast
    constructor <;> linarith
  · constructor <;> linarith
  · push_cast
    constructor <;> linarith

/-! ## Numbers of `p` digits -/

/-- The unit in the last of `p` places at the magnitude of `x`. -/
def ulp (p : ℕ) (x : K) : K := ((2 : ℕ) : K) ^ (Int.log 2 |x| - (p - 1))

def roundTo (p : ℕ) (x : K) : K := roundEven (x / ulp p x) * ulp p x

theorem ulp_pos (p : ℕ) (x : K) : 0 < ulp p x := zpow_pos (Nat.cast_pos.mpr two_pos) _

theorem roundTo_of_eq_mul {p : ℕ} {x : K} {n : ℤ} (h : x = n * ulp p x) : roundTo p x = x := by
  have hquot : x / ulp p x = n := by rw [div_eq_iff (ulp_pos p x).ne', ← h]
  rw [roundTo, hquot, roundEven_intCast, ← h]

@[simp] theorem roundTo_zero (p : ℕ) : roundTo p (0 : K) = 0 :=
  roundTo_of_eq_mul (n := 0) (by rw [Int.cast_zero, zero_mul])

/-- A unit is small against a number that is not 0. -/
theorem ulp_le {x : K} (hx : x ≠ 0) (p : ℕ) : ulp p x ≤ 2 * (|x| / 2 ^ p) := by
  have hlog : (2 : K) ^ Int.log 2 |x| ≤ |x| := by
    have := Int.zpow_log_le_self (b := 2) one_lt_two (abs_pos.mpr hx)
    exact_mod_cast this
  calc ulp p x = 2 * (2 ^ Int.log 2 |x| / 2 ^ p) := by
        rw [ulp, Nat.cast_ofNat, zpow_sub₀ two_ne_zero, zpow_sub_one₀ two_ne_zero, zpow_natCast]
        field_simp
    _ ≤ 2 * (|x| / 2 ^ p) := by gcongr

/-- The relative error of one rounding. -/
theorem abs_roundTo_sub_le (p : ℕ) (x : K) : |roundTo p x - x| ≤ |x| / 2 ^ p := by
  by_cases hx : x = 0
  · subst hx
    rw [roundTo_zero, sub_self, abs_zero, zero_div]
  · have hpos := ulp_pos p x
    have hround := abs_roundEven_sub_le (x / ulp p x)
    have hscale : roundTo p x - x = (roundEven (x / ulp p x) - x / ulp p x) * ulp p x := by
      rw [roundTo, sub_mul, div_mul_cancel₀ _ hpos.ne']
    calc |roundTo p x - x| = |roundEven (x / ulp p x) - x / ulp p x| * ulp p x := by
          rw [hscale, abs_mul, abs_of_pos hpos]
      _ ≤ 1 / 2 * ulp p x := by gcongr
      _ ≤ |x| / 2 ^ p := by linarith [ulp_le hx p]

/-- Integers of `p` digits are exact. -/
theorem roundTo_intCast {p : ℕ} {n : ℤ} (hn : |n| < 2 ^ p) : roundTo p (n : K) = n := by
  by_cases hzero : n = 0
  · subst hzero
    rw [Int.cast_zero, roundTo_zero]
  · have hpos : (0 : K) < |(n : K)| := abs_pos.mpr (Int.cast_ne_zero.mpr hzero)
    have hlog : Int.log 2 |(n : K)| < p := by
      refine (Int.lt_zpow_iff_log_lt one_lt_two hpos).mp ?_
      rw [zpow_natCast]
      exact_mod_cast hn
    obtain ⟨k, hk⟩ := Int.eq_ofNat_of_zero_le (show 0 ≤ (p - 1 : ℤ) - Int.log 2 |(n : K)| by omega)
    -- the unit is `2^-k`
    have hulp : ulp p (n : K) = (2 ^ k)⁻¹ := by
      rw [ulp, show Int.log 2 |(n : K)| - (p - 1 : ℤ) = -(k : ℤ) by omega, zpow_neg, zpow_natCast,
        Nat.cast_ofNat]
    refine roundTo_of_eq_mul (n := n * 2 ^ k) ?_
    rw [hulp]
    push_cast
    rw [mul_assoc, mul_inv_cancel₀ (pow_ne_zero k two_ne_zero), mul_one]

/-! ## Quotients -/

/-- Dividing by a number that is off by a relative `d`. -/
theorem abs_div_sub_div_le {a b b' d : K} (hb : b ≠ 0) (hd : d ≤ 1 / 2)
    (hnear : |b' - b| ≤ |b| * d) : |a / b' - a / b| ≤ 2 * d * |a / b| := by
  have hpos := abs_pos.mpr hb
  have hd0 : 0 ≤ d := nonneg_of_mul_nonneg_right ((abs_nonneg _).trans hnear) hpos
  have hhalf : |b| / 2 ≤ |b'| := by
    have htri := abs_sub_abs_le_abs_sub b b'
    rw [abs_sub_comm] at htri
    nlinarith
  have hb' : b' ≠ 0 := abs_pos.mp (by linarith)
  have hratio : |(b - b') / b'| ≤ 2 * d := by
    rw [abs_div, div_le_iff₀ (abs_pos.mpr hb'), abs_sub_comm]
    nlinarith
  calc |a / b' - a / b| = |(b - b') / b'| * |a / b| := by
        rw [← abs_mul]
        congr 1
        field_simp
    _ ≤ 2 * d * |a / b| := by gcongr

/-- A rounded quotient by a rounded number. -/
theorem abs_roundTo_div_roundTo_sub_le {p : ℕ} (hp : 1 ≤ p) (a b : K) :
    |roundTo p (a / roundTo p b) - a / b| ≤ 4 / 2 ^ p * |a / b| := by
  by_cases hb : b = 0
  · subst hb
    simp
  · have hd : (1 : K) / 2 ^ p ≤ 1 / 2 := by
      refine one_div_le_one_div_of_le two_pos ?_
      calc (2 : K) = 2 ^ 1 := (pow_one 2).symm
        _ ≤ 2 ^ p := pow_le_pow_right₀ one_le_two hp
    have hnear : |roundTo p b - b| ≤ |b| * (1 / 2 ^ p) := by
      rw [mul_one_div]
      exact abs_roundTo_sub_le p b
    have hdiv := abs_div_sub_div_le (a := a) hb hd hnear
    have hquot := abs_roundTo_sub_le p (a / roundTo p b)
    -- the quotient that is rounded is at most twice the exact one
    have hdouble : |a / roundTo p b| ≤ 2 * |a / b| := by
      have htri := abs_sub_abs_le_abs_sub (a / roundTo p b) (a / b)
      nlinarith [abs_nonneg (a / b)]
    calc |roundTo p (a / roundTo p b) - a / b|
        ≤ |roundTo p (a / roundTo p b) - a / roundTo p b| + |a / roundTo p b - a / b| :=
          abs_sub_le _ _ _
      _ ≤ 2 * |a / b| / 2 ^ p + 2 * (1 / 2 ^ p) * |a / b| := by
          refine add_le_add (hquot.trans ?_) hdiv
          gcongr
      _ = 4 / 2 ^ p * |a / b| := by ring

end FloatRounding
