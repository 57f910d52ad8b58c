import Mathlib.Data.Nat.Bitwise

/-!
# Parity of fixed-width words

`ones k n` counts the ones among the lowest `k` bits of `n`. Its parity
is what a parity bit protects: flipping any one bit inside the width
flips it (`ones_xor_two_pow`), so a word sent with a fixed parity is told
apart from every word one bit away from it.
-/

namespace Parity

/-- The number of ones among the lowest `k` bits of `n`. -/
def ones : Nat → Nat → Nat
  | 0, _ => 0
  | k + 1, n => n % 2 + ones k (n / 2)

@[simp] theorem ones_zero (k : Nat) : ones k 0 = 0 := by
  induction k with
  | zero => rfl
  | succ k ih => simp [ones, ih]

/-- Setting a clear lowest bit adds one. -/
theorem ones_add_one {k n : Nat} (hn : n % 2 = 0) : ones (k + 1) (n + 1) = ones (k + 1) n + 1 := by
  have hmod : (n + 1) % 2 = 1 := by omega
  have hdiv : (n + 1) / 2 = n / 2 := by omega
  simp only [ones, hmod, hdiv, hn]
  omega

/-- Flipping one bit inside the width changes the parity. -/
theorem ones_xor_two_pow {k i : Nat} (hi : i < k) (n : Nat) :
    ones k (n ^^^ 2 ^ i) % 2 = (ones k n + 1) % 2 := by
  induction k generalizing i n with
  | zero => exact absurd hi (Nat.not_lt_zero i)
  | succ k ih =>
      cases i with
      | zero =>
          have hdiv : (n ^^^ 1) / 2 = n / 2 := by rw [Nat.xor_div_two]; simp
          simp only [ones, pow_zero, hdiv, Nat.xor_mod_two_eq]
          omega
      | succ i =>
          have hdiv : (n ^^^ 2 ^ (i + 1)) / 2 = n / 2 ^^^ 2 ^ i := by
            rw [Nat.xor_div_two, pow_succ, Nat.mul_div_cancel _ (by decide)]
          have hmod : (n ^^^ 2 ^ (i + 1)) % 2 = n % 2 := by
            rw [Nat.xor_mod_two_eq, pow_succ]
            omega
          have := ih (Nat.lt_of_succ_lt_succ hi) (n / 2)
          simp only [ones, hdiv, hmod]
          omega

end Parity
