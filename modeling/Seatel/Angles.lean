import Mathlib.Analysis.Real.Pi.Bounds
import Mathlib.Analysis.SpecialFunctions.Trigonometric.Arctan

/-!
# Directions in the plane

A direction is given by a vector, an angle by a real number; every vector
but 0 has the angles `θ + 2πk`. The arctangent of the quotient of the
coordinates is one of them in the right half plane, and half a turn off
in the left one.
-/

namespace Angles

open Real

/-- The vector `(u, v)` has the direction `θ`. -/
def IsAngle (u v θ : ℝ) : Prop := ∃ r, 0 < r ∧ u = r * cos θ ∧ v = r * sin θ

/-- The vector 0 has no direction. -/
theorem IsAngle.ne_zero {u v θ : ℝ} (h : IsAngle u v θ) : u ≠ 0 ∨ v ≠ 0 := by
  obtain ⟨r, hr, rfl, rfl⟩ := h
  by_contra hzero
  simp only [ne_eq, mul_eq_zero, hr.ne', false_or, not_or, not_not] at hzero
  have hone := sin_sq_add_cos_sq θ
  rw [hzero.1, hzero.2] at hone
  norm_num at hone

/-- Two angles with the same tangent are a multiple of a half turn apart, and the signs of
their cosines tell which. -/
theorem eq_add_of_sin_mul_cos {θ φ : ℝ} (h : sin θ * cos φ = cos θ * sin φ) :
    ∃ n : ℤ, θ = φ + n * π ∧ cos θ = (-1) ^ n * cos φ := by
  have hzero : sin (θ - φ) = 0 := by
    rw [sin_sub, h, sub_self]
  obtain ⟨n, hn⟩ := sin_eq_zero_iff.mp hzero
  have hθ : θ = φ + n * π := by linarith
  refine ⟨n, hθ, ?_⟩
  rw [hθ, cos_add_int_mul_pi]

theorem arctan_sin_cos (q : ℝ) : sin (arctan q) = q * cos (arctan q) := by
  have hcos : cos (arctan q) ≠ 0 := (cos_arctan_pos q).ne'
  have htan := tan_arctan q
  rw [tan_eq_sin_div_cos] at htan
  exact (div_eq_iff hcos).mp htan

/-- The angles of a vector outside the vertical axis, up to a number of half turns whose
parity is the sign of the first coordinate. -/
theorem IsAngle.eq_arctan_add {u v θ : ℝ} (h : IsAngle u v θ) (hu : u ≠ 0) :
    ∃ n : ℤ, θ = arctan (v / u) + n * π ∧ (Even n ↔ 0 < u) := by
  obtain ⟨r, hr, rfl, rfl⟩ := h
  have hcos : cos θ ≠ 0 := right_ne_zero_of_mul hu
  have hquot : r * sin θ / (r * cos θ) = sin θ / cos θ := mul_div_mul_left _ _ hr.ne'
  have hcross : sin θ * cos (arctan (sin θ / cos θ)) = cos θ * sin (arctan (sin θ / cos θ)) := by
    rw [arctan_sin_cos, ← mul_assoc, mul_div_cancel₀ _ hcos]
  obtain ⟨n, hθ, hsign⟩ := eq_add_of_sin_mul_cos hcross
  have hpos := cos_arctan_pos (sin θ / cos θ)
  rw [hquot]
  refine ⟨n, hθ, ?_⟩
  rw [mul_pos_iff_of_pos_left hr, hsign]
  constructor
  · intro heven
    rw [heven.neg_one_zpow, one_mul]
    exact hpos
  · intro hgt
    by_contra hodd
    rw [(Int.not_even_iff_odd.mp hodd).neg_one_zpow] at hgt
    linarith

/-- In the right half plane the arctangent of the quotient is an angle. -/
theorem IsAngle.right {u v θ : ℝ} (h : IsAngle u v θ) (hu : 0 < u) :
    ∃ k : ℤ, θ = arctan (v / u) + 2 * π * k := by
  obtain ⟨n, hθ, hn⟩ := h.eq_arctan_add hu.ne'
  obtain ⟨k, rfl⟩ := (hn.mpr hu).two_dvd
  refine ⟨k, ?_⟩
  rw [hθ]
  push_cast
  ring

/-- In the left one it is half a turn off. -/
theorem IsAngle.left {u v θ : ℝ} (h : IsAngle u v θ) (hu : u < 0) :
    ∃ k : ℤ, θ = arctan (v / u) + π + 2 * π * k := by
  obtain ⟨n, hθ, hn⟩ := h.eq_arctan_add hu.ne
  have hodd : Odd n := Int.not_even_iff_odd.mp fun heven => absurd (hn.mp heven) hu.not_gt
  obtain ⟨k, rfl⟩ := hodd
  refine ⟨k, ?_⟩
  rw [hθ]
  push_cast
  ring

/-- On the vertical axis an angle is a quarter turn, or three. -/
theorem IsAngle.vertical {v θ : ℝ} (h : IsAngle 0 v θ) :
    ∃ n : ℤ, θ = π / 2 + n * π ∧ (Even n ↔ 0 < v) := by
  obtain ⟨r, hr, hcos, rfl⟩ := h
  have hzero : cos θ = 0 := (mul_eq_zero.mp hcos.symm).resolve_left hr.ne'
  have hcross : sin θ * cos (π / 2) = cos θ * sin (π / 2) := by
    rw [cos_pi_div_two, hzero, mul_zero, zero_mul]
  obtain ⟨n, hθ, -⟩ := eq_add_of_sin_mul_cos hcross
  refine ⟨n, hθ, ?_⟩
  rw [mul_pos_iff_of_pos_left hr, hθ, sin_add_int_mul_pi, sin_pi_div_two, mul_one]
  constructor
  · intro heven
    rw [heven.neg_one_zpow]
    exact one_pos
  · intro hgt
    by_contra hodd
    rw [(Int.not_even_iff_odd.mp hodd).neg_one_zpow] at hgt
    linarith

end Angles
