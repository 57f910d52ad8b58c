import Seatel.Angles
import Seatel.ImuReplies

/-!
# The elevation as an angle

`imu_el_pos` is meant to be the direction of gravity in the plane of the
elevation, in 65536ths of a turn: the angle of the vector with the
coordinates `-imu_accel_x` and `imu_accel_z`. The code takes the
arctangent of the quotient, multiplies by 10430 in place of 32768/π, and
adds half a turn if `imu_accel_x` is positive. Rounding, the factor and
the truncation together cost less than two counts (`trunc_near_angle`).

With `imu_accel_x` at 0 the quotient is infinite, and its sign is that of
the other half plane: the one reading without a half turn to add is half
a turn off.
-/

namespace Seatel

open Real Angles Runs

/-- `atan(-(float)z/(float)x)` over the reals; a quotient by the float 0 is infinite, of the
sign of its dividend. -/
noncomputable def realAtan (z x : Int16) : ℝ :=
  if x = 0 then if 0 < z.toInt then -(π / 2) else π / 2
  else arctan (-(z.toInt : ℝ) / x.toInt)

/-- What the code relies on: the `double` that is converted is 10430 times the arctangent
up to a hundredth. Nothing is said of 0/0. -/
def AtanOk (angle : Int16 → Int16 → Int16) : Prop :=
  ∀ z x : Int16, z ≠ 0 ∨ x ≠ 0 →
    ∃ y : ℚ, |(y : ℝ) - realAtan z x * 10430| ≤ 1 / 100 ∧ angle z x = Int16.ofInt (trunc y)

/-- A count of 65536 to the turn is within two of the angle. -/
def NearAngle (pos : Int16) (θ : ℝ) : Prop :=
  ∃ k : ℤ, |(pos.toInt : ℝ) - 32768 / π * θ - 65536 * k| ≤ 2

/-! ## Numbers -/

/-- 10430 is taken for 32768/π, which costs six tenths over a quarter turn. -/
theorem abs_factor_le {φ : ℝ} (hφ : |φ| ≤ π / 2) : |φ * 10430 - 32768 / π * φ| ≤ 6 / 10 := by
  have hlo := pi_gt_d6
  have hhi := pi_lt_d6
  have hpos : 0 < π := pi_pos
  have hfactor : 0 ≤ 32768 / π - 10430 := by
    rw [sub_nonneg, le_div_iff₀ hpos]
    linarith
  have heq : φ * 10430 - 32768 / π * φ = -(φ * (32768 / π - 10430)) := by ring
  rw [heq, abs_neg, abs_mul, abs_of_nonneg hfactor]
  calc |φ| * (32768 / π - 10430) ≤ π / 2 * (32768 / π - 10430) :=
        mul_le_mul_of_nonneg_right hφ hfactor
    _ = 16384 - 5215 * π := by
        field_simp
        ring
    _ ≤ 6 / 10 := by linarith

theorem trunc_near_angle {y : ℚ} {φ : ℝ} (hφ : |φ| ≤ π / 2)
    (hy : |(y : ℝ) - φ * 10430| ≤ 1 / 100) : |(trunc y : ℝ) - 32768 / π * φ| ≤ 2 := by
  have htrunc : |(trunc y : ℝ) - y| < 1 := by exact_mod_cast abs_trunc_sub_lt y
  have hfactor := abs_factor_le hφ
  have heq : (trunc y : ℝ) - 32768 / π * φ
      = ((trunc y : ℝ) - y) + (y - φ * 10430) + (φ * 10430 - 32768 / π * φ) := by ring
  rw [heq]
  linarith [abs_add_three ((trunc y : ℝ) - y) (y - φ * 10430) (φ * 10430 - 32768 / π * φ)]

/-- So the conversion stays in its type. -/
theorem trunc_fits {y : ℚ} {φ : ℝ} (hφ : |φ| ≤ π / 2) (hy : |(y : ℝ) - φ * 10430| ≤ 1 / 100) :
    (Int16.ofInt (trunc y)).toInt = trunc y := by
  have hnear := trunc_near_angle hφ hy
  have hscale : |32768 / π * φ| ≤ 16384 := by
    rw [abs_mul, abs_of_nonneg (by positivity)]
    calc 32768 / π * |φ| ≤ 32768 / π * (π / 2) := by gcongr
      _ = 16384 := by
          field_simp
          ring
  have hbound : |(trunc y : ℝ)| ≤ 16386 := by
    have := abs_sub_abs_le_abs_sub (trunc y : ℝ) (32768 / π * φ)
    linarith
  have hint : |trunc y| ≤ 16386 := by exact_mod_cast hbound
  obtain ⟨hlo, hhi⟩ := abs_le.mp hint
  exact Int16.toInt_ofInt_of_le (by omega) (by omega)

theorem abs_realAtan_le (z x : Int16) : |realAtan z x| ≤ π / 2 := by
  have hpos : 0 < π := pi_pos
  unfold realAtan
  split
  · split
    · rw [abs_neg, abs_of_pos (by linarith)]
    · rw [abs_of_pos (by linarith)]
  · exact abs_le.mpr ⟨(neg_pi_div_two_lt_arctan _).le, (arctan_lt_pi_div_two _).le⟩

/-! ## One calculation -/

/-- A half turn more in the count is a half turn more in the angle. -/
theorem nearAngle_shift {n c k : ℤ} {pos : Int16} {φ θ : ℝ} (hn : |(n : ℝ) - 32768 / π * φ| ≤ 2)
    (hpos : ∃ j : ℤ, pos.toInt = n + 32768 * c + 65536 * j)
    (hθ : θ = φ + c * π + 2 * π * k) : NearAngle pos θ := by
  obtain ⟨j, hj⟩ := hpos
  refine ⟨j - k, ?_⟩
  have hscale : 32768 / π * θ = 32768 / π * φ + 32768 * c + 65536 * k := by
    have hpi : π ≠ 0 := pi_ne_zero
    rw [hθ]
    field_simp
    ring
  have hcast : (pos.toInt : ℝ) = n + 32768 * c + 65536 * j := by exact_mod_cast hj
  have heq : (pos.toInt : ℝ) - 32768 / π * θ - 65536 * ((j - k : ℤ) : ℝ) = n - 32768 / π * φ := by
    rw [hscale, hcast]
    push_cast
    ring
  rw [heq]
  exact hn

/-- On the vertical axis the count is half a turn off. -/
theorem not_nearAngle_vertical {n : ℤ} {pos : Int16} {z : Int16} {θ : ℝ}
    (hn : |(n : ℝ) - 32768 / π * (if 0 < z.toInt then -(π / 2) else π / 2)| ≤ 2)
    (hpos : pos.toInt = n) (hθ : IsAngle 0 z.toInt θ) : ¬ NearAngle pos θ := by
  rintro ⟨k, hk⟩
  have hpi : π ≠ 0 := pi_ne_zero
  obtain ⟨m, rfl, heven⟩ := hθ.vertical
  have hscale : 32768 / π * (π / 2 + m * π) = 16384 + 32768 * m := by
    field_simp
    ring
  have hk' : |n - (16384 + 32768 * m) - 65536 * k| ≤ 2 := by
    rw [hscale, hpos] at hk
    exact_mod_cast hk
  have hk'' := abs_le.mp hk'
  by_cases hsign : 0 < z.toInt
  · have hcount : |n + 16384| ≤ 2 := by
      have heq : 32768 / π * -(π / 2) = -16384 := by
        field_simp
        ring
      rw [if_pos hsign, heq, sub_neg_eq_add] at hn
      exact_mod_cast hn
    have hcount' := abs_le.mp hcount
    have hm : Even m := heven.mpr (by exact_mod_cast hsign)
    obtain ⟨j, rfl⟩ := hm
    omega
  · have hcount : |n - 16384| ≤ 2 := by
      have heq : 32768 / π * (π / 2) = 16384 := by
        field_simp
        ring
      rw [if_neg hsign, heq] at hn
      exact_mod_cast hn
    have hcount' := abs_le.mp hcount
    have hm : Odd m := by
      rw [← Int.not_even_iff_odd]
      intro hm
      exact hsign (by exact_mod_cast heven.mp hm)
    obtain ⟨j, rfl⟩ := hm
    omega

/-- The count of a calculation is within two of the angle of its accelerations, except for
`imu_accel_x` at 0. -/
theorem elPosOf_near_iff {angle : Int16 → Int16 → Int16} (hatan : AtanOk angle) {z x : Int16}
    {θ : ℝ} (hθ : IsAngle (-x.toInt) z.toInt θ) :
    NearAngle (elPosOf angle z x) θ ↔ x ≠ 0 := by
  have hne : z ≠ 0 ∨ x ≠ 0 := by
    rcases hθ.ne_zero with hx | hz
    · exact Or.inr fun h => by simp [h] at hx
    · exact Or.inl fun h => by simp [h] at hz
  obtain ⟨y, hy, hangle⟩ := hatan z x hne
  have hfits := trunc_fits (abs_realAtan_le z x) hy
  have hnear := trunc_near_angle (abs_realAtan_le z x) hy
  have helPos : elPosOf angle z x
      = if x.toInt > 0 then Int16.ofInt (trunc y + 32768) else Int16.ofInt (trunc y) := by
    have hunfold : elPosOf angle z x
        = if x.toInt > 0 then Int16.ofInt ((angle z x).toInt + 32768) else angle z x := rfl
    rw [hunfold, hangle, hfits]
  have hquot : -(z.toInt : ℝ) / x.toInt = z.toInt / -x.toInt := by
    rw [neg_div, div_neg]
  rcases lt_trichotomy x.toInt 0 with hneg | hzero | hpos
  · -- gravity in the right half plane
    have hx : x ≠ 0 := fun h => by simp [h] at hneg
    refine iff_of_true ?_ hx
    obtain ⟨k, hk⟩ := hθ.right (by simpa using hneg)
    rw [realAtan, if_neg hx, hquot] at hnear
    rw [helPos, if_neg (by omega)]
    exact nearAngle_shift (c := 0) hnear ⟨0, by rw [hfits]; ring⟩ (by rw [hk]; push_cast; ring)
  · have hx : x = 0 := Int16.toInt_inj.mp hzero
    subst hx
    refine iff_of_false ?_ fun h => h rfl
    rw [realAtan, if_pos rfl] at hnear
    rw [helPos, if_neg (by simp)]
    exact not_nearAngle_vertical hnear hfits (by simpa using hθ)
  · have hx : x ≠ 0 := fun h => by simp [h] at hpos
    refine iff_of_true ?_ hx
    obtain ⟨k, hk⟩ := hθ.left (by simpa using hpos)
    rw [realAtan, if_neg hx, hquot] at hnear
    rw [helPos, if_pos hpos]
    obtain ⟨j, hj⟩ := CInt.toInt_ofInt16 (trunc y + 32768)
    exact nearAngle_shift (c := 1) hnear ⟨j, by rw [hj]; ring⟩ (by rw [hk]; push_cast; ring)

/-! ## Every run -/

/-- Whatever the threads do, the published elevation is within two counts of the direction
of gravity in the last two words it was calculated from, if and only if the 14-bit value of
the word for x is not 0. -/
theorem elevation_angle_iff (angle : Int16 → Int16 → Int16) (hatan : AtanOk angle) (fpu : Fpu)
    (s : ImuSys) (as : List ImuSysAct) (z x : UInt16)
    (hused : (run (replyNext angle fpu) { sys := s } as).used = some (z, x)) (θ : ℝ)
    (hθ : IsAngle (-signed14 x : ℤ) (-signed14 z : ℤ) θ) :
    NearAngle (run (replyNext angle fpu) { sys := s } as).sys.sys.vars.imu.elPos θ
      ↔ signed14 x ≠ 0 := by
  have hreg := run_invariant_always (registers_next angle fpu) (registers_start angle s) as
  obtain ⟨hz1, hz2⟩ := signed14_mem z
  obtain ⟨hx1, hx2⟩ := signed14_mem x
  have hz : (Int16.ofInt (-imuAccel z)).toInt = -signed14 z := by
    rw [imuAccel_eq]
    exact Int16.toInt_ofInt_of_le (by omega) (by omega)
  have hx : (Int16.ofInt (imuAccel x)).toInt = signed14 x := by
    rw [imuAccel_eq]
    exact Int16.toInt_ofInt_of_le (by omega) (by omega)
  have hzero : Int16.ofInt (imuAccel x) ≠ 0 ↔ signed14 x ≠ 0 := by
    rw [← hx, ne_eq, ne_eq, ← Int16.toInt_inj]
    rfl
  rw [hreg.elPos z x hused, ← hzero]
  refine elPosOf_near_iff hatan ?_
  rw [hz, hx]
  exact_mod_cast hθ

/-- The arctangent of a library without error. -/
noncomputable def exactAngle (z x : Int16) : Int16 :=
  Int16.ofInt (trunc (Classical.choose
    (exists_rat_btwn (sub_lt_self (realAtan z x * 10430) (show (0 : ℝ) < 1 / 100 by norm_num)))))

theorem exactAngle_ok : AtanOk exactAngle := by
  intro z x _
  obtain ⟨hlo, hhi⟩ := Classical.choose_spec
    (exists_rat_btwn (sub_lt_self (realAtan z x * 10430) (show (0 : ℝ) < 1 / 100 by norm_num)))
  refine ⟨_, ?_, rfl⟩
  rw [abs_le]
  constructor <;> linarith

/-- One loop of the thread with gravity along the negative x axis. -/
def levelActs : List ImuSysAct :=
  [.imu 0, .imu 0x3000, .imu 0, .imu 2070, .imu 2070, .imu 2070, .imu 0]

/-- The elevation is then 0, up to two counts. -/
theorem elevation_angle_level :
    NearAngle (run (replyNext exactAngle Fpu.modular) { sys := { sys := Sys.boot 0 0 0 0 } }
      levelActs).sys.sys.vars.imu.elPos 0 := by
  refine (elevation_angle_iff exactAngle exactAngle_ok Fpu.modular { sys := Sys.boot 0 0 0 0 }
    levelActs 0 0x3000 rfl 0 ?_).mpr (by decide)
  have hx : signed14 0x3000 = -4096 := by decide
  have hz : signed14 0 = 0 := by decide
  rw [hx, hz]
  exact ⟨4096, by norm_num, by simp, by simp⟩

end Seatel
