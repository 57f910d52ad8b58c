import Seatel.Ctrl

/-!
# The azimuth speed law

The `CONST_SPEED` case limits its torque to ±25 only after it has been
stored in an `int8_t`. The exact command of the law leaves the range of
that type once the speed error passes about 7000 counts per second, and
a fast reversal is twice that, so the limited torque can be the one for
the opposite direction. `AzSpeedErrOk` lists the speed errors at which
the wrapped command still limits to the right value, and
`azTorque_exact_iff` shows that there are no others. The elevation
law, which limits in an `int16_t`, has no such gap.
-/

namespace Seatel

open CInt

/-- The torque command before narrowing and limiting. -/
def azCommand (tgt act : Int) : Int := (tgt - act).tdiv 60 + 10 * tgt.sign

/-- The speed errors `tgt - act` at which the `int8_t` does no harm: those
whose command fits it, and those whose command wraps by a whole number of
turns onto the same side of the limiter. -/
def AzSpeedErrOk (tgt act : Int) : Prop :=
  let e := tgt - act
  (0 < tgt ∧ ((-8340 < e ∧ e < 7080) ∨ (16260 ≤ e ∧ e < 22440)
      ∨ (31620 ≤ e ∧ e < 37800) ∨ (-23700 < e ∧ e ≤ -17460)))
    ∨ (tgt < 0 ∧ ((-7140 < e ∧ e < 8280) ∨ (-22500 < e ∧ e ≤ -16260)
      ∨ (-37860 < e ∧ e ≤ -31620) ∨ (17460 ≤ e ∧ e < 23640)))

instance (tgt act : Int) : Decidable (AzSpeedErrOk tgt act) :=
  inferInstanceAs (Decidable (_ ∨ _))

/-! ## The law as narrowing and limiting -/

theorem azTorque_eq {tgt : Int16} (htgt : tgt.toInt ≠ 0) (act : Int16) :
    (azTorque tgt act).toInt
      = limit 25 (Int8.ofInt (azCommand tgt.toInt act.toInt)).toInt := by
  have hdir : (if tgt.toInt > 0 then 1 else -1) = tgt.toInt.sign := by
    split
    · exact (Int.sign_eq_one_of_pos ‹_›).symm
    · exact (Int.sign_eq_neg_one_of_neg (by omega)).symm
  simp only [azTorque, azCommand, hdir]
  exact limit_assign Int8.toInt 25 25 (-25) _ rfl rfl (by decide)

/-- The commands that limit to the same torque after the `int8_t`. -/
def NarrowOk (c : Int) : Prop :=
  (-128 ≤ c ∧ c ≤ 127) ∨ (281 ≤ c ∧ c ≤ 383) ∨ (537 ≤ c ∧ c ≤ 639)
    ∨ (-384 ≤ c ∧ c ≤ -281) ∨ (-640 ≤ c ∧ c ≤ -537)

theorem limit_narrow_iff {c : Int} (hlo : -647 ≤ c) (hhi : c ≤ 647) :
    limit 25 (Int8.ofInt c).toInt = limit 25 c ↔ NarrowOk c := by
  obtain ⟨k, hk⟩ := toInt_ofInt8 c
  obtain ⟨h1, h2⟩ := toInt8_mem (Int8.ofInt c)
  rw [hk] at h1 h2 ⊢
  unfold limit NarrowOk
  omega

section Range

variable {tgt act : Int} (hmin : 364 ≤ tgt.natAbs) (hmax : tgt.natAbs ≤ 5460)
  (hlo : -32768 ≤ act) (hhi : act ≤ 32767)

include hmin hmax hlo hhi

theorem azCommand_bound : -647 ≤ azCommand tgt act ∧ azCommand tgt act ≤ 647 := by
  have hq := tdiv_spec (tgt - act) (show (0 : Int) < 60 by decide)
  unfold azCommand
  generalize (tgt - act).tdiv 60 = q at *
  rcases Int.lt_or_gt_of_ne (show tgt ≠ 0 by omega) with hneg | hpos
  · rw [Int.sign_eq_neg_one_of_neg hneg]
    omega
  · rw [Int.sign_eq_one_of_pos hpos]
    omega

/-- On the speed error the intervals are shifted by the static torque and
open to the multiples of 60 around their ends. -/
theorem narrowOk_azCommand_iff : NarrowOk (azCommand tgt act) ↔ AzSpeedErrOk tgt act := by
  have hq := tdiv_spec (tgt - act) (show (0 : Int) < 60 by decide)
  simp only [azCommand, NarrowOk, AzSpeedErrOk]
  generalize (tgt - act).tdiv 60 = q at *
  rcases Int.lt_or_gt_of_ne (show tgt ≠ 0 by omega) with hneg | hpos
  · rw [Int.sign_eq_neg_one_of_neg hneg]
    omega
  · rw [Int.sign_eq_one_of_pos hpos]
    omega

end Range

theorem azTorque_exact_iff {tgt : Int16} (hmin : 364 ≤ tgt.toInt.natAbs)
    (hmax : tgt.toInt.natAbs ≤ 5460) (act : Int16) :
    (azTorque tgt act).toInt = limit 25 (azCommand tgt.toInt act.toInt)
      ↔ AzSpeedErrOk tgt.toInt act.toInt := by
  obtain ⟨hlo, hhi⟩ := toInt16_mem act
  obtain ⟨hclo, hchi⟩ := azCommand_bound hmin hmax hlo hhi
  rw [azTorque_eq (by omega), limit_narrow_iff hclo hchi]
  exact narrowOk_azCommand_iff hmin hmax hlo hhi

theorem azCommand_antitone (tgt : Int) {act act' : Int} (h : act ≤ act') :
    azCommand tgt act' ≤ azCommand tgt act := by
  have hq := tdiv_spec (tgt - act) (show (0 : Int) < 60 by decide)
  have hq' := tdiv_spec (tgt - act') (show (0 : Int) < 60 by decide)
  unfold azCommand
  omega

/-! ## The target speeds the loop holds

Outside the null zone the position branch stores a speed between 2°/s and
30°/s in magnitude, and calibration stores 5400, so these are the target
speeds the law is applied to. -/

theorem azApproachSpd_mem (dirDiff dist : UInt16) :
    364 ≤ (azApproachSpd dirDiff dist).toInt.natAbs
      ∧ (azApproachSpd dirDiff dist).toInt.natAbs ≤ 5460 := by
  have hdist : dist.toNat < 65536 := dist.toNat_lt
  have hdir : (if dirDiff.toNat < 32768 then (1 : Int) else -1) = 1
      ∨ (if dirDiff.toNat < 32768 then (1 : Int) else -1) = -1 := by
    split
    · exact Or.inl rfl
    · exact Or.inr rfl
  simp only [azApproachSpd]
  generalize (if dirDiff.toNat < 32768 then (1 : Int) else -1) = dir at *
  -- the clamped speeds are the two constants, in the direction `dir`
  have hmin : (Int16.ofInt (dir * 2 * 182)).toInt = dir * 364 := by
    rcases hdir with rfl | rfl <;> rfl
  have hmax : (Int16.ofInt (dir * 30 * 182)).toInt = dir * 5460 := by
    rcases hdir with rfl | rfl <;> rfl
  generalize Int16.ofInt ((dir * (dist.toNat : Int)).tdiv 2) = spd
  split
  · rw [hmin]
    rw [if_neg (by omega)]
    omega
  · split
    · rw [hmax]
      omega
    · omega

/-! ## What the case stores -/

theorem azConstSpeed_drives_right_iff (v : Vars)
    (hmin : 364 ≤ v.ctrl.azTgtSpd.toInt.natAbs) (hmax : v.ctrl.azTgtSpd.toInt.natAbs ≤ 5460) :
    let tgt := v.ctrl.azTgtSpd.toInt
    let trq := fun act : Int16 =>
      (azConstSpeed { v with mde := { v.mde with encAzSpeed := act } }).mde.motorAz.toInt
    (∀ act : Int16, trq act = limit 25 (azCommand tgt act.toInt) ↔ AzSpeedErrOk tgt act.toInt)
      ∧ (∀ act : Int16, AzSpeedErrOk tgt act.toInt →
          (0 < azCommand tgt act.toInt → 0 < trq act)
            ∧ (azCommand tgt act.toInt < 0 → trq act < 0))
      ∧ ∀ act act' : Int16, AzSpeedErrOk tgt act.toInt → AzSpeedErrOk tgt act'.toInt →
          act.toInt ≤ act'.toInt → trq act' ≤ trq act := by
  intro tgt trq
  have hiff : ∀ act : Int16,
      trq act = limit 25 (azCommand tgt act.toInt) ↔ AzSpeedErrOk tgt act.toInt :=
    fun act => azTorque_exact_iff hmin hmax act
  refine ⟨hiff, ?_, ?_⟩
  · intro act hok
    rw [(hiff act).mpr hok]
    exact ⟨limit_pos (by decide), limit_neg (by decide)⟩
  · intro act act' hok hok' hle
    rw [(hiff act).mpr hok, (hiff act').mpr hok']
    exact limit_mono 25 (azCommand_antitone tgt hle)

/-- The calibration speed, measured at standstill. -/
theorem azConstSpeed_drives_right_calibration :
    (azConstSpeed { ctrl := { azTgtSpd := 5400 } }).mde.motorAz.toInt
      = limit 25 (azCommand 5400 0) :=
  ((azConstSpeed_drives_right_iff { ctrl := { azTgtSpd := 5400 } } (by decide) (by decide)).1 0).mpr
    (by decide)

/-- Turning back at 11°/s while the target is the calibration speed, the loop
drives full torque backwards: the command 133 is stored as -123. -/
theorem azConstSpeed_drives_wrong_way :
    (azConstSpeed
        { ctrl := { azTgtSpd := 5400 }, mde := { encAzSpeed := -2000 } }).mde.motorAz.toInt = -25
      ∧ limit 25 (azCommand 5400 (-2000)) = 25 := by
  decide

end Seatel
