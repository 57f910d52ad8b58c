import Seatel.Ctrl

/-!
# The elevation position loop

`case MOTOR_STATE_TARGET_POSITION` of the elevation switch takes the
distance to the target for the target speed, raises it to 1°/s outside
the range of constant speed and limits it to 15°/s; the torque is a tenth
of what the speed is off, limited to ±25. Unlike the azimuth law this one
is limited in an `int16_t`, which nothing that reaches it can leave, so
that it is the law over the integers (`elLaw`).
-/

namespace Seatel

open CInt

/-! ## The law over the integers -/

/-- Target minus position, from -32768 to 32767. -/
def elError (v : Vars) : Int :=
  Int.bmod (v.ctrl.elTgtPos.toInt - (v.imu.elPos.toInt + v.imu.elOff.toInt)) 65536

/-- The error, at least 1°/s outside ±45 counts, at most 15°/s. -/
def elIdealSpd (d : Int) : Int :=
  limit 2730 (if d.natAbs ≤ 45 then d else d.sign * (max d.natAbs 182 : Nat))

/-- Speeds below 150 counts per second are taken for standstill. -/
def elMeasuredSpd (spd : Int) : Int := if spd.natAbs < 150 then 0 else spd

def elLaw (d spd : Int) : Int := limit 25 ((elIdealSpd d - elMeasuredSpd spd).tdiv 10)

/-- What an iteration in position mode owes a target that stands still. -/
structure ElPositionOk (fpu : Fpu) (v : Vars) : Prop where
  law : (ctrlAxes fpu v).mde.motorEl.toInt = elLaw (elError v) v.imu.elSpd.toInt
  /-- Error and speed with the other sign give the torque with the other sign. -/
  mirror : elError v ≠ -32768 → v.imu.elSpd.toInt ≠ -32768 → ∀ w : Vars,
    w.ctrl.elState = .targetPosition → w.ctrl.elTgtPosSpd = 0 → elError w = -elError v →
    w.imu.elSpd.toInt = -v.imu.elSpd.toInt →
    (ctrlAxes fpu w).mde.motorEl.toInt = -(ctrlAxes fpu v).mde.motorEl.toInt

theorem elIdealSpd_neg (d : Int) : elIdealSpd (-d) = -elIdealSpd d := by
  have hodd : (if (-d).natAbs ≤ 45 then -d else (-d).sign * (max (-d).natAbs 182 : Nat))
      = -(if d.natAbs ≤ 45 then d else d.sign * (max d.natAbs 182 : Nat)) := by
    rw [Int.natAbs_neg, Int.sign_neg, Int.neg_mul]
    split <;> rfl
  rw [elIdealSpd, elIdealSpd, hodd]
  exact limit_odd (by decide) _

theorem elMeasuredSpd_neg (spd : Int) : elMeasuredSpd (-spd) = -elMeasuredSpd spd := by
  rw [elMeasuredSpd, elMeasuredSpd, Int.natAbs_neg]
  split <;> rfl

theorem elLaw_neg (d spd : Int) : elLaw (-d) (-spd) = -elLaw d spd := by
  have hdiff : elIdealSpd (-d) - elMeasuredSpd (-spd) = -(elIdealSpd d - elMeasuredSpd spd) := by
    rw [elIdealSpd_neg, elMeasuredSpd_neg]
    omega
  rw [elLaw, elLaw, hdiff, Int.neg_tdiv]
  exact limit_odd (by decide) _

/-! ## The code's expressions -/

/-- The distance is the error: reducing the position first makes no difference. -/
theorem elDist_toInt (fpu : Fpu) {v : Vars} (hstill : v.ctrl.elTgtPosSpd = 0) :
    (elDist fpu v).toInt = elError v := by
  obtain ⟨k, hk⟩ := toInt_ofInt16 (v.imu.elPos.toInt + v.imu.elOff.toInt)
  have himu : (elImu v).toInt = v.imu.elPos.toInt + v.imu.elOff.toInt + 65536 * k := hk
  rw [elDist, elTgt_of_still fpu hstill, himu, Int16.toInt_ofInt, elError]
  have hshift : v.ctrl.elTgtPos.toInt - (v.imu.elPos.toInt + v.imu.elOff.toInt + 65536 * k)
      = v.ctrl.elTgtPos.toInt - (v.imu.elPos.toInt + v.imu.elOff.toInt) + 65536 * (-k) := by
    omega
  rw [hshift]
  exact Int.add_mul_bmod_self_left _ _ _

/-- The limits are values of `int16_t`, so no assignment to the speed overflows. -/
theorem elApproachSpd_toInt (dist : Int16) :
    (elApproachSpd dist).toInt = elIdealSpd dist.toInt := by
  rcases Nat.lt_or_ge 45 dist.toInt.natAbs with hfar | hnear
  · rcases Int.lt_or_gt_of_ne (show dist.toInt ≠ 0 by omega) with hneg | hpos
    · have hlow : (Int16.ofInt (-1 * 1 * 182)).toInt = -182 := rfl
      have hhigh : (Int16.ofInt (-1 * 15 * 182)).toInt = -2730 := rfl
      simp only [elApproachSpd, if_pos hneg, if_pos hfar, elIdealSpd, limit,
        if_neg (Nat.not_le.mpr hfar), Int.sign_eq_neg_one_of_neg hneg]
      split_ifs <;> omega
    · have hlow : (Int16.ofInt (1 * 1 * 182)).toInt = 182 := rfl
      have hhigh : (Int16.ofInt (1 * 15 * 182)).toInt = 2730 := rfl
      simp only [elApproachSpd, if_neg (Int.lt_asymm hpos), if_pos hfar, elIdealSpd, limit,
        if_neg (Nat.not_le.mpr hfar), Int.sign_eq_one_of_pos hpos]
      split_ifs <;> omega
  · -- the error itself, far inside the limits
    simp only [elApproachSpd, if_neg (Nat.not_lt.mpr hnear), elIdealSpd, limit, if_pos hnear]
    rw [if_neg (by omega)]
    omega

theorem elStaticTrq_eq_zero (imu : Int16) : elStaticTrq imu = 0 := by
  simp [elStaticTrq]

/-- A tenth of a difference of two `int16_t` is one, and a limited torque is an
`int8_t`. -/
theorem elTorque_toInt (tgt spd : Int16) :
    (elTorque tgt spd 0).toInt
      = limit 25 ((tgt.toInt - elMeasuredSpd spd.toInt).tdiv 10) := by
  obtain ⟨ht1, ht2⟩ := toInt16_mem tgt
  obtain ⟨hs1, hs2⟩ := toInt16_mem spd
  have hspd : (if spd.toInt.natAbs < 150 then (0 : Int16) else spd).toInt
      = elMeasuredSpd spd.toInt := by
    rw [elMeasuredSpd]
    split <;> rfl
  have hmem : -32768 ≤ elMeasuredSpd spd.toInt ∧ elMeasuredSpd spd.toInt ≤ 32767 := by
    unfold elMeasuredSpd
    split <;> omega
  have hq := tdiv_spec (tgt.toInt - elMeasuredSpd spd.toInt) (show (0 : Int) < 10 by decide)
  simp only [elTorque, hspd]
  generalize (tgt.toInt - elMeasuredSpd spd.toInt).tdiv 10 = q at *
  have hin : (Int16.ofInt q).toInt = q := Int16.toInt_ofInt_of_le (by omega) (by omega)
  have hmoving : (Int16.ofInt ((Int16.ofInt q).toInt + (0 : Int8).toInt)).toInt = q := by
    rw [show (0 : Int8).toInt = 0 from rfl, Int.add_zero, hin, hin]
  rw [limit_assign Int16.toInt 25 25 (-25) _ rfl rfl (by decide), hmoving]
  obtain ⟨h1, h2⟩ := limit_mem (show (0 : Int) ≤ 25 by decide) q
  exact Int8.toInt_ofInt_of_le (by omega) (by omega)

/-! ## The iteration -/

theorem ctrlAxes_elLaw (fpu : Fpu) {v : Vars} (hmode : v.ctrl.elState = .targetPosition)
    (hstill : v.ctrl.elTgtPosSpd = 0) :
    (ctrlAxes fpu v).mde.motorEl.toInt = elLaw (elError v) v.imu.elSpd.toInt := by
  have hview := congrArg ElView.motor (ctrlAxes_el fpu v)
  have hmotor : (ctrlAxes fpu v).mde.motorEl
      = elTorque (elApproachSpd (elDist fpu v)) v.imu.elSpd 0 := by
    rw [elControl, hmode] at hview
    simp only [elTargetPosition, elConstSpeed, elStaticTrq_eq_zero] at hview
    exact hview
  rw [hmotor, elTorque_toInt, elApproachSpd_toInt, elDist_toInt fpu hstill, elLaw]

/-- In position mode, with a target that stands still, the torque is the one of the
law over the integers, and the law has no preferred direction. -/
theorem el_position_exact (fpu : Fpu) (v : Vars) (hmode : v.ctrl.elState = .targetPosition)
    (hstill : v.ctrl.elTgtPosSpd = 0) : ElPositionOk fpu v where
  law := ctrlAxes_elLaw fpu hmode hstill
  mirror _ _ w hmode' hstill' herr hspd := by
    rw [ctrlAxes_elLaw fpu hmode hstill, ctrlAxes_elLaw fpu hmode' hstill', herr, hspd, elLaw_neg]

/-- Ten degrees below the target, at rest: the torque is limited. -/
theorem el_position_exact_ten_degrees :
    ElPositionOk Fpu.modular { ctrl := { elState := .targetPosition, elTgtPos := 1820 } }
      ∧ (ctrlAxes Fpu.modular
          { ctrl := { elState := .targetPosition, elTgtPos := 1820 } }).mde.motorEl = 25 :=
  ⟨el_position_exact Fpu.modular _ rfl rfl, by decide +kernel⟩

end Seatel
