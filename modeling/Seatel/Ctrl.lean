import Seatel.Vars

/-!
# The control thread

The loop of `ctrl.c`: the failsafe, the azimuth calibration with its
1000 ms sleep in the middle of an iteration, the three axis switches and
the 20 ms sleep. The thread runs from one sleep to the next without
interruption by the request threads, so it is modelled as two blocks of
code, `ctrlTop` from the end of the 20 ms sleep and `ctrlResume` from the
end of the calibration sleep, and `ctrlStep` runs the one the thread
waits before.

The debug line the loop prints every 50 iterations only reads, and is
left out together with its counter.

Each switch is cut into the pure functions it evaluates (`azApproachSpd`,
`azTorque`, `elApproachSpd`, `elTorque`); what a switch can write is said
once, in `azControl_eq`, `elControl_eq` and `skControl_eq`.
-/

namespace Seatel

/-! ## Failsafe -/

/-- The failsafe condition: the accelerometer is dead, or a rotation rate is
outside 2070 ± 800. -/
def failsafe (imu : Imu) : Bool :=
  (imu.accelX == 0 && imu.accelY == 0 && imu.accelZ == 0)
    || imu.rotX.toNat < 2070 - 800 || imu.rotX.toNat > 2070 + 800
    || imu.rotY.toNat < 2070 - 800 || imu.rotY.toNat > 2070 + 800
    || imu.rotZ.toNat < 2070 - 800 || imu.rotZ.toNat > 2070 + 800

def ctrlFailsafe (v : Vars) : Vars :=
  if failsafe v.imu then skSetConstTrq 0 (elSetConstTrq 0 (azSetConstTrq 0 v)) else v

/-! ## Azimuth -/

/-- `tgt_pos_spd * TIME_I2MS(elapsed)/1000.0`: the speed is converted to the
unsigned 32-bit type of the milliseconds before the product. -/
def tgtPosShift (spd : Int16) (elapsed : SysTime) : ℚ :=
  ((UInt32.ofInt spd.toInt * timeI2Ms elapsed).toNat : ℚ) / 1000

/-- `enc`: where the antenna points, as the azimuth loop sees it. -/
def azEnc (v : Vars) : UInt16 := v.mde.encAz + v.mde.encAzOff

def azTgt (fpu : Fpu) (v : Vars) : UInt16 :=
  fpu.toU16 (v.ctrl.azTgtPos.toNat
    + tgtPosShift v.ctrl.azTgtPosSpd (chVTGetSystemTimeX v - v.ctrl.azTgtPosTim))

def azNullzone : Nat := 45

/-- `dir_diff > nullzone && UINT16_MAX-nullzone > dir_diff`. -/
def azOutsideNullzone (dirDiff : UInt16) : Bool :=
  dirDiff.toNat > azNullzone && 65535 - azNullzone > dirDiff.toNat

/-- The speed towards the target: half the distance, held between 2°/s and 30°/s. -/
def azApproachSpd (dirDiff dist : UInt16) : Int16 :=
  let dir : Int := if dirDiff.toNat < 32768 then 1 else -1
  let spd := Int16.ofInt ((dir * dist.toNat).tdiv 2)
  let spd := if spd.toInt.natAbs < 2 * 182 then Int16.ofInt (dir * 2 * 182) else spd
  if spd.toInt.natAbs > 30 * 182 then Int16.ofInt (dir * 30 * 182) else spd

/-- The speed law: the torque goes through an `int8_t` before it is limited. -/
def azTorque (tgt act : Int16) : Int8 :=
  let dir : Int := if tgt.toInt > 0 then 1 else -1
  let trq := Int8.ofInt ((tgt.toInt - act.toInt).tdiv 60 + 10 * dir)
  let trq := if trq.toInt > 25 then 25 else trq
  if trq.toInt < -25 then -25 else trq

/-- `case MOTOR_STATE_CONST_SPEED`. -/
def azConstSpeed (v : Vars) : Vars :=
  mdeSetTrqAz (azTorque v.ctrl.azTgtSpd v.mde.encAzSpeed) v

/-- `case MOTOR_STATE_TARGET_POSITION`; outside the null zone it falls through. -/
def azTargetPosition (fpu : Fpu) (v : Vars) : Vars :=
  let enc := azEnc v
  let tgt := azTgt fpu v
  let dirDiff := tgt - enc
  let dist := if tgt - enc < enc - tgt then tgt - enc else enc - tgt
  if azOutsideNullzone dirDiff then
    azConstSpeed (setAzTgtSpd (azApproachSpd dirDiff dist) v)
  else
    mdeSetTrqAz (if v.mde.motorAz.toInt > 0 then 3 else -3) v

def azControl (fpu : Fpu) (v : Vars) : Vars :=
  match v.ctrl.azState with
  | .constTorque => v
  | .targetPosition => azTargetPosition fpu v
  | .constSpeed => azConstSpeed v

/-! ## Elevation -/

/-- `imu`: where the antenna points, as the elevation loop sees it. -/
def elImu (v : Vars) : Int16 := Int16.ofInt (v.imu.elPos.toInt + v.imu.elOff.toInt)

/-- The holding torque, interpolated between 0° and 90°; both ends are 0. -/
def elStaticTrq (imu : Int16) : Int8 :=
  let trq0 : Int := 0
  let trq90 : Int := 0
  Int8.ofInt (trq0 + ((trq90 - trq0) * imu.toInt).tdiv 16384)

def elTgt (fpu : Fpu) (v : Vars) : Int16 :=
  fpu.toI16 (v.ctrl.elTgtPos.toInt
    + tgtPosShift v.ctrl.elTgtPosSpd (chVTGetSystemTimeX v - v.ctrl.elTgtPosTim))

def elDist (fpu : Fpu) (v : Vars) : Int16 :=
  Int16.ofInt ((elTgt fpu v).toInt - (elImu v).toInt)

/-- The speed towards the target: the distance, at least 1°/s outside the
constant-speed range and at most 15°/s. -/
def elApproachSpd (dist : Int16) : Int16 :=
  let dirEl : Int := if dist.toInt < 0 then -1 else 1
  let spd :=
    if dist.toInt.natAbs > 45 then
      if dist.toInt.natAbs < 1 * 182 then Int16.ofInt (dirEl * 1 * 182) else dist
    else dist
  if spd.toInt.natAbs > 15 * 182 then Int16.ofInt (dirEl * 15 * 182) else spd

/-- The speed law: limited in an `int16_t` and then narrowed. -/
def elTorque (tgtSpd elSpd : Int16) (staticTrq : Int8) : Int8 :=
  let spd : Int16 := if elSpd.toInt.natAbs < 150 then 0 else elSpd
  let movingTrq := Int16.ofInt ((tgtSpd.toInt - spd.toInt).tdiv 10)
  let trq := Int16.ofInt (movingTrq.toInt + staticTrq.toInt)
  let trq := if trq.toInt > 25 then 25 else trq
  let trq := if trq.toInt < -25 then -25 else trq
  Int8.ofInt trq.toInt

/-- `case MOTOR_STATE_CONST_SPEED`. -/
def elConstSpeed (v : Vars) : Vars :=
  mdeSetTrqEl (elTorque v.ctrl.elTgtSpd v.imu.elSpd (elStaticTrq (elImu v))) v

/-- `case MOTOR_STATE_TARGET_POSITION`, which always falls through. -/
def elTargetPosition (fpu : Fpu) (v : Vars) : Vars :=
  elConstSpeed (setElTgtSpd (elApproachSpd (elDist fpu v)) v)

def elControl (fpu : Fpu) (v : Vars) : Vars :=
  match v.ctrl.elState with
  | .constTorque => v
  | .targetPosition => elTargetPosition fpu v
  | .constSpeed => elConstSpeed v

/-! ## Skew -/

/-- Neither closed-loop mode is supported: both fall back to constant torque. -/
def skControl (v : Vars) : Vars :=
  match v.ctrl.skState with
  | .constTorque => v
  | .targetPosition => setSkState .constTorque v
  | .constSpeed => setSkState .constTorque v

/-! ## The loop -/

/-- Where the control thread waits. -/
inductive CtrlPc where
  | loopSleep
  | calibrateSleep
deriving Repr, DecidableEq

/-- The control thread: its wait and its local `old_az`. -/
structure CtrlThd where
  pc : CtrlPc
  oldAz : UInt16
deriving Repr, DecidableEq

/-- The axis switches and the time stamp that end an iteration. -/
def ctrlAxes (fpu : Fpu) (v : Vars) : Vars :=
  let v := skControl (elControl fpu (azControl fpu v))
  { v with ctrl := { v.ctrl with lastLoopUpdate := chVTGetSystemTimeX v } }

/-- From the top of the loop to the next sleep. -/
def ctrlTop (fpu : Fpu) (v : Vars) (t : CtrlThd) : Vars × CtrlThd :=
  let v := ctrlFailsafe v
  if v.ctrl.azFlagCalibrate then
    if v.ctrl.azState ≠ .constSpeed then
      (mdeSetTrqAz 25 v, { t with pc := .calibrateSleep })
    else
      let az := v.mde.encAz
      -- Overflow reached
      let v := if t.oldAz > az then azSetConstTrq 0 v else v
      (ctrlAxes fpu v, { pc := .loopSleep, oldAz := az })
  else
    (ctrlAxes fpu v, { t with pc := .loopSleep })

/-- From the end of the calibration sleep to the end of the iteration. -/
def ctrlResume (fpu : Fpu) (v : Vars) : Vars × CtrlThd :=
  let v := setAzState .constSpeed (setAzTgtSpd (180 * 30) v)
  (ctrlAxes fpu v, { pc := .loopSleep, oldAz := 0 })

/-- The control thread runs from the sleep it is in to the next one. -/
def ctrlStep (fpu : Fpu) (v : Vars) (t : CtrlThd) : Vars × CtrlThd :=
  match t.pc with
  | .loopSleep => ctrlTop fpu v t
  | .calibrateSleep => ctrlResume fpu v

/-- `ctrl_is_running`: the last iteration ended less than 100 ms ago. -/
def ctrlIsRunning (v : Vars) : Bool :=
  (timeI2Ms (chVTGetSystemTimeX v - v.ctrl.lastLoopUpdate)).toNat < 100

/-! ## What a switch can write -/

theorem azControl_eq (fpu : Fpu) (v : Vars) :
    ∃ spd trq, azControl fpu v = mdeSetTrqAz trq (setAzTgtSpd spd v) := by
  unfold azControl
  split
  · exact ⟨v.ctrl.azTgtSpd, v.mde.motorAz, rfl⟩
  · simp only [azTargetPosition]
    split
    · exact ⟨_, _, rfl⟩
    · exact ⟨v.ctrl.azTgtSpd, _, rfl⟩
  · exact ⟨v.ctrl.azTgtSpd, _, rfl⟩

theorem elControl_eq (fpu : Fpu) (v : Vars) :
    ∃ spd trq, elControl fpu v = mdeSetTrqEl trq (setElTgtSpd spd v) := by
  unfold elControl
  split
  · exact ⟨v.ctrl.elTgtSpd, v.mde.motorEl, rfl⟩
  · exact ⟨_, _, rfl⟩
  · exact ⟨v.ctrl.elTgtSpd, _, rfl⟩

theorem skControl_eq (v : Vars) : skControl v = setSkState .constTorque v := by
  unfold skControl
  split <;> rename_i h
  · rw [← h]; rfl
  · rfl
  · rfl

/-- The elevation switch reads nothing the azimuth switch writes. -/
theorem elControl_setAz (fpu : Fpu) (v : Vars) (spd : Int16) (trq : Int8) :
    elControl fpu (mdeSetTrqAz trq (setAzTgtSpd spd v))
      = mdeSetTrqAz trq (setAzTgtSpd spd (elControl fpu v)) := by
  have hs : (mdeSetTrqAz trq (setAzTgtSpd spd v)).ctrl.elState = v.ctrl.elState := rfl
  rw [elControl, elControl, hs]
  cases v.ctrl.elState <;> rfl

/-! ## The axis switches, view by view -/

section Views

variable (fpu : Fpu) (v : Vars)

theorem ctrlAxes_az : (ctrlAxes fpu v).az = (azControl fpu v).az := by
  obtain ⟨spd, trq, h⟩ := elControl_eq fpu (azControl fpu v)
  rw [ctrlAxes, skControl_eq, h]
  rfl

theorem ctrlAxes_el : (ctrlAxes fpu v).el = (elControl fpu v).el := by
  obtain ⟨spd, trq, h⟩ := azControl_eq fpu v
  rw [ctrlAxes, skControl_eq, h, elControl_setAz]
  rfl

/-- An iteration writes exactly these variables besides the skew mode and the
time stamp. -/
theorem ctrlAxes_eq : ∃ azSpd azTrq elSpd elTrq,
    ctrlAxes fpu v = { v with
      ctrl := { v.ctrl with
        azTgtSpd := azSpd
        elTgtSpd := elSpd
        skState := .constTorque
        lastLoopUpdate := chVTGetSystemTimeX v }
      mde := { v.mde with motorAz := azTrq, motorEl := elTrq } } := by
  obtain ⟨azSpd, azTrq, haz⟩ := azControl_eq fpu v
  obtain ⟨elSpd, elTrq, hel⟩ := elControl_eq fpu v
  refine ⟨azSpd, azTrq, elSpd, elTrq, ?_⟩
  rw [ctrlAxes, skControl_eq, haz, elControl_setAz, hel]
  rfl

theorem ctrlAxes_sk : (ctrlAxes fpu v).sk = { v.sk with state := .constTorque } := by
  obtain ⟨_, _, _, _, h⟩ := ctrlAxes_eq fpu v
  rw [h]; rfl

@[simp] theorem ctrlAxes_pwr : (ctrlAxes fpu v).pwr = v.pwr := by
  obtain ⟨_, _, _, _, h⟩ := ctrlAxes_eq fpu v
  rw [h]; rfl

@[simp] theorem ctrlAxes_azFlagCalibrate :
    (ctrlAxes fpu v).ctrl.azFlagCalibrate = v.ctrl.azFlagCalibrate := by
  obtain ⟨_, _, _, _, h⟩ := ctrlAxes_eq fpu v
  rw [h]

@[simp] theorem ctrlAxes_azState : (ctrlAxes fpu v).ctrl.azState = v.ctrl.azState := by
  obtain ⟨_, _, _, _, h⟩ := ctrlAxes_eq fpu v
  rw [h]

@[simp] theorem ctrlAxes_elState : (ctrlAxes fpu v).ctrl.elState = v.ctrl.elState := by
  obtain ⟨_, _, _, _, h⟩ := ctrlAxes_eq fpu v
  rw [h]

@[simp] theorem ctrlAxes_motorSk : (ctrlAxes fpu v).mde.motorSk = v.mde.motorSk := by
  obtain ⟨_, _, _, _, h⟩ := ctrlAxes_eq fpu v
  rw [h]

end Views

/-- At constant torque the azimuth switch does nothing. -/
theorem ctrlAxes_motorAz (fpu : Fpu) {v : Vars} (h : v.ctrl.azState = .constTorque) :
    (ctrlAxes fpu v).mde.motorAz = v.mde.motorAz := by
  have haz : azControl fpu v = v := by rw [azControl, h]
  have := congrArg AzView.motor (ctrlAxes_az fpu v)
  rwa [haz] at this

/-- At constant torque the elevation switch does nothing. -/
theorem ctrlAxes_motorEl (fpu : Fpu) {v : Vars} (h : v.ctrl.elState = .constTorque) :
    (ctrlAxes fpu v).mde.motorEl = v.mde.motorEl := by
  have hel : elControl fpu v = v := by rw [elControl, h]
  have := congrArg ElView.motor (ctrlAxes_el fpu v)
  rwa [hel] at this

/-! ## Targets that stand still -/

theorem tgtPosShift_zero (elapsed : SysTime) : tgtPosShift 0 elapsed = 0 := by
  have h : UInt32.ofInt (Int16.toInt 0) = 0 := rfl
  rw [tgtPosShift, h]
  simp

theorem azTgt_of_still (fpu : Fpu) {v : Vars} (h : v.ctrl.azTgtPosSpd = 0) :
    azTgt fpu v = v.ctrl.azTgtPos := by
  rw [azTgt, h, tgtPosShift_zero, add_zero]
  exact fpu.toU16_natCast _

theorem elTgt_of_still (fpu : Fpu) {v : Vars} (h : v.ctrl.elTgtPosSpd = 0) :
    elTgt fpu v = v.ctrl.elTgtPos := by
  rw [elTgt, h, tgtPosShift_zero, add_zero]
  exact fpu.toI16_intCast _

/-! ## What a step of the control thread can do -/

/-- All three axes at constant torque 0, and no calibration. -/
def stopAll (v : Vars) : Vars := skSetConstTrq 0 (elSetConstTrq 0 (azSetConstTrq 0 v))

/-- The five ways through the loop body from its top: failsafe, no calibration,
start of a calibration, its end, and calibration going on. -/
inductive CtrlTop (fpu : Fpu) (v : Vars) (t : CtrlThd) : Vars × CtrlThd → Prop where
  | failsafe (htrip : failsafe v.imu = true) :
      CtrlTop fpu v t (ctrlAxes fpu (stopAll v), { t with pc := .loopSleep })
  | plain (htrip : failsafe v.imu = false) (hflag : v.ctrl.azFlagCalibrate = false) :
      CtrlTop fpu v t (ctrlAxes fpu v, { t with pc := .loopSleep })
  | start (htrip : failsafe v.imu = false) (hflag : v.ctrl.azFlagCalibrate = true)
      (hst : v.ctrl.azState ≠ .constSpeed) :
      CtrlTop fpu v t (mdeSetTrqAz 25 v, { t with pc := .calibrateSleep })
  | finish (htrip : failsafe v.imu = false) (hflag : v.ctrl.azFlagCalibrate = true)
      (hst : v.ctrl.azState = .constSpeed) (hover : t.oldAz > v.mde.encAz) :
      CtrlTop fpu v t
        (ctrlAxes fpu (azSetConstTrq 0 v), { pc := .loopSleep, oldAz := v.mde.encAz })
  | rotate (htrip : failsafe v.imu = false) (hflag : v.ctrl.azFlagCalibrate = true)
      (hst : v.ctrl.azState = .constSpeed) (hover : ¬ t.oldAz > v.mde.encAz) :
      CtrlTop fpu v t (ctrlAxes fpu v, { pc := .loopSleep, oldAz := v.mde.encAz })

theorem ctrlTop_cases (fpu : Fpu) (v : Vars) (t : CtrlThd) :
    CtrlTop fpu v t (ctrlTop fpu v t) := by
  cases htrip : failsafe v.imu with
  | true =>
      have hv : ctrlFailsafe v = stopAll v := if_pos htrip
      have heq : ctrlTop fpu v t = (ctrlAxes fpu (stopAll v), { t with pc := .loopSleep }) := by
        simp only [ctrlTop, hv]
        rfl
      rw [heq]
      exact .failsafe htrip
  | false =>
      have hv : ctrlFailsafe v = v := if_neg (by simp [htrip])
      simp only [ctrlTop, hv]
      cases hflag : v.ctrl.azFlagCalibrate with
      | false => exact .plain htrip hflag
      | true =>
          simp only [if_true]
          split
          · rename_i hst
            exact .start htrip hflag hst
          · rename_i hst
            have hst := not_not.mp hst
            split
            · rename_i hover
              exact .finish htrip hflag hst hover
            · rename_i hover
              exact .rotate htrip hflag hst hover

theorem ctrlStep_cases (fpu : Fpu) (v : Vars) {t : CtrlThd} (hpc : t.pc = .loopSleep) :
    CtrlTop fpu v t (ctrlStep fpu v t) := by
  rw [ctrlStep, hpc]
  exact ctrlTop_cases fpu v t

theorem ctrlStep_resume (fpu : Fpu) (v : Vars) {t : CtrlThd} (hpc : t.pc = .calibrateSleep) :
    ctrlStep fpu v t = ctrlResume fpu v := by
  rw [ctrlStep, hpc]

/-- An iteration that trips the failsafe stops everything and then runs the
switches. -/
theorem ctrlStep_tripped (fpu : Fpu) {v : Vars} {t : CtrlThd} (hpc : t.pc = .loopSleep)
    (htrip : failsafe v.imu = true) : ctrlStep fpu v t = (ctrlAxes fpu (stopAll v), t) := by
  have hcases := ctrlStep_cases fpu v hpc
  obtain ⟨pc, oldAz⟩ := t
  subst hpc
  generalize ctrlStep fpu v ⟨.loopSleep, oldAz⟩ = r at hcases
  cases hcases with
  | failsafe => rfl
  | plain htrip' => cases htrip.symm.trans htrip'
  | start htrip' => cases htrip.symm.trans htrip'
  | finish htrip' => cases htrip.symm.trans htrip'
  | rotate htrip' => cases htrip.symm.trans htrip'

/-- An iteration without failsafe and calibration only runs the switches. -/
theorem ctrlStep_plain (fpu : Fpu) {v : Vars} {t : CtrlThd} (hpc : t.pc = .loopSleep)
    (htrip : failsafe v.imu = false) (hflag : v.ctrl.azFlagCalibrate = false) :
    ctrlStep fpu v t = (ctrlAxes fpu v, t) := by
  have hcases := ctrlStep_cases fpu v hpc
  obtain ⟨pc, oldAz⟩ := t
  subst hpc
  generalize ctrlStep fpu v ⟨.loopSleep, oldAz⟩ = r at hcases
  cases hcases with
  | failsafe htrip' => cases htrip.symm.trans htrip'
  | plain => rfl
  | start _ hflag' => cases hflag.symm.trans hflag'
  | finish _ hflag' => cases hflag.symm.trans hflag'
  | rotate _ hflag' => cases hflag.symm.trans hflag'

/-- The iteration of a calibration that is rotating. -/
theorem ctrlStep_rotating (fpu : Fpu) {v : Vars} {t : CtrlThd} (hpc : t.pc = .loopSleep)
    (htrip : failsafe v.imu = false) (hflag : v.ctrl.azFlagCalibrate = true)
    (hst : v.ctrl.azState = .constSpeed) :
    ctrlStep fpu v t
      = (ctrlAxes fpu (if t.oldAz > v.mde.encAz then azSetConstTrq 0 v else v),
          { pc := .loopSleep, oldAz := v.mde.encAz }) := by
  have hv : ctrlFailsafe v = v := if_neg (by simp [htrip])
  simp only [ctrlStep, hpc, ctrlTop, hv, hflag, hst, if_true, ne_eq, not_true_eq_false, if_false]

/-- The iteration that starts a calibration. -/
theorem ctrlStep_starting (fpu : Fpu) {v : Vars} {t : CtrlThd} (hpc : t.pc = .loopSleep)
    (htrip : failsafe v.imu = false) (hflag : v.ctrl.azFlagCalibrate = true)
    (hst : v.ctrl.azState ≠ .constSpeed) :
    ctrlStep fpu v t = (mdeSetTrqAz 25 v, { t with pc := .calibrateSleep }) := by
  have hv : ctrlFailsafe v = v := if_neg (by simp [htrip])
  simp only [ctrlStep, hpc, ctrlTop, hv, hflag, if_true]
  exact if_pos hst

/-- What none of the thread's writes touches, a step keeps. -/
theorem ctrlStep_keeps {α : Type} (f : Vars → α) (fpu : Fpu) (v : Vars) (t : CtrlThd)
    (haxes : ∀ v, f (ctrlAxes fpu v) = f v) (hstop : f (stopAll v) = f v)
    (htrq : f (mdeSetTrqAz 25 v) = f v) (hend : f (azSetConstTrq 0 v) = f v)
    (hresume : f (setAzState .constSpeed (setAzTgtSpd (180 * 30) v)) = f v) :
    f (ctrlStep fpu v t).1 = f v := by
  cases hpc : t.pc with
  | calibrateSleep =>
      rw [ctrlStep_resume fpu v hpc]
      exact (haxes _).trans hresume
  | loopSleep =>
      have hcases := ctrlStep_cases fpu v hpc
      generalize ctrlStep fpu v t = r at hcases
      cases hcases with
      | failsafe => exact (haxes _).trans hstop
      | plain => exact haxes v
      | start => exact htrq
      | finish => exact (haxes _).trans hend
      | rotate => exact haxes v

/-- The control thread does not touch the power switch. -/
theorem ctrlStep_pwr (fpu : Fpu) (v : Vars) (t : CtrlThd) : (ctrlStep fpu v t).1.pwr = v.pwr :=
  ctrlStep_keeps Vars.pwr fpu v t (ctrlAxes_pwr fpu) rfl rfl rfl rfl

/-- Nor the readings of the IMU. -/
theorem ctrlStep_imu (fpu : Fpu) (v : Vars) (t : CtrlThd) : (ctrlStep fpu v t).1.imu = v.imu := by
  refine ctrlStep_keeps Vars.imu fpu v t (fun v => ?_) rfl rfl rfl rfl
  obtain ⟨_, _, _, _, h⟩ := ctrlAxes_eq fpu v
  rw [h]

end Seatel
