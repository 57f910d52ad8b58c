import Seatel.System

/-!
# Where the antenna points

The position is a raw reading plus a user-set offset, on 16 bits. The
control loop adds the two for each axis (`azEnc`, `elImu`); the API and
the dashboard each do it again, and the stop command does not do it at
all.

The first half compares what `p` and the dashboard show with what the
control loop compares with its target. The second half is the stop
command: it takes the raw readings as targets, so the loop moves away by
the offsets.
-/

namespace Seatel

open Runs CInt

/-! ## Counts on display -/

/-- The azimuth count of API command `p`, a sum of two `int`s. -/
def apiAzCount (v : Vars) : Int := v.mde.encAz.toNat + v.mde.encAzOff.toNat

/-- The elevation count of API command `p`, before its clamp at 0. -/
def apiElCount (v : Vars) : Int := v.imu.elPos.toInt

/-- `az` of the dashboard script. -/
def dashboardAz (v : Vars) : Int :=
  let az : Int := v.mde.encAz.toNat + v.mde.encAzOff.toNat
  if az > 65536 then az - 65536 else az

/-- `el` of the dashboard script. -/
def dashboardEl (v : Vars) : Int := v.imu.elPos.toInt + v.imu.elOff.toInt

/-- Both displays show, on both axes, the position the control loop works with. -/
structure PointingAgrees (v : Vars) : Prop where
  apiAz : apiAzCount v = (azEnc v).toNat
  dashboardAz : dashboardAz v = (azEnc v).toNat
  apiEl : apiElCount v = (elImu v).toInt
  dashboardEl : dashboardEl v = (elImu v).toInt

theorem azEnc_toNat (v : Vars) :
    (azEnc v).toNat = (v.mde.encAz.toNat + v.mde.encAzOff.toNat) % 65536 :=
  UInt16.toNat_add v.mde.encAz v.mde.encAzOff

theorem apiAzCount_iff (v : Vars) :
    apiAzCount v = (azEnc v).toNat ↔ v.mde.encAz.toNat + v.mde.encAzOff.toNat < 65536 := by
  have hpos : v.mde.encAz.toNat < 65536 := v.mde.encAz.toNat_lt
  have hoff : v.mde.encAzOff.toNat < 65536 := v.mde.encAzOff.toNat_lt
  rw [azEnc_toNat, apiAzCount]
  omega

/-- The dashboard misses only the sum that is one turn exactly. -/
theorem dashboardAz_iff (v : Vars) :
    dashboardAz v = (azEnc v).toNat ↔ v.mde.encAz.toNat + v.mde.encAzOff.toNat ≠ 65536 := by
  have hpos : v.mde.encAz.toNat < 65536 := v.mde.encAz.toNat_lt
  have hoff : v.mde.encAzOff.toNat < 65536 := v.mde.encAzOff.toNat_lt
  rw [azEnc_toNat, dashboardAz]
  split <;> omega

theorem apiElCount_iff (v : Vars) :
    apiElCount v = (elImu v).toInt ↔ v.imu.elOff.toInt = 0 := by
  obtain ⟨hoff1, hoff2⟩ := toInt16_mem v.imu.elOff
  obtain ⟨hpos1, hpos2⟩ := toInt16_mem v.imu.elPos
  obtain ⟨k, hk⟩ := toInt_ofInt16 (v.imu.elPos.toInt + v.imu.elOff.toInt)
  rw [elImu, hk, apiElCount]
  obtain ⟨h1, h2⟩ := toInt16_mem (elImu v)
  rw [elImu, hk] at h1 h2
  omega

theorem dashboardEl_iff (v : Vars) :
    dashboardEl v = (elImu v).toInt
      ↔ -32768 ≤ v.imu.elPos.toInt + v.imu.elOff.toInt
        ∧ v.imu.elPos.toInt + v.imu.elOff.toInt ≤ 32767 := by
  obtain ⟨k, hk⟩ := toInt_ofInt16 (v.imu.elPos.toInt + v.imu.elOff.toInt)
  obtain ⟨h1, h2⟩ := toInt16_mem (elImu v)
  rw [elImu, hk] at h1 h2
  rw [elImu, hk, dashboardEl]
  omega

/-- All agree exactly when the azimuth sum does not wrap and there is no
elevation offset. -/
theorem pointing_agrees_iff (v : Vars) :
    PointingAgrees v
      ↔ v.mde.encAz.toNat + v.mde.encAzOff.toNat < 65536 ∧ v.imu.elOff.toInt = 0 := by
  constructor
  · intro h
    exact ⟨(apiAzCount_iff v).mp h.apiAz, (apiElCount_iff v).mp h.apiEl⟩
  · rintro ⟨haz, hel⟩
    have hpos := toInt16_mem v.imu.elPos
    exact ⟨(apiAzCount_iff v).mpr haz, (dashboardAz_iff v).mpr (by omega),
      (apiElCount_iff v).mpr hel, (dashboardEl_iff v).mpr (by omega)⟩

/-- An encoder value of 60000 with an offset of 10000 is 70000 for `p`. -/
theorem pointing_disagrees_past_wrap :
    ¬ PointingAgrees { mde := { encAz := 60000, encAzOff := 10000 } } := by
  intro h
  exact absurd h.apiAz (by decide)

/-! ## The stop command -/

/-- What the sensors and the offset setters have stored. -/
def sensors (v : Vars) : UInt16 × UInt16 × Imu :=
  (v.mde.encAz, v.mde.encAzOff, { v.imu with rotY0 := 0 })

/-- No command for azimuth or elevation, and the same readings and offsets as
before. -/
def Steady (fpu : Fpu) (s : Sys) (a : Act) : Prop :=
  (∀ r, a = .req r → commandFor .az r = false ∧ commandFor .el r = false)
    ∧ sensors (sysNext fpu s a).vars = sensors s.vars

/-- The control iteration taken at `s` finds azimuth in its null zone, where it
only sets the holding torque, and no elevation distance. -/
structure HoldsPointing (fpu : Fpu) (s : Sys) : Prop where
  azState : (sysNext fpu s .ctrl).vars.ctrl.azState = .targetPosition
  azInside : azOutsideNullzone (azTgt fpu s.vars - azEnc s.vars) = false
  azTgtSpd : (sysNext fpu s .ctrl).vars.ctrl.azTgtSpd = s.vars.ctrl.azTgtSpd
  motorAz : (sysNext fpu s .ctrl).vars.mde.motorAz = 3 ∨ (sysNext fpu s .ctrl).vars.mde.motorAz = -3
  elState : (sysNext fpu s .ctrl).vars.ctrl.elState = .targetPosition
  elDist : elDist fpu s.vars = 0

/-- No calibration sleep and no failsafe when the command comes, an azimuth
offset inside the null zone and no elevation offset. -/
def StopOk (s : Sys) : Prop :=
  s.ctrl.pc = .loopSleep ∧ failsafe s.vars.imu = false
    ∧ (s.vars.mde.encAzOff.toNat ≤ 46 ∨ 65491 ≤ s.vars.mde.encAzOff.toNat)
    ∧ s.vars.imu.elOff.toInt = 0

/-- What `S` leaves behind: raw readings as targets that stand still. -/
structure StopTargets (s : Sys) : Prop where
  azFlagCalibrate : s.vars.ctrl.azFlagCalibrate = false
  azState : s.vars.ctrl.azState = .targetPosition
  elState : s.vars.ctrl.elState = .targetPosition
  azTgtPos : s.vars.ctrl.azTgtPos = s.vars.mde.encAz
  elTgtPos : s.vars.ctrl.elTgtPos = s.vars.imu.elPos
  azTgtPosSpd : s.vars.ctrl.azTgtPosSpd = 0
  elTgtPosSpd : s.vars.ctrl.elTgtPosSpd = 0

theorem stopTargets_apiStop (fpu : Fpu) (s : Sys) :
    StopTargets (sysNext fpu s (.req .apiStop)) :=
  ⟨rfl, rfl, rfl, rfl, rfl, rfl, rfl⟩

/-- With these targets the azimuth loop sees the offset as distance, negated. -/
theorem azInside_iff (fpu : Fpu) {s : Sys} (h : StopTargets s) :
    azOutsideNullzone (azTgt fpu s.vars - azEnc s.vars) = false
      ↔ s.vars.mde.encAzOff.toNat ≤ 46 ∨ 65491 ≤ s.vars.mde.encAzOff.toNat := by
  have hpos : s.vars.mde.encAz.toNat < 65536 := s.vars.mde.encAz.toNat_lt
  have hoff : s.vars.mde.encAzOff.toNat < 65536 := s.vars.mde.encAzOff.toNat_lt
  have hdiff : (s.vars.mde.encAz - azEnc s.vars).toNat
      = (65536 - s.vars.mde.encAzOff.toNat) % 65536 := by
    rw [UInt16.toNat_sub, azEnc_toNat]
    omega
  rw [azTgt_of_still fpu h.azTgtPosSpd, h.azTgtPos, azOutsideNullzone, hdiff]
  rw [← Bool.not_eq_true, Bool.and_eq_true, decide_eq_true_eq, decide_eq_true_eq, azNullzone]
  omega

theorem elDist_iff (fpu : Fpu) {s : Sys} (h : StopTargets s) :
    elDist fpu s.vars = 0 ↔ s.vars.imu.elOff.toInt = 0 := by
  obtain ⟨hoff1, hoff2⟩ := toInt16_mem s.vars.imu.elOff
  obtain ⟨k, hk⟩ := toInt_ofInt16 (s.vars.imu.elPos.toInt + s.vars.imu.elOff.toInt)
  obtain ⟨j, hj⟩ := toInt_ofInt16 (s.vars.imu.elPos.toInt - (elImu s.vars).toInt)
  obtain ⟨hd1, hd2⟩ := toInt16_mem (elDist fpu s.vars)
  have hdist : (elDist fpu s.vars).toInt = -s.vars.imu.elOff.toInt - 65536 * k + 65536 * j := by
    rw [elDist, elTgt_of_still fpu h.elTgtPosSpd, h.elTgtPos, hj, elImu, hk]
    omega
  have hzero : elDist fpu s.vars = 0 ↔ (elDist fpu s.vars).toInt = 0 := Int16.toInt_inj.symm
  rw [hzero]
  omega

/-- An iteration with these targets, when it is not kept from the switches. -/
theorem holdsPointing_of_ok (fpu : Fpu) {s : Sys} (h : StopTargets s) (hok : StopOk s) :
    HoldsPointing fpu s := by
  obtain ⟨hpc, htrip, haz, hel⟩ := hok
  have hinside := (azInside_iff fpu h).mpr haz
  have hplain := ctrlStep_plain fpu hpc htrip h.azFlagCalibrate
  have haxis : azControl fpu s.vars
      = mdeSetTrqAz (if s.vars.mde.motorAz.toInt > 0 then 3 else -3) s.vars := by
    simp only [azControl, h.azState, azTargetPosition, hinside, Bool.false_eq_true, if_false]
  have hview := ctrlAxes_az fpu s.vars
  rw [haxis] at hview
  refine ⟨?_, hinside, ?_, ?_, ?_, (elDist_iff fpu h).mpr hel⟩ <;> simp only [sysNext, hplain]
  · exact (ctrlAxes_azState fpu s.vars).trans h.azState
  · exact congrArg AzView.tgtSpd hview
  · have hmot := congrArg AzView.motor hview
    simp only [Vars.az, mdeSetTrqAz] at hmot
    rw [hmot]
    split
    · exact Or.inl rfl
    · exact Or.inr rfl
  · exact (ctrlAxes_elState fpu s.vars).trans h.elState

/-- Conversely, an iteration that holds the position was not kept from the
switches, and the offsets did not matter. -/
theorem ok_of_holdsPointing (fpu : Fpu) {s : Sys} (h : StopTargets s)
    (hhold : HoldsPointing fpu s) : StopOk s := by
  have haz := (azInside_iff fpu h).mp hhold.azInside
  have hel := (elDist_iff fpu h).mp hhold.elDist
  have hst := hhold.azState
  simp only [sysNext] at hst
  cases hpc : s.ctrl.pc with
  | calibrateSleep =>
      rw [ctrlStep_resume fpu _ hpc] at hst
      simp [ctrlResume, setAzState] at hst
  | loopSleep =>
      refine ⟨hpc, ?_, haz, hel⟩
      have hcases := ctrlStep_cases fpu s.vars hpc
      have hflag := h.azFlagCalibrate
      generalize ctrlStep fpu s.vars s.ctrl = r at hcases hst
      cases hcases with
      | failsafe => simp [stopAll, skSetConstTrq, elSetConstTrq, azSetConstTrq, setSkState,
          mdeSetTrqSk, setElState, mdeSetTrqEl, mdeSetTrqAz, setAzState] at hst
      | plain htrip => exact htrip
      | start htrip => exact htrip
      | finish htrip => exact htrip
      | rotate htrip => exact htrip

/-! ## Every iteration after a stop -/

/-- The modes and targets the stop command has set. -/
def targets (c : Ctrl) : Bool × MotorState × MotorState × UInt16 × Int16 × Int16 × Int16 :=
  (c.azFlagCalibrate, c.azState, c.elState, c.azTgtPos, c.elTgtPos, c.azTgtPosSpd, c.elTgtPosSpd)

/-- Nothing but a command moves them, unless an iteration is kept from the
switches. -/
theorem targets_next (fpu : Fpu) {s : Sys} (h : StopTargets s) (hok : StopOk s) {a : Act}
    (hsteady : Steady fpu s a) :
    targets (sysNext fpu s a).vars.ctrl = targets s.vars.ctrl
      ∧ (sysNext fpu s a).ctrl.pc = .loopSleep := by
  obtain ⟨hpc, htrip, -, -⟩ := hok
  cases a with
  | req r =>
      obtain ⟨haz, hel⟩ := hsteady.1 r rfl
      refine ⟨?_, hpc⟩
      cases r <;> first | rfl | (cases haz; done) | cases hel
  | ctrl =>
      have hplain := ctrlStep_plain fpu hpc htrip h.azFlagCalibrate
      obtain ⟨_, _, _, _, heq⟩ := ctrlAxes_eq fpu s.vars
      simp only [sysNext, hplain, heq]
      exact ⟨rfl, hpc⟩
  | mde miso =>
      have hf := mdeStep_frame fpu miso s.vars s.mde
      exact ⟨congrArg targets hf.ctrl, hpc⟩
  | imu r => exact ⟨rfl, hpc⟩
  | tick n => exact ⟨rfl, hpc⟩

/-- The failsafe does not look at the gyro zero. -/
theorem failsafe_rotY0 (imu : Imu) : failsafe { imu with rotY0 := 0 } = failsafe imu := by
  unfold failsafe
  rfl

theorem stopTargets_next (fpu : Fpu) {s : Sys} (h : StopTargets s) (hok : StopOk s) {a : Act}
    (hsteady : Steady fpu s a) : StopTargets (sysNext fpu s a) ∧ StopOk (sysNext fpu s a) := by
  obtain ⟨htgt, hpc⟩ := targets_next fpu h hok hsteady
  obtain ⟨-, htrip, haz, hel⟩ := hok
  have hsens := hsteady.2
  generalize sysNext fpu s a = s' at htgt hpc hsens ⊢
  simp only [targets, Prod.mk.injEq] at htgt
  obtain ⟨hflag, hazst, helst, haztgt, heltgt, hazspd, helspd⟩ := htgt
  have henc : s'.vars.mde.encAz = s.vars.mde.encAz := congrArg Prod.fst hsens
  have hoff : s'.vars.mde.encAzOff = s.vars.mde.encAzOff := congrArg (fun x => x.2.1) hsens
  have helpos : s'.vars.imu.elPos = s.vars.imu.elPos := congrArg (fun x => x.2.2.elPos) hsens
  have heloff : s'.vars.imu.elOff = s.vars.imu.elOff := congrArg (fun x => x.2.2.elOff) hsens
  have htrip' : failsafe s'.vars.imu = failsafe s.vars.imu := by
    have himu : { s'.vars.imu with rotY0 := 0 } = { s.vars.imu with rotY0 := 0 } :=
      congrArg (fun x => x.2.2) hsens
    rw [← failsafe_rotY0 s'.vars.imu, himu, failsafe_rotY0]
  refine ⟨⟨?_, ?_, ?_, ?_, ?_, ?_, ?_⟩, hpc, htrip'.trans htrip, ?_, ?_⟩
  · exact hflag.trans h.azFlagCalibrate
  · exact hazst.trans h.azState
  · exact helst.trans h.elState
  · exact (haztgt.trans h.azTgtPos).trans henc.symm
  · exact (heltgt.trans h.elTgtPos).trans helpos.symm
  · exact hazspd.trans h.azTgtPosSpd
  · exact helspd.trans h.elTgtPosSpd
  · rw [hoff]
    exact haz
  · rw [heloff]
    exact hel

/-- Every iteration after `S` holds the position, as long as the readings do not
change, exactly when the command came outside failsafe and calibration sleep,
with an azimuth offset the null zone covers and no elevation offset. -/
theorem apiStop_holds_pointing_iff (fpu : Fpu) (s : Sys) :
    (∀ as, Along (sysNext fpu) (Steady fpu) (sysNext fpu s (.req .apiStop)) as →
        HoldsPointing fpu (run (sysNext fpu) (sysNext fpu s (.req .apiStop)) as))
      ↔ StopOk s := by
  have hstop := stopTargets_apiStop fpu s
  constructor
  · intro h
    have hok := ok_of_holdsPointing fpu hstop (h [] trivial)
    exact hok
  · intro hok as has
    have hinv := run_invariant (I := fun s => StopTargets s ∧ StopOk s)
      (fun s a hs ha => stopTargets_next fpu hs.1 hs.2 ha) ⟨hstop, hok⟩ has
    exact holdsPointing_of_ok fpu hinv.1 hinv.2

/-- The antenna at rest, with both offsets set. -/
def withOffsets : Sys :=
  run (sysNext Fpu.modular) (Sys.boot 0 0 0 0)
    [.imu imuAtRest, .req (.mdeSetAzEncOff 1000), .req (.imuSetElOff 100)]

/-- Stopped there, it is sent away by the offsets. -/
theorem apiStop_moves_by_offsets :
    let s := sysNext Fpu.modular withOffsets (.req .apiStop)
    ¬ HoldsPointing Fpu.modular s
      ∧ (sysNext Fpu.modular s .ctrl).vars.ctrl.azTgtSpd = -500
      ∧ elDist Fpu.modular s.vars = -100 := by
  refine ⟨fun h => absurd h.elDist ?_, ?_, ?_⟩ <;> decide +kernel

end Seatel
