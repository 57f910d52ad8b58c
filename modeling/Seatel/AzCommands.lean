import Seatel.System

/-!
# Azimuth commands and the calibration sleep

The calibration branch writes the azimuth mode twice, with a sleep of one
second between the two: it raises the torque, sleeps, and then enters
constant speed whatever has been commanded meanwhile. A torque or
position command that falls into the sleep clears the calibration flag
but not the rotation that follows, and nothing is left to stop it.

The specification is a monitor beside the firmware: `AzLast` is the last
word on the azimuth mode, from a command or from a reset by the failsafe
or the end of a calibration. `AzAgrees` says what the variables look like
when the mode is the one last asked for.
-/

namespace Seatel

open Runs

/-- The last word on the azimuth mode. -/
inductive AzLast where
  | torque (t : Int8)
  | target
  | calibrate
deriving Repr, DecidableEq

/-- The iteration about to start ends a calibration. -/
def calibrationEnds (s : Sys) : Prop :=
  s.vars.ctrl.azFlagCalibrate = true ∧ s.vars.ctrl.azState = .constSpeed
    ∧ s.ctrl.oldAz > s.vars.mde.encAz

instance (s : Sys) : Decidable (calibrationEnds s) := inferInstanceAs (Decidable (_ ∧ _))

def azLastNext (s : Sys) (last : AzLast) : Act → AzLast
  | .req (.azSetConstTrq t) => .torque t
  | .req (.azSetTgtPos _) => .target
  | .req (.apiPos _ _ _) => .target
  | .req .apiStop => .target
  | .req .azCalibrate => .calibrate
  | .ctrl =>
      if s.ctrl.pc = .loopSleep ∧ (failsafe s.vars.imu = true ∨ calibrationEnds s) then
        .torque 0
      else last
  | _ => last

/-- The firmware and the monitor beside it. -/
structure AzMon where
  sys : Sys
  last : AzLast

def azMonNext (fpu : Fpu) (m : AzMon) (a : Act) : AzMon where
  sys := sysNext fpu m.sys a
  last := azLastNext m.sys m.last a

/-- The azimuth mode is the one last asked for. -/
def AzAgrees (last : AzLast) (v : Vars) : Prop :=
  match last with
  | .torque t => v.ctrl.azState = .constTorque ∧ v.mde.motorAz = t
  | .target => v.ctrl.azState = .targetPosition
  | .calibrate => v.ctrl.azState = .constSpeed ∧ v.ctrl.azFlagCalibrate = true

/-- If the step ends a control iteration, the mode agrees with the last word and
a constant-speed rotation has its stop condition armed. -/
def IterationOk (fpu : Fpu) (m : AzMon) (a : Act) : Prop :=
  a = .ctrl → (azMonNext fpu m a).sys.ctrl.pc = .loopSleep →
    let m' := azMonNext fpu m a
    AzAgrees m'.last m'.sys.vars
      ∧ (m'.sys.vars.ctrl.azState = .constSpeed → m'.sys.vars.ctrl.azFlagCalibrate = true)

/-- If the step ends the calibration sleep, calibration is still what was last
asked for. -/
def CalibrateSleepOk (m : AzMon) (a : Act) : Prop :=
  a = .ctrl → m.sys.ctrl.pc = .calibrateSleep → m.last = .calibrate

/-! ## The invariant -/

/-- Between steps a pending calibration may not have changed the mode yet; the
other words are already in force, with the flag down. -/
def AzInv (last : AzLast) (v : Vars) : Prop :=
  match last with
  | .torque t => v.ctrl.azFlagCalibrate = false ∧ v.ctrl.azState = .constTorque
      ∧ v.mde.motorAz = t
  | .target => v.ctrl.azFlagCalibrate = false ∧ v.ctrl.azState = .targetPosition
  | .calibrate => v.ctrl.azFlagCalibrate = true

/-- Only flag, mode and torque matter. -/
theorem AzInv.congr {last : AzLast} {v v' : Vars} (h : AzInv last v)
    (hflag : v'.ctrl.azFlagCalibrate = v.ctrl.azFlagCalibrate)
    (hst : v'.ctrl.azState = v.ctrl.azState) (hmot : v'.mde.motorAz = v.mde.motorAz) :
    AzInv last v' := by
  cases last with
  | torque t => exact ⟨hflag.trans h.1, hst.trans h.2.1, hmot.trans h.2.2⟩
  | target => exact ⟨hflag.trans h.1, hst.trans h.2⟩
  | calibrate => exact hflag.trans h

theorem azInv_serve (s : Sys) {last : AzLast} (h : AzInv last s.vars) (r : Request) :
    AzInv (azLastNext s last (.req r)) (serve s.vars r) := by
  cases r with
  | azSetConstTrq t => exact ⟨rfl, rfl, rfl⟩
  | azSetTgtPos p => exact ⟨rfl, rfl⟩
  | apiPos az el slow => cases slow <;> exact ⟨rfl, rfl⟩
  | apiStop => exact ⟨rfl, rfl⟩
  | azCalibrate => exact rfl
  | _ => exact h.congr rfl rfl rfl

/-- The axis switches keep the invariant: the torque can change only in a mode
that does not fix it. -/
theorem azInv_ctrlAxes (fpu : Fpu) {last : AzLast} {v : Vars} (h : AzInv last v) :
    AzInv last (ctrlAxes fpu v) := by
  cases last with
  | torque t =>
      exact ⟨by simp [h.1], by simp [h.2.1], (ctrlAxes_motorAz fpu h.2.1).trans h.2.2⟩
  | target => exact ⟨by simp [h.1], by simp [h.2]⟩
  | calibrate => exact (ctrlAxes_azFlagCalibrate fpu v).trans h

/-- A step of the control thread keeps the invariant, and if it ends an
iteration in a calibration, that one is rotating. -/
theorem azInv_ctrl (fpu : Fpu) {m : AzMon} (h : AzInv m.last m.sys.vars)
    (hok : CalibrateSleepOk m .ctrl) :
    AzInv (azMonNext fpu m .ctrl).last (azMonNext fpu m .ctrl).sys.vars
      ∧ ((azMonNext fpu m .ctrl).sys.ctrl.pc = .loopSleep →
          (azMonNext fpu m .ctrl).last = .calibrate →
            (azMonNext fpu m .ctrl).sys.vars.ctrl.azState = .constSpeed) := by
  obtain ⟨s, last⟩ := m
  cases hpc : s.ctrl.pc with
  | calibrateSleep =>
      have hlast : last = .calibrate := hok rfl hpc
      subst hlast
      have hkeep : azLastNext s .calibrate .ctrl = .calibrate := if_neg (by simp [hpc])
      have hinv : AzInv .calibrate (setAzState .constSpeed (setAzTgtSpd (180 * 30) s.vars)) := h
      simp only [azMonNext, sysNext, ctrlStep_resume fpu s.vars hpc, hkeep, ctrlResume]
      exact ⟨azInv_ctrlAxes fpu hinv, fun _ _ => by simp [setAzState]⟩
  | loopSleep =>
      have hcases := ctrlStep_cases fpu s.vars hpc
      simp only [azMonNext, sysNext]
      generalize ctrlStep fpu s.vars s.ctrl = r at hcases
      cases hcases with
      | failsafe htrip =>
          have hlast : azLastNext s last .ctrl = .torque 0 := if_pos ⟨hpc, Or.inl htrip⟩
          have hinv : AzInv (.torque 0) (stopAll s.vars) := ⟨rfl, rfl, rfl⟩
          rw [hlast]
          refine ⟨azInv_ctrlAxes fpu hinv, fun _ hcal => ?_⟩
          cases hcal
      | plain htrip hflag =>
          have hlast : azLastNext s last .ctrl = last :=
            if_neg (by simp [htrip, calibrationEnds, hflag])
          rw [hlast]
          refine ⟨azInv_ctrlAxes fpu h, fun _ hcal => ?_⟩
          subst hcal
          cases hflag.symm.trans h
      | start htrip hflag hst =>
          have hlast : azLastNext s last .ctrl = last :=
            if_neg (by simp [htrip, calibrationEnds, hst])
          rw [hlast]
          refine ⟨?_, fun hloop => ?_⟩
          · cases last with
            | torque t => cases hflag.symm.trans h.1
            | target => cases hflag.symm.trans h.1
            | calibrate => exact h
          · cases hloop
      | finish htrip hflag hst hover =>
          have hlast : azLastNext s last .ctrl = .torque 0 :=
            if_pos ⟨hpc, Or.inr ⟨hflag, hst, hover⟩⟩
          have hinv : AzInv (.torque 0) (azSetConstTrq 0 s.vars) := ⟨rfl, rfl, rfl⟩
          rw [hlast]
          refine ⟨azInv_ctrlAxes fpu hinv, fun _ hcal => ?_⟩
          cases hcal
      | rotate htrip hflag hst hover =>
          have hlast : azLastNext s last .ctrl = last :=
            if_neg (by simp [htrip, calibrationEnds, hover])
          rw [hlast]
          exact ⟨azInv_ctrlAxes fpu h, fun _ _ => by simp [hst]⟩

theorem azInv_next (fpu : Fpu) {m : AzMon} (h : AzInv m.last m.sys.vars) {a : Act}
    (hok : CalibrateSleepOk m a) :
    AzInv (azMonNext fpu m a).last (azMonNext fpu m a).sys.vars := by
  cases a with
  | req r => exact azInv_serve m.sys h r
  | ctrl => exact (azInv_ctrl fpu h hok).1
  | mde miso =>
      have hf := mdeStep_frame fpu miso m.sys.vars m.sys.mde
      exact h.congr (congrArg Ctrl.azFlagCalibrate hf.ctrl) (congrArg Ctrl.azState hf.ctrl)
        (hf.motor .az)
  | imu r => exact h.congr rfl rfl rfl
  | tick n => exact h.congr rfl rfl rfl

/-! ## Every run -/

theorem iterationOk_of_inv (fpu : Fpu) {m : AzMon} (h : AzInv m.last m.sys.vars) {a : Act}
    (hok : CalibrateSleepOk m a) : IterationOk fpu m a := by
  rintro rfl hpc
  obtain ⟨hinv, hrot⟩ := azInv_ctrl fpu h hok
  intro m'
  cases hlast : m'.last with
  | torque t =>
      rw [hlast] at hinv
      refine ⟨⟨hinv.2.1, hinv.2.2⟩, fun hcs => ?_⟩
      cases hcs.symm.trans hinv.2.1
  | target =>
      rw [hlast] at hinv
      refine ⟨hinv.2, fun hcs => ?_⟩
      cases hcs.symm.trans hinv.2
  | calibrate =>
      rw [hlast] at hinv
      exact ⟨⟨hrot hpc hlast, hinv⟩, fun _ => hinv⟩

/-- Waking up from a disturbed sleep, the thread ends the iteration in constant
speed against the last word. -/
theorem calibrateSleepOk_of_iterationOk (fpu : Fpu) {m : AzMon} {a : Act}
    (h : IterationOk fpu m a) : CalibrateSleepOk m a := by
  rintro rfl hpc
  obtain ⟨s, last⟩ := m
  have hstep : ctrlStep fpu s.vars s.ctrl = ctrlResume fpu s.vars :=
    ctrlStep_resume fpu s.vars hpc
  have hkeep : azLastNext s last .ctrl = last := if_neg (by
    rintro ⟨hloop, -⟩
    cases hpc.symm.trans hloop)
  have hcs : (ctrlResume fpu s.vars).1.ctrl.azState = .constSpeed := by
    simp [ctrlResume, setAzState]
  have hag := (h rfl (by simp only [azMonNext, sysNext, hstep]; rfl)).1
  simp only [azMonNext, sysNext, hstep, hkeep] at hag
  cases last with
  | torque t => cases hcs.symm.trans hag.1
  | target => cases hcs.symm.trans hag
  | calibrate => rfl

/-- The monitor as the threads start: constant torque 0. -/
def AzMon.boot (oldAz : UInt16) (oldT : SysTime) (oldX : UInt16) (fc : UInt8) : AzMon where
  sys := Sys.boot oldAz oldT oldX fc
  last := .torque 0

/-- In a run every iteration ends in the azimuth mode last asked for exactly when
every calibration sleep ends with calibration still the last word. -/
theorem azimuth_commands_kept_iff (fpu : Fpu) (oldAz : UInt16) (oldT : SysTime) (oldX : UInt16)
    (fc : UInt8) (as : List Act) :
    Along (azMonNext fpu) (IterationOk fpu) (AzMon.boot oldAz oldT oldX fc) as
      ↔ Along (azMonNext fpu) CalibrateSleepOk (AzMon.boot oldAz oldT oldX fc) as := by
  constructor
  · exact along_of_invariant (I := fun _ => True) (fun _ _ _ _ => trivial)
      (fun _ _ _ h => calibrateSleepOk_of_iterationOk fpu h) trivial
  · have hboot : AzInv (.torque 0) (Sys.boot oldAz oldT oldX fc).vars := ⟨rfl, rfl, rfl⟩
    exact along_of_invariant (I := fun m => AzInv m.last m.sys.vars)
      (fun _ _ h hok => azInv_next fpu h hok) (fun _ _ h hok => iterationOk_of_inv fpu h hok)
      hboot

/-- A stop that falls into the calibration sleep is lost: the iteration ends in
constant speed with no flag to end the rotation. -/
theorem azimuth_stop_lost_in_calibration :
    ¬ Along (azMonNext Fpu.modular) (IterationOk Fpu.modular) (AzMon.boot 0 0 0 0)
      [.imu imuAtRest, .req .azCalibrate, .ctrl, .req (.azSetConstTrq 0), .ctrl] := by
  intro h
  have hend := h.2.2.2.2.1 rfl (by decide +kernel)
  exact absurd hend.1.1 (by decide +kernel)

end Seatel
