import Seatel.Preempt

/-!
# The torque limits of the closed loop

Both closed-loop modes end in a limiter of ±25, but the two axes reach it
differently: azimuth narrows to `int8_t` before it limits, elevation
limits an `int16_t` and narrows after it, and inside the azimuth null
zone a holding torque of ±3 takes the place of the law. The bound
therefore holds for every sensor reading and every previous manual
torque, also where the narrowed value is not the intended one.

`ctrlAxes_limited` is the switch-level fact. An iteration is then one of
the ways through the loop body, with or without the calibration sleep in
its middle, and `ctrlStep_torqueOk` goes through them once.
-/

namespace Seatel

open Runs CInt

/-- The torque is inside the limits of the closed loop. -/
def Limited (t : Int8) : Prop := -25 ≤ t.toInt ∧ t.toInt ≤ 25

instance (t : Int8) : Decidable (Limited t) := inferInstanceAs (Decidable (_ ∧ _))

/-! ## The two laws -/

theorem azTorque_limited (tgt act : Int16) : Limited (azTorque tgt act) := by
  have hlim := limit_assign Int8.toInt 25 25 (-25)
    (Int8.ofInt ((tgt.toInt - act.toInt).tdiv 60 + 10 * if tgt.toInt > 0 then 1 else -1))
    rfl rfl (by decide)
  rw [Limited, azTorque, hlim]
  exact limit_mem (by decide) _

/-- The value that is narrowed is already limited, so narrowing keeps it. -/
theorem elTorque_limited (tgtSpd elSpd : Int16) (staticTrq : Int8) :
    Limited (elTorque tgtSpd elSpd staticTrq) := by
  simp only [Limited, elTorque]
  generalize Int16.ofInt ((Int16.ofInt ((tgtSpd.toInt -
    (if elSpd.toInt.natAbs < 150 then (0 : Int16) else elSpd).toInt).tdiv 10)).toInt
    + staticTrq.toInt) = trq
  rw [limit_assign Int16.toInt 25 25 (-25) trq rfl rfl (by decide)]
  obtain ⟨hlo, hhi⟩ := limit_mem (show (0 : Int) ≤ 25 by decide) trq.toInt
  obtain ⟨k, hk⟩ := toInt_ofInt8 (limit 25 trq.toInt)
  obtain ⟨hlo', hhi'⟩ := toInt8_mem (Int8.ofInt (limit 25 trq.toInt))
  omega

/-! ## The switches -/

theorem azConstSpeed_limited (v : Vars) : Limited (azConstSpeed v).mde.motorAz :=
  azTorque_limited v.ctrl.azTgtSpd v.mde.encAzSpeed

theorem azControl_limited (fpu : Fpu) {v : Vars} (hst : v.ctrl.azState ≠ .constTorque) :
    Limited (azControl fpu v).mde.motorAz := by
  cases hmode : v.ctrl.azState with
  | constTorque => exact absurd hmode hst
  | constSpeed =>
      rw [azControl, hmode]
      exact azConstSpeed_limited v
  | targetPosition =>
      rw [azControl, hmode]
      simp only [azTargetPosition]
      split
      · exact azConstSpeed_limited _
      · -- the holding torque looks at the sign of the previous torque only
        change Limited (if v.mde.motorAz.toInt > 0 then 3 else -3)
        split <;> decide

theorem elControl_limited (fpu : Fpu) {v : Vars} (hst : v.ctrl.elState ≠ .constTorque) :
    Limited (elControl fpu v).mde.motorEl := by
  cases hmode : v.ctrl.elState with
  | constTorque => exact absurd hmode hst
  | constSpeed =>
      rw [elControl, hmode]
      exact elTorque_limited _ _ _
  | targetPosition =>
      rw [elControl, hmode]
      exact elTorque_limited _ _ _

/-- The two axes that have closed-loop modes. -/
def Motor.closedLoop : Motor → Bool
  | .az => true
  | .el => true
  | .sk => false

theorem ctrlAxes_state (fpu : Fpu) (v : Vars) {m : Motor} (hm : m.closedLoop = true) :
    (ctrlAxes fpu v).state m = v.state m := by
  cases m with
  | az => exact ctrlAxes_azState fpu v
  | el => exact ctrlAxes_elState fpu v
  | sk => cases hm

theorem ctrlAxes_limited (fpu : Fpu) {v : Vars} {m : Motor} (hm : m.closedLoop = true)
    (hst : (ctrlAxes fpu v).state m ≠ .constTorque) :
    Limited ((ctrlAxes fpu v).mde.motor m) := by
  rw [ctrlAxes_state fpu v hm] at hst
  cases m with
  | az =>
      have hmot : (ctrlAxes fpu v).mde.motorAz = (azControl fpu v).mde.motorAz :=
        congrArg AzView.motor (ctrlAxes_az fpu v)
      rw [Mde.motor, hmot]
      exact azControl_limited fpu hst
  | el =>
      have hmot : (ctrlAxes fpu v).mde.motorEl = (elControl fpu v).mde.motorEl :=
        congrArg ElView.motor (ctrlAxes_el fpu v)
      rw [Mde.motor, hmot]
      exact elControl_limited fpu hst
  | sk => cases hm

theorem ctrlAxes_motor (fpu : Fpu) {v : Vars} {m : Motor} (hm : m.closedLoop = true)
    (hst : v.state m = .constTorque) : (ctrlAxes fpu v).mde.motor m = v.mde.motor m := by
  cases m with
  | az => exact ctrlAxes_motorAz fpu hst
  | el => exact ctrlAxes_motorEl fpu hst
  | sk => cases hm

/-! ## Every iteration -/

/-- What a step of the control thread from `s` to `s'` owes the torques. The
iteration has ended when the thread is back in its 20 ms sleep; a step that
only starts the calibration sleep ends none. -/
structure TorqueOk (s s' : Sys) : Prop where
  /-- A closed-loop mode ends with a limited torque. -/
  limited : s'.ctrl.pc = .loopSleep → ∀ m : Motor, m.closedLoop = true →
    s'.vars.state m ≠ .constTorque → Limited (s'.vars.mde.motor m)
  /-- Constant torque is left alone by an iteration without calibration and failsafe. -/
  held : s.ctrl.pc = .loopSleep → s.vars.ctrl.azFlagCalibrate = false →
    failsafe s.vars.imu = false → ∀ m : Motor, m.closedLoop = true →
    s.vars.state m = .constTorque →
    s'.vars.state m = .constTorque ∧ s'.vars.mde.motor m = s.vars.mde.motor m
  /-- The skew torque is written by the failsafe only. -/
  skew : s'.vars.mde.motorSk
    = if s.ctrl.pc = .loopSleep ∧ failsafe s.vars.imu = true then 0 else s.vars.mde.motorSk

/-- A step that ran the switches over `v`: what is left to show is how `v` came
about. -/
theorem torqueOk_of_axes (fpu : Fpu) {s : Sys} {v : Vars} {t : CtrlThd}
    (hstep : ctrlStep fpu s.vars s.ctrl = (ctrlAxes fpu v, t))
    (hheld : s.ctrl.pc = .loopSleep → s.vars.ctrl.azFlagCalibrate = false →
      failsafe s.vars.imu = false → v = s.vars)
    (hskew : v.mde.motorSk
      = if s.ctrl.pc = .loopSleep ∧ failsafe s.vars.imu = true then 0 else s.vars.mde.motorSk) :
    TorqueOk s (sysNext fpu s .ctrl) := by
  have hvars : (sysNext fpu s .ctrl).vars = ctrlAxes fpu v := congrArg Prod.fst hstep
  refine ⟨fun _ m hm hst => ?_, fun hpc hflag htrip m hm hst => ?_, ?_⟩
  · rw [hvars] at hst ⊢
    exact ctrlAxes_limited fpu hm hst
  · rw [hvars, hheld hpc hflag htrip]
    exact ⟨(ctrlAxes_state fpu _ hm).trans hst, ctrlAxes_motor fpu hm hst⟩
  · rw [hvars, ctrlAxes_motorSk]
    exact hskew

theorem ctrlStep_torqueOk (fpu : Fpu) (s : Sys) : TorqueOk s (sysNext fpu s .ctrl) := by
  cases hpc : s.ctrl.pc with
  | calibrateSleep =>
      refine torqueOk_of_axes fpu (ctrlStep_resume fpu s.vars hpc) ?_ ?_
      · intro hloop
        cases hpc.symm.trans hloop
      · rw [if_neg (by rw [hpc]; rintro ⟨⟨⟩, -⟩)]
        rfl
  | loopSleep =>
      have hcases := ctrlStep_cases fpu s.vars hpc
      generalize hr : ctrlStep fpu s.vars s.ctrl = r at hcases
      cases hcases with
      | failsafe htrip =>
          refine torqueOk_of_axes fpu hr ?_ ?_
          · intro _ _ htrip'
            cases htrip.symm.trans htrip'
          · rw [if_pos ⟨hpc, htrip⟩]
            rfl
      | plain htrip hflag =>
          refine torqueOk_of_axes fpu hr (fun _ _ _ => rfl) ?_
          rw [if_neg (by simp [htrip])]
      | finish htrip hflag =>
          refine torqueOk_of_axes fpu hr ?_ ?_
          · intro _ hflag'
            cases hflag.symm.trans hflag'
          · rw [if_neg (by simp [htrip])]
            rfl
      | rotate htrip hflag =>
          refine torqueOk_of_axes fpu hr (fun _ _ _ => rfl) ?_
          rw [if_neg (by simp [htrip])]
      | start htrip hflag =>
          -- the kick torque: the iteration does not end here
          have hs : sysNext fpu s .ctrl
              = { s with vars := mdeSetTrqAz 25 s.vars
                         ctrl := { s.ctrl with pc := .calibrateSleep } } := by
            simp only [sysNext, hr]
          rw [hs]
          refine ⟨fun hloop => ?_, fun _ hflag' => ?_, ?_⟩
          · cases hloop
          · cases hflag.symm.trans hflag'
          · rw [if_neg (by simp [htrip])]
            rfl

/-- In every run from every state, each control iteration leaves a closed-loop
torque inside ±25, a constant torque as it was and the skew torque alone. -/
theorem closed_loop_torque_bound (fpu : Fpu) (s : Sys) (as : List Act) :
    Along (sysNext fpu) (fun s a => a = .ctrl → TorqueOk s (sysNext fpu s a)) s as := by
  refine along_iff.mpr fun pre a post _ ha => ?_
  subst ha
  exact ctrlStep_torqueOk fpu _

end Seatel
