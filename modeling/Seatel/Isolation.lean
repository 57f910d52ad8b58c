import Seatel.ImuThread
import Seatel.MdeWords

/-!
# What one axis knows of the others

The axes share one control thread, one MDE thread and one set of
requests. Here two runs are compared that differ in what they ask of the
other axes: requests may be added or left out on either side, readings
and replies may differ. What is left to see is every event on the bus,
with the torque of the axis in question and the torques of the others
blanked out (`BusEvent.seen`).

Azimuth knows nothing of elevation and skew: of the IMU it takes only
whether the failsafe trips (`azAlike_next`). Elevation knows nothing of
azimuth and skew, of the encoder in particular, as long as no calibration
is asked for (`elAlike_next`); a calibration puts the control thread to
sleep and is felt by all. A position over the API is a command for both
axes; the flag by which it resets the target speeds comes from both angles
and is taken to be the same in both runs.

In both the MDE thread does the same up to the torques it sends
(`mdeStep_alike`).
-/

namespace Seatel

open Runs

/-! ## The MDE thread -/

/-- The event with the torques of the motors outside `vis` blanked out. -/
def BusEvent.seen (vis : Motor → Bool) : BusEvent → BusEvent
  | .torque m w => .torque m (if vis m then w else 0)
  | e => e

def seenObs (fpu : Fpu) (vis : Motor → Bool) (s : Sys) (a : Act) : List BusEvent :=
  (busObs fpu s a).map (BusEvent.seen vis)

/-- The wait without the sum of gyro readings in it. -/
def MdePc.shape : MdePc → MdePc
  | .imuCalibrate i _ => .imuCalibrate i 0
  | pc => pc

theorem shape_cases {pc pc' : MdePc} (h : pc.shape = pc'.shape) :
    pc = pc' ∨ ∃ i accu accu', pc = .imuCalibrate i accu ∧ pc' = .imuCalibrate i accu' := by
  cases pc with
  | imuCalibrate i accu =>
      cases pc' with
      | imuCalibrate i' accu' =>
          obtain ⟨rfl, -⟩ := MdePc.imuCalibrate.inj h
          exact Or.inr ⟨i, accu, accu', rfl, rfl⟩
      | _ => cases h
  | _ =>
      cases pc' with
      | imuCalibrate i' accu' => cases h
      | _ => exact Or.inl h

/-- The same to the MDE thread: power switch, time and the stamp of the control loop. -/
structure MdeAlike (v w : Vars) : Prop where
  pwr : v.pwr = w.pwr
  time : v.time = w.time
  stamp : v.ctrl.lastLoopUpdate = w.ctrl.lastLoopUpdate

structure OutAlike (vis : Motor → Bool) (o o' : MdeOut) : Prop where
  vars : MdeAlike o.vars o'.vars
  pc : o.thd.pc.shape = o'.thd.pc.shape
  events : o.events.map (BusEvent.seen vis) = o'.events.map (BusEvent.seen vis)

theorem MdeAlike.ctrlIsRunning {v w : Vars} (h : MdeAlike v w) :
    ctrlIsRunning v = ctrlIsRunning w := by
  have helapsed : chVTGetSystemTimeX v - v.ctrl.lastLoopUpdate
      = chVTGetSystemTimeX w - w.ctrl.lastLoopUpdate := by
    rw [chVTGetSystemTimeX, chVTGetSystemTimeX, h.time, h.stamp]
  rw [Seatel.ctrlIsRunning, helapsed, Seatel.ctrlIsRunning]

section Alike

variable {v w : Vars} {t u : MdeThd} (vis : Motor → Bool)

theorem mdeGate_alike (h : MdeAlike v w) : OutAlike vis (mdeGate v t) (mdeGate w u) := by
  have hon : v.mde.isPoweredUp = w.mde.isPoweredUp := congrArg PwrView.isPoweredUp h.pwr
  rw [mdeGate, mdeGate, hon, h.ctrlIsRunning]
  cases w.mde.isPoweredUp && ctrlIsRunning w with
  | true => exact ⟨h, rfl, rfl⟩
  | false => exact ⟨h, rfl, rfl⟩

theorem mdePowerUpTest_alike (h : MdeAlike v w) :
    OutAlike vis (mdePowerUpTest v t) (mdePowerUpTest w u) := by
  have hup : v.mde.powerUp = w.mde.powerUp := congrArg PwrView.powerUp h.pwr
  have hon : v.mde.isPoweredUp = w.mde.isPoweredUp := congrArg PwrView.isPoweredUp h.pwr
  rw [mdePowerUpTest, mdePowerUpTest, hup, hon]
  cases w.mde.powerUp && !w.mde.isPoweredUp with
  | true =>
      rw [if_pos rfl, if_pos rfl]
      exact ⟨⟨congrArg (fun p : PwrView => { p with lineMdePwr := true }) h.pwr, h.time, h.stamp⟩,
        rfl, rfl⟩
  | false =>
      rw [if_neg Bool.false_ne_true, if_neg Bool.false_ne_true]
      exact mdeGate_alike vis h

theorem mdeTop_alike (h : MdeAlike v w) : OutAlike vis (mdeTop v t) (mdeTop w u) := by
  have hdn : v.mde.powerDn = w.mde.powerDn := congrArg PwrView.powerDn h.pwr
  have hon : v.mde.isPoweredUp = w.mde.isPoweredUp := congrArg PwrView.isPoweredUp h.pwr
  rw [mdeTop, mdeTop, hdn, hon]
  cases w.mde.powerDn && w.mde.isPoweredUp with
  | true =>
      rw [if_pos rfl, if_pos rfl]
      exact ⟨⟨congrArg (fun p : PwrView => { p with lineMdePwr := false }) h.pwr, h.time, h.stamp⟩,
        rfl, rfl⟩
  | false =>
      rw [if_neg Bool.false_ne_true, if_neg Bool.false_ne_true]
      exact mdePowerUpTest_alike vis h

theorem mdeInit_alike (h : MdeAlike v w) (rest : List InitOp) :
    OutAlike vis (mdeInit rest v t) (mdeInit rest w u) := by
  rcases rest with _ | ⟨op, rest⟩
  · have hpwr :=
      congrArg (fun p : PwrView => { p with powerUp := false, isPoweredUp := true }) h.pwr
    exact mdeGate_alike vis ⟨hpwr, h.time, h.stamp⟩
  · cases op with
    | exchange mosi => exact ⟨h, rfl, rfl⟩
    | sleep ms => exact ⟨h, rfl, rfl⟩

/-- A torque word is seen if its torque is the same. -/
theorem mdeTorque_alike (h : MdeAlike v w)
    (hvis : ∀ m, vis m = true → v.mde.motor m = w.mde.motor m) (m : Motor) :
    OutAlike vis (mdeTorque m v t) (mdeTorque m w u) := by
  refine ⟨h, rfl, ?_⟩
  simp only [mdeTorque, List.map_cons, List.map_nil, BusEvent.seen]
  split
  · rename_i hm
    rw [hvis m hm]
  · rfl

theorem mdeEncoder_motor (fpu : Fpu) (fb : UInt8) (v : Vars) (t : MdeThd) (m : Motor) :
    (mdeEncoder fpu fb v t).1.mde.motor m = v.mde.motor m := by
  cases m <;> rfl

theorem MdeAlike.mdeEncoder (h : MdeAlike v w) (fpu : Fpu) (fb fb' : UInt8) (t u : MdeThd) :
    MdeAlike (mdeEncoder fpu fb v t).1 (mdeEncoder fpu fb' w u).1 :=
  ⟨h.pwr, h.time, h.stamp⟩

/-- Two threads at the same wait do the same, whatever their encoders and gyros read. -/
theorem mdeStep_alike (fpu : Fpu) (miso miso' : UInt16) (h : MdeAlike v w)
    (hpc : t.pc.shape = u.pc.shape)
    (hvis : ∀ m, vis m = true → v.mde.motor m = w.mde.motor m) :
    OutAlike vis (mdeStep fpu miso v t) (mdeStep fpu miso' w u) := by
  rcases shape_cases hpc with hpc | ⟨i, accu, accu', ht, hu⟩
  · rw [mdeStep, mdeStep, ← hpc]
    cases t.pc with
    | loopSleep => exact mdeTop_alike vis h
    | powerDnSleep =>
        have hpwr :=
          congrArg (fun p : PwrView => { p with powerDn := false, isPoweredUp := false }) h.pwr
        exact mdePowerUpTest_alike vis ⟨hpwr, h.time, h.stamp⟩
    | imuCalibrate i accu =>
        by_cases hi : i < 100
        · simp only [if_pos hi]
          exact ⟨h, rfl, rfl⟩
        · simp only [if_neg hi]
          exact ⟨⟨h.pwr, h.time, h.stamp⟩, rfl, rfl⟩
    | powerUpSleep => exact mdeInit_alike vis h initScript
    | init rest => exact mdeInit_alike vis h rest
    | poll i =>
        simp only
        cases pollWords[i + 1]? with
        | some mosi => exact ⟨h, rfl, rfl⟩
        | none =>
            refine mdeTorque_alike vis (h.mdeEncoder fpu _ _ _ _) (fun m hm => ?_) .az
            rw [mdeEncoder_motor, mdeEncoder_motor]
            exact hvis m hm
    | torque m =>
        cases m with
        | az => exact mdeTorque_alike vis h hvis .el
        | el => exact mdeTorque_alike vis h hvis .sk
        | sk => exact ⟨h, rfl, rfl⟩
  · rw [mdeStep, mdeStep, ht, hu]
    by_cases hi : i < 100
    · simp only [if_pos hi]
      exact ⟨h, rfl, rfl⟩
    · simp only [if_neg hi]
      exact ⟨⟨h.pwr, h.time, h.stamp⟩, rfl, rfl⟩

end Alike

/-! ## The encoder -/

/-- The same encoder readings, and the same to compare the next one with. -/
structure EncAlike (v w : Vars) (t u : MdeThd) : Prop where
  encAz : v.mde.encAz = w.mde.encAz
  encAzSpeed : v.mde.encAzSpeed = w.mde.encAzSpeed
  oldT : t.oldT = u.oldT
  oldX : t.oldX = u.oldX
  fc : t.fc = u.fc

theorem EncAlike.symm {v w : Vars} {t u : MdeThd} (h : EncAlike v w t u) : EncAlike w v u t :=
  ⟨h.encAz.symm, h.encAzSpeed.symm, h.oldT.symm, h.oldX.symm, h.fc.symm⟩

theorem EncAlike.trans {v w x : Vars} {t u y : MdeThd} (h : EncAlike v w t u)
    (h' : EncAlike w x u y) : EncAlike v x t y :=
  ⟨h.encAz.trans h'.encAz, h.encAzSpeed.trans h'.encAzSpeed, h.oldT.trans h'.oldT,
    h.oldX.trans h'.oldX, h.fc.trans h'.fc⟩

/-- The step leaves the encoder alone. -/
def MdeOut.KeepsEnc (out : MdeOut) (v : Vars) (t : MdeThd) : Prop :=
  EncAlike out.vars v out.thd t

theorem mdeGate_keepsEnc (v : Vars) (t : MdeThd) : (mdeGate v t).KeepsEnc v t := by
  unfold mdeGate
  split <;> exact ⟨rfl, rfl, rfl, rfl, rfl⟩

theorem mdePowerUpTest_keepsEnc (v : Vars) (t : MdeThd) :
    (mdePowerUpTest v t).KeepsEnc v t := by
  unfold mdePowerUpTest
  split
  · exact ⟨rfl, rfl, rfl, rfl, rfl⟩
  · exact mdeGate_keepsEnc v t

theorem mdeInit_keepsEnc (rest : List InitOp) (v : Vars) (t : MdeThd) :
    (mdeInit rest v t).KeepsEnc v t := by
  unfold mdeInit
  split
  · exact ⟨rfl, rfl, rfl, rfl, rfl⟩
  · exact ⟨rfl, rfl, rfl, rfl, rfl⟩
  · have h := mdeGate_keepsEnc
      { v with mde := { v.mde with powerUp := false, isPoweredUp := true } } t
    exact ⟨h.encAz, h.encAzSpeed, h.oldT, h.oldX, h.fc⟩

theorem mdeStep_keepsEnc (fpu : Fpu) (miso : UInt16) (v : Vars) {t : MdeThd}
    (h : ∀ i, t.pc ≠ .poll i) : (mdeStep fpu miso v t).KeepsEnc v t := by
  unfold mdeStep
  cases hpc : t.pc with
  | loopSleep =>
      simp only [mdeTop]
      split
      · exact ⟨rfl, rfl, rfl, rfl, rfl⟩
      · exact mdePowerUpTest_keepsEnc v t
  | powerDnSleep =>
      have h := mdePowerUpTest_keepsEnc
        { v with mde := { v.mde with powerDn := false, isPoweredUp := false } } t
      exact ⟨h.encAz, h.encAzSpeed, h.oldT, h.oldX, h.fc⟩
  | imuCalibrate i accu =>
      simp only
      split <;> exact ⟨rfl, rfl, rfl, rfl, rfl⟩
  | powerUpSleep => exact mdeInit_keepsEnc initScript v t
  | init rest => exact mdeInit_keepsEnc rest v t
  | poll i => exact absurd hpc (h i)
  | torque m => cases m <;> exact ⟨rfl, rfl, rfl, rfl, rfl⟩

theorem mdeStep_enc (fpu : Fpu) (miso : UInt16) {v w : Vars} {t u : MdeThd} (h : EncAlike v w t u)
    (htime : v.time = w.time) (hpc : t.pc.shape = u.pc.shape) :
    EncAlike (mdeStep fpu miso v t).vars (mdeStep fpu miso w u).vars (mdeStep fpu miso v t).thd
      (mdeStep fpu miso w u).thd := by
  by_cases hpoll : ∃ i, t.pc = .poll i
  · obtain ⟨i, ht⟩ := hpoll
    have hu : u.pc = .poll i := by
      rcases shape_cases hpc with heq | ⟨_, _, _, ht', -⟩
      · exact heq.symm.trans ht
      · cases ht.symm.trans ht'
    obtain ⟨henc, hspd, hT, hX, hfc⟩ := h
    rw [mdeStep, mdeStep, ht, hu]
    by_cases hi : i = 5
    · simp only [if_pos hi]
      cases pollWords[i + 1]? with
      | some mosi => exact ⟨henc, hspd, hT, hX, rfl⟩
      | none =>
          simp only [mdeTorque, mdeEncoder, chVTGetSystemTimeX, htime, hT, hX]
          exact ⟨rfl, rfl, rfl, rfl, rfl⟩
    · simp only [if_neg hi]
      cases pollWords[i + 1]? with
      | some mosi => exact ⟨henc, hspd, hT, hX, hfc⟩
      | none =>
          simp only [mdeTorque, mdeEncoder, chVTGetSystemTimeX, htime, hT, hX, hfc]
          exact ⟨rfl, rfl, rfl, rfl, rfl⟩
  · have hno : ∀ i, t.pc ≠ .poll i := fun i hi => hpoll ⟨i, hi⟩
    have hno' : ∀ i, u.pc ≠ .poll i := by
      intro i hi
      rcases shape_cases hpc with heq | ⟨_, _, _, -, hu'⟩
      · exact hno i (heq.trans hi)
      · cases hi.symm.trans hu'
    exact ((mdeStep_keepsEnc fpu miso v hno).trans h).trans
      (mdeStep_keepsEnc fpu miso w hno').symm

/-! ## Azimuth -/

/-- The same to the azimuth axis. -/
structure AzPart (v w : Vars) : Prop extends MdeAlike v w where
  az : v.az = w.az
  trip : failsafe v.imu = failsafe w.imu

theorem setAzTgtSpd_az {v w : Vars} (h : v.az = w.az) (spd : Int16) :
    (setAzTgtSpd spd v).az = (setAzTgtSpd spd w).az :=
  congrArg (fun z : AzView => { z with tgtSpd := spd }) h

theorem mdeSetTrqAz_az {v w : Vars} (h : v.az = w.az) (trq : Int8) :
    (mdeSetTrqAz trq v).az = (mdeSetTrqAz trq w).az :=
  congrArg (fun z : AzView => { z with motor := trq }) h

theorem azConstSpeed_az {v w : Vars} (h : v.az = w.az) :
    (azConstSpeed v).az = (azConstSpeed w).az := by
  have htrq : azTorque v.ctrl.azTgtSpd v.mde.encAzSpeed
      = azTorque w.ctrl.azTgtSpd w.mde.encAzSpeed :=
    congrArg₂ azTorque (congrArg AzView.tgtSpd h) (congrArg AzView.encSpeed h)
  rw [azConstSpeed, azConstSpeed, htrq]
  exact mdeSetTrqAz_az h _

theorem azControl_az (fpu : Fpu) {v w : Vars} (haz : v.az = w.az) (htime : v.time = w.time) :
    (azControl fpu v).az = (azControl fpu w).az := by
  have hst : v.ctrl.azState = w.ctrl.azState := congrArg AzView.state haz
  rw [azControl, azControl, hst]
  cases w.ctrl.azState with
  | constTorque => exact haz
  | constSpeed => exact azConstSpeed_az haz
  | targetPosition =>
      have henc : azEnc v = azEnc w :=
        congrArg₂ (· + ·) (congrArg AzView.enc haz) (congrArg AzView.encOff haz)
      have htgt : azTgt fpu v = azTgt fpu w := by
        have hpos : v.ctrl.azTgtPos = w.ctrl.azTgtPos := congrArg AzView.tgtPos haz
        have hps : v.ctrl.azTgtPosSpd = w.ctrl.azTgtPosSpd := congrArg AzView.tgtPosSpd haz
        have htim : v.ctrl.azTgtPosTim = w.ctrl.azTgtPosTim := congrArg AzView.tgtPosTim haz
        rw [azTgt, azTgt, hpos, hps, htim, chVTGetSystemTimeX, chVTGetSystemTimeX, htime]
      have hmot : v.mde.motorAz = w.mde.motorAz := congrArg AzView.motor haz
      simp only [azTargetPosition, henc, htgt, hmot]
      split
      · exact azConstSpeed_az (setAzTgtSpd_az haz _)
      · exact mdeSetTrqAz_az haz _

theorem AzPart.ctrlAxes {v w : Vars} (h : AzPart v w) (fpu : Fpu) :
    AzPart (ctrlAxes fpu v) (ctrlAxes fpu w) := by
  obtain ⟨_, _, _, _, hv⟩ := ctrlAxes_eq fpu v
  obtain ⟨_, _, _, _, hw⟩ := ctrlAxes_eq fpu w
  refine ⟨⟨?_, ?_, ?_⟩, ?_, ?_⟩
  · rw [ctrlAxes_pwr, ctrlAxes_pwr, h.pwr]
  · rw [hv, hw]
    exact h.time
  · rw [hv, hw]
    exact congrArg UInt32.ofNat h.time
  · rw [ctrlAxes_az, ctrlAxes_az]
    exact azControl_az fpu h.az h.time
  · rw [hv, hw]
    exact h.trip

theorem AzPart.azSetConstTrq {v w : Vars} (h : AzPart v w) (torque : Int8) :
    AzPart (azSetConstTrq torque v) (azSetConstTrq torque w) :=
  ⟨⟨h.pwr, h.time, h.stamp⟩, congrArg (fun z : AzView =>
    { z with flagCalibrate := false, state := .constTorque, motor := torque }) h.az, h.trip⟩

theorem AzPart.stopAll {v w : Vars} (h : AzPart v w) : AzPart (stopAll v) (stopAll w) :=
  ⟨⟨h.pwr, h.time, h.stamp⟩, (h.azSetConstTrq 0).az, h.trip⟩

theorem AzPart.ctrlStep {v w : Vars} (h : AzPart v w) (fpu : Fpu) (t : CtrlThd) :
    AzPart (ctrlStep fpu v t).1 (ctrlStep fpu w t).1
      ∧ (ctrlStep fpu v t).2 = (ctrlStep fpu w t).2 := by
  cases hpc : t.pc with
  | calibrateSleep =>
      have hset : AzPart (setAzState .constSpeed (setAzTgtSpd (180 * 30) v))
          (setAzState .constSpeed (setAzTgtSpd (180 * 30) w)) :=
        ⟨⟨h.pwr, h.time, h.stamp⟩, congrArg (fun z : AzView =>
          { z with state := .constSpeed, tgtSpd := 180 * 30 }) h.az, h.trip⟩
      rw [ctrlStep_resume fpu v hpc, ctrlStep_resume fpu w hpc]
      exact ⟨hset.ctrlAxes fpu, rfl⟩
  | loopSleep =>
      cases htrip : failsafe v.imu with
      | true =>
          rw [ctrlStep_tripped fpu hpc htrip, ctrlStep_tripped fpu hpc (h.trip ▸ htrip)]
          exact ⟨h.stopAll.ctrlAxes fpu, rfl⟩
      | false =>
          have htrip' : failsafe w.imu = false := h.trip ▸ htrip
          have hflag' : v.ctrl.azFlagCalibrate = w.ctrl.azFlagCalibrate :=
            congrArg AzView.flagCalibrate h.az
          have hst' : v.ctrl.azState = w.ctrl.azState := congrArg AzView.state h.az
          have henc : v.mde.encAz = w.mde.encAz := congrArg AzView.enc h.az
          cases hflag : w.ctrl.azFlagCalibrate with
          | false =>
              rw [ctrlStep_plain fpu hpc htrip (hflag'.trans hflag),
                ctrlStep_plain fpu hpc htrip' hflag]
              exact ⟨h.ctrlAxes fpu, rfl⟩
          | true =>
              by_cases hst : w.ctrl.azState = .constSpeed
              · rw [ctrlStep_rotating fpu hpc htrip (hflag'.trans hflag) (hst'.trans hst),
                  ctrlStep_rotating fpu hpc htrip' hflag hst, henc]
                refine ⟨?_, rfl⟩
                split
                · exact (h.azSetConstTrq 0).ctrlAxes fpu
                · exact h.ctrlAxes fpu
              · rw [ctrlStep_starting fpu hpc htrip (hflag'.trans hflag) (hst' ▸ hst),
                  ctrlStep_starting fpu hpc htrip' hflag hst]
                exact ⟨⟨⟨h.pwr, h.time, h.stamp⟩, mdeSetTrqAz_az h.az 25, h.trip⟩, rfl⟩

theorem AzPart.symm {v w : Vars} (h : AzPart v w) : AzPart w v :=
  ⟨⟨h.pwr.symm, h.time.symm, h.stamp.symm⟩, h.az.symm, h.trip.symm⟩

theorem AzPart.trans {v w x : Vars} (h : AzPart v w) (h' : AzPart w x) : AzPart v x :=
  ⟨⟨h.pwr.trans h'.pwr, h.time.trans h'.time, h.stamp.trans h'.stamp⟩, h.az.trans h'.az,
    h.trip.trans h'.trip⟩

theorem AzPart.azSetTgtPos {v w : Vars} (h : AzPart v w) (p : UInt16) :
    AzPart (azSetTgtPos p v) (azSetTgtPos p w) := by
  refine ⟨⟨h.pwr, h.time, h.stamp⟩, ?_, h.trip⟩
  exact congrArg₂ (fun (z : AzView) tim => { z with
    tgtPos := p, flagCalibrate := false, tgtPosTim := tim, state := .targetPosition })
    h.az (congrArg UInt32.ofNat h.time)

theorem AzPart.azSetTgtPosSpd {v w : Vars} (h : AzPart v w) (spd : Int16) :
    AzPart (azSetTgtPosSpd spd v) (azSetTgtPosSpd spd w) :=
  ⟨⟨h.pwr, h.time, h.stamp⟩, congrArg (fun z : AzView => { z with tgtPosSpd := spd }) h.az, h.trip⟩

theorem elSetTgtPos_azPart (p : Int16) (v : Vars) : AzPart (elSetTgtPos p v) v :=
  ⟨⟨rfl, rfl, rfl⟩, rfl, rfl⟩

theorem elSetTgtPosSpd_azPart (spd : Int16) (v : Vars) : AzPart (elSetTgtPosSpd spd v) v :=
  ⟨⟨rfl, rfl, rfl⟩, rfl, rfl⟩

/-- Requests that ask nothing of azimuth and the power switch. -/
def notForAz : Request → Bool
  | .elSetConstTrq _ => true
  | .elSetTgtPos _ => true
  | .skSetConstTrq _ => true
  | .skSetTgtPos _ => true
  | .imuSetElOff _ => true
  | _ => false

theorem serve_notForAz {r : Request} (hr : notForAz r = true) (v : Vars) :
    AzPart (serve v r) v := by
  cases r with
  | elSetConstTrq t => exact ⟨⟨rfl, rfl, rfl⟩, rfl, rfl⟩
  | elSetTgtPos p => exact ⟨⟨rfl, rfl, rfl⟩, rfl, rfl⟩
  | skSetConstTrq t => exact ⟨⟨rfl, rfl, rfl⟩, rfl, rfl⟩
  | skSetTgtPos p => exact ⟨⟨rfl, rfl, rfl⟩, rfl, rfl⟩
  | imuSetElOff off => exact ⟨⟨rfl, rfl, rfl⟩, rfl, rfl⟩
  | _ => cases hr

theorem AzPart.apiPos {v w : Vars} (h : AzPart v w) (az : UInt16) (el el' : Int16) (slow : Bool) :
    AzPart (apiPos az el slow v) (apiPos az el' slow w) := by
  have hset : AzPart (elSetTgtPos el (Seatel.azSetTgtPos az v))
      (elSetTgtPos el' (Seatel.azSetTgtPos az w)) :=
    ((elSetTgtPos_azPart el _).trans (h.azSetTgtPos az)).trans (elSetTgtPos_azPart el' _).symm
  cases slow with
  | false => exact hset
  | true =>
      exact ((elSetTgtPosSpd_azPart 0 _).trans (hset.azSetTgtPosSpd 0)).trans
        (elSetTgtPosSpd_azPart 0 _).symm

theorem AzPart.apiStop {v w : Vars} (h : AzPart v w) : AzPart (apiStop v) (apiStop w) := by
  have henc : v.mde.encAz = w.mde.encAz := congrArg AzView.enc h.az
  have hset : AzPart (Seatel.azSetTgtPos v.mde.encAz v) (Seatel.azSetTgtPos w.mde.encAz w) :=
    henc ▸ h.azSetTgtPos w.mde.encAz
  have hstop := ((elSetTgtPos_azPart v.imu.elPos _).trans hset).trans
    (elSetTgtPos_azPart w.imu.elPos _).symm
  exact ((elSetTgtPosSpd_azPart 0 _).trans (hstop.azSetTgtPosSpd 0)).trans
    (elSetTgtPosSpd_azPart 0 _).symm

theorem AzPart.serve {v w : Vars} (h : AzPart v w) (r : Request) :
    AzPart (serve v r) (serve w r) := by
  cases hr : notForAz r with
  | true => exact ((serve_notForAz hr v).trans h).trans (serve_notForAz hr w).symm
  | false =>
      cases r with
      | azSetConstTrq t => exact h.azSetConstTrq t
      | azSetTgtPos p => exact h.azSetTgtPos p
      | mdeSetAzEncOff off =>
          exact ⟨⟨h.pwr, h.time, h.stamp⟩,
            congrArg (fun z : AzView => { z with encOff := off }) h.az, h.trip⟩
      | mdePowerUp =>
          exact ⟨⟨congrArg (fun p : PwrView => { p with powerUp := true }) h.pwr, h.time, h.stamp⟩,
            h.az, h.trip⟩
      | mdePowerDown =>
          exact ⟨⟨congrArg (fun p : PwrView => { p with powerDn := true }) h.pwr, h.time, h.stamp⟩,
            h.az, h.trip⟩
      | azCalibrate =>
          exact ⟨⟨h.pwr, h.time, h.stamp⟩,
            congrArg (fun z : AzView => { z with flagCalibrate := true }) h.az, h.trip⟩
      | apiPos az el slow => exact h.apiPos az el el slow
      | apiStop => exact h.apiStop
      | _ => cases hr

/-- A reading that trips the failsafe, whatever was published before. -/
def ImuReading.trips (r : ImuReading) : Bool := failsafe (imuPublish r {}).imu

structure AzAlike (s t : Sys) : Prop extends AzPart s.vars t.vars where
  ctrl : s.ctrl = t.ctrl
  pc : s.mde.pc.shape = t.mde.pc.shape
  oldT : s.mde.oldT = t.mde.oldT
  oldX : s.mde.oldX = t.mde.oldX
  fc : s.mde.fc = t.mde.fc

def AzHidden (a : Act) : Prop := ∃ r, a = .req r ∧ notForAz r = true

/-- Requests show nothing on the bus. -/
theorem seenObs_of_req (fpu : Fpu) (vis : Motor → Bool) (s : Sys) {p : Request → Bool} {a : Act}
    (h : ∃ r, a = .req r ∧ p r = true) : seenObs fpu vis s a = [] := by
  obtain ⟨r, rfl, -⟩ := h
  rfl

/-- The same to azimuth: elevations may differ, and readings that agree about the
failsafe. Whether a `P` resets the target speeds is the same. -/
inductive AzSame : Act → Act → Prop where
  | same (a : Act) : AzSame a a
  | apiPos (az : UInt16) (el el' : Int16) (slow : Bool) :
      AzSame (.req (.apiPos az el slow)) (.req (.apiPos az el' slow))
  | imu (r r' : ImuReading) (htrip : r.trips = r'.trips) : AzSame (.imu r) (.imu r')

theorem AzAlike.symm {s t : Sys} (h : AzAlike s t) : AzAlike t s :=
  ⟨h.toAzPart.symm, h.ctrl.symm, h.pc.symm, h.oldT.symm, h.oldX.symm, h.fc.symm⟩

theorem AzAlike.hide {s t : Sys} (h : AzAlike s t) (fpu : Fpu) {a : Act} (ha : AzHidden a) :
    AzAlike (sysNext fpu s a) t := by
  obtain ⟨r, rfl, hr⟩ := ha
  exact ⟨(serve_notForAz hr s.vars).trans h.toAzPart, h.ctrl, h.pc, h.oldT, h.oldX, h.fc⟩

/-- Only azimuth torques are seen. -/
def seesAz (m : Motor) : Bool := m = .az

theorem AzAlike.mde {s t : Sys} (h : AzAlike s t) (fpu : Fpu) (miso : UInt16) :
    AzAlike (sysNext fpu s (.mde miso)) (sysNext fpu t (.mde miso))
      ∧ seenObs fpu seesAz s (.mde miso) = seenObs fpu seesAz t (.mde miso) := by
  have hmot : ∀ m, seesAz m = true → s.vars.mde.motor m = t.vars.mde.motor m := by
    intro m hm
    obtain rfl := of_decide_eq_true hm
    exact congrArg AzView.motor h.az
  have hout := mdeStep_alike seesAz fpu miso miso h.toMdeAlike h.pc hmot
  have henc := mdeStep_enc fpu miso ⟨congrArg AzView.enc h.az, congrArg AzView.encSpeed h.az,
    h.oldT, h.oldX, h.fc⟩ h.time h.pc
  have hs := mdeStep_frame fpu miso s.vars s.mde
  have ht := mdeStep_frame fpu miso t.vars t.mde
  refine ⟨⟨⟨hout.vars, ?_, ?_⟩, h.ctrl, hout.pc, henc.oldT, henc.oldX, henc.fc⟩, hout.events⟩
  · have hmotor : (mdeStep fpu miso s.vars s.mde).vars.mde.motorAz
        = (mdeStep fpu miso t.vars t.mde).vars.mde.motorAz :=
      (hs.motor .az).trans ((hmot .az rfl).trans (ht.motor .az).symm)
    have haz := h.az
    simp only [Vars.az, AzView.mk.injEq] at haz ⊢
    obtain ⟨h1, h2, h3, h4, h5, h6, -, -, h9, -⟩ := haz
    simp only [sysNext, hs.ctrl, ht.ctrl, hs.encAzOff, ht.encAzOff]
    exact ⟨h1, h2, h3, h4, h5, h6, hmotor, henc.encAz, h9, henc.encAzSpeed⟩
  · simp only [sysNext]
    rw [hs.imu, ht.imu]
    exact h.trip

theorem azAlike_next (fpu : Fpu) {s t : Sys} (h : AzAlike s t) {a b : Act} (hab : AzSame a b) :
    AzAlike (sysNext fpu s a) (sysNext fpu t b)
      ∧ seenObs fpu seesAz s a = seenObs fpu seesAz t b := by
  cases hab with
  | apiPos az el el' slow =>
      exact ⟨⟨h.toAzPart.apiPos az el el' slow, h.ctrl, h.pc, h.oldT, h.oldX, h.fc⟩, rfl⟩
  | imu r r' htrip =>
      exact ⟨⟨⟨⟨h.pwr, h.time, h.stamp⟩, h.az, htrip⟩, h.ctrl, h.pc, h.oldT, h.oldX, h.fc⟩, rfl⟩
  | same a =>
      cases a with
      | req r => exact ⟨⟨h.toAzPart.serve r, h.ctrl, h.pc, h.oldT, h.oldX, h.fc⟩, rfl⟩
      | ctrl =>
          obtain ⟨hpart, hthd⟩ := h.toAzPart.ctrlStep fpu s.ctrl
          rw [h.ctrl] at hpart hthd
          refine ⟨⟨?_, ?_, h.pc, h.oldT, h.oldX, h.fc⟩, rfl⟩
          · simp only [sysNext, h.ctrl]
            exact hpart
          · simp only [sysNext, h.ctrl]
            exact hthd
      | mde miso => exact h.mde fpu miso
      | imu r =>
          exact ⟨⟨⟨⟨h.pwr, h.time, h.stamp⟩, h.az, rfl⟩, h.ctrl, h.pc, h.oldT, h.oldX, h.fc⟩, rfl⟩
      | tick n =>
          exact ⟨⟨⟨⟨h.pwr, congrArg (· + n) h.time, h.stamp⟩, h.az, h.trip⟩, h.ctrl, h.pc, h.oldT,
            h.oldX, h.fc⟩, rfl⟩

/-- Two runs that differ in what they ask of elevation and skew, and in readings of the
IMU that agree about the failsafe, show the same events up to the torques of elevation and
skew, and leave the azimuth axis in the same state. -/
theorem azimuth_isolated (fpu : Fpu) (s t : Sys) (h : AzAlike s t) (as bs : List Act)
    (hacts : Matched AzHidden AzSame as bs) :
    (run (sysNext fpu) s as).vars.az = (run (sysNext fpu) t bs).vars.az
      ∧ trace (sysNext fpu) (seenObs fpu seesAz) s as
        = trace (sysNext fpu) (seenObs fpu seesAz) t bs := by
  obtain ⟨halike, htrace⟩ := hacts.run_trace (R := AzAlike) (H := AzHidden) (A := AzSame)
    (fun s t a hst ha => hst.hide fpu ha) (fun s t a hst ha => (hst.symm.hide fpu ha).symm)
    (fun s a ha => seenObs_of_req fpu seesAz s ha)
    (fun s t a b hst hab => azAlike_next fpu hst hab) h
  exact ⟨halike.az, htrace⟩

/-- An elevation target on one side and another elevation on the other. -/
theorem azimuth_isolated_example :
    (run (sysNext Fpu.modular) (Sys.boot 0 0 0 0)
        [.imu imuAtRest, .req (.azSetTgtPos 1000), .req (.elSetTgtPos 500), .ctrl]).vars.az
      = (run (sysNext Fpu.modular) (Sys.boot 0 0 0 0)
        [.imu { imuAtRest with elPos := 77 }, .req (.azSetTgtPos 1000), .ctrl]).vars.az := by
  refine (azimuth_isolated Fpu.modular (Sys.boot 0 0 0 0) (Sys.boot 0 0 0 0) ?_ _ _ ?_).1
  · exact ⟨⟨⟨rfl, rfl, rfl⟩, rfl, rfl⟩, rfl, rfl, rfl, rfl, rfl⟩
  · refine .both (.imu _ _ ?_) (.both (.same _) (.left ⟨_, rfl, rfl⟩ (.both (.same _) .nil)))
    rfl

/-! ## Elevation -/

/-- The same to the elevation axis, and no calibration. The zero of the gyro is not
compared: neither the failsafe nor the elevation switch reads it. -/
structure ElPart (v w : Vars) : Prop extends MdeAlike v w where
  el : v.el = w.el
  imu : v.imu.published = w.imu.published
  flag : v.ctrl.azFlagCalibrate = false
  flag' : w.ctrl.azFlagCalibrate = false

theorem ElPart.symm {v w : Vars} (h : ElPart v w) : ElPart w v :=
  ⟨⟨h.pwr.symm, h.time.symm, h.stamp.symm⟩, h.el.symm, h.imu.symm, h.flag', h.flag⟩

theorem trips_published (imu : Imu) : imu.published.trips = failsafe imu := rfl

theorem ElPart.trip {v w : Vars} (h : ElPart v w) : failsafe v.imu = failsafe w.imu := by
  rw [← trips_published, ← trips_published, h.imu]

theorem elImu_eq {v w : Vars} (hel : v.el = w.el) (himu : v.imu.published = w.imu.published) :
    elImu v = elImu w := by
  have hpos : v.imu.elPos = w.imu.elPos := congrArg ImuReading.elPos himu
  have hoff : v.imu.elOff = w.imu.elOff := congrArg ElView.off hel
  rw [elImu, elImu, hpos, hoff]

theorem mdeSetTrqEl_el {v w : Vars} (h : v.el = w.el) (trq : Int8) :
    (mdeSetTrqEl trq v).el = (mdeSetTrqEl trq w).el :=
  congrArg (fun z : ElView => { z with motor := trq }) h

theorem elConstSpeed_el {v w : Vars} (hel : v.el = w.el)
    (himu : v.imu.published = w.imu.published) :
    (elConstSpeed v).el = (elConstSpeed w).el := by
  have htgt : v.ctrl.elTgtSpd = w.ctrl.elTgtSpd := congrArg ElView.tgtSpd hel
  have hspd : v.imu.elSpd = w.imu.elSpd := congrArg ImuReading.elSpd himu
  rw [elConstSpeed, elConstSpeed, htgt, hspd, elImu_eq hel himu]
  exact mdeSetTrqEl_el hel _

theorem elControl_el (fpu : Fpu) {v w : Vars} (h : ElPart v w) :
    (elControl fpu v).el = (elControl fpu w).el := by
  have hst : v.ctrl.elState = w.ctrl.elState := congrArg ElView.state h.el
  rw [elControl, elControl, hst]
  cases w.ctrl.elState with
  | constTorque => exact h.el
  | constSpeed => exact elConstSpeed_el h.el h.imu
  | targetPosition =>
      have htgt : elTgt fpu v = elTgt fpu w := by
        have hp : v.ctrl.elTgtPos = w.ctrl.elTgtPos := congrArg ElView.tgtPos h.el
        have hps : v.ctrl.elTgtPosSpd = w.ctrl.elTgtPosSpd := congrArg ElView.tgtPosSpd h.el
        have htim : v.ctrl.elTgtPosTim = w.ctrl.elTgtPosTim := congrArg ElView.tgtPosTim h.el
        rw [elTgt, elTgt, hp, hps, htim, chVTGetSystemTimeX, chVTGetSystemTimeX, h.time]
      have hdist : elDist fpu v = elDist fpu w := by
        rw [elDist, elDist, htgt, elImu_eq h.el h.imu]
      rw [elTargetPosition, elTargetPosition, hdist]
      exact elConstSpeed_el
        (congrArg (fun z : ElView => { z with tgtSpd := elApproachSpd (elDist fpu w) }) h.el) h.imu

theorem ElPart.ctrlAxes {v w : Vars} (h : ElPart v w) (fpu : Fpu) :
    ElPart (ctrlAxes fpu v) (ctrlAxes fpu w) := by
  obtain ⟨_, _, _, _, hv⟩ := ctrlAxes_eq fpu v
  obtain ⟨_, _, _, _, hw⟩ := ctrlAxes_eq fpu w
  refine ⟨⟨?_, ?_, ?_⟩, ?_, ?_, ?_, ?_⟩
  · rw [ctrlAxes_pwr, ctrlAxes_pwr, h.pwr]
  · rw [hv, hw]
    exact h.time
  · rw [hv, hw]
    exact congrArg UInt32.ofNat h.time
  · rw [ctrlAxes_el, ctrlAxes_el]
    exact elControl_el fpu h
  · rw [hv, hw]
    exact h.imu
  · rw [ctrlAxes_azFlagCalibrate, h.flag]
  · rw [ctrlAxes_azFlagCalibrate, h.flag']

theorem ElPart.elSetConstTrq {v w : Vars} (h : ElPart v w) (torque : Int8) :
    ElPart (elSetConstTrq torque v) (elSetConstTrq torque w) :=
  ⟨⟨h.pwr, h.time, h.stamp⟩, congrArg (fun z : ElView =>
    { z with state := .constTorque, motor := torque }) h.el, h.imu, h.flag, h.flag'⟩

/-- Without a calibration there are only two ways through the loop. -/
theorem ElPart.ctrlStep {v w : Vars} (h : ElPart v w) (fpu : Fpu) {t u : CtrlThd}
    (ht : t.pc = .loopSleep) (hu : u.pc = .loopSleep) :
    ElPart (ctrlStep fpu v t).1 (ctrlStep fpu w u).1
      ∧ (ctrlStep fpu v t).2 = t ∧ (ctrlStep fpu w u).2 = u := by
  cases htrip : failsafe v.imu with
  | true =>
      have hstop : ElPart (stopAll v) (stopAll w) :=
        ⟨⟨h.pwr, h.time, h.stamp⟩, (h.elSetConstTrq 0).el, h.imu, rfl, rfl⟩
      rw [ctrlStep_tripped fpu ht htrip, ctrlStep_tripped fpu hu (h.trip ▸ htrip)]
      exact ⟨hstop.ctrlAxes fpu, rfl, rfl⟩
  | false =>
      rw [ctrlStep_plain fpu ht htrip h.flag, ctrlStep_plain fpu hu (h.trip ▸ htrip) h.flag']
      exact ⟨h.ctrlAxes fpu, rfl, rfl⟩

/-- Requests that ask nothing of elevation and the power switch, and for no calibration. -/
def notForEl : Request → Bool
  | .azSetConstTrq _ => true
  | .azSetTgtPos _ => true
  | .skSetConstTrq _ => true
  | .skSetTgtPos _ => true
  | .mdeSetAzEncOff _ => true
  | _ => false

theorem ElPart.hide {v w : Vars} (h : ElPart v w) {r : Request} (hr : notForEl r = true) :
    ElPart (serve v r) w := by
  cases r with
  | azSetConstTrq t => exact ⟨⟨h.pwr, h.time, h.stamp⟩, h.el, h.imu, rfl, h.flag'⟩
  | azSetTgtPos p => exact ⟨⟨h.pwr, h.time, h.stamp⟩, h.el, h.imu, rfl, h.flag'⟩
  | skSetConstTrq t => exact ⟨⟨h.pwr, h.time, h.stamp⟩, h.el, h.imu, h.flag, h.flag'⟩
  | skSetTgtPos p => exact ⟨⟨h.pwr, h.time, h.stamp⟩, h.el, h.imu, h.flag, h.flag'⟩
  | mdeSetAzEncOff off => exact ⟨⟨h.pwr, h.time, h.stamp⟩, h.el, h.imu, h.flag, h.flag'⟩
  | _ => cases hr

theorem ElPart.elSetTgtPos {v w : Vars} (h : ElPart v w) (p : Int16) :
    ElPart (elSetTgtPos p v) (elSetTgtPos p w) := by
  refine ⟨⟨h.pwr, h.time, h.stamp⟩, ?_, h.imu, h.flag, h.flag'⟩
  exact congrArg₂ (fun (z : ElView) tim => { z with
    tgtPos := p, tgtPosTim := tim, state := .targetPosition }) h.el (congrArg UInt32.ofNat h.time)

theorem ElPart.elSetTgtPosSpd {v w : Vars} (h : ElPart v w) (spd : Int16) :
    ElPart (elSetTgtPosSpd spd v) (elSetTgtPosSpd spd w) :=
  ⟨⟨h.pwr, h.time, h.stamp⟩, congrArg (fun z : ElView => { z with tgtPosSpd := spd }) h.el, h.imu,
    h.flag, h.flag'⟩

theorem ElPart.azSetTgtPos {v w : Vars} (h : ElPart v w) (p p' : UInt16) :
    ElPart (azSetTgtPos p v) (azSetTgtPos p' w) :=
  ⟨⟨h.pwr, h.time, h.stamp⟩, h.el, h.imu, rfl, rfl⟩

theorem ElPart.azSetTgtPosSpd {v w : Vars} (h : ElPart v w) (spd : Int16) :
    ElPart (azSetTgtPosSpd spd v) (azSetTgtPosSpd spd w) :=
  ⟨⟨h.pwr, h.time, h.stamp⟩, h.el, h.imu, h.flag, h.flag'⟩

theorem ElPart.apiPos {v w : Vars} (h : ElPart v w) (az az' : UInt16) (el : Int16) (slow : Bool) :
    ElPart (apiPos az el slow v) (apiPos az' el slow w) := by
  have hset := (h.azSetTgtPos az az').elSetTgtPos el
  cases slow with
  | false => exact hset
  | true => exact (hset.azSetTgtPosSpd 0).elSetTgtPosSpd 0

theorem ElPart.apiStop {v w : Vars} (h : ElPart v w) : ElPart (apiStop v) (apiStop w) := by
  have hpos : v.imu.elPos = w.imu.elPos := congrArg ImuReading.elPos h.imu
  have hset : ElPart (Seatel.elSetTgtPos v.imu.elPos (Seatel.azSetTgtPos v.mde.encAz v))
      (Seatel.elSetTgtPos w.imu.elPos (Seatel.azSetTgtPos w.mde.encAz w)) :=
    hpos ▸ (h.azSetTgtPos v.mde.encAz w.mde.encAz).elSetTgtPos w.imu.elPos
  exact (hset.azSetTgtPosSpd 0).elSetTgtPosSpd 0

theorem ElPart.serve {v w : Vars} (h : ElPart v w) {r : Request} (hcal : r ≠ .azCalibrate) :
    ElPart (serve v r) (serve w r) := by
  cases hr : notForEl r with
  | true => exact ((h.hide hr).symm.hide hr).symm
  | false =>
      cases r with
      | elSetConstTrq t => exact h.elSetConstTrq t
      | elSetTgtPos p => exact h.elSetTgtPos p
      | imuSetElOff off =>
          exact ⟨⟨h.pwr, h.time, h.stamp⟩, congrArg (fun z : ElView => { z with off := off }) h.el,
            h.imu, h.flag, h.flag'⟩
      | mdePowerUp =>
          exact ⟨⟨congrArg (fun p : PwrView => { p with powerUp := true }) h.pwr, h.time, h.stamp⟩,
            h.el, h.imu, h.flag, h.flag'⟩
      | mdePowerDown =>
          exact ⟨⟨congrArg (fun p : PwrView => { p with powerDn := true }) h.pwr, h.time, h.stamp⟩,
            h.el, h.imu, h.flag, h.flag'⟩
      | apiPos az el slow => exact h.apiPos az az el slow
      | apiStop => exact h.apiStop
      | azCalibrate => exact absurd rfl hcal
      | _ => cases hr

structure ElAlike (s t : Sys) : Prop extends ElPart s.vars t.vars where
  ctrlPc : s.ctrl.pc = .loopSleep
  ctrlPc' : t.ctrl.pc = .loopSleep
  pc : s.mde.pc.shape = t.mde.pc.shape

def ElHidden (a : Act) : Prop := ∃ r, a = .req r ∧ notForEl r = true

/-- The same to elevation: azimuths may differ, and what the encoder replies. Whether a `P`
resets the target speeds is the same. -/
inductive ElSame : Act → Act → Prop where
  | same (a : Act) (hcal : a ≠ .req .azCalibrate) : ElSame a a
  | apiPos (az az' : UInt16) (el : Int16) (slow : Bool) :
      ElSame (.req (.apiPos az el slow)) (.req (.apiPos az' el slow))
  | mde (miso miso' : UInt16) : ElSame (.mde miso) (.mde miso')

theorem ElAlike.symm {s t : Sys} (h : ElAlike s t) : ElAlike t s :=
  ⟨h.toElPart.symm, h.ctrlPc', h.ctrlPc, h.pc.symm⟩

theorem ElAlike.hide {s t : Sys} (h : ElAlike s t) (fpu : Fpu) {a : Act} (ha : ElHidden a) :
    ElAlike (sysNext fpu s a) t := by
  obtain ⟨r, rfl, hr⟩ := ha
  exact ⟨h.toElPart.hide hr, h.ctrlPc, h.ctrlPc', h.pc⟩

/-- Only elevation torques are seen. -/
def seesEl (m : Motor) : Bool := m = .el

theorem ElAlike.mde {s t : Sys} (h : ElAlike s t) (fpu : Fpu) (miso miso' : UInt16) :
    ElAlike (sysNext fpu s (.mde miso)) (sysNext fpu t (.mde miso'))
      ∧ seenObs fpu seesEl s (.mde miso) = seenObs fpu seesEl t (.mde miso') := by
  have hmot : ∀ m, seesEl m = true → s.vars.mde.motor m = t.vars.mde.motor m := by
    intro m hm
    obtain rfl := of_decide_eq_true hm
    exact congrArg ElView.motor h.el
  have hout := mdeStep_alike seesEl fpu miso miso' h.toMdeAlike h.pc hmot
  have hs := mdeStep_frame fpu miso s.vars s.mde
  have ht := mdeStep_frame fpu miso' t.vars t.mde
  refine ⟨⟨⟨hout.vars, ?_, ?_, ?_, ?_⟩, h.ctrlPc, h.ctrlPc', hout.pc⟩, hout.events⟩
  · have hmotor : (mdeStep fpu miso s.vars s.mde).vars.mde.motorEl
        = (mdeStep fpu miso' t.vars t.mde).vars.mde.motorEl :=
      (hs.motor .el).trans ((hmot .el rfl).trans (ht.motor .el).symm)
    have hoff : (mdeStep fpu miso s.vars s.mde).vars.imu.elOff
        = (mdeStep fpu miso' t.vars t.mde).vars.imu.elOff := by
      rw [hs.imu, ht.imu]
      exact congrArg ElView.off h.el
    have hel := h.el
    simp only [Vars.el, ElView.mk.injEq] at hel ⊢
    obtain ⟨h1, h2, h3, h4, h5, -, -⟩ := hel
    simp only [sysNext, hs.ctrl, ht.ctrl]
    exact ⟨h1, h2, h3, h4, h5, hmotor, hoff⟩
  · simp only [sysNext]
    rw [hs.imu, ht.imu]
    exact h.imu
  · simp only [sysNext, hs.ctrl, h.flag]
  · simp only [sysNext, ht.ctrl, h.flag']

theorem elAlike_next (fpu : Fpu) {s t : Sys} (h : ElAlike s t) {a b : Act} (hab : ElSame a b) :
    ElAlike (sysNext fpu s a) (sysNext fpu t b)
      ∧ seenObs fpu seesEl s a = seenObs fpu seesEl t b := by
  cases hab with
  | apiPos az az' el slow =>
      exact ⟨⟨h.toElPart.apiPos az az' el slow, h.ctrlPc, h.ctrlPc', h.pc⟩, rfl⟩
  | mde miso miso' => exact h.mde fpu miso miso'
  | same a hcal =>
      cases a with
      | req r =>
          have hr : r ≠ .azCalibrate := fun heq => hcal (congrArg Act.req heq)
          exact ⟨⟨h.toElPart.serve hr, h.ctrlPc, h.ctrlPc', h.pc⟩, rfl⟩
      | ctrl =>
          obtain ⟨hpart, hs, ht⟩ := h.toElPart.ctrlStep fpu h.ctrlPc h.ctrlPc'
          refine ⟨⟨hpart, ?_, ?_, h.pc⟩, rfl⟩
          · simp only [sysNext, hs, h.ctrlPc]
          · simp only [sysNext, ht, h.ctrlPc']
      | mde miso => exact h.mde fpu miso miso
      | imu r =>
          exact ⟨⟨⟨⟨h.pwr, h.time, h.stamp⟩, h.el, rfl, h.flag, h.flag'⟩, h.ctrlPc, h.ctrlPc',
            h.pc⟩, rfl⟩
      | tick n =>
          exact ⟨⟨⟨⟨h.pwr, congrArg (· + n) h.time, h.stamp⟩, h.el, h.imu, h.flag, h.flag'⟩,
            h.ctrlPc, h.ctrlPc', h.pc⟩, rfl⟩

/-- Two runs without a calibration that differ in what they ask of azimuth and skew, and in
what the encoder replies, show the same events up to the torques of azimuth and skew, and
leave the elevation axis in the same state. -/
theorem elevation_isolated (fpu : Fpu) (s t : Sys) (h : ElAlike s t) (as bs : List Act)
    (hacts : Matched ElHidden ElSame as bs) :
    (run (sysNext fpu) s as).vars.el = (run (sysNext fpu) t bs).vars.el
      ∧ trace (sysNext fpu) (seenObs fpu seesEl) s as
        = trace (sysNext fpu) (seenObs fpu seesEl) t bs := by
  obtain ⟨halike, htrace⟩ := hacts.run_trace (R := ElAlike) (H := ElHidden) (A := ElSame)
    (fun s t a hst ha => hst.hide fpu ha) (fun s t a hst ha => (hst.symm.hide fpu ha).symm)
    (fun s a ha => seenObs_of_req fpu seesEl s ha)
    (fun s t a b hst hab => elAlike_next fpu hst hab) h
  exact ⟨halike.el, htrace⟩

/-- A manual azimuth torque on one side, and two replies of the encoder. -/
theorem elevation_isolated_example :
    (run (sysNext Fpu.modular) (Sys.boot 0 0 0 0)
        [.imu imuAtRest, .req (.elSetTgtPos 500), .req (.azSetConstTrq 10), .ctrl, .mde 3]).vars.el
      = (run (sysNext Fpu.modular) (Sys.boot 0 0 0 0)
        [.imu imuAtRest, .req (.elSetTgtPos 500), .ctrl, .mde 9]).vars.el := by
  refine (elevation_isolated Fpu.modular (Sys.boot 0 0 0 0) (Sys.boot 0 0 0 0) ?_ _ _ ?_).1
  · exact ⟨⟨⟨rfl, rfl, rfl⟩, rfl, rfl, rfl, rfl⟩, rfl, rfl, rfl⟩
  · refine .both (.same _ ?_) (.both (.same _ ?_) (.left ⟨_, rfl, rfl⟩
      (.both (.same _ ?_) (.both (.mde _ _) .nil))))
    · exact nofun
    · exact nofun
    · exact nofun

end Seatel
