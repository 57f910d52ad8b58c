import Seatel.System

/-!
# Turning the encoder

Nothing in the azimuth loop knows where north is: turn the encoder and
every azimuth target by the same angle `k` modulo 2^16, and speed
estimate, target speed and torque stay what they were. Each function
commutes with the turn (`azControl_rotate`, `mdeStep_rotate`, ...), and
two runs whose encoder samples and targets differ by `k` stay turned
copies of each other (`rotated_next`, `run_rel`).

Calibration is left out, since it looks for the crossing of 0, and a
moving target as well: its shift is added in a `double` that must not
leave the range of the type.
-/

namespace Seatel

open Runs CInt

/-- The variables with encoder and azimuth target turned by `k`. -/
def Vars.rotate (k : UInt16) (v : Vars) : Vars :=
  { v with
    ctrl := { v.ctrl with azTgtPos := v.ctrl.azTgtPos + k }
    mde := { v.mde with encAz := v.mde.encAz + k } }

-- Field by field, so that no proof compares two turned records as wholes.

@[simp] theorem rotate_ctrl (k : UInt16) (v : Vars) :
    (v.rotate k).ctrl = { v.ctrl with azTgtPos := v.ctrl.azTgtPos + k } := rfl

@[simp] theorem rotate_mde (k : UInt16) (v : Vars) :
    (v.rotate k).mde = { v.mde with encAz := v.mde.encAz + k } := rfl

@[simp] theorem rotate_imu (k : UInt16) (v : Vars) : (v.rotate k).imu = v.imu := rfl

@[simp] theorem rotate_time (k : UInt16) (v : Vars) : (v.rotate k).time = v.time := rfl

/-- The request with its azimuth target turned by `k`. -/
def Request.rotate (k : UInt16) : Request → Request
  | .azSetTgtPos p => .azSetTgtPos (p + k)
  | .apiPos az el slow => .apiPos (az + k) el slow
  | r => r

/-! ## Requests and the control thread -/

theorem serve_rotate (k : UInt16) (v : Vars) (r : Request) :
    serve (v.rotate k) (r.rotate k) = (serve v r).rotate k := by
  cases r with
  | apiPos az el slow => cases slow <;> rfl
  | _ => rfl

theorem sub_rotate (k a b : UInt16) : (a + k) - (b + k) = a - b := by
  have ha : a.toNat < 65536 := a.toNat_lt
  have hb : b.toNat < 65536 := b.toNat_lt
  apply UInt16.toNat_inj.mp
  rw [UInt16.toNat_sub, UInt16.toNat_sub, UInt16.toNat_add, UInt16.toNat_add]
  omega

theorem azEnc_rotate (k : UInt16) (v : Vars) : azEnc (v.rotate k) = azEnc v + k := by
  have h : azEnc (v.rotate k) = v.mde.encAz + k + v.mde.encAzOff := rfl
  rw [h, azEnc, UInt16.add_assoc, UInt16.add_assoc, UInt16.add_comm k]

theorem azTgt_rotate (fpu : Fpu) (k : UInt16) {v : Vars} (hspd : v.ctrl.azTgtPosSpd = 0) :
    azTgt fpu (v.rotate k) = azTgt fpu v + k := by
  have hspd' : (v.rotate k).ctrl.azTgtPosSpd = 0 := hspd
  rw [azTgt_of_still fpu hspd', azTgt_of_still fpu hspd]
  rfl

theorem setAzTgtSpd_rotate (k : UInt16) (v : Vars) (spd : Int16) :
    setAzTgtSpd spd (v.rotate k) = (setAzTgtSpd spd v).rotate k := rfl

theorem mdeSetTrqAz_rotate (k : UInt16) (v : Vars) (trq : Int8) :
    mdeSetTrqAz trq (v.rotate k) = (mdeSetTrqAz trq v).rotate k := rfl

theorem azConstSpeed_rotate (k : UInt16) (v : Vars) :
    azConstSpeed (v.rotate k) = (azConstSpeed v).rotate k := by
  simp only [azConstSpeed, rotate_ctrl, rotate_mde, mdeSetTrqAz_rotate]

theorem azControl_rotate (fpu : Fpu) (k : UInt16) {v : Vars} (hspd : v.ctrl.azTgtPosSpd = 0) :
    azControl fpu (v.rotate k) = (azControl fpu v).rotate k := by
  simp only [azControl, rotate_ctrl]
  cases v.ctrl.azState with
  | constTorque => rfl
  | constSpeed => exact azConstSpeed_rotate k v
  | targetPosition =>
      simp only [azTargetPosition, azEnc_rotate, azTgt_rotate fpu k hspd, sub_rotate]
      split
      · rw [setAzTgtSpd_rotate, azConstSpeed_rotate]
      · rw [rotate_mde, mdeSetTrqAz_rotate]

theorem setElTgtSpd_rotate (k : UInt16) (v : Vars) (spd : Int16) :
    setElTgtSpd spd (v.rotate k) = (setElTgtSpd spd v).rotate k := rfl

theorem mdeSetTrqEl_rotate (k : UInt16) (v : Vars) (trq : Int8) :
    mdeSetTrqEl trq (v.rotate k) = (mdeSetTrqEl trq v).rotate k := rfl

theorem elConstSpeed_rotate (k : UInt16) (v : Vars) :
    elConstSpeed (v.rotate k) = (elConstSpeed v).rotate k := by
  simp only [elConstSpeed, elImu, rotate_ctrl, rotate_imu, mdeSetTrqEl_rotate]

theorem elControl_rotate (fpu : Fpu) (k : UInt16) (v : Vars) :
    elControl fpu (v.rotate k) = (elControl fpu v).rotate k := by
  simp only [elControl, rotate_ctrl]
  cases v.ctrl.elState with
  | constTorque => rfl
  | constSpeed => exact elConstSpeed_rotate k v
  | targetPosition =>
      have hdist : elDist fpu (v.rotate k) = elDist fpu v := by
        simp only [elDist, elTgt, elImu, chVTGetSystemTimeX, rotate_ctrl, rotate_imu, rotate_time]
      rw [elTargetPosition, hdist, setElTgtSpd_rotate, elConstSpeed_rotate, elTargetPosition]

theorem ctrlAxes_rotate (fpu : Fpu) (k : UInt16) {v : Vars} (hspd : v.ctrl.azTgtPosSpd = 0) :
    ctrlAxes fpu (v.rotate k) = (ctrlAxes fpu v).rotate k := by
  simp only [ctrlAxes, azControl_rotate fpu k hspd, elControl_rotate, skControl_eq]
  rfl

/-- The iterations of two turned runs, without calibration. -/
theorem ctrlStep_rotate (fpu : Fpu) (k : UInt16) {v : Vars} {t t' : CtrlThd}
    (hpc : t.pc = .loopSleep) (hpc' : t'.pc = .loopSleep)
    (hflag : v.ctrl.azFlagCalibrate = false) (hspd : v.ctrl.azTgtPosSpd = 0) :
    (ctrlStep fpu (v.rotate k) t').1 = (ctrlStep fpu v t).1.rotate k := by
  cases htrip : failsafe v.imu with
  | true =>
      have htrip' : failsafe (v.rotate k).imu = true := htrip
      rw [ctrlStep_tripped fpu hpc htrip, ctrlStep_tripped fpu hpc' htrip']
      exact ctrlAxes_rotate fpu k (v := stopAll v) hspd
  | false =>
      have htrip' : failsafe (v.rotate k).imu = false := htrip
      have hflag' : (v.rotate k).ctrl.azFlagCalibrate = false := hflag
      rw [ctrlStep_plain fpu hpc htrip hflag, ctrlStep_plain fpu hpc' htrip' hflag']
      exact ctrlAxes_rotate fpu k hspd

/-- An iteration without calibration keeps it so. -/
theorem ctrlStep_still (fpu : Fpu) {v : Vars} {t : CtrlThd} (hpc : t.pc = .loopSleep)
    (hflag : v.ctrl.azFlagCalibrate = false) (hspd : v.ctrl.azTgtPosSpd = 0) :
    (ctrlStep fpu v t).1.ctrl.azFlagCalibrate = false
      ∧ (ctrlStep fpu v t).1.ctrl.azTgtPosSpd = 0 ∧ (ctrlStep fpu v t).2.pc = .loopSleep := by
  have hkeep : ∀ v : Vars, v.ctrl.azFlagCalibrate = false → v.ctrl.azTgtPosSpd = 0 →
      (ctrlAxes fpu v).ctrl.azFlagCalibrate = false ∧ (ctrlAxes fpu v).ctrl.azTgtPosSpd = 0 := by
    intro v hf hs
    obtain ⟨_, _, _, _, heq⟩ := ctrlAxes_eq fpu v
    rw [heq]
    exact ⟨hf, hs⟩
  cases htrip : failsafe v.imu with
  | true =>
      rw [ctrlStep_tripped fpu hpc htrip]
      obtain ⟨hf, hs⟩ := hkeep (stopAll v) rfl hspd
      exact ⟨hf, hs, hpc⟩
  | false =>
      rw [ctrlStep_plain fpu hpc htrip hflag]
      obtain ⟨hf, hs⟩ := hkeep v hflag hspd
      exact ⟨hf, hs, hpc⟩

/-! ## The MDE thread -/

/-- A step of the MDE thread and its turned copy: the replies may differ in what
is not an encoder sample, so `fc` is not compared. -/
structure OutRotated (k : UInt16) (o o' : MdeOut) : Prop where
  vars : o'.vars = o.vars.rotate k
  pc : o'.thd.pc = o.thd.pc
  oldT : o'.thd.oldT = o.thd.oldT
  oldX : o'.thd.oldX = o.thd.oldX + k

theorem ctrlIsRunning_rotate (k : UInt16) (v : Vars) :
    ctrlIsRunning (v.rotate k) = ctrlIsRunning v := by
  have helapsed : chVTGetSystemTimeX (v.rotate k) - (v.rotate k).ctrl.lastLoopUpdate
      = chVTGetSystemTimeX v - v.ctrl.lastLoopUpdate := by
    simp only [chVTGetSystemTimeX, rotate_ctrl, rotate_time]
  rw [ctrlIsRunning, helapsed, ctrlIsRunning]

section Mde

variable {k : UInt16} {t t' : MdeThd} (hT : t'.oldT = t.oldT) (hX : t'.oldX = t.oldX + k)

include hT hX

theorem mdeGate_rotate (v : Vars) : OutRotated k (mdeGate v t) (mdeGate (v.rotate k) t') := by
  have hrot : ((v.rotate k).mde.isPoweredUp && ctrlIsRunning (v.rotate k))
      = (v.mde.isPoweredUp && ctrlIsRunning v) := by
    rw [ctrlIsRunning_rotate, rotate_mde]
  rw [mdeGate, mdeGate, hrot]
  cases v.mde.isPoweredUp && ctrlIsRunning v with
  | true => exact ⟨rfl, rfl, hT, hX⟩
  | false => exact ⟨rfl, rfl, hT, hX⟩

theorem mdePowerUpTest_rotate (v : Vars) :
    OutRotated k (mdePowerUpTest v t) (mdePowerUpTest (v.rotate k) t') := by
  have hrot : ((v.rotate k).mde.powerUp && !(v.rotate k).mde.isPoweredUp)
      = (v.mde.powerUp && !v.mde.isPoweredUp) := by
    rw [rotate_mde]
  rw [mdePowerUpTest, mdePowerUpTest, hrot, rotate_imu]
  cases v.mde.powerUp && !v.mde.isPoweredUp with
  | true => exact ⟨rfl, rfl, hT, hX⟩
  | false =>
      simp only [Bool.false_eq_true, if_false]
      exact mdeGate_rotate hT hX v

theorem mdeTop_rotate (v : Vars) : OutRotated k (mdeTop v t) (mdeTop (v.rotate k) t') := by
  have hrot : ((v.rotate k).mde.powerDn && (v.rotate k).mde.isPoweredUp)
      = (v.mde.powerDn && v.mde.isPoweredUp) := by
    rw [rotate_mde]
  rw [mdeTop, mdeTop, hrot]
  cases v.mde.powerDn && v.mde.isPoweredUp with
  | true => exact ⟨rfl, rfl, hT, hX⟩
  | false =>
      simp only [Bool.false_eq_true, if_false]
      exact mdePowerUpTest_rotate hT hX v

theorem mdeInit_rotate (rest : List InitOp) (v : Vars) :
    OutRotated k (mdeInit rest v t) (mdeInit rest (v.rotate k) t') := by
  rcases rest with _ | ⟨op, rest⟩
  · exact mdeGate_rotate hT hX
      { v with mde := { v.mde with powerUp := false, isPoweredUp := true } }
  · cases op with
    | exchange mosi => exact ⟨rfl, rfl, hT, hX⟩
    | sleep ms => exact ⟨rfl, rfl, hT, hX⟩

/-- A step that does not complete an encoder reading. -/
theorem mdeStep_rotate (fpu : Fpu) (miso miso' : UInt16) (v : Vars) (hpc : t'.pc = t.pc)
    (hno : ∀ i, t.pc = .poll i → i + 1 < pollWords.length) :
    OutRotated k (mdeStep fpu miso v t) (mdeStep fpu miso' (v.rotate k) t') := by
  rw [mdeStep, mdeStep, hpc]
  cases htpc : t.pc with
  | loopSleep => exact mdeTop_rotate hT hX v
  | powerDnSleep =>
      exact mdePowerUpTest_rotate hT hX
        { v with mde := { v.mde with powerDn := false, isPoweredUp := false } }
  | imuCalibrate i accu =>
      by_cases hi : i < 100
      · simp only [if_pos hi]
        exact ⟨rfl, rfl, hT, hX⟩
      · simp only [if_neg hi]
        exact ⟨rfl, rfl, hT, hX⟩
  | powerUpSleep => exact mdeInit_rotate hT hX initScript v
  | init rest => exact mdeInit_rotate hT hX rest v
  | poll i =>
      have hword : pollWords[i + 1]? = some (pollWords.get ⟨i + 1, hno i htpc⟩) :=
        List.getElem?_eq_getElem (hno i htpc)
      simp only [hword]
      by_cases hi : i = 5
      · simp only [if_pos hi]
        exact ⟨rfl, rfl, hT, hX⟩
      · simp only [if_neg hi]
        exact ⟨rfl, rfl, hT, hX⟩
  | torque m =>
      cases m with
      | az => exact ⟨rfl, rfl, hT, hX⟩
      | el => exact ⟨rfl, rfl, hT, hX⟩
      | sk => exact ⟨rfl, rfl, hT, hX⟩

end Mde

/-- The wrapped difference of two encoder values. -/
theorem encDiff_rotate (k x y : UInt16) : encDiff (x + k) (y + k) = encDiff x y := by
  apply Int16.toInt_inj.mp
  rw [encDiff_toInt, encDiff_toInt, circDiff_add]

theorem mdeEncoder_rotate (fpu : Fpu) {k : UInt16} {fb fb' : UInt8} (v : Vars) {t t' : MdeThd}
    (hT : t'.oldT = t.oldT) (hX : t'.oldX = t.oldX + k)
    (henc : encAzOf t'.fc fb' = encAzOf t.fc fb + k) :
    OutRotated k (mdeTorque .az (mdeEncoder fpu fb v t).1 (mdeEncoder fpu fb v t).2)
      (mdeTorque .az (mdeEncoder fpu fb' (v.rotate k) t').1
        (mdeEncoder fpu fb' (v.rotate k) t').2) := by
  have htime : chVTGetSystemTimeX (v.rotate k) = chVTGetSystemTimeX v := by
    rw [chVTGetSystemTimeX, rotate_time, chVTGetSystemTimeX]
  refine ⟨?_, rfl, htime, henc⟩
  simp only [mdeTorque, mdeEncoder, henc, hX, hT, htime, encDiff_rotate]
  rfl

/-! ## Two runs -/

/-- The two systems are copies turned by `k`, without a calibration and with a
target that stands still. The locals a calibration or the next reading
overwrites need not agree. -/
structure Rotated (k : UInt16) (s s' : Sys) : Prop where
  vars : s'.vars = s.vars.rotate k
  mdePc : s'.mde.pc = s.mde.pc
  oldT : s'.mde.oldT = s.mde.oldT
  oldX : s'.mde.oldX = s.mde.oldX + k
  ctrlPc : s.ctrl.pc = .loopSleep
  ctrlPc' : s'.ctrl.pc = .loopSleep
  azFlagCalibrate : s.vars.ctrl.azFlagCalibrate = false
  azTgtPosSpd : s.vars.ctrl.azTgtPosSpd = 0

/-- The same act, with azimuth targets turned by `k`; the replies of the MDE are
compared by the samples they make up. -/
inductive ActRotated (k : UInt16) : Act → Act → Prop where
  | req (r : Request) (hcal : r ≠ .azCalibrate) : ActRotated k (.req r) (.req (r.rotate k))
  | ctrl : ActRotated k .ctrl .ctrl
  | mde (miso miso' : UInt16) : ActRotated k (.mde miso) (.mde miso')
  | imu (r : ImuReading) : ActRotated k (.imu r) (.imu r)
  | tick (n : Nat) : ActRotated k (.tick n) (.tick n)

/-- The encoder samples of a step. -/
def encObs (fpu : Fpu) (s : Sys) : Act → List UInt16
  | .mde miso => if samples s then [(mdeStep fpu miso s.vars s.mde).vars.mde.encAz] else []
  | _ => []

theorem serve_still {v : Vars} {r : Request} (hcal : r ≠ .azCalibrate)
    (hflag : v.ctrl.azFlagCalibrate = false) (hspd : v.ctrl.azTgtPosSpd = 0) :
    (serve v r).ctrl.azFlagCalibrate = false ∧ (serve v r).ctrl.azTgtPosSpd = 0 := by
  cases r with
  | azCalibrate => exact absurd rfl hcal
  | apiPos az el slow =>
      cases slow with
      | true => exact ⟨rfl, rfl⟩
      | false => exact ⟨rfl, hspd⟩
  | apiStop => exact ⟨rfl, rfl⟩
  | azSetConstTrq t => exact ⟨rfl, hspd⟩
  | azSetTgtPos p => exact ⟨rfl, hspd⟩
  | _ => exact ⟨hflag, hspd⟩

theorem rotated_mde (fpu : Fpu) {k : UInt16} {s s' : Sys} (h : Rotated k s s')
    (miso miso' : UInt16)
    (hobs : encObs fpu s' (.mde miso') = (encObs fpu s (.mde miso)).map (· + k)) :
    Rotated k (sysNext fpu s (.mde miso)) (sysNext fpu s' (.mde miso')) := by
  have hout : OutRotated k (mdeStep fpu miso s.vars s.mde) (mdeStep fpu miso' s'.vars s'.mde) := by
    rw [h.vars]
    cases hsam : samples s with
    | false =>
        refine mdeStep_rotate h.oldT h.oldX fpu miso miso' s.vars h.mdePc fun i hpc => ?_
        simpa [samples, hpc] using hsam
    | true =>
        have hsam' : samples s' = true := by
          rw [samples, h.mdePc]
          exact hsam
        cases hpc : s.mde.pc with
        | poll i =>
            have hi : ¬ i + 1 < pollWords.length := by simpa [samples, hpc] using hsam
            have hpc' : s'.mde.pc = .poll i := h.mdePc.trans hpc
            simp only [encObs, hsam, hsam', if_true, List.map_cons, List.map_nil,
              List.cons.injEq, and_true, mdeStep_sample fpu _ _ hpc hi,
              mdeStep_sample fpu _ _ hpc' hi] at hobs
            rw [mdeStep_sample fpu _ _ hpc hi, mdeStep_sample fpu _ _ hpc' hi]
            exact mdeEncoder_rotate fpu s.vars h.oldT h.oldX hobs
        | _ => simp [samples, hpc] at hsam
  have hf := mdeStep_frame fpu miso s.vars s.mde
  refine ⟨hout.vars, hout.pc, hout.oldT, hout.oldX, h.ctrlPc, h.ctrlPc', ?_, ?_⟩
  · exact (congrArg Ctrl.azFlagCalibrate hf.ctrl).trans h.azFlagCalibrate
  · exact (congrArg Ctrl.azTgtPosSpd hf.ctrl).trans h.azTgtPosSpd

theorem rotated_next (fpu : Fpu) {k : UInt16} {s s' : Sys} (h : Rotated k s s') {a a' : Act}
    (ha : ActRotated k a a') (hobs : encObs fpu s' a' = (encObs fpu s a).map (· + k)) :
    Rotated k (sysNext fpu s a) (sysNext fpu s' a') := by
  cases ha with
  | req r hcal =>
      obtain ⟨hflag, hspd⟩ := serve_still hcal h.azFlagCalibrate h.azTgtPosSpd
      refine ⟨?_, h.mdePc, h.oldT, h.oldX, h.ctrlPc, h.ctrlPc', hflag, hspd⟩
      simp only [sysNext, h.vars]
      exact serve_rotate k s.vars r
  | ctrl =>
      have hflag' : s'.vars.ctrl.azFlagCalibrate = false := by
        rw [h.vars, rotate_ctrl]
        exact h.azFlagCalibrate
      have hspd' : s'.vars.ctrl.azTgtPosSpd = 0 := by
        rw [h.vars, rotate_ctrl]
        exact h.azTgtPosSpd
      obtain ⟨hf, hs, hpc⟩ := ctrlStep_still fpu h.ctrlPc h.azFlagCalibrate h.azTgtPosSpd
      obtain ⟨-, -, hpc'⟩ := ctrlStep_still fpu h.ctrlPc' hflag' hspd'
      refine ⟨?_, h.mdePc, h.oldT, h.oldX, hpc, hpc', hf, hs⟩
      simp only [sysNext]
      rw [h.vars]
      exact ctrlStep_rotate fpu k h.ctrlPc h.ctrlPc' h.azFlagCalibrate h.azTgtPosSpd
  | mde miso miso' => exact rotated_mde fpu h miso miso' hobs
  | imu r =>
      refine ⟨?_, h.mdePc, h.oldT, h.oldX, h.ctrlPc, h.ctrlPc', h.azFlagCalibrate, h.azTgtPosSpd⟩
      simp only [sysNext, h.vars]
      rfl
  | tick n =>
      refine ⟨?_, h.mdePc, h.oldT, h.oldX, h.ctrlPc, h.ctrlPc', h.azFlagCalibrate, h.azTgtPosSpd⟩
      simp only [sysNext, h.vars]
      rfl

theorem encObs_length (fpu : Fpu) {k : UInt16} {s s' : Sys} (h : Rotated k s s') {a a' : Act}
    (ha : ActRotated k a a') : (encObs fpu s' a').length = (encObs fpu s a).length := by
  cases ha with
  | mde miso miso' =>
      have hsam : samples s' = samples s := by rw [samples, h.mdePc, samples]
      rw [encObs, encObs, hsam]
      cases samples s with
      | true => simp only [if_true, List.length_singleton]
      | false => simp only [Bool.false_eq_true, if_false]
  | req r _ => simp only [encObs]
  | ctrl => simp only [encObs]
  | imu r => simp only [encObs]
  | tick n => simp only [encObs]

/-- Two runs that differ by a turn of the encoder and of the azimuth targets
agree, after every step, on speed estimate, target speed and torque. -/
theorem azimuth_rotation_equivariant (fpu : Fpu) (k : UInt16) (s s' : Sys) (h : Rotated k s s')
    (as as' : List Act) (hacts : List.Forall₂ (ActRotated k) as as')
    (henc : trace (sysNext fpu) (encObs fpu) s' as'
      = (trace (sysNext fpu) (encObs fpu) s as).map (· + k)) (n : Nat) :
    let r := run (sysNext fpu) s (as.take n)
    let r' := run (sysNext fpu) s' (as'.take n)
    r'.vars.mde.encAzSpeed = r.vars.mde.encAzSpeed
      ∧ r'.vars.ctrl.azTgtSpd = r.vars.ctrl.azTgtSpd
      ∧ r'.vars.mde.motorAz = r.vars.mde.motorAz := by
  have hrot : Rotated k (run (sysNext fpu) s (as.take n)) (run (sysNext fpu) s' (as'.take n)) := by
    refine run_rel (R := Rotated k) (A := ActRotated k) (f := (· + k)) ?_ ?_ hacts h henc n
    · intro _ _ _ _ hR hA
      exact encObs_length fpu hR hA
    · intro _ _ _ _ hR hA hobs
      exact rotated_next fpu hR hA hobs
  simp only [hrot.vars, rotate_mde, rotate_ctrl, and_self]

/-- Short of north, on the way to a target behind it, with a reading about to be
completed. -/
def beforeNorth : Sys where
  vars := { ctrl := { azState := .targetPosition, azTgtPos := 200 }, mde := { encAz := 65000 } }
  ctrl := { pc := .loopSleep, oldAz := 0 }
  mde := { pc := .poll 6, oldT := 0, oldX := 65000, fc := 0x01 }

/-- The same, turned past north. -/
def behindNorth : Sys where
  vars := { ctrl := { azState := .targetPosition, azTgtPos := 1200 }, mde := { encAz := 464 } }
  ctrl := { pc := .loopSleep, oldAz := 0 }
  mde := { pc := .poll 6, oldT := 0, oldX := 464, fc := 0xfd }

theorem azimuth_rotation_across_north :
    let r := run (sysNext Fpu.modular) beforeNorth
      [.imu imuAtRest, .tick 2000, .mde 0xb3, .ctrl]
    let r' := run (sysNext Fpu.modular) behindNorth
      [.imu imuAtRest, .tick 2000, .mde 0xcb, .ctrl]
    r'.vars.mde.encAzSpeed = r.vars.mde.encAzSpeed
      ∧ r'.vars.ctrl.azTgtSpd = r.vars.ctrl.azTgtSpd
      ∧ r'.vars.mde.motorAz = r.vars.mde.motorAz :=
  azimuth_rotation_equivariant Fpu.modular 1000 beforeNorth behindNorth
    ⟨rfl, rfl, rfl, rfl, rfl, rfl, rfl, rfl⟩ _ _
    (.cons (.imu _) (.cons (.tick _) (.cons (.mde _ _) (.cons .ctrl .nil)))) (by decide +kernel) 4

end Seatel
