import Seatel.AzCommands
import Seatel.AzPosition
import Seatel.AzSpeed
import Seatel.MdeWords

/-!
# The azimuth axis as it is meant

The specification of the azimuth axis is a machine of its own, `azAxisNext`:
a goal and the torque the motor is given. The goal is a torque, a position,
or a calibration, which pushes for a second and then turns until the count
of the encoder starts again at 0. A command replaces the goal, a trip of the
failsafe resets it to torque 0, and an iteration takes the torque of the laws
over the integers (`azLaw`, `azSpeedLaw`). Modes, flags and time stamps are
not part of it.

The firmware is not as good. It follows step by step (`azTracks_next`), with
every request served whole between the steps of the threads, as long as
every step is `Regular`: no command falls into the second in which a
calibration pushes (`AzCommands`), the antenna is never exactly 46 counts to
the right of its target (`AzPosition`), and the speed error is one that the
`int8_t` of the speed law survives (`AzSpeed`).
-/

namespace Seatel

open Runs CInt

/-! ## The specification -/

/-- What the axis was last told to do, and how far it has come with a calibration. -/
inductive AzGoal where
  | torque (t : Int8)
  | target (p : UInt16)
  /-- a calibration that has not begun -/
  | asked
  /-- the second at full torque -/
  | push
  /-- on the way to the index, with the count seen last -/
  | turn (last : UInt16)
deriving Repr, DecidableEq

structure AzAxis where
  goal : AzGoal := .torque 0
  torque : Int := 0
deriving Repr, DecidableEq

inductive AzEvent where
  | torque (t : Int8)
  | target (p : UInt16)
  | calibrate
  | trip
  /-- An iteration that does not trip, with this position, offset and speed. -/
  | iterate (enc off : UInt16) (spd : Int16)
deriving Repr, DecidableEq

/-- From `enc` with its offset to `p`, the short way round. -/
def azWay (p enc off : UInt16) : Int := Int.bmod (p.toNat - (enc.toNat + off.toNat)) 65536

/-- The torque on the way from the speed `act` to the speed `tgt`. -/
def azSpeedLaw (tgt act : Int) : Int := limit 25 (azCommand tgt act)

/-- Close to the target a torque that holds against the last one, else towards it. -/
def azLaw (e act torque : Int) : Int :=
  if e.natAbs ≤ 45 then if torque > 0 then 3 else -3
  else azSpeedLaw (azIdealSpd e) act

def azAxisNext (x : AzAxis) : AzEvent → AzAxis
  | .torque t => { goal := .torque t, torque := t.toInt }
  | .target p => { x with goal := .target p }
  | .calibrate =>
      match x.goal with
      | .push => x
      | .turn _ => x
      | _ => { x with goal := .asked }
  | .trip => {}
  | .iterate enc off spd =>
      match x.goal with
      | .torque _ => x
      | .target p => { x with torque := azLaw (azWay p enc off) spd.toInt x.torque }
      | .asked => { goal := .push, torque := 25 }
      | .push => { goal := .turn 0, torque := azSpeedLaw 5400 spd.toInt }
      | .turn last =>
          if last > enc then {}
          else { goal := .turn enc, torque := azSpeedLaw 5400 spd.toInt }

/-! ## What the acts mean to the axis -/

def azRequest (v : Vars) : Request → List AzEvent
  | .azSetConstTrq t => [.torque t]
  | .azSetTgtPos p => [.target p]
  | .apiPos az _ _ => [.target az]
  | .apiStop => [.target v.mde.encAz]
  | .azCalibrate => [.calibrate]
  | _ => []

def azIterate (v : Vars) : AzEvent := .iterate v.mde.encAz v.mde.encAzOff v.mde.encAzSpeed

def azEvents (s : Sys) : Act → List AzEvent
  | .req r => azRequest s.vars r
  | .ctrl =>
      if s.ctrl.pc = .loopSleep ∧ failsafe s.vars.imu = true then [.trip] else [azIterate s.vars]
  | _ => []

/-- The speed error is one of those that the `int8_t` of the law survives. -/
def SpeedOk (v : Vars) (tgt : Int) : Prop := AzSpeedErrOk tgt v.mde.encAzSpeed.toInt

instance (v : Vars) (tgt : Int) : Decidable (SpeedOk v tgt) :=
  inferInstanceAs (Decidable (AzSpeedErrOk _ _))

/-- The iteration keeps away from the two defects of the laws. -/
def RegularIteration (s : Sys) : Prop :=
  match s.ctrl.pc with
  | .calibrateSleep => SpeedOk s.vars 5400
  | .loopSleep => failsafe s.vars.imu = false →
      (s.vars.ctrl.azState = .targetPosition → s.vars.ctrl.azFlagCalibrate = false →
        azError s.vars ≠ -46
          ∧ (45 < (azError s.vars).natAbs → SpeedOk s.vars (azIdealSpd (azError s.vars))))
      ∧ (s.vars.ctrl.azState = .constSpeed → ¬ calibrationEnds s → SpeedOk s.vars 5400)

/-- No command comes while a calibration pushes, and the iterations are regular. -/
def Regular (s : Sys) : Act → Prop
  | .req r => s.ctrl.pc = .calibrateSleep → ∀ e ∈ azRequest s.vars r, e = .calibrate
  | .ctrl => RegularIteration s
  | _ => True

/-! ## The laws -/

section Laws

variable (fpu : Fpu) {v : Vars}

/-- In constant speed the torque is that of the law. -/
theorem ctrlAxes_azSpeedLaw {tgt : Int} (hmode : v.ctrl.azState = .constSpeed)
    (htgt : v.ctrl.azTgtSpd.toInt = tgt) (hmin : 364 ≤ tgt.natAbs) (hmax : tgt.natAbs ≤ 5460)
    (hok : SpeedOk v tgt) :
    (ctrlAxes fpu v).mde.motorAz.toInt = azSpeedLaw tgt v.mde.encAzSpeed.toInt := by
  subst htgt
  have hview := congrArg AzView.motor (ctrlAxes_az fpu v)
  rw [azControl, hmode] at hview
  have hmotor : (ctrlAxes fpu v).mde.motorAz = azTorque v.ctrl.azTgtSpd v.mde.encAzSpeed := hview
  rw [hmotor]
  exact (azTorque_exact_iff hmin hmax _).mpr hok

theorem azIdealSpd_mem {e : Int} (he : e ≠ 0) :
    364 ≤ (azIdealSpd e).natAbs ∧ (azIdealSpd e).natAbs ≤ 5460 := by
  rw [azIdealSpd, Int.natAbs_mul, Int.natAbs_sign_of_ne_zero he, Nat.one_mul, Int.natAbs_natCast]
  omega

/-- In position mode the torque is that of the law, at every error but one. -/
theorem ctrlAxes_azLaw (hmode : v.ctrl.azState = .targetPosition)
    (hstill : v.ctrl.azTgtPosSpd = 0) (hedge : azError v ≠ -46)
    (hok : 45 < (azError v).natAbs → SpeedOk v (azIdealSpd (azError v))) :
    (ctrlAxes fpu v).mde.motorAz.toInt
      = azLaw (azError v) v.mde.encAzSpeed.toInt v.mde.motorAz.toInt := by
  have hdrives := azDrives_iff fpu hstill
  rw [azLaw]
  split
  · next hin =>
      have hhold : azDrives fpu v = false := by
        rw [← Bool.not_eq_true, hdrives]
        omega
      have hview := congrArg AzView.motor (ctrlAxes_hold fpu hmode hhold)
      have hmotor : (ctrlAxes fpu v).mde.motorAz = azHoldTrq v := hview
      rw [hmotor, azHoldTrq]
      split <;> rfl
  · next hout =>
      have hdrive : azDrives fpu v = true := hdrives.mpr (by omega)
      have hspd := ctrlAxes_drive fpu hmode hstill hdrive
      obtain ⟨spd, hcontrol⟩ : ∃ spd, azControl fpu v = azConstSpeed (setAzTgtSpd spd v) := by
        rw [azDrives] at hdrive
        simp only [azControl, hmode, azTargetPosition, hdrive, if_true]
        exact ⟨_, rfl⟩
      have hview := ctrlAxes_az fpu v
      rw [hcontrol] at hview
      have htgt : (ctrlAxes fpu v).ctrl.azTgtSpd = spd := congrArg AzView.tgtSpd hview
      have hmotor : (ctrlAxes fpu v).mde.motorAz = azTorque spd v.mde.encAzSpeed :=
        congrArg AzView.motor hview
      rw [htgt] at hspd
      obtain ⟨hmin, hmax⟩ := azIdealSpd_mem (e := azError v) (by omega)
      rw [← hspd] at hmin hmax hok ⊢
      rw [hmotor]
      exact (azTorque_exact_iff hmin hmax _).mpr (hok (by omega))

end Laws

/-! ## The firmware follows -/

/-- How a goal shows in the variables and in the control thread. -/
def AzGoal.Shown (v : Vars) (t : CtrlThd) : AzGoal → Prop
  | .torque _ => t.pc = .loopSleep ∧ v.ctrl.azFlagCalibrate = false
      ∧ v.ctrl.azState = .constTorque
  | .target p => t.pc = .loopSleep ∧ v.ctrl.azFlagCalibrate = false
      ∧ v.ctrl.azState = .targetPosition ∧ v.ctrl.azTgtPos = p
  | .asked => t.pc = .loopSleep ∧ v.ctrl.azFlagCalibrate = true ∧ v.ctrl.azState ≠ .constSpeed
  | .push => t.pc = .calibrateSleep ∧ v.ctrl.azFlagCalibrate = true
  | .turn last => t.pc = .loopSleep ∧ v.ctrl.azFlagCalibrate = true
      ∧ v.ctrl.azState = .constSpeed ∧ v.ctrl.azTgtSpd.toInt = 5400 ∧ t.oldAz = last

/-- The axis is in the state of the specification. -/
structure AzTracks (v : Vars) (t : CtrlThd) (x : AzAxis) : Prop where
  goal : x.goal.Shown v t
  motor : v.mde.motorAz.toInt = x.torque
  still : v.ctrl.azTgtPosSpd = 0

theorem AzGoal.Shown.congr {v w : Vars} {t : CtrlThd} {g : AzGoal} (h : g.Shown v t)
    (hflag : w.ctrl.azFlagCalibrate = v.ctrl.azFlagCalibrate)
    (hst : w.ctrl.azState = v.ctrl.azState) (hpos : w.ctrl.azTgtPos = v.ctrl.azTgtPos)
    (hspd : w.ctrl.azTgtSpd = v.ctrl.azTgtSpd) : g.Shown w t := by
  cases g with
  | torque _ => exact ⟨h.1, hflag.trans h.2.1, hst.trans h.2.2⟩
  | target _ => exact ⟨h.1, hflag.trans h.2.1, hst.trans h.2.2.1, hpos.trans h.2.2.2⟩
  | asked => exact ⟨h.1, hflag.trans h.2.1, hst ▸ h.2.2⟩
  | push => exact ⟨h.1, hflag.trans h.2⟩
  | turn _ =>
      obtain ⟨hpc, hf, hs, htgt, hlast⟩ := h
      exact ⟨hpc, hflag.trans hf, hst.trans hs, (congrArg Int16.toInt hspd).trans htgt, hlast⟩

theorem AzTracks.congr {v w : Vars} {t : CtrlThd} {x : AzAxis} (h : AzTracks v t x)
    (hctrl : w.ctrl.azFlagCalibrate = v.ctrl.azFlagCalibrate ∧ w.ctrl.azState = v.ctrl.azState
      ∧ w.ctrl.azTgtPos = v.ctrl.azTgtPos ∧ w.ctrl.azTgtSpd = v.ctrl.azTgtSpd
      ∧ w.ctrl.azTgtPosSpd = v.ctrl.azTgtPosSpd)
    (hmot : w.mde.motorAz = v.mde.motorAz) : AzTracks w t x where
  goal := h.goal.congr hctrl.1 hctrl.2.1 hctrl.2.2.1 hctrl.2.2.2.1
  motor := (congrArg Int8.toInt hmot).trans h.motor
  still := hctrl.2.2.2.2.trans h.still

/-- A calibration that has begun is not asked for again. -/
theorem azTracks_calibrate {v : Vars} {t : CtrlThd} {x : AzAxis} (h : AzTracks v t x) :
    AzTracks (azCalibrate v) t (azAxisNext x .calibrate) := by
  obtain ⟨goal, trq⟩ := x
  obtain ⟨hgoal, hmot, hstill⟩ := h
  cases goal with
  | torque _ => exact ⟨⟨hgoal.1, rfl, fun h => (nomatch hgoal.2.2.symm.trans h)⟩, hmot, hstill⟩
  | target _ => exact ⟨⟨hgoal.1, rfl, fun h => (nomatch hgoal.2.2.1.symm.trans h)⟩, hmot, hstill⟩
  | asked => exact ⟨⟨hgoal.1, rfl, hgoal.2.2⟩, hmot, hstill⟩
  | push => exact ⟨⟨hgoal.1, rfl⟩, hmot, hstill⟩
  | turn _ => exact ⟨⟨hgoal.1, rfl, hgoal.2.2⟩, hmot, hstill⟩

/-- Outside of a push every command is obeyed. -/
theorem azTracks_serve {v : Vars} {t : CtrlThd} {x : AzAxis} (h : AzTracks v t x) (r : Request)
    (hok : t.pc = .calibrateSleep → ∀ e ∈ azRequest v r, e = .calibrate) :
    AzTracks (serve v r) t (run azAxisNext x (azRequest v r)) := by
  -- a command that is none finds the thread at the end of its loop
  have hloop {e : AzEvent} (he : azRequest v r = [e]) (hne : e ≠ .calibrate) :
      t.pc = .loopSleep := by
    cases hpc : t.pc with
    | loopSleep => rfl
    | calibrateSleep => exact absurd (hok hpc e (by rw [he]; exact List.mem_singleton_self e)) hne
  cases r with
  | azSetConstTrq trq =>
      exact ⟨⟨hloop rfl (fun h => nomatch h), rfl, rfl⟩, rfl, h.still⟩
  | azSetTgtPos p =>
      exact ⟨⟨hloop rfl (fun h => nomatch h), rfl, rfl, rfl⟩, h.motor, h.still⟩
  | apiPos az el slow =>
      have hpc := hloop rfl (fun h => nomatch h)
      cases slow with
      | true => exact ⟨⟨hpc, rfl, rfl, rfl⟩, h.motor, rfl⟩
      | false => exact ⟨⟨hpc, rfl, rfl, rfl⟩, h.motor, h.still⟩
  | apiStop =>
      exact ⟨⟨hloop rfl (fun h => nomatch h), rfl, rfl, rfl⟩, h.motor, rfl⟩
  | azCalibrate => exact azTracks_calibrate h
  | _ => exact h.congr ⟨rfl, rfl, rfl, rfl, rfl⟩ rfl

section Iteration

variable (fpu : Fpu) {v : Vars} {t : CtrlThd} {trq : Int}

/-- What the switches leave alone. -/
theorem ctrlAxes_azKept (v : Vars) :
    (ctrlAxes fpu v).ctrl.azFlagCalibrate = v.ctrl.azFlagCalibrate
      ∧ (ctrlAxes fpu v).ctrl.azState = v.ctrl.azState
      ∧ (ctrlAxes fpu v).ctrl.azTgtPos = v.ctrl.azTgtPos
      ∧ (ctrlAxes fpu v).ctrl.azTgtPosSpd = v.ctrl.azTgtPosSpd := by
  obtain ⟨_, _, _, _, heq⟩ := ctrlAxes_eq fpu v
  rw [heq]
  exact ⟨rfl, rfl, rfl, rfl⟩

theorem azTracks_manual {x : Int8} (h : AzTracks v t ⟨.torque x, trq⟩) :
    AzTracks (ctrlAxes fpu v) t ⟨.torque x, trq⟩ := by
  obtain ⟨⟨hpc, hflag, hst⟩, hmot, hstill⟩ := h
  obtain ⟨hkflag, hkst, -, hkspd⟩ := ctrlAxes_azKept fpu v
  refine ⟨⟨hpc, hkflag.trans hflag, hkst.trans hst⟩, ?_, hkspd.trans hstill⟩
  rw [ctrlAxes_motorAz fpu hst]
  exact hmot

theorem azTracks_position {p : UInt16} (h : AzTracks v t ⟨.target p, trq⟩)
    (hedge : azError v ≠ -46)
    (hok : 45 < (azError v).natAbs → SpeedOk v (azIdealSpd (azError v))) :
    AzTracks (ctrlAxes fpu v) t (azAxisNext ⟨.target p, trq⟩ (azIterate v)) := by
  obtain ⟨⟨hpc, hflag, hst, rfl⟩, hmot, hstill⟩ := h
  obtain ⟨hkflag, hkst, hkpos, hkspd⟩ := ctrlAxes_azKept fpu v
  refine ⟨⟨hpc, hkflag.trans hflag, hkst.trans hst, hkpos⟩, ?_, hkspd.trans hstill⟩
  rw [ctrlAxes_azLaw fpu hst hstill hedge hok, hmot]
  rfl

/-- The switches in a turn, from whatever the torque was. -/
theorem azTracks_rotate (hpc : t.pc = .loopSleep) (hflag : v.ctrl.azFlagCalibrate = true)
    (hst : v.ctrl.azState = .constSpeed) (htgt : v.ctrl.azTgtSpd.toInt = 5400)
    (hstill : v.ctrl.azTgtPosSpd = 0) (hok : SpeedOk v 5400) :
    AzTracks (ctrlAxes fpu v) t
      ⟨.turn t.oldAz, azSpeedLaw 5400 v.mde.encAzSpeed.toInt⟩ := by
  obtain ⟨hkflag, hkst, -, hkspd⟩ := ctrlAxes_azKept fpu v
  have hview := congrArg AzView.tgtSpd (ctrlAxes_az fpu v)
  rw [azControl, hst] at hview
  have hktgt : (ctrlAxes fpu v).ctrl.azTgtSpd = v.ctrl.azTgtSpd := hview
  have hlaw := ctrlAxes_azSpeedLaw fpu hst htgt (by decide) (by decide) hok
  refine ⟨⟨hpc, hkflag.trans hflag, hkst.trans hst, ?_, rfl⟩, hlaw, hkspd.trans hstill⟩
  rw [hktgt]
  exact htgt

end Iteration

/-- The control thread wakes up from the push and begins to turn. -/
theorem azTracks_resume (fpu : Fpu) {s : Sys} {x : AzAxis} (h : AzTracks s.vars s.ctrl x)
    (hpc : s.ctrl.pc = .calibrateSleep) (hok : SpeedOk s.vars 5400) :
    AzTracks (ctrlResume fpu s.vars).1 (ctrlResume fpu s.vars).2
      (azAxisNext x (azIterate s.vars)) := by
  obtain ⟨goal, trq⟩ := x
  cases goal with
  | push =>
      exact azTracks_rotate fpu (t := { pc := .loopSleep, oldAz := 0 }) rfl h.goal.2 rfl rfl
        h.still hok
  | torque _ => cases hpc.symm.trans h.goal.1
  | target _ => cases hpc.symm.trans h.goal.1
  | asked => cases hpc.symm.trans h.goal.1
  | turn _ => cases hpc.symm.trans h.goal.1

theorem azTracks_ctrl (fpu : Fpu) {s : Sys} {x : AzAxis} (h : AzTracks s.vars s.ctrl x)
    (hok : RegularIteration s) :
    AzTracks (ctrlStep fpu s.vars s.ctrl).1 (ctrlStep fpu s.vars s.ctrl).2
      (run azAxisNext x (azEvents s .ctrl)) := by
  rw [RegularIteration] at hok
  cases hpc : s.ctrl.pc with
  | calibrateSleep =>
      rw [hpc] at hok
      have hev : azEvents s .ctrl = [azIterate s.vars] := if_neg (by simp [hpc])
      rw [hev, ctrlStep_resume fpu s.vars hpc]
      exact azTracks_resume fpu h hpc hok
  | loopSleep =>
      rw [hpc] at hok
      have hcases := ctrlStep_cases fpu s.vars hpc
      generalize ctrlStep fpu s.vars s.ctrl = r at hcases
      have hev (htrip : failsafe s.vars.imu = false) : azEvents s .ctrl = [azIterate s.vars] :=
        if_neg (by simp [htrip])
      cases hcases with
      | failsafe htrip =>
          have hev : azEvents s .ctrl = [.trip] := if_pos ⟨hpc, htrip⟩
          rw [hev]
          exact azTracks_manual fpu (v := stopAll s.vars) ⟨⟨rfl, rfl, rfl⟩, rfl, h.still⟩
      | plain htrip hflag =>
          obtain ⟨htarget, -⟩ := hok htrip
          rw [hev htrip]
          obtain ⟨goal, trq⟩ := x
          cases goal with
          | torque _ => exact azTracks_manual fpu ⟨⟨rfl, h.goal.2⟩, h.motor, h.still⟩
          | target _ =>
              obtain ⟨hedge, hspd⟩ := htarget h.goal.2.2.1 hflag
              exact azTracks_position fpu ⟨⟨rfl, h.goal.2⟩, h.motor, h.still⟩ hedge hspd
          | asked => cases hflag.symm.trans h.goal.2.1
          | push => cases hpc.symm.trans h.goal.1
          | turn _ => cases hflag.symm.trans h.goal.2.1
      | start htrip hflag hst =>
          rw [hev htrip]
          obtain ⟨goal, trq⟩ := x
          cases goal with
          | asked => exact ⟨⟨rfl, hflag⟩, rfl, h.still⟩
          | torque _ => cases hflag.symm.trans h.goal.2.1
          | target _ => cases hflag.symm.trans h.goal.2.1
          | push => cases hpc.symm.trans h.goal.1
          | turn _ => exact absurd h.goal.2.2.1 hst
      | finish htrip hflag hst hover =>
          rw [hev htrip]
          obtain ⟨goal, trq⟩ := x
          cases goal with
          | turn last =>
              have hlast : last > s.vars.mde.encAz := h.goal.2.2.2.2 ▸ hover
              have hnext : azAxisNext ⟨.turn last, trq⟩ (azIterate s.vars) = {} := if_pos hlast
              rw [run_cons, run_nil, hnext]
              exact azTracks_manual fpu (v := azSetConstTrq 0 s.vars)
                ⟨⟨rfl, rfl, rfl⟩, rfl, h.still⟩
          | torque _ => cases hflag.symm.trans h.goal.2.1
          | target _ => cases hflag.symm.trans h.goal.2.1
          | asked => exact absurd hst h.goal.2.2
          | push => cases hpc.symm.trans h.goal.1
      | rotate htrip hflag hst hover =>
          obtain ⟨-, hturn⟩ := hok htrip
          rw [hev htrip]
          obtain ⟨goal, trq⟩ := x
          cases goal with
          | turn last =>
              have hlast : ¬ last > s.vars.mde.encAz := h.goal.2.2.2.2 ▸ hover
              have hnext : azAxisNext ⟨.turn last, trq⟩ (azIterate s.vars)
                  = ⟨.turn s.vars.mde.encAz, azSpeedLaw 5400 s.vars.mde.encAzSpeed.toInt⟩ :=
                if_neg hlast
              rw [run_cons, run_nil, hnext]
              exact azTracks_rotate fpu (t := { pc := .loopSleep, oldAz := s.vars.mde.encAz }) rfl
                hflag hst h.goal.2.2.2.1 h.still (hturn hst fun hends => hover hends.2.2)
          | torque _ => cases hflag.symm.trans h.goal.2.1
          | target _ => cases hflag.symm.trans h.goal.2.1
          | asked => exact absurd hst h.goal.2.2
          | push => cases hpc.symm.trans h.goal.1

theorem azTracks_next (fpu : Fpu) (s : Sys) (x : AzAxis) (a : Act)
    (h : AzTracks s.vars s.ctrl x) (hok : Regular s a) :
    AzTracks (sysNext fpu s a).vars (sysNext fpu s a).ctrl (run azAxisNext x (azEvents s a)) := by
  cases a with
  | req r => exact azTracks_serve h r hok
  | ctrl => exact azTracks_ctrl fpu h hok
  | mde miso =>
      have hf := mdeStep_frame fpu miso s.vars s.mde
      refine h.congr ?_ (hf.motor .az)
      change (mdeStep fpu miso s.vars s.mde).vars.ctrl.azFlagCalibrate = _ ∧ _
      simp only [sysNext, hf.ctrl, and_self]
  | imu r => exact h.congr ⟨rfl, rfl, rfl, rfl, rfl⟩ rfl
  | tick n => exact h.congr ⟨rfl, rfl, rfl, rfl, rfl⟩ rfl

/-- The state of the specification after a run of the booted firmware. -/
def azAxisAfter (fpu : Fpu) (s : Sys) (as : List Act) : AzAxis :=
  run azAxisNext {} (trace (sysNext fpu) azEvents s as)

/-- In every run whose steps are regular, with every request served whole, the azimuth axis is
in the state of its specification, calibrations included, and the words for its motor carry the
torque of the specification. -/
theorem azimuth_follows_spec (fpu : Fpu) (oldAz : UInt16) (oldT : SysTime) (oldX : UInt16)
    (fc : UInt8) (as : List Act)
    (hok : Along (sysNext fpu) Regular (Sys.boot oldAz oldT oldX fc) as) :
    AzTracks (run (sysNext fpu) (Sys.boot oldAz oldT oldX fc) as).vars
        (run (sysNext fpu) (Sys.boot oldAz oldT oldX fc) as).ctrl
        (azAxisAfter fpu (Sys.boot oldAz oldT oldX fc) as)
      ∧ ∀ miso w,
        BusEvent.torque .az w
          ∈ busObs fpu (run (sysNext fpu) (Sys.boot oldAz oldT oldX fc) as) (.mde miso) →
        (trqTorque w).toInt = (azAxisAfter fpu (Sys.boot oldAz oldT oldX fc) as).torque := by
  have htracks := run_follows (R := fun (s : Sys) x => AzTracks s.vars s.ctrl x)
    (azTracks_next fpu) (s := Sys.boot oldAz oldT oldX fc) (t := {}) ⟨⟨rfl, rfl, rfl⟩, rfl, rfl⟩ hok
  refine ⟨htracks, fun miso w hw => ?_⟩
  rw [mdeStep_torque hw, trqTorque_mdeCmdSetMotTrq]
  exact htracks.motor

/-- A calibration is asked for, pushes, and begins to turn. -/
def turnActs : List Act := [.imu imuAtRest, .req .azCalibrate, .ctrl, .ctrl]

theorem azimuth_follows_spec_turn :
    AzTracks (run (sysNext Fpu.modular) (Sys.boot 0 0 0 0) turnActs).vars
      (run (sysNext Fpu.modular) (Sys.boot 0 0 0 0) turnActs).ctrl ⟨.turn 0, 25⟩ := by
  have hregular : Along (sysNext Fpu.modular) Regular (Sys.boot 0 0 0 0) turnActs := by
    refine ⟨trivial, fun hpc => (nomatch hpc), fun _ => ⟨fun hst => (nomatch hst), ?_⟩, ?_, trivial⟩
    · exact fun hst => (nomatch hst)
    · change SpeedOk _ 5400
      decide
  have hspec : azAxisAfter Fpu.modular (Sys.boot 0 0 0 0) turnActs = ⟨.turn 0, 25⟩ := by
    decide +kernel
  rw [← hspec]
  exact (azimuth_follows_spec Fpu.modular 0 0 0 0 turnActs hregular).1

end Seatel
