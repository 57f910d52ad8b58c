import Seatel.ElPosition
import Seatel.System

/-!
# Manual torque under preemption

`X_set_const_trq` is two or three stores, and the thread that executes
them can lose the processor to the control thread between any two. Here
the setters are cut into their statements and run beside the firmware:
a `PreAct` is the next statement of the setter or an act of the rest of
the system.

Whether the order of the stores matters depends on what the switch of
the axis does. Azimuth stores the mode first, after which the switch
leaves the torque alone. The skew switch never writes a torque. The
elevation setter stores the torque first, and a switch that still finds a
closed-loop mode overwrites it before the mode is stored.
-/

namespace Seatel

open Runs CInt

/-! ## The setters, statement by statement -/

/-- A statement of a torque setter. -/
inductive Stmt where
  /-- `az_flag_calibrate = false` -/
  | clearFlag
  /-- `X_state = MOTOR_STATE_CONST_TORQUE` -/
  | setState (m : Motor)
  /-- `mde_set_trq_X(torque)` -/
  | setTrq (m : Motor) (torque : Int8)
deriving Repr, DecidableEq

def Stmt.exec (v : Vars) : Stmt → Vars
  | .clearFlag => setAzFlagCalibrate false v
  | .setState .az => setAzState .constTorque v
  | .setState .el => setElState .constTorque v
  | .setState .sk => setSkState .constTorque v
  | .setTrq .az torque => mdeSetTrqAz torque v
  | .setTrq .el torque => mdeSetTrqEl torque v
  | .setTrq .sk torque => mdeSetTrqSk torque v

def setConstTrqStmts (torque : Int8) : Motor → List Stmt
  | .az => [.clearFlag, .setState .az, .setTrq .az torque]
  | .el => [.setTrq .el torque, .setState .el]
  | .sk => [.setTrq .sk torque, .setState .sk]

/-- `X_set_const_trq` as a request. -/
def setConstTrqReq (torque : Int8) : Motor → Request
  | .az => .azSetConstTrq torque
  | .el => .elSetConstTrq torque
  | .sk => .skSetConstTrq torque

/-- Executed without interruption the statements are the setter. -/
theorem setConstTrqStmts_exec (torque : Int8) (m : Motor) (v : Vars) :
    (setConstTrqStmts torque m).foldl Stmt.exec v = serve v (setConstTrqReq torque m) := by
  cases m <;> rfl

/-! ## The setter beside the firmware -/

/-- The firmware, and what is left of the setter. -/
structure Preempt where
  sys : Sys
  rest : List Stmt
deriving Repr, DecidableEq

inductive PreAct where
  | stmt
  | act (a : Act)
deriving Repr, DecidableEq

def preNext (fpu : Fpu) (p : Preempt) : PreAct → Preempt
  | .stmt =>
      match p.rest with
      | [] => p
      | c :: rest => { sys := { p.sys with vars := c.exec p.sys.vars }, rest := rest }
  | .act a => { p with sys := sysNext fpu p.sys a }

/-- The setter is about to execute its first statement. -/
def setConstTrqCall (s : Sys) (torque : Int8) (m : Motor) : Preempt where
  sys := s
  rest := setConstTrqStmts torque m

/-- No other command for the axis, and only whole control iterations without
failsafe trip and calibration. -/
def Undisturbed (m : Motor) (p : Preempt) : PreAct → Prop
  | .act (.req r) => commandFor m r = false
  | .act .ctrl => p.sys.ctrl.pc = .loopSleep ∧ failsafe p.sys.vars.imu = false
      ∧ p.sys.vars.ctrl.azFlagCalibrate = false
  | _ => True

def Vars.state (v : Vars) : Motor → MotorState
  | .az => v.ctrl.azState
  | .el => v.ctrl.elState
  | .sk => v.ctrl.skState

/-- The torque is in force. -/
def Effective (torque : Int8) (m : Motor) (v : Vars) : Prop :=
  v.state m = .constTorque ∧ v.mde.motor m = torque

instance (torque : Int8) (m : Motor) (v : Vars) : Decidable (Effective torque m v) :=
  inferInstanceAs (Decidable (_ ∧ _))

/-- An iteration between the two stores of `el_set_const_trq` finds elevation
already at constant torque. -/
def ElWindowOk (p : Preempt) (a : PreAct) : Prop :=
  a = .act .ctrl → p.rest = [.setState .el] → p.sys.vars.ctrl.elState = .constTorque

/-! ## What an act leaves alone -/

theorem serve_axis {m : Motor} {r : Request} (h : commandFor m r = false) (v : Vars) :
    (serve v r).state m = v.state m ∧ (serve v r).mde.motor m = v.mde.motor m := by
  cases r with
  | apiPos az el slow => cases m <;> cases slow <;> first | exact ⟨rfl, rfl⟩ | cases h
  | _ => cases m <;> first | exact ⟨rfl, rfl⟩ | cases h

/-- An undisturbed act keeps constant torque and the torque it holds. -/
theorem axis_keep (fpu : Fpu) {m : Motor} {p : Preempt} {a : Act}
    (hq : Undisturbed m p (.act a)) (hst : p.sys.vars.state m = .constTorque) :
    (sysNext fpu p.sys a).vars.state m = .constTorque
      ∧ (sysNext fpu p.sys a).vars.mde.motor m = p.sys.vars.mde.motor m := by
  cases a with
  | req r =>
      obtain ⟨hst', hmot⟩ := serve_axis hq p.sys.vars
      exact ⟨hst'.trans hst, hmot⟩
  | ctrl =>
      obtain ⟨hpc, htrip, hflag⟩ := hq
      simp only [sysNext, ctrlStep_plain fpu hpc htrip hflag]
      cases m with
      | az => exact ⟨(ctrlAxes_azState fpu _).trans hst, ctrlAxes_motorAz fpu hst⟩
      | el => exact ⟨(ctrlAxes_elState fpu _).trans hst, ctrlAxes_motorEl fpu hst⟩
      | sk =>
          exact ⟨congrArg SkView.state (ctrlAxes_sk fpu _), ctrlAxes_motorSk fpu _⟩
  | mde miso =>
      have hf := mdeStep_frame fpu miso p.sys.vars p.sys.mde
      refine ⟨?_, hf.motor m⟩
      cases m <;> simp only [Vars.state, sysNext, hf.ctrl] <;> exact hst
  | imu r => exact ⟨hst, rfl⟩
  | tick n => exact ⟨hst, rfl⟩

/-- The skew torque is safe in every mode. -/
theorem motorSk_keep (fpu : Fpu) {p : Preempt} {a : Act} (hq : Undisturbed .sk p (.act a)) :
    (sysNext fpu p.sys a).vars.mde.motorSk = p.sys.vars.mde.motorSk := by
  cases a with
  | req r => exact (serve_axis hq p.sys.vars).2
  | ctrl =>
      obtain ⟨hpc, htrip, hflag⟩ := hq
      simp only [sysNext, ctrlStep_plain fpu hpc htrip hflag, ctrlAxes_motorSk]
  | mde miso => exact (mdeStep_frame fpu miso p.sys.vars p.sys.mde).motor .sk
  | imu r => rfl
  | tick n => rfl

/-- The elevation torque changes only in an iteration. -/
theorem motorEl_keep (fpu : Fpu) {p : Preempt} {a : Act} (hq : Undisturbed .el p (.act a))
    (ha : a ≠ .ctrl) : (sysNext fpu p.sys a).vars.mde.motorEl = p.sys.vars.mde.motorEl := by
  cases a with
  | req r => exact (serve_axis hq p.sys.vars).2
  | ctrl => exact absurd rfl ha
  | mde miso => exact (mdeStep_frame fpu miso p.sys.vars p.sys.mde).motor .el
  | imu r => rfl
  | tick n => rfl

/-! ## How far the setter has come -/

/-- What the statements executed so far have achieved, and what the rest
relies on. -/
inductive Progress (torque : Int8) : Motor → Vars → List Stmt → Prop where
  | az0 {v : Vars} : Progress torque .az v [.clearFlag, .setState .az, .setTrq .az torque]
  | az1 {v : Vars} : Progress torque .az v [.setState .az, .setTrq .az torque]
  | az2 {v : Vars} (hst : v.ctrl.azState = .constTorque) :
      Progress torque .az v [.setTrq .az torque]
  | el0 {v : Vars} : Progress torque .el v [.setTrq .el torque, .setState .el]
  | el1 {v : Vars} (hmot : v.mde.motorEl = torque) : Progress torque .el v [.setState .el]
  | sk0 {v : Vars} : Progress torque .sk v [.setTrq .sk torque, .setState .sk]
  | sk1 {v : Vars} (hmot : v.mde.motorSk = torque) : Progress torque .sk v [.setState .sk]
  | done {m : Motor} {v : Vars} (heff : Effective torque m v) : Progress torque m v []

theorem progress_call (s : Sys) (torque : Int8) (m : Motor) :
    Progress torque m (setConstTrqCall s torque m).sys.vars (setConstTrqCall s torque m).rest := by
  cases m with
  | az => exact .az0
  | el => exact .el0
  | sk => exact .sk0

theorem progress_stmt (fpu : Fpu) {torque : Int8} {m : Motor} {p : Preempt}
    (h : Progress torque m p.sys.vars p.rest) :
    Progress torque m (preNext fpu p .stmt).sys.vars (preNext fpu p .stmt).rest := by
  obtain ⟨s, rest⟩ := p
  cases h with
  | az0 => exact .az1
  | az1 => exact .az2 rfl
  | az2 hst => exact .done ⟨hst, rfl⟩
  | el0 => exact .el1 rfl
  | el1 hmot => exact .done ⟨rfl, hmot⟩
  | sk0 => exact .sk1 rfl
  | sk1 hmot => exact .done ⟨rfl, hmot⟩
  | done heff => exact .done heff

theorem progress_act (fpu : Fpu) {torque : Int8} {m : Motor} {p : Preempt} {a : Act}
    (h : Progress torque m p.sys.vars p.rest) (hq : Undisturbed m p (.act a))
    (hw : ElWindowOk p (.act a)) :
    Progress torque m (sysNext fpu p.sys a).vars p.rest := by
  obtain ⟨s, rest⟩ := p
  cases h with
  | az0 => exact .az0
  | az1 => exact .az1
  | az2 hst => exact .az2 (axis_keep fpu hq hst).1
  | el0 => exact .el0
  | el1 hmot =>
      refine .el1 ?_
      by_cases ha : a = .ctrl
      · have hst : s.vars.ctrl.elState = .constTorque := hw (by rw [ha]) rfl
        exact ((axis_keep fpu hq hst).2).trans hmot
      · exact (motorEl_keep fpu hq ha).trans hmot
  | sk0 => exact .sk0
  | sk1 hmot => exact .sk1 ((motorSk_keep fpu hq).trans hmot)
  | done heff =>
      obtain ⟨hst, hmot⟩ := heff
      obtain ⟨hst', hmot'⟩ := axis_keep fpu hq hst
      exact .done ⟨hst', hmot'.trans hmot⟩

theorem progress_next (fpu : Fpu) {torque : Int8} {m : Motor} {p : Preempt} {a : PreAct}
    (h : Progress torque m p.sys.vars p.rest) (hq : Undisturbed m p a) (hw : ElWindowOk p a) :
    Progress torque m (preNext fpu p a).sys.vars (preNext fpu p a).rest := by
  cases a with
  | stmt => exact progress_stmt fpu h
  | act a => exact progress_act fpu h hq hw

theorem progress_run (fpu : Fpu) {torque : Int8} {m : Motor} {p : Preempt}
    (h : Progress torque m p.sys.vars p.rest) {as : List PreAct}
    (hq : Along (preNext fpu) (Undisturbed m) p as) (hw : Along (preNext fpu) ElWindowOk p as) :
    Progress torque m (run (preNext fpu) p as).sys.vars (run (preNext fpu) p as).rest := by
  induction as generalizing p with
  | nil => exact h
  | cons a as ih => exact ih (progress_next fpu h hq.1 hw.1) hq.2 hw.2

theorem Progress.effective {torque : Int8} {m : Motor} {v : Vars} {rest : List Stmt}
    (h : Progress torque m v rest) (hrest : rest = []) : Effective torque m v := by
  cases h with
  | done heff => exact heff
  | _ => cases hrest

/-- Left alone from here on, the setter puts the torque in force. -/
theorem progress_finish (fpu : Fpu) {torque : Int8} {m : Motor} {p : Preempt}
    (h : Progress torque m p.sys.vars p.rest) :
    Effective torque m
      (run (preNext fpu) p (List.replicate p.rest.length .stmt)).sys.vars := by
  obtain ⟨s, rest⟩ := p
  cases h with
  | az0 => exact ⟨rfl, rfl⟩
  | az1 => exact ⟨rfl, rfl⟩
  | az2 hst => exact ⟨hst, rfl⟩
  | el0 => exact ⟨rfl, rfl⟩
  | el1 hmot => exact ⟨rfl, hmot⟩
  | sk0 => exact ⟨rfl, rfl⟩
  | sk1 hmot => exact ⟨rfl, hmot⟩
  | done heff => exact heff

/-! ## The elevation law in the window -/

/-- Whatever the target speed, the two extreme readings give two torques. -/
theorem elTorque_extremes_ne (tgt : Int16) :
    elTorque tgt 32767 0 ≠ elTorque tgt (-32768) 0 := by
  intro h
  have heq := congrArg Int8.toInt h
  obtain ⟨h1, h2⟩ := toInt16_mem tgt
  have hhi : (32767 : Int16).toInt = 32767 := rfl
  have hlo : (-32768 : Int16).toInt = -32768 := rfl
  rw [elTorque_toInt, elTorque_toInt, hhi, hlo, elMeasuredSpd, elMeasuredSpd,
    if_neg (by decide), if_neg (by decide)] at heq
  have hq := tdiv_spec (tgt.toInt - 32767) (show (0 : Int) < 10 by decide)
  have hq' := tdiv_spec (tgt.toInt - -32768) (show (0 : Int) < 10 by decide)
  unfold limit at heq
  omega

/-- In a closed-loop mode the torque follows the measured speed, with a target
speed that does not depend on it. -/
theorem elControl_closedLoop (fpu : Fpu) {v : Vars} (hst : v.ctrl.elState ≠ .constTorque) :
    ∃ tgt, ∀ spd : Int16,
      (elControl fpu (imuPublish { imuAtRest with elSpd := spd } v)).mde.motorEl
        = elTorque tgt spd 0 := by
  cases hmode : v.ctrl.elState with
  | constTorque => exact absurd hmode hst
  | targetPosition =>
      refine ⟨elApproachSpd (elDist fpu (imuPublish imuAtRest v)), fun spd => ?_⟩
      have hmode' :
          (imuPublish { imuAtRest with elSpd := spd } v).ctrl.elState = .targetPosition := hmode
      rw [elControl, hmode']
      simp only [elTargetPosition, elConstSpeed, elStaticTrq_eq_zero]
      rfl
  | constSpeed =>
      refine ⟨v.ctrl.elTgtSpd, fun spd => ?_⟩
      have hmode' :
          (imuPublish { imuAtRest with elSpd := spd } v).ctrl.elState = .constSpeed := hmode
      rw [elControl, hmode']
      simp only [elConstSpeed, elStaticTrq_eq_zero]
      rfl

/-- So in the window some speed reading makes the iteration overwrite the torque. -/
theorem elWindow_overwritten (fpu : Fpu) {s : Sys} (hpc : s.ctrl.pc = .loopSleep)
    (hflag : s.vars.ctrl.azFlagCalibrate = false) (hst : s.vars.ctrl.elState ≠ .constTorque)
    (torque : Int8) :
    ∃ r, failsafe (imuPublish r s.vars).imu = false
      ∧ (sysNext fpu (sysNext fpu s (.imu r)) .ctrl).vars.mde.motorEl ≠ torque := by
  obtain ⟨tgt, htgt⟩ := elControl_closedLoop fpu hst
  have hiter : ∀ spd : Int16,
      (sysNext fpu (sysNext fpu s (.imu { imuAtRest with elSpd := spd })) .ctrl).vars.mde.motorEl
        = elTorque tgt spd 0 := by
    intro spd
    have hplain := ctrlStep_plain fpu
      (v := imuPublish { imuAtRest with elSpd := spd } s.vars) hpc rfl hflag
    simp only [sysNext, hplain]
    rw [← htgt spd]
    exact congrArg ElView.motor (ctrlAxes_el fpu _)
  by_cases hfast : elTorque tgt 32767 0 = torque
  · refine ⟨{ imuAtRest with elSpd := -32768 }, rfl, ?_⟩
    rw [hiter, ← hfast]
    exact (elTorque_extremes_ne tgt).symm
  · refine ⟨{ imuAtRest with elSpd := 32767 }, rfl, ?_⟩
    rw [hiter]
    exact hfast

/-! ## Every interleaving -/

/-- A run in which no iteration falls into the elevation window puts the torque
in force; and at every point of it the iterations that keep it so for every
reading are those outside the window. -/
theorem manual_torque_effective_iff (fpu : Fpu) (s : Sys) (torque : Int8) (m : Motor)
    (as : List PreAct)
    (hq : Along (preNext fpu) (Undisturbed m) (setConstTrqCall s torque m) as)
    (hw : Along (preNext fpu) ElWindowOk (setConstTrqCall s torque m) as) :
    let p := run (preNext fpu) (setConstTrqCall s torque m) as
    (p.rest = [] → Effective torque m p.sys.vars)
      ∧ (p.sys.ctrl.pc = .loopSleep → p.sys.vars.ctrl.azFlagCalibrate = false →
          ((∀ r, failsafe (imuPublish r p.sys.vars).imu = false →
              let p' := run (preNext fpu) p [.act (.imu r), .act .ctrl]
              Effective torque m
                (run (preNext fpu) p' (List.replicate p'.rest.length .stmt)).sys.vars)
            ↔ ElWindowOk p (.act .ctrl))) := by
  intro p
  have hprog : Progress torque m p.sys.vars p.rest :=
    progress_run fpu (progress_call s torque m) hq hw
  refine ⟨hprog.effective, fun hpc hflag => ⟨fun hall _ hrest => ?_, fun hok r htrip => ?_⟩⟩
  · by_contra hst
    obtain ⟨r, htrip, hne⟩ := elWindow_overwritten fpu hpc hflag hst torque
    have heff := (hall r htrip).2
    rw [hrest] at hprog
    cases hprog with
    | el1 =>
        obtain ⟨s', rest⟩ := p
        subst hrest
        exact hne heff
  · refine progress_finish fpu (progress_run fpu hprog ?_ ?_)
    · exact ⟨trivial, ⟨hpc, htrip, hflag⟩, trivial⟩
    · exact ⟨nofun, fun _ hrest => hok rfl hrest, trivial⟩

/-- An iteration between the two stores does no harm to an idle elevation axis. -/
theorem manual_torque_effective_idle :
    Effective 5 .el (run (preNext Fpu.modular) (setConstTrqCall (Sys.boot 0 0 0 0) 5 .el)
      [.act (.imu imuAtRest), .stmt, .act .ctrl, .stmt]).sys.vars :=
  (manual_torque_effective_iff Fpu.modular (Sys.boot 0 0 0 0) 5 .el
    [.act (.imu imuAtRest), .stmt, .act .ctrl, .stmt]
    ⟨trivial, trivial, ⟨rfl, rfl, rfl⟩, trivial, trivial⟩
    ⟨nofun, nofun, fun _ _ => rfl, nofun, trivial⟩).1 rfl

/-- The elevation axis on its way to a target. -/
def elTracking : Sys :=
  run (sysNext Fpu.modular) (Sys.boot 0 0 0 0) [.imu imuAtRest, .req (.elSetTgtPos 1000)]

/-- A stop whose two stores are separated by an iteration leaves the motor
driven at constant torque 25. -/
theorem manual_stop_overwritten :
    let p := run (preNext Fpu.modular) (setConstTrqCall elTracking 0 .el)
      [.stmt, .act .ctrl, .stmt]
    Along (preNext Fpu.modular) (Undisturbed .el) (setConstTrqCall elTracking 0 .el)
        [.stmt, .act .ctrl, .stmt]
      ∧ p.rest = [] ∧ p.sys.vars.ctrl.elState = .constTorque ∧ p.sys.vars.mde.motorEl = 25 := by
  refine ⟨⟨trivial, ⟨rfl, rfl, rfl⟩, trivial, trivial⟩, rfl, rfl, ?_⟩
  decide +kernel

end Seatel
