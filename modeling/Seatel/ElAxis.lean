import Seatel.ElPosition
import Seatel.MdeWords
import Seatel.System

/-!
# The elevation axis as it is meant

The specification of the elevation axis is a machine of its own,
`elAxisNext`: a goal, that is a torque or a position, and the torque the
motor is given. A command sets the goal, a trip of the failsafe resets it
to torque 0, and an iteration on the way to a position takes the torque
of the law over the integers (`elLaw`). The machine knows neither the
azimuth axis nor modes, flags, target speeds and time stamps.

The firmware follows it step by step (`elTracks_next`), where a request is
one step: it is served whole, between the steps of the threads, and no
iteration comes between two stores of a setter. What an act means
to the axis is read off in `elEvents`; the only thing it takes from the
azimuth is that an iteration which starts a calibration goes to sleep
before it reaches the elevation switch.
-/

namespace Seatel

open Runs CInt

/-! ## The specification -/

/-- What the axis was last told to do. -/
inductive ElGoal where
  | torque (t : Int8)
  | target (p : Int16)
deriving Repr, DecidableEq

structure ElAxis where
  goal : ElGoal := .torque 0
  torque : Int := 0
deriving Repr, DecidableEq

inductive ElEvent where
  | command (g : ElGoal)
  | trip
  /-- The elevation switch runs, with this position, offset and speed. -/
  | iterate (pos off spd : Int16)
deriving Repr, DecidableEq

/-- From `pos` with its offset to `p`, the short way round. -/
def elWay (p pos off : Int16) : Int := Int.bmod (p.toInt - (pos.toInt + off.toInt)) 65536

def elAxisNext (x : ElAxis) : ElEvent → ElAxis
  | .command (.torque t) => { goal := .torque t, torque := t.toInt }
  | .command (.target p) => { x with goal := .target p }
  | .trip => {}
  | .iterate pos off spd =>
      match x.goal with
      | .torque _ => x
      | .target p => { x with torque := elLaw (elWay p pos off) spd.toInt }

/-! ## What the acts mean to the axis -/

def elCommand (v : Vars) : Request → List ElEvent
  | .elSetConstTrq t => [.command (.torque t)]
  | .elSetTgtPos p => [.command (.target p)]
  | .apiPos _ el _ => [.command (.target el)]
  | .apiStop => [.command (.target v.imu.elPos)]
  | _ => []

def elIterate (v : Vars) : ElEvent := .iterate v.imu.elPos v.imu.elOff v.imu.elSpd

def elEvents (s : Sys) : Act → List ElEvent
  | .req r => elCommand s.vars r
  | .ctrl =>
      match s.ctrl.pc with
      | .calibrateSleep => [elIterate s.vars]
      | .loopSleep =>
          if failsafe s.vars.imu then [.trip]
          else if s.vars.ctrl.azFlagCalibrate ∧ s.vars.ctrl.azState ≠ .constSpeed then []
          else [elIterate s.vars]
  | _ => []

/-! ## The firmware follows -/

/-- The variables of the axis are in the state of the specification. -/
structure ElTracks (v : Vars) (x : ElAxis) : Prop where
  torque : ∀ t, x.goal = .torque t → v.ctrl.elState = .constTorque
  target : ∀ p, x.goal = .target p → v.ctrl.elState = .targetPosition ∧ v.ctrl.elTgtPos = p
  motor : v.mde.motorEl.toInt = x.torque
  still : v.ctrl.elTgtPosSpd = 0

theorem ElTracks.congr {v w : Vars} {x : ElAxis} (h : ElTracks v x)
    (hst : w.ctrl.elState = v.ctrl.elState) (hpos : w.ctrl.elTgtPos = v.ctrl.elTgtPos)
    (hmot : w.mde.motorEl = v.mde.motorEl) (hspd : w.ctrl.elTgtPosSpd = v.ctrl.elTgtPosSpd) :
    ElTracks w x where
  torque t ht := hst.trans (h.torque t ht)
  target p hp := ⟨hst.trans (h.target p hp).1, hpos.trans (h.target p hp).2⟩
  motor := (congrArg Int8.toInt hmot).trans h.motor
  still := hspd.trans h.still

theorem elTracks_torque {v : Vars} {t : Int8} (hst : v.ctrl.elState = .constTorque)
    (hmot : v.mde.motorEl = t) (hspd : v.ctrl.elTgtPosSpd = 0) :
    ElTracks v { goal := .torque t, torque := t.toInt } where
  torque _ _ := hst
  target _ hp := nomatch hp
  motor := congrArg Int8.toInt hmot
  still := hspd

theorem elTracks_target {v : Vars} {p : Int16} {trq : Int}
    (hst : v.ctrl.elState = .targetPosition) (hpos : v.ctrl.elTgtPos = p)
    (hmot : v.mde.motorEl.toInt = trq) (hspd : v.ctrl.elTgtPosSpd = 0) :
    ElTracks v { goal := .target p, torque := trq } where
  torque _ ht := nomatch ht
  target q hq := by
    cases hq
    exact ⟨hst, hpos⟩
  motor := hmot
  still := hspd

theorem elTracks_serve {v : Vars} {x : ElAxis} (h : ElTracks v x) (r : Request) :
    ElTracks (serve v r) (run elAxisNext x (elCommand v r)) := by
  cases r with
  | elSetConstTrq t => exact elTracks_torque rfl rfl h.still
  | elSetTgtPos p => exact elTracks_target rfl rfl h.motor h.still
  | apiPos az el slow =>
      cases slow with
      | true => exact elTracks_target rfl rfl h.motor rfl
      | false => exact elTracks_target rfl rfl h.motor h.still
  | apiStop => exact elTracks_target rfl rfl h.motor rfl
  | _ => exact h.congr rfl rfl rfl rfl

/-- The switches of an iteration do to the elevation what the specification says. -/
theorem elTracks_ctrlAxes (fpu : Fpu) {v : Vars} {x : ElAxis} (h : ElTracks v x) :
    ElTracks (ctrlAxes fpu v) (elAxisNext x (elIterate v)) := by
  obtain ⟨goal, trq⟩ := x
  have hst := ctrlAxes_elState fpu v
  obtain ⟨_, _, _, _, heq⟩ := ctrlAxes_eq fpu v
  have hpos : (ctrlAxes fpu v).ctrl.elTgtPos = v.ctrl.elTgtPos := by rw [heq]
  have hspd : (ctrlAxes fpu v).ctrl.elTgtPosSpd = v.ctrl.elTgtPosSpd := by rw [heq]
  cases goal with
  | torque t => exact h.congr hst hpos (ctrlAxes_motorEl fpu (h.torque t rfl)) hspd
  | target p =>
      obtain ⟨hmode, rfl⟩ := h.target p rfl
      exact elTracks_target (hst.trans hmode) hpos (ctrlAxes_elLaw fpu hmode h.still)
        (hspd.trans h.still)

/-- A calibration that begins, turns or ends does not touch the elevation before the
switches. -/
theorem elTracks_ctrl (fpu : Fpu) {s : Sys} {x : ElAxis} (h : ElTracks s.vars x) :
    ElTracks (ctrlStep fpu s.vars s.ctrl).1 (run elAxisNext x (elEvents s .ctrl)) := by
  cases hpc : s.ctrl.pc with
  | calibrateSleep =>
      have hev : elEvents s .ctrl = [elIterate s.vars] := by simp only [elEvents, hpc]
      have hset : ElTracks (setAzState .constSpeed (setAzTgtSpd (180 * 30) s.vars)) x :=
        h.congr rfl rfl rfl rfl
      rw [hev, ctrlStep_resume fpu s.vars hpc]
      exact elTracks_ctrlAxes fpu hset
  | loopSleep =>
      have hcases := ctrlStep_cases fpu s.vars hpc
      generalize ctrlStep fpu s.vars s.ctrl = r at hcases
      simp only [elEvents, hpc]
      cases hcases with
      | failsafe htrip =>
          have hstop : ElTracks (stopAll s.vars) {} := elTracks_torque rfl rfl h.still
          rw [if_pos htrip]
          exact elTracks_ctrlAxes fpu hstop
      | plain htrip hflag =>
          rw [if_neg (by simp [htrip]), if_neg (by simp [hflag])]
          exact elTracks_ctrlAxes fpu h
      | start htrip hflag hst =>
          rw [if_neg (by simp [htrip]), if_pos ⟨hflag, hst⟩]
          exact h.congr rfl rfl rfl rfl
      | finish htrip hflag hst hover =>
          have hend : ElTracks (azSetConstTrq 0 s.vars) x := h.congr rfl rfl rfl rfl
          rw [if_neg (by simp [htrip]), if_neg (by simp [hst])]
          exact elTracks_ctrlAxes fpu hend
      | rotate htrip hflag hst hover =>
          rw [if_neg (by simp [htrip]), if_neg (by simp [hst])]
          exact elTracks_ctrlAxes fpu h

theorem elTracks_next (fpu : Fpu) (s : Sys) (x : ElAxis) (a : Act) (h : ElTracks s.vars x) :
    ElTracks (sysNext fpu s a).vars (run elAxisNext x (elEvents s a)) := by
  cases a with
  | req r => exact elTracks_serve h r
  | ctrl => exact elTracks_ctrl fpu h
  | mde miso =>
      have hf := mdeStep_frame fpu miso s.vars s.mde
      exact h.congr (congrArg Ctrl.elState hf.ctrl) (congrArg Ctrl.elTgtPos hf.ctrl)
        (hf.motor .el) (congrArg Ctrl.elTgtPosSpd hf.ctrl)
  | imu r => exact h.congr rfl rfl rfl rfl
  | tick n => exact h.congr rfl rfl rfl rfl

/-- The state of the specification after a run of the booted firmware. -/
def elAxisAfter (fpu : Fpu) (s : Sys) (as : List Act) : ElAxis :=
  run elAxisNext {} (trace (sysNext fpu) elEvents s as)

/-- In every run, with every request served whole between the steps of the threads, the
variables of the elevation are those of the specification, and the words for its motor carry
the torque of the specification. -/
theorem elevation_follows_spec (fpu : Fpu) (oldAz : UInt16) (oldT : SysTime) (oldX : UInt16)
    (fc : UInt8) (as : List Act) :
    let s := run (sysNext fpu) (Sys.boot oldAz oldT oldX fc) as
    let x := elAxisAfter fpu (Sys.boot oldAz oldT oldX fc) as
    ElTracks s.vars x
      ∧ ∀ miso w, BusEvent.torque .el w ∈ busObs fpu s (.mde miso) →
          (trqTorque w).toInt = x.torque := by
  have hboot : ElTracks (Sys.boot oldAz oldT oldX fc).vars {} := elTracks_torque rfl rfl rfl
  have htracks := run_follows (R := fun (s : Sys) x => ElTracks s.vars x)
    (fun s x a h _ => elTracks_next fpu s x a h) hboot (along_true _ as)
  refine ⟨htracks, fun miso w hw => ?_⟩
  rw [mdeStep_torque hw, trqTorque_mdeCmdSetMotTrq]
  exact htracks.motor

end Seatel
