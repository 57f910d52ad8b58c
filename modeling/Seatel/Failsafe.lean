import Seatel.MdeWords
import Seatel.System

/-!
# The failsafe

A tripped iteration ends in `Stopped`: the three torques are 0, the three
modes constant torque and no calibration is pending. No later branch of
the loop leaves that state by itself (`stopped_next`), so without a
command the torques stay 0 whatever the sensors read.

On the wire this is not enough. The torque requests store their value
directly, without asking the failsafe, and the MDE thread sends what it
finds there until the next control iteration clears it. What goes out
while the failsafe is tripped is exactly the manual torque that is
pending (`pendingTrq`).
-/

namespace Seatel

open Runs

/-! ## A stopped controller -/

structure Stopped (s : Sys) : Prop where
  motorAz : s.vars.mde.motorAz = 0
  motorEl : s.vars.mde.motorEl = 0
  motorSk : s.vars.mde.motorSk = 0
  azState : s.vars.ctrl.azState = .constTorque
  elState : s.vars.ctrl.elState = .constTorque
  skState : s.vars.ctrl.skState = .constTorque
  azFlagCalibrate : s.vars.ctrl.azFlagCalibrate = false
  /-- The iteration has ended: the thread is in its 20 ms sleep. -/
  pc : s.ctrl.pc = .loopSleep

theorem Stopped.motor {s : Sys} (h : Stopped s) (m : Motor) : s.vars.mde.motor m = 0 := by
  cases m with
  | az => exact h.motorAz
  | el => exact h.motorEl
  | sk => exact h.motorSk

/-- The axis switches leave a stopped controller stopped. -/
theorem stopped_ctrlAxes (fpu : Fpu) {s : Sys} {v : Vars} (h : Stopped { s with vars := v }) :
    Stopped { s with vars := ctrlAxes fpu v } where
  motorAz := (ctrlAxes_motorAz fpu h.azState).trans h.motorAz
  motorEl := (ctrlAxes_motorEl fpu h.elState).trans h.motorEl
  motorSk := (ctrlAxes_motorSk fpu v).trans h.motorSk
  azState := (ctrlAxes_azState fpu v).trans h.azState
  elState := (ctrlAxes_elState fpu v).trans h.elState
  skState := congrArg SkView.state (ctrlAxes_sk fpu v)
  azFlagCalibrate := (ctrlAxes_azFlagCalibrate fpu v).trans h.azFlagCalibrate
  pc := h.pc

/-- An iteration that trips the failsafe stops the controller, whatever it was
doing: the calibration flag is cleared before it is tested. -/
theorem stopped_of_failsafe (fpu : Fpu) {s : Sys} (hpc : s.ctrl.pc = .loopSleep)
    (htrip : failsafe s.vars.imu = true) : Stopped (sysNext fpu s .ctrl) := by
  simp only [sysNext, ctrlStep_tripped fpu hpc htrip]
  exact stopped_ctrlAxes fpu ⟨rfl, rfl, rfl, rfl, rfl, rfl, rfl, hpc⟩

/-- No step but a request leaves the stopped state. -/
theorem stopped_next (fpu : Fpu) {s : Sys} (h : Stopped s) {a : Act}
    (ha : ∀ r, a ≠ .req r) : Stopped (sysNext fpu s a) := by
  cases a with
  | req r => exact absurd rfl (ha r)
  | ctrl =>
      cases htrip : failsafe s.vars.imu with
      | true => exact stopped_of_failsafe fpu h.pc htrip
      | false =>
          simp only [sysNext, ctrlStep_plain fpu h.pc htrip h.azFlagCalibrate]
          exact stopped_ctrlAxes fpu h
  | mde miso =>
      have hf := mdeStep_frame fpu miso s.vars s.mde
      refine ⟨(hf.motor .az).trans h.motorAz, (hf.motor .el).trans h.motorEl,
        (hf.motor .sk).trans h.motorSk, ?_, ?_, ?_, ?_, h.pc⟩ <;>
      simp only [sysNext, hf.ctrl]
      · exact h.azState
      · exact h.elState
      · exact h.skState
      · exact h.azFlagCalibrate
  | imu r => exact ⟨h.motorAz, h.motorEl, h.motorSk, h.azState, h.elState, h.skState,
      h.azFlagCalibrate, h.pc⟩
  | tick n => exact ⟨h.motorAz, h.motorEl, h.motorSk, h.azState, h.elState, h.skState,
      h.azFlagCalibrate, h.pc⟩

theorem failsafe_stops_and_latches (fpu : Fpu) (s : Sys) (hpc : s.ctrl.pc = .loopSleep)
    (htrip : failsafe s.vars.imu = true) :
    Stopped (sysNext fpu s .ctrl)
      ∧ ∀ as : List Act, (∀ a ∈ as, ∀ r, a ≠ .req r) →
          Stopped (run (sysNext fpu) (sysNext fpu s .ctrl) as) := by
  have hstop := stopped_of_failsafe fpu hpc htrip
  refine ⟨hstop, fun as hquiet => ?_⟩
  refine run_invariant (I := Stopped) (P := fun _ (a : Act) => ∀ r, a ≠ .req r)
    (fun t a ht ha => stopped_next fpu ht ha) hstop ?_
  exact along_iff.mpr fun pre a post heq => hquiet a (by simp [heq])

/-- Right after start-up the IMU variables are still 0, which trips it. -/
theorem failsafe_stops_and_latches_boot :
    Stopped (run (sysNext Fpu.modular) (sysNext Fpu.modular (Sys.boot 0 0 0 0) .ctrl)
      [.tick 2000, .ctrl]) :=
  (failsafe_stops_and_latches Fpu.modular (Sys.boot 0 0 0 0) rfl rfl).2 _ (by
    intro a ha r
    simp only [List.mem_cons, List.not_mem_nil, or_false] at ha
    rcases ha with rfl | rfl <;> exact Act.noConfusion)

/-! ## What goes out while the failsafe is tripped -/

/-- How an act changes the manual torques that wait to be cleared: a torque
request sets the one of its axis, a control iteration clears all. -/
def pendingNext (p : Motor → Int8) : Act → Motor → Int8
  | .req (.azSetConstTrq t) => Function.update p .az t
  | .req (.elSetConstTrq t) => Function.update p .el t
  | .req (.skSetConstTrq t) => Function.update p .sk t
  | .ctrl => fun _ => 0
  | _ => p

/-- The manual torque of each motor after the acts, none at the start. -/
def pendingTrq (as : List Act) : Motor → Int8 := run pendingNext (fun _ => 0) as

/-- Nothing is pending when no act sets a torque other than 0. -/
theorem pendingTrq_eq_zero {as : List Act}
    (h : ∀ a ∈ as, pendingNext (fun _ => 0) a = fun _ => 0) : pendingTrq as = fun _ => 0 := by
  unfold pendingTrq
  induction as with
  | nil => rfl
  | cons a as ih =>
      rw [run_cons, h a List.mem_cons_self]
      exact ih fun b hb => h b (List.mem_cons_of_mem a hb)

/-- The control iterations of the run evaluate the failsafe condition true. -/
def TripWindow (s : Sys) (a : Act) : Prop :=
  a = .ctrl → s.ctrl.pc = .loopSleep → failsafe s.vars.imu = true

theorem serve_motor (v : Vars) (r : Request) :
    (serve v r).mde.motor = pendingNext v.mde.motor (.req r) := by
  funext m
  cases r with
  | apiPos az el slow => cases slow <;> rfl
  | azSetConstTrq t => cases m <;> rfl
  | elSetConstTrq t => cases m <;> rfl
  | skSetConstTrq t => cases m <;> rfl
  | azSetTgtPos p => rfl
  | elSetTgtPos p => rfl
  | skSetTgtPos p => rfl
  | mdeSetAzEncOff off => cases m <;> rfl
  | imuSetElOff off => rfl
  | mdePowerUp => cases m <;> rfl
  | mdePowerDown => cases m <;> rfl
  | azCalibrate => rfl
  | apiStop => rfl

/-- One step inside the window: the torque variables follow the requests, and
an iteration clears them and ends in its 20 ms sleep. -/
theorem motor_next_of_tripWindow (fpu : Fpu) {s : Sys} (hpc : s.ctrl.pc = .loopSleep)
    {a : Act} (hwin : TripWindow s a) :
    (sysNext fpu s a).vars.mde.motor = pendingNext s.vars.mde.motor a
      ∧ (sysNext fpu s a).ctrl.pc = .loopSleep := by
  cases a with
  | req r => exact ⟨serve_motor s.vars r, hpc⟩
  | ctrl =>
      have hstop := stopped_of_failsafe fpu hpc (hwin rfl hpc)
      exact ⟨funext hstop.motor, hstop.pc⟩
  | mde miso => exact ⟨funext (mdeStep_frame fpu miso s.vars s.mde).motor, hpc⟩
  | imu r => exact ⟨rfl, hpc⟩
  | tick n => exact ⟨rfl, hpc⟩

theorem motor_run_of_tripWindow (fpu : Fpu) {s : Sys} (hpc : s.ctrl.pc = .loopSleep)
    {as : List Act} (hwin : Along (sysNext fpu) TripWindow s as) :
    (run (sysNext fpu) s as).vars.mde.motor = run pendingNext s.vars.mde.motor as := by
  induction as generalizing s with
  | nil => rfl
  | cons a as ih =>
      obtain ⟨hmot, hpc'⟩ := motor_next_of_tripWindow fpu hpc hwin.1
      rw [run_cons, run_cons, ih hpc' hwin.2, hmot]

/-- After a tripped iteration and up to one that does not trip, every torque
word carries the manual torque pending for its motor; so all of them carry 0
exactly when none is sent while a nonzero one is pending. -/
theorem tripped_torque_words_zero_iff (fpu : Fpu) (s : Sys) (hpc : s.ctrl.pc = .loopSleep)
    (htrip : failsafe s.vars.imu = true) (as : List Act)
    (hwin : Along (sysNext fpu) TripWindow (sysNext fpu s .ctrl) as) :
    (∀ m w, BusEvent.torque m w ∈ trace (sysNext fpu) (busObs fpu) (sysNext fpu s .ctrl) as →
        trqTorque w = 0)
      ↔ ∀ pre miso post, as = pre ++ .mde miso :: post → ∀ m w,
          BusEvent.torque m w
              ∈ busObs fpu (run (sysNext fpu) (sysNext fpu s .ctrl) pre) (.mde miso) →
            pendingTrq pre m = 0 := by
  have hstop := stopped_of_failsafe fpu hpc htrip
  have hword : ∀ pre miso post, as = pre ++ .mde miso :: post → ∀ m w,
      BusEvent.torque m w
          ∈ busObs fpu (run (sysNext fpu) (sysNext fpu s .ctrl) pre) (.mde miso) →
        trqTorque w = pendingTrq pre m := by
    rintro pre miso post rfl m w hw
    have hpre := ((along_append _ pre _).mp hwin).1
    have hmot := motor_run_of_tripWindow fpu hstop.pc hpre
    rw [mdeStep_torque hw, trqTorque_mdeCmdSetMotTrq, hmot, funext hstop.motor]
    rfl
  constructor
  · intro hzero pre miso post heq m w hw
    rw [← hword pre miso post heq m w hw]
    exact hzero m w (mem_trace.mpr ⟨pre, _, post, heq, hw⟩)
  · intro hpend m w hw
    obtain ⟨pre, a, post, heq, hobs⟩ := mem_trace.mp hw
    obtain ⟨miso, rfl⟩ := mem_busObs hobs
    rw [hword pre miso post heq m w hobs, hpend pre miso post heq m w hobs]

/-- The firmware with the MDE powered up and polled, its sensors never read:
the control thread has not run yet and its first iteration will trip. -/
def trippedSys : Sys :=
  run (sysNext Fpu.modular) (Sys.boot 0 0 0 0)
    (.req .mdePowerUp :: List.replicate 140 (.mde 0))

/-- A position command after the tripped iteration leaves the next word at 0. -/
theorem tripped_torque_words_zero_position :
    BusEvent.torque .az (mdeCmdSetMotTrq Motor.az.code 0)
        ∈ trace (sysNext Fpu.modular) (busObs Fpu.modular)
            (sysNext Fpu.modular trippedSys .ctrl) [.req (.azSetTgtPos 100), .mde 0]
      ∧ trqTorque (mdeCmdSetMotTrq Motor.az.code 0) = 0 := by
  have hmem : BusEvent.torque .az (mdeCmdSetMotTrq Motor.az.code 0)
      ∈ trace (sysNext Fpu.modular) (busObs Fpu.modular)
          (sysNext Fpu.modular trippedSys .ctrl) [.req (.azSetTgtPos 100), .mde 0] := by
    decide +kernel
  refine ⟨hmem, (tripped_torque_words_zero_iff Fpu.modular trippedSys (by decide +kernel)
    (by decide +kernel) [.req (.azSetTgtPos 100), .mde 0]
    ⟨nofun, nofun, trivial⟩).mpr ?_ .az _ hmem⟩
  intro pre miso post heq m w _
  have hpre : pre <+: [.req (.azSetTgtPos 100), .mde 0] := ⟨_, heq.symm⟩
  rw [pendingTrq_eq_zero fun a ha => ?_]
  have hact := hpre.subset ha
  simp only [List.mem_cons, List.not_mem_nil, or_false] at hact
  rcases hact with rfl | rfl <;> rfl

/-- A manual torque of 25 that arrives after the tripped iteration goes out with
the next word. -/
theorem tripped_torque_word_nonzero :
    trippedSys.ctrl.pc = .loopSleep ∧ failsafe trippedSys.vars.imu = true
      ∧ trace (sysNext Fpu.modular) (busObs Fpu.modular)
          (sysNext Fpu.modular trippedSys .ctrl) [.req (.azSetConstTrq 25), .mde 0]
        = [.torque .az (mdeCmdSetMotTrq Motor.az.code 25)]
      ∧ trqTorque (mdeCmdSetMotTrq Motor.az.code 25) = 25 := by
  decide +kernel

end Seatel
