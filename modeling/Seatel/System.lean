import Seatel.Mde
import Seatel.Runs

/-!
# The firmware as one machine

The control thread, the MDE thread and the request threads over the
shared variables. A `Request` is a command as it leaves the HTTP or API
handler, with its argument in the parameter type of the function called;
routes and messages that call none of these functions do not touch the
shared variables. An `Act` is one scheduling decision: a request is
served, a thread runs from the call it waits in to its next one, the IMU
thread publishes a reading, time passes. Any list of acts is a run, so
every placement of a request between two waits of the other threads is
covered. What a thread does between two of its waits is one act, for the
threads of higher priority as well; where a request thread can be
preempted inside a setter is the subject of `Preempt`.
-/

namespace Seatel

open Runs

/-! ## Requests -/

/-- The commands of `http.c` and `api.c` that reach the shared variables. -/
inductive Request where
  | azSetConstTrq (torque : Int8)
  | elSetConstTrq (torque : Int8)
  | skSetConstTrq (torque : Int8)
  | azSetTgtPos (position : UInt16)
  | elSetTgtPos (position : Int16)
  | skSetTgtPos (position : Int16)
  | mdeSetAzEncOff (off : UInt16)
  | imuSetElOff (off : Int16)
  | mdePowerUp
  | mdePowerDown
  | azCalibrate
  /-- API command `P`; `slow` says that the previous one came less than three
  seconds before and not too far away, when the target speeds are reset. -/
  | apiPos (az : UInt16) (el : Int16) (slow : Bool)
  /-- API command `S`. -/
  | apiStop
deriving Repr, DecidableEq

def apiPos (az : UInt16) (el : Int16) (slow : Bool) (v : Vars) : Vars :=
  let v := elSetTgtPos el (azSetTgtPos az v)
  if slow then elSetTgtPosSpd 0 (azSetTgtPosSpd 0 v) else v

def apiStop (v : Vars) : Vars :=
  let v := azSetTgtPos v.mde.encAz v
  let v := elSetTgtPos v.imu.elPos v
  elSetTgtPosSpd 0 (azSetTgtPosSpd 0 v)

def serve (v : Vars) : Request → Vars
  | .azSetConstTrq t => azSetConstTrq t v
  | .elSetConstTrq t => elSetConstTrq t v
  | .skSetConstTrq t => skSetConstTrq t v
  | .azSetTgtPos p => azSetTgtPos p v
  | .elSetTgtPos p => elSetTgtPos p v
  | .skSetTgtPos p => skSetTgtPos p v
  | .mdeSetAzEncOff off => mdeSetAzEncOff off v
  | .imuSetElOff off => imuSetElOff off v
  | .mdePowerUp => mdePowerUp v
  | .mdePowerDown => mdePowerDown v
  | .azCalibrate => azCalibrate v
  | .apiPos az el slow => apiPos az el slow v
  | .apiStop => apiStop v

/-- The request is a command for the axis. -/
def commandFor : Motor → Request → Bool
  | .az, .azSetConstTrq _ => true
  | .az, .azSetTgtPos _ => true
  | .az, .azCalibrate => true
  | .el, .elSetConstTrq _ => true
  | .el, .elSetTgtPos _ => true
  | .sk, .skSetConstTrq _ => true
  | .sk, .skSetTgtPos _ => true
  | .az, .apiPos _ _ _ => true
  | .el, .apiPos _ _ _ => true
  | .az, .apiStop => true
  | .el, .apiStop => true
  | _, _ => false

/-! ## The machine -/

/-- What the IMU thread publishes in one cycle. -/
structure ImuReading where
  accelX : Int16
  accelY : Int16
  accelZ : Int16
  rotX : UInt16
  rotY : UInt16
  rotZ : UInt16
  elPos : Int16
  elSpd : Int16
deriving Repr, DecidableEq

def imuPublish (r : ImuReading) (v : Vars) : Vars :=
  { v with imu := { v.imu with
      accelX := r.accelX, accelY := r.accelY, accelZ := r.accelZ
      rotX := r.rotX, rotY := r.rotY, rotZ := r.rotZ
      elPos := r.elPos, elSpd := r.elSpd } }

/-- A reading that does not trip the failsafe. -/
def imuAtRest : ImuReading where
  accelX := 0
  accelY := 0
  accelZ := 4096
  rotX := 2070
  rotY := 2070
  rotZ := 2070
  elPos := 0
  elSpd := 0

structure Sys where
  vars : Vars
  ctrl : CtrlThd
  mde : MdeThd
deriving Repr, DecidableEq

inductive Act where
  | req (r : Request)
  | ctrl
  | mde (miso : UInt16)
  | imu (r : ImuReading)
  | tick (n : Nat)
deriving Repr, DecidableEq

def sysNext (fpu : Fpu) (s : Sys) : Act → Sys
  | .req r => { s with vars := serve s.vars r }
  | .ctrl =>
      let r := ctrlStep fpu s.vars s.ctrl
      { s with vars := r.1, ctrl := r.2 }
  | .mde miso =>
      let r := mdeStep fpu miso s.vars s.mde
      { s with vars := r.vars, mde := r.thd }
  | .imu r => { s with vars := imuPublish r s.vars }
  | .tick n => { s with vars := { s.vars with time := s.vars.time + n } }

/-- What the MDE sees of a step. -/
def busObs (fpu : Fpu) (s : Sys) : Act → List BusEvent
  | .mde miso => (mdeStep fpu miso s.vars s.mde).events
  | _ => []

/-- The bus is quiet unless the MDE thread runs. -/
theorem mem_busObs {fpu : Fpu} {s : Sys} {a : Act} {e : BusEvent} (h : e ∈ busObs fpu s a) :
    ∃ miso, a = .mde miso := by
  cases a with
  | mde miso => exact ⟨miso, rfl⟩
  | req r => cases h
  | ctrl => cases h
  | imu r => cases h
  | tick n => cases h

/-- The step completes an encoder reading. -/
def samples (s : Sys) : Bool :=
  match s.mde.pc with
  | .poll i => !(i + 1 < pollWords.length)
  | _ => false

/-- The state in which the threads are started: the locals are uninitialised. -/
def Sys.boot (oldAz : UInt16) (oldT : SysTime) (oldX : UInt16) (fc : UInt8) : Sys where
  vars := {}
  ctrl := { pc := .loopSleep, oldAz := oldAz }
  mde := { pc := .loopSleep, oldT := oldT, oldX := oldX, fc := fc }

/-- Some run of the booted firmware ends in `s`. -/
def Reachable (fpu : Fpu) (s : Sys) : Prop :=
  ∃ oldAz oldT oldX fc as, run (sysNext fpu) (Sys.boot oldAz oldT oldX fc) as = s

/-- What holds when the threads start and is kept by every step holds in every
reachable state. -/
theorem Reachable.invariant {fpu : Fpu} {I : Sys → Prop}
    (hboot : ∀ oldAz oldT oldX fc, I (Sys.boot oldAz oldT oldX fc))
    (hstep : ∀ s a, I s → I (sysNext fpu s a)) {s : Sys} (h : Reachable fpu s) : I s := by
  obtain ⟨oldAz, oldT, oldX, fc, as, rfl⟩ := h
  exact run_invariant_always hstep (hboot oldAz oldT oldX fc) as

end Seatel
