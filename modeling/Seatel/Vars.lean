import Seatel.Platform

/-!
# The shared variables and the functions that write them

The file-scope variables of `ctrl.c`, `mde.c` and `imu.c`, under their
source names, with the setters the other threads call. A getter of the
source returns its variable, so it is the field itself here. `LINE_MDE_PWR`
is kept with the variables of `mde.c`, the only file that drives it, and
`time` is the real time in ticks that `chVTGetSystemTimeX` shows modulo
2^32.

The second half cuts the record into what belongs to one axis (`az`,
`el`, `sk`) and to the power switch (`pwr`). Each setter changes one of
these views and leaves the others alone; the proofs about one axis use
these frame facts and never look inside a function of another axis.
-/

namespace Seatel

/-- `motor_state_t`. -/
inductive MotorState where
  | constTorque
  | constSpeed
  | targetPosition
deriving Repr, DecidableEq

/-- The variables of `ctrl.c`. -/
structure Ctrl where
  azFlagCalibrate : Bool := false
  azState : MotorState := .constTorque
  elState : MotorState := .constTorque
  skState : MotorState := .constTorque
  azTgtSpd : Int16 := 0
  azTgtPos : UInt16 := 0
  azTgtPosSpd : Int16 := 0
  azTgtPosTim : SysTime := 0
  elTgtSpd : Int16 := 0
  elTgtPos : Int16 := 0
  elTgtPosSpd : Int16 := 0
  elTgtPosTim : SysTime := 0
  skTgtPos : Int16 := 0
  lastLoopUpdate : SysTime := 0
deriving Repr, DecidableEq

/-- The variables of `mde.c`, and the power line it drives. -/
structure Mde where
  motorAz : Int8 := 0
  motorEl : Int8 := 0
  motorSk : Int8 := 0
  encAz : UInt16 := 0
  encAzOff : UInt16 := 0
  encAzSpeed : Int16 := 0
  powerUp : Bool := false
  powerDn : Bool := false
  isPoweredUp : Bool := false
  lineMdePwr : Bool := false
deriving Repr, DecidableEq

/-- The variables of `imu.c`. -/
structure Imu where
  accelX : Int16 := 0
  accelY : Int16 := 0
  accelZ : Int16 := 0
  rotX : UInt16 := 0
  rotY : UInt16 := 0
  rotY0 : UInt16 := 2070
  rotZ : UInt16 := 0
  elPos : Int16 := 0
  elOff : Int16 := 0
  elSpd : Int16 := 0
deriving Repr, DecidableEq

/-- Everything the threads share. The defaults are the source's initial values. -/
structure Vars where
  ctrl : Ctrl := {}
  mde : Mde := {}
  imu : Imu := {}
  time : Nat := 0
deriving Repr, DecidableEq

def chVTGetSystemTimeX (v : Vars) : SysTime := UInt32.ofNat v.time

/-! ## Setters of `mde.c` and `imu.c` -/

def mdeSetTrqAz (trq : Int8) (v : Vars) : Vars :=
  { v with mde := { v.mde with motorAz := trq } }

def mdeSetTrqEl (trq : Int8) (v : Vars) : Vars :=
  { v with mde := { v.mde with motorEl := trq } }

def mdeSetTrqSk (trq : Int8) (v : Vars) : Vars :=
  { v with mde := { v.mde with motorSk := trq } }

def mdeSetAzEncOff (off : UInt16) (v : Vars) : Vars :=
  { v with mde := { v.mde with encAzOff := off } }

def mdePowerUp (v : Vars) : Vars := { v with mde := { v.mde with powerUp := true } }

def mdePowerDown (v : Vars) : Vars := { v with mde := { v.mde with powerDn := true } }

def imuSetElOff (off : Int16) (v : Vars) : Vars :=
  { v with imu := { v.imu with elOff := off } }

/-! ## Setters of `ctrl.c` -/

/-- `az_flag_calibrate = b`. -/
def setAzFlagCalibrate (b : Bool) (v : Vars) : Vars :=
  { v with ctrl := { v.ctrl with azFlagCalibrate := b } }

/-- `az_state = st`. -/
def setAzState (st : MotorState) (v : Vars) : Vars :=
  { v with ctrl := { v.ctrl with azState := st } }

/-- `el_state = st`. -/
def setElState (st : MotorState) (v : Vars) : Vars :=
  { v with ctrl := { v.ctrl with elState := st } }

/-- `sk_state = st`. -/
def setSkState (st : MotorState) (v : Vars) : Vars :=
  { v with ctrl := { v.ctrl with skState := st } }

/-- `az_tgt_spd = spd`. -/
def setAzTgtSpd (spd : Int16) (v : Vars) : Vars :=
  { v with ctrl := { v.ctrl with azTgtSpd := spd } }

/-- `el_tgt_spd = spd`. -/
def setElTgtSpd (spd : Int16) (v : Vars) : Vars :=
  { v with ctrl := { v.ctrl with elTgtSpd := spd } }

-- The three torque setters order their stores differently: azimuth stores
-- the mode before the torque, elevation and skew the torque before the mode.

def azSetConstTrq (torque : Int8) (v : Vars) : Vars :=
  mdeSetTrqAz torque (setAzState .constTorque (setAzFlagCalibrate false v))

def elSetConstTrq (torque : Int8) (v : Vars) : Vars :=
  setElState .constTorque (mdeSetTrqEl torque v)

def skSetConstTrq (torque : Int8) (v : Vars) : Vars :=
  setSkState .constTorque (mdeSetTrqSk torque v)

def azSetConstSpd (speed : Int16) (v : Vars) : Vars :=
  setAzState .constSpeed (setAzFlagCalibrate false (setAzTgtSpd speed v))

def azSetTgtPos (position : UInt16) (v : Vars) : Vars :=
  { v with ctrl := { v.ctrl with
      azTgtPos := position
      azFlagCalibrate := false
      azTgtPosTim := chVTGetSystemTimeX v
      azState := .targetPosition } }

def azSetTgtPosSpd (speed : Int16) (v : Vars) : Vars :=
  { v with ctrl := { v.ctrl with azTgtPosSpd := speed } }

def elSetTgtPos (position : Int16) (v : Vars) : Vars :=
  { v with ctrl := { v.ctrl with
      elTgtPos := position
      elTgtPosTim := chVTGetSystemTimeX v
      elState := .targetPosition } }

def elSetTgtPosSpd (speed : Int16) (v : Vars) : Vars :=
  { v with ctrl := { v.ctrl with elTgtPosSpd := speed } }

def skSetTgtPos (position : Int16) (v : Vars) : Vars :=
  { v with ctrl := { v.ctrl with skTgtPos := position, skState := .targetPosition } }

def azCalibrate (v : Vars) : Vars := setAzFlagCalibrate true v

/-! ## Views -/

/-- What belongs to the azimuth axis. -/
structure AzView where
  flagCalibrate : Bool
  state : MotorState
  tgtSpd : Int16
  tgtPos : UInt16
  tgtPosSpd : Int16
  tgtPosTim : SysTime
  motor : Int8
  enc : UInt16
  encOff : UInt16
  encSpeed : Int16
deriving Repr, DecidableEq

/-- What belongs to the elevation axis. -/
structure ElView where
  state : MotorState
  tgtSpd : Int16
  tgtPos : Int16
  tgtPosSpd : Int16
  tgtPosTim : SysTime
  motor : Int8
  off : Int16
deriving Repr, DecidableEq

/-- What belongs to the skew axis. -/
structure SkView where
  state : MotorState
  tgtPos : Int16
  motor : Int8
deriving Repr, DecidableEq

/-- What belongs to the MDE power switch. -/
structure PwrView where
  powerUp : Bool
  powerDn : Bool
  isPoweredUp : Bool
  lineMdePwr : Bool
deriving Repr, DecidableEq

namespace Vars

def az (v : Vars) : AzView :=
  ⟨v.ctrl.azFlagCalibrate, v.ctrl.azState, v.ctrl.azTgtSpd, v.ctrl.azTgtPos,
    v.ctrl.azTgtPosSpd, v.ctrl.azTgtPosTim, v.mde.motorAz, v.mde.encAz,
    v.mde.encAzOff, v.mde.encAzSpeed⟩

def el (v : Vars) : ElView :=
  ⟨v.ctrl.elState, v.ctrl.elTgtSpd, v.ctrl.elTgtPos, v.ctrl.elTgtPosSpd,
    v.ctrl.elTgtPosTim, v.mde.motorEl, v.imu.elOff⟩

def sk (v : Vars) : SkView := ⟨v.ctrl.skState, v.ctrl.skTgtPos, v.mde.motorSk⟩

def pwr (v : Vars) : PwrView :=
  ⟨v.mde.powerUp, v.mde.powerDn, v.mde.isPoweredUp, v.mde.lineMdePwr⟩

end Vars

end Seatel
