import Seatel.Ctrl
import Seatel.Parity

/-!
# The MDE thread

The loop of `mde.c`: the power switch with its latched request flags, the
initialisation script, the encoder poll and the torque words. The thread
has the highest priority and gives way only where it blocks, in a sleep
or in an SPI exchange; an `MdePc` names the blocking call it waits in,
and `mdeStep` runs it from there to the next one. An exchange is shown as
a bus event at the moment its word is handed to `mde_exchange`, and its
reply is the `miso` of the step that wakes the thread up.

`mde_exchange` always reports success, so the test of `status_fb` and
`status_fc` has no second branch.
-/

namespace Seatel

open CInt

/-! ## Words -/

/-- The loop of `bit_count`, which runs once per bit at most. -/
def bitCountLoop : Nat → UInt16 → UInt8 → UInt8
  | 0, _, cntr => cntr
  | fuel + 1, n, cntr =>
      if n = 0 then cntr else bitCountLoop fuel (n >>> 1) (cntr + (n % 2).toUInt8)

def bitCount (n : UInt16) : UInt8 := bitCountLoop 16 n 0

def mdeCmdSetMotTrq (motor : UInt8) (speed : Int8) : UInt16 :=
  let cmd : UInt16 :=
    ((0b1110 : UInt16) <<< 12) ||| ((motor &&& 0x7).toUInt16 <<< 9)
      ||| (speed.toUInt8.toUInt16 <<< 1)
  cmd ||| (if bitCount cmd &&& 0x1 = 0 then 1 else 0) -- CRC

inductive Motor where
  | az
  | el
  | sk
deriving Repr, DecidableEq

/-- `MOTOR_AZ`, `MOTOR_EL`, `MOTOR_SK`. -/
def Motor.code : Motor → UInt8
  | .az => 0b011
  | .el => 0b101
  | .sk => 0b110

/-- `motor_az`, `motor_el`, `motor_sk`. -/
def Mde.motor (m : Mde) : Motor → Int8
  | .az => m.motorAz
  | .el => m.motorEl
  | .sk => m.motorSk

/-- An operation of the initialisation sequence. -/
inductive InitOp where
  | exchange (mosi : UInt16)
  | sleep (ms : Nat)
deriving Repr, DecidableEq

def initScript : List InitOp := [
  .exchange 0x5ba5, .exchange 0xf4ff, .exchange 0xf4ff, .exchange 0xa8ff,
  .exchange 0xa9fe, .exchange 0xa9fd, .exchange 0xa8fc, .exchange 0xa9fb,
  .exchange 0xa8fa, .exchange 0xa8f9, .exchange 0xa9f8, .exchange 0xa9f7,
  .exchange 0xa8f6, .exchange 0xa8f5, .exchange 0xa9f4, .exchange 0xa8f3,
  .exchange 0xa9f2, .exchange 0xa9f1,
  .sleep 100,
  .exchange 0xa45a, .exchange 0xa45a,
  .sleep 100,
  .exchange 0xfbff, .exchange 0xd9f9, .exchange 0xd7ef, .exchange 0xdcff,
  .exchange 0xdaff, .exchange 0xfb77, .exchange 0xfa76, .exchange 0xfafb,
  .exchange 0xfdff, .exchange 0xfcfe]

/-- The words of the encoder reading; the replies to the last two are `fc` and `fb`. -/
def pollWords : List UInt16 := [0xFEFF, 0xFEFF, 0xFEFF, 0xFEFF, 0xFDFF, 0xFCFE, 0xFBFF]

/-! ## The thread -/

/-- What the MDE thread does to the outside: it drives `LINE_MDE_PWR` and
exchanges words, each in one of three roles. -/
inductive BusEvent where
  | line (level : Bool)
  | init (mosi : UInt16)
  | poll (mosi : UInt16)
  | torque (m : Motor) (mosi : UInt16)
deriving Repr, DecidableEq

/-- The blocking call the MDE thread waits in. -/
inductive MdePc where
  /-- The 3 ms sleep that ends an iteration. -/
  | loopSleep
  /-- The 1000 ms sleep of a power-down. -/
  | powerDnSleep
  /-- A 10 ms sleep of `imu_calibrate`, after `i` readings. -/
  | imuCalibrate (i : Nat) (accu : Int)
  /-- The 4000 ms sleep of a power-up. -/
  | powerUpSleep
  /-- An operation of the initialisation script, with the rest to follow. -/
  | init (rest : List InitOp)
  /-- Exchange number `i` of `pollWords`. -/
  | poll (i : Nat)
  | torque (m : Motor)
deriving Repr, DecidableEq

/-- The MDE thread: its wait and its locals `old_t`, `old_x` and `fc`. -/
structure MdeThd where
  pc : MdePc
  oldT : SysTime
  oldX : UInt16
  fc : UInt8
deriving Repr, DecidableEq

/-- What a step of the thread yields. -/
structure MdeOut where
  vars : Vars
  thd : MdeThd
  events : List BusEvent := []

/-- `mde_exchange(mde_cmd_set_mot_trq(m, motor_m), NULL)`. -/
def mdeTorque (m : Motor) (v : Vars) (t : MdeThd) : MdeOut :=
  { vars := v
    thd := { t with pc := .torque m }
    events := [.torque m (mdeCmdSetMotTrq m.code (v.mde.motor m))] }

/-- From the test of `is_powered_up && ctrl_is_running()`. -/
def mdeGate (v : Vars) (t : MdeThd) : MdeOut :=
  if v.mde.isPoweredUp && ctrlIsRunning v then
    { vars := v, thd := { t with pc := .poll 0 }, events := [.poll 0xFEFF] }
  else
    { vars := v, thd := { t with pc := .loopSleep } }

/-- From the test of `power_up && !is_powered_up`. -/
def mdePowerUpTest (v : Vars) (t : MdeThd) : MdeOut :=
  if v.mde.powerUp && !v.mde.isPoweredUp then
    { vars := { v with mde := { v.mde with lineMdePwr := true } }
      thd := { t with pc := .imuCalibrate 1 v.imu.rotY.toNat }
      events := [.line true] }
  else
    mdeGate v t

/-- From the top of the loop. -/
def mdeTop (v : Vars) (t : MdeThd) : MdeOut :=
  if v.mde.powerDn && v.mde.isPoweredUp then
    { vars := { v with mde := { v.mde with lineMdePwr := false } }
      thd := { t with pc := .powerDnSleep }
      events := [.line false] }
  else
    mdePowerUpTest v t

/-- The initialisation script from `rest` on. -/
def mdeInit (rest : List InitOp) (v : Vars) (t : MdeThd) : MdeOut :=
  match rest with
  | .exchange mosi :: rest =>
      { vars := v, thd := { t with pc := .init rest }, events := [.init mosi] }
  | .sleep _ :: rest => { vars := v, thd := { t with pc := .init rest } }
  | [] => mdeGate { v with mde := { v.mde with powerUp := false, isPoweredUp := true } } t

/-- `enc_az`: the complement of the two bytes read. -/
def encAzOf (fc fb : UInt8) : UInt16 := ~~~((fc.toUInt16 <<< 8) ||| fb.toUInt16)

/-- `dx`: the difference of two encoder values in `int16_t`. -/
def encDiff (x oldX : UInt16) : Int16 :=
  Int16.ofInt (x.toInt16.toInt - oldX.toInt16.toInt)

/-- `dx` is the difference on the circle. -/
theorem encDiff_toInt (x oldX : UInt16) : (encDiff x oldX).toInt = circDiff oldX x := by
  have hx : x.toNat < 65536 := x.toNat_lt
  have hold : oldX.toNat < 65536 := oldX.toNat_lt
  obtain ⟨a, ha⟩ := toInt_toInt16 x
  obtain ⟨b, hb⟩ := toInt_toInt16 oldX
  obtain ⟨c, hc⟩ := toInt_ofInt16 (x.toInt16.toInt - oldX.toInt16.toInt)
  obtain ⟨h1, h2⟩ := toInt16_mem (encDiff x oldX)
  obtain ⟨k, hk, h3, h4⟩ := circDiff_spec oldX x
  simp only [encDiff] at h1 h2 ⊢
  omega

/-- The encoder value and speed from a completed reading. -/
def mdeEncoder (fpu : Fpu) (fb : UInt8) (v : Vars) (t : MdeThd) : Vars × MdeThd :=
  let encAz := encAzOf t.fc fb
  let dt := chVTGetSystemTimeX v - t.oldT
  ({ v with mde := { v.mde with
      encAz := encAz
      encAzSpeed := fpu.speed (encDiff encAz t.oldX) dt } },
    { t with oldX := encAz, oldT := chVTGetSystemTimeX v })

/-- The MDE thread runs from the call it waits in to its next blocking call. -/
def mdeStep (fpu : Fpu) (miso : UInt16) (v : Vars) (t : MdeThd) : MdeOut :=
  match t.pc with
  | .loopSleep => mdeTop v t
  | .powerDnSleep =>
      mdePowerUpTest { v with mde := { v.mde with powerDn := false, isPoweredUp := false } } t
  | .imuCalibrate i accu =>
      if i < 100 then
        { vars := v, thd := { t with pc := .imuCalibrate (i + 1) (accu + v.imu.rotY.toNat) } }
      else
        { vars := { v with imu := { v.imu with rotY0 := UInt16.ofInt (accu.tdiv 100) } }
          thd := { t with pc := .powerUpSleep } }
  | .powerUpSleep => mdeInit initScript v t
  | .init rest => mdeInit rest v t
  | .poll i =>
      let t := if i = 5 then { t with fc := miso.toUInt8 } else t
      match pollWords[i + 1]? with
      | some mosi => { vars := v, thd := { t with pc := .poll (i + 1) }, events := [.poll mosi] }
      | none =>
          let r := mdeEncoder fpu miso.toUInt8 v t
          mdeTorque .az r.1 r.2
  | .torque .az => mdeTorque .el v t
  | .torque .el => mdeTorque .sk v t
  | .torque .sk => { vars := v, thd := { t with pc := .loopSleep } }

/-! ## Encoder readings -/

/-- A completed reading stores its sample and the speed estimated from it. -/
theorem mdeStep_sample (fpu : Fpu) (miso : UInt16) (v : Vars) {t : MdeThd} {i : Nat}
    (hpc : t.pc = .poll i) (hi : ¬ i + 1 < pollWords.length) :
    mdeStep fpu miso v t
      = mdeTorque .az (mdeEncoder fpu miso.toUInt8 v t).1 (mdeEncoder fpu miso.toUInt8 v t).2 := by
  have hword : pollWords[i + 1]? = none := List.getElem?_eq_none (Nat.le_of_not_lt hi)
  have h5 : i ≠ 5 := by
    rintro rfl
    exact hi (by decide)
  rw [mdeStep, hpc]
  simp only [hword, if_neg h5]

/-- The thread still has the time and the value of the last reading. -/
def MdeOut.KeepsOld (out : MdeOut) (t : MdeThd) : Prop :=
  out.thd.oldT = t.oldT ∧ out.thd.oldX = t.oldX

theorem mdeGate_keepsOld (v : Vars) (t : MdeThd) : (mdeGate v t).KeepsOld t := by
  unfold mdeGate
  split <;> exact ⟨rfl, rfl⟩

theorem mdePowerUpTest_keepsOld (v : Vars) (t : MdeThd) : (mdePowerUpTest v t).KeepsOld t := by
  unfold mdePowerUpTest
  split
  · exact ⟨rfl, rfl⟩
  · exact mdeGate_keepsOld v t

theorem mdeInit_keepsOld (rest : List InitOp) (v : Vars) (t : MdeThd) :
    (mdeInit rest v t).KeepsOld t := by
  unfold mdeInit
  split
  · exact ⟨rfl, rfl⟩
  · exact ⟨rfl, rfl⟩
  · exact mdeGate_keepsOld _ t

/-- Only a completed reading changes what the next one is compared with. -/
theorem mdeStep_keepsOld (fpu : Fpu) (miso : UInt16) (v : Vars) {t : MdeThd}
    (h : ∀ i, t.pc = .poll i → i + 1 < pollWords.length) : (mdeStep fpu miso v t).KeepsOld t := by
  cases hpc : t.pc with
  | loopSleep =>
      rw [mdeStep, hpc]
      simp only [mdeTop]
      split
      · exact ⟨rfl, rfl⟩
      · exact mdePowerUpTest_keepsOld v t
  | powerDnSleep =>
      rw [mdeStep, hpc]
      exact mdePowerUpTest_keepsOld _ t
  | imuCalibrate i accu =>
      rw [mdeStep, hpc]
      simp only
      split <;> exact ⟨rfl, rfl⟩
  | powerUpSleep =>
      rw [mdeStep, hpc]
      exact mdeInit_keepsOld _ v t
  | init rest =>
      rw [mdeStep, hpc]
      exact mdeInit_keepsOld _ v t
  | poll i =>
      have hword : pollWords[i + 1]? = some _ := List.getElem?_eq_getElem (h i hpc)
      rw [mdeStep, hpc]
      simp only [hword]
      split <;> exact ⟨rfl, rfl⟩
  | torque m =>
      rw [mdeStep, hpc]
      cases m <;> exact ⟨rfl, rfl⟩

/-! ## What a step leaves alone -/

/-- `v'` differs from `v` at most in what the MDE thread writes: the encoder
reading, the power switch and the gyro zero. -/
structure MdeFrame (v v' : Vars) : Prop where
  ctrl : v'.ctrl = v.ctrl
  time : v'.time = v.time
  motor : ∀ m, v'.mde.motor m = v.mde.motor m
  encAzOff : v'.mde.encAzOff = v.mde.encAzOff
  imu : v'.imu = { v.imu with rotY0 := v'.imu.rotY0 }

theorem mdeGate_frame (v : Vars) (t : MdeThd) : MdeFrame v (mdeGate v t).vars := by
  unfold mdeGate
  split <;> exact ⟨rfl, rfl, fun _ => rfl, rfl, rfl⟩

theorem mdePowerUpTest_frame (v : Vars) (t : MdeThd) :
    MdeFrame v (mdePowerUpTest v t).vars := by
  unfold mdePowerUpTest
  split
  · exact ⟨rfl, rfl, fun m => by cases m <;> rfl, rfl, rfl⟩
  · exact mdeGate_frame v t

theorem mdeInit_frame (rest : List InitOp) (v : Vars) (t : MdeThd) :
    MdeFrame v (mdeInit rest v t).vars := by
  unfold mdeInit
  split
  · exact ⟨rfl, rfl, fun _ => rfl, rfl, rfl⟩
  · exact ⟨rfl, rfl, fun _ => rfl, rfl, rfl⟩
  · obtain ⟨h1, h2, h3, h4, h5⟩ := mdeGate_frame
      { v with mde := { v.mde with powerUp := false, isPoweredUp := true } } t
    exact ⟨h1, h2, fun m => (h3 m).trans (by cases m <;> rfl), h4, h5⟩

theorem mdeStep_frame (fpu : Fpu) (miso : UInt16) (v : Vars) (t : MdeThd) :
    MdeFrame v (mdeStep fpu miso v t).vars := by
  unfold mdeStep
  split
  · unfold mdeTop
    split
    · exact ⟨rfl, rfl, fun m => by cases m <;> rfl, rfl, rfl⟩
    · exact mdePowerUpTest_frame v t
  · obtain ⟨h1, h2, h3, h4, h5⟩ := mdePowerUpTest_frame
      { v with mde := { v.mde with powerDn := false, isPoweredUp := false } } t
    exact ⟨h1, h2, fun m => (h3 m).trans (by cases m <;> rfl), h4, h5⟩
  · split <;> exact ⟨rfl, rfl, fun _ => rfl, rfl, rfl⟩
  · exact mdeInit_frame initScript v t
  · exact mdeInit_frame _ v t
  · simp only
    split
    · exact ⟨rfl, rfl, fun _ => rfl, rfl, rfl⟩
    · exact ⟨rfl, rfl, fun m => by cases m <;> rfl, rfl, rfl⟩
  all_goals exact ⟨rfl, rfl, fun _ => rfl, rfl, rfl⟩

end Seatel
