import Seatel.CInt
import Seatel.Ina3221

/-!
# The registers behind a reading

The polling thread reads two registers of a chip for each of its six
channels. A transfer can fail and leaves anything in the receive buffer
then, and `sysReadI2C16` stores that buffer in any case; `ina3221_get_chan`
overwrites it with 0 and tells its caller, which keeps what was stored.

So a channel always shows the two registers of the latest round in which
both of its own transfers went well (`stored_reading_latest_good`). The
polls of `Ina3221` are these rounds without their bytes
(`run_roundPolls`).
-/

namespace Seatel

open Runs

/-- The status of an I2C transfer is `MSG_OK`, and `rxbuf` after it. -/
structure I2cTransfer where
  ok : Bool
  rx0 : UInt8
  rx1 : UInt8
deriving Repr, DecidableEq

/-- The transfers of a round, by the address of the chip and the register. -/
def I2cRound := UInt8 → UInt8 → I2cTransfer

/-- `*val` and the result. -/
def sysReadI2C16 (i2c : I2cRound) (addr reg : UInt8) : UInt16 × Bool :=
  let t := i2c addr reg
  ((t.rx0.toUInt16 <<< 8) ||| t.rx1.toUInt16, t.ok)

/-- `pcfg_40` and `pcfg_41`. -/
inductive PwrUnitCfg where
  | pcfg40
  | pcfg41
deriving Repr, DecidableEq

def PwrUnitCfg.addr : PwrUnitCfg → UInt8
  | .pcfg40 => 0x40
  | .pcfg41 => 0x41

def ina3221Chan1Regs : UInt8 := 0x01

def ina3221Chan2Regs : UInt8 := 0x03

def ina3221Chan3Regs : UInt8 := 0x05

/-- `ina3221_get_chan` over the bus. -/
def ina3221GetChanI2c (i2c : I2cRound) (pcfg : PwrUnitCfg) (addr : UInt8) : InaChan × Bool :=
  let (val, ok) := sysReadI2C16 i2c pcfg.addr addr
  let (shunt, ret) := if ok then (val.toInt16, false) else (0, true)
  let (val, ok) := sysReadI2C16 i2c pcfg.addr (addr + 1)
  let (bus, ret) := if ok then (val.toInt16, ret) else (0, true)
  (⟨shunt, bus⟩, !ret)

/-- `ina3221_update_chan` over the bus. -/
def ina3221UpdateChanI2c (i2c : I2cRound) (pcfg : PwrUnitCfg) (c : MonChan) (addr : UInt8)
    (mon : MonChan → Mon) : MonChan → Mon :=
  let (chan, ok) := ina3221GetChanI2c i2c pcfg addr
  if ok then Function.update mon c ⟨chan.bus.toInt32, chan.shunt.toInt32⟩ else mon

/-- The body of the loop of `ina3221_thd`. -/
def ina3221Thd (mon : MonChan → Mon) (i2c : I2cRound) : MonChan → Mon :=
  let mon := ina3221UpdateChanI2c i2c .pcfg40 .ch1 ina3221Chan1Regs mon
  let mon := ina3221UpdateChanI2c i2c .pcfg40 .ch2 ina3221Chan2Regs mon
  let mon := ina3221UpdateChanI2c i2c .pcfg40 .ch3 ina3221Chan3Regs mon
  let mon := ina3221UpdateChanI2c i2c .pcfg41 .ch4 ina3221Chan1Regs mon
  let mon := ina3221UpdateChanI2c i2c .pcfg41 .ch5 ina3221Chan2Regs mon
  ina3221UpdateChanI2c i2c .pcfg41 .ch6 ina3221Chan3Regs mon

/-! ## What a channel should show -/

/-- The chip of a channel. -/
def MonChan.chip : MonChan → UInt8
  | .ch1 | .ch2 | .ch3 => 0x40
  | .ch4 | .ch5 | .ch6 => 0x41

/-- Its shunt voltage register. -/
def MonChan.shuntReg : MonChan → UInt8
  | .ch1 | .ch4 => 1
  | .ch2 | .ch5 => 3
  | .ch3 | .ch6 => 5

/-- Its bus voltage register. -/
def MonChan.busReg : MonChan → UInt8
  | .ch1 | .ch4 => 2
  | .ch2 | .ch5 => 4
  | .ch3 | .ch6 => 6

/-- The signed number in a register, high byte first. -/
def I2cTransfer.signed (t : I2cTransfer) : Int :=
  256 * t.rx0.toNat + t.rx1.toNat - if t.rx0.toNat < 128 then 0 else 65536

/-- The bus and the shunt voltage of a channel in a round, when both were transferred. -/
def MonChan.reading (c : MonChan) (i2c : I2cRound) : Option (Int × Int) :=
  if (i2c c.chip c.shuntReg).ok && (i2c c.chip c.busReg).ok then
    some ((i2c c.chip c.busReg).signed, (i2c c.chip c.shuntReg).signed)
  else none

/-- The stored pair. -/
def Mon.pair (m : Mon) : Int × Int := (m.busVolt.toInt, m.shuntVolt.toInt)

/-! ## Registers -/

theorem sysReadI2C16_signed (i2c : I2cRound) (addr reg : UInt8) :
    (sysReadI2C16 i2c addr reg).1.toInt16.toInt32.toInt = (i2c addr reg).signed := by
  have hhi : (i2c addr reg).rx0.toNat < 256 := (i2c addr reg).rx0.toNat_lt
  have hlo : (i2c addr reg).rx1.toNat < 256 := (i2c addr reg).rx1.toNat_lt
  have hval : (sysReadI2C16 i2c addr reg).1.toNat
      = 256 * (i2c addr reg).rx0.toNat + (i2c addr reg).rx1.toNat := CInt.toNat_bytes _ _
  obtain ⟨k, hk⟩ := CInt.toInt_toInt16 (sysReadI2C16 i2c addr reg).1
  have hmem := CInt.toInt16_mem (sysReadI2C16 i2c addr reg).1.toInt16
  rw [Int16.toInt_toInt32, hk, I2cTransfer.signed]
  rw [hk] at hmem
  split <;> omega

/-- What a transfer hands on: a register, or nothing when it fails. -/
def transferred (i2c : I2cRound) (addr reg : UInt8) : Option Int16 :=
  if (i2c addr reg).ok then some (sysReadI2C16 i2c addr reg).1.toInt16 else none

/-- The bytes of a failed transfer are gone. -/
theorem ina3221GetChanI2c_eq (i2c : I2cRound) (pcfg : PwrUnitCfg) (addr : UInt8) :
    ina3221GetChanI2c i2c pcfg addr
      = ina3221GetChan (transferred i2c pcfg.addr addr) (transferred i2c pcfg.addr (addr + 1)) := by
  cases hshunt : (i2c pcfg.addr addr).ok <;> cases hbus : (i2c pcfg.addr (addr + 1)).ok <;>
    simp [ina3221GetChanI2c, ina3221GetChan, transferred, sysReadI2C16, hshunt, hbus]

theorem ina3221UpdateChanI2c_eq (i2c : I2cRound) (pcfg : PwrUnitCfg) (c : MonChan) (addr : UInt8)
    (mon : MonChan → Mon) :
    ina3221UpdateChanI2c i2c pcfg c addr mon
      = Function.update mon c (ina3221UpdateChan (transferred i2c pcfg.addr addr)
          (transferred i2c pcfg.addr (addr + 1)) (mon c)) := by
  simp only [ina3221UpdateChanI2c, ina3221UpdateChan, ina3221GetChanI2c_eq]
  split
  · rfl
  · rw [Function.update_eq_self]

/-! ## Rounds -/

/-- A poll of a channel reads its own registers of its own chip. -/
def MonChan.poll (c : MonChan) (i2c : I2cRound) : InaAct :=
  .poll c (transferred i2c c.chip c.shuntReg) (transferred i2c c.chip c.busReg)

/-- A round is a poll of every channel. -/
def roundPolls (i2c : I2cRound) : List InaAct :=
  [MonChan.ch1, .ch2, .ch3, .ch4, .ch5, .ch6].map (·.poll i2c)

theorem run_roundPolls {ω : Type} (watt : Int32 → Int32 → ω) (s : Ina ω) (i2c : I2cRound) :
    (run (inaNext watt) s (roundPolls i2c)).mon = ina3221Thd s.mon i2c := by
  simp only [ina3221Thd, ina3221UpdateChanI2c_eq]
  rfl

/-- In a round a channel is updated from its own registers, and from nothing else. -/
theorem ina3221Thd_apply (mon : MonChan → Mon) (i2c : I2cRound) (c : MonChan) :
    ina3221Thd mon i2c c = ina3221UpdateChan (transferred i2c c.chip c.shuntReg)
      (transferred i2c c.chip c.busReg) (mon c) := by
  simp only [ina3221Thd, ina3221UpdateChanI2c_eq]
  cases c <;> rfl

/-- A round brings the reading of a channel, or leaves the pair as it was. -/
theorem ina3221Thd_pair (mon : MonChan → Mon) (i2c : I2cRound) (c : MonChan) :
    (ina3221Thd mon i2c c).pair = (c.reading i2c).getD (mon c).pair := by
  have hshunt := sysReadI2C16_signed i2c c.chip c.shuntReg
  have hbus := sysReadI2C16_signed i2c c.chip c.busReg
  rw [ina3221Thd_apply, ina3221UpdateChan, ina3221GetChan, transferred, transferred,
    MonChan.reading]
  cases (i2c c.chip c.shuntReg).ok with
  | false => rfl
  | true =>
      cases (i2c c.chip c.busReg).ok with
      | false => rfl
      | true => exact Prod.ext hbus hshunt

/-- From any state on. -/
theorem run_ina3221Thd (mon : MonChan → Mon) (rounds : List I2cRound) (c : MonChan) :
    (run ina3221Thd mon rounds c).pair
      = (rounds.filterMap c.reading).getLast?.getD (mon c).pair := by
  induction rounds generalizing mon with
  | nil => rfl
  | cons i2c rounds ih =>
      rw [run_cons, ih, ina3221Thd_pair, List.filterMap_cons]
      cases c.reading i2c with
      | none => rfl
      | some pair => rw [List.getLast?_cons, Option.getD_some, Option.getD_some]

/-- After any number of rounds, with any failures and any bytes, a channel shows the
bus and the shunt voltage of the latest round in which both were transferred, and
zeros if there was none. -/
theorem stored_reading_latest_good (rounds : List I2cRound) (c : MonChan) :
    (run ina3221Thd (fun _ => {}) rounds c).pair
      = (rounds.filterMap c.reading).getLast?.getD (0, 0) :=
  run_ina3221Thd (fun _ => {}) rounds c

end Seatel
