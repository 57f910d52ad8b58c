import Seatel.CInt
import Seatel.Mde

/-!
# The words on the MDE bus

Every word carries odd parity in its 16 bits. For the literal words this
is a computation; for the torque words it is what the last line of
`mde_cmd_set_mot_trq` arranges, because the three fields it packs leave
bit 0 clear. The packed word is brought into positional form
(`mdeCmdSetMotTrq_toNat`), from which the fields are read back by
arithmetic.
-/

namespace Seatel

open Parity

def OddParity (w : UInt16) : Prop := ones 16 w.toNat % 2 = 1

instance (w : UInt16) : Decidable (OddParity w) := inferInstanceAs (Decidable (_ = _))

/-- Bits 15..12. -/
def topNibble (w : UInt16) : Nat := w.toNat / 4096

/-- Bits 11..9 of a torque word. -/
def trqMotor (w : UInt16) : UInt8 := ((w >>> 9) &&& 0x7).toUInt8

/-- Bits 8..1 of a torque word, in two's complement. -/
def trqTorque (w : UInt16) : Int8 := ((w >>> 1) &&& 0xff).toUInt8.toInt8

/-! ## Counting bits -/

/-- The loop adds the ones of the bits it is given fuel for; `cntr` has room
for them. -/
theorem bitCountLoop_toNat (fuel : Nat) (n : UInt16) (cntr : UInt8)
    (h : cntr.toNat + fuel < 256) :
    (bitCountLoop fuel n cntr).toNat = cntr.toNat + ones fuel n.toNat := by
  induction fuel generalizing n cntr with
  | zero => rfl
  | succ fuel ih =>
      rw [bitCountLoop]
      split
      · rename_i hn
        subst hn
        simp
      · have hshift : (n >>> 1).toNat = n.toNat / 2 := by
          rw [UInt16.toNat_shiftRight, Nat.shiftRight_eq_div_pow]
          rfl
        have hbit : ((n % 2).toUInt8).toNat = n.toNat % 2 := by
          rw [UInt16.toNat_toUInt8, UInt16.toNat_mod, show (2 : UInt16).toNat = 2 from rfl]
          omega
        have hadd : (cntr + (n % 2).toUInt8).toNat = cntr.toNat + n.toNat % 2 := by
          rw [UInt8.toNat_add, hbit]
          omega
        rw [ih _ _ (by omega), hadd, hshift, ones]
        omega

theorem bitCount_toNat (n : UInt16) : (bitCount n).toNat = ones 16 n.toNat := by
  rw [bitCount, bitCountLoop_toNat 16 n 0 (by decide)]
  exact Nat.zero_add _

/-- Sixteen rounds empty the word: with more fuel the loop does not run on. -/
theorem bitCountLoop_add (fuel extra : Nat) (n : UInt16) (cntr : UInt8)
    (h : n.toNat < 2 ^ fuel) :
    bitCountLoop (fuel + extra) n cntr = bitCountLoop fuel n cntr := by
  induction fuel generalizing n cntr with
  | zero =>
      have hn : n = 0 := UInt16.toNat_inj.mp (by simpa using h)
      subst hn
      cases extra <;> rfl
  | succ fuel ih =>
      rw [Nat.add_right_comm, bitCountLoop, bitCountLoop]
      split
      · rfl
      · refine ih _ _ ?_
        rw [UInt16.toNat_shiftRight, Nat.shiftRight_eq_div_pow]
        have : n.toNat / 2 < 2 ^ fuel := by omega
        simpa using this

/-! ## The torque word -/

/-- The word without its parity bit. -/
def trqFields (motor : UInt8) (speed : Int8) : Nat :=
  0b1110 * 4096 + motor.toNat % 8 * 512 + speed.toUInt8.toNat * 2

/-- The fields do not overlap, so the word is their positional sum. -/
theorem trqFields_eq (motor : UInt8) (speed : Int8) :
    (((0b1110 : UInt16) <<< 12) ||| ((motor &&& 0x7).toUInt16 <<< 9)
      ||| (speed.toUInt8.toUInt16 <<< 1)).toNat = trqFields motor speed := by
  have hspd : speed.toUInt8.toNat < 256 := speed.toUInt8.toNat_lt
  have hmot : (motor &&& 0x7).toNat = motor.toNat % 8 :=
    (UInt8.toNat_and motor 7).trans (Nat.and_two_pow_sub_one_eq_mod motor.toNat 3)
  have h9 : (((motor &&& 0x7).toUInt16) <<< 9).toNat = 2 ^ 9 * (motor.toNat % 8) := by
    rw [UInt16.toNat_shiftLeft, UInt8.toNat_toUInt16, hmot, Nat.shiftLeft_eq,
      show (9 : UInt16).toNat % 16 = 9 from rfl]
    omega
  have h1 : (speed.toUInt8.toUInt16 <<< 1).toNat = speed.toUInt8.toNat * 2 := by
    rw [UInt16.toNat_shiftLeft, UInt8.toNat_toUInt16, Nat.shiftLeft_eq,
      show (1 : UInt16).toNat % 16 = 1 from rfl]
    omega
  have h12 : ((0b1110 : UInt16) <<< 12).toNat = 2 ^ 12 * 0b1110 := rfl
  rw [UInt16.toNat_or, UInt16.toNat_or, h12, h9, h1,
    ← Nat.two_pow_add_eq_or_of_lt (by omega : 2 ^ 9 * (motor.toNat % 8) < 2 ^ 12)]
  rw [show 2 ^ 12 * 0b1110 + 2 ^ 9 * (motor.toNat % 8)
      = 2 ^ 9 * (0b1110 * 8 + motor.toNat % 8) by omega,
    ← Nat.two_pow_add_eq_or_of_lt (by omega : speed.toUInt8.toNat * 2 < 2 ^ 9)]
  unfold trqFields
  omega

/-- The parity bit goes into a clear bit 0, and makes the number of ones odd. -/
theorem or_crc_toNat {cmd : UInt16} (heven : cmd.toNat % 2 = 0) :
    (cmd ||| (if bitCount cmd &&& 0x1 = 0 then 1 else 0)).toNat
      = cmd.toNat + if ones 16 cmd.toNat % 2 = 0 then 1 else 0 := by
  have hcrc : (bitCount cmd &&& 0x1 = 0) ↔ ones 16 cmd.toNat % 2 = 0 := by
    rw [← bitCount_toNat, ← UInt8.toNat_inj, UInt8.toNat_and]
    exact (congrArg (· = 0) (Nat.and_one_is_mod (bitCount cmd).toNat)).to_iff
  have hhalf : cmd.toNat = 2 ^ 1 * (cmd.toNat / 2) := by omega
  rw [UInt16.toNat_or, if_congr hcrc rfl rfl]
  split
  · rw [hhalf]
    exact (Nat.two_pow_add_eq_or_of_lt (by decide) _).symm
  · exact Nat.or_zero _

theorem mdeCmdSetMotTrq_toNat (motor : UInt8) (speed : Int8) :
    (mdeCmdSetMotTrq motor speed).toNat = trqFields motor speed
      + if ones 16 (trqFields motor speed) % 2 = 0 then 1 else 0 := by
  have heven : trqFields motor speed % 2 = 0 := by
    unfold trqFields
    omega
  rw [mdeCmdSetMotTrq, or_crc_toNat (by rw [trqFields_eq, heven]), trqFields_eq]

theorem mdeCmdSetMotTrq_oddParity (motor : UInt8) (speed : Int8) :
    OddParity (mdeCmdSetMotTrq motor speed) := by
  have heven : trqFields motor speed % 2 = 0 := by
    unfold trqFields
    omega
  have hone : ones 16 (trqFields motor speed + 1) = ones 16 (trqFields motor speed) + 1 :=
    ones_add_one heven
  rw [OddParity, mdeCmdSetMotTrq_toNat]
  split
  · rw [hone]
    omega
  · rw [Nat.add_zero]
    omega

theorem topNibble_mdeCmdSetMotTrq (motor : UInt8) (speed : Int8) :
    topNibble (mdeCmdSetMotTrq motor speed) = 0b1110 := by
  have hspd : speed.toUInt8.toNat < 256 := speed.toUInt8.toNat_lt
  rw [topNibble, mdeCmdSetMotTrq_toNat, trqFields]
  split <;> omega

theorem trqMotor_mdeCmdSetMotTrq (motor : UInt8) (speed : Int8) :
    trqMotor (mdeCmdSetMotTrq motor speed) = motor &&& 0x7 := by
  have hspd : speed.toUInt8.toNat < 256 := speed.toUInt8.toNat_lt
  have hmot : (motor &&& 0x7).toNat = motor.toNat % 8 :=
    (UInt8.toNat_and motor 7).trans (Nat.and_two_pow_sub_one_eq_mod motor.toNat 3)
  have hw : (mdeCmdSetMotTrq motor speed).toNat / 512 % 8 = motor.toNat % 8 := by
    rw [mdeCmdSetMotTrq_toNat, trqFields]
    split <;> omega
  apply UInt8.toNat_inj.mp
  rw [trqMotor, UInt16.toNat_toUInt8, UInt16.toNat_and, UInt16.toNat_shiftRight,
    Nat.shiftRight_eq_div_pow, hmot, show (9 : UInt16).toNat % 16 = 9 from rfl,
    show (0x7 : UInt16).toNat = 2 ^ 3 - 1 from rfl, Nat.and_two_pow_sub_one_eq_mod]
  omega

theorem trqTorque_mdeCmdSetMotTrq (motor : UInt8) (speed : Int8) :
    trqTorque (mdeCmdSetMotTrq motor speed) = speed := by
  have hspd : speed.toUInt8.toNat < 256 := speed.toUInt8.toNat_lt
  have hw : (mdeCmdSetMotTrq motor speed).toNat / 2 % 256 = speed.toUInt8.toNat := by
    rw [mdeCmdSetMotTrq_toNat, trqFields]
    split <;> omega
  have hbyte : (((mdeCmdSetMotTrq motor speed) >>> 1) &&& 0xff).toUInt8 = speed.toUInt8 := by
    apply UInt8.toNat_inj.mp
    rw [UInt16.toNat_toUInt8, UInt16.toNat_and, UInt16.toNat_shiftRight,
      Nat.shiftRight_eq_div_pow, show (1 : UInt16).toNat % 16 = 1 from rfl,
      show (0xff : UInt16).toNat = 2 ^ 8 - 1 from rfl, Nat.and_two_pow_sub_one_eq_mod]
    omega
  rw [trqTorque, hbyte]
  exact Int8.toInt8_toUInt8 speed

/-- A single flipped bit is seen by the parity check. -/
theorem not_oddParity_xor {w : UInt16} (hw : OddParity w) {i : Nat} (hi : i < 16) :
    ¬ OddParity (w ^^^ UInt16.ofNat (2 ^ i)) := by
  have hpow : 2 ^ i < 65536 := Nat.pow_lt_pow_right (by decide) hi
  have hbit : (UInt16.ofNat (2 ^ i)).toNat = 2 ^ i := by
    rw [UInt16.toNat_ofNat']
    exact Nat.mod_eq_of_lt hpow
  have hflip := ones_xor_two_pow hi w.toNat
  rw [OddParity] at hw ⊢
  rw [UInt16.toNat_xor, hbit]
  omega

/-- A torque word is packed from the variable of its motor, as it stands when
the word is sent. -/
theorem mdeStep_torque {fpu : Fpu} {miso : UInt16} {v : Vars} {t : MdeThd} {m : Motor}
    {w : UInt16} (h : .torque m w ∈ (mdeStep fpu miso v t).events) :
    w = mdeCmdSetMotTrq m.code (v.mde.motor m) := by
  have hgate : ∀ v, BusEvent.torque m w ∉ (mdeGate v t).events := by
    intro v
    unfold mdeGate
    split <;> simp
  have htest : ∀ v, BusEvent.torque m w ∉ (mdePowerUpTest v t).events := by
    intro v
    unfold mdePowerUpTest
    split
    · simp
    · exact hgate v
  have hinit : ∀ rest, BusEvent.torque m w ∉ (mdeInit rest v t).events := by
    intro rest
    unfold mdeInit
    split
    · simp
    · simp
    · exact hgate _
  unfold mdeStep at h
  split at h
  · unfold mdeTop at h
    split at h
    · simp at h
    · exact absurd h (htest _)
  · exact absurd h (htest _)
  · split at h <;> simp at h
  · exact absurd h (hinit _)
  · exact absurd h (hinit _)
  · simp only at h
    split at h
    · simp at h
    · simp only [mdeTorque, List.mem_singleton, BusEvent.torque.injEq] at h
      obtain ⟨rfl, rfl⟩ := h
      rfl
  · simp only [mdeTorque, List.mem_singleton, BusEvent.torque.injEq] at h
    obtain ⟨rfl, rfl⟩ := h
    rfl
  · simp only [mdeTorque, List.mem_singleton, BusEvent.torque.injEq] at h
    obtain ⟨rfl, rfl⟩ := h
    rfl
  · simp at h

/-! ## The literal words -/

/-- The words of a stretch of the initialisation script. -/
def initWordsOf : List InitOp → List UInt16
  | [] => []
  | .exchange mosi :: rest => mosi :: initWordsOf rest
  | .sleep _ :: rest => initWordsOf rest

def initWords : List UInt16 := initWordsOf initScript

def wordOk (w : UInt16) : Bool := OddParity w ∧ topNibble w ≠ 0b1110

theorem initWords_check {w : UInt16} (hw : w ∈ initWords) :
    OddParity w ∧ topNibble w ≠ 0b1110 := by
  have hall : initWords.all wordOk = true := by decide
  exact of_decide_eq_true (List.all_eq_true.mp hall w hw)

theorem pollWords_check {w : UInt16} (hw : w ∈ pollWords) :
    OddParity w ∧ topNibble w ≠ 0b1110 := by
  have hall : pollWords.all wordOk = true := by decide
  exact of_decide_eq_true (List.all_eq_true.mp hall w hw)

end Seatel
