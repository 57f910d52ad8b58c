import Seatel.Ctrl

/-!
# The azimuth position loop

`case MOTOR_STATE_TARGET_POSITION` decides with three comparisons on the
unsigned difference `dir_diff` of target and position: whether the error
is inside the null zone, which way is the shorter one, and how long it
is. Read as the signed error on the circle (`azError`), the direction and
the distance are its sign and its magnitude, and the null zone is
-46 ≤ e ≤ 45: the upper comparison `UINT16_MAX-nullzone > dir_diff` is
one count off, so that the loop is not symmetric.
-/

namespace Seatel

open CInt

/-! ## The error on the circle -/

/-- Target minus position, from -32768 to 32767. -/
def azError (v : Vars) : Int :=
  Int.bmod (v.ctrl.azTgtPos.toNat - (v.mde.encAz.toNat + v.mde.encAzOff.toNat)) 65536

/-- Half the error, between 2°/s and 30°/s, towards the target. -/
def azIdealSpd (e : Int) : Int := e.sign * (min (max (e.natAbs / 2) 364) 5460 : Nat)

/-- The branch of the iteration: outside the null zone. -/
def azDrives (fpu : Fpu) (v : Vars) : Bool := azOutsideNullzone (azTgt fpu v - azEnc v)

/-- The holding torque, in the direction of the torque before. -/
def azHoldTrq (v : Vars) : Int8 := if v.mde.motorAz.toInt > 0 then 3 else -3

/-- What an iteration in position mode owes a target that stands still. -/
structure AzPositionOk (fpu : Fpu) (v : Vars) : Prop where
  hold : (azError v).natAbs ≤ 45 → (ctrlAxes fpu v).az = { v.az with motor := azHoldTrq v }
  drive : 45 < (azError v).natAbs →
    (ctrlAxes fpu v).ctrl.azTgtSpd.toInt = azIdealSpd (azError v)
  /-- The error on the other side is treated alike. -/
  mirror : azError v ≠ -32768 → ∀ w : Vars, w.ctrl.azState = .targetPosition →
    w.ctrl.azTgtPosSpd = 0 → azError w = -azError v →
    azDrives fpu w = azDrives fpu v
      ∧ (azDrives fpu v = true → (ctrlAxes fpu w).ctrl.azTgtSpd.toInt
          = -(ctrlAxes fpu v).ctrl.azTgtSpd.toInt)

theorem azError_mem (v : Vars) : -32768 ≤ azError v ∧ azError v ≤ 32767 := bmod_mem _

/-- `dir_diff` is the error modulo one turn. -/
theorem dirDiff_toNat (fpu : Fpu) {v : Vars} (hstill : v.ctrl.azTgtPosSpd = 0) :
    ((azTgt fpu v - azEnc v).toNat : Int) = azError v % 65536 := by
  obtain ⟨k, hk⟩ := bmod_spec
    (v.ctrl.azTgtPos.toNat - (v.mde.encAz.toNat + v.mde.encAzOff.toNat)) 65536
  have htgt : v.ctrl.azTgtPos.toNat < 65536 := v.ctrl.azTgtPos.toNat_lt
  rw [azTgt_of_still fpu hstill, azError, hk, UInt16.toNat_sub, azEnc, UInt16.toNat_add]
  omega

/-! ## Decision, direction and distance -/

/-- The null zone reaches one count further on the negative side. -/
theorem azDrives_iff (fpu : Fpu) {v : Vars} (hstill : v.ctrl.azTgtPosSpd = 0) :
    azDrives fpu v = true ↔ azError v < -46 ∨ 45 < azError v := by
  have hdiff := dirDiff_toNat fpu hstill
  obtain ⟨hlo, hhi⟩ := azError_mem v
  rw [azDrives, azOutsideNullzone, azNullzone, Bool.and_eq_true, decide_eq_true_iff,
    decide_eq_true_iff]
  omega

/-- The shorter of the two ways has the length of the error. -/
theorem azDist_toNat (fpu : Fpu) {v : Vars} (hstill : v.ctrl.azTgtPosSpd = 0) :
    (if azTgt fpu v - azEnc v < azEnc v - azTgt fpu v then azTgt fpu v - azEnc v
      else azEnc v - azTgt fpu v).toNat = (azError v).natAbs := by
  have hdiff := dirDiff_toNat fpu hstill
  obtain ⟨hlo, hhi⟩ := azError_mem v
  have hback : (azEnc v - azTgt fpu v).toNat = (65536 - (azTgt fpu v - azEnc v).toNat) % 65536 := by
    have htgt : (azTgt fpu v).toNat < 65536 := (azTgt fpu v).toNat_lt
    have henc : (azEnc v).toNat < 65536 := (azEnc v).toNat_lt
    rw [UInt16.toNat_sub, UInt16.toNat_sub]
    omega
  split
  · rename_i hlt
    rw [UInt16.lt_iff_toNat_lt] at hlt
    omega
  · rename_i hge
    rw [UInt16.lt_iff_toNat_lt] at hge
    omega

theorem sign_cases {e : Int} (hne : e ≠ 0) : (e < 0 ∧ e.sign = -1) ∨ (0 < e ∧ e.sign = 1) := by
  rcases Int.lt_or_gt_of_ne hne with hneg | hpos
  · exact Or.inl ⟨hneg, Int.sign_eq_neg_one_of_neg hneg⟩
  · exact Or.inr ⟨hpos, Int.sign_eq_one_of_pos hpos⟩

/-- Both limits are `int16_t` in either direction. -/
theorem toInt_limits {dir : Int} (hdir : dir = -1 ∨ dir = 1) :
    (Int16.ofInt (dir * 2 * 182)).toInt = dir * 364
      ∧ (Int16.ofInt (dir * 30 * 182)).toInt = dir * 5460 := by
  rcases hdir with rfl | rfl
  · exact ⟨rfl, rfl⟩
  · exact ⟨rfl, rfl⟩

section Approach

variable {e : Int} (hlo : -32768 ≤ e) (hhi : e ≤ 32767) (hne : e ≠ 0)

include hlo hhi hne

/-- Below half a turn `dir_diff` stands for a positive error. -/
theorem azDir_eq {dirDiff : UInt16} (hdiff : (dirDiff.toNat : Int) = e % 65536) :
    (if dirDiff.toNat < 32768 then (1 : Int) else -1) = e.sign := by
  rcases sign_cases hne with ⟨hneg, hsign⟩ | ⟨hpos, hsign⟩
  · rw [hsign, if_neg (by omega)]
  · rw [hsign, if_pos (by omega)]

/-- Half the error is an `int16_t`. -/
theorem toInt_half : (Int16.ofInt ((e.sign * (e.natAbs : Int)).tdiv 2)).toInt
    = e.sign * (e.natAbs / 2 : Nat) := by
  rw [Int.sign_mul_natAbs]
  obtain ⟨k, hk⟩ := toInt_ofInt16 (e.tdiv 2)
  obtain ⟨h1, h2⟩ := toInt16_mem (Int16.ofInt (e.tdiv 2))
  have hq := tdiv_spec e (show (0 : Int) < 2 by decide)
  rcases sign_cases hne with ⟨hneg, hsign⟩ | ⟨hpos, hsign⟩
  · rw [hsign]
    omega
  · rw [hsign]
    omega

/-- The stored speed is the ideal one: no assignment to it overflows. -/
theorem azApproachSpd_eq {dirDiff dist : UInt16} (hdiff : (dirDiff.toNat : Int) = e % 65536)
    (hdist : dist.toNat = e.natAbs) : (azApproachSpd dirDiff dist).toInt = azIdealSpd e := by
  have hsign : e.sign = -1 ∨ e.sign = 1 := (sign_cases hne).imp And.right And.right
  have hhalf := toInt_half hlo hhi hne
  obtain ⟨hmin, hmax⟩ := toInt_limits hsign
  simp only [azApproachSpd, azDir_eq hlo hhi hne hdiff, hdist, azIdealSpd]
  generalize Int16.ofInt ((e.sign * (e.natAbs : Int)).tdiv 2) = spd at *
  generalize e.sign = dir at *
  split
  · rw [hmin, if_neg (by rcases hsign with rfl | rfl <;> decide), hmin]
    rcases hsign with rfl | rfl <;> omega
  · split
    · rw [hmax]
      rcases hsign with rfl | rfl <;> omega
    · rw [hhalf]
      rcases hsign with rfl | rfl <;> omega

end Approach

/-! ## The iteration -/

theorem ctrlAxes_drive (fpu : Fpu) {v : Vars} (hmode : v.ctrl.azState = .targetPosition)
    (hstill : v.ctrl.azTgtPosSpd = 0) (hdrive : azDrives fpu v = true) :
    (ctrlAxes fpu v).ctrl.azTgtSpd.toInt = azIdealSpd (azError v) := by
  have hview := congrArg AzView.tgtSpd (ctrlAxes_az fpu v)
  have hrange := (azDrives_iff fpu hstill).mp hdrive
  obtain ⟨hlo, hhi⟩ := azError_mem v
  rw [azDrives] at hdrive
  simp only [azControl, hmode, azTargetPosition, hdrive, if_true] at hview
  rw [show (ctrlAxes fpu v).ctrl.azTgtSpd = _ from hview]
  exact azApproachSpd_eq hlo hhi (by omega) (dirDiff_toNat fpu hstill) (azDist_toNat fpu hstill)

theorem ctrlAxes_hold (fpu : Fpu) {v : Vars} (hmode : v.ctrl.azState = .targetPosition)
    (hhold : azDrives fpu v = false) :
    (ctrlAxes fpu v).az = { v.az with motor := azHoldTrq v } := by
  rw [azDrives] at hhold
  rw [ctrlAxes_az]
  simp only [azControl, hmode, azTargetPosition, hhold, Bool.false_eq_true, if_false]
  rfl

theorem azIdealSpd_neg (e : Int) : azIdealSpd (-e) = -azIdealSpd e := by
  rw [azIdealSpd, azIdealSpd, Int.sign_neg, Int.natAbs_neg, Int.neg_mul]

/-- A target with this error. -/
def Vars.withAzError (v : Vars) (e : Int) : Vars :=
  { v with ctrl := { v.ctrl with
      azTgtPos := UInt16.ofInt (v.mde.encAz.toNat + v.mde.encAzOff.toNat + e) } }

theorem azError_withAzError (v : Vars) {e : Int} (hlo : -32768 ≤ e) (hhi : e ≤ 32767) :
    azError (v.withAzError e) = e := by
  have hpos := toNat_ofIntU16 (v.mde.encAz.toNat + v.mde.encAzOff.toNat + e)
  obtain ⟨k, hk⟩ := bmod_spec ((v.withAzError e).ctrl.azTgtPos.toNat
    - (v.mde.encAz.toNat + v.mde.encAzOff.toNat)) 65536
  obtain ⟨h1, h2⟩ := azError_mem (v.withAzError e)
  have herr : azError (v.withAzError e) = _ := hk
  have htgt : (v.withAzError e).ctrl.azTgtPos
      = UInt16.ofInt (v.mde.encAz.toNat + v.mde.encAzOff.toNat + e) := rfl
  rw [htgt, hpos] at herr
  omega

/-- In position mode, with a target that stands still, the iteration holds inside
±45 counts, drives at the ideal speed outside and treats both sides alike exactly
when the error is not 46 counts to either side. -/
theorem az_position_symmetric_iff (fpu : Fpu) (v : Vars)
    (hmode : v.ctrl.azState = .targetPosition) (hstill : v.ctrl.azTgtPosSpd = 0) :
    AzPositionOk fpu v ↔ azError v ≠ 46 ∧ azError v ≠ -46 := by
  obtain ⟨hlo, hhi⟩ := azError_mem v
  have hdrives := azDrives_iff fpu hstill
  constructor
  · intro h
    -- the target on the other side
    have hmirror : ∀ e, azError v = -e → -32767 ≤ e → e ≤ 32767 →
        (azDrives fpu v = true ↔ e < -46 ∨ 45 < e) := by
      intro e he h1 h2
      have hw := azError_withAzError v (show -32768 ≤ e by omega) h2
      have heq := (h.mirror (by omega) (v.withAzError e) hmode hstill (by omega)).1
      rw [← heq, azDrives_iff fpu (v := v.withAzError e) hstill, hw]
    constructor
    · intro he
      have hside := hmirror (-46) (by omega) (by decide) (by decide)
      rw [hdrives] at hside
      omega
    · intro he
      have hside := hmirror 46 (by omega) (by decide) (by decide)
      rw [hdrives] at hside
      omega
  · rintro ⟨hpos, hneg⟩
    refine ⟨fun hin => ?_, fun hout => ?_, ?_⟩
    · refine ctrlAxes_hold fpu hmode ?_
      rw [← Bool.not_eq_true, hdrives]
      omega
    · exact ctrlAxes_drive fpu hmode hstill (hdrives.mpr (by omega))
    · intro hmin w hmode' hstill' herr
      have hdrives' := azDrives_iff fpu hstill'
      have heq : azDrives fpu w = azDrives fpu v := by
        rw [Bool.eq_iff_iff, hdrives, hdrives', herr]
        omega
      refine ⟨heq, fun hdrive => ?_⟩
      rw [ctrlAxes_drive fpu hmode hstill hdrive,
        ctrlAxes_drive fpu hmode' hstill' (heq.trans hdrive), herr, azIdealSpd_neg]

/-- 10° to the right of the target. -/
theorem az_position_symmetric_ten_degrees :
    AzPositionOk Fpu.modular
      { ctrl := { azState := .targetPosition }, mde := { encAz := 1820 } } :=
  (az_position_symmetric_iff Fpu.modular _ rfl rfl).mpr ⟨by decide, by decide⟩

/-- At an error of -46 counts the loop holds and keeps the target speed, at one of
46 it drives. -/
theorem az_position_lopsided :
    azError { ctrl := { azState := .targetPosition }, mde := { encAz := 46 } } = -46
      ∧ (ctrlAxes Fpu.modular
          { ctrl := { azState := .targetPosition }, mde := { encAz := 46 } }).ctrl.azTgtSpd = 0
      ∧ azIdealSpd (-46) = -364
      ∧ (ctrlAxes Fpu.modular
          { ctrl := { azState := .targetPosition, azTgtPos := 46 } }).ctrl.azTgtSpd = 364 := by
  refine ⟨by decide, by decide +kernel, by decide, by decide +kernel⟩

end Seatel
