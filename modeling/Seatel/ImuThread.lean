import Mathlib.Algebra.Order.BigOperators.Group.List
import Seatel.System

/-!
# The IMU thread

The loop of `imu.c`: six replies on the SPI bus with a sleep after each,
then the calculation of the elevation and the 3 ms sleep. The speed of
the elevation is averaged over five readings of the gyro against the zero
`imu_rot_y0`; `imu_calibrate` replaces that zero from another thread, at
any of the sleeps, also between the reading of the gyro and the
calculation that uses it. Nothing limits the calls under way, so they
are a list.

The monitor collects the readings of the window that is being averaged,
each with the zero it was compared with. The accumulator is the exact sum
over them (`ImuInv`), for any gyro. Only the quotient needs the limits of
the failsafe: inside them eleven times a difference fits `int16_t`
whatever the zero is, as long as the zero is an average of 12-bit
readings.

`atan` in `double` stays an arbitrary function of the two accelerations.
-/

namespace Seatel

open Runs CInt

/-! ## The thread -/

/-- What the thread waits for: a reply on the bus, or the sleep before the calculation. -/
inductive ImuPc where
  | accelZ
  | accelX
  | accelY
  | rotX
  | rotY
  | rotZ
  | calculate
deriving Repr, DecidableEq

/-- The thread and its locals. -/
structure ImuThd where
  pc : ImuPc := .accelZ
  accu : Int32 := 0
  cntr : UInt8 := 0
deriving Repr, DecidableEq

/-- `(int16_t)((miso & 0x3FFF) << 2) / 4`: the 14-bit value of an accelerometer. -/
def imuAccel (miso : UInt16) : Int := ((miso &&& 0x3FFF) <<< 2).toInt16.toInt.tdiv 4

/-- `miso & 0x0FFF`: the 12-bit value of a gyro. -/
def imuRot (miso : UInt16) : UInt16 := miso &&& 0x0FFF

/-- `-(imu_rot_y-imu_rot_y0)*11`. -/
def imuRate (y0 y : UInt16) : Int := -((y.toNat : Int) - y0.toNat) * 11

variable (angle : Int16 → Int16 → Int16)

/-- `imu_el_pos`, where `angle z x` is `atan(-(float)z/(float)x)*10430` as an `int16_t`. -/
def imuElPos (imu : Imu) : Int16 :=
  let pos := angle imu.accelZ imu.accelX
  if imu.accelX.toInt > 0 then Int16.ofInt (pos.toInt + 32768) else pos

/-- The thread runs from the call it waits in to its next sleep. -/
def imuStep (miso : UInt16) (imu : Imu) (t : ImuThd) : Imu × ImuThd :=
  match t.pc with
  | .accelZ =>
      ({ imu with accelZ := Int16.ofInt (-imuAccel miso) }, { t with pc := .accelX })
  | .accelX => ({ imu with accelX := Int16.ofInt (imuAccel miso) }, { t with pc := .accelY })
  | .accelY =>
      ({ imu with accelY := Int16.ofInt (-imuAccel miso) }, { t with pc := .rotX })
  | .rotX => ({ imu with rotX := imuRot miso }, { t with pc := .rotY })
  | .rotY => ({ imu with rotY := imuRot miso }, { t with pc := .rotZ })
  | .rotZ => ({ imu with rotZ := imuRot miso }, { t with pc := .calculate })
  | .calculate =>
      let imu := { imu with elPos := imuElPos angle imu }
      let accu := Int32.ofInt (t.accu.toInt + imuRate imu.rotY0 imu.rotY)
      let cntr := UInt8.ofInt (t.cntr.toNat + 1)
      if cntr.toNat ≥ 5 then
        ({ imu with elSpd := Int16.ofInt (accu.toInt.tdiv cntr.toNat) },
          { pc := .accelZ, accu := 0, cntr := 0 })
      else
        (imu, { pc := .accelZ, accu := accu, cntr := cntr })

/-! ## Calibration -/

/-- A call of `imu_calibrate` in one of its 10 ms sleeps, after `i` readings. -/
structure ImuCalibrate where
  i : UInt8 := 0
  accu : Int32 := 0
deriving Repr, DecidableEq

/-- The counter and the sum of a call, as numbers. -/
def ImuCalibrate.values (c : ImuCalibrate) : Nat × Int := (c.i.toNat, c.accu.toInt)

/-- The body of the loop, up to its sleep. -/
def imuCalibrateRead (imu : Imu) (c : ImuCalibrate) : ImuCalibrate where
  i := UInt8.ofInt (c.i.toNat + 1)
  accu := Int32.ofInt (c.accu.toInt + imu.rotY.toNat)

/-- The assignment after the loop. -/
def imuCalibrateEnd (imu : Imu) (c : ImuCalibrate) : Imu :=
  { imu with rotY0 := UInt16.ofInt (c.accu.toInt.tdiv 100) }

/-! ## The machine -/

/-- A reading that has been added, and the zero it was compared with. -/
structure GyroReading where
  y0 : UInt16
  y : UInt16
deriving Repr, DecidableEq

/-- The variables of `imu.c`, the thread, the calls of `imu_calibrate` under way, the
readings of the open window and those of the last completed one. -/
structure ImuMon where
  imu : Imu := {}
  thd : ImuThd := {}
  calls : List ImuCalibrate := []
  window : List GyroReading := []
  done : Option (List GyroReading) := none
deriving Repr, DecidableEq

inductive ImuAct where
  | imu (miso : UInt16)
  /-- `imu_calibrate` is called. -/
  | calibrate
  /-- The `k`-th call under way ends its sleep. -/
  | wake (k : Nat)
  | setElOff (off : Int16)
deriving Repr, DecidableEq

/-- The reading that the calculation adds. -/
def ImuMon.reading (m : ImuMon) : GyroReading := ⟨m.imu.rotY0, m.imu.rotY⟩

/-- Five readings complete a window. -/
def ImuMon.record (m : ImuMon) : ImuMon :=
  let window := m.window ++ [m.reading]
  if window.length = 5 then { m with window := [], done := some window }
  else { m with window := window }

def imuNext (m : ImuMon) : ImuAct → ImuMon
  | .imu miso =>
      let r := imuStep angle miso m.imu m.thd
      let m := if m.thd.pc = .calculate then m.record else m
      { m with imu := r.1, thd := r.2 }
  | .calibrate => { m with calls := m.calls ++ [imuCalibrateRead m.imu {}] }
  | .wake k =>
      match m.calls[k]? with
      | none => m
      | some c =>
          if c.i.toNat < 100 then { m with calls := m.calls.set k (imuCalibrateRead m.imu c) }
          else { m with imu := imuCalibrateEnd m.imu c, calls := m.calls.eraseIdx k }
  | .setElOff off => { m with imu := { m.imu with elOff := off } }

/-! ## What is promised -/

def FitsInt32 (x : Int) : Prop := -2147483648 ≤ x ∧ x ≤ 2147483647

def FitsInt16 (x : Int) : Prop := -32768 ≤ x ∧ x ≤ 32767

theorem FitsInt32.toInt_ofInt {x : Int} (h : FitsInt32 x) : (Int32.ofInt x).toInt = x :=
  Int32.toInt_ofInt_of_le h.1 (Int.lt_add_one_of_le h.2)

theorem FitsInt16.toInt_ofInt {x : Int} (h : FitsInt16 x) : (Int16.ofInt x).toInt = x :=
  Int16.toInt_ofInt_of_le h.1 (Int.lt_add_one_of_le h.2)

/-- The reading does not trip the failsafe. -/
def GyroReading.Inside (r : GyroReading) : Prop := 1270 ≤ r.y.toNat ∧ r.y.toNat ≤ 2870

/-- How far the gyro was from its zero, over all readings. -/
def gyroSum (w : List GyroReading) : Int := (w.map fun r => (r.y0.toNat : Int) - r.y.toNat).sum

/-- The calculation stays in its types; the quotient does so for a window inside the
limits. -/
structure CalculationFits (m : ImuMon) : Prop where
  rate : FitsInt32 (imuRate m.imu.rotY0 m.imu.rotY)
  accu : FitsInt32 (m.thd.accu.toInt + imuRate m.imu.rotY0 m.imu.rotY)
  speed : (m.window ++ [m.reading]).length = 5 → (∀ r ∈ m.window ++ [m.reading], r.Inside) →
    FitsInt16 ((m.thd.accu.toInt + imuRate m.imu.rotY0 m.imu.rotY).tdiv (m.thd.cntr.toNat + 1))

/-- The step overflows nowhere. -/
def ImuFits (m : ImuMon) : ImuAct → Prop
  | .imu _ => m.thd.pc = .calculate → CalculationFits m
  | .wake k => ∀ c ∈ m.calls[k]?, FitsInt32 (c.accu.toInt + m.imu.rotY.toNat)
  | .calibrate => True
  | .setElOff _ => True

/-- The window is never full between two steps, and the published speed is the exact
average over the last completed window when that was inside the limits. -/
structure ElSpdExact (m : ImuMon) : Prop where
  cntr_lt : m.thd.cntr.toNat < 5
  elSpd : ∀ w ∈ m.done, (∀ r ∈ w, r.Inside) → m.imu.elSpd.toInt = (11 * gyroSum w).tdiv 5

/-! ## The invariant -/

/-- A 12-bit reading against an average of such. -/
def GyroReading.TwelveBit (r : GyroReading) : Prop := r.y0.toNat ≤ 4095 ∧ r.y.toNat ≤ 4095

/-- A call has summed up `i` readings of 12 bits. -/
structure ImuCalibrate.Ok (c : ImuCalibrate) : Prop where
  i_le : c.i.toNat ≤ 100
  accu_nonneg : 0 ≤ c.accu.toInt
  accu_le : c.accu.toInt ≤ 4095 * c.i.toNat

structure ImuInv (m : ImuMon) : Prop where
  reading : m.reading.TwelveBit
  calls : ∀ c ∈ m.calls, c.Ok
  window_lt : m.window.length < 5
  window : ∀ r ∈ m.window, r.TwelveBit
  cntr : m.thd.cntr.toNat = m.window.length
  accu : m.thd.accu.toInt = 11 * gyroSum m.window
  elSpd : ∀ w ∈ m.done, (∀ r ∈ w, r.Inside) → m.imu.elSpd.toInt = (11 * gyroSum w).tdiv 5

theorem imuRot_le (miso : UInt16) : (imuRot miso).toNat ≤ 4095 := by
  rw [imuRot, UInt16.toNat_and]
  exact Nat.and_le_right

theorem gyroSum_append (w : List GyroReading) (r : GyroReading) :
    gyroSum (w ++ [r]) = gyroSum w + ((r.y0.toNat : Int) - r.y.toNat) := by
  simp [gyroSum]

theorem imuRate_eq (r : GyroReading) :
    imuRate r.y0 r.y = 11 * ((r.y0.toNat : Int) - r.y.toNat) := by
  unfold imuRate
  omega

/-- A bound for every reading bounds the sum. -/
theorem gyroSum_mem {lo hi : Int} {w : List GyroReading}
    (h : ∀ r ∈ w, lo ≤ (r.y0.toNat : Int) - r.y.toNat ∧ (r.y0.toNat : Int) - r.y.toNat ≤ hi) :
    w.length * lo ≤ gyroSum w ∧ gyroSum w ≤ w.length * hi := by
  have hlo := List.card_nsmul_le_sum (w.map fun r => (r.y0.toNat : Int) - r.y.toNat) lo
    (List.forall_mem_map.mpr fun r hr => (h r hr).1)
  have hhi := List.sum_le_card_nsmul (w.map fun r => (r.y0.toNat : Int) - r.y.toNat) hi
    (List.forall_mem_map.mpr fun r hr => (h r hr).2)
  rw [List.length_map, nsmul_eq_mul] at hlo hhi
  exact ⟨hlo, hhi⟩

theorem gyroSum_twelveBit {w : List GyroReading} (h : ∀ r ∈ w, r.TwelveBit) :
    w.length * -4095 ≤ gyroSum w ∧ gyroSum w ≤ w.length * 4095 := by
  refine gyroSum_mem fun r hr => ?_
  obtain ⟨h0, h1⟩ := h r hr
  omega

/-- Inside the limits a zero of 12 bits leaves eleven times the average in `int16_t`. -/
theorem gyroSum_inside {w : List GyroReading} (h : ∀ r ∈ w, r.TwelveBit)
    (hin : ∀ r ∈ w, r.Inside) (hlen : w.length = 5) :
    FitsInt16 ((11 * gyroSum w).tdiv 5) := by
  have hsum : w.length * -2870 ≤ gyroSum w ∧ gyroSum w ≤ w.length * 2825 := by
    refine gyroSum_mem fun r hr => ?_
    obtain ⟨h0, -⟩ := h r hr
    obtain ⟨hlo, hhi⟩ := hin r hr
    omega
  have hdiv := tdiv_spec (11 * gyroSum w) (show (0 : Int) < 5 by decide)
  rw [hlen] at hsum
  unfold FitsInt16
  omega

/-! ## Steps -/

theorem imuCalibrateRead_values {imu : Imu} {c : ImuCalibrate} (hc : c.Ok) (hi : c.i.toNat < 100)
    (hy : imu.rotY.toNat ≤ 4095) :
    (imuCalibrateRead imu c).values = (c.i.toNat + 1, c.accu.toInt + imu.rotY.toNat) := by
  obtain ⟨-, hnonneg, hle⟩ := hc
  refine Prod.ext ?_ ?_
  · exact toNat_ofNatU8 (n := c.i.toNat + 1) (by omega)
  · exact Int32.toInt_ofInt_of_le (by omega) (by omega)

theorem imuCalibrateRead_ok {imu : Imu} {c : ImuCalibrate} (hc : c.Ok) (hi : c.i.toNat < 100)
    (hy : imu.rotY.toNat ≤ 4095) : (imuCalibrateRead imu c).Ok := by
  obtain ⟨hi', haccu⟩ := Prod.mk.inj (imuCalibrateRead_values hc hi hy)
  obtain ⟨-, hnonneg, hle⟩ := hc
  exact ⟨by omega, by omega, by omega⟩

theorem imuCalibrate_start_ok : ({} : ImuCalibrate).Ok :=
  ⟨by decide, by decide, by decide⟩

/-- The new zero is an average of 12-bit readings, so it has 12 bits. -/
theorem imuCalibrateEnd_le (imu : Imu) {c : ImuCalibrate} (hc : c.Ok) :
    (imuCalibrateEnd imu c).rotY0.toNat ≤ 4095 := by
  obtain ⟨hi, hnonneg, hle⟩ := hc
  have hdiv := tdiv_of_nonneg (show (0 : Int) < 100 by decide) hnonneg
  have hzero := toNat_ofIntU16 (c.accu.toInt.tdiv 100)
  simp only [imuCalibrateEnd]
  omega

/-- A step that stores a reply touches neither the averaging nor the zero. -/
structure ImuReads (imu imu' : Imu) (t t' : ImuThd) : Prop where
  rotY : imu'.rotY = imu.rotY ∨ imu'.rotY.toNat ≤ 4095
  rotY0 : imu'.rotY0 = imu.rotY0
  elSpd : imu'.elSpd = imu.elSpd
  accu : t'.accu = t.accu
  cntr : t'.cntr = t.cntr

theorem imuStep_reads (miso : UInt16) (imu : Imu) {t : ImuThd} (h : t.pc ≠ .calculate) :
    ImuReads imu (imuStep angle miso imu t).1 t (imuStep angle miso imu t).2 := by
  unfold imuStep
  cases hpc : t.pc with
  | rotY => exact ⟨Or.inr (imuRot_le miso), rfl, rfl, rfl, rfl⟩
  | calculate => exact absurd hpc h
  | _ => exact ⟨Or.inl rfl, rfl, rfl, rfl, rfl⟩

/-- The calculation, with room left in the window. -/
theorem imuStep_open (miso : UInt16) (imu : Imu) {t : ImuThd} (hpc : t.pc = .calculate)
    (hcntr : t.cntr.toNat + 1 < 5) :
    imuStep angle miso imu t
      = ({ imu with elPos := imuElPos angle imu },
          { pc := .accelZ
            accu := Int32.ofInt (t.accu.toInt + imuRate imu.rotY0 imu.rotY)
            cntr := UInt8.ofInt (t.cntr.toNat + 1) }) := by
  have hcntr' : (UInt8.ofInt (t.cntr.toNat + 1)).toNat = t.cntr.toNat + 1 :=
    toNat_ofNatU8 (n := t.cntr.toNat + 1) (by omega)
  rw [imuStep, hpc]
  simp only [hcntr']
  exact if_neg (by omega)

/-- The calculation that completes a window. -/
theorem imuStep_complete (miso : UInt16) (imu : Imu) {t : ImuThd} (hpc : t.pc = .calculate)
    (hcntr : t.cntr.toNat + 1 = 5)
    (hfits : FitsInt32 (t.accu.toInt + imuRate imu.rotY0 imu.rotY)) :
    imuStep angle miso imu t
      = ({ imu with
            elPos := imuElPos angle imu
            elSpd := Int16.ofInt ((t.accu.toInt + imuRate imu.rotY0 imu.rotY).tdiv 5) },
          {}) := by
  have haccu : (Int32.ofInt (t.accu.toInt + imuRate imu.rotY0 imu.rotY)).toInt
      = t.accu.toInt + imuRate imu.rotY0 imu.rotY := hfits.toInt_ofInt
  have hcntr' : (UInt8.ofInt (t.cntr.toNat + 1)).toNat = 5 := by
    rw [← hcntr]
    exact toNat_ofNatU8 (n := t.cntr.toNat + 1) (by omega)
  rw [imuStep, hpc]
  simp only [hcntr', haccu]
  rfl

/-- The sum that a calculation stores, over the integers. -/
theorem ImuInv.accu_reading {m : ImuMon} (h : ImuInv m) :
    m.thd.accu.toInt + imuRate m.imu.rotY0 m.imu.rotY
      = 11 * gyroSum (m.window ++ [m.reading]) := by
  rw [h.accu, gyroSum_append, Int.mul_add, ← imuRate_eq]
  rfl

theorem ImuInv.twelveBit {m : ImuMon} (h : ImuInv m) :
    ∀ r ∈ m.window ++ [m.reading], r.TwelveBit :=
  List.forall_mem_append.mpr ⟨h.window, List.forall_mem_singleton.mpr h.reading⟩

/-- Under the invariant a calculation is done in its types. -/
theorem ImuInv.calculationFits {m : ImuMon} (h : ImuInv m) : CalculationFits m where
  rate := by
    obtain ⟨h0, h1⟩ := h.reading
    simp only [ImuMon.reading] at h0 h1
    unfold FitsInt32 imuRate
    omega
  accu := by
    obtain ⟨hlo, hhi⟩ := gyroSum_twelveBit h.twelveBit
    have hlen := h.window_lt
    rw [h.accu_reading]
    rw [List.length_append, List.length_singleton] at hlo hhi
    unfold FitsInt32
    omega
  speed := by
    intro hlen hin
    have hcntr : (m.thd.cntr.toNat : Int) + 1 = 5 := by
      rw [List.length_append, List.length_singleton] at hlen
      have := h.cntr
      omega
    rw [h.accu_reading, hcntr]
    exact gyroSum_inside h.twelveBit hin hlen

theorem imuInv_reads {m : ImuMon} (h : ImuInv m) {imu' : Imu} {t' : ImuThd}
    (hr : ImuReads m.imu imu' m.thd t') : ImuInv { m with imu := imu', thd := t' } where
  reading := by
    obtain ⟨h0, h1⟩ := h.reading
    refine ⟨?_, ?_⟩
    · exact (congrArg UInt16.toNat hr.rotY0).trans_le h0
    · rcases hr.rotY with hy | hy
      · exact (congrArg UInt16.toNat hy).trans_le h1
      · exact hy
  calls := h.calls
  window_lt := h.window_lt
  window := h.window
  cntr := (congrArg UInt8.toNat hr.cntr).trans h.cntr
  accu := (congrArg Int32.toInt hr.accu).trans h.accu
  elSpd := by
    intro w hw hin
    exact (congrArg Int16.toInt hr.elSpd).trans (h.elSpd w hw hin)

/-- The calculation adds its reading, or publishes the window that it completes. -/
theorem imuInv_calculate {m : ImuMon} (h : ImuInv m) (miso : UInt16)
    (hpc : m.thd.pc = .calculate) : ImuInv (imuNext angle m (.imu miso)) := by
  have hfits := h.calculationFits
  have hcntr := h.cntr
  have hlt := h.window_lt
  have hlen : (m.window ++ [m.reading]).length = m.window.length + 1 := by simp
  by_cases hfive : m.window.length + 1 = 5
  · have hstep := imuStep_complete angle miso m.imu hpc (by omega) hfits.accu
    have hnext : imuNext angle m (.imu miso)
        = { m with
            imu := { m.imu with
              elPos := imuElPos angle m.imu
              elSpd := Int16.ofInt
                ((m.thd.accu.toInt + imuRate m.imu.rotY0 m.imu.rotY).tdiv 5) }
            thd := {}
            window := []
            done := some (m.window ++ [m.reading]) } := by
      simp only [imuNext, hpc, if_true, hstep, ImuMon.record, hlen, hfive]
    rw [hnext]
    refine ⟨h.reading, h.calls, show 0 < 5 by decide, fun r hr => absurd hr List.not_mem_nil,
      rfl, rfl, ?_⟩
    intro w hw hin
    obtain rfl := Option.some.inj hw
    rw [h.accu_reading]
    exact (gyroSum_inside h.twelveBit hin (hlen.trans hfive)).toInt_ofInt
  · have hstep := imuStep_open angle miso m.imu hpc (by omega)
    have hnext : imuNext angle m (.imu miso)
        = { m with
            imu := { m.imu with elPos := imuElPos angle m.imu }
            thd :=
              { pc := .accelZ
                accu := Int32.ofInt (m.thd.accu.toInt + imuRate m.imu.rotY0 m.imu.rotY)
                cntr := UInt8.ofInt (m.thd.cntr.toNat + 1) }
            window := m.window ++ [m.reading] } := by
      simp only [imuNext, hpc, if_true, hstep, ImuMon.record, hlen, if_neg hfive]
    rw [hnext]
    refine ⟨h.reading, h.calls, ?_, h.twelveBit, ?_, ?_, h.elSpd⟩
    · change (m.window ++ [m.reading]).length < 5
      omega
    · change (UInt8.ofInt (m.thd.cntr.toNat + 1)).toNat = (m.window ++ [m.reading]).length
      rw [hlen, ← hcntr]
      exact toNat_ofNatU8 (n := m.thd.cntr.toNat + 1) (by omega)
    · rw [← h.accu_reading]
      exact hfits.accu.toInt_ofInt

theorem imuInv_next (m : ImuMon) (a : ImuAct) (h : ImuInv m) : ImuInv (imuNext angle m a) := by
  cases a with
  | imu miso =>
      by_cases hpc : m.thd.pc = .calculate
      · exact imuInv_calculate angle h miso hpc
      · simp only [imuNext, if_neg hpc]
        exact imuInv_reads h (imuStep_reads angle miso m.imu hpc)
  | calibrate =>
      refine { h with calls := ?_ }
      intro c hc
      rcases List.mem_append.mp hc with hc | hc
      · exact h.calls c hc
      · rw [List.mem_singleton.mp hc]
        exact imuCalibrateRead_ok imuCalibrate_start_ok (by decide) h.reading.2
  | wake k =>
      simp only [imuNext]
      cases hk : m.calls[k]? with
      | none => exact h
      | some c =>
          have hc : c.Ok := h.calls c (List.mem_of_getElem? hk)
          simp only
          split
          · rename_i hi
            refine { h with calls := ?_ }
            intro d hd
            rcases List.mem_or_eq_of_mem_set hd with hd | rfl
            · exact h.calls d hd
            · exact imuCalibrateRead_ok hc hi h.reading.2
          · refine { h with reading := ⟨imuCalibrateEnd_le m.imu hc, h.reading.2⟩, calls := ?_ }
            intro d hd
            exact h.calls d (List.mem_of_mem_eraseIdx hd)
  | setElOff off => exact { h with }

theorem ImuInv.fits {m : ImuMon} (h : ImuInv m) (a : ImuAct) : ImuFits m a := by
  cases a with
  | imu miso => exact fun _ => h.calculationFits
  | calibrate => trivial
  | wake k =>
      intro c hc
      obtain ⟨hi, hnonneg, hle⟩ := h.calls c (List.mem_of_getElem? hc)
      have hy := h.reading.2
      simp only [ImuMon.reading] at hy
      unfold FitsInt32
      omega
  | setElOff off => trivial

theorem ImuInv.elSpdExact {m : ImuMon} (h : ImuInv m) : ElSpdExact m :=
  ⟨h.cntr.trans_lt h.window_lt, h.elSpd⟩

theorem imuInv_init : ImuInv {} where
  reading := ⟨by decide, by decide⟩
  calls := fun c hc => absurd hc List.not_mem_nil
  window_lt := by decide
  window := fun r hr => absurd hr List.not_mem_nil
  cntr := rfl
  accu := rfl
  elSpd := fun w hw => absurd hw (by simp)

/-! ## Every run -/

/-- No step overflows, whatever the gyro reads and whenever the zero is replaced, and
the published speed is the exact average as long as the failsafe stays quiet. -/
theorem imu_el_spd_exact (as : List ImuAct) :
    Along (imuNext angle) ImuFits {} as ∧ ElSpdExact (run (imuNext angle) {} as) := by
  constructor
  · exact along_of_invariant_always (imuInv_next angle) (fun m a hm => hm.fits a) imuInv_init as
  · exact (run_invariant_always (imuInv_next angle) imuInv_init as).elSpdExact

-- Two readings 70 below the zero, then the zero is replaced and three more follow.
example :
    (run (imuNext fun _ _ => 0) {}
      ((List.replicate 14 (.imu 2000)) ++ .calibrate :: List.replicate 100 (.wake 0)
        ++ List.replicate 21 (.imu 2000))).imu.elSpd = 11 * (70 + 70) / 5 := by
  decide +kernel

/-! ## While the failsafe is quiet -/

/-- The failsafe would let pass what the calculation adds. -/
def FailsafeQuiet (m : ImuMon) : ImuAct → Prop
  | .imu _ => m.thd.pc = .calculate → failsafe m.imu = false
  | .calibrate => True
  | .wake _ => True
  | .setElOff _ => True

/-- A reading that ctrl lets pass is inside the limits. -/
theorem inside_of_failsafe {m : ImuMon} (h : failsafe m.imu = false) : m.reading.Inside := by
  simp only [failsafe, Bool.or_eq_false_iff, decide_eq_false_iff_not] at h
  obtain ⟨⟨⟨⟨-, hlo⟩, hhi⟩, -⟩, -⟩ := h
  simp only [GyroReading.Inside, ImuMon.reading]
  omega

/-- So is every reading that was recorded. -/
def AllInside (m : ImuMon) : Prop :=
  (∀ r ∈ m.window, r.Inside) ∧ ∀ w ∈ m.done, ∀ r ∈ w, r.Inside

theorem allInside_record {m : ImuMon} (h : AllInside m) (hr : m.reading.Inside) :
    AllInside m.record := by
  have hwindow : ∀ r ∈ m.window ++ [m.reading], r.Inside :=
    List.forall_mem_append.mpr ⟨h.1, List.forall_mem_singleton.mpr hr⟩
  simp only [ImuMon.record]
  split
  · refine ⟨fun r hmem => absurd hmem List.not_mem_nil, ?_⟩
    intro w hw
    rw [← Option.some.inj hw]
    exact hwindow
  · exact ⟨hwindow, h.2⟩

theorem allInside_next (m : ImuMon) (a : ImuAct) (h : AllInside m) (hquiet : FailsafeQuiet m a) :
    AllInside (imuNext angle m a) := by
  cases a with
  | imu miso =>
      simp only [imuNext]
      split
      · rename_i hpc
        exact allInside_record h (inside_of_failsafe (hquiet hpc))
      · exact h
  | calibrate => exact h
  | wake k =>
      simp only [imuNext]
      split
      · exact h
      · split <;> exact h
  | setElOff off => exact h

/-- As long as the failsafe is quiet, every window is averaged exactly. -/
theorem elSpd_of_failsafeQuiet {as : List ImuAct}
    (hquiet : Along (imuNext angle) FailsafeQuiet {} as) :
    ∀ w ∈ (run (imuNext angle) {} as).done,
      (run (imuNext angle) {} as).imu.elSpd.toInt = (11 * gyroSum w).tdiv 5 := by
  have hstart : ImuInv {} ∧ AllInside {} :=
    ⟨imuInv_init, fun r hr => absurd hr List.not_mem_nil, fun w hw => absurd hw (by simp)⟩
  obtain ⟨hinv, hinside⟩ := run_invariant (I := fun m => ImuInv m ∧ AllInside m)
    (fun m a hm hq => ⟨imuInv_next angle m a hm.1, allInside_next angle m a hm.2 hq⟩) hstart hquiet
  intro w hw
  exact hinv.elSpd w hw (hinside.2 w hw)

/-! ## In the firmware

`System` lets the IMU thread publish any reading at any time. Here the thread
itself publishes, one variable at a time, and the calls of `imu_calibrate` are
those of the MDE thread; the monitor follows every run of it. -/

structure ImuSys where
  sys : Sys
  thd : ImuThd := {}

inductive ImuSysAct where
  | req (r : Request)
  | ctrl
  | mde (miso : UInt16)
  | imu (miso : UInt16)
  | tick (n : Nat)
deriving Repr, DecidableEq

/-- The variables that the thread owns. -/
def Imu.published (imu : Imu) : ImuReading where
  accelX := imu.accelX
  accelY := imu.accelY
  accelZ := imu.accelZ
  rotX := imu.rotX
  rotY := imu.rotY
  rotZ := imu.rotZ
  elPos := imu.elPos
  elSpd := imu.elSpd

def imuSysNext (fpu : Fpu) (s : ImuSys) : ImuSysAct → ImuSys
  | .req r => { s with sys := sysNext fpu s.sys (.req r) }
  | .ctrl => { s with sys := sysNext fpu s.sys .ctrl }
  | .mde miso => { s with sys := sysNext fpu s.sys (.mde miso) }
  | .imu miso =>
      let r := imuStep angle miso s.sys.vars.imu s.thd
      { sys := sysNext fpu s.sys (.imu r.1.published), thd := r.2 }
  | .tick n => { s with sys := sysNext fpu s.sys (.tick n) }

/-- The thread writes nothing else. -/
theorem imuPublish_imuStep (miso : UInt16) (v : Vars) (t : ImuThd) :
    (imuPublish (imuStep angle miso v.imu t).1.published v).imu
      = (imuStep angle miso v.imu t).1 := by
  unfold imuStep
  cases t.pc with
  | calculate =>
      simp only
      split <;> rfl
  | _ => rfl

/-- Of the requests only that for the offset reaches `imu.c`. -/
theorem serve_imu (v : Vars) (r : Request) :
    (serve v r).imu = v.imu ∨ ∃ off, (serve v r).imu = { v.imu with elOff := off } := by
  cases r with
  | imuSetElOff off => exact Or.inr ⟨off, rfl⟩
  | apiPos az el slow =>
      refine Or.inl ?_
      simp only [serve, apiPos]
      split <;> rfl
  | _ => exact Or.inl rfl

/-- The call of `imu_calibrate` the thread is in. -/
def MdePc.calibration : MdePc → List (Nat × Int)
  | .imuCalibrate i accu => [(i, accu)]
  | _ => []

/-- The step leaves `imu.c` alone, unless it enters `imu_calibrate`. -/
def MdeOut.Enters (out : MdeOut) (v : Vars) : Prop :=
  out.vars.imu = v.imu
    ∧ (out.thd.pc.calibration = [] ∨ out.thd.pc.calibration = [(1, (v.imu.rotY.toNat : Int))])

theorem mdeGate_enters (v : Vars) (t : MdeThd) : (mdeGate v t).Enters v := by
  unfold mdeGate
  split <;> exact ⟨rfl, Or.inl rfl⟩

theorem mdePowerUpTest_enters (v : Vars) (t : MdeThd) : (mdePowerUpTest v t).Enters v := by
  unfold mdePowerUpTest
  split
  · exact ⟨rfl, Or.inr rfl⟩
  · exact mdeGate_enters v t

theorem mdeInit_enters (rest : List InitOp) (v : Vars) (t : MdeThd) :
    (mdeInit rest v t).Enters v := by
  unfold mdeInit
  split
  · exact ⟨rfl, Or.inl rfl⟩
  · exact ⟨rfl, Or.inl rfl⟩
  · exact mdeGate_enters { v with mde := { v.mde with powerUp := false, isPoweredUp := true } } t

theorem mdeStep_enters (fpu : Fpu) (miso : UInt16) (v : Vars) {t : MdeThd}
    (h : t.pc.calibration = []) : (mdeStep fpu miso v t).Enters v := by
  unfold mdeStep
  cases hpc : t.pc with
  | loopSleep =>
      simp only [mdeTop]
      split
      · exact ⟨rfl, Or.inl rfl⟩
      · exact mdePowerUpTest_enters v t
  | powerDnSleep =>
      exact mdePowerUpTest_enters
        { v with mde := { v.mde with powerDn := false, isPoweredUp := false } } t
  | imuCalibrate i accu => simp [hpc, MdePc.calibration] at h
  | powerUpSleep => exact mdeInit_enters initScript v t
  | init rest => exact mdeInit_enters rest v t
  | poll i =>
      simp only
      split <;> exact ⟨rfl, Or.inl rfl⟩
  | torque m => cases m <;> exact ⟨rfl, Or.inl rfl⟩

structure ImuFollows (s : ImuSys) (m : ImuMon) : Prop where
  inv : ImuInv m
  imu : m.imu = s.sys.vars.imu
  thd : m.thd = s.thd
  calls : m.calls.map ImuCalibrate.values = s.sys.mde.pc.calibration

theorem mdeStep_calibrateRead (fpu : Fpu) (miso : UInt16) (v : Vars) {t : MdeThd} {i : Nat}
    {accu : Int} (hpc : t.pc = .imuCalibrate i accu) (hi : i < 100) :
    mdeStep fpu miso v t
      = { vars := v, thd := { t with pc := .imuCalibrate (i + 1) (accu + v.imu.rotY.toNat) } } := by
  rw [mdeStep, hpc]
  exact if_pos hi

theorem mdeStep_calibrateEnd (fpu : Fpu) (miso : UInt16) (v : Vars) {t : MdeThd} {i : Nat}
    {accu : Int} (hpc : t.pc = .imuCalibrate i accu) (hi : ¬ i < 100) :
    mdeStep fpu miso v t
      = { vars := { v with imu := { v.imu with rotY0 := UInt16.ofInt (accu.tdiv 100) } }
          thd := { t with pc := .powerUpSleep } } := by
  rw [mdeStep, hpc]
  exact if_neg hi

/-- The MDE thread enters `imu_calibrate`, or does something else. -/
theorem imuFollows_enters {fpu : Fpu} {s : ImuSys} {m : ImuMon} (h : ImuFollows s m)
    (miso : UInt16) (hidle : s.sys.mde.pc.calibration = []) :
    ∃ bs, ImuFollows (imuSysNext angle fpu s (.mde miso)) (run (imuNext angle) m bs) := by
  have hnone : m.calls = [] := List.map_eq_nil_iff.mp (h.calls.trans hidle)
  obtain ⟨himu, hpc⟩ := mdeStep_enters fpu miso s.sys.vars hidle
  have himu' := h.imu.trans himu.symm
  rcases hpc with hpc | hpc
  · refine ⟨[], h.inv, himu', h.thd, ?_⟩
    rw [run_nil, hnone]
    exact hpc.symm
  · refine ⟨[.calibrate], imuInv_next angle m .calibrate h.inv, himu', h.thd, ?_⟩
    have hval := imuCalibrateRead_values imuCalibrate_start_ok (by decide) h.inv.reading.2
    have hcalls : (run (imuNext angle) m [.calibrate]).calls = [imuCalibrateRead m.imu {}] := by
      simp only [run_cons, run_nil, imuNext, hnone, List.nil_append]
    rw [hcalls, List.map_singleton, hval, h.imu]
    refine Eq.trans ?_ hpc.symm
    simp

/-- A sleep of `imu_calibrate` comes to its end. -/
theorem imuFollows_wakes {fpu : Fpu} {s : ImuSys} {m : ImuMon} (h : ImuFollows s m)
    (miso : UInt16) {i : Nat} {accu : Int} (hpc : s.sys.mde.pc = .imuCalibrate i accu) :
    ImuFollows (imuSysNext angle fpu s (.mde miso)) (imuNext angle m (.wake 0)) := by
  have hcalls := h.calls
  rw [hpc, MdePc.calibration] at hcalls
  obtain ⟨c, hc, hval⟩ := List.map_eq_singleton_iff.mp hcalls
  obtain ⟨rfl, rfl⟩ := Prod.mk.inj hval
  have hok : c.Ok := h.inv.calls c (by rw [hc]; exact List.mem_singleton_self c)
  have hinv := imuInv_next angle m (.wake 0) h.inv
  by_cases hi : c.i.toNat < 100
  · have hnext : imuNext angle m (.wake 0) = { m with calls := [imuCalibrateRead m.imu c] } := by
      simp only [imuNext, hc, List.getElem?_cons_zero, if_pos hi, List.set_cons_zero]
    have hstep := mdeStep_calibrateRead fpu miso s.sys.vars hpc hi
    rw [hnext] at hinv ⊢
    refine ⟨hinv, ?_, h.thd, ?_⟩
    · simp only [imuSysNext, sysNext, hstep]
      exact h.imu
    · rw [List.map_singleton, imuCalibrateRead_values hok hi h.inv.reading.2, h.imu]
      simp only [imuSysNext, sysNext, hstep, MdePc.calibration]
  · have hnext : imuNext angle m (.wake 0)
        = { m with imu := imuCalibrateEnd m.imu c, calls := [] } := by
      simp only [imuNext, hc, List.getElem?_cons_zero, if_neg hi, List.eraseIdx_cons_zero]
    have hstep := mdeStep_calibrateEnd fpu miso s.sys.vars hpc hi
    rw [hnext] at hinv ⊢
    refine ⟨hinv, ?_, h.thd, ?_⟩
    · simp only [imuSysNext, sysNext, hstep, imuCalibrateEnd, h.imu]
    · simp only [imuSysNext, sysNext, hstep, MdePc.calibration, List.map_nil]

theorem imuNext_calls (m : ImuMon) (miso : UInt16) :
    (imuNext angle m (.imu miso)).calls = m.calls := by
  simp only [imuNext, ImuMon.record]
  split
  · split <;> rfl
  · rfl

/-- The monitor follows every step of the firmware. -/
theorem imuFollows_next (fpu : Fpu) (s : ImuSys) (m : ImuMon) (a : ImuSysAct)
    (h : ImuFollows s m) :
    ∃ bs, ImuFollows (imuSysNext angle fpu s a) (run (imuNext angle) m bs) := by
  cases a with
  | req r =>
      rcases serve_imu s.sys.vars r with himu | ⟨off, himu⟩
      · exact ⟨[], h.inv, h.imu.trans himu.symm, h.thd, h.calls⟩
      · refine ⟨[.setElOff off], imuInv_next angle m (.setElOff off) h.inv, ?_, h.thd, h.calls⟩
        simp only [run_cons, run_nil, imuNext, h.imu]
        exact himu.symm
  | ctrl =>
      exact ⟨[], h.inv, h.imu.trans (ctrlStep_imu fpu s.sys.vars s.sys.ctrl).symm, h.thd, h.calls⟩
  | mde miso =>
      cases hpc : s.sys.mde.pc with
      | imuCalibrate i accu => exact ⟨[.wake 0], imuFollows_wakes angle h miso hpc⟩
      | _ => exact imuFollows_enters angle h miso (by rw [hpc]; rfl)
  | imu miso =>
      refine ⟨[.imu miso], imuInv_next angle m (.imu miso) h.inv, ?_, ?_, ?_⟩
      · simp only [run_cons, run_nil, imuNext, h.imu, h.thd]
        exact (imuPublish_imuStep angle miso s.sys.vars s.thd).symm
      · simp only [run_cons, run_nil, imuNext, h.imu, h.thd]
        rfl
      · rw [run_cons, run_nil, imuNext_calls]
        exact h.calls
  | tick n => exact ⟨[], h.inv, h.imu, h.thd, h.calls⟩

/-- In every run of the firmware the thread averages as the monitor says. -/
theorem imuSys_elSpdExact (fpu : Fpu) (oldAz : UInt16) (oldT : SysTime) (oldX : UInt16)
    (fc : UInt8) (as : List ImuSysAct) :
    ∃ m, ImuFollows (run (imuSysNext angle fpu) { sys := Sys.boot oldAz oldT oldX fc } as) m
      ∧ ElSpdExact m := by
  have hboot : ImuFollows { sys := Sys.boot oldAz oldT oldX fc } {} := ⟨imuInv_init, rfl, rfl, rfl⟩
  obtain ⟨bs, h⟩ := run_simulates (imuFollows_next angle fpu) hboot as
  exact ⟨_, h, h.inv.elSpdExact⟩

/-- What the thread publishes is among what `System` allows. -/
theorem imuSys_run_sys (fpu : Fpu) (s : ImuSys) (as : List ImuSysAct) :
    ∃ bs, (run (imuSysNext angle fpu) s as).sys = run (sysNext fpu) s.sys bs := by
  refine run_simulates (R := fun (s : ImuSys) t => s.sys = t) ?_ rfl as
  rintro s _ a rfl
  cases a with
  | req r => exact ⟨[.req r], rfl⟩
  | ctrl => exact ⟨[.ctrl], rfl⟩
  | mde miso => exact ⟨[.mde miso], rfl⟩
  | imu miso => exact ⟨[.imu (imuStep angle miso s.sys.vars.imu s.thd).1.published], rfl⟩
  | tick n => exact ⟨[.tick n], rfl⟩

end Seatel
