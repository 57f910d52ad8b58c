import Mathlib.Tactic.Ring
import Seatel.FloatRounding
import Seatel.System

/-!
# The speed of the encoder

`enc_az_speed = dx/dt` converts a `double` to `int16_t`. Both operands come
from the sample before: `dx` is the difference on the circle, `dt` the
difference of two 32-bit tick counts over their frequency. Nothing has
stored a sample when the first one is read, and nothing looks at the range
of the quotient. Both divisions round to `double`, so a quotient that is a
whole number can come out just below it and lose one in the conversion:
79 counts in 395 ticks are stored as 19999 a second.

The monitor keeps the last sample with the real time it was taken at.
Which cycles store the speed they should is said by `SpeedFits`, and
`encoder_speed_exact` shows for every cycle of every run that there are no
others.
-/

namespace Seatel

open Runs CInt FloatRounding

/-! ## The quotient -/

/-- `dt = (double)ticks/CH_CFG_ST_FREQUENCY` and then `dx/dt`, each rounded to `double`. -/
def dxOverDt (dx : Int) (ticks : Nat) : ℚ :=
  roundTo 53 ((dx : ℚ) / roundTo 53 ((ticks : ℚ) / chCfgStFrequency))

/-- The quotient, converted as any `double` is; a division by zero stays arbitrary. -/
def Fpu.doubleSpeed (fpu : Fpu) : Fpu :=
  { fpu with
    speed := fun dx ticks =>
      if ticks = 0 then fpu.speed dx ticks
      else fpu.toI16 (dxOverDt dx.toInt ticks.toNat) }

/-- The rounding errors together are less than the last step to a whole number. -/
theorem dxOverDt_near {dx : Int} (hdx : |dx| ≤ 32768) {ticks : Nat} (hticks : ticks ≠ 0) :
    |dxOverDt dx ticks - (dx * 100000 : Int) / ticks| < 1 / ticks := by
  have hpos : (0 : ℚ) < ticks := by exact_mod_cast Nat.pos_of_ne_zero hticks
  have hexact : (dx / (ticks / chCfgStFrequency) : ℚ) = (dx * 100000 : Int) / ticks := by
    rw [div_div_eq_mul_div, chCfgStFrequency]
    push_cast
    rfl
  have hnum : |((dx * 100000 : Int) : ℚ)| ≤ 3276800000 := by
    have habs : |dx * 100000| ≤ 3276800000 := by
      rw [abs_mul]
      norm_num
      omega
    exact_mod_cast habs
  have hround := abs_roundTo_div_roundTo_sub_le (p := 53) (by decide) (dx : ℚ)
    ((ticks : ℚ) / chCfgStFrequency)
  rw [hexact, abs_div, abs_of_pos hpos] at hround
  calc |dxOverDt dx ticks - (dx * 100000 : Int) / ticks|
      ≤ 4 / 2 ^ 53 * (|((dx * 100000 : Int) : ℚ)| / ticks) := hround
    _ = 4 / 2 ^ 53 * |((dx * 100000 : Int) : ℚ)| * (1 / ticks) := by ring
    _ < 1 * (1 / ticks) := by
        refine mul_lt_mul_of_pos_right ?_ (one_div_pos.mpr hpos)
        calc 4 / 2 ^ 53 * |((dx * 100000 : Int) : ℚ)| ≤ 4 / 2 ^ 53 * 3276800000 := by gcongr
          _ < 1 := by norm_num
    _ = 1 / ticks := one_mul _

/-- A quotient of one comes out exactly. -/
theorem abs_dxOverDt_eq_one {dx : Int} (hdx : |dx| ≤ 32768) {ticks : Nat} (hticks : ticks ≠ 0)
    (hone : dx.natAbs * 100000 = ticks) : |dxOverDt dx ticks| = 1 := by
  have hne : dx ≠ 0 := by omega
  have hdt : (ticks / chCfgStFrequency : ℚ) = (|dx| : Int) := by
    rw [← hone, chCfgStFrequency, Int.abs_eq_natAbs, Int.cast_natCast]
    push_cast
    ring
  have hsign : (dx / (|dx| : Int) : ℚ) = (dx.sign : Int) := by
    rw [div_eq_iff (by exact_mod_cast abs_ne_zero.mpr hne)]
    exact_mod_cast (Int.sign_mul_abs dx).symm
  have hsmall : |dx.sign| = 1 := by
    rw [Int.abs_eq_natAbs, Int.natAbs_sign_of_ne_zero hne]
    rfl
  rw [dxOverDt, hdt, roundTo_intCast (by rw [abs_abs]; omega), hsign,
    roundTo_intCast (by omega)]
  exact_mod_cast hsmall

/-! ## The monitor -/

/-- The firmware, and the last sample with its time. -/
structure EncMon where
  sys : Sys
  last : Option (UInt16 × Nat)

/-- The sample that the reply completes. -/
def EncMon.sample (m : EncMon) (miso : UInt16) : UInt16 := encAzOf m.sys.mde.fc miso.toUInt8

def encMonNext (fpu : Fpu) (m : EncMon) (a : Act) : EncMon where
  sys := sysNext fpu m.sys a
  last :=
    match a with
    | .mde miso => if samples m.sys then some (m.sample miso, m.sys.vars.time) else m.last
    | _ => m.last

def EncMon.boot (oldAz : UInt16) (oldT : SysTime) (oldX : UInt16) (fc : UInt8) : EncMon where
  sys := Sys.boot oldAz oldT oldX fc
  last := none

/-- Two samples are at least 3 ms apart. -/
def CyclesApart (m : EncMon) : Act → Prop
  | .mde _ => samples m.sys = true → ∀ p ∈ m.last, p.2 + 300 ≤ m.sys.vars.time
  | _ => True

instance (m : EncMon) : (a : Act) → Decidable (CyclesApart m a)
  | .mde _ => inferInstanceAs (Decidable (_ → _))
  | .req _ => inferInstanceAs (Decidable True)
  | .ctrl => inferInstanceAs (Decidable True)
  | .imu _ => inferInstanceAs (Decidable True)
  | .tick _ => inferInstanceAs (Decidable True)

/-- The ticks as the cycle counts them. -/
def EncMon.ticks (m : EncMon) : SysTime := chVTGetSystemTimeX m.sys.vars - m.sys.mde.oldT

/-- The `double` that is converted to `int16_t`. -/
def EncMon.speedDouble (m : EncMon) (miso : UInt16) : ℚ :=
  dxOverDt (encDiff (m.sample miso) m.sys.mde.oldX).toInt m.ticks.toNat

/-- What a cycle owes: there is a sample to compare with, the conversion is in range,
and the speed is the difference to that sample over the ticks that have passed. -/
structure SpeedExact (fpu : Fpu) (m : EncMon) (miso : UInt16) (x₀ : UInt16) (t₀ : Nat) :
    Prop where
  last : m.last = some (x₀, t₀)
  ticks_ne : m.ticks ≠ 0
  range : -32769 < m.speedDouble miso ∧ m.speedDouble miso < 32768
  speed : (sysNext fpu m.sys (.mde miso)).vars.mde.encAzSpeed.toInt
    = trunc (circDiff x₀ (m.sample miso) * 100000 / (m.sys.vars.time - t₀ : Nat))

def CycleOk (fpu : Fpu) (m : EncMon) : Act → Prop
  | .mde miso => samples m.sys = true → ∃ x₀ t₀, SpeedExact fpu m miso x₀ t₀
  | _ => True

/-- A quotient that is a whole number does not come out below it. -/
def NotBelow (dx : Int) (ticks : Nat) : Prop :=
  (ticks : Int) ∣ dx * 100000 → |((dx * 100000 : Int) / ticks : ℚ)| ≤ |dxOverDt dx ticks|

instance (dx : Int) (ticks : Nat) : Decidable (NotBelow dx ticks) :=
  inferInstanceAs (Decidable (_ → _))

example : NotBelow 3 300 := by decide +kernel

example : ¬ NotBelow 79 395 := by decide +kernel

/-- The quotient is an `int16_t` and not below a whole number it should be; and when the
tick counter has wrapped meanwhile, the wrapped ticks do not make a speed of it. -/
def SpeedFits (dx : Int) (ticks : Nat) : Prop :=
  (ticks < 4294967296 ∧ -32769 * (ticks : Int) < dx * 100000 ∧ dx * 100000 < 32768 * ticks
      ∧ NotBelow dx ticks)
    ∨ (4294967296 ≤ ticks ∧ dx.natAbs * 100000 < ticks % 4294967296)

instance (dx : Int) (ticks : Nat) : Decidable (SpeedFits dx ticks) :=
  inferInstanceAs (Decidable (_ ∨ _))

/-- There was a sample before, and the quotient fits. -/
def CycleFits (m : EncMon) : Act → Prop
  | .mde miso => samples m.sys = true →
      ∃ x₀ t₀, m.last = some (x₀, t₀)
        ∧ SpeedFits (circDiff x₀ (m.sample miso)) (m.sys.vars.time - t₀)
  | _ => True

/-! ## The invariant -/

/-- The locals of the thread are the last sample. -/
def EncInv (m : EncMon) : Prop :=
  ∀ x₀ t₀, m.last = some (x₀, t₀) → m.sys.mde.oldX = x₀ ∧ m.sys.mde.oldT = UInt32.ofNat t₀

/-- What a cycle does. -/
theorem sysNext_sample (fpu : Fpu) {s : Sys} (h : samples s = true) (miso : UInt16) :
    (sysNext fpu s (.mde miso)).mde.oldX = encAzOf s.mde.fc miso.toUInt8
      ∧ (sysNext fpu s (.mde miso)).mde.oldT = chVTGetSystemTimeX s.vars
      ∧ (sysNext fpu s (.mde miso)).vars.mde.encAzSpeed
        = fpu.speed (encDiff (encAzOf s.mde.fc miso.toUInt8) s.mde.oldX)
          (chVTGetSystemTimeX s.vars - s.mde.oldT) := by
  cases hpc : s.mde.pc with
  | poll i =>
      have hi : ¬ i + 1 < pollWords.length := by simpa [samples, hpc] using h
      simp only [sysNext, mdeStep_sample fpu miso s.vars hpc hi]
      exact ⟨rfl, rfl, rfl⟩
  | _ => simp [samples, hpc] at h

theorem encInv_next (fpu : Fpu) (m : EncMon) (a : Act) (h : EncInv m) :
    EncInv (encMonNext fpu m a) := by
  cases a with
  | mde miso =>
      cases hsam : samples m.sys with
      | true =>
          obtain ⟨hX, hT, -⟩ := sysNext_sample fpu hsam miso
          intro x₀ t₀ hlast
          simp only [encMonNext, hsam, if_true, Option.some.injEq, Prod.mk.injEq] at hlast
          obtain ⟨rfl, rfl⟩ := hlast
          exact ⟨hX, hT⟩
      | false =>
          have hno : ∀ i, m.sys.mde.pc = .poll i → i + 1 < pollWords.length := by
            intro i hpc
            simpa [samples, hpc] using hsam
          obtain ⟨hT, hX⟩ := mdeStep_keepsOld fpu miso m.sys.vars hno
          intro x₀ t₀ hlast
          simp only [encMonNext, hsam, Bool.false_eq_true, if_false] at hlast
          obtain ⟨hx, ht⟩ := h x₀ t₀ hlast
          exact ⟨hX.trans hx, hT.trans ht⟩
  | ctrl => exact h
  | req r => exact h
  | imu r => exact h
  | tick n => exact h

/-! ## One cycle -/

/-- Bounds on a quotient by a positive number. -/
theorem quotient_mem_iff {a : Int} {b : Nat} (hb : b ≠ 0) :
    (-32769 < (a / b : ℚ) ∧ (a / b : ℚ) < 32768) ↔ -32769 * (b : Int) < a ∧ a < 32768 * b := by
  have hpos : (0 : ℚ) < b := by exact_mod_cast Nat.pos_of_ne_zero hb
  rw [lt_div_iff₀ hpos, div_lt_iff₀ hpos]
  norm_cast

/-- A quotient vanishes when the divisor is the larger number. -/
theorem tdiv_eq_zero_iff {a : Int} {b : Nat} (hb : b ≠ 0) : a.tdiv b = 0 ↔ a.natAbs < b := by
  rw [← Int.natAbs_eq_zero, Int.natAbs_tdiv, Int.natAbs_natCast]
  exact Nat.div_eq_zero_iff_lt (Nat.pos_of_ne_zero hb)

section Quotient

variable {dx : Int} (hdx : |dx| ≤ 32768) {ticks : Nat} (hticks : ticks ≠ 0)

include hdx hticks

/-- The speed that is stored is the one asked for and in range exactly when the quotient
is in range and has not fallen below. -/
theorem dxOverDt_trunc_iff :
    ((-32769 < dxOverDt dx ticks ∧ dxOverDt dx ticks < 32768)
        ∧ trunc (dxOverDt dx ticks) = (dx * 100000).tdiv ticks)
      ↔ (-32769 * (ticks : Int) < dx * 100000 ∧ dx * 100000 < 32768 * ticks)
        ∧ NotBelow dx ticks := by
  rw [NotBelow, ← trunc_near_div hticks (dxOverDt_near hdx hticks), ← quotient_mem_iff hticks,
    mem_iff_trunc_mem, mem_iff_trunc_mem, trunc_div]
  refine and_congr_left fun htrunc => ?_
  rw [htrunc]

/-- The speed vanishes exactly when it should: a quotient of one is not rounded down. -/
theorem trunc_dxOverDt_eq_zero_iff :
    trunc (dxOverDt dx ticks) = 0 ↔ dx.natAbs * 100000 < ticks := by
  have hpos : (0 : ℚ) < ticks := by exact_mod_cast Nat.pos_of_ne_zero hticks
  have hnear := dxOverDt_near hdx hticks
  have habs : |((dx * 100000 : Int) / ticks : ℚ)| = (dx.natAbs * 100000 : Nat) / ticks := by
    rw [abs_div, Nat.abs_cast, ← Int.cast_abs, Int.abs_eq_natAbs, Int.natAbs_mul]
    rfl
  have hunit : (ticks : ℚ) / ticks = 1 := div_self hpos.ne'
  rw [trunc_eq_zero_iff]
  rcases lt_trichotomy (dx.natAbs * 100000) ticks with hlt | heq | hgt
  · have hstep : ((dx.natAbs * 100000 : Nat) : ℚ) / ticks + 1 / ticks ≤ ticks / ticks := by
      rw [← add_div]
      refine div_le_div_of_nonneg_right ?_ hpos.le
      exact_mod_cast hlt
    have htri := abs_sub_abs_le_abs_sub (dxOverDt dx ticks) ((dx * 100000 : Int) / ticks)
    exact iff_of_true (by linarith) hlt
  · rw [abs_dxOverDt_eq_one hdx hticks heq]
    exact iff_of_false (lt_irrefl 1) (by omega)
  · have hstep : (ticks : ℚ) / ticks + 1 / ticks ≤ ((dx.natAbs * 100000 : Nat) : ℚ) / ticks := by
      rw [← add_div]
      refine div_le_div_of_nonneg_right ?_ hpos.le
      exact_mod_cast hgt
    have htri := abs_sub_abs_le_abs_sub ((dx * 100000 : Int) / ticks : ℚ) (dxOverDt dx ticks)
    rw [abs_sub_comm] at htri
    exact iff_of_false (by linarith) (by omega)

end Quotient

/-- The speed that the ticks modulo 2^32 give is the one of the ticks when they fit. -/
theorem speedFits_iff {dx : Int} (hdx : |dx| ≤ 32768) {ticks : Nat} (hticks : 300 ≤ ticks) :
    (ticks % 4294967296 ≠ 0
        ∧ (-32769 < dxOverDt dx (ticks % 4294967296)
          ∧ dxOverDt dx (ticks % 4294967296) < 32768)
        ∧ trunc (dxOverDt dx (ticks % 4294967296)) = (dx * 100000).tdiv ticks)
      ↔ SpeedFits dx ticks := by
  rcases Nat.lt_or_ge ticks 4294967296 with hlt | hge
  · have hmod : ticks % 4294967296 = ticks := Nat.mod_eq_of_lt hlt
    have hne : ticks ≠ 0 := by omega
    have hwrap : ¬ 4294967296 ≤ ticks := by omega
    rw [hmod, dxOverDt_trunc_iff hdx hne, SpeedFits]
    simp only [hne, hlt, hwrap, ne_eq, not_false_eq_true, true_and, false_and, or_false, and_assoc]
  · -- more than 2^32 ticks: the speed should be 0
    have hzero : (dx * 100000).tdiv ticks = 0 := by
      rw [abs_le] at hdx
      exact (tdiv_eq_zero_iff (by omega)).mpr (by omega)
    rw [hzero, SpeedFits]
    constructor
    · rintro ⟨hne, -, htrunc⟩
      exact Or.inr ⟨hge, (trunc_dxOverDt_eq_zero_iff hdx hne).mp htrunc⟩
    · rintro (⟨hlt, -⟩ | ⟨-, hsmall⟩)
      · omega
      · have hne : ticks % 4294967296 ≠ 0 := by omega
        have htrunc := (trunc_dxOverDt_eq_zero_iff hdx hne).mpr hsmall
        refine ⟨hne, (mem_iff_trunc_mem _).mpr ?_, htrunc⟩
        rw [htrunc]
        decide

section Cycle

variable (fpu : Fpu) {m : EncMon} (hinv : EncInv m) {x₀ : UInt16} {t₀ : Nat}
  (hlast : m.last = some (x₀, t₀)) (hapart : t₀ + 300 ≤ m.sys.vars.time)

include hinv hlast

theorem ticks_toNat (hle : t₀ ≤ m.sys.vars.time) :
    m.ticks.toNat = (m.sys.vars.time - t₀) % 4294967296 := by
  rw [EncMon.ticks, (hinv x₀ t₀ hlast).2]
  exact toNat_sub_ofNat32 hle

theorem speedDouble_eq (miso : UInt16) :
    m.speedDouble miso = dxOverDt (circDiff x₀ (m.sample miso)) m.ticks.toNat := by
  rw [EncMon.speedDouble, encDiff_toInt, (hinv x₀ t₀ hlast).1]

include hapart

/-- A cycle with a sample before it is right exactly when the quotient fits. -/
theorem speedExact_iff (hsam : samples m.sys = true) (miso : UInt16) :
    SpeedExact fpu.doubleSpeed m miso x₀ t₀
      ↔ SpeedFits (circDiff x₀ (m.sample miso)) (m.sys.vars.time - t₀) := by
  obtain ⟨-, -, hspeed⟩ := sysNext_sample fpu.doubleSpeed hsam miso
  obtain ⟨-, -, hlo, hhi⟩ := circDiff_spec x₀ (m.sample miso)
  have hdouble := speedDouble_eq hinv hlast miso
  have hticks := ticks_toNat hinv hlast (by omega)
  have hne : m.ticks ≠ 0 ↔ (m.sys.vars.time - t₀) % 4294967296 ≠ 0 := by
    rw [← hticks, Ne, ← UInt32.toNat_inj]
    rfl
  have hgoal : trunc (circDiff x₀ (m.sample miso) * 100000 / (m.sys.vars.time - t₀ : Nat))
      = (circDiff x₀ (m.sample miso) * 100000).tdiv (m.sys.vars.time - t₀ : Nat) := by
    rw [← trunc_div]
    push_cast
    rfl
  rw [hticks] at hdouble
  rw [← speedFits_iff (abs_le.mpr ⟨hlo, by omega⟩)
    (show 300 ≤ m.sys.vars.time - t₀ by omega), ← hdouble, ← hne, ← hgoal]
  -- in range the conversion truncates the quotient by the wrapped ticks
  have hstored : m.ticks ≠ 0 → -32769 < m.speedDouble miso → m.speedDouble miso < 32768 →
      (sysNext fpu.doubleSpeed m.sys (.mde miso)).vars.mde.encAzSpeed.toInt
        = trunc (m.speedDouble miso) := by
    intro hz h1 h2
    have hconv : (sysNext fpu.doubleSpeed m.sys (.mde miso)).vars.mde.encAzSpeed
        = fpu.toI16 (m.speedDouble miso) := hspeed.trans (if_neg hz)
    rw [hconv, fpu.toInt_toI16 h1 h2]
  constructor
  · intro h
    exact ⟨h.ticks_ne, h.range, (hstored h.ticks_ne h.range.1 h.range.2).symm.trans h.speed⟩
  · rintro ⟨hz, hrange, htrunc⟩
    exact ⟨hlast, hz, hrange, (hstored hz hrange.1 hrange.2).trans htrunc⟩

end Cycle

theorem cycleOk_iff (fpu : Fpu) (m : EncMon) (a : Act) (h : EncInv m) (hapart : CyclesApart m a) :
    CycleOk fpu.doubleSpeed m a ↔ CycleFits m a := by
  cases a with
  | mde miso =>
      cases hsam : samples m.sys with
      | false => simp only [CycleOk, CycleFits, hsam, Bool.false_eq_true, false_implies]
      | true =>
          simp only [CycleOk, CycleFits, hsam, true_implies]
          refine exists_congr fun x₀ => exists_congr fun t₀ => ?_
          constructor
          · intro hexact
            have happ := hapart hsam (x₀, t₀) hexact.last
            exact ⟨hexact.last, (speedExact_iff fpu h hexact.last happ hsam miso).mp hexact⟩
          · rintro ⟨hlast, hfits⟩
            exact (speedExact_iff fpu h hlast (hapart hsam (x₀, t₀) hlast) hsam miso).mpr hfits
  | ctrl => exact Iff.rfl
  | req r => exact Iff.rfl
  | imu r => exact Iff.rfl
  | tick n => exact Iff.rfl

/-- In every run from start-up on whose samples are at least 3 ms apart, a cycle
stores the speed of the encoder exactly when there was a sample before, the
quotient fits, and no whole quotient has come out below itself. -/
theorem encoder_speed_exact (fpu : Fpu) (oldAz : UInt16) (oldT : SysTime) (oldX : UInt16)
    (fc : UInt8) (as : List Act)
    (hapart : Along (encMonNext fpu.doubleSpeed) CyclesApart (EncMon.boot oldAz oldT oldX fc) as) :
    Along (encMonNext fpu.doubleSpeed) (fun m a => CycleOk fpu.doubleSpeed m a ↔ CycleFits m a)
      (EncMon.boot oldAz oldT oldX fc) as := by
  refine along_of_invariant (I := EncInv) (fun m a h _ => encInv_next fpu.doubleSpeed m a h)
    (fun m a h hq => cycleOk_iff fpu m a h hq) ?_ hapart
  intro x₀ t₀ hlast
  cases hlast

/-- The MDE is powered up and polled, up to the last reply of the first reading. -/
def upToReading : List Act := .req .mdePowerUp :: List.replicate 140 (.mde 0xFF)

/-- A reading of 0, and the next one some ticks later up to its last reply. -/
def upToSecond (ticks : Nat) : List Act :=
  upToReading ++ [.mde 0xFF, .tick ticks] ++ List.replicate 10 (.mde 0xFF)

/-- Three counts in 3 ms are 1000 counts per second. -/
theorem encoder_speed_second_cycle :
    Along (encMonNext Fpu.modular.doubleSpeed)
        (fun m a => CycleOk Fpu.modular.doubleSpeed m a ↔ CycleFits m a)
        (EncMon.boot 0 0 0 0) (upToSecond 300 ++ [.mde 0xFC])
      ∧ (run (sysNext Fpu.modular.doubleSpeed) (Sys.boot 0 0 0 0)
          (upToSecond 300 ++ [.mde 0xFC])).vars.mde.encAzSpeed = 1000 :=
  ⟨encoder_speed_exact Fpu.modular 0 0 0 0 (upToSecond 300 ++ [.mde 0xFC]) (by decide +kernel),
    by decide +kernel⟩

/-- The first reading is compared with what was on the stack; one that jumps by 255 counts
in 300 ticks asks for 85000 in an `int16_t`; and 79 counts in 395 ticks are 20000 a second
but stored as 19999. -/
theorem encoder_speed_garbage :
    (run (encMonNext Fpu.modular.doubleSpeed) (EncMon.boot 0 0 0 0) upToReading).last = none
      ∧ ¬ Along (encMonNext Fpu.modular.doubleSpeed) (CycleOk Fpu.modular.doubleSpeed)
        (EncMon.boot 0 0 0 0) (upToReading ++ [.mde 0xFF])
      ∧ (run (encMonNext Fpu.modular.doubleSpeed) (EncMon.boot 0 0 0 0)
          (upToSecond 300)).speedDouble 0 = 85000
      ∧ (run (sysNext Fpu.modular.doubleSpeed) (Sys.boot 0 0 0 0)
          (upToSecond 395 ++ [.mde 0xB0])).vars.mde.encAzSpeed = 19999 := by
  have hnone : (run (encMonNext Fpu.modular.doubleSpeed) (EncMon.boot 0 0 0 0) upToReading).last
      = none := by
    decide +kernel
  refine ⟨hnone, fun h => ?_, by decide +kernel, by decide +kernel⟩
  obtain ⟨-, hcycle, -⟩ := (along_append _ _ _).mp h
  obtain ⟨x₀, t₀, hexact⟩ := hcycle (by decide +kernel)
  cases hnone.symm.trans hexact.last

end Seatel
