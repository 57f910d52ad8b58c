import Mathlib.Data.Int.ModEq
import Mathlib.Tactic.Ring
import Seatel.Ctrl

/-!
# Targets that move

Both closed loops aim at the stored target plus `tgt_pos_spd` times the
milliseconds since it was stored, over 1000. The speed is an `int16_t` and
the milliseconds are unsigned 32-bit, so the product is taken modulo 2^32:
what is added is never negative, and the sum is converted from `double`
without a look at its range.

With `q` for the multiple of 2^32 that the product loses, the azimuth is
off by `q * 2^32 / 1000` counts, which is a whole number of turns for every
125th `q` only. That and the range of the conversions is all that can go
wrong (`targets_exact_iff`).
-/

namespace Seatel

open CInt

/-! ## The targets as they should be -/

/-- The milliseconds since the azimuth target was stored. -/
def azTgtMs (v : Vars) : Nat := (timeI2Ms (chVTGetSystemTimeX v - v.ctrl.azTgtPosTim)).toNat

/-- The milliseconds since the elevation target was stored. -/
def elTgtMs (v : Vars) : Nat := (timeI2Ms (chVTGetSystemTimeX v - v.ctrl.elTgtPosTim)).toNat

/-- Speed times milliseconds, in thousandths of a count. -/
def azTravel (v : Vars) : Int := v.ctrl.azTgtPosSpd.toInt * azTgtMs v

def elTravel (v : Vars) : Int := v.ctrl.elTgtPosSpd.toInt * elTgtMs v

/-- The `double` that is converted to `uint16_t`. -/
def azTgtDouble (v : Vars) : ℚ :=
  v.ctrl.azTgtPos.toNat
    + tgtPosShift v.ctrl.azTgtPosSpd (chVTGetSystemTimeX v - v.ctrl.azTgtPosTim)

/-- The `double` that is converted to `int16_t`. -/
def elTgtDouble (v : Vars) : ℚ :=
  v.ctrl.elTgtPos.toInt
    + tgtPosShift v.ctrl.elTgtPosSpd (chVTGetSystemTimeX v - v.ctrl.elTgtPosTim)

/-- What an iteration owes to moving targets: both conversions are in range, and both
targets are less than a count from where the target is, for azimuth on the circle and
for elevation when an `int16_t` can hold it. -/
structure TargetsExact (fpu : Fpu) (v : Vars) : Prop where
  az_range : -1 < azTgtDouble v ∧ azTgtDouble v < 65536
  az_close : ∃ k : Int, |((azTgt fpu v).toNat : ℚ)
    - (v.ctrl.azTgtPos.toNat + azTravel v / 1000) - 65536 * k| < 1
  el_range : -32769 < elTgtDouble v ∧ elTgtDouble v < 32768
  el_close : -32769 < (v.ctrl.elTgtPos.toInt + elTravel v / 1000 : ℚ) →
    (v.ctrl.elTgtPos.toInt + elTravel v / 1000 : ℚ) < 32768 →
    |((elTgt fpu v).toInt : ℚ) - (v.ctrl.elTgtPos.toInt + elTravel v / 1000)| < 1

/-- The product loses a whole number of turns, and what is left of it leads neither
target out of its type. -/
structure TravelOk (v : Vars) : Prop where
  turns : 125 ∣ azTravel v / 4294967296
  az_le : 1000 * v.ctrl.azTgtPos.toNat + azTravel v % 4294967296 < 65536000
  el_le : 1000 * v.ctrl.elTgtPos.toInt + elTravel v % 4294967296 < 32768000

/-! ## In thousandths of a count -/

/-- The product of a speed and milliseconds is taken modulo 2^32. -/
theorem toNat_mul_ofInt (s : Int) (m : UInt32) :
    ((UInt32.ofInt s * m).toNat : Int) = s * m.toNat % 4294967296 := by
  have hs : ((UInt32.ofInt s).toNat : Int) = s % 4294967296 := by
    have h := Int.emod_nonneg s (show (4294967296 : Int) ≠ 0 by decide)
    have h' := Int.emod_lt_of_pos s (show (0 : Int) < 4294967296 by decide)
    simp only [UInt32.ofInt, UInt32.toNat_ofNat']
    omega
  rw [UInt32.toNat_mul, Int.natCast_emod, Int.natCast_mul, hs]
  exact Int.ModEq.mul_right _ (Int.mod_modEq s _)

theorem tgtPosShift_eq (spd : Int16) (elapsed : SysTime) :
    tgtPosShift spd elapsed
      = ((spd.toInt * (timeI2Ms elapsed).toNat % 4294967296 : Int) : ℚ) / 1000 := by
  rw [tgtPosShift, ← toNat_mul_ofInt, Int.cast_natCast]

theorem azTgtDouble_eq (v : Vars) :
    azTgtDouble v
      = ((1000 * v.ctrl.azTgtPos.toNat + azTravel v % 4294967296 : Int) : ℚ) / (1000 : Nat) := by
  rw [azTgtDouble, tgtPosShift_eq, azTravel, azTgtMs]
  push_cast
  ring

theorem elTgtDouble_eq (v : Vars) :
    elTgtDouble v
      = ((1000 * v.ctrl.elTgtPos.toInt + elTravel v % 4294967296 : Int) : ℚ) / (1000 : Nat) := by
  rw [elTgtDouble, tgtPosShift_eq, elTravel, elTgtMs]
  push_cast
  ring

/-- Bounds on a number of thousandths. -/
theorem div_lt_iff_int {a n : Int} : (a / (1000 : Nat) : ℚ) < n ↔ a < 1000 * n := by
  rw [div_lt_iff₀ (by norm_num)]
  norm_cast
  omega

theorem lt_div_iff_int {a n : Int} : (n : ℚ) < (a / (1000 : Nat) : ℚ) ↔ 1000 * n < a := by
  rw [lt_div_iff₀ (by norm_num)]
  norm_cast
  omega

theorem abs_lt_one_iff {t a : Int} :
    |(t : ℚ) - a / (1000 : Nat)| < 1 ↔ -1000 < 1000 * t - a ∧ 1000 * t - a < 1000 := by
  rw [abs_lt]
  have hlo : -1 < (t : ℚ) - a / (1000 : Nat) ↔ (a / (1000 : Nat) : ℚ) < (t + 1 : Int) := by
    push_cast
    constructor <;> intro h <;> linarith
  have hhi : (t : ℚ) - a / (1000 : Nat) < 1 ↔ ((t - 1 : Int) : ℚ) < a / (1000 : Nat) := by
    push_cast
    constructor <;> intro h <;> linarith
  rw [hlo, hhi, div_lt_iff_int, lt_div_iff_int]
  omega

/-! ## Azimuth -/

theorem azTgt_toNat (fpu : Fpu) {v : Vars}
    (hle : 1000 * v.ctrl.azTgtPos.toNat + azTravel v % 4294967296 < 65536000) :
    ((azTgt fpu v).toNat : Int)
      = (1000 * v.ctrl.azTgtPos.toNat + azTravel v % 4294967296) / 1000 := by
  have hpos := Int.emod_nonneg (azTravel v) (show (4294967296 : Int) ≠ 0 by decide)
  have hlo : ((-1 : Int) : ℚ) < azTgtDouble v := by
    rw [azTgtDouble_eq, lt_div_iff_int]
    omega
  have hhi : azTgtDouble v < (65536 : Int) := by
    rw [azTgtDouble_eq, div_lt_iff_int]
    omega
  have htgt : azTgt fpu v = UInt16.ofInt (trunc (azTgtDouble v)) :=
    fpu.toU16_of_lt _ (by exact_mod_cast hlo) (by exact_mod_cast hhi)
  rw [htgt, toNat_ofIntU16, azTgtDouble_eq, trunc_div, Int.tdiv_eq_ediv_of_nonneg (by omega)]
  exact Int.emod_eq_of_lt (by omega) (by omega)

theorem az_range_iff (v : Vars) :
    (-1 < azTgtDouble v ∧ azTgtDouble v < 65536)
      ↔ 1000 * v.ctrl.azTgtPos.toNat + azTravel v % 4294967296 < 65536000 := by
  have hpos := Int.emod_nonneg (azTravel v) (show (4294967296 : Int) ≠ 0 by decide)
  have hlo : (-1 : ℚ) = (-1 : Int) := by norm_num
  have hhi : (65536 : ℚ) = (65536 : Int) := by norm_num
  rw [azTgtDouble_eq, hlo, hhi, lt_div_iff_int, div_lt_iff_int]
  omega

/-- In range the azimuth is right on the circle exactly when whole turns are lost. -/
theorem az_close_iff (fpu : Fpu) {v : Vars}
    (hle : 1000 * v.ctrl.azTgtPos.toNat + azTravel v % 4294967296 < 65536000) :
    (∃ k : Int, |((azTgt fpu v).toNat : ℚ)
        - (v.ctrl.azTgtPos.toNat + azTravel v / 1000) - 65536 * k| < 1)
      ↔ 125 ∣ azTravel v / 4294967296 := by
  have htgt := azTgt_toNat fpu hle
  have hint : ∀ k : Int, |((azTgt fpu v).toNat : ℚ)
        - (v.ctrl.azTgtPos.toNat + azTravel v / 1000) - 65536 * k| < 1
      ↔ -1000 < 1000 * ((azTgt fpu v).toNat : Int)
            - (1000 * v.ctrl.azTgtPos.toNat + azTravel v + 65536000 * k)
        ∧ 1000 * ((azTgt fpu v).toNat : Int)
            - (1000 * v.ctrl.azTgtPos.toNat + azTravel v + 65536000 * k) < 1000 := by
    intro k
    rw [← abs_lt_one_iff]
    push_cast
    ring_nf
  simp only [hint, htgt]
  generalize azTravel v = n at *
  constructor
  · rintro ⟨k, h1, h2⟩
    omega
  · rintro ⟨q, hq⟩
    exact ⟨-(8192 * q), by omega, by omega⟩

/-! ## Elevation -/

theorem el_range_iff (v : Vars) :
    (-32769 < elTgtDouble v ∧ elTgtDouble v < 32768)
      ↔ 1000 * v.ctrl.elTgtPos.toInt + elTravel v % 4294967296 < 32768000 := by
  have hpos := Int.emod_nonneg (elTravel v) (show (4294967296 : Int) ≠ 0 by decide)
  obtain ⟨h1, h2⟩ := toInt16_mem v.ctrl.elTgtPos
  have hlo : (-32769 : ℚ) = (-32769 : Int) := by norm_num
  have hhi : (32768 : ℚ) = (32768 : Int) := by norm_num
  rw [elTgtDouble_eq, hlo, hhi, lt_div_iff_int, div_lt_iff_int]
  omega

theorem elTgt_toInt (fpu : Fpu) {v : Vars}
    (hle : 1000 * v.ctrl.elTgtPos.toInt + elTravel v % 4294967296 < 32768000) :
    (elTgt fpu v).toInt
      = (1000 * v.ctrl.elTgtPos.toInt + elTravel v % 4294967296).tdiv 1000 := by
  obtain ⟨hlo, hhi⟩ := (el_range_iff v).mpr hle
  have htgt : (elTgt fpu v).toInt = trunc (elTgtDouble v) := fpu.toInt_toI16 hlo hhi
  rw [htgt, elTgtDouble_eq, trunc_div]
  rfl

/-- In range the elevation is right, or the target is none of an `int16_t`. -/
theorem el_close (fpu : Fpu) {v : Vars}
    (hle : 1000 * v.ctrl.elTgtPos.toInt + elTravel v % 4294967296 < 32768000)
    (hlo : -32769 < (v.ctrl.elTgtPos.toInt + elTravel v / 1000 : ℚ))
    (hhi : (v.ctrl.elTgtPos.toInt + elTravel v / 1000 : ℚ) < 32768) :
    |((elTgt fpu v).toInt : ℚ) - (v.ctrl.elTgtPos.toInt + elTravel v / 1000)| < 1 := by
  have hsum : (v.ctrl.elTgtPos.toInt + elTravel v / 1000 : ℚ)
      = ((1000 * v.ctrl.elTgtPos.toInt + elTravel v : Int) : ℚ) / (1000 : Nat) := by
    push_cast
    ring
  rw [hsum] at hlo hhi ⊢
  have hlo' : ((-32769 : Int) : ℚ)
      < ((1000 * v.ctrl.elTgtPos.toInt + elTravel v : Int) : ℚ) / (1000 : Nat) := by
    exact_mod_cast hlo
  have hhi' : ((1000 * v.ctrl.elTgtPos.toInt + elTravel v : Int) : ℚ) / (1000 : Nat)
      < (32768 : Int) := by
    exact_mod_cast hhi
  rw [lt_div_iff_int] at hlo'
  rw [div_lt_iff_int] at hhi'
  rw [abs_lt_one_iff, elTgt_toInt fpu hle]
  obtain ⟨h1, h2⟩ := toInt16_mem v.ctrl.elTgtPos
  have hq := tdiv_spec (1000 * v.ctrl.elTgtPos.toInt + elTravel v % 4294967296)
    (show (0 : Int) < 1000 by decide)
  omega

/-- Both targets are extrapolated as they should be exactly when the product loses
whole turns and neither sum leaves its type. -/
theorem targets_exact_iff (fpu : Fpu) (v : Vars) : TargetsExact fpu v ↔ TravelOk v := by
  constructor
  · intro h
    have hle := (az_range_iff v).mp h.az_range
    exact ⟨(az_close_iff fpu hle).mp h.az_close, hle, (el_range_iff v).mp h.el_range⟩
  · intro h
    exact ⟨(az_range_iff v).mpr h.az_le, (az_close_iff fpu h.az_le).mpr h.turns,
      (el_range_iff v).mpr h.el_le, el_close fpu h.el_le⟩

/-- A target at 90° that moves back by one degree per second, one second after it was
stored. -/
def movingBack : Vars where
  ctrl := { azTgtPos := 16384, azTgtPosSpd := -182 }
  time := 100000

/-- The product is 2^32 - 182000, and the sum is no `uint16_t`. -/
theorem targets_moving_back :
    azTravel movingBack = -182000 ∧ azTgtDouble movingBack = 4311169296 / 1000
      ∧ ∀ fpu, ¬ TargetsExact fpu movingBack := by
  have htravel : azTravel movingBack = -182000 := by decide +kernel
  have hdouble : azTgtDouble movingBack = 4311169296 / 1000 := by
    rw [azTgtDouble_eq, htravel]
    rfl
  refine ⟨htravel, hdouble, fun fpu h => ?_⟩
  have hrange := h.az_range.2
  rw [hdouble] at hrange
  norm_num at hrange

end Seatel
