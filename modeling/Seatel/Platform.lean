import Mathlib.Data.Nat.Cast.Field
import Mathlib.Data.Rat.Cast.Order
import Mathlib.Data.Rat.Floor
import Mathlib.Tactic.Linarith
import Seatel.CInt

/-!
# What the firmware takes from the platform

The system timer and the conversions from `double`. ChibiOS counts
100 kHz ticks in a 32-bit counter (`cfg/chconf.h`); `TIME_I2MS` is the
rounding macro of `chtime.h`, computed in 64 bits and cast to 32.

A `double` is read as the rational it denotes. Converting one to a
16-bit type truncates when the result fits and is undefined otherwise,
so the conversions are fields of an arbitrary `Fpu` that is pinned down
inside the range only; every result about the control loop holds for
each of them. The quotient `dx/dt` of the encoder speed stays an
arbitrary function of its two operands.
-/

namespace Seatel

/-- `systime_t` / `sysinterval_t`. -/
abbrev SysTime := UInt32

def chCfgStFrequency : Nat := 100000

/-- `TIME_I2MS`: ticks to milliseconds, rounded up. -/
def timeI2Ms (interval : SysTime) : UInt32 :=
  UInt32.ofNat ((interval.toNat * 1000 + chCfgStFrequency - 1) / chCfgStFrequency)

/-- Truncation towards zero, the value a conversion from `double` keeps. -/
def trunc (x : ℚ) : Int := x.num.tdiv x.den

/-- The conversions from `double`, arbitrary where C leaves them undefined. -/
structure Fpu where
  toU16 : ℚ → UInt16
  toI16 : ℚ → Int16
  /-- `(int16_t)(dx/dt)` for a difference of `dx` counts over a number of ticks. -/
  speed : Int16 → SysTime → Int16
  toU16_of_lt : ∀ x, -1 < x → x < 65536 → toU16 x = UInt16.ofInt (trunc x)
  toI16_of_lt : ∀ x, -32769 < x → x < 32768 → toI16 x = Int16.ofInt (trunc x)

/-- The unit that reduces every out-of-range result modulo the type. -/
def Fpu.modular : Fpu where
  toU16 x := UInt16.ofInt (trunc x)
  toI16 x := Int16.ofInt (trunc x)
  speed dx ticks := Int16.ofInt ((dx.toInt * chCfgStFrequency).tdiv ticks.toNat)
  toU16_of_lt _ _ _ := rfl
  toI16_of_lt _ _ _ := rfl

theorem trunc_intCast (n : Int) : trunc n = n := by
  simp [trunc]

theorem trunc_eq_floor {x : ℚ} (hx : 0 ≤ x) : trunc x = ⌊x⌋ := by
  rw [trunc, Rat.floor_def', Int.tdiv_eq_ediv_of_nonneg (Rat.num_nonneg.mpr hx)]

theorem trunc_neg (x : ℚ) : trunc (-x) = -trunc x := by
  rw [trunc, trunc, Rat.num_neg_eq_neg_num, Rat.den_neg_eq_den, Int.neg_tdiv]

/-- Cutting off changes less than one. -/
theorem abs_trunc_sub_lt (x : ℚ) : |(trunc x : ℚ) - x| < 1 := by
  have hfloor : ∀ y : ℚ, 0 ≤ y → |(trunc y : ℚ) - y| < 1 := by
    intro y hy
    rw [trunc_eq_floor hy, abs_lt]
    have hlo := Int.floor_le y
    have hhi := Int.lt_floor_add_one y
    constructor <;> linarith
  rcases le_total 0 x with hx | hx
  · exact hfloor x hx
  · have hneg := hfloor (-x) (by linarith)
    rw [trunc_neg, Int.cast_neg, neg_sub_neg, abs_sub_comm] at hneg
    exact hneg

theorem trunc_mem {x : ℚ} (hlo : -32769 < x) (hhi : x < 32768) :
    -32768 ≤ trunc x ∧ trunc x ≤ 32767 := by
  rcases le_total 0 x with hx | hx
  · have hpos : 0 ≤ ⌊x⌋ := Int.floor_nonneg.mpr hx
    have hlt : ⌊x⌋ < 32768 := Int.floor_lt.mpr (by exact_mod_cast hhi)
    rw [trunc_eq_floor hx]
    omega
  · have hpos : 0 ≤ ⌊-x⌋ := Int.floor_nonneg.mpr (by linarith)
    have hlt : ⌊-x⌋ < 32769 := Int.floor_lt.mpr (by push_cast; linarith)
    have hneg := trunc_eq_floor (x := -x) (by linarith)
    rw [trunc_neg] at hneg
    omega

/-- A quotient of integers is truncated as C divides them. -/
theorem trunc_div (a : Int) (b : Nat) : trunc (a / b : ℚ) = a.tdiv b := by
  have hnonneg : ∀ a : Int, 0 ≤ a → trunc (a / b : ℚ) = a.tdiv b := by
    intro a ha
    have hq : (0 : ℚ) ≤ a / b := div_nonneg (by exact_mod_cast ha) (Nat.cast_nonneg b)
    rw [trunc_eq_floor hq, Rat.floor_intCast_div_natCast, Int.tdiv_eq_ediv_of_nonneg ha]
  rcases le_total 0 a with ha | ha
  · exact hnonneg a ha
  · have hneg := hnonneg (-a) (by omega)
    rw [Int.cast_neg, neg_div, trunc_neg, Int.neg_tdiv] at hneg
    exact Int.neg_inj.mp hneg

/-- What truncates to an `int16_t`. -/
theorem mem_iff_trunc_mem (x : ℚ) :
    (-32769 < x ∧ x < 32768) ↔ -32768 ≤ trunc x ∧ trunc x ≤ 32767 := by
  constructor
  · rintro ⟨hlo, hhi⟩
    exact trunc_mem hlo hhi
  · rintro ⟨hlo, hhi⟩
    have hlo' : (-32768 : ℚ) ≤ trunc x := by exact_mod_cast hlo
    have hhi' : (trunc x : ℚ) ≤ 32767 := by exact_mod_cast hhi
    obtain ⟨h1, h2⟩ := abs_lt.mp (abs_trunc_sub_lt x)
    constructor <;> linarith

theorem trunc_eq_zero_iff (x : ℚ) : trunc x = 0 ↔ |x| < 1 := by
  have hnonneg : ∀ y : ℚ, 0 ≤ y → (trunc y = 0 ↔ y < 1) := by
    intro y hy
    rw [trunc_eq_floor hy, Int.floor_eq_zero_iff, Set.mem_Ico]
    exact and_iff_right hy
  rcases le_total 0 x with hx | hx
  · rw [hnonneg x hx, abs_of_nonneg hx]
  · have hneg := hnonneg (-x) (by linarith)
    rwa [trunc_neg, neg_eq_zero, ← abs_of_nonpos hx] at hneg

/-- A numerator that is not negative. -/
theorem trunc_near_natDiv {a b : Nat} (hb : b ≠ 0) {r : ℚ} (hnear : |r - a / b| < 1 / b) :
    trunc r = (a / b : Nat) ↔ (b ∣ a → (a / b : ℚ) ≤ |r|) := by
  have hpos : (0 : ℚ) < b := by exact_mod_cast Nat.pos_of_ne_zero hb
  obtain ⟨hlo, hhi⟩ := abs_lt.mp hnear
  rcases Nat.eq_zero_or_pos a with rfl | ha
  · have hone : (1 : ℚ) / b ≤ 1 := by
      rw [div_le_one hpos]
      exact_mod_cast Nat.pos_of_ne_zero hb
    rw [Nat.cast_zero, zero_div, sub_zero] at hnear
    simp [(trunc_eq_zero_iff r).mpr (hnear.trans_le hone)]
  · have hr : 0 < r := by
      have hge : (1 : ℚ) / b ≤ a / b := by
        refine div_le_div_of_nonneg_right ?_ hpos.le
        exact_mod_cast ha
      linarith
    have hup : r < (a / b : Nat) + 1 := by
      have hnext : ((a : ℚ) + 1) / b ≤ (a / b : Nat) + 1 := by
        rw [div_le_iff₀ hpos]
        exact_mod_cast Nat.lt_mul_of_div_lt (Nat.lt_succ_self (a / b)) (Nat.pos_of_ne_zero hb)
      rw [add_div] at hnext
      linarith
    rw [trunc_eq_floor hr.le, abs_of_pos hr, Int.floor_eq_iff]
    by_cases hdvd : b ∣ a
    · -- a whole number: the conversion keeps it or loses one
      have hwhole : (a / b : ℚ) = (a / b : Nat) := (Nat.cast_div hdvd hpos.ne').symm
      simp only [hdvd, true_implies, hwhole, Int.cast_natCast, hup, and_true]
    · have hbelow : ((a / b : Nat) : ℚ) ≤ r := by
        have hprev : ((a / b : Nat) : ℚ) ≤ (a - 1) / b := by
          rw [le_div_iff₀ hpos, le_sub_iff_add_le]
          have hlt : a / b * b < a :=
            lt_of_le_of_ne (Nat.div_mul_le_self a b) fun heq =>
              hdvd ⟨_, heq.symm.trans (mul_comm _ _)⟩
          exact_mod_cast hlt
        rw [sub_div] at hprev
        linarith
      simp only [hdvd, false_implies, iff_true, Int.cast_natCast]
      exact ⟨hbelow, hup⟩

/-- A quotient is truncated as the one it comes from, unless that one is a whole number
and it has fallen below. -/
theorem trunc_near_div {a : Int} {b : Nat} (hb : b ≠ 0) {r : ℚ} (hnear : |r - a / b| < 1 / b) :
    trunc r = a.tdiv b ↔ ((b : Int) ∣ a → |(a / b : ℚ)| ≤ |r|) := by
  have habs : |(a / b : ℚ)| = (a.natAbs / b : ℚ) := by
    rw [abs_div, Nat.abs_cast, Nat.cast_natAbs, Int.cast_abs]
  rw [habs, Int.natCast_dvd]
  rcases Int.natAbs_eq a with heq | heq
  · rw [heq, Int.cast_natCast] at hnear
    rw [← trunc_near_natDiv hb hnear, heq, Int.natAbs_natCast, Int.ofNat_tdiv]
  · have hneg : |-r - a.natAbs / b| < 1 / b := by
      rw [heq, Int.cast_neg, Int.cast_natCast, neg_div, sub_neg_eq_add, ← abs_neg] at hnear
      rwa [← neg_add']
    rw [← abs_neg r, ← trunc_near_natDiv hb hneg, trunc_neg, heq, Int.neg_tdiv, Int.natAbs_neg,
      Int.natAbs_natCast, Int.ofNat_tdiv, neg_eq_iff_eq_neg]

/-- A `double` in range is truncated. -/
theorem Fpu.toInt_toI16 (fpu : Fpu) {x : ℚ} (hlo : -32769 < x) (hhi : x < 32768) :
    (fpu.toI16 x).toInt = trunc x := by
  obtain ⟨h1, h2⟩ := trunc_mem hlo hhi
  rw [fpu.toI16_of_lt x hlo hhi, Int16.toInt_ofInt_of_le h1 (by omega)]

/-- An integer-valued `double` in range keeps its value. -/
theorem Fpu.toU16_natCast (fpu : Fpu) (p : UInt16) : fpu.toU16 p.toNat = p := by
  have hp : p.toNat < 65536 := p.toNat_lt
  have hlt : (p.toNat : ℚ) < 65536 := by exact_mod_cast hp
  have hge : (-1 : ℚ) < p.toNat := by
    have : (0 : ℚ) ≤ p.toNat := by exact_mod_cast Nat.zero_le _
    linarith
  rw [fpu.toU16_of_lt _ hge hlt, ← Int.cast_natCast, trunc_intCast,
    CInt.ofInt_toNatU16]

theorem Fpu.toI16_intCast (fpu : Fpu) (p : Int16) : fpu.toI16 p.toInt = p := by
  obtain ⟨hlo, hhi⟩ := CInt.toInt16_mem p
  have hlt : (p.toInt : ℚ) ≤ 32767 := by exact_mod_cast hhi
  have hge : (-32768 : ℚ) ≤ p.toInt := by exact_mod_cast hlo
  rw [fpu.toI16_of_lt _ (by linarith) (by linarith), trunc_intCast, Int16.ofInt_toInt]

end Seatel
