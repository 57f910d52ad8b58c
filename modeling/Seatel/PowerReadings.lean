import Mathlib.Tactic.Linarith
import Mathlib.Tactic.NormNum
import Mathlib.Tactic.Positivity
import Seatel.FloatRounding
import Seatel.Ina3221Bus

/-!
# The power on the dashboard

The registers of an INA3221 count a shunt voltage in 5 µV and a bus voltage
in mV, and `ina3221_get_current_reading` takes a shunt of 10 mΩ: the power
is the product of the two numbers, in units of 1/2000 mW. It is computed
partly in `float` and partly in `double` and then cut off to whole milliwatts.

None of the intermediate results leaves the range of its type for registers
of 16 bits, so the roundings add up to less than a quarter of a milliwatt,
and what is reported is the power of the last good round to within 5/4 mW
(`power_reading_near`).
-/

namespace Seatel

open Runs FloatRounding

/-! ## Rounding -/

/-- Zero, or far from both ends of the range of a `float`. -/
def InScale (x : ℚ) : Prop := x = 0 ∨ 1 / 10000 ≤ |x| ∧ |x| ≤ 1000000000000

/-- A result in `float`, if need be by way of a `double`, and one in `double`. -/
structure PowerRounding where
  single : ℚ → ℚ
  double : ℚ → ℚ
  single_near : ∀ x, InScale x → |single x - x| ≤ |x| / 2 ^ 23
  double_near : ∀ x, InScale x → |double x - x| ≤ |x| / 2 ^ 50

/-- A `float` by way of a `double`. -/
theorem float_near (x : ℚ) : |roundTo 24 (roundTo 53 x) - x| ≤ |x| / 2 ^ 23 := by
  have hdouble := abs_roundTo_sub_le 53 x
  have hfloat := abs_roundTo_sub_le 24 (roundTo 53 x)
  have hle := abs_sub_abs_le_abs_sub (roundTo 53 x) x
  have htri := abs_sub_le (roundTo 24 (roundTo 53 x)) (roundTo 53 x) x
  linarith [abs_nonneg x]

/-- To the nearest, ties to even. -/
def PowerRounding.nearest : PowerRounding where
  single x := roundTo 24 (roundTo 53 x)
  double := roundTo 53
  single_near x _ := float_near x
  double_near x _ := (abs_roundTo_sub_le 53 x).trans (by gcongr <;> norm_num)

/-- `MON_NMWATT` of `ina3221_get_current_reading`, for a shunt of 0.01 ohms. -/
def wattReading (r : PowerRounding) (shuntVolt busVolt : Int32) : Int32 :=
  let current := r.single (shuntVolt.toInt * 5 / (1 / 100))
  Int32.ofInt (trunc (r.double (r.single (current * busVolt.toInt) / 1000000)))

variable (r : PowerRounding)

/-- A product of whole numbers in scale. -/
theorem inScale_intCast {n : Int} (hn : |n| ≤ 1000000000000) : InScale n := by
  by_cases hzero : n = 0
  · left
    rw [hzero, Int.cast_zero]
  · right
    have hone : (1 : ℚ) ≤ |(n : ℚ)| := by exact_mod_cast Int.one_le_abs hzero
    have hle : |(n : ℚ)| ≤ 1000000000000 := by exact_mod_cast hn
    exact ⟨by linarith, hle⟩

/-- A power in units of 10^-6 mW that has been rounded, and the same in mW. -/
theorem inScale_near {x y : ℚ} (h : |y - x| ≤ |x| / 2 ^ 20)
    (hx : x = 0 ∨ 500 ≤ |x| ∧ |x| ≤ 500 * (32768 * 32768)) :
    InScale y ∧ InScale (y / 1000000) := by
  have hlo := abs_sub_abs_le_abs_sub x y
  have hhi := abs_sub_abs_le_abs_sub y x
  rw [abs_sub_comm] at hlo
  rcases hx with rfl | ⟨hx, hx'⟩
  · rw [sub_zero, abs_zero, zero_div] at h
    have hzero := abs_nonpos_iff.mp h
    rw [hzero, zero_div]
    exact ⟨.inl rfl, .inl rfl⟩
  · have habs : |y / 1000000| = |y| / 1000000 := by
      rw [abs_div, abs_of_pos (by norm_num : (0 : ℚ) < 1000000)]
    refine ⟨.inr ⟨by linarith, by linarith⟩, .inr ?_⟩
    rw [habs]
    constructor <;> linarith

/-- The product of two registers, in units of 10^-6 mW. -/
theorem registers_mem {s b : Int} (hs : |s| ≤ 32768) (hb : |b| ≤ 32768) :
    (500 * (s * b) : ℚ) = 0
      ∨ 500 ≤ |(500 * (s * b) : ℚ)| ∧ |(500 * (s * b) : ℚ)| ≤ 500 * (32768 * 32768) := by
  have hsb : |s * b| ≤ 32768 * 32768 := by
    rw [abs_mul]
    exact mul_le_mul hs hb (abs_nonneg b) (by norm_num)
  have hsb' : |(s * b : ℚ)| ≤ 32768 * 32768 := by exact_mod_cast hsb
  rw [abs_mul, abs_of_pos (by norm_num : (0 : ℚ) < 500)]
  by_cases hzero : s * b = 0
  · left
    exact_mod_cast congrArg (500 * ·) hzero
  · right
    have hone : (1 : ℚ) ≤ |(s * b : ℚ)| := by exact_mod_cast Int.one_le_abs hzero
    constructor <;> linarith

/-- The current in µA is rounded once; times a voltage it is still as close to the power. -/
theorem product_near {s : Int} (hs : |s| ≤ 32768) (b : Int) :
    |r.single (s * 5 / (1 / 100)) * b - 500 * (s * b)| ≤ |(500 * (s * b) : ℚ)| / 2 ^ 23 := by
  have hcur : (s : ℚ) * 5 / (1 / 100) = (500 * s : Int) := by
    push_cast
    ring
  have hscale : InScale (500 * s : Int) := by
    refine inScale_intCast ?_
    rw [abs_mul, abs_of_pos (by norm_num : (0 : Int) < 500)]
    linarith
  have hcurrent := r.single_near _ hscale
  rw [hcur]
  generalize r.single ((500 * s : Int) : ℚ) = current at hcurrent ⊢
  have hsplit : current * b - 500 * (s * b) = (current - (500 * s : Int)) * b := by
    push_cast
    ring
  have habs : |(500 * (s * b) : ℚ)| = |((500 * s : Int) : ℚ)| * |(b : ℚ)| := by
    rw [← abs_mul]
    push_cast
    ring_nf
  rw [hsplit, abs_mul, habs]
  calc |current - (500 * s : Int)| * |(b : ℚ)|
      ≤ |((500 * s : Int) : ℚ)| / 2 ^ 23 * |(b : ℚ)| :=
        mul_le_mul_of_nonneg_right hcurrent (abs_nonneg _)
    _ = |((500 * s : Int) : ℚ)| * |(b : ℚ)| / 2 ^ 23 := by ring

/-- Each of the other two roundings adds its part of the power. -/
theorem roundings_near {x power : ℚ} (hx : |x - power| ≤ |power| / 2 ^ 23)
    (hpower : power = 0 ∨ 500 ≤ |power| ∧ |power| ≤ 500 * (32768 * 32768)) :
    |r.double (r.single x / 1000000) - power / 1000000| < 1 / 4 := by
  have hpos := abs_nonneg power
  have hle : |power| ≤ 500 * (32768 * 32768) := by
    rcases hpower with rfl | ⟨-, hle⟩
    · norm_num
    · exact hle
  have hxscale : InScale x := (inScale_near (by linarith) hpower).1
  have hxround := r.single_near x hxscale
  have hxle := abs_sub_abs_le_abs_sub x power
  generalize r.single x = y at hxround ⊢
  have hy : |y - power| ≤ |power| * 3 / 2 ^ 23 := by
    have htri := abs_sub_le y x power
    linarith
  have hyscale : InScale (y / 1000000) := (inScale_near (by linarith) hpower).2
  have hz := r.double_near _ hyscale
  have hyle := abs_sub_abs_le_abs_sub y power
  rw [abs_div, abs_of_pos (by norm_num : (0 : ℚ) < 1000000)] at hz
  have hquot : |y / 1000000 - power / 1000000| = |y - power| / 1000000 := by
    rw [← sub_div, abs_div, abs_of_pos (by norm_num : (0 : ℚ) < 1000000)]
  have htri := abs_sub_le (r.double (y / 1000000)) (y / 1000000) (power / 1000000)
  linarith

/-- The power before it is cut off, for the numbers in two registers. -/
theorem power_near {s b : Int} (hs : |s| ≤ 32768) (hb : |b| ≤ 32768) :
    |r.double (r.single (r.single (s * 5 / (1 / 100)) * b) / 1000000) - s * b / 2000|
      < 1 / 4 := by
  have hresult : (s * b / 2000 : ℚ) = 500 * (s * b) / 1000000 := by ring
  rw [hresult]
  exact roundings_near r (product_near r hs b) (registers_mem hs hb)

/-- The reported power, for the numbers in two registers. -/
theorem wattReading_near {shunt bus : Int32} (hshunt : |shunt.toInt| ≤ 32768)
    (hbus : |bus.toInt| ≤ 32768) :
    |((wattReading r shunt bus).toInt : ℚ) - shunt.toInt * bus.toInt / 2000| < 5 / 4 := by
  have hnear := power_near r hshunt hbus
  have hmem := registers_mem hshunt hbus
  have hresult : (shunt.toInt * bus.toInt / 2000 : ℚ)
      = 500 * (shunt.toInt * bus.toInt) / 1000000 := by ring
  rw [wattReading]
  generalize r.double _ = q at hnear ⊢
  have htrunc := abs_trunc_sub_lt q
  have hle : |(500 * (shunt.toInt * bus.toInt) : ℚ)| ≤ 500 * (32768 * 32768) := by
    rcases hmem with hzero | ⟨-, hle⟩
    · rw [hzero]
      norm_num
    · exact hle
  rw [hresult] at hnear ⊢
  rw [abs_le] at hle
  rw [abs_lt] at htrunc hnear
  have hlo : (-2147483648 : Int) ≤ trunc q := by
    have hlo : (-2147483648 : ℚ) ≤ trunc q := by linarith
    exact_mod_cast hlo
  have hhi : trunc q < (2147483648 : Int) := by
    have hhi : (trunc q : ℚ) < 2147483648 := by linarith
    exact_mod_cast hhi
  rw [Int32.toInt_ofInt_of_le hlo hhi, abs_lt]
  constructor <;> linarith

/-! ## Over the rounds -/

theorem abs_signed_le (t : I2cTransfer) : |t.signed| ≤ 32768 := by
  have hhi := t.rx0.toNat_lt
  have hlo := t.rx1.toNat_lt
  rw [abs_le, I2cTransfer.signed]
  split <;> omega

/-- The stored voltages are numbers of registers. -/
theorem stored_mem (rounds : List I2cRound) (c : MonChan) :
    |(run ina3221Thd (fun _ => {}) rounds c).busVolt.toInt| ≤ 32768
      ∧ |(run ina3221Thd (fun _ => {}) rounds c).shuntVolt.toInt| ≤ 32768 := by
  have hpair := run_ina3221Thd (fun _ => {}) rounds c
  obtain ⟨hbus, hshunt⟩ := Prod.mk.inj hpair
  rw [hbus, hshunt]
  cases hlast : (rounds.filterMap c.reading).getLast? with
  | none => exact ⟨by decide, by decide⟩
  | some pair =>
      obtain ⟨i2c, -, hreading⟩ := List.mem_filterMap.mp (List.mem_of_getLast? hlast)
      rw [MonChan.reading] at hreading
      split at hreading
      · obtain rfl := Option.some.inj hreading
        exact ⟨abs_signed_le _, abs_signed_le _⟩
      · cases hreading

/-- After any rounds, with any failures and any bytes, the power that is reported for a channel
is the power of the latest round in which both of its registers were transferred, to within
5/4 mW, and 0 to within the same if there was none. -/
theorem power_reading_near (rounds : List I2cRound) (c : MonChan) :
    |((wattReading r (run ina3221Thd (fun _ => {}) rounds c).shuntVolt
          (run ina3221Thd (fun _ => {}) rounds c).busVolt).toInt : ℚ)
        - ((rounds.filterMap c.reading).getLast?.getD (0, 0)).2
          * ((rounds.filterMap c.reading).getLast?.getD (0, 0)).1 / 2000| < 5 / 4 := by
  obtain ⟨hbus, hshunt⟩ := stored_mem rounds c
  have hpair := run_ina3221Thd (fun _ => {}) rounds c
  rw [show ((fun _ => {}) c : Mon).pair = (0, 0) from rfl] at hpair
  rw [← hpair]
  exact wattReading_near r hshunt hbus

/-- The registers of a round in which channel 1 has 100 and 5000, that is 5 V at 50 mA, and
every other transfer fails. -/
def quarterWattRound : I2cRound := fun addr reg =>
  if addr = 0x40 ∧ reg = 1 then ⟨true, 0, 100⟩
  else if addr = 0x40 ∧ reg = 2 then ⟨true, 19, 136⟩
  else ⟨false, 0, 0⟩

theorem power_reading_near_nearest :
    ([quarterWattRound].filterMap MonChan.ch1.reading).getLast? = some (5000, 100)
      ∧ |((wattReading PowerRounding.nearest
            (run ina3221Thd (fun _ => {}) [quarterWattRound] .ch1).shuntVolt
            (run ina3221Thd (fun _ => {}) [quarterWattRound] .ch1).busVolt).toInt : ℚ)
          - (([quarterWattRound].filterMap MonChan.ch1.reading).getLast?.getD (0, 0)).2
            * (([quarterWattRound].filterMap MonChan.ch1.reading).getLast?.getD (0, 0)).1 / 2000|
        < 5 / 4 :=
  ⟨by decide +kernel, power_reading_near PowerRounding.nearest [quarterWattRound] .ch1⟩

example : wattReading PowerRounding.nearest 100 5000 = 250 := by
  decide +kernel

end Seatel
