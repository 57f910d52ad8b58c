import Mathlib.Tactic.Linarith
import Mathlib.Tactic.NormNum
import Mathlib.Tactic.Positivity
import Seatel.ApiPosition
import Seatel.Chprintf
import Seatel.Pointing

/-!
# Reading a position and sending it back

`p` divides the counts by 182.044, keeps a `float` and prints two decimals;
`P` reads two decimals into a `float`, multiplies by 182.044 and truncates. A
client that sends back what it has read gives up what the decimals do not
hold, which is less than two counts: the target is at most two counts below
the position (`position_round_trip`), far inside of the azimuth's null zone.

A value is the rational it denotes. The results that go into a `float` and
the product are rounded by functions that are arbitrary up to the precision
of the types (`Rounding`); what `ftoa` computes from a `float` in `double` is
exact.
-/

namespace Seatel

open CString Numerals

/-! ## Digits behind the point -/

theorem digitLoop_fixed (k room l : Nat) (acc : List (Fin 10)) (hk : k < room) :
    ∃ ds, digitLoop room l (10 ^ k) acc = ds ++ acc ∧ Json.digitsNat ds = l % 10 ^ (k + 1) := by
  induction k generalizing room l acc with
  | zero =>
      obtain ⟨room, rfl⟩ : ∃ r, room = r + 1 := ⟨room - 1, by omega⟩
      refine ⟨[lastDigit l], by rw [digitLoop, if_pos (by decide)]; rfl, ?_⟩
      simp [Json.digitsNat, lastDigit]
  | succ k ih =>
      obtain ⟨room, rfl⟩ : ∃ r, room = r + 1 := ⟨room - 1, by omega⟩
      have hdiv : 10 ^ (k + 1) / 10 = 10 ^ k := by
        rw [Nat.pow_succ, Nat.mul_div_cancel _ (by decide)]
      have hne : 10 ^ k ≠ 0 := Nat.pos_iff_ne_zero.mp (Nat.pow_pos (by decide))
      obtain ⟨ds, heq, hvalue⟩ := ih room (l / 10) (lastDigit l :: acc) (by omega)
      refine ⟨ds ++ [lastDigit l], ?_, ?_⟩
      · rw [digitLoop, hdiv, if_neg hne]
        exact heq.trans (by rw [List.append_assoc]; rfl)
      · rw [digitsNat_concat, hvalue, lastDigit, Nat.pow_succ 10 (k + 1)]
        have hmod := Nat.mod_mul_right_div_self l 10 (10 ^ (k + 1))
        have hsplit := Nat.mod_mod_of_dvd l (Nat.dvd_mul_right 10 (10 ^ (k + 1)))
        rw [Nat.mul_comm (10 ^ (k + 1)) 10]
        simp only
        omega

theorem longToString_fixed_value (num : UInt32) {k : Nat} (hk : k < maxFiller) :
    Json.digitsNat (longToStringWithDivisor num (10 ^ k)) = num.toNat % 10 ^ (k + 1) := by
  have hne : 10 ^ k ≠ 0 := Nat.pos_iff_ne_zero.mp (Nat.pow_pos (by decide))
  obtain ⟨ds, heq, hvalue⟩ := digitLoop_fixed k maxFiller num.toNat [] hk
  rw [longToStringWithDivisor, if_neg hne, heq, List.append_nil, hvalue]

/-! ## The reply -/

/-- Zero, or neither very small nor very large: no result that is rounded leaves the
normal numbers. -/
def Moderate (x : ℚ) : Prop := x = 0 ∨ 1 / 1000 ≤ |x| ∧ |x| ≤ 1000000

/-- Rounding to `float`, with the one to `double` before it, and the product in
`double`. -/
structure Rounding where
  float : ℚ → ℚ
  product : ℚ → ℚ
  float_near : ∀ x, Moderate x → |float x - x| ≤ |x| / 2 ^ 23
  product_near : ∀ x, Moderate x → |product x - x| ≤ |x| / 2 ^ 50

/-- No rounding at all. -/
def Rounding.exact : Rounding where
  float x := x
  product x := x
  float_near x _ := by
    rw [sub_self, abs_zero]
    positivity
  product_near x _ := by
    rw [sub_self, abs_zero]
    positivity

/-- The conversions of `chprintf` and `ftoa`. -/
def floatConv : FloatConv ℚ where
  neg x := x < 0
  whole x := UInt32.ofInt (trunc |x|)
  frac x precision := UInt32.ofInt (trunc ((|x| - trunc |x|) * 10 ^ precision))

/-- `case 'p'`: `az`, `el` and the reply in `buf[128]`. -/
def positionReply (r : Rounding) (v : Vars) : List UInt8 :=
  let az := r.float (apiAzCount v / (182044 / 1000))
  let el := r.float (apiElCount v / (182044 / 1000))
  let el := if el < 0 then 0 else el
  (chprintf floatConv (ascii "%.2f\n%.2f\n") [.f az, .f el]).take 127

/-- What a client sends that takes the two lines of a reply for its target. -/
def echo (reply : List UInt8) : List UInt8 :=
  let az := reply.takeWhile (· ≠ 10)
  let el := (reply.drop (az.length + 1)).takeWhile (· ≠ 10)
  ascii "P " ++ az ++ ascii " " ++ el ++ ascii "\n"

/-- The API with its rounding. -/
def roundedApi (libc : Libc) (fpu : Fpu) (r : Rounding) : ApiEnv ℚ where
  libc := libc
  num a b := r.float (a.toInt + b.toInt / 100)
  azCount az := fpu.toU16 (r.product (az * (182044 / 1000)))
  elCount el := fpu.toI16 (r.product (el * (182044 / 1000)))

/-! ## The text in between -/

/-- A printed number as one of a position. -/
def literalCoordinate (l : Json.Literal) (hfrac : l.frac ≠ []) : Coordinate :=
  ⟨⟨l.neg, l.whole, false, l.frac⟩, l.whole_ne, hfrac⟩

theorem literal_noNewline (l : Json.Literal) : 10 ∉ l.text := by
  have hdigits : ∀ ds : List (Fin 10), 10 ∉ ds.map digitByte := by
    intro ds hmem
    obtain ⟨d, -, hd⟩ := List.mem_map.mp hmem
    have hdigit := (digitByte_spec d).1
    rw [hd] at hdigit
    cases hdigit
  rw [Json.Literal.text, Json.Literal.body, List.mem_append, List.mem_append]
  rintro (hmem | hmem | hmem)
  · split at hmem <;> simp at hmem
  · exact hdigits _ hmem
  · split at hmem
    · cases hmem
    · rcases List.mem_cons.mp hmem with heq | hmem
      · cases heq
      · exact hdigits _ hmem

theorem takeWhile_line {u : List UInt8} (hu : 10 ∉ u) (rest : List UInt8) :
    (u ++ 10 :: rest).takeWhile (· ≠ 10) = u := by
  have hall : ∀ b ∈ u, decide (b ≠ 10) = true := by
    intro b hb
    rw [decide_eq_true_iff]
    rintro rfl
    exact hu hb
  rw [List.takeWhile_append_of_pos hall, List.takeWhile_cons_of_neg (by simp), List.append_nil]

theorem echo_lines {az el : List UInt8} (haz : 10 ∉ az) (hel : 10 ∉ el) :
    echo (az ++ 10 :: (el ++ [10])) = ascii "P " ++ az ++ ascii " " ++ el ++ ascii "\n" := by
  have hdrop : (az ++ 10 :: (el ++ [10])).drop (az.length + 1) = el ++ [10] := by
    rw [show az ++ 10 :: (el ++ [10]) = (az ++ [10]) ++ (el ++ [10]) by simp]
    exact List.drop_left' (by simp)
  rw [echo]
  simp only [takeWhile_line haz, hdrop, takeWhile_line hel]

/-- Both numbers of the reply, with nothing cut off. -/
theorem positionReply_lines (r : Rounding) (v : Vars) {az el : ℚ}
    (haz : az = r.float (apiAzCount v / (182044 / 1000)))
    (hel : el = if r.float (apiElCount v / (182044 / 1000)) < 0 then 0
      else r.float (apiElCount v / (182044 / 1000))) :
    positionReply r v
      = (fLiteral floatConv 2 az).text ++ 10 :: ((fLiteral floatConv 2 el).text ++ [10]) := by
  have hfmt : parseFormat .text (ascii "%.2f\n%.2f\n")
      = [.f 2, .byte 10, .f 2, .byte 10] := by decide
  have hazlen := fLiteral_length floatConv 2 az
  have hellen := fLiteral_length floatConv 2 el
  rw [show ftoaDigits 2 = 2 from rfl] at hazlen hellen
  rw [positionReply, chprintf, hfmt, ← haz, ← hel]
  simp only [fill]
  refine List.take_of_length_le ?_
  simp only [List.length_append, List.length_cons, List.length_nil]
  omega

theorem fLiteral_frac_length (x : ℚ) : (fLiteral floatConv 2 x).frac.length = 2 :=
  longToString_fixed _ (by decide)

theorem fLiteral_frac_ne (x : ℚ) : (fLiteral floatConv 2 x).frac ≠ [] := by
  intro h
  have hlen := fLiteral_frac_length x
  rw [h] at hlen
  cases hlen

/-- A printed number as a coordinate. -/
def printed (x : ℚ) : Coordinate :=
  literalCoordinate (fLiteral floatConv 2 x) (fLiteral_frac_ne x)

theorem printed_text (x : ℚ) :
    (fLiteral floatConv 2 x).text
      = (printed x).front ++ (printed x).separator :: (printed x).frac.map digitByte := by
  rw [Json.Literal.text, Json.Literal.body, if_neg (fLiteral_frac_ne x), ← List.append_assoc]
  rfl

/-- What is sent back, as a position. -/
def echoed (az el : ℚ) : Position where
  az := printed az
  el := printed el
  azPad := 0
  elPad := 0
  tail := [10]
  tail_head := by
    intro b hb
    cases hb
    rfl

theorem echo_eq (az el : ℚ) :
    echo ((fLiteral floatConv 2 az).text ++ 10 :: ((fLiteral floatConv 2 el).text ++ [10]))
      = (echoed az el).text := by
  rw [echo_lines (literal_noNewline _) (literal_noNewline _), printed_text, printed_text]
  simp [Position.text, Position.body, Position.azFront, Position.elFront, echoed, ascii]

theorem echoed_length (az el : ℚ) : (fragText (echoed az el).text).length ≤ 127 := by
  refine (fragText_length_le _).trans ?_
  rw [← echo_eq, echo_lines (literal_noNewline _) (literal_noNewline _)]
  have hazlen := fLiteral_length floatConv 2 az
  have hellen := fLiteral_length floatConv 2 el
  rw [show ftoaDigits 2 = 2 from rfl] at hazlen hellen
  simp only [List.length_append]
  have hP : (ascii "P ").length = 2 := rfl
  have hs : (ascii " ").length = 1 := rfl
  have hn : (ascii "\n").length = 1 := rfl
  omega

/-! ## The numbers in between -/

theorem toNat_ofIntU32 {x : Int} (hlo : 0 ≤ x) (hhi : x < 4294967296) :
    ((UInt32.ofInt x).toNat : Int) = x := by
  simp only [UInt32.ofInt, UInt32.toNat_ofNat']
  omega

section Printed

variable {x : ℚ}

/-- The digits behind the point. -/
theorem trunc_hundredths (hx : 0 ≤ x) :
    trunc ((|x| - trunc |x|) * 10 ^ 2) = ⌊x * 100⌋ - ⌊x⌋ * 100 := by
  have hfr : 0 ≤ x - ⌊x⌋ := sub_nonneg.mpr (Int.floor_le x)
  have hsum : (x - ⌊x⌋) * 10 ^ 2 = x * 100 - ((⌊x⌋ * 100 : Int) : ℚ) := by
    push_cast
    ring
  rw [abs_of_nonneg hx, trunc_eq_floor hx, trunc_eq_floor (by positivity), hsum,
    Int.floor_sub_intCast]

theorem hundredths_mem (x : ℚ) :
    0 ≤ ⌊x * 100⌋ - ⌊x⌋ * 100 ∧ ⌊x * 100⌋ - ⌊x⌋ * 100 < 100 := by
  have hlo : ⌊x⌋ * 100 ≤ ⌊x * 100⌋ := by
    refine Int.le_floor.mpr ?_
    push_cast
    linarith [Int.floor_le x]
  have hhi : ⌊x * 100⌋ < ⌊x⌋ * 100 + 100 := by
    refine Int.floor_lt.mpr ?_
    push_cast
    linarith [Int.lt_floor_add_one x]
  omega

theorem printed_whole (hx : 0 ≤ x) (hlt : x < 1000) :
    ((printed x).wholeNumeral.magnitude : Int) = ⌊x⌋ := by
  have hlo : 0 ≤ ⌊x⌋ := Int.floor_nonneg.mpr hx
  have hhi : ⌊x⌋ < 1000 := Int.floor_lt.mpr (by exact_mod_cast hlt)
  have hdigits : (printed x).wholeNumeral.magnitude = (floatConv.whole x).toNat :=
    (longToString_digits (floatConv.whole x)).1.value
  rw [hdigits]
  simp only [floatConv, abs_of_nonneg hx, trunc_eq_floor hx]
  exact toNat_ofIntU32 hlo (by omega)

theorem printed_frac (hx : 0 ≤ x) :
    ((printed x).fracNumeral.magnitude : Int) = ⌊x * 100⌋ - ⌊x⌋ * 100 := by
  obtain ⟨hlo, hhi⟩ := hundredths_mem x
  have hdigits : (printed x).fracNumeral.magnitude = (floatConv.frac x 2).toNat % 10 ^ 2 :=
    longToString_fixed_value (floatConv.frac x 2) (k := 1) (by decide)
  have hnum : ((floatConv.frac x 2).toNat : Int) = ⌊x * 100⌋ - ⌊x⌋ * 100 := by
    simp only [floatConv, trunc_hundredths hx]
    exact toNat_ofIntU32 hlo (by omega)
  rw [hdigits]
  omega

/-- A non-negative number is printed as its hundredths, and read as them. -/
theorem printed_read (libc : Libc) (hx : 0 ≤ x) (hlt : x < 1000) :
    (printed x).read libc = (⌊x * 100⌋ : ℚ) / 100 := by
  have hneg : (printed x).neg = false := decide_eq_false (not_lt.mpr hx)
  have hwhole := printed_whole hx hlt
  have hhi : ⌊x⌋ < 1000 := Int.floor_lt.mpr (by exact_mod_cast hlt)
  have htwo : (printed x).TwoDecimal := ⟨hneg, fLiteral_frac_length x, by omega⟩
  have hwq : ((printed x).wholeNumeral.magnitude : ℚ) = ⌊x⌋ := by exact_mod_cast hwhole
  have hfq : ((printed x).fracNumeral.magnitude : ℚ) = ⌊x * 100⌋ - ⌊x⌋ * 100 := by
    exact_mod_cast printed_frac hx
  rw [Coordinate.read_eq libc htwo.fits, hneg, hwq, hfq, if_neg (by simp)]
  ring

end Printed

/-! ## Counts -/

/-- What `P` makes of the number `p` has printed for `x`. -/
def countsBack (r : Rounding) (x : ℚ) : ℚ :=
  r.product (r.float ((⌊x * 100⌋ : ℚ) / 100) * (182044 / 1000))

theorem Rounding.float_nonneg (r : Rounding) {x : ℚ} (hmod : Moderate x) (hx : 0 ≤ x) :
    0 ≤ r.float x := by
  have hnear := abs_le.mp (r.float_near x hmod)
  rw [abs_of_nonneg hx] at hnear
  have hsmall : x / 2 ^ 23 ≤ x := div_le_self hx (by norm_num)
  linarith [hnear.1]

theorem Rounding.product_nonneg (r : Rounding) {x : ℚ} (hmod : Moderate x) (hx : 0 ≤ x) :
    0 ≤ r.product x := by
  have hnear := abs_le.mp (r.product_near x hmod)
  rw [abs_of_nonneg hx] at hnear
  have hsmall : x / 2 ^ 50 ≤ x := div_le_self hx (by norm_num)
  linarith [hnear.1]

theorem Rounding.float_zero (r : Rounding) : r.float 0 = 0 := by
  have hnear := r.float_near 0 (.inl rfl)
  rw [abs_zero, zero_div, sub_zero] at hnear
  exact abs_eq_zero.mp (le_antisymm hnear (abs_nonneg _))

/-- Counts in degrees, and hundredths of a degree. -/
theorem moderate_div {n : Int} {d : ℚ} (hd : 1 ≤ d) (hle : d ≤ 1000) (hn : |n| ≤ 1000000) :
    Moderate (n / d) := by
  rcases eq_or_ne n 0 with rfl | hne
  · exact .inl (by simp)
  · have hone : (1 : ℚ) ≤ |(n : ℚ)| := by exact_mod_cast Int.one_le_abs hne
    have hmax : |(n : ℚ)| ≤ 1000000 := by exact_mod_cast hn
    have habs : |(n : ℚ) / d| = |(n : ℚ)| / d := by
      rw [abs_div, abs_of_pos (by linarith : (0 : ℚ) < d)]
    refine .inr ⟨?_, ?_⟩ <;> rw [habs]
    · rw [le_div_iff₀ (by linarith)]
      linarith
    · exact (div_le_self (abs_nonneg _) hd).trans hmax

/-- A count that is printed and read back loses less than two counts, and gains nothing. -/
theorem countsBack_near (r : Rounding) {c x : ℚ} (hle : c ≤ 65535) (hx : 0 ≤ x)
    (hnear : |x - c / (182044 / 1000)| ≤ 1 / 20000) :
    0 ≤ countsBack r x ∧ c - 2 < countsBack r x ∧ countsBack r x < c + 1 := by
  obtain ⟨hx₁, hx₂⟩ := abs_le.mp hnear
  have hdeg : c / (182044 / 1000) ≤ 360 := by
    rw [div_le_iff₀ (by norm_num)]
    linarith
  -- the decimals
  have hq₀ : (0 : ℚ) ≤ ⌊x * 100⌋ := by exact_mod_cast Int.floor_nonneg.mpr (by positivity)
  have hq₁ : (⌊x * 100⌋ : ℚ) ≤ x * 100 := Int.floor_le _
  have hq₂ : x * 100 < ⌊x * 100⌋ + 1 := Int.lt_floor_add_one _
  have hqmod : Moderate ((⌊x * 100⌋ : ℚ) / 100) := by
    refine moderate_div (by norm_num) (by norm_num) ?_
    have hmax : ⌊x * 100⌋ ≤ 1000000 := Int.floor_le_iff.mpr (by push_cast; linarith)
    have hmin : 0 ≤ ⌊x * 100⌋ := Int.floor_nonneg.mpr (by positivity)
    rw [abs_of_nonneg hmin]
    exact hmax
  -- the number that is read
  have ha := abs_le.mp (r.float_near _ hqmod)
  rw [abs_of_nonneg (by positivity)] at ha
  have ha₀ := r.float_nonneg hqmod (by positivity)
  have hasmall : (⌊x * 100⌋ : ℚ) / 100 / 2 ^ 23 ≤ 1 / 20000 := by
    rw [div_le_iff₀ (by norm_num)]
    linarith
  -- the product
  have hymod : Moderate (r.float ((⌊x * 100⌋ : ℚ) / 100) * (182044 / 1000)) := by
    rcases hqmod with hzero | ⟨hmin, -⟩
    · rw [hzero, r.float_zero]
      exact .inl (zero_mul _)
    · rw [abs_of_nonneg (by positivity)] at hmin
      refine .inr ⟨?_, ?_⟩ <;> rw [abs_of_nonneg (by positivity)]
      · have hhalf : (⌊x * 100⌋ : ℚ) / 100 / 2 ^ 23 ≤ (⌊x * 100⌋ : ℚ) / 100 / 2 :=
          div_le_div_of_nonneg_left (by positivity) (by norm_num) (by norm_num)
        linarith [ha.1]
      · linarith [ha.2]
  have hy := abs_le.mp (r.product_near _ hymod)
  rw [abs_of_nonneg (by positivity)] at hy
  have hysmall : r.float ((⌊x * 100⌋ : ℚ) / 100) * (182044 / 1000) / 2 ^ 50 ≤ 1 / 1000 := by
    rw [div_le_iff₀ (by norm_num)]
    linarith [ha.2]
  have hback : c = c / (182044 / 1000) * (182044 / 1000) := by ring
  refine ⟨r.product_nonneg hymod (by positivity), ?_, ?_⟩ <;> rw [countsBack]
  · linarith [ha.1, hy.1]
  · linarith [ha.2, hy.2]

/-- The whole counts of what comes back. -/
theorem trunc_countsBack (r : Rounding) {c : Int} {x : ℚ} (hle : c ≤ 65535) (hx : 0 ≤ x)
    (hnear : |x - c / (182044 / 1000)| ≤ 1 / 20000) :
    0 ≤ trunc (countsBack r x) ∧ c - 2 ≤ trunc (countsBack r x) ∧ trunc (countsBack r x) ≤ c := by
  obtain ⟨hnonneg, hlo, hhi⟩ := countsBack_near r (by exact_mod_cast hle) hx hnear
  rw [trunc_eq_floor hnonneg]
  refine ⟨Int.floor_nonneg.mpr hnonneg, ?_, ?_⟩
  · refine Int.le_floor.mpr ?_
    push_cast
    exact hlo.le
  · have hlt : ⌊countsBack r x⌋ < c + 1 := Int.floor_lt.mpr (by push_cast; exact hhi)
    omega

/-- A count in degrees, as a `float`. -/
theorem float_degrees (r : Rounding) {c : Int} (hlo : 0 ≤ c) (hhi : c ≤ 65535) :
    0 ≤ r.float (c / (182044 / 1000)) ∧ r.float (c / (182044 / 1000)) < 1000
      ∧ |r.float (c / (182044 / 1000)) - c / (182044 / 1000)| ≤ 1 / 20000 := by
  have hc : (0 : ℚ) ≤ c := by exact_mod_cast hlo
  have hle : (c : ℚ) ≤ 65535 := by exact_mod_cast hhi
  have hpos : (0 : ℚ) ≤ c / (182044 / 1000) := by positivity
  have hdeg : (c : ℚ) / (182044 / 1000) ≤ 360 := by
    rw [div_le_iff₀ (by norm_num)]
    linarith
  have hsmall : (c : ℚ) / (182044 / 1000) / 2 ^ 23 ≤ 1 / 20000 := by
    rw [div_le_iff₀ (by norm_num)]
    linarith
  have hmod : Moderate ((c : ℚ) / (182044 / 1000)) :=
    moderate_div (by norm_num) (by norm_num) (abs_le.mpr ⟨by omega, by omega⟩)
  have hnear := r.float_near _ hmod
  rw [abs_of_nonneg hpos] at hnear
  have hclose := hnear.trans hsmall
  refine ⟨r.float_nonneg hmod hpos, ?_, hclose⟩
  linarith [(abs_le.mp hclose).2]

/-- The azimuth target of a count that was printed and read back. -/
theorem azCount_back (libc : Libc) (fpu : Fpu) (r : Rounding) {c : Int} (hlo : 0 ≤ c)
    (hhi : c ≤ 65535) {x : ℚ} (hx : x = r.float (c / (182044 / 1000))) :
    c - 2 ≤ ((roundedApi libc fpu r).azCount (r.float ((⌊x * 100⌋ : ℚ) / 100))).toNat
      ∧ (((roundedApi libc fpu r).azCount (r.float ((⌊x * 100⌋ : ℚ) / 100))).toNat : Int) ≤ c := by
  obtain ⟨hx₀, -, hnear⟩ := float_degrees r hlo hhi
  rw [← hx] at hx₀ hnear
  have hcq : (c : ℚ) ≤ 65535 := by exact_mod_cast hhi
  obtain ⟨hy₀, -, hy₁⟩ := countsBack_near r hcq hx₀ hnear
  obtain ⟨ht₀, ht₁, ht₂⟩ := trunc_countsBack r hhi hx₀ hnear
  have hcount : (roundedApi libc fpu r).azCount (r.float ((⌊x * 100⌋ : ℚ) / 100))
      = UInt16.ofInt (trunc (countsBack r x)) :=
    fpu.toU16_of_lt (countsBack r x) (by linarith) (by linarith)
  rw [hcount, CInt.toNat_ofIntU16]
  omega

/-- The elevation target of a count that was printed and read back. -/
theorem elCount_back (libc : Libc) (fpu : Fpu) (r : Rounding) {c : Int} (hlo : 0 ≤ c)
    (hhi : c ≤ 32767) {x : ℚ} (hx : x = r.float (c / (182044 / 1000))) :
    c - 2 ≤ ((roundedApi libc fpu r).elCount (r.float ((⌊x * 100⌋ : ℚ) / 100))).toInt
      ∧ ((roundedApi libc fpu r).elCount (r.float ((⌊x * 100⌋ : ℚ) / 100))).toInt ≤ c := by
  obtain ⟨hx₀, -, hnear⟩ := float_degrees r hlo (by omega)
  rw [← hx] at hx₀ hnear
  have hcq : (c : ℚ) ≤ 32767 := by exact_mod_cast hhi
  obtain ⟨hy₀, -, hy₁⟩ := countsBack_near r (by linarith) hx₀ hnear
  obtain ⟨ht₀, ht₁, ht₂⟩ := trunc_countsBack r (by omega) hx₀ hnear
  have hcount : (roundedApi libc fpu r).elCount (r.float ((⌊x * 100⌋ : ℚ) / 100))
      = Int16.ofInt (trunc (countsBack r x)) :=
    fpu.toI16_of_lt (countsBack r x) (by linarith) (by linarith)
  rw [hcount, Int16.toInt_ofInt_of_le (by omega) (by omega)]
  exact ⟨ht₁, ht₂⟩

/-- The elevation is printed as it is, or as 0 below the horizon. -/
theorem float_elevation (r : Rounding) {e : Int} (hlo : -32768 ≤ e) (hhi : e ≤ 32767) :
    (if r.float (e / (182044 / 1000)) < 0 then 0 else r.float (e / (182044 / 1000)))
      = r.float ((max e 0 : Int) / (182044 / 1000)) := by
  have hmod : Moderate ((e : ℚ) / (182044 / 1000)) :=
    moderate_div (by norm_num) (by norm_num) (abs_le.mpr ⟨by omega, by omega⟩)
  rcases Int.lt_or_le e 0 with he | he
  · have hneg : (e : ℚ) / (182044 / 1000) < 0 :=
      div_neg_of_neg_of_pos (by exact_mod_cast he) (by norm_num)
    have hnear := (abs_le.mp (r.float_near _ hmod)).2
    rw [abs_of_neg hneg] at hnear
    have hsmall : -((e : ℚ) / (182044 / 1000)) / 2 ^ 23 < -((e : ℚ) / (182044 / 1000)) :=
      div_lt_self (by linarith) (by norm_num)
    rw [if_pos (by linarith), max_eq_right he.le, Int.cast_zero, zero_div, r.float_zero]
  · have hpos : (0 : ℚ) ≤ e / (182044 / 1000) :=
      div_nonneg (by exact_mod_cast he) (by norm_num)
    rw [if_neg (not_lt.mpr (r.float_nonneg hmod hpos)), max_eq_left he]

/-! ## The round trip -/

/-- The targets in `w` are at most two counts below the position in `v`, and the azimuth
stays in its null zone there. -/
structure PositionKept (v w : Vars) : Prop where
  az_ge : apiAzCount v - 2 ≤ w.ctrl.azTgtPos.toNat
  az_le : (w.ctrl.azTgtPos.toNat : Int) ≤ apiAzCount v
  el_ge : max (apiElCount v) 0 - 2 ≤ w.ctrl.elTgtPos.toInt
  el_le : w.ctrl.elTgtPos.toInt ≤ max (apiElCount v) 0
  azInside : azOutsideNullzone (w.ctrl.azTgtPos - azEnc v) = false

theorem azInside_of_near {v : Vars} {t : UInt16} (hsum : apiAzCount v < 65536)
    (hlo : apiAzCount v - 2 ≤ t.toNat) (hhi : (t.toNat : Int) ≤ apiAzCount v) :
    azOutsideNullzone (t - azEnc v) = false := by
  have ht : t.toNat < 65536 := t.toNat_lt
  have henc := azEnc_toNat v
  rw [apiAzCount] at hsum hlo hhi
  have hdiff : (t - azEnc v).toNat = (65536 - (azEnc v).toNat + t.toNat) % 65536 :=
    UInt16.toNat_sub t (azEnc v)
  rw [azOutsideNullzone, ← Bool.not_eq_true, Bool.and_eq_true, decide_eq_true_eq,
    decide_eq_true_eq, azNullzone]
  omega

/-- A client that reads the position and sends it back as its target is accepted, whatever
has happened in between, and gets the position at which it was read. -/
theorem position_round_trip (libc : Libc) (fpu : Fpu) (r : Rounding) (slow : Bool) (v w : Vars)
    (hturn : v.mde.encAz.toNat + v.mde.encAzOff.toNat < 65536) :
    ∃ w', servePosition (roundedApi libc fpu r) slow w (echo (positionReply r v))
        = some (w', ascii "RPRT 0\n")
      ∧ PositionKept v w' := by
  have haz₀ : 0 ≤ apiAzCount v := by rw [apiAzCount]; omega
  have haz₁ : apiAzCount v ≤ 65535 := by rw [apiAzCount]; omega
  have hel : -32768 ≤ apiElCount v ∧ apiElCount v ≤ 32767 := CInt.toInt16_mem v.imu.elPos
  have hel₂ : max (apiElCount v) 0 ≤ 32767 := by omega
  obtain ⟨hazx, hazlt, haznear⟩ := float_degrees r haz₀ haz₁
  obtain ⟨helx, hellt, helnear⟩ :=
    float_degrees r (le_max_right (apiElCount v) 0) (by omega : max (apiElCount v) 0 ≤ 65535)
  -- the text is the position of the two printed numbers
  have hreply := positionReply_lines r v rfl (float_elevation r hel.1 hel.2).symm
  have hread := (echoed _ _).extractNumbers_position (roundedApi libc fpu r)
    (echoed_length (r.float (apiAzCount v / (182044 / 1000)))
      (r.float ((max (apiElCount v) 0 : Int) / (182044 / 1000))))
  rw [← echo_eq, ← hreply] at hread
  -- and its numbers are their hundredths
  have hnum {x : ℚ} (hx : 0 ≤ x) (hlt : x < 1000) :
      (roundedApi libc fpu r).num (libc.narrow (printed x).wholeNumeral.value)
        (libc.narrow (printed x).fracNumeral.value) = r.float ((⌊x * 100⌋ : ℚ) / 100) :=
    congrArg r.float (printed_read libc hx hlt)
  have hazn := hnum hazx hazlt
  have heln := hnum helx hellt
  obtain ⟨hA₁, hA₂⟩ := azCount_back libc fpu r haz₀ haz₁ rfl
  obtain ⟨hE₁, hE₂⟩ := elCount_back libc fpu r (le_max_right (apiElCount v) 0) hel₂ rfl
  rw [← hazn] at hA₁ hA₂
  rw [← heln] at hE₁ hE₂
  refine ⟨_, by rw [servePosition, hread], ?_⟩
  have htgt : ∀ a e, (apiPos a e slow w).ctrl.azTgtPos = a
      ∧ (apiPos a e slow w).ctrl.elTgtPos = e := by
    intro a e
    cases slow <;> exact ⟨rfl, rfl⟩
  constructor
  · rw [(htgt _ _).1]
    exact hA₁
  · rw [(htgt _ _).1]
    exact hA₂
  · rw [(htgt _ _).2]
    exact hE₁
  · rw [(htgt _ _).2]
    exact hE₂
  · rw [(htgt _ _).1]
    exact azInside_of_near (by omega) hA₁ hA₂

/-- At 100 degrees, seen through an offset, and 30 degrees. -/
theorem position_round_trip_offset :
    ∃ w', servePosition (roundedApi Libc.saturating Fpu.modular Rounding.exact) false {}
        (echo (positionReply Rounding.exact
          { mde := { encAz := 18000, encAzOff := 204 }, imu := { elPos := 5461 } }))
        = some (w', ascii "RPRT 0\n")
      ∧ PositionKept { mde := { encAz := 18000, encAzOff := 204 }, imu := { elPos := 5461 } } w' :=
  position_round_trip _ _ _ _ _ _ (by decide)

end Seatel
