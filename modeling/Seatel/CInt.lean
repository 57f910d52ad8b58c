import Mathlib.Data.Int.Order.Basic

/-!
# Narrowing assignments and truncating division

C computes in `int` and narrows on assignment. Here the arithmetic of an
expression is done in `Int` on the operands' values and the assignment is
`Int8.ofInt`, `Int16.ofInt` or `UInt16.ofInt`; division is `Int.tdiv`.
The lemmas put both into the linear form `omega` works on: a narrowed
value is the exact one plus a multiple of the modulus, inside the range
of the type, and a quotient by a positive constant is bracketed on each
side of zero.
-/

namespace CInt

/-! ## Narrowing -/

theorem bmod_spec (x : Int) (m : Nat) : ∃ k, x.bmod m = x + m * k :=
  ⟨-x.bdiv m, by rw [Int.mul_neg, ← Int.sub_eq_add_neg, Int.bmod_eq_self_sub_mul_bdiv]⟩

theorem toInt_ofInt8 (x : Int) : ∃ k, (Int8.ofInt x).toInt = x + 256 * k := by
  rw [Int8.toInt_ofInt]
  exact bmod_spec x Int8.size

theorem toInt_ofInt16 (x : Int) : ∃ k, (Int16.ofInt x).toInt = x + 65536 * k := by
  rw [Int16.toInt_ofInt]
  exact bmod_spec x Int16.size

theorem toInt_toInt16 (x : UInt16) : ∃ k, x.toInt16.toInt = x.toNat + 65536 * k := by
  rw [← Int16.toInt_toBitVec, UInt16.toBitVec_toInt16, BitVec.toInt_eq_toNat_bmod]
  exact bmod_spec x.toNat 65536

theorem toInt8_mem (t : Int8) : -128 ≤ t.toInt ∧ t.toInt ≤ 127 :=
  ⟨t.le_toInt, Int.le_of_lt_add_one t.toInt_lt⟩

theorem toInt16_mem (t : Int16) : -32768 ≤ t.toInt ∧ t.toInt ≤ 32767 :=
  ⟨t.le_toInt, Int.le_of_lt_add_one t.toInt_lt⟩

theorem toNat_ofIntU16 (x : Int) : ((UInt16.ofInt x).toNat : Int) = x % 65536 := by
  have h := Int.emod_nonneg x (show (65536 : Int) ≠ 0 by decide)
  have h' := Int.emod_lt_of_pos x (show (0 : Int) < 65536 by decide)
  simp only [UInt16.ofInt, UInt16.toNat_ofNat']
  omega

theorem toNat_ofNatU32 {n : Nat} (h : n < 4294967296) : (UInt32.ofInt n).toNat = n := by
  simp only [UInt32.ofInt, UInt32.toNat_ofNat']
  omega

theorem toNat_ofNatU8 {n : Nat} (h : n < 256) : (UInt8.ofInt n).toNat = n := by
  simp only [UInt8.ofInt, UInt8.toNat_ofNat']
  omega

theorem ofInt_toNatU16 (p : UInt16) : UInt16.ofInt p.toNat = p := by
  have h := toNat_ofIntU16 p.toNat
  have hp : p.toNat < 65536 := p.toNat_lt
  exact UInt16.toNat_inj.mp (by omega)

/-- A word from its bytes, high byte first. -/
theorem toNat_bytes (hi lo : UInt8) :
    ((hi.toUInt16 <<< 8) ||| lo.toUInt16).toNat = 256 * hi.toNat + lo.toNat := by
  have hhi : hi.toNat < 256 := hi.toNat_lt
  have hlo : lo.toNat < 256 := lo.toNat_lt
  have hshift : (hi.toUInt16 <<< 8).toNat = 2 ^ 8 * hi.toNat := by
    rw [UInt16.toNat_shiftLeft, UInt8.toNat_toUInt16, Nat.shiftLeft_eq,
      show (8 : UInt16).toNat % 16 = 8 from rfl]
    omega
  rw [UInt16.toNat_or, UInt8.toNat_toUInt16, hshift, ← Nat.two_pow_add_eq_or_of_lt hlo]

/-- Two readings of a 32-bit counter differ by what it counted in between, as
far as the counter can tell. -/
theorem toNat_sub_ofNat32 {a b : Nat} (h : a ≤ b) :
    (UInt32.ofNat b - UInt32.ofNat a).toNat = (b - a) % 4294967296 := by
  rw [UInt32.toNat_sub, UInt32.toNat_ofNat', UInt32.toNat_ofNat']
  omega

/-! ## Distances on a circle -/

/-- The shorter way from `a` to `b` on a circle of 65536 counts, from -32768 to 32767. -/
def circDiff (a b : UInt16) : Int := Int.bmod (b.toNat - a.toNat) 65536

theorem bmod_mem (x : Int) : -32768 ≤ x.bmod 65536 ∧ x.bmod 65536 ≤ 32767 := by
  have hlo := Int.le_bmod (x := x) (show 0 < 65536 by decide)
  have hhi := Int.bmod_lt (x := x) (show 0 < 65536 by decide)
  omega

theorem circDiff_spec (a b : UInt16) :
    ∃ k, circDiff a b = b.toNat - a.toNat + 65536 * k
      ∧ -32768 ≤ circDiff a b ∧ circDiff a b ≤ 32767 := by
  obtain ⟨k, hk⟩ := bmod_spec (b.toNat - a.toNat) 65536
  exact ⟨k, hk, bmod_mem (b.toNat - a.toNat)⟩

/-- Turning both ends does not change the way between them. -/
theorem circDiff_add (a b k : UInt16) : circDiff (a + k) (b + k) = circDiff a b := by
  obtain ⟨m, hm, h1, h2⟩ := circDiff_spec a b
  obtain ⟨n, hn, h3, h4⟩ := circDiff_spec (a + k) (b + k)
  rw [UInt16.toNat_add, UInt16.toNat_add] at hn
  omega

/-! ## Truncating division -/

theorem tdiv_of_nonneg {x k : Int} (hk : 0 < k) (hx : 0 ≤ x) :
    k * x.tdiv k ≤ x ∧ x < k * x.tdiv k + k := by
  rw [Int.tdiv_eq_ediv_of_nonneg hx]
  exact ⟨Int.mul_ediv_self_le (Int.ne_of_gt hk), Int.lt_mul_ediv_self_add hk⟩

theorem tdiv_of_nonpos {x k : Int} (hk : 0 < k) (hx : x ≤ 0) :
    k * x.tdiv k - k < x ∧ x ≤ k * x.tdiv k := by
  have h := tdiv_of_nonneg hk (Int.neg_nonneg.mpr hx)
  rw [Int.neg_tdiv, Int.mul_neg] at h
  omega

/-- Both brackets at once, the form a call of `omega` consumes. -/
theorem tdiv_spec (x : Int) {k : Int} (hk : 0 < k) :
    (0 ≤ x ∧ k * x.tdiv k ≤ x ∧ x < k * x.tdiv k + k)
      ∨ (x < 0 ∧ k * x.tdiv k - k < x ∧ x ≤ k * x.tdiv k) := by
  rcases Int.lt_or_le x 0 with hx | hx
  · exact Or.inr ⟨hx, tdiv_of_nonpos hk (Int.le_of_lt hx)⟩
  · exact Or.inl ⟨hx, tdiv_of_nonneg hk hx⟩

/-! ## Limiting -/

/-- `x` limited to `[-n, n]`. -/
def limit (n x : Int) : Int := max (-n) (min n x)

/-- Two assignments that bound a variable of any integer type are a limiter. -/
theorem limit_assign {τ : Type} (f : τ → Int) (n : Int) (hi lo x : τ) (hhi : f hi = n)
    (hlo : f lo = -n) (hn : 0 ≤ n) :
    f (if f (if f x > n then hi else x) < -n then lo else if f x > n then hi else x)
      = limit n (f x) := by
  unfold limit
  by_cases habove : f x > n
  · rw [if_pos habove, hhi, if_neg (by omega)]
    omega
  · rw [if_neg habove]
    by_cases hbelow : f x < -n
    · rw [if_pos hbelow]
      omega
    · rw [if_neg hbelow]
      omega

theorem limit_mem {n : Int} (hn : 0 ≤ n) (x : Int) : -n ≤ limit n x ∧ limit n x ≤ n := by
  unfold limit
  omega

theorem limit_mono (n : Int) {x y : Int} (h : x ≤ y) : limit n x ≤ limit n y := by
  unfold limit
  omega

theorem limit_pos {n x : Int} (hn : 0 < n) (hx : 0 < x) : 0 < limit n x := by
  unfold limit
  omega

theorem limit_neg {n x : Int} (hn : 0 < n) (hx : x < 0) : limit n x < 0 := by
  unfold limit
  omega

theorem limit_odd {n : Int} (hn : 0 ≤ n) (x : Int) : limit n (-x) = -limit n x := by
  unfold limit
  omega

end CInt
