import Mathlib.Data.Int.ModEq
import Mathlib.Data.Rat.Floor
import Mathlib.Tactic.Positivity
import Mathlib.Tactic.Ring
import Seatel.ApiFields

/-!
# Position commands and their values

A `Position` is a command `P` as a client writes it: two numbers with a
sign, digits, a separator and digits, spaces before them and any text
behind them. Its four groups of digits are read back, whatever follows
(`extractNumbers_position`).

What the code makes of the groups is `atoi(n1) + atoi(n2)/100.0`, so that
the fraction is always taken for hundredths and never takes the sign. The
number written is meant only if there is no fraction to speak of, or no
sign and exactly two digits (`Coordinate.read_eq_value_iff`).

The last part is what happens to the value: `az*182.044` and `el*182.044`
are converted to 16-bit types without a look at their range.
-/

namespace Seatel

open CString Numerals

/-! ## Written positions -/

/-- A number with digits on both sides of its separator. -/
structure Coordinate extends Decimal where
  whole_ne : whole ≠ []
  frac_ne : frac ≠ []
deriving Repr, DecidableEq

namespace Coordinate

/-- The group before the separator, with the sign. -/
def wholeNumeral (c : Coordinate) : Numeral :=
  ⟨if c.neg then some true else none, c.whole, c.whole_ne⟩

/-- The group behind the separator. -/
def fracNumeral (c : Coordinate) : Numeral := ⟨none, c.frac, c.frac_ne⟩

/-- Both groups are values of `int`. -/
structure Fits (c : Coordinate) : Prop where
  whole_le : -2147483648 ≤ c.wholeNumeral.value
  whole_ge : c.wholeNumeral.value ≤ 2147483647
  frac_ge : c.fracNumeral.value ≤ 2147483647

/-- The number that is written. -/
def value (c : Coordinate) : ℚ :=
  (if c.neg then -1 else 1)
    * ((c.wholeNumeral.magnitude : ℚ) + c.fracNumeral.magnitude / 10 ^ c.frac.length)

theorem wholeNumeral_text (c : Coordinate) : c.wholeNumeral.text = c.front := by
  cases hneg : c.neg with
  | true => simp [wholeNumeral, Numeral.text, Decimal.front, hneg]
  | false => simp [wholeNumeral, Numeral.text, Decimal.front, hneg]

theorem fracNumeral_text (c : Coordinate) : c.fracNumeral.text = c.frac.map digitByte :=
  List.nil_append _

end Coordinate

/-- A position command: spaces, a number, spaces, a number, and a tail that does
not continue it. -/
structure Position where
  az : Coordinate
  el : Coordinate
  azPad : Nat
  elPad : Nat
  tail : List UInt8
  tail_head : NoDigitHead tail

namespace Position

/-- The bytes of the first number before its separator. -/
def azFront (p : Position) : List UInt8 := List.replicate p.azPad 32 ++ p.az.front

/-- The bytes of the second number before its separator. -/
def elFront (p : Position) : List UInt8 := List.replicate p.elPad 32 ++ p.el.front

/-- The command without its tail, split where the scans stop: a separator, a blank
and a separator. -/
def body (p : Position) (s b t : UInt8) : List UInt8 :=
  [80, 32] ++ (p.azFront ++ s :: (p.az.frac.map digitByte
    ++ b :: (p.elFront ++ t :: p.el.frac.map digitByte)))

def text (p : Position) : List UInt8 :=
  p.body p.az.separator 32 p.el.separator ++ p.tail

end Position

/-! ## What the scans find -/

/-- Spaces before a number are skipped. -/
theorem numeral_spaces (n : Nat) (bs : List UInt8) :
    numeral (List.replicate n 32 ++ bs) = numeral bs := by
  rw [numeral, numeral, List.dropWhile_append_of_pos]
  intro b hb
  rw [List.eq_of_mem_replicate hb]
  rfl

theorem spaces_plain {n : Nat} {c : Decimal} {b : UInt8}
    (hb : b ∈ List.replicate n 32 ++ c.front) : isSeparator b = false ∧ b ≠ 0 := by
  rcases List.mem_append.mp hb with h | h
  · rw [List.eq_of_mem_replicate h]
    decide
  · exact ⟨(c.front_plain h).2.1, (c.front_plain h).2.2.2⟩

namespace Position

variable (p : Position)

theorem body_noNul : 0 ∉ p.body p.az.separator 32 p.el.separator := by
  intro h
  simp only [body, azFront, elFront, List.mem_append, List.mem_cons, List.not_mem_nil,
    or_false] at h
  rcases h with (h | h) | h | h | h | h | h | h | h
  · cases h
  · cases h
  · exact (spaces_plain (List.mem_append.mpr h)).2 rfl
  · exact p.az.separator_plain.2.2 h.symm
  · exact (digits_plain h).2.2.2 rfl
  · cases h
  · exact (spaces_plain (List.mem_append.mpr h)).2 rfl
  · exact p.el.separator_plain.2.2 h.symm
  · exact (digits_plain h).2.2.2 rfl

/-- The string in the buffer starts with the body. -/
theorem fragText_text :
    fragText p.text = p.body p.az.separator 32 p.el.separator ++ fragText p.tail := by
  have hall : ∀ b ∈ p.body p.az.separator 32 p.el.separator, decide (b ≠ 0) = true := by
    intro b hb
    rw [decide_eq_true_iff]
    rintro rfl
    exact p.body_noNul hb
  rw [fragText, text, List.takeWhile_append_of_pos hall]
  rfl

theorem length_body (s b t : UInt8) :
    (p.body s b t).length
      = 2 + p.azFront.length + 1 + p.az.frac.length + 1 + p.elFront.length + 1
        + p.el.frac.length := by
  simp only [body, List.length_append, List.length_cons, List.length_nil, List.length_map]
  omega

/-- The index of the first separator, of the blank and of the second separator. -/
def idx₁ : Nat := 2 + p.azFront.length

def idx₂ : Nat := p.idx₁ + 1 + p.az.frac.length

def idx₃ : Nat := p.idx₂ + 1 + p.elFront.length

-- The body with what stands before and behind each of the three bytes.

def before₁ : List UInt8 := [80, 32] ++ p.azFront

def before₂ (s : UInt8) : List UInt8 := p.before₁ ++ s :: p.az.frac.map digitByte

def before₃ (s b : UInt8) : List UInt8 := p.before₂ s ++ b :: p.elFront

theorem length_before₁ : p.before₁.length = p.idx₁ := by
  rw [before₁, List.length_append]
  rfl

theorem length_before₂ (s : UInt8) : (p.before₂ s).length = p.idx₂ := by
  rw [before₂, List.length_append, length_before₁, List.length_cons, List.length_map, idx₂]
  omega

theorem length_before₃ (s b : UInt8) : (p.before₃ s b).length = p.idx₃ := by
  rw [before₃, List.length_append, length_before₂, List.length_cons, idx₃]
  omega

theorem body_split₁ (s b t : UInt8) (rest : List UInt8) :
    p.body s b t ++ rest = p.before₁ ++ s :: (p.az.frac.map digitByte
      ++ b :: (p.elFront ++ t :: (p.el.frac.map digitByte ++ rest))) := by
  simp [body, before₁]

theorem body_split₂ (s b t : UInt8) (rest : List UInt8) :
    p.body s b t ++ rest
      = p.before₂ s ++ b :: (p.elFront ++ t :: (p.el.frac.map digitByte ++ rest)) := by
  simp [body, before₂, before₁]

theorem body_split₃ (s b t : UInt8) (rest : List UInt8) :
    p.body s b t ++ rest = p.before₃ s b ++ t :: (p.el.frac.map digitByte ++ rest) := by
  simp [body, before₃, before₂, before₁]

theorem set_at {u rest : List UInt8} {b : UInt8} {i : Nat} (hi : i = u.length) (x : UInt8) :
    (u ++ b :: rest).set i x = u ++ x :: rest := by
  rw [hi, List.set_append_right _ _ (Nat.le_refl _), Nat.sub_self]
  rfl

theorem drop_at {u rest : List UInt8} {b : UInt8} {i : Nat} (hi : i = u.length) :
    (u ++ b :: rest).drop (i + 1) = rest := by
  rw [hi, List.drop_length_add_append]
  rfl

/-- After the three stores. -/
theorem body_stores (s b t : UInt8) (rest : List UInt8) :
    (((p.body s b t ++ rest).set p.idx₁ 95).set p.idx₂ 95).set p.idx₃ 95
      = p.body 95 95 95 ++ rest := by
  have h₁ : (p.body s b t ++ rest).set p.idx₁ 95 = p.body 95 b t ++ rest := by
    rw [body_split₁, set_at p.length_before₁.symm, body_split₁]
  have h₂ : (p.body 95 b t ++ rest).set p.idx₂ 95 = p.body 95 95 t ++ rest := by
    rw [body_split₂, set_at (p.length_before₂ 95).symm, body_split₂]
  have h₃ : (p.body 95 95 t ++ rest).set p.idx₃ 95 = p.body 95 95 95 ++ rest := by
    rw [body_split₃, set_at (p.length_before₃ 95 95).symm, body_split₃]
  rw [h₁, h₂, h₃]

/-- The four numbers that are read, with what follows them. -/
theorem body_numerals {rest : List UInt8} (hrest : NoDigitHead rest) :
    numeral ((p.body 95 95 95 ++ rest).drop 2) = p.az.wholeNumeral.value
      ∧ numeral ((p.body 95 95 95 ++ rest).drop (p.idx₁ + 1)) = p.az.fracNumeral.value
      ∧ numeral ((p.body 95 95 95 ++ rest).drop (p.idx₂ + 1)) = p.el.wholeNumeral.value
      ∧ numeral ((p.body 95 95 95 ++ rest).drop (p.idx₃ + 1)) = p.el.fracNumeral.value := by
  have hstop : ∀ bs, NoDigitHead (95 :: bs) := by
    intro bs b hb
    cases hb
    rfl
  refine ⟨?_, ?_, ?_, ?_⟩
  · have hdrop : (p.body 95 95 95 ++ rest).drop 2
        = p.azFront ++ 95 :: (p.az.frac.map digitByte
          ++ 95 :: (p.elFront ++ 95 :: (p.el.frac.map digitByte ++ rest))) := by
      rw [body_split₁]
      rfl
    rw [hdrop, azFront, List.append_assoc, numeral_spaces, ← p.az.wholeNumeral_text,
      numeral_text _ (hstop _)]
  · rw [body_split₁, drop_at p.length_before₁.symm, ← p.az.fracNumeral_text,
      numeral_text _ (hstop _)]
  · rw [body_split₂, drop_at (p.length_before₂ 95).symm, elFront, List.append_assoc,
      numeral_spaces, ← p.el.wholeNumeral_text, numeral_text _ (hstop _)]
  · rw [body_split₃, drop_at (p.length_before₃ 95 95).symm, ← p.el.fracNumeral_text,
      numeral_text _ hrest]

/-- In the buffer the body is followed by something that is no digit. -/
theorem apiBuf_text_eq (hfit : (fragText p.text).length ≤ 127) :
    ∃ rest, NoDigitHead rest
      ∧ apiBuf p.text = p.body p.az.separator 32 p.el.separator ++ rest := by
  have hlen : (p.body p.az.separator 32 p.el.separator).length < 128 := by
    rw [p.fragText_text, List.length_append] at hfit
    omega
  refine ⟨(p.tail ++ List.replicate 128 0).take
    (128 - (p.body p.az.separator 32 p.el.separator).length), ?_, ?_⟩
  · intro b hb
    rw [List.head?_take, if_neg (by omega)] at hb
    cases htail : p.tail with
    | nil =>
        rw [htail] at hb
        cases hb
        rfl
    | cons c tail =>
        rw [htail] at hb
        exact p.tail_head b (by rw [htail]; exact hb)
  · rw [apiBuf, text, List.append_assoc, List.take_append,
      List.take_of_length_le (Nat.le_of_lt hlen)]

variable {p} {msg rest : List UInt8} {l : Nat}

theorem scan_first (hmsg : msg = p.body p.az.separator 32 p.el.separator ++ rest)
    (hl : p.idx₁ < l) : scanTo isSeparator msg l 2 = p.idx₁ := by
  rw [body_split₁, before₁, List.append_assoc] at hmsg
  exact scanTo_eq [80, 32] p.azFront _ hmsg (fun x hx => (spaces_plain hx).1)
    p.az.separator_plain.2.1 hl

theorem scan_second (hmsg : msg = p.body p.az.separator 32 p.el.separator ++ rest)
    (hl : p.idx₂ < l) : scanTo isBlank msg l (p.idx₁ + 1) = p.idx₂ := by
  have hu : (p.before₁ ++ [p.az.separator]).length = p.idx₁ + 1 := by
    rw [List.length_append, length_before₁]
    rfl
  have hw : (p.az.frac.map digitByte).length = p.az.frac.length := List.length_map _
  have hsplit : msg = (p.before₁ ++ [p.az.separator]) ++ (p.az.frac.map digitByte
      ++ 32 :: (p.elFront ++ p.el.separator :: (p.el.frac.map digitByte ++ rest))) := by
    rw [hmsg, body_split₁, List.append_assoc]
    rfl
  have hscan := scanTo_eq _ _ _ hsplit (fun x hx => (digits_plain hx).2.2.1)
    (show isBlank 32 = true from rfl) (by rw [hu, hw]; exact hl)
  rwa [hu, hw] at hscan

theorem scan_third (hmsg : msg = p.body p.az.separator 32 p.el.separator ++ rest)
    (hl : p.idx₃ < l) : scanTo isSeparator msg l (p.idx₂ + 1) = p.idx₃ := by
  have hu : (p.before₂ p.az.separator ++ [32]).length = p.idx₂ + 1 := by
    rw [List.length_append, length_before₂]
    rfl
  have hsplit : msg = (p.before₂ p.az.separator ++ [32])
      ++ (p.elFront ++ p.el.separator :: (p.el.frac.map digitByte ++ rest)) := by
    rw [hmsg, body_split₂, List.append_assoc]
    rfl
  have hscan := scanTo_eq _ _ _ hsplit (fun x hx => (spaces_plain hx).1)
    p.el.separator_plain.2.1 (by rw [hu]; exact hl)
  rwa [hu] at hscan

variable (p)

/-- A position is read back, whatever follows it, as long as the message has a
terminator in the buffer. -/
theorem extractNumbers_position {φ : Type} (env : ApiEnv φ)
    (hfit : (fragText p.text).length ≤ 127) :
    extractNumbers env (apiBuf p.text)
      = some (true,
          env.num (env.libc.narrow p.az.wholeNumeral.value)
            (env.libc.narrow p.az.fracNumeral.value),
          env.num (env.libc.narrow p.el.wholeNumeral.value)
            (env.libc.narrow p.el.fracNumeral.value)) := by
  obtain ⟨rest, hrest, hbuf⟩ := p.apiBuf_text_eq hfit
  have hl := congrArg List.length (apiBuf_message hfit).1
  have hlen : p.idx₃ + 1 + p.el.frac.length ≤ (fragText p.text).length := by
    rw [p.fragText_text, List.length_append, length_body, idx₃, idx₂, idx₁]
    omega
  have hfrac : 0 < p.el.frac.length := List.length_pos_iff.mpr p.el.frac_ne
  have hidx₂ : p.idx₂ = p.idx₁ + 1 + p.az.frac.length := rfl
  have hidx₃ : p.idx₃ = p.idx₂ + 1 + p.elFront.length := rfl
  have hfields := scanFields_eq hl (p.scan_first hbuf (by omega)) (p.scan_second hbuf (by omega))
    (p.scan_third hbuf (by omega))
  have hin := complete_inside hfit (show (scanFields _).i₃ < _ by rw [hfields]; dsimp only; omega)
  obtain ⟨hn₁, hn₂, hn₃, hn₄⟩ := p.body_numerals hrest
  rw [extractNumbers, if_pos hin, hfields]
  simp only [Libc.atoi, hbuf, body_stores, hn₁, hn₂, hn₃, hn₄]
  rw [decide_eq_true (show p.idx₃ + 1 ≠ (fragText p.text).length by omega)]

end Position

/-! ## The values -/

/-- The API over the rationals, for any library and any conversions. -/
def rationalApi (libc : Libc) (fpu : Fpu) : ApiEnv ℚ where
  libc := libc
  num a b := a.toInt + b.toInt / 100
  azCount az := fpu.toU16 (az * 182044 / 1000)
  elCount el := fpu.toI16 (el * 182044 / 1000)

namespace Coordinate

variable (c : Coordinate)

/-- `atoi(n1) + atoi(n2)/100.0` of the two groups. -/
def read (libc : Libc) : ℚ :=
  (libc.narrow c.wholeNumeral.value).toInt + (libc.narrow c.fracNumeral.value).toInt / 100

theorem wholeNumeral_value :
    c.wholeNumeral.value = if c.neg then -(c.wholeNumeral.magnitude : Int)
      else c.wholeNumeral.magnitude := by
  cases hneg : c.neg with
  | true => simp [Numeral.value, wholeNumeral, hneg]
  | false => simp [Numeral.value, wholeNumeral, hneg]

theorem fracNumeral_value : c.fracNumeral.value = c.fracNumeral.magnitude :=
  if_neg (by simp [fracNumeral])

variable {c}

theorem read_eq (libc : Libc) (hfits : c.Fits) :
    c.read libc = (if c.neg then -1 else 1) * (c.wholeNumeral.magnitude : ℚ)
      + c.fracNumeral.magnitude / 100 := by
  have hpos : (0 : Int) ≤ c.fracNumeral.magnitude := Int.natCast_nonneg _
  have hfrac := hfits.frac_ge
  rw [fracNumeral_value] at hfrac
  rw [read, libc.toInt_narrow hfits.whole_le hfits.whole_ge, fracNumeral_value,
    libc.toInt_narrow (by omega) hfrac, wholeNumeral_value]
  cases c.neg with
  | true => simp
  | false => simp

/-- The fraction has no digit other than zero, or there is no sign and it has two
digits. -/
def Hundredths (c : Coordinate) : Prop :=
  (∀ d ∈ c.frac, d.val = 0) ∨ (c.neg = false ∧ c.frac.length = 2)

instance : Decidable c.Hundredths := inferInstanceAs (Decidable (_ ∨ _))

end Coordinate

theorem digits_foldl_eq_zero (ds : List (Fin 10)) (acc : Nat) :
    ds.foldl (fun acc d => acc * 10 + d.val) acc = 0 ↔ acc = 0 ∧ ∀ d ∈ ds, d.val = 0 := by
  induction ds generalizing acc with
  | nil => simp
  | cons d ds ih =>
      rw [List.foldl_cons, ih, List.forall_mem_cons, ← and_assoc]
      exact and_congr_left fun _ => by omega

namespace Coordinate

variable {c : Coordinate}

theorem frac_magnitude_eq_zero : c.fracNumeral.magnitude = 0 ↔ ∀ d ∈ c.frac, d.val = 0 := by
  rw [Numeral.magnitude, digits_foldl_eq_zero]
  exact ⟨And.right, fun h => ⟨rfl, h⟩⟩

/-- The number written is read when the fraction counts hundredths. -/
theorem read_eq_value_iff (libc : Libc) (hfits : c.Fits) :
    c.read libc = c.value ↔ c.Hundredths := by
  rw [read_eq libc hfits, value, Hundredths, ← frac_magnitude_eq_zero]
  have hpow : (0 : ℚ) < 10 ^ c.frac.length := by positivity
  generalize c.wholeNumeral.magnitude = w
  generalize c.fracNumeral.magnitude = f
  cases hneg : c.neg with
  | true =>
      -- the fraction would have to be its own opposite
      have hsum : (0 : ℚ) < 1 / 100 + 1 / 10 ^ c.frac.length := by positivity
      have hdiff : (-1 * (w : ℚ) + f / 100) - -1 * ((w : ℚ) + f / 10 ^ c.frac.length)
          = f * (1 / 100 + 1 / 10 ^ c.frac.length) := by ring
      simp only [Bool.true_eq_false, false_and, or_false, if_true]
      rw [← sub_eq_zero, hdiff, mul_eq_zero, or_iff_left hsum.ne', Nat.cast_eq_zero]
  | false =>
      have hscale : (1 / 100 : ℚ) = 1 / 10 ^ c.frac.length ↔ c.frac.length = 2 := by
        rw [one_div, one_div, inv_inj]
        constructor
        · intro h
          have hnat : 10 ^ c.frac.length = 10 ^ 2 := by exact_mod_cast h.symm
          exact Nat.pow_right_injective (show 2 ≤ 10 by decide) hnat
        · intro h
          rw [h]
          norm_num
      have hdiff : (f : ℚ) / 100 - f / 10 ^ c.frac.length
          = f * (1 / 100 - 1 / 10 ^ c.frac.length) := by ring
      simp only [true_and, Bool.false_eq_true, if_false, one_mul, add_right_inj]
      rw [← sub_eq_zero, hdiff, mul_eq_zero, Nat.cast_eq_zero, sub_eq_zero, hscale]

end Coordinate

/-- A position is read as its two numbers. -/
theorem extractNumbers_rational (libc : Libc) (fpu : Fpu) (p : Position)
    (hfit : (fragText p.text).length ≤ 127) :
    extractNumbers (rationalApi libc fpu) (apiBuf p.text)
      = some (true, p.az.read libc, p.el.read libc) :=
  p.extractNumbers_position (rationalApi libc fpu) hfit

theorem fragText_length_le (data : List UInt8) : (fragText data).length ≤ data.length :=
  (List.takeWhile_prefix _).length_le

/-- A number without a sign and with two digits behind its separator. -/
structure Coordinate.TwoDecimal (c : Coordinate) : Prop where
  neg : c.neg = false
  frac : c.frac.length = 2
  whole : c.wholeNumeral.magnitude < 2147483648

theorem Coordinate.TwoDecimal.fits {c : Coordinate} (h : c.TwoDecimal) : c.Fits := by
  obtain ⟨d, e, hfrac⟩ := List.length_eq_two.mp h.frac
  have hvalue := c.wholeNumeral_value
  have hwhole := h.whole
  rw [h.neg] at hvalue
  simp only [Bool.false_eq_true, if_false] at hvalue
  refine ⟨by omega, by omega, ?_⟩
  rw [fracNumeral_value, Numeral.magnitude, show c.fracNumeral.digits = [d, e] from hfrac]
  simp only [List.foldl_cons, List.foldl_nil]
  omega

/-- Positions with two decimals are read exactly, whatever follows them. -/
theorem two_decimal_position_exact (libc : Libc) (fpu : Fpu) (p : Position)
    (hlen : p.text.length ≤ 120) (haz : p.az.TwoDecimal) (hel : p.el.TwoDecimal) :
    extractNumbers (rationalApi libc fpu) (apiBuf p.text)
      = some (true,
          (p.az.wholeNumeral.magnitude : ℚ) + p.az.fracNumeral.magnitude / 100,
          (p.el.wholeNumeral.magnitude : ℚ) + p.el.fracNumeral.magnitude / 100) := by
  have hfit := fragText_length_le p.text
  rw [extractNumbers_rational libc fpu p (by omega), Coordinate.read_eq libc haz.fits,
    Coordinate.read_eq libc hel.fits, haz.neg, hel.neg]
  simp

/-- `P   007.25 12,50` and the start of the next command. -/
def paddedPosition : Position where
  az := ⟨⟨false, toDigits [0, 0, 7], false, toDigits [2, 5]⟩, by decide, by decide⟩
  el := ⟨⟨false, toDigits [1, 2], true, toDigits [5, 0]⟩, by decide, by decide⟩
  azPad := 2
  elPad := 0
  tail := [10, 80]
  tail_head := by
    intro b hb
    cases hb
    rfl

theorem two_decimal_position_padded :
    paddedPosition.text = ascii "P   007.25 12,50\nP"
      ∧ extractNumbers exactApi (apiBuf paddedPosition.text) = some (true, 29 / 4, 25 / 2) := by
  refine ⟨by decide, ?_⟩
  have hread := two_decimal_position_exact Libc.saturating Fpu.modular paddedPosition (by decide)
    ⟨rfl, rfl, by decide⟩ ⟨rfl, rfl, by decide⟩
  rw [show exactApi = rationalApi Libc.saturating Fpu.modular from rfl, hread]
  decide +kernel

/-- Positions are read as the numbers that are written exactly when both fractions
count hundredths. -/
theorem position_means_value_iff (libc : Libc) (fpu : Fpu) (p : Position)
    (hfit : (fragText p.text).length ≤ 127) (haz : p.az.Fits) (hel : p.el.Fits) :
    extractNumbers (rationalApi libc fpu) (apiBuf p.text) = some (true, p.az.value, p.el.value)
      ↔ p.az.Hundredths ∧ p.el.Hundredths := by
  rw [extractNumbers_rational libc fpu p hfit]
  simp only [Option.some.injEq, Prod.mk.injEq, true_and]
  rw [Coordinate.read_eq_value_iff libc haz, Coordinate.read_eq_value_iff libc hel]

theorem position_means_value_padded :
    paddedPosition.az.value = 29 / 4
      ∧ extractNumbers exactApi (apiBuf paddedPosition.text)
        = some (true, paddedPosition.az.value, paddedPosition.el.value) :=
  ⟨by decide +kernel,
    (position_means_value_iff Libc.saturating Fpu.modular paddedPosition (by decide)
      ⟨by decide, by decide, by decide⟩ ⟨by decide, by decide, by decide⟩).mpr
      ⟨.inr ⟨rfl, rfl⟩, .inr ⟨rfl, rfl⟩⟩⟩

/-- `P -1.50 1.5`. -/
def signedPosition : Position where
  az := ⟨⟨true, toDigits [1], false, toDigits [5, 0]⟩, by decide, by decide⟩
  el := ⟨⟨false, toDigits [1], false, toDigits [5]⟩, by decide, by decide⟩
  azPad := 0
  elPad := 0
  tail := []
  tail_head := by
    intro b hb
    cases hb

/-- The sign is lost on the way to the fraction, and `1.5` is 1.05. -/
theorem position_means_less :
    signedPosition.text = ascii "P -1.50 1.5"
      ∧ signedPosition.az.value = -3 / 2 ∧ signedPosition.el.value = 3 / 2
      ∧ extractNumbers exactApi (apiBuf signedPosition.text)
        = some (true, -1 / 2, 21 / 20) := by
  decide +kernel

/-! ## Conversion to counts -/

/-- What is owed to an accepted position: both products are in the range of the
types they are converted to, and the targets are their whole parts. -/
structure StoresCounts (libc : Libc) (fpu : Fpu) (slow : Bool) (v : Vars) (data : List UInt8)
    (az el : ℚ) : Prop where
  az_range : -1 < az * 182044 / 1000 ∧ az * 182044 / 1000 < 65536
  el_range : -32769 < el * 182044 / 1000 ∧ el * 182044 / 1000 < 32768
  stored : ∃ v', servePosition (rationalApi libc fpu) slow v data = some (v', ascii "RPRT 0\n")
    ∧ (v'.ctrl.azTgtPos.toNat : Int) ≡ ⌊az * 182044 / 1000⌋ [ZMOD 65536]
    ∧ v'.ctrl.elTgtPos.toInt = trunc (el * 182044 / 1000)

/-- Whatever `extract_numbers` returns is a number of hundredths. -/
theorem extractNumbers_hundredths (libc : Libc) (fpu : Fpu) {msg : List UInt8} {ok : Bool}
    {az el : ℚ} (h : extractNumbers (rationalApi libc fpu) msg = some (ok, az, el)) :
    (∃ m : Int, az = m / 100) ∧ ∃ n : Int, el = n / 100 := by
  have hnum : ∀ a b : Int32, ∃ m : Int, (rationalApi libc fpu).num a b = m / 100 := by
    intro a b
    refine ⟨a.toInt * 100 + b.toInt, ?_⟩
    simp only [rationalApi]
    push_cast
    ring
  rw [extractNumbers] at h
  split at h
  · cases h
    exact ⟨hnum _ _, hnum _ _⟩
  · cases h

/-- The azimuth is between 0 and 360 degrees and the elevation between -180 and
180. -/
structure InTurn (az el : ℚ) : Prop where
  az_ge : 0 ≤ az
  az_le : az ≤ 360
  el_ge : -180 ≤ el
  el_le : el ≤ 180

/-- Accepted positions are converted within their types exactly when they are in
these ranges. -/
theorem position_counts_iff (libc : Libc) (fpu : Fpu) (slow : Bool) (v : Vars)
    {data : List UInt8} {az el : ℚ}
    (h : extractNumbers (rationalApi libc fpu) (apiBuf data) = some (true, az, el)) :
    StoresCounts libc fpu slow v data az el ↔ InTurn az el := by
  obtain ⟨⟨m, hm⟩, n, hn⟩ := extractNumbers_hundredths libc fpu h
  constructor
  · rintro ⟨⟨haz₁, haz₂⟩, ⟨hel₁, hel₂⟩, -⟩
    -- the bounds of the types lie strictly between two hundredths of a degree
    rw [hm] at haz₁ haz₂
    rw [hn] at hel₁ hel₂
    have hm₁ : (-1 : ℚ) < m := by linarith
    have hm₂ : (m : ℚ) < 36001 := by linarith
    have hn₁ : (-18001 : ℚ) < n := by linarith
    have hn₂ : (n : ℚ) < 18001 := by linarith
    norm_cast at hm₁ hm₂ hn₁ hn₂
    have hm₁' : (0 : ℚ) ≤ m := by exact_mod_cast (by omega : 0 ≤ m)
    have hm₂' : (m : ℚ) ≤ 36000 := by exact_mod_cast (by omega : m ≤ 36000)
    have hn₁' : (-18000 : ℚ) ≤ n := by exact_mod_cast (by omega : -18000 ≤ n)
    have hn₂' : (n : ℚ) ≤ 18000 := by exact_mod_cast (by omega : n ≤ 18000)
    rw [hm, hn]
    constructor <;> linarith
  · rintro ⟨haz₁, haz₂, hel₁, hel₂⟩
    have hazr : -1 < az * 182044 / 1000 ∧ az * 182044 / 1000 < 65536 := by
      constructor <;> linarith
    have helr : -32769 < el * 182044 / 1000 ∧ el * 182044 / 1000 < 32768 := by
      constructor <;> linarith
    have htgt : ∀ a e, (apiPos a e slow v).ctrl.azTgtPos = a
        ∧ (apiPos a e slow v).ctrl.elTgtPos = e := by
      intro a e
      cases slow <;> exact ⟨rfl, rfl⟩
    have hazc : (rationalApi libc fpu).azCount az = UInt16.ofInt (trunc (az * 182044 / 1000)) :=
      fpu.toU16_of_lt _ hazr.1 hazr.2
    have helc : ((rationalApi libc fpu).elCount el).toInt = trunc (el * 182044 / 1000) :=
      fpu.toInt_toI16 helr.1 helr.2
    refine ⟨hazr, helr, _, by rw [servePosition, h], ?_, ?_⟩
    · rw [(htgt _ _).1, hazc, CInt.toNat_ofIntU16, trunc_eq_floor (by linarith)]
      exact Int.mod_modEq _ _
    · rw [(htgt _ _).2, helc]

/-- `P 90.00 45.00` is 16383 and 8191 counts. -/
theorem position_counts_track :
    StoresCounts Libc.saturating Fpu.modular false {} (ascii "P 90.00 45.00\n") 90 45 :=
  (position_counts_iff Libc.saturating Fpu.modular false {} (by decide +kernel)).mpr
    ⟨by norm_num, by norm_num, by norm_num, by norm_num⟩

/-- `P -90.00 200.00` is accepted, and neither product is a value of its type. -/
theorem position_counts_leave_type :
    extractNumbers exactApi (apiBuf (ascii "P -90.00 200.00\n")) = some (true, -90, 200)
      ∧ (-90 : ℚ) * 182044 / 1000 ≤ -1 ∧ (32768 : ℚ) ≤ 200 * 182044 / 1000
      ∧ ∀ libc fpu slow v,
        ¬ StoresCounts libc fpu slow v (ascii "P -90.00 200.00\n") (-90) 200 := by
  refine ⟨by decide +kernel, by norm_num, by norm_num, ?_⟩
  intro libc fpu slow v h
  have hlo := h.az_range.1
  norm_num at hlo

end Seatel
