import Seatel.CString
import Seatel.Json

/-!
# Formatted output

The part of `chprintf.c` that the server uses: `%d`, `%s` and `%.nf`,
without flags and widths. The digits come out of the loop of
`long_to_string_with_divisor`; a divisor of zero stands for the number
itself, another one fixes how many digits there are.

`%d` writes an `int` as JSON writes a number (`dLiteral_value`). For `%.nf`
the two conversions from `double` to `long` are arbitrary functions of the
argument, since C leaves them open for large numbers; the text is a number
with `n` digits behind the point whatever they are.
-/

namespace Seatel

open CString Numerals

/-! ## Digits -/

def maxFiller : Nat := 11

/-- The loop of `long_to_string_with_divisor` behind the digits `acc`. The first
argument is the room that is left. -/
def digitLoop : Nat → Nat → Nat → List (Fin 10) → List (Fin 10)
  | 0, _, _, acc => acc
  | room + 1, l, ll, acc =>
      let acc := lastDigit l :: acc
      if ll / 10 = 0 then acc else digitLoop room (l / 10) (ll / 10) acc

/-- `long_to_string_with_divisor` with radix 10; the `long` is divided as an
`unsigned`. -/
def longToStringWithDivisor (num : UInt32) (divisor : Nat) : List (Fin 10) :=
  digitLoop maxFiller num.toNat (if divisor = 0 then num.toNat else divisor) []

theorem digitsNat_concat (ds : List (Fin 10)) (d : Fin 10) :
    Json.digitsNat (ds ++ [d]) = Json.digitsNat ds * 10 + d.val := by
  rw [Json.digitsNat, List.foldl_append]
  rfl

/-- The digits of a number, without leading zeros. -/
structure DigitsOf (l : Nat) (ds : List (Fin 10)) : Prop where
  ne_nil : ds ≠ []
  value : Json.digitsNat ds = l
  no_zero : ds.head? = some 0 → ds.length = 1

theorem digitLoop_one (room : Nat) {l : Nat} (acc : List (Fin 10)) (hdiv : l / 10 = 0) :
    digitLoop (room + 1) l l acc = [lastDigit l] ++ acc ∧ DigitsOf l [lastDigit l] := by
  refine ⟨by rw [digitLoop, if_pos hdiv]; rfl, by simp, ?_, fun _ => rfl⟩
  simp only [Json.digitsNat, List.foldl_cons, List.foldl_nil, lastDigit]
  omega

theorem digitLoop_self (k room l : Nat) (acc : List (Fin 10)) (hk : k < room)
    (hl : l < 10 ^ (k + 1)) :
    ∃ ds, digitLoop room l l acc = ds ++ acc ∧ DigitsOf l ds ∧ ds.length ≤ k + 1 := by
  induction k generalizing room l acc with
  | zero =>
      obtain ⟨room, rfl⟩ : ∃ r, room = r + 1 := ⟨room - 1, by omega⟩
      obtain ⟨heq, hds⟩ := digitLoop_one room (l := l) acc (by omega)
      exact ⟨_, heq, hds, Nat.le_refl 1⟩
  | succ k ih =>
      obtain ⟨room, rfl⟩ : ∃ r, room = r + 1 := ⟨room - 1, by omega⟩
      by_cases hdiv : l / 10 = 0
      · obtain ⟨heq, hds⟩ := digitLoop_one room (l := l) acc hdiv
        exact ⟨_, heq, hds, Nat.le_add_left 1 _⟩
      · have hlt : l / 10 < 10 ^ (k + 1) := by
          rw [Nat.pow_succ] at hl
          omega
        obtain ⟨ds, heq, hds, hlen⟩ := ih room (l / 10) (lastDigit l :: acc) (by omega) hlt
        refine ⟨ds ++ [lastDigit l], ?_, ⟨by simp, ?_, ?_⟩, ?_⟩
        · rw [digitLoop, if_neg hdiv]
          exact heq.trans (by rw [List.append_assoc]; rfl)
        · rw [digitsNat_concat, hds.value, lastDigit]
          simp only
          omega
        · -- a leading zero would be all of the quotient
          intro hhead
          rw [List.head?_append_of_ne_nil _ hds.ne_nil] at hhead
          obtain ⟨d, rfl⟩ := List.length_eq_one_iff.mp (hds.no_zero hhead)
          have hd : d = 0 := Option.some.inj hhead
          have hval := hds.value
          rw [hd] at hval
          exact absurd hval.symm hdiv
        · rw [List.length_append]
          exact Nat.succ_le_succ hlen

theorem longToString_digits (num : UInt32) :
    DigitsOf num.toNat (longToStringWithDivisor num 0)
      ∧ (longToStringWithDivisor num 0).length ≤ 10 := by
  have hlt : num.toNat < 4294967296 := num.toNat_lt
  obtain ⟨ds, heq, hds, hlen⟩ := digitLoop_self 9 maxFiller num.toNat [] (by decide) (by omega)
  rw [List.append_nil] at heq
  rw [longToStringWithDivisor, if_pos rfl, heq]
  exact ⟨hds, hlen⟩

theorem digitLoop_length (room l k : Nat) (acc : List (Fin 10)) (hk : k < room) :
    (digitLoop room l (10 ^ k) acc).length = k + 1 + acc.length := by
  induction k generalizing room l acc with
  | zero =>
      obtain ⟨room, rfl⟩ : ∃ r, room = r + 1 := ⟨room - 1, by omega⟩
      rw [digitLoop, if_pos (by decide), List.length_cons]
      omega
  | succ k ih =>
      obtain ⟨room, rfl⟩ : ∃ r, room = r + 1 := ⟨room - 1, by omega⟩
      have hdiv : 10 ^ (k + 1) / 10 = 10 ^ k := by
        rw [Nat.pow_succ, Nat.mul_div_cancel _ (by decide)]
      have hne : 10 ^ k ≠ 0 := Nat.pos_iff_ne_zero.mp (Nat.pow_pos (by decide))
      rw [digitLoop, hdiv, if_neg hne, ih room _ _ (by omega), List.length_cons]
      omega

theorem longToString_fixed (num : UInt32) {k : Nat} (hk : k < maxFiller) :
    (longToStringWithDivisor num (10 ^ k)).length = k + 1 := by
  have hne : 10 ^ k ≠ 0 := Nat.pos_iff_ne_zero.mp (Nat.pow_pos (by decide))
  rw [longToStringWithDivisor, if_neg hne, digitLoop_length _ _ _ _ hk]
  rfl

/-! ## Conversions -/

/-- `f < 0`, `(long)num` and `(long)((num - l) * precision)` for the absolute value
`num` of a `float`. -/
structure FloatConv (φ : Type) where
  neg : φ → Bool
  whole : φ → UInt32
  frac : φ → Nat → UInt32

variable {φ : Type}

/-- The number that `%d` writes. -/
def dLiteral (x : Int32) : Json.Literal where
  neg := x.toInt < 0
  whole := longToStringWithDivisor (UInt32.ofNat x.toInt.natAbs) 0
  frac := []
  whole_ne := (longToString_digits _).1.ne_nil
  no_zero := (longToString_digits _).1.no_zero

/-- The precision `ftoa` works with: at most nine digits, and nine for none. -/
def ftoaDigits (precision : Nat) : Nat :=
  if precision = 0 ∨ 9 < precision then 9 else precision

/-- The number that `%.nf` writes. -/
def fLiteral (conv : FloatConv φ) (precision : Nat) (x : φ) : Json.Literal where
  neg := conv.neg x
  whole := longToStringWithDivisor (conv.whole x) 0
  frac := longToStringWithDivisor (conv.frac x (ftoaDigits precision))
    (10 ^ (ftoaDigits precision - 1))
  whole_ne := (longToString_digits _).1.ne_nil
  no_zero := (longToString_digits _).1.no_zero

/-- `%d` writes the number. -/
theorem dLiteral_value (x : Int32) : (dLiteral x).value = x.toInt := by
  have hlo : -2147483648 ≤ x.toInt := x.le_toInt
  have hhi : x.toInt < 2147483648 := x.toInt_lt
  have habs : (UInt32.ofNat x.toInt.natAbs).toNat = x.toInt.natAbs := by
    rw [UInt32.toNat_ofNat']
    omega
  have hwhole : Json.digitsNat (dLiteral x).whole = x.toInt.natAbs :=
    (longToString_digits _).1.value.trans habs
  have hfrac : (dLiteral x).frac = [] := rfl
  rw [Json.Literal.value, hwhole, hfrac]
  rcases Int.lt_or_le x.toInt 0 with hneg | hpos
  · have hsign : (dLiteral x).neg = true := decide_eq_true hneg
    have hcast : ((x.toInt.natAbs : ℕ) : ℚ) = -(x.toInt : ℚ) := by
      rw [← Int.cast_natCast, Int.ofNat_natAbs_of_nonpos (Int.le_of_lt hneg), Int.cast_neg]
    simp [hsign, hcast, Json.digitsNat]
  · have hsign : (dLiteral x).neg = false := decide_eq_false (Int.not_lt.mpr hpos)
    have hcast : ((x.toInt.natAbs : ℕ) : ℚ) = (x.toInt : ℚ) := by
      rw [← Int.cast_natCast, Int.natAbs_of_nonneg hpos]
    simp [hsign, hcast, Json.digitsNat]

theorem dLiteral_length (x : Int32) : (dLiteral x).text.length ≤ 11 := by
  have hwhole : (dLiteral x).whole.length ≤ 10 := (longToString_digits _).2
  have hfrac : (dLiteral x).frac = [] := rfl
  rw [Json.Literal.text, Json.Literal.body, hfrac, if_pos rfl, List.length_append,
    List.length_append, List.length_map, List.length_nil]
  split <;> simp <;> omega

theorem ftoaDigits_mem (precision : Nat) : 1 ≤ ftoaDigits precision ∧ ftoaDigits precision ≤ 9 := by
  rw [ftoaDigits]
  split <;> omega

theorem fLiteral_length (conv : FloatConv φ) (precision : Nat) (x : φ) :
    (fLiteral conv precision x).text.length ≤ 12 + ftoaDigits precision := by
  obtain ⟨hlo, hhi⟩ := ftoaDigits_mem precision
  have hroom : ftoaDigits precision - 1 < maxFiller := by
    rw [maxFiller]
    omega
  have hwhole : (fLiteral conv precision x).whole.length ≤ 10 := (longToString_digits _).2
  have hfrac : (fLiteral conv precision x).frac.length = ftoaDigits precision :=
    (longToString_fixed _ hroom).trans (by omega)
  have hne : (fLiteral conv precision x).frac ≠ [] := by
    intro hnil
    rw [hnil, List.length_nil] at hfrac
    omega
  rw [Json.Literal.text, Json.Literal.body, if_neg hne, List.length_append, List.length_append,
    List.length_cons, List.length_map, List.length_map, hfrac]
  split <;> simp <;> omega

/-! ## Formats -/

/-- An argument of `chsnprintf`. -/
inductive PrintArg (φ : Type) where
  | d (x : Int32)
  | s (t : List UInt8)
  | f (x : φ)

/-- A character of a format, or a conversion. -/
inductive Conv where
  | byte (b : UInt8)
  | d
  | s
  | f (precision : Nat)
deriving Repr, DecidableEq

/-- Where the reading of a format stands: in the text, behind `%`, or in the
precision. -/
inductive FormatState where
  | text
  | percent
  | precision (n : Nat)

/-- The conversion of a letter; another character stands for itself. -/
def Conv.ofLetter (precision : Nat) (b : UInt8) : Conv :=
  if b = 100 then .d else if b = 115 then .s else if b = 102 then .f precision else .byte b

def parseFormat : FormatState → List UInt8 → List Conv
  | _, [] => []
  | .text, b :: bs => if b = 37 then parseFormat .percent bs else .byte b :: parseFormat .text bs
  | .percent, b :: bs =>
      if b = 46 then parseFormat (.precision 0) bs
      else Conv.ofLetter 0 b :: parseFormat .text bs
  | .precision n, b :: bs =>
      if isDigit b then parseFormat (.precision (n * 10 + (b.toNat - 48))) bs
      else Conv.ofLetter n b :: parseFormat .text bs

/-- The output for the conversions and arguments, with what follows it. A missing
argument ends it. -/
def fill (conv : FloatConv φ) : List Conv → List (PrintArg φ) → List UInt8 → List UInt8
  | .byte b :: cs, args, rest => b :: fill conv cs args rest
  | .d :: cs, .d x :: args, rest => (dLiteral x).text ++ fill conv cs args rest
  | .s :: cs, .s t :: args, rest => t ++ fill conv cs args rest
  | .f p :: cs, .f x :: args, rest => (fLiteral conv p x).text ++ fill conv cs args rest
  | _, _, rest => rest

/-- What `chvprintf` writes to its stream. -/
def chprintf (conv : FloatConv φ) (fmt : List UInt8) (args : List (PrintArg φ)) : List UInt8 :=
  fill conv (parseFormat .text fmt) args []

/-- `chsnprintf(&mem[pos], size, ..)`: the text without what has no room, and the
length it has with it. -/
def chsnprintf (mem : Mem) (pos size : Nat) (text : List UInt8) : Mem × Nat :=
  (if size = 0 then mem else memcpy mem pos (text.take (size - 1) ++ [0]), text.length)

theorem fill_append (conv : FloatConv φ) (cs : List Conv) (args : List (PrintArg φ))
    (rest : List UInt8) : fill conv cs args rest = fill conv cs args [] ++ rest := by
  fun_induction fill conv cs args rest with
  | case1 b cs args rest ih => rw [fill, ih, List.cons_append]
  | case2 cs x args rest ih => rw [fill, ih, List.append_assoc]
  | case3 cs t args rest ih => rw [fill, ih, List.append_assoc]
  | case4 p cs x args rest ih => rw [fill, ih, List.append_assoc]
  | case5 cs args rest h₁ h₂ h₃ h₄ => rw [fill.eq_5 conv cs args [] h₁ h₂ h₃ h₄, List.nil_append]

/-- The longest output of a conversion, when strings have at most `n` bytes. -/
def Conv.room (n : Nat) : Conv → Nat
  | .byte _ => 1
  | .d => 11
  | .s => n
  | .f precision => 12 + ftoaDigits precision

theorem length_fill_le (conv : FloatConv φ) {n : Nat} (cs : List Conv) (args : List (PrintArg φ))
    (rest : List UInt8) (hs : ∀ t, PrintArg.s t ∈ args → t.length ≤ n) :
    (fill conv cs args rest).length ≤ (cs.map (Conv.room n)).sum + rest.length := by
  fun_induction fill conv cs args rest with
  | case1 b cs args rest ih =>
      have hrec := ih hs
      simp only [List.length_cons, List.map_cons, List.sum_cons, Conv.room]
      omega
  | case2 cs x args rest ih =>
      have hrec := ih fun t ht => hs t (List.mem_cons_of_mem _ ht)
      have hx := dLiteral_length x
      simp only [List.length_append, List.map_cons, List.sum_cons, Conv.room]
      omega
  | case3 cs t args rest ih =>
      have hrec := ih fun t ht => hs t (List.mem_cons_of_mem _ ht)
      have ht := hs t List.mem_cons_self
      simp only [List.length_append, List.map_cons, List.sum_cons, Conv.room]
      omega
  | case4 p cs x args rest ih =>
      have hrec := ih fun t ht => hs t (List.mem_cons_of_mem _ ht)
      have hx := fLiteral_length conv p x
      simp only [List.length_append, List.map_cons, List.sum_cons, Conv.room]
      omega
  | case5 cs args rest h₁ h₂ h₃ h₄ => exact Nat.le_add_left _ _

theorem literal_noNul (l : Json.Literal) : 0 ∉ l.text := by
  have hdigits : ∀ ds : List (Fin 10), 0 ∉ ds.map digitByte := by
    intro ds hmem
    obtain ⟨d, -, hd⟩ := List.mem_map.mp hmem
    have hdigit := (digitByte_spec d).1
    rw [hd] at hdigit
    cases hdigit
  rw [Json.Literal.text, Json.Literal.body, List.mem_append, List.mem_append]
  rintro (hmem | hmem | hmem)
  · split at hmem <;> simp at hmem
  · exact hdigits _ hmem
  · split at hmem
    · cases hmem
    · rcases List.mem_cons.mp hmem with heq | hmem
      · cases heq
      · exact hdigits _ hmem

theorem fill_noNul (conv : FloatConv φ) (cs : List Conv) (args : List (PrintArg φ))
    (rest : List UInt8) (hcs : .byte 0 ∉ cs) (hs : ∀ t, PrintArg.s t ∈ args → 0 ∉ t)
    (hrest : 0 ∉ rest) : 0 ∉ fill conv cs args rest := by
  fun_induction fill conv cs args rest with
  | case1 b cs args rest ih =>
      rw [List.mem_cons, not_or] at hcs ⊢
      refine ⟨?_, ih hcs.2 hs hrest⟩
      rintro rfl
      exact hcs.1 rfl
  | case2 cs x args rest ih =>
      rw [List.mem_append, not_or]
      exact ⟨literal_noNul _, ih (fun h => hcs (List.mem_cons_of_mem _ h))
        (fun t ht => hs t (List.mem_cons_of_mem _ ht)) hrest⟩
  | case3 cs t args rest ih =>
      rw [List.mem_append, not_or]
      exact ⟨hs t List.mem_cons_self, ih (fun h => hcs (List.mem_cons_of_mem _ h))
        (fun t ht => hs t (List.mem_cons_of_mem _ ht)) hrest⟩
  | case4 p cs x args rest ih =>
      rw [List.mem_append, not_or]
      exact ⟨literal_noNul _, ih (fun h => hcs (List.mem_cons_of_mem _ h))
        (fun t ht => hs t (List.mem_cons_of_mem _ ht)) hrest⟩
  | case5 cs args rest h₁ h₂ h₃ h₄ => exact hrest

end Seatel
