import Mathlib.Data.List.Basic
import Mathlib.Tactic.Ring
import Seatel.CInt

/-!
# Decimal numerals and `atoi`

`numeral` is the number `strtol` reads at the start of a byte sequence:
white space, an optional sign, digits, up to the first byte that is none.
The end of the sequence ends the number as well. `atoi` returns it when it
is an `int`; for other numbers the C standard leaves the result open, so
the conversion is a field of an arbitrary `Libc` that is pinned down inside
the range only.

Two facts are used of a number that is read: a terminator cuts off
everything behind it (`numeral_stop`), and a written numeral is read back
(`numeral_text`). `Digits` is a field of fixed width.
-/

namespace Numerals

/-- `isspace` in the C locale. -/
def isSpace (b : UInt8) : Bool := b = 32 || (9 ≤ b && b ≤ 13)

/-- `isdigit`. -/
def isDigit (b : UInt8) : Bool := 48 ≤ b && b ≤ 57

/-- The value of the digits at the start, behind digits of value `acc`. -/
def digitsValue : Nat → List UInt8 → Nat
  | acc, [] => acc
  | acc, b :: bs => if isDigit b then digitsValue (acc * 10 + (b.toNat - 48)) bs else acc

/-- The value of an optional sign and digits. -/
def signedValue : List UInt8 → Int
  | [] => 0
  | b :: bs =>
      if b = 45 then -(digitsValue 0 bs : Int)
      else if b = 43 then digitsValue 0 bs
      else digitsValue 0 (b :: bs)

/-- The number at the start of the bytes, 0 when there is none. -/
def numeral (bs : List UInt8) : Int := signedValue (bs.dropWhile isSpace)

/-- How long an optional sign and digits are. -/
def signedSpan : List UInt8 → Nat
  | [] => 0
  | b :: bs =>
      if b = 45 ∨ b = 43 then 1 + (bs.takeWhile isDigit).length
      else ((b :: bs).takeWhile isDigit).length

/-- How many bytes are read before the one that ends the number. -/
def numeralSpan (bs : List UInt8) : Nat :=
  (bs.takeWhile isSpace).length + signedSpan (bs.dropWhile isSpace)

/-- The indices of `atoi(&msg[i])`, the byte that ends the number included. -/
def atoiTouched (msg : List UInt8) (i : Nat) : List Nat :=
  List.range' i (numeralSpan (msg.drop i) + 1)

/-- The C library, arbitrary where the standard leaves it open. -/
structure Libc where
  narrow : Int → Int32
  narrow_of_mem : ∀ n, -2147483648 ≤ n → n ≤ 2147483647 → narrow n = Int32.ofInt n

/-- The library that saturates numbers that are no `int`. -/
def Libc.saturating : Libc where
  narrow n := Int32.ofInt (max (-2147483648) (min 2147483647 n))
  narrow_of_mem n hlo hhi := by rw [min_eq_right hhi, max_eq_right hlo]

def Libc.atoi (libc : Libc) (bs : List UInt8) : Int32 := libc.narrow (numeral bs)

theorem Libc.toInt_narrow (libc : Libc) {n : Int} (hlo : -2147483648 ≤ n) (hhi : n ≤ 2147483647) :
    (libc.narrow n).toInt = n := by
  rw [libc.narrow_of_mem n hlo hhi]
  exact Int32.toInt_ofInt_of_le hlo (by omega)

/-! ## What ends a number -/

theorem takeWhile_stop {p : UInt8 → Bool} {b : UInt8} (hb : p b = false) (u rest : List UInt8) :
    (u ++ b :: rest).takeWhile p = u.takeWhile p := by
  rw [List.takeWhile_append, List.takeWhile_cons_of_neg (by simp [hb]), List.append_nil]
  split
  · rename_i hlen
    exact ((List.takeWhile_prefix p).eq_of_length hlen).symm
  · rfl

theorem dropWhile_stop {p : UInt8 → Bool} {b : UInt8} (hb : p b = false) (u rest : List UInt8) :
    (u ++ b :: rest).dropWhile p = u.dropWhile p ++ b :: rest := by
  rw [List.dropWhile_append, List.dropWhile_cons_of_neg (by simp [hb])]
  split
  · rename_i hnil
    rw [List.isEmpty_iff.mp hnil, List.nil_append]
  · rfl

theorem digitsValue_stop {b : UInt8} (hb : isDigit b = false) (acc : Nat) (bs rest : List UInt8) :
    digitsValue acc (bs ++ b :: rest) = digitsValue acc bs := by
  induction bs generalizing acc with
  | nil => simp [digitsValue, hb]
  | cons c bs ih =>
      rw [List.cons_append, digitsValue, digitsValue]
      split
      · exact ih _
      · rfl

/-- A byte that is no white space, sign or digit. -/
structure Stops (b : UInt8) : Prop where
  space : isSpace b = false
  digit : isDigit b = false
  minus : b ≠ 45
  plus : b ≠ 43

theorem Stops.nul : Stops 0 where
  space := rfl
  digit := rfl
  minus := by decide
  plus := by decide

theorem Stops.comma : Stops 44 where
  space := rfl
  digit := rfl
  minus := by decide
  plus := by decide

theorem signedValue_stop {b : UInt8} (hb : Stops b) (bs rest : List UInt8) :
    signedValue (bs ++ b :: rest) = signedValue bs := by
  cases bs with
  | nil => simp [signedValue, hb.minus, hb.plus, digitsValue, hb.digit]
  | cons c bs =>
      simp only [List.cons_append, signedValue]
      rw [digitsValue_stop hb.digit, ← List.cons_append, digitsValue_stop hb.digit]

/-- What stands behind a byte that ends the number does not matter. -/
theorem numeral_stop {b : UInt8} (hb : Stops b) (bs rest : List UInt8) :
    numeral (bs ++ b :: rest) = numeral bs := by
  rw [numeral, dropWhile_stop hb.space, signedValue_stop hb, numeral]

/-! ## How far it is read -/

theorem signedSpan_le_length (u : List UInt8) : signedSpan u ≤ u.length := by
  cases u with
  | nil => exact Nat.le_refl 0
  | cons c u =>
      rw [signedSpan]
      split
      · have hlen := (List.takeWhile_prefix isDigit (l := u)).length_le
        rw [List.length_cons]
        omega
      · exact (List.takeWhile_prefix isDigit).length_le

theorem numeralSpan_le_length (u : List UInt8) : numeralSpan u ≤ u.length := by
  have hsplit := congrArg List.length (List.takeWhile_append_dropWhile (p := isSpace) (l := u))
  have hspan := signedSpan_le_length (u.dropWhile isSpace)
  rw [List.length_append] at hsplit
  rw [numeralSpan]
  omega

/-- Such a byte ends the number. -/
theorem numeralSpan_stop {b : UInt8} (hb : Stops b) (u rest : List UInt8) :
    numeralSpan (u ++ b :: rest) = numeralSpan u := by
  rw [numeralSpan, numeralSpan, takeWhile_stop hb.space, dropWhile_stop hb.space]
  congr 1
  cases u.dropWhile isSpace with
  | nil =>
      have hsign : ¬ (b = 45 ∨ b = 43) := by
        rintro (h | h)
        · exact hb.minus h
        · exact hb.plus h
      simp only [List.nil_append, signedSpan, if_neg hsign]
      rw [List.takeWhile_cons_of_neg (by simp [hb.digit])]
      rfl
  | cons c u =>
      rw [List.cons_append, signedSpan, signedSpan, takeWhile_stop hb.digit, ← List.cons_append,
        takeWhile_stop hb.digit]

theorem numeralSpan_le {bs : List UInt8} {k : Nat} {b : UInt8} (hk : bs[k]? = some b)
    (hb : Stops b) : numeralSpan bs ≤ k := by
  obtain ⟨hlt, heq⟩ := List.getElem?_eq_some_iff.mp hk
  have hsplit : bs = bs.take k ++ b :: bs.drop (k + 1) := by
    rw [← heq, ← List.drop_eq_getElem_cons hlt, List.take_append_drop]
  have hle := numeralSpan_le_length (bs.take k)
  rw [hsplit, numeralSpan_stop hb]
  rw [List.length_take] at hle
  omega

theorem mem_atoiTouched {msg : List UInt8} {i k : Nat} :
    k ∈ atoiTouched msg i ↔ i ≤ k ∧ k ≤ i + numeralSpan (msg.drop i) := by
  rw [atoiTouched, List.mem_range'_1]
  omega

theorem length_takeWhile_append_lt (p : UInt8 → Bool) (u v : List UInt8) :
    ((u ++ v).takeWhile p).length < u.length ↔ (u.takeWhile p).length < u.length := by
  rw [List.takeWhile_append]
  split
  · rename_i hall
    rw [hall, List.length_append]
    omega
  · exact Iff.rfl

theorem signedSpan_append_lt {u : List UInt8} (hu : u ≠ []) (v : List UInt8) :
    signedSpan (u ++ v) < u.length ↔ signedSpan u < u.length := by
  obtain ⟨c, u, rfl⟩ := List.exists_cons_of_ne_nil hu
  rw [List.cons_append, signedSpan, signedSpan]
  split
  · have h := length_takeWhile_append_lt isDigit u v
    rw [List.length_cons]
    omega
  · exact length_takeWhile_append_lt isDigit (c :: u) v

/-- Whether a number ends inside some bytes is said by these bytes alone. -/
theorem numeralSpan_append_lt (u v : List UInt8) :
    numeralSpan (u ++ v) < u.length ↔ numeralSpan u < u.length := by
  have hsplit := congrArg List.length (List.takeWhile_append_dropWhile (p := isSpace) (l := u))
  rw [List.length_append] at hsplit
  rw [numeralSpan, numeralSpan, List.takeWhile_append, List.dropWhile_append]
  cases hdrop : u.dropWhile isSpace with
  | nil =>
      -- white space only: the number has not even started
      rw [hdrop, List.length_nil] at hsplit
      rw [if_pos (by omega), List.length_append]
      omega
  | cons c d =>
      rw [hdrop, List.length_cons] at hsplit
      have h := signedSpan_append_lt (List.cons_ne_nil c d) v
      rw [List.length_cons] at h
      rw [if_neg (by omega), if_neg (by simp)]
      omega

/-! ## Written numerals -/

/-- An optional sign (`true` for minus) and at least one decimal digit. -/
structure Numeral where
  sign : Option Bool
  digits : List (Fin 10)
  digits_ne : digits ≠ []
deriving Repr, DecidableEq

def digitByte (d : Fin 10) : UInt8 := UInt8.ofNat (48 + d.val)

/-- The last decimal digit. -/
def lastDigit (l : Nat) : Fin 10 := ⟨l % 10, Nat.mod_lt l (by decide)⟩

def toDigits (ns : List Nat) : List (Fin 10) := ns.map lastDigit

/-- The bytes of the numeral. -/
def Numeral.text (n : Numeral) : List UInt8 :=
  (match n.sign with
    | none => []
    | some true => [45]
    | some false => [43]) ++ n.digits.map digitByte

/-- The number the digits stand for. -/
def Numeral.magnitude (n : Numeral) : Nat := n.digits.foldl (fun acc d => acc * 10 + d.val) 0

def Numeral.value (n : Numeral) : Int :=
  if n.sign = some true then -(n.magnitude : Int) else n.magnitude

/-- A digit is a digit with its own value, no sign and no white space. -/
theorem digitByte_spec (d : Fin 10) :
    isDigit (digitByte d) = true ∧ (digitByte d).toNat - 48 = d.val
      ∧ isSpace (digitByte d) = false ∧ digitByte d ≠ 45 ∧ digitByte d ≠ 43 := by
  revert d
  decide

/-- The bytes do not start with a digit. -/
def NoDigitHead (rest : List UInt8) : Prop := ∀ b, rest.head? = some b → isDigit b = false

theorem digitsValue_digits (acc : Nat) (ds : List (Fin 10)) {rest : List UInt8}
    (hrest : NoDigitHead rest) :
    digitsValue acc (ds.map digitByte ++ rest) = ds.foldl (fun acc d => acc * 10 + d.val) acc := by
  induction ds generalizing acc with
  | nil =>
      cases rest with
      | nil => rfl
      | cons b rest => simp [digitsValue, hrest b rfl]
  | cons d ds ih =>
      obtain ⟨hdigit, hval, -, -, -⟩ := digitByte_spec d
      rw [List.map_cons, List.cons_append, digitsValue, if_pos hdigit, hval]
      exact ih _

/-- A numeral is read back, whatever follows it. -/
theorem numeral_text (n : Numeral) {rest : List UInt8} (hrest : NoDigitHead rest) :
    numeral (n.text ++ rest) = n.value := by
  obtain ⟨sign, digits, hne⟩ := n
  have hmag := digitsValue_digits 0 digits hrest
  cases sign with
  | some neg =>
      cases neg with
      | true =>
          simp only [numeral, Numeral.text, List.cons_append, List.nil_append]
          rw [List.dropWhile_cons_of_neg (by decide), signedValue, if_pos rfl, hmag]
          rfl
      | false =>
          simp only [numeral, Numeral.text, List.cons_append, List.nil_append]
          rw [List.dropWhile_cons_of_neg (by decide), signedValue, if_neg (by decide), if_pos rfl,
            hmag]
          rfl
  | none =>
      cases digits with
      | nil => exact absurd rfl hne
      | cons d ds =>
          obtain ⟨-, -, hspace, hminus, hplus⟩ := digitByte_spec d
          simp only [numeral, Numeral.text, List.nil_append, List.map_cons,
            List.cons_append] at hmag ⊢
          rw [List.dropWhile_cons_of_neg (by simp [hspace]), signedValue, if_neg hminus,
            if_neg hplus, hmag]
          rfl

/-! ## Fields of fixed width -/

/-- So many decimal digits. -/
structure Digits (n : Nat) where
  digits : List (Fin 10)
  length_digits : digits.length = n
deriving Repr, DecidableEq

namespace Digits

variable {m n : Nat}

def text (d : Digits n) : List UInt8 := d.digits.map digitByte

def value (d : Digits n) : Nat := d.digits.foldl (fun acc d => acc * 10 + d.val) 0

/-- Two fields with nothing between them. -/
def append (a : Digits m) (b : Digits n) : Digits (m + n) where
  digits := a.digits ++ b.digits
  length_digits := by rw [List.length_append, a.length_digits, b.length_digits]

@[simp] theorem length_text (d : Digits n) : d.text.length = n := by
  rw [text, List.length_map, d.length_digits]

theorem text_append (a : Digits m) (b : Digits n) : (a.append b).text = a.text ++ b.text :=
  List.map_append

theorem foldl_digits (ds : List (Fin 10)) (acc : Nat) :
    ds.foldl (fun acc d => acc * 10 + d.val) acc
        = acc * 10 ^ ds.length + ds.foldl (fun acc d => acc * 10 + d.val) 0
      ∧ ds.foldl (fun acc d => acc * 10 + d.val) 0 < 10 ^ ds.length := by
  induction ds generalizing acc with
  | nil => exact ⟨by simp, by simp⟩
  | cons d ds ih =>
      have hd := d.isLt
      obtain ⟨hacc, hlt⟩ := ih (acc * 10 + d.val)
      obtain ⟨hzero, -⟩ := ih (0 * 10 + d.val)
      rw [List.foldl_cons, List.foldl_cons, hacc, hzero, List.length_cons, Nat.pow_succ,
        Nat.zero_mul, Nat.zero_add]
      generalize ds.foldl (fun acc d => acc * 10 + d.val) 0 = v at *
      generalize 10 ^ ds.length = k at *
      constructor
      · ring
      · have hle : d.val * k ≤ 9 * k := Nat.mul_le_mul_right k (Nat.le_of_lt_succ hd)
        omega

theorem value_append (a : Digits m) (b : Digits n) :
    (a.append b).value = a.value * 10 ^ n + b.value := by
  rw [value, append, List.foldl_append, (foldl_digits b.digits _).1, b.length_digits]
  rfl

theorem value_lt (d : Digits n) : d.value < 10 ^ n := by
  have h := (foldl_digits d.digits 0).2
  rwa [d.length_digits] at h

/-- A field of up to nine digits is read back. -/
theorem atoi_text (libc : Libc) (d : Digits (n + 1)) (hn : n < 9) {rest : List UInt8}
    (hrest : NoDigitHead rest) : (libc.atoi (d.text ++ rest)).toInt = d.value := by
  have hne : d.digits ≠ [] := by
    rw [← List.length_pos_iff, d.length_digits]
    exact Nat.succ_pos n
  have hread : numeral (d.text ++ rest) = d.value := numeral_text ⟨none, d.digits, hne⟩ hrest
  have hlt : d.value < 10 ^ 9 := Nat.lt_of_lt_of_le d.value_lt (Nat.pow_le_pow_right (by decide) hn)
  rw [Libc.atoi, hread, libc.toInt_narrow (by omega) (by omega)]

/-- From a later column on, a field that a comma ends is read without its first digits. -/
theorem numeral_drop (d : Digits n) {k : Nat} (hk : k ≤ n) (rest : List UInt8) :
    numeral ((d.text ++ 44 :: rest).drop k) = (d.value % 10 ^ (n - k) : Nat) := by
  have hlen : k ≤ d.text.length := by rwa [d.length_text]
  have hwidth : (d.digits.drop k).length = n - k := by
    rw [List.length_drop, d.length_digits]
  obtain ⟨hsplit, hlt⟩ := foldl_digits (d.digits.drop k)
    ((d.digits.take k).foldl (fun acc d => acc * 10 + d.val) 0)
  have hvalue : d.value % 10 ^ (n - k)
      = (d.digits.drop k).foldl (fun acc d => acc * 10 + d.val) 0 := by
    rw [value, ← List.take_append_drop k d.digits, List.foldl_append, List.take_append_drop, hsplit,
      ← hwidth, Nat.mul_add_mod_of_lt hlt]
  rw [List.drop_append_of_le_length hlen, numeral_stop Stops.comma, text, ← List.map_drop, hvalue]
  by_cases hne : d.digits.drop k = []
  · rw [hne]
    rfl
  · have hend : NoDigitHead [] := fun b hb => absurd hb (by simp)
    have hread := numeral_text ⟨none, d.digits.drop k, hne⟩ hend
    rw [List.append_nil] at hread
    exact hread

end Digits

end Numerals
