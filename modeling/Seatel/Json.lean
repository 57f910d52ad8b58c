import Mathlib.Algebra.Field.Rat
import Mathlib.Data.List.TakeWhile
import Seatel.Numerals

/-!
# JSON texts

A parser for JSON over bytes: white space, literals, numbers with fraction
and exponent, strings with escapes, arrays and objects. Numbers are read
as rationals. A string is kept as it is written between its quotes, with
its escapes; bytes above 127 are not looked into.

A `Doc` is a value together with one way to write it down, without white
space and without escapes. It is read back as its value
(`parse_render`), so that a program's output is understood once it is
recognised as the text of a `Doc`.
-/

namespace Json

open Numerals

/-- What a text stands for. Members of objects are kept in order, repeated names
included. -/
inductive Value where
  | null
  | bool (b : Bool)
  | num (q : ℚ)
  | str (raw : List UInt8)
  | arr (elements : List Value)
  | obj (members : List (List UInt8 × Value))

/-! ## Scanning -/

def isWs (b : UInt8) : Bool := b = 32 || b = 9 || b = 10 || b = 13

def skipWs (bs : List UInt8) : List UInt8 := bs.dropWhile isWs

/-- Digits without a leading zero. -/
def scanInt (bs : List UInt8) : Option (ℚ × List UInt8) :=
  match bs.takeWhile isDigit with
  | [] => none
  | d :: ds =>
      if d = 48 ∧ ds ≠ [] then none else some (digitsValue 0 (d :: ds), bs.dropWhile isDigit)

/-- A point and digits, or nothing. -/
def scanFrac : List UInt8 → Option (ℚ × List UInt8)
  | [] => some (0, [])
  | b :: bs =>
      if b = 46 then
        match bs.takeWhile isDigit with
        | [] => none
        | d :: ds =>
            some (digitsValue 0 (d :: ds) / 10 ^ (d :: ds).length, bs.dropWhile isDigit)
      else some (0, b :: bs)

/-- The digits of an exponent. -/
def scanPower (neg : Bool) (bs : List UInt8) : Option (ℚ × List UInt8) :=
  match bs.takeWhile isDigit with
  | [] => none
  | d :: ds =>
      let p : ℚ := 10 ^ digitsValue 0 (d :: ds)
      some (if neg then 1 / p else p, bs.dropWhile isDigit)

/-- An exponent behind its letter. -/
def scanSigned : List UInt8 → Option (ℚ × List UInt8)
  | [] => none
  | b :: bs =>
      if b = 45 then scanPower true bs
      else if b = 43 then scanPower false bs
      else scanPower false (b :: bs)

/-- The power of ten of an exponent, or 1. -/
def scanExp : List UInt8 → Option (ℚ × List UInt8)
  | [] => some (1, [])
  | b :: bs => if b = 101 ∨ b = 69 then scanSigned bs else some (1, b :: bs)

/-- A number without its sign. -/
def scanUnsigned (bs : List UInt8) : Option (ℚ × List UInt8) :=
  (scanInt bs).bind fun (w, bs) =>
    (scanFrac bs).bind fun (f, bs) =>
      (scanExp bs).map fun (e, bs) => ((w + f) * e, bs)

def scanNumber : List UInt8 → Option (ℚ × List UInt8)
  | [] => none
  | b :: bs =>
      if b = 45 then (scanUnsigned bs).map fun (q, bs) => (-q, bs) else scanUnsigned (b :: bs)

def isHex (b : UInt8) : Bool := isDigit b || (97 ≤ b && b ≤ 102) || (65 ≤ b && b ≤ 70)

/-- The letters of the escapes of one character. -/
def isEscape (b : UInt8) : Bool :=
  b = 34 || b = 92 || b = 47 || b = 98 || b = 102 || b = 110 || b = 114 || b = 116

/-- A string behind its opening quote. Inside an escape the first argument is 1
behind the backslash, and one more than the hexadecimal digits that are missing. -/
def scanString : Nat → List UInt8 → Option (List UInt8 × List UInt8)
  | _, [] => none
  | 0, b :: bs =>
      if b = 34 then some ([], bs)
      else if b < 32 then none
      else (scanString (if b = 92 then 1 else 0) bs).map fun (s, bs) => (b :: s, bs)
  | 1, b :: bs =>
      if isEscape b then (scanString 0 bs).map fun (s, bs) => (b :: s, bs)
      else if b = 117 then (scanString 5 bs).map fun (s, bs) => (b :: s, bs)
      else none
  | n + 2, b :: bs =>
      if isHex b then
        (scanString (if n = 0 then 0 else n + 1) bs).map fun (s, bs) => (b :: s, bs)
      else none

/-- One of the three literals. -/
def scanLiteral (bs : List UInt8) : Option (Value × List UInt8) :=
  if [110, 117, 108, 108].isPrefixOf bs then some (.null, bs.drop 4)
  else if [116, 114, 117, 101].isPrefixOf bs then some (.bool true, bs.drop 4)
  else if [102, 97, 108, 115, 101].isPrefixOf bs then some (.bool false, bs.drop 5)
  else none

/-! ## The parser -/

mutual

/-- A value; the first argument bounds the calls, two for every byte are enough. -/
def parseValue : Nat → List UInt8 → Option (Value × List UInt8)
  | 0, _ => none
  | n + 1, bs =>
      match skipWs bs with
      | [] => none
      | b :: bs =>
          if b = 34 then (scanString 0 bs).map fun (s, bs) => (.str s, bs)
          else if b = 91 then
            if (skipWs bs).head? = some 93 then some (.arr [], (skipWs bs).tail)
            else
              (parseValue n bs).bind fun (v, bs) =>
                (parseElements n bs).map fun (vs, bs) => (.arr (v :: vs), bs)
          else if b = 123 then
            if (skipWs bs).head? = some 125 then some (.obj [], (skipWs bs).tail)
            else
              (parseMember n bs).bind fun (m, bs) =>
                (parseMembers n bs).map fun (ms, bs) => (.obj (m :: ms), bs)
          else if b = 45 || isDigit b then
            (scanNumber (b :: bs)).map fun (q, bs) => (.num q, bs)
          else scanLiteral (b :: bs)

/-- The elements behind the first one, up to the bracket. -/
def parseElements : Nat → List UInt8 → Option (List Value × List UInt8)
  | 0, _ => none
  | n + 1, bs =>
      match skipWs bs with
      | [] => none
      | b :: bs =>
          if b = 93 then some ([], bs)
          else if b = 44 then
            (parseValue n bs).bind fun (v, bs) =>
              (parseElements n bs).map fun (vs, bs) => (v :: vs, bs)
          else none

/-- A name, a colon and a value. -/
def parseMember : Nat → List UInt8 → Option ((List UInt8 × Value) × List UInt8)
  | 0, _ => none
  | n + 1, bs =>
      match skipWs bs with
      | [] => none
      | b :: bs =>
          if b = 34 then
            (scanString 0 bs).bind fun (k, bs) =>
              match skipWs bs with
              | [] => none
              | c :: bs =>
                  if c = 58 then (parseValue n bs).map fun (v, bs) => ((k, v), bs) else none
          else none

/-- The members behind the first one, up to the brace. -/
def parseMembers : Nat → List UInt8 → Option (List (List UInt8 × Value) × List UInt8)
  | 0, _ => none
  | n + 1, bs =>
      match skipWs bs with
      | [] => none
      | b :: bs =>
          if b = 125 then some ([], bs)
          else if b = 44 then
            (parseMember n bs).bind fun (m, bs) =>
              (parseMembers n bs).map fun (ms, bs) => (m :: ms, bs)
          else none

end

/-- The value of a whole text. -/
def parse (bs : List UInt8) : Option Value :=
  (parseValue (2 * bs.length + 2) bs).bind fun (v, bs) => if skipWs bs = [] then some v else none

/-! ## Written values -/

/-- A number as it is written, without an exponent. -/
structure Literal where
  neg : Bool
  whole : List (Fin 10)
  frac : List (Fin 10)
  whole_ne : whole ≠ []
  no_zero : whole.head? = some 0 → whole.length = 1

/-- A string without escapes. -/
def Plain : Type := { s : List UInt8 // ∀ b ∈ s, 32 ≤ b ∧ b ≠ 34 ∧ b ≠ 92 }

/-- A string that is seen to have none. -/
def plain (s : List UInt8) (h : ∀ b ∈ s, 32 ≤ b ∧ b ≠ 34 ∧ b ≠ 92 := by decide +kernel) :
    Plain := ⟨s, h⟩

@[simp] theorem plain_val (s : List UInt8) (h : ∀ b ∈ s, 32 ≤ b ∧ b ≠ 34 ∧ b ≠ 92) :
    (plain s h).val = s := rfl

/-- The value of a group of digits. -/
def digitsNat (ds : List (Fin 10)) : Nat := ds.foldl (fun acc d => acc * 10 + d.val) 0

namespace Literal

/-- The text without the sign. -/
def body (l : Literal) : List UInt8 :=
  l.whole.map digitByte ++ if l.frac = [] then [] else 46 :: l.frac.map digitByte

def text (l : Literal) : List UInt8 := (if l.neg then [45] else []) ++ l.body

def value (l : Literal) : ℚ :=
  (if l.neg then -1 else 1) * (digitsNat l.whole + digitsNat l.frac / 10 ^ l.frac.length)

end Literal

inductive Doc where
  | num (l : Literal)
  | str (s : Plain)
  | arr (elements : List Doc)
  | obj (members : List (Plain × Doc))

namespace Doc

mutual

def value : Doc → Value
  | .num l => .num l.value
  | .str s => .str s.val
  | .arr ds => .arr (values ds)
  | .obj ms => .obj (memberValues ms)

def values : List Doc → List Value
  | [] => []
  | d :: ds => d.value :: values ds

def memberValues : List (Plain × Doc) → List (List UInt8 × Value)
  | [] => []
  | (k, d) :: ms => (k.val, d.value) :: memberValues ms

end

mutual

/-- The text with what follows it. -/
def render : Doc → List UInt8 → List UInt8
  | .num l, rest => l.text ++ rest
  | .str s, rest => 34 :: (s.val ++ 34 :: rest)
  | .arr [], rest => 91 :: 93 :: rest
  | .arr (d :: ds), rest => 91 :: render d (renderElements ds rest)
  | .obj [], rest => 123 :: 125 :: rest
  | .obj ((k, d) :: ms), rest =>
      123 :: 34 :: (k.val ++ 34 :: 58 :: render d (renderMembers ms rest))

/-- The elements behind the first one, with the bracket. -/
def renderElements : List Doc → List UInt8 → List UInt8
  | [], rest => 93 :: rest
  | d :: ds, rest => 44 :: render d (renderElements ds rest)

/-- The members behind the first one, with the brace. -/
def renderMembers : List (Plain × Doc) → List UInt8 → List UInt8
  | [], rest => 125 :: rest
  | (k, d) :: ms, rest => 44 :: 34 :: (k.val ++ 34 :: 58 :: render d (renderMembers ms rest))

end

mutual

/-- How many calls it takes to read the text. -/
def size : Doc → Nat
  | .num _ => 1
  | .str _ => 1
  | .arr ds => 1 + sizes ds
  | .obj ms => 2 + memberSizes ms

def sizes : List Doc → Nat
  | [] => 1
  | d :: ds => 1 + d.size + sizes ds

def memberSizes : List (Plain × Doc) → Nat
  | [] => 1
  | (_, d) :: ms => 2 + d.size + memberSizes ms

end

end Doc

/-! ## Reading numbers and strings -/

/-- What may stand behind a number. -/
structure Follows (rest : List UInt8) : Prop where
  digit : NoDigitHead rest
  point : rest.head? ≠ some 46
  exp : rest.head? ≠ some 101 ∧ rest.head? ≠ some 69

section Digits

variable {rest : List UInt8} (hrest : NoDigitHead rest) (ds : List (Fin 10))

include hrest

theorem takeWhile_rest : rest.takeWhile isDigit = [] := by
  cases rest with
  | nil => rfl
  | cons b rest => rw [List.takeWhile_cons_of_neg (by simp [hrest b rfl])]

theorem takeWhile_digits :
    (ds.map digitByte ++ rest).takeWhile isDigit = ds.map digitByte := by
  have hall : ∀ b ∈ ds.map digitByte, isDigit b = true := by
    intro b hb
    obtain ⟨d, -, rfl⟩ := List.mem_map.mp hb
    exact (digitByte_spec d).1
  rw [List.takeWhile_append_of_pos hall, takeWhile_rest hrest, List.append_nil]

theorem dropWhile_digits : (ds.map digitByte ++ rest).dropWhile isDigit = rest := by
  have hsplit := List.takeWhile_append_dropWhile (p := isDigit) (l := ds.map digitByte ++ rest)
  rw [takeWhile_digits hrest] at hsplit
  exact List.append_cancel_left hsplit

end Digits

theorem digitsValue_map (ds : List (Fin 10)) : digitsValue 0 (ds.map digitByte) = digitsNat ds := by
  have hnil : NoDigitHead [] := fun _ hb => nomatch hb
  have h := digitsValue_digits 0 ds hnil
  rwa [List.append_nil] at h

theorem scanInt_digits {d : Fin 10} {ds : List (Fin 10)} {rest : List UInt8}
    (hrest : NoDigitHead rest) (hzero : d = 0 → ds = []) :
    scanInt ((d :: ds).map digitByte ++ rest) = some ((digitsNat (d :: ds) : ℚ), rest) := by
  have hlead : ¬ (digitByte d = 48 ∧ ds.map digitByte ≠ []) := by
    rintro ⟨hd, hne⟩
    have hinj : ∀ d : Fin 10, digitByte d = 48 → d = 0 := by decide
    exact hne (by rw [hzero (hinj d hd)]; rfl)
  rw [scanInt, takeWhile_digits hrest, dropWhile_digits hrest, List.map_cons]
  simp only
  rw [if_neg hlead, ← List.map_cons, digitsValue_map]

theorem scanFrac_digits {d : Fin 10} {ds : List (Fin 10)} {rest : List UInt8}
    (hrest : NoDigitHead rest) :
    scanFrac (46 :: ((d :: ds).map digitByte ++ rest))
      = some ((digitsNat (d :: ds) : ℚ) / 10 ^ (d :: ds).length, rest) := by
  rw [scanFrac, if_pos rfl, takeWhile_digits hrest, dropWhile_digits hrest, List.map_cons]
  simp only
  rw [← List.map_cons, digitsValue_map, List.length_map]

theorem scanFrac_none {rest : List UInt8} (hrest : Follows rest) :
    scanFrac rest = some (0, rest) := by
  cases rest with
  | nil => rfl
  | cons b rest => rw [scanFrac, if_neg (fun hb => hrest.point (by rw [hb]; rfl))]

theorem scanExp_none {rest : List UInt8} (hrest : Follows rest) :
    scanExp rest = some (1, rest) := by
  cases rest with
  | nil => rfl
  | cons b rest =>
      have hb : ¬ (b = 101 ∨ b = 69) := by
        rintro (rfl | rfl)
        · exact hrest.exp.1 rfl
        · exact hrest.exp.2 rfl
      rw [scanExp, if_neg hb]

namespace Literal

variable (l : Literal) {rest : List UInt8}

theorem scanUnsigned_body (hrest : Follows rest) :
    scanUnsigned (l.body ++ rest)
      = some ((digitsNat l.whole : ℚ) + digitsNat l.frac / 10 ^ l.frac.length, rest) := by
  obtain ⟨neg, whole, frac, hne, hzero⟩ := l
  cases whole with
  | nil => exact absurd rfl hne
  | cons d ds =>
      have hlead : d = 0 → ds = [] := by
        rintro rfl
        have hlen := hzero rfl
        rw [List.length_cons] at hlen
        exact List.length_eq_zero_iff.mp (by omega)
      cases frac with
      | nil =>
          rw [scanUnsigned, body, if_pos rfl, List.append_nil, scanInt_digits hrest.digit hlead]
          simp only [Option.bind_some]
          rw [scanFrac_none hrest]
          simp only [Option.bind_some]
          rw [scanExp_none hrest]
          simp [digitsNat]
      | cons e es =>
          have hpoint : NoDigitHead (46 :: ((e :: es).map digitByte ++ rest)) := by
            intro b hb
            cases hb
            rfl
          rw [scanUnsigned, body, if_neg (by simp), List.append_assoc, List.cons_append,
            scanInt_digits hpoint hlead]
          simp only [Option.bind_some]
          rw [scanFrac_digits hrest.digit]
          simp only [Option.bind_some]
          rw [scanExp_none hrest]
          simp

/-- The first byte of a number is its sign or a digit. -/
theorem body_head : ∃ d bs, l.body = digitByte d :: bs := by
  obtain ⟨neg, whole, frac, hne, hzero⟩ := l
  cases whole with
  | nil => exact absurd rfl hne
  | cons d ds => exact ⟨d, _, rfl⟩

/-- A number is read back. -/
theorem scanNumber_text (hrest : Follows rest) :
    scanNumber (l.text ++ rest) = some (l.value, rest) := by
  have hbody := l.scanUnsigned_body hrest
  obtain ⟨d, bs, hhead⟩ := l.body_head
  cases hneg : l.neg with
  | true =>
      have htext : l.text ++ rest = 45 :: (l.body ++ rest) := by
        rw [text, hneg]
        rfl
      rw [htext, scanNumber, if_pos rfl, hbody]
      simp [value, hneg]
  | false =>
      have htext : l.text ++ rest = l.body ++ rest := by
        rw [text, hneg]
        rfl
      rw [htext, hhead, List.cons_append, scanNumber, if_neg (digitByte_spec d).2.2.2.1,
        ← List.cons_append, ← hhead, hbody]
      simp [value, hneg]

end Literal

theorem scanString_plain (s : Plain) (rest : List UInt8) :
    scanString 0 (s.val ++ 34 :: rest) = some (s.val, rest) := by
  obtain ⟨s, hs⟩ := s
  induction s with
  | nil =>
      rw [List.nil_append, scanString, if_pos rfl]
  | cons b s ih =>
      obtain ⟨hctrl, hquote, hslash⟩ := hs b List.mem_cons_self
      have hlt : ¬ b < 32 := UInt8.not_lt.mpr hctrl
      have hrec := ih fun c hc => hs c (List.mem_cons_of_mem _ hc)
      simp only at hrec ⊢
      rw [List.cons_append, scanString, if_neg hquote, if_neg hlt, if_neg hslash, hrec]
      rfl

/-! ## Reading documents -/

theorem skipWs_cons {b : UInt8} (hb : isWs b = false) (bs : List UInt8) :
    skipWs (b :: bs) = b :: bs := by
  rw [skipWs, List.dropWhile_cons_of_neg (by simp [hb])]

theorem follows_nil : Follows [] := by
  refine ⟨?_, ?_, ?_, ?_⟩
  · intro b hb
    cases hb
  all_goals
    intro hb
    cases hb

/-- A comma, a closing bracket or brace, or white space. -/
theorem follows_cons {b : UInt8} (hb : b = 44 ∨ b = 93 ∨ b = 125 ∨ isWs b = true)
    (rest : List UInt8) : Follows (b :: rest) := by
  have hall : ∀ b : UInt8, b = 44 ∨ b = 93 ∨ b = 125 ∨ isWs b = true →
      isDigit b = false ∧ b ≠ 46 ∧ b ≠ 101 ∧ b ≠ 69 := by
    simp only [isWs, Bool.or_eq_true, decide_eq_true_eq]
    rintro b (rfl | rfl | rfl | ((rfl | rfl) | rfl) | rfl) <;> decide
  obtain ⟨hdigit, h46, h101, h69⟩ := hall b hb
  refine ⟨?_, fun h => h46 (Option.some.inj h), fun h => h101 (Option.some.inj h),
    fun h => h69 (Option.some.inj h)⟩
  intro c hc
  cases hc
  exact hdigit

theorem follows_elements (ds : List Doc) (rest : List UInt8) :
    Follows (Doc.renderElements ds rest) := by
  cases ds with
  | nil => exact follows_cons (.inr (.inl rfl)) _
  | cons d ds => exact follows_cons (.inl rfl) _

theorem follows_members (ms : List (Plain × Doc)) (rest : List UInt8) :
    Follows (Doc.renderMembers ms rest) := by
  cases ms with
  | nil => exact follows_cons (.inr (.inr (.inl rfl))) _
  | cons m ms => exact follows_cons (.inl rfl) _

/-- A number starts with a byte that leads to `scanNumber`. -/
theorem Literal.text_head (l : Literal) :
    ∃ b bs, l.text = b :: bs ∧ (b = 45 || isDigit b) = true := by
  obtain ⟨d, bs, hbody⟩ := l.body_head
  cases hneg : l.neg with
  | true =>
      refine ⟨45, l.body, ?_, rfl⟩
      rw [text, hneg]
      rfl
  | false =>
      refine ⟨digitByte d, bs, ?_, ?_⟩
      · rw [text, hneg]
        exact hbody
      · rw [(digitByte_spec d).1, Bool.or_true]

theorem numberHead {b : UInt8} (hb : (b = 45 || isDigit b) = true) :
    isWs b = false ∧ b ≠ 34 ∧ b ≠ 91 ∧ b ≠ 123 ∧ b ≠ 93 := by
  have hne : ∀ c : UInt8, (c = 45 || isDigit c) = false → b ≠ c := by
    rintro c hc rfl
    rw [hb] at hc
    cases hc
  refine ⟨?_, hne 34 rfl, hne 91 rfl, hne 123 rfl, hne 93 rfl⟩
  simp [isWs, hne 32 rfl, hne 9 rfl, hne 10 rfl, hne 13 rfl]

/-- A document starts with a byte that is no white space and no closing bracket. -/
theorem Doc.render_head (d : Doc) (rest : List UInt8) :
    ∃ b bs, d.render rest = b :: bs ∧ isWs b = false ∧ b ≠ 93 := by
  cases d with
  | num l =>
      obtain ⟨b, bs, htext, hb⟩ := l.text_head
      obtain ⟨hws, -, -, -, hclose⟩ := numberHead hb
      exact ⟨b, bs ++ rest, by rw [render, htext]; rfl, hws, hclose⟩
  | str s => exact ⟨34, _, by rw [render], rfl, by decide⟩
  | arr ds =>
      cases ds with
      | nil => exact ⟨91, _, by rw [render], rfl, by decide⟩
      | cons d ds => exact ⟨91, _, by rw [render], rfl, by decide⟩
  | obj ms =>
      cases ms with
      | nil => exact ⟨123, _, by rw [render], rfl, by decide⟩
      | cons m ms => exact ⟨123, _, by rw [render], rfl, by decide⟩

theorem parseValue_num (n : Nat) (l : Literal) {rest : List UInt8} (hrest : Follows rest) :
    parseValue (n + 1) (l.text ++ rest) = some (.num l.value, rest) := by
  have hscan := l.scanNumber_text hrest
  obtain ⟨b, bs, htext, hb⟩ := l.text_head
  obtain ⟨hws, hquote, hbracket, hbrace, -⟩ := numberHead hb
  rw [htext, List.cons_append] at hscan ⊢
  simp only [parseValue, skipWs_cons hws, if_neg hquote, if_neg hbracket, if_neg hbrace, if_pos hb]
  rw [hscan]
  rfl

theorem parseValue_str (n : Nat) (s : Plain) (rest : List UInt8) :
    parseValue (n + 1) (34 :: (s.val ++ 34 :: rest)) = some (.str s.val, rest) := by
  rw [parseValue, skipWs_cons rfl]
  simp only [if_true]
  rw [scanString_plain]
  rfl

theorem parseMember_eq (n : Nat) (k : Plain) (bs : List UInt8) :
    parseMember (n + 1) (34 :: (k.val ++ 34 :: 58 :: bs))
      = (parseValue n bs).map fun r => ((k.val, r.1), r.2) := by
  rw [parseMember, skipWs_cons rfl]
  simp only [if_true]
  rw [scanString_plain]
  simp only [Option.bind_some]
  rw [skipWs_cons rfl]
  simp only [if_true]

theorem parseValue_arr (n : Nat) (d : Doc) (rest : List UInt8) :
    parseValue (n + 1) (91 :: d.render rest)
      = (parseValue n (d.render rest)).bind fun r =>
          (parseElements n r.2).map fun q => (.arr (r.1 :: q.1), q.2) := by
  obtain ⟨b, bs, hhead, hws, hne⟩ := d.render_head rest
  have hopen : (skipWs (d.render rest)).head? ≠ some 93 := by
    rw [hhead, skipWs_cons hws]
    exact fun h => hne (Option.some.inj h)
  rw [parseValue, skipWs_cons rfl]
  simp only [show (91 : UInt8) ≠ 34 by decide, if_false, if_true, if_neg hopen]

theorem parseValue_obj (n : Nat) (bs : List UInt8) :
    parseValue (n + 1) (123 :: 34 :: bs)
      = (parseMember n (34 :: bs)).bind fun r =>
          (parseMembers n r.2).map fun q => (.obj (r.1 :: q.1), q.2) := by
  have hopen : (skipWs (34 :: bs)).head? ≠ some 125 := by
    rw [skipWs_cons rfl]
    exact fun h => nomatch Option.some.inj h
  rw [parseValue, skipWs_cons rfl]
  simp only [show (123 : UInt8) ≠ 34 by decide, show (123 : UInt8) ≠ 91 by decide, if_false,
    if_true, if_neg hopen]

theorem parseElements_comma (n : Nat) (bs : List UInt8) :
    parseElements (n + 1) (44 :: bs)
      = (parseValue n bs).bind fun r =>
          (parseElements n r.2).map fun q => (r.1 :: q.1, q.2) := by
  rw [parseElements, skipWs_cons rfl]
  simp only [show (44 : UInt8) ≠ 93 by decide, if_false, if_true]

theorem parseMembers_comma (n : Nat) (bs : List UInt8) :
    parseMembers (n + 1) (44 :: bs)
      = (parseMember n bs).bind fun r =>
          (parseMembers n r.2).map fun q => (r.1 :: q.1, q.2) := by
  rw [parseMembers, skipWs_cons rfl]
  simp only [show (44 : UInt8) ≠ 125 by decide, if_false, if_true]

mutual

/-- A document is read back, whatever follows it. -/
theorem parseValue_render : ∀ (d : Doc) (n : Nat) (rest : List UInt8), d.size ≤ n →
    Follows rest → parseValue n (d.render rest) = some (d.value, rest)
  | d, 0, _, hn, _ => by cases d <;> simp [Doc.size] at hn
  | .num l, n + 1, rest, _, hrest => by
      rw [Doc.render, Doc.value, parseValue_num n l hrest]
  | .str s, n + 1, rest, _, _ => by
      rw [Doc.render, Doc.value, parseValue_str]
  | .arr [], n + 1, rest, _, _ => by
      rw [Doc.render, parseValue, skipWs_cons rfl]
      rfl
  | .arr (d :: ds), n + 1, rest, hn, _ => by
      rw [Doc.size, Doc.sizes] at hn
      have hfirst := parseValue_render d n (Doc.renderElements ds rest) (by omega)
        (follows_elements ds rest)
      have hrest := parseElements_render ds n rest (by omega)
      rw [Doc.render, parseValue_arr, hfirst, Option.bind_some, hrest, Doc.value, Doc.values]
      rfl
  | .obj [], n + 1, rest, _, _ => by
      rw [Doc.render, parseValue, skipWs_cons rfl]
      rfl
  | .obj ((k, d) :: ms), 1, rest, hn, _ => by
      rw [Doc.size, Doc.memberSizes] at hn
      omega
  | .obj ((k, d) :: ms), n + 2, rest, hn, _ => by
      rw [Doc.size, Doc.memberSizes] at hn
      have hfirst := parseValue_render d n (Doc.renderMembers ms rest) (by omega)
        (follows_members ms rest)
      have hrest := parseMembers_render ms (n + 1) rest (by omega)
      rw [Doc.render, parseValue_obj, parseMember_eq, hfirst, Option.map_some, Option.bind_some,
        hrest, Doc.value, Doc.memberValues]
      rfl

/-- So are the elements behind the first one. -/
theorem parseElements_render : ∀ (ds : List Doc) (n : Nat) (rest : List UInt8),
    Doc.sizes ds ≤ n →
    parseElements n (Doc.renderElements ds rest) = some (Doc.values ds, rest)
  | ds, 0, _, hn => by cases ds <;> simp [Doc.sizes] at hn
  | [], n + 1, rest, _ => by
      rw [Doc.renderElements, parseElements, skipWs_cons rfl]
      rfl
  | d :: ds, n + 1, rest, hn => by
      rw [Doc.sizes] at hn
      have hfirst := parseValue_render d n (Doc.renderElements ds rest) (by omega)
        (follows_elements ds rest)
      have hrest := parseElements_render ds n rest (by omega)
      rw [Doc.renderElements, parseElements_comma, hfirst, Option.bind_some, hrest, Doc.values]
      rfl

/-- And the members behind the first one. -/
theorem parseMembers_render : ∀ (ms : List (Plain × Doc)) (n : Nat) (rest : List UInt8),
    Doc.memberSizes ms ≤ n →
    parseMembers n (Doc.renderMembers ms rest) = some (Doc.memberValues ms, rest)
  | ms, 0, _, hn => by cases ms <;> simp [Doc.memberSizes] at hn
  | [], n + 1, rest, _ => by
      rw [Doc.renderMembers, parseMembers, skipWs_cons rfl]
      rfl
  | (k, d) :: ms, 1, rest, hn => by
      rw [Doc.memberSizes] at hn
      omega
  | (k, d) :: ms, n + 2, rest, hn => by
      rw [Doc.memberSizes] at hn
      have hfirst := parseValue_render d n (Doc.renderMembers ms rest) (by omega)
        (follows_members ms rest)
      have hrest := parseMembers_render ms (n + 1) rest (by omega)
      rw [Doc.renderMembers, parseMembers_comma, parseMember_eq, hfirst, Option.map_some,
        Option.bind_some, hrest, Doc.memberValues]
      rfl

end

mutual

/-- Two calls for every byte are enough. -/
theorem Doc.size_le : ∀ (d : Doc) (rest : List UInt8),
    d.size + 2 * rest.length ≤ 2 * (d.render rest).length
  | .num l, rest => by
      obtain ⟨b, bs, htext, -⟩ := l.text_head
      rw [size, render, htext, List.length_append, List.length_cons]
      omega
  | .str s, rest => by
      simp only [size, render, List.length_cons, List.length_append]
      omega
  | .arr [], rest => by
      simp only [size, sizes, render, List.length_cons]
      omega
  | .arr (d :: ds), rest => by
      have hd := size_le d (renderElements ds rest)
      have hds := sizes_le ds rest
      simp only [size, sizes, render, List.length_cons]
      omega
  | .obj [], rest => by
      simp only [size, memberSizes, render, List.length_cons]
      omega
  | .obj ((k, d) :: ms), rest => by
      have hd := size_le d (renderMembers ms rest)
      have hms := memberSizes_le ms rest
      simp only [size, memberSizes, render, List.length_cons, List.length_append]
      omega

theorem Doc.sizes_le : ∀ (ds : List Doc) (rest : List UInt8),
    sizes ds + 2 * rest.length ≤ 2 * (renderElements ds rest).length
  | [], rest => by
      simp only [sizes, renderElements, List.length_cons]
      omega
  | d :: ds, rest => by
      have hd := size_le d (renderElements ds rest)
      have hds := sizes_le ds rest
      simp only [sizes, renderElements, List.length_cons]
      omega

theorem Doc.memberSizes_le : ∀ (ms : List (Plain × Doc)) (rest : List UInt8),
    memberSizes ms + 2 * rest.length ≤ 2 * (renderMembers ms rest).length
  | [], rest => by
      simp only [memberSizes, renderMembers, List.length_cons]
      omega
  | (k, d) :: ms, rest => by
      have hd := size_le d (renderMembers ms rest)
      have hms := memberSizes_le ms rest
      simp only [memberSizes, renderMembers, List.length_cons, List.length_append]
      omega

end

theorem skipWs_append {ws : List UInt8} (hws : ∀ b ∈ ws, isWs b = true) (bs : List UInt8) :
    skipWs (ws ++ bs) = skipWs bs :=
  List.dropWhile_append_of_pos hws

/-- The text of a document is read as its value, with white space around it. -/
theorem parse_render (d : Doc) {before behind : List UInt8} (hbefore : ∀ b ∈ before, isWs b = true)
    (hbehind : ∀ b ∈ behind, isWs b = true) :
    parse (before ++ d.render behind) = some d.value := by
  have hfollows : Follows behind := by
    cases behind with
    | nil => exact follows_nil
    | cons b behind => exact follows_cons (.inr (.inr (.inr (hbehind b List.mem_cons_self)))) _
  have hsize := d.size_le behind
  have hread := parseValue_render d (2 * (before ++ d.render behind).length + 2) behind
    (by rw [List.length_append]; omega) hfollows
  have hskip : ∀ n, parseValue (n + 1) (before ++ d.render behind)
      = parseValue (n + 1) (d.render behind) := by
    intro n
    rw [parseValue, parseValue, skipWs_append hbefore]
  have hend : skipWs behind = [] := by
    have h := skipWs_append hbehind []
    rw [List.append_nil] at h
    exact h
  rw [parse, hskip, hread, Option.bind_some]
  simp only [hend, if_true]

end Json
