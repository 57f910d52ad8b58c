import Seatel.CString
import Seatel.Numerals
import Seatel.System

/-!
# HTTP commands with a number

The routes of `http.c`, as the chain of `strncmp` tests it is. The number
behind a `set` route goes from `atoi` into the parameter of the setter,
which is narrower than `int` and differs from route to route
(`NumRoute.request`), without a test of its range.

So a number that fits the parameter is stored as it is and another one is
stored modulo the type, where it should have been refused
(`http_number_stored_iff`). Angles are numbers modulo 65536, so azimuth
loses nothing as long as `atoi` returns the number.
-/

namespace Seatel

open CString Numerals

/-! ## The routes -/

/-- The power outputs that are switched over HTTP. -/
inductive PwrLine where
  | lna
  | ext5V
  | ext24V
deriving Repr, DecidableEq

/-- What a request makes the server do. -/
inductive HttpAction where
  | stateJson
  | favicon
  | jquery
  | page
  | command (r : Request)
  | palWriteLine (line : PwrLine) (sw : Bool)
  | debug
  | notFound
deriving Repr, DecidableEq

-- `atoi` passed to a parameter of type `int8_t`, `int16_t` and `uint16_t`.

def argI8 (libc : Libc) (arg : List UInt8) : Int8 := Int8.ofInt (libc.atoi arg).toInt

def argI16 (libc : Libc) (arg : List UInt8) : Int16 := Int16.ofInt (libc.atoi arg).toInt

def argU16 (libc : Libc) (arg : List UInt8) : UInt16 := UInt16.ofInt (libc.atoi arg).toInt

/-- `bool sw = atoi(..)`. -/
def switchOf (libc : Libc) (arg : List UInt8) : Bool := libc.atoi arg ≠ 0

/-- The tests of `server_serve` in their order, each with what it does with the
bytes behind the literal. -/
def httpRoutes (libc : Libc) : List (List UInt8 × (List UInt8 → HttpAction)) := [
  (ascii "GET /state.json", fun _ => .stateJson),
  (ascii "GET /favicon.ico", fun _ => .favicon),
  (ascii "GET /jquery.js", fun _ => .jquery),
  (ascii "GET / ", fun _ => .page),
  (ascii "GET /set/trq/az/", fun arg => .command (.azSetConstTrq (argI8 libc arg))),
  (ascii "GET /set/trq/el/", fun arg => .command (.elSetConstTrq (argI8 libc arg))),
  (ascii "GET /set/trq/sk/", fun arg => .command (.skSetConstTrq (argI8 libc arg))),
  (ascii "GET /set/tar/az/", fun arg => .command (.azSetTgtPos (argU16 libc arg))),
  (ascii "GET /set/tar/el/", fun arg => .command (.elSetTgtPos (argI16 libc arg))),
  (ascii "GET /set/tar/sk/", fun arg => .command (.skSetTgtPos (argI16 libc arg))),
  (ascii "GET /set/off/az/", fun arg => .command (.mdeSetAzEncOff (argU16 libc arg))),
  (ascii "GET /set/off/el/", fun arg => .command (.imuSetElOff (argI16 libc arg))),
  (ascii "GET /sw/lna/", fun arg => .palWriteLine .lna (switchOf libc arg)),
  (ascii "GET /sw/mde/", fun arg =>
    .command (if switchOf libc arg then .mdePowerUp else .mdePowerDown)),
  (ascii "GET /sw/ext5/", fun arg => .palWriteLine .ext5V (switchOf libc arg)),
  (ascii "GET /sw/ext24/", fun arg => .palWriteLine .ext24V (switchOf libc arg)),
  (ascii "GET /calibrate", fun _ => .command .azCalibrate),
  (ascii "GET /debug", fun _ => .debug)]

/-- `server_serve`: `data` are the bytes of the first fragment and what lies
behind it. -/
def httpServe (libc : Libc) (data : List UInt8) : HttpAction :=
  match (httpRoutes libc).find? fun r => strncmpEq data r.1 with
  | some r => r.2 (data.drop r.1.length)
  | none => .notFound

/-- What becomes of the shared variables. -/
def HttpAction.effect (v : Vars) : HttpAction → Vars
  | .command r => serve v r
  | _ => v

/-! ## The routes with a number -/

inductive NumRoute where
  | trqAz
  | trqEl
  | trqSk
  | tarAz
  | tarEl
  | tarSk
  | offAz
  | offEl
deriving Repr, DecidableEq

def NumRoute.path : NumRoute → List UInt8
  | .trqAz => ascii "GET /set/trq/az/"
  | .trqEl => ascii "GET /set/trq/el/"
  | .trqSk => ascii "GET /set/trq/sk/"
  | .tarAz => ascii "GET /set/tar/az/"
  | .tarEl => ascii "GET /set/tar/el/"
  | .tarSk => ascii "GET /set/tar/sk/"
  | .offAz => ascii "GET /set/off/az/"
  | .offEl => ascii "GET /set/off/el/"

/-- The call of the setter, with the `int` in its parameter type. -/
def NumRoute.request (x : Int32) : NumRoute → Request
  | .trqAz => .azSetConstTrq (Int8.ofInt x.toInt)
  | .trqEl => .elSetConstTrq (Int8.ofInt x.toInt)
  | .trqSk => .skSetConstTrq (Int8.ofInt x.toInt)
  | .tarAz => .azSetTgtPos (UInt16.ofInt x.toInt)
  | .tarEl => .elSetTgtPos (Int16.ofInt x.toInt)
  | .tarSk => .skSetTgtPos (Int16.ofInt x.toInt)
  | .offAz => .mdeSetAzEncOff (UInt16.ofInt x.toInt)
  | .offEl => .imuSetElOff (Int16.ofInt x.toInt)

/-- The variable the route is for. -/
def NumRoute.stored (v : Vars) : NumRoute → Int
  | .trqAz => v.mde.motorAz.toInt
  | .trqEl => v.mde.motorEl.toInt
  | .trqSk => v.mde.motorSk.toInt
  | .tarAz => v.ctrl.azTgtPos.toNat
  | .tarEl => v.ctrl.elTgtPos.toInt
  | .tarSk => v.ctrl.skTgtPos.toInt
  | .offAz => v.mde.encAzOff.toNat
  | .offEl => v.imu.elOff.toInt

/-- Whether the variable is an angle that counts modulo 65536. -/
def NumRoute.modular : NumRoute → Bool
  | .tarAz => true
  | .offAz => true
  | _ => false

/-- The range of the variable: `int8_t` for torques, `int16_t` for the rest. -/
def NumRoute.max : NumRoute → Int
  | .trqAz => 127
  | .trqEl => 127
  | .trqSk => 127
  | _ => 32767

/-- The number is a value of the variable. -/
def NumRoute.Representable (r : NumRoute) (n : Int) : Prop :=
  r.modular = true ∨ (-r.max - 1 ≤ n ∧ n ≤ r.max)

/-- What a request for `n` owes: the variable is `n`, or congruent to `n` for an
angle; and when no value of its type is, nothing happens. -/
structure NumberStored (r : NumRoute) (n : Int) (v v' : Vars) : Prop where
  exact : r.modular = false → r.Representable n → r.stored v' = n
  congruent : r.modular = true → r.stored v' % 65536 = n % 65536
  refused : ¬ r.Representable n → v' = v

theorem httpServe_number (libc : Libc) (r : NumRoute) (arg : List UInt8) :
    httpServe libc (r.path ++ arg) = .command (r.request (libc.atoi arg)) := by
  cases r <;> rfl

/-! ## What reaches the variable -/

/-- The value of the `int` after it went through the parameter. -/
def NumRoute.narrowed (r : NumRoute) (x : Int) : Int :=
  match r with
  | .trqAz => (Int8.ofInt x).toInt
  | .trqEl => (Int8.ofInt x).toInt
  | .trqSk => (Int8.ofInt x).toInt
  | .tarAz => (UInt16.ofInt x).toNat
  | .offAz => (UInt16.ofInt x).toNat
  | .tarEl => (Int16.ofInt x).toInt
  | .tarSk => (Int16.ofInt x).toInt
  | .offEl => (Int16.ofInt x).toInt

theorem stored_serve (r : NumRoute) (x : Int32) (v : Vars) :
    r.stored (serve v (r.request x)) = r.narrowed x.toInt := by
  cases r <;> rfl

/-- A value of the type stays what it is. -/
theorem narrowed_of_mem {r : NumRoute} (hr : r.modular = false) {n : Int}
    (hn : r.Representable n) : r.narrowed n = n := by
  rcases hn with hmod | ⟨hlo, hhi⟩
  · cases hr.symm.trans hmod
  · have h8 : -128 ≤ n → n ≤ 127 → (Int8.ofInt n).toInt = n := by
      intro hlo hhi
      obtain ⟨k, hk⟩ := CInt.toInt_ofInt8 n
      obtain ⟨h1, h2⟩ := CInt.toInt8_mem (Int8.ofInt n)
      omega
    have h16 : -32768 ≤ n → n ≤ 32767 → (Int16.ofInt n).toInt = n := by
      intro hlo hhi
      obtain ⟨k, hk⟩ := CInt.toInt_ofInt16 n
      obtain ⟨h1, h2⟩ := CInt.toInt16_mem (Int16.ofInt n)
      omega
    cases r with
    | trqAz => exact h8 hlo hhi
    | trqEl => exact h8 hlo hhi
    | trqSk => exact h8 hlo hhi
    | tarEl => exact h16 hlo hhi
    | tarSk => exact h16 hlo hhi
    | offEl => exact h16 hlo hhi
    | tarAz => cases hr
    | offAz => cases hr

/-- An angle keeps its remainder. -/
theorem narrowed_modular {r : NumRoute} (hr : r.modular = true) (x : Int) :
    r.narrowed x % 65536 = x % 65536 := by
  have hmod := CInt.toNat_ofIntU16 x
  cases r with
  | tarAz =>
      rw [NumRoute.narrowed]
      omega
  | offAz =>
      rw [NumRoute.narrowed]
      omega
  | _ => cases hr

/-- Whatever the number is, in some state the request changes something. -/
theorem serve_ne (r : NumRoute) (x : Int32) : ∃ v, serve v (r.request x) ≠ v := by
  by_cases hx : r.narrowed x.toInt = r.narrowed 0
  · refine ⟨serve {} (r.request 1), fun h => ?_⟩
    have hst := congrArg r.stored h
    rw [stored_serve, stored_serve, hx] at hst
    cases r <;> exact absurd hst (by decide)
  · refine ⟨serve {} (r.request 0), fun h => ?_⟩
    have hst := congrArg r.stored h
    rw [stored_serve, stored_serve] at hst
    exact hx hst

/-- The numbers for which the route does what it should: those of the variable's
type, and for an angle those that `atoi` returns modulo 65536. -/
def NumRoute.Fits (libc : Libc) (r : NumRoute) (n : Int) : Prop :=
  if r.modular then (libc.narrow n).toInt % 65536 = n % 65536 else -r.max - 1 ≤ n ∧ n ≤ r.max

/-- A request with the number `n` stores `n`, or leaves the variables alone where
it cannot, in every state exactly when `n` fits the variable of the route. -/
theorem http_number_stored_iff (libc : Libc) (r : NumRoute) (n : Numeral) (rest : List UInt8)
    (hrest : NoDigitHead rest) :
    (∀ v, NumberStored r n.value v
        ((httpServe libc (r.path ++ (n.text ++ rest))).effect v))
      ↔ r.Fits libc n.value := by
  have hserve : ∀ v, (httpServe libc (r.path ++ (n.text ++ rest))).effect v
      = serve v (r.request (libc.narrow n.value)) := by
    intro v
    rw [httpServe_number, Libc.atoi, numeral_text n hrest]
    rfl
  simp only [hserve]
  generalize n.value = n
  cases hmod : r.modular with
  | true =>
      rw [NumRoute.Fits, if_pos hmod]
      constructor
      · intro h
        have hcon := (h {}).congruent hmod
        rwa [stored_serve, narrowed_modular hmod] at hcon
      · intro h v
        refine ⟨fun hno => ?_, fun _ => ?_, fun hno => absurd (Or.inl hmod) hno⟩
        · cases hmod.symm.trans hno
        · rw [stored_serve, narrowed_modular hmod]
          exact h
  | false =>
      rw [NumRoute.Fits, if_neg (by simp [hmod])]
      constructor
      · intro h
        by_contra hno
        have hrep : ¬ r.Representable n := by
          rintro (hmod' | hmem)
          · cases hmod.symm.trans hmod'
          · exact hno hmem
        obtain ⟨v, hv⟩ := serve_ne r (libc.narrow n)
        exact hv ((h v).refused hrep)
      · intro hmem v
        have hmax : r.max ≤ 32767 := by cases r <;> decide
        have hint : (libc.narrow n).toInt = n := libc.toInt_narrow (by omega) (by omega)
        refine ⟨fun _ hrep => ?_, fun hno => ?_, fun hno => absurd (Or.inr hmem) hno⟩
        · rw [stored_serve, hint, narrowed_of_mem hmod hrep]
        · cases hmod.symm.trans hno

/-- 25, with what a browser sends behind it. -/
def numeral25 : Numeral := ⟨none, [⟨2, by decide⟩, ⟨5, by decide⟩], by decide⟩

theorem http_number_stored_in_range :
    NumberStored .trqAz 25 {}
      ((httpServe Libc.saturating
        (NumRoute.trqAz.path ++ (numeral25.text ++ ascii " HTTP/1.1"))).effect {}) :=
  (http_number_stored_iff Libc.saturating .trqAz numeral25 (ascii " HTTP/1.1")
    (by intro b hb; obtain rfl := Option.some.inj hb; decide)).mpr
    (by rw [NumRoute.Fits, if_neg (by decide)]; decide) {}

/-- A torque of 200 becomes one of -56, in the other direction. -/
theorem http_torque_reversed :
    ((httpServe Libc.saturating (ascii "GET /set/trq/az/200 HTTP/1.1")).effect {}).mde.motorAz
        = -56
      ∧ ¬ NumRoute.trqAz.Representable 200
      ∧ (httpServe Libc.saturating (ascii "GET /set/trq/az/200 HTTP/1.1")).effect {} ≠ {} := by
  refine ⟨by decide +kernel, ?_, by decide +kernel⟩
  rintro (hmod | ⟨-, hhi⟩)
  · cases hmod
  · exact absurd hhi (by decide)

end Seatel
