import Seatel.Chprintf
import Seatel.Debug
import Seatel.Vars

/-!
# `state.json`

`print_json` appends seven formatted pieces to one buffer. Their formats
leave room for the longest output of every conversion (`segments_length`),
so nothing is truncated, and what is in the buffer is the text of one JSON
document (`segments_render`).

Every number is printed by `%d`. That is right for the types that an `int`
can hold. The date, the time of day and the system time are unsigned 32-bit
numbers and come out negative from 2^31 on, and the power of the OCXO is
negated before it is printed, which one value does not survive.
-/

namespace Seatel

open CString Json

/-! ## The pieces -/

/-- `MOTOR_STATE`. -/
def motorStateText : MotorState → List UInt8
  | .constTorque => ascii "CONST_TORQUE"
  | .constSpeed => ascii "CONST_SPEED"
  | .targetPosition => ascii "TARGET_POSITION"

theorem motorStateText_plain (st : MotorState) :
    ∀ b ∈ motorStateText st, 32 ≤ b ∧ b ≠ 34 ∧ b ≠ 92 := by
  cases st <;> decide +kernel

def motorStateName (st : MotorState) : Plain := plain (motorStateText st) (motorStateText_plain st)

/-- Everything that `print_json` reads: the shared variables, the voltages and powers
of the monitors, and what `gps.c`, `ocxo.c` and `api.c` return. -/
structure Report (φ : Type) where
  vars : Vars
  ext5V : Int32
  ext5P : Int32
  ext24V : Int32
  ext24P : Int32
  mdeV : Int32
  mdeP : Int32
  lna1V : Int32
  lna1P : Int32
  lna2V : Int32
  lna2P : Int32
  ocxoV : Int32
  ocxoP : Int32
  date : UInt32
  time : UInt32
  lat : φ
  lon : φ
  alt : Int16
  sats : UInt8
  satsSol : UInt8
  pulse : Bool
  cntr : Int32
  dacVal : UInt16
  connected : Bool

variable {φ : Type}

/-- A call of `chsnprintf`. -/
structure Segment (φ : Type) where
  format : List UInt8
  args : List (PrintArg φ)

def Segment.text (conv : FloatConv φ) (s : Segment φ) : List UInt8 := chprintf conv s.format s.args

/-- An integer of any type as the `int` that `%d` takes. -/
def intArg (n : Int) : PrintArg φ := .d (Int32.ofInt n)

def stateArg (st : MotorState) : PrintArg φ := .s (motorStateName st).val

def mdeFormat : List UInt8 :=
  ascii "\x7b\"mde\":\x7b\"mot\":[%d,%d,%d],"
    ++ ascii "\"enc\":\x7b\"pos\":%d,\"spd\":%d,\"off\":%d\x7d\x7d,"

def mdeSegment (mde : Mde) : Segment φ where
  format := mdeFormat
  args := [intArg mde.motorAz.toInt, intArg mde.motorEl.toInt, intArg mde.motorSk.toInt,
    intArg mde.encAz.toNat, intArg mde.encAzSpeed.toInt, intArg mde.encAzOff.toNat]

def imuFormat : List UInt8 :=
  ascii "\"imu\":\x7b\"accel\":[%d,%d,%d],\"rot\":[%d,%d,%d],"
    ++ ascii "\"el\":\x7b\"pos\":%d,\"spd\":%d,\"off\":%d\x7d\x7d,"

def imuSegment (imu : Imu) : Segment φ where
  format := imuFormat
  args := [intArg imu.accelX.toInt, intArg imu.accelY.toInt, intArg imu.accelZ.toInt,
    intArg imu.rotX.toNat, intArg imu.rotY.toNat, intArg imu.rotZ.toNat,
    intArg imu.elPos.toInt, intArg imu.elSpd.toInt, intArg imu.elOff.toInt]

def ctrlFormat : List UInt8 :=
  ascii "\"ctrl\":\x7b\"state\":[\"%s\",\"%s\",\"%s\"],\"tgt\":[%d,%d,%d]\x7d,"

def ctrlSegment (ctrl : Ctrl) : Segment φ where
  format := ctrlFormat
  args := [stateArg ctrl.azState, stateArg ctrl.elState, stateArg ctrl.skState,
    intArg ctrl.azTgtPos.toNat, intArg ctrl.elTgtPos.toInt, intArg ctrl.skTgtPos.toInt]

def pwrFormat : List UInt8 :=
  ascii "\"pwr\":\x7b\"ext5\":[%d,%d],\"ext24\":[%d,%d],\"mde\":[%d,%d],"
    ++ ascii "\"ocxo\":[%d,%d],\"lna1\":[%d,%d],\"lna2\":[%d,%d]\x7d,"

def pwrSegment (r : Report φ) : Segment φ where
  format := pwrFormat
  args := [.d r.ext5V, .d r.ext5P, .d r.ext24V, .d r.ext24P, .d r.mdeV, .d r.mdeP, .d r.ocxoV,
    .d (-r.ocxoP), .d r.lna1V, .d r.lna1P, .d r.lna2V, .d r.lna2P]

def gpsFormat : List UInt8 :=
  ascii "\"gps\":\x7b\"date\":%d,\"time\":%d,\"lat\":%.5f,\"lon\":%.5f,\"alt\":%d,"
    ++ ascii "\"sats\":%d,\"sats_sol\":%d,\"pulse\":%d\x7d,"

def gpsSegment (r : Report φ) : Segment φ where
  format := gpsFormat
  args := [intArg r.date.toNat, intArg r.time.toNat, .f r.lat, .f r.lon, intArg r.alt.toInt,
    intArg r.sats.toNat, intArg r.satsSol.toNat, intArg r.pulse.toNat]

def ocxoFormat : List UInt8 :=
  ascii "\"ocxo\":\x7b\"cntr\":%d,\"dac\":%d\x7d,"

def ocxoSegment (r : Report φ) : Segment φ where
  format := ocxoFormat
  args := [.d r.cntr, intArg r.dacVal.toNat]

def lastFormat : List UInt8 :=
  ascii "\"api_connected\":%d,\"time\":%d\x7d"

def lastSegment (r : Report φ) : Segment φ where
  format := lastFormat
  args := [intArg r.connected.toNat, intArg (chVTGetSystemTimeX r.vars).toNat]

/-- The calls in their order. -/
def jsonSegments (r : Report φ) : List (Segment φ) :=
  [mdeSegment r.vars.mde, imuSegment r.vars.imu, ctrlSegment r.vars.ctrl, pwrSegment r,
    gpsSegment r, ocxoSegment r, lastSegment r]

def jsonFormats : List (List UInt8) :=
  [mdeFormat, imuFormat, ctrlFormat, pwrFormat, gpsFormat, ocxoFormat, lastFormat]

/-! ## The buffer -/

def jsonBufSize : Nat := 1024

/-- `len += chsnprintf(&buf[len], sizeof(buf)-len, ..)` on `buf` and `len`. -/
def jsonStep (conv : FloatConv φ) (s : Mem × Nat) (seg : Segment φ) : Mem × Nat :=
  let (mem, n) := chsnprintf s.1 s.2 (sizeT (jsonBufSize + 4294967296 - s.2)) (seg.text conv)
  (mem, sizeT (s.2 + n))

/-- The buffer and its length after some of the calls. -/
def jsonPrint (conv : FloatConv φ) (mem : Mem) (segs : List (Segment φ)) : Mem × Nat :=
  segs.foldl (jsonStep conv) (mem, 0)

/-- What is sent behind the empty line that ends the header: every part is followed
by a line feed. -/
def jsonBody (conv : FloatConv φ) (mem : Mem) (r : Report φ) : List UInt8 :=
  [10] ++ (text (jsonPrint conv mem (jsonSegments r)).1 jsonBufSize ++ [10])

/-! ## Room for the pieces -/

theorem motorStateName_le (st : MotorState) : (motorStateName st).val.length ≤ 15 := by
  cases st <;> decide

theorem motorStateName_noNul (st : MotorState) : 0 ∉ (motorStateName st).val := by
  intro h
  exact absurd ((motorStateName st).property 0 h).1 (by decide)

/-- The strings of a piece are names of states. -/
theorem mem_args {r : Report φ} {seg : Segment φ} (hseg : seg ∈ jsonSegments r) {t : List UInt8}
    (ht : PrintArg.s t ∈ seg.args) : ∃ st, t = (motorStateName st).val := by
  simp only [jsonSegments, List.mem_cons, List.not_mem_nil, or_false] at hseg
  rcases hseg with rfl | rfl | rfl | rfl | rfl | rfl | rfl
  · simp [mdeSegment, intArg] at ht
  · simp [imuSegment, intArg] at ht
  · simp only [ctrlSegment, intArg, stateArg, List.mem_cons, List.not_mem_nil, PrintArg.s.injEq,
      reduceCtorEq, or_false] at ht
    rcases ht with rfl | rfl | rfl
    · exact ⟨_, rfl⟩
    · exact ⟨_, rfl⟩
    · exact ⟨_, rfl⟩
  · simp [pwrSegment] at ht
  · simp [gpsSegment, intArg] at ht
  · simp [ocxoSegment, intArg] at ht
  · simp [lastSegment, intArg] at ht

theorem jsonSegments_formats (r : Report φ) :
    (jsonSegments r).map Segment.format = jsonFormats := by
  simp only [jsonSegments, List.map_cons, List.map_nil, mdeSegment, imuSegment, ctrlSegment,
    pwrSegment, gpsSegment, ocxoSegment, lastSegment, jsonFormats]

/-- The longest output of a format with the names of states. -/
def formatRoom (fmt : List UInt8) : Nat := ((parseFormat .text fmt).map (Conv.room 15)).sum

theorem jsonFormats_room : (jsonFormats.map formatRoom).sum = 864 := by
  decide +kernel

theorem jsonFormats_noNul : ∀ fmt ∈ jsonFormats, Conv.byte 0 ∉ parseFormat .text fmt := by
  decide +kernel

variable (conv : FloatConv φ) {r : Report φ} {seg : Segment φ}

theorem text_noNul (hseg : seg ∈ jsonSegments r) : 0 ∉ seg.text conv := by
  refine fill_noNul conv _ _ _ ?_ ?_ List.not_mem_nil
  · have hmem := List.mem_map_of_mem (f := Segment.format) hseg
    rw [jsonSegments_formats] at hmem
    exact jsonFormats_noNul _ hmem
  · intro t ht
    obtain ⟨st, rfl⟩ := mem_args hseg ht
    exact motorStateName_noNul st

theorem text_length_le (hseg : seg ∈ jsonSegments r) :
    (seg.text conv).length ≤ formatRoom seg.format := by
  refine (length_fill_le conv _ seg.args [] ?_).trans (Nat.le_of_eq (Nat.add_zero _))
  intro t ht
  obtain ⟨st, rfl⟩ := mem_args hseg ht
  exact motorStateName_le st

/-- All pieces together are shorter than the buffer. -/
theorem segments_length (r : Report φ) :
    ((jsonSegments r).flatMap (Segment.text conv)).length ≤ 864 := by
  have hle : ∀ segs : List (Segment φ), (∀ seg ∈ segs, seg ∈ jsonSegments r) →
      (segs.flatMap (Segment.text conv)).length
        ≤ ((segs.map Segment.format).map formatRoom).sum := by
    intro segs hsegs
    induction segs with
    | nil => exact Nat.le_refl 0
    | cons seg segs ih =>
        have hseg := text_length_le conv (hsegs seg List.mem_cons_self)
        have hrest := ih fun s hs => hsegs s (List.mem_cons_of_mem _ hs)
        rw [List.flatMap_cons, List.length_append, List.map_cons, List.map_cons, List.sum_cons]
        omega
  have htotal := hle (jsonSegments r) fun seg hseg => hseg
  rwa [jsonSegments_formats, jsonFormats_room] at htotal

/-! ## Appending -/

theorem jsonStep_append {mem : Mem} {t : List UInt8} (ht : Holds mem t) (htn : 0 ∉ t)
    (hseg : 0 ∉ seg.text conv) (hlen : t.length + (seg.text conv).length < 1024) :
    CStr (jsonStep conv (mem, t.length) seg).1 (t ++ seg.text conv)
      ∧ (jsonStep conv (mem, t.length) seg).2 = (t ++ seg.text conv).length := by
  have hsize : sizeT (jsonBufSize + 4294967296 - t.length) = 1024 - t.length := by
    rw [sizeT, jsonBufSize]
    omega
  have hall : (seg.text conv).take (1024 - t.length - 1) = seg.text conv :=
    List.take_of_length_le (by omega)
  have hmem : (jsonStep conv (mem, t.length) seg).1
      = memcpy mem t.length (seg.text conv ++ [0]) := by
    rw [jsonStep, chsnprintf, hsize, if_neg (by omega), hall]
  constructor
  · rw [hmem]
    exact cstr_memcpy ht htn hseg
  · have hsum : sizeT (t.length + (seg.text conv).length) = t.length + (seg.text conv).length :=
      Nat.mod_eq_of_lt (by omega)
    rw [jsonStep, chsnprintf, List.length_append]
    exact hsum

/-- As long as the buffer has room the calls append. -/
theorem jsonPrint_append (segs : List (Segment φ)) {mem : Mem} {t : List UInt8}
    (ht : Holds mem t) (htn : 0 ∉ t) (hsegs : ∀ seg ∈ segs, 0 ∉ seg.text conv)
    (hlen : t.length + (segs.flatMap (Segment.text conv)).length < 1024) :
    (segs ≠ [] → CStr (segs.foldl (jsonStep conv) (mem, t.length)).1
        (t ++ segs.flatMap (Segment.text conv)))
      ∧ (segs.foldl (jsonStep conv) (mem, t.length)).2
        = (t ++ segs.flatMap (Segment.text conv)).length := by
  induction segs generalizing mem t with
  | nil => exact ⟨fun h => absurd rfl h, by simp⟩
  | cons seg segs ih =>
      rw [List.flatMap_cons, List.length_append] at hlen
      obtain ⟨hstr, hnew⟩ := jsonStep_append conv ht htn (hsegs seg List.mem_cons_self) (by omega)
      obtain ⟨hcstr, hnext⟩ := ih hstr.holds hstr.noNul
        (fun s hs => hsegs s (List.mem_cons_of_mem _ hs)) (by rw [List.length_append]; omega)
      rw [← hnew, List.append_assoc, ← List.flatMap_cons] at hcstr hnext
      refine ⟨fun _ => ?_, hnext⟩
      cases segs with
      | nil =>
          rw [List.flatMap_cons, List.flatMap_nil, List.append_nil]
          exact hstr
      | cons s rest => exact hcstr (List.cons_ne_nil s rest)

theorem holds_nil (mem : Mem) : Holds mem [] := by
  intro i b hb
  rw [List.getElem?_nil] at hb
  cases hb

/-- The length stays inside the buffer after each of the calls. -/
theorem jsonPrint_length (mem : Mem) (r : Report φ) (k : Nat) :
    (jsonPrint conv mem ((jsonSegments r).take k)).2 < jsonBufSize := by
  have htotal := segments_length conv r
  have hsplit := congrArg (List.flatMap (Segment.text conv))
    (List.take_append_drop k (jsonSegments r))
  rw [List.flatMap_append] at hsplit
  have hle := congrArg List.length hsplit
  rw [List.length_append] at hle
  have happend := jsonPrint_append conv ((jsonSegments r).take k) (holds_nil mem) List.not_mem_nil
    (fun seg hseg => text_noNul conv (List.mem_of_mem_take hseg))
    (by rw [List.length_nil]; omega)
  rw [List.nil_append, List.length_nil] at happend
  rw [jsonPrint, happend.2, jsonBufSize]
  omega

/-- Nothing is cut off: the string in the buffer is all of the pieces. -/
theorem jsonPrint_text (mem : Mem) (r : Report φ) :
    text (jsonPrint conv mem (jsonSegments r)).1 jsonBufSize
      = (jsonSegments r).flatMap (Segment.text conv) := by
  have htotal := segments_length conv r
  have happend := jsonPrint_append conv (jsonSegments r) (holds_nil mem) List.not_mem_nil
    (fun seg hseg => text_noNul conv hseg) (by rw [List.length_nil]; omega)
  rw [List.nil_append, List.length_nil] at happend
  refine (happend.1 (List.cons_ne_nil _ _)).text_eq ?_
  rw [jsonBufSize]
  omega

/-! ## The document -/

def intDoc (n : Int) : Doc := .num (dLiteral (Int32.ofInt n))

def stateDoc (st : MotorState) : Doc := .str (motorStateName st)

def mdeDoc (mde : Mde) : Doc := .obj [
  (plain (ascii "mot"),
    .arr [intDoc mde.motorAz.toInt, intDoc mde.motorEl.toInt, intDoc mde.motorSk.toInt]),
  (plain (ascii "enc"), .obj [
    (plain (ascii "pos"), intDoc mde.encAz.toNat),
    (plain (ascii "spd"), intDoc mde.encAzSpeed.toInt),
    (plain (ascii "off"), intDoc mde.encAzOff.toNat)])]

def imuDoc (imu : Imu) : Doc := .obj [
  (plain (ascii "accel"),
    .arr [intDoc imu.accelX.toInt, intDoc imu.accelY.toInt, intDoc imu.accelZ.toInt]),
  (plain (ascii "rot"),
    .arr [intDoc imu.rotX.toNat, intDoc imu.rotY.toNat, intDoc imu.rotZ.toNat]),
  (plain (ascii "el"), .obj [
    (plain (ascii "pos"), intDoc imu.elPos.toInt),
    (plain (ascii "spd"), intDoc imu.elSpd.toInt),
    (plain (ascii "off"), intDoc imu.elOff.toInt)])]

def ctrlDoc (ctrl : Ctrl) : Doc := .obj [
  (plain (ascii "state"),
    .arr [stateDoc ctrl.azState, stateDoc ctrl.elState, stateDoc ctrl.skState]),
  (plain (ascii "tgt"),
    .arr [intDoc ctrl.azTgtPos.toNat, intDoc ctrl.elTgtPos.toInt, intDoc ctrl.skTgtPos.toInt])]

/-- A voltage and a power. -/
def pairDoc (v p : Int32) : Doc := .arr [.num (dLiteral v), .num (dLiteral p)]

def pwrDoc (r : Report φ) : Doc := .obj [
  (plain (ascii "ext5"), pairDoc r.ext5V r.ext5P),
  (plain (ascii "ext24"), pairDoc r.ext24V r.ext24P),
  (plain (ascii "mde"), pairDoc r.mdeV r.mdeP),
  (plain (ascii "ocxo"), pairDoc r.ocxoV (-r.ocxoP)),
  (plain (ascii "lna1"), pairDoc r.lna1V r.lna1P),
  (plain (ascii "lna2"), pairDoc r.lna2V r.lna2P)]

def gpsDoc (r : Report φ) : Doc := .obj [
  (plain (ascii "date"), intDoc r.date.toNat),
  (plain (ascii "time"), intDoc r.time.toNat),
  (plain (ascii "lat"), .num (fLiteral conv 5 r.lat)),
  (plain (ascii "lon"), .num (fLiteral conv 5 r.lon)),
  (plain (ascii "alt"), intDoc r.alt.toInt),
  (plain (ascii "sats"), intDoc r.sats.toNat),
  (plain (ascii "sats_sol"), intDoc r.satsSol.toNat),
  (plain (ascii "pulse"), intDoc r.pulse.toNat)]

def ocxoDoc (r : Report φ) : Doc := .obj [
  (plain (ascii "cntr"), .num (dLiteral r.cntr)),
  (plain (ascii "dac"), intDoc r.dacVal.toNat)]

/-- What the buffer holds. -/
def reportDoc (r : Report φ) : Doc := .obj [
  (plain (ascii "mde"), mdeDoc r.vars.mde),
  (plain (ascii "imu"), imuDoc r.vars.imu),
  (plain (ascii "ctrl"), ctrlDoc r.vars.ctrl),
  (plain (ascii "pwr"), pwrDoc r),
  (plain (ascii "gps"), gpsDoc conv r),
  (plain (ascii "ocxo"), ocxoDoc r),
  (plain (ascii "api_connected"), intDoc r.connected.toNat),
  (plain (ascii "time"), intDoc (chVTGetSystemTimeX r.vars).toNat)]

/-- A member with what follows it. -/
def memberText (k : Plain) (d : Doc) (rest : List UInt8) : List UInt8 :=
  34 :: (k.val ++ 34 :: 58 :: d.render rest)

/-- A piece with what follows it. -/
def Segment.textThen (seg : Segment φ) (rest : List UInt8) : List UInt8 :=
  fill conv (parseFormat .text seg.format) seg.args rest

theorem text_append (seg : Segment φ) (rest : List UInt8) :
    seg.text conv ++ rest = seg.textThen conv rest :=
  (fill_append conv _ _ rest).symm

-- Every piece is a member of the document with a comma behind it.

theorem mdeSegment_text (mde : Mde) (rest : List UInt8) :
    (mdeSegment mde).textThen conv rest
      = 123 :: memberText (plain (ascii "mde")) (mdeDoc mde) (44 :: rest) := by
  rfl

theorem imuSegment_text (imu : Imu) (rest : List UInt8) :
    (imuSegment imu).textThen conv rest
      = memberText (plain (ascii "imu")) (imuDoc imu) (44 :: rest) := by
  rfl

theorem ctrlSegment_text (ctrl : Ctrl) (rest : List UInt8) :
    (ctrlSegment ctrl).textThen conv rest
      = memberText (plain (ascii "ctrl")) (ctrlDoc ctrl) (44 :: rest) := by
  rfl

theorem pwrSegment_text (r : Report φ) (rest : List UInt8) :
    (pwrSegment r).textThen conv rest
      = memberText (plain (ascii "pwr")) (pwrDoc r) (44 :: rest) := by
  rfl

theorem gpsSegment_text (r : Report φ) (rest : List UInt8) :
    (gpsSegment r).textThen conv rest
      = memberText (plain (ascii "gps")) (gpsDoc conv r) (44 :: rest) := by
  rfl

theorem ocxoSegment_text (r : Report φ) (rest : List UInt8) :
    (ocxoSegment r).textThen conv rest
      = memberText (plain (ascii "ocxo")) (ocxoDoc r) (44 :: rest) := by
  rfl

theorem lastSegment_text (r : Report φ) (rest : List UInt8) :
    (lastSegment r).textThen conv rest
      = memberText (plain (ascii "api_connected")) (intDoc r.connected.toNat)
          (44 :: memberText (plain (ascii "time"))
            (intDoc (chVTGetSystemTimeX r.vars).toNat) (125 :: rest)) := by
  rfl

/-- The buffer holds the text of the document. -/
theorem segments_render (r : Report φ) (rest : List UInt8) :
    (jsonSegments r).flatMap (Segment.text conv) ++ rest = (reportDoc conv r).render rest := by
  simp only [jsonSegments, List.flatMap_cons, List.flatMap_nil, List.append_nil,
    List.append_assoc]
  simp only [text_append, mdeSegment_text, imuSegment_text, ctrlSegment_text, pwrSegment_text,
    gpsSegment_text, ocxoSegment_text, lastSegment_text]
  simp only [memberText, reportDoc, Doc.render, Doc.renderMembers]

/-- What is sent is read as the document. -/
theorem parse_jsonBody (mem : Mem) (r : Report φ) :
    parse (jsonBody conv mem r) = some (reportDoc conv r).value := by
  have hfeed : ∀ b ∈ [(10 : UInt8)], isWs b = true := by
    intro b hb
    rw [List.mem_singleton.mp hb]
    rfl
  rw [jsonBody, jsonPrint_text, segments_render]
  exact parse_render _ hfeed hfeed

/-! ## Its values -/

def intValue (n : Int) : Value := .num n

/-- The values of the variables, with the negated power of the OCXO, the two times,
the date and the coordinates as they are given. -/
def reportValue (r : Report φ) (ocxoP date time sysTime : Int) (lat lon : ℚ) : Value := .obj [
  (ascii "mde", .obj [
    (ascii "mot", .arr [intValue r.vars.mde.motorAz.toInt, intValue r.vars.mde.motorEl.toInt,
      intValue r.vars.mde.motorSk.toInt]),
    (ascii "enc", .obj [
      (ascii "pos", intValue r.vars.mde.encAz.toNat),
      (ascii "spd", intValue r.vars.mde.encAzSpeed.toInt),
      (ascii "off", intValue r.vars.mde.encAzOff.toNat)])]),
  (ascii "imu", .obj [
    (ascii "accel", .arr [intValue r.vars.imu.accelX.toInt, intValue r.vars.imu.accelY.toInt,
      intValue r.vars.imu.accelZ.toInt]),
    (ascii "rot", .arr [intValue r.vars.imu.rotX.toNat, intValue r.vars.imu.rotY.toNat,
      intValue r.vars.imu.rotZ.toNat]),
    (ascii "el", .obj [
      (ascii "pos", intValue r.vars.imu.elPos.toInt),
      (ascii "spd", intValue r.vars.imu.elSpd.toInt),
      (ascii "off", intValue r.vars.imu.elOff.toInt)])]),
  (ascii "ctrl", .obj [
    (ascii "state", .arr [.str (motorStateName r.vars.ctrl.azState).val,
      .str (motorStateName r.vars.ctrl.elState).val,
      .str (motorStateName r.vars.ctrl.skState).val]),
    (ascii "tgt", .arr [intValue r.vars.ctrl.azTgtPos.toNat, intValue r.vars.ctrl.elTgtPos.toInt,
      intValue r.vars.ctrl.skTgtPos.toInt])]),
  (ascii "pwr", .obj [
    (ascii "ext5", .arr [intValue r.ext5V.toInt, intValue r.ext5P.toInt]),
    (ascii "ext24", .arr [intValue r.ext24V.toInt, intValue r.ext24P.toInt]),
    (ascii "mde", .arr [intValue r.mdeV.toInt, intValue r.mdeP.toInt]),
    (ascii "ocxo", .arr [intValue r.ocxoV.toInt, intValue ocxoP]),
    (ascii "lna1", .arr [intValue r.lna1V.toInt, intValue r.lna1P.toInt]),
    (ascii "lna2", .arr [intValue r.lna2V.toInt, intValue r.lna2P.toInt])]),
  (ascii "gps", .obj [
    (ascii "date", intValue date),
    (ascii "time", intValue time),
    (ascii "lat", .num lat),
    (ascii "lon", .num lon),
    (ascii "alt", intValue r.alt.toInt),
    (ascii "sats", intValue r.sats.toNat),
    (ascii "sats_sol", intValue r.satsSol.toNat),
    (ascii "pulse", intValue r.pulse.toNat)]),
  (ascii "ocxo", .obj [
    (ascii "cntr", intValue r.cntr.toInt),
    (ascii "dac", intValue r.dacVal.toNat)]),
  (ascii "api_connected", intValue r.connected.toNat),
  (ascii "time", intValue sysTime)]

theorem intDoc_eq (n : Int) : (intDoc n).value = intValue (Int32.ofInt n).toInt := by
  rw [intDoc, Doc.value, dLiteral_value]
  rfl

theorem intDoc_of_mem {n : Int} (hlo : -2147483648 ≤ n) (hhi : n < 2147483648) :
    (intDoc n).value = intValue n := by
  rw [intDoc_eq, Int32.toInt_ofInt_of_le hlo hhi]

-- The types that an `int` can hold.

theorem intDoc_int8 (x : Int8) : (intDoc x.toInt).value = intValue x.toInt := by
  obtain ⟨hlo, hhi⟩ := CInt.toInt8_mem x
  exact intDoc_of_mem (by omega) (by omega)

theorem intDoc_int16 (x : Int16) : (intDoc x.toInt).value = intValue x.toInt := by
  obtain ⟨hlo, hhi⟩ := CInt.toInt16_mem x
  exact intDoc_of_mem (by omega) (by omega)

theorem intDoc_nat {n : Nat} (hn : n < 2147483648) : (intDoc n).value = intValue n :=
  intDoc_of_mem (by omega) (by omega)

theorem intDoc_uint16 (x : UInt16) : (intDoc x.toNat).value = intValue x.toNat :=
  intDoc_nat (Nat.lt_trans x.toNat_lt (by decide))

theorem intDoc_uint8 (x : UInt8) : (intDoc x.toNat).value = intValue x.toNat :=
  intDoc_nat (Nat.lt_trans x.toNat_lt (by decide))

theorem intDoc_bool (x : Bool) : (intDoc x.toNat).value = intValue x.toNat := by
  cases x <;> exact intDoc_nat (by decide)

theorem stateDoc_value (st : MotorState) :
    (stateDoc st).value = .str (motorStateName st).val := by
  rw [stateDoc, Doc.value]

theorem pairDoc_value (v p : Int32) :
    (pairDoc v p).value = .arr [intValue v.toInt, intValue p.toInt] := by
  simp only [pairDoc, Doc.value, Doc.values, dLiteral_value, intValue]

/-- The document has the values of the variables, up to what happens to four of them
on their way through `int`. -/
theorem reportDoc_value (r : Report φ) :
    (reportDoc conv r).value
      = reportValue r (-r.ocxoP).toInt (Int32.ofInt r.date.toNat).toInt
          (Int32.ofInt r.time.toNat).toInt
          (Int32.ofInt (chVTGetSystemTimeX r.vars).toNat).toInt
          (fLiteral conv 5 r.lat).value (fLiteral conv 5 r.lon).value := by
  simp only [reportDoc, mdeDoc, imuDoc, ctrlDoc, pwrDoc, gpsDoc, ocxoDoc, Doc.value, Doc.values,
    Doc.memberValues, plain_val, intDoc_int8, intDoc_int16, intDoc_uint16, intDoc_uint8,
    intDoc_bool, stateDoc_value, pairDoc_value]
  simp only [intDoc_eq, dLiteral_value, reportValue, intValue]

/-- What is owed to every report: the length stays inside the buffer and nothing is
cut off, and the text is read as the values of the variables. -/
structure FaithfulJson (mem : Mem) (r : Report φ) : Prop where
  fits : ∀ k, (jsonPrint conv mem ((jsonSegments r).take k)).2 < jsonBufSize
  whole : text (jsonPrint conv mem (jsonSegments r)).1 jsonBufSize
    = (jsonSegments r).flatMap (Segment.text conv)
  values : ∃ lat lon, parse (jsonBody conv mem r)
    = some (reportValue r (-r.ocxoP.toInt) r.date.toNat r.time.toNat
        (chVTGetSystemTimeX r.vars).toNat lat lon)

/-- The unsigned numbers are below 2^31, and the power can be negated. -/
structure PrintsAsInt (r : Report φ) : Prop where
  date : r.date.toNat < 2147483648
  time : r.time.toNat < 2147483648
  sysTime : (chVTGetSystemTimeX r.vars).toNat < 2147483648
  ocxoP : r.ocxoP.toInt ≠ -2147483648

theorem reportValue_inj {r : Report φ} {ocxoP date time sysTime ocxoP' date' time' sysTime' : Int}
    {lat lon lat' lon' : ℚ}
    (h : reportValue r ocxoP date time sysTime lat lon
      = reportValue r ocxoP' date' time' sysTime' lat' lon') :
    ocxoP = ocxoP' ∧ date = date' ∧ time = time' ∧ sysTime = sysTime' := by
  simp only [reportValue, intValue, Value.obj.injEq, Value.arr.injEq, Value.num.injEq,
    List.cons.injEq, Prod.mk.injEq, true_and, and_true, Int.cast_inj] at h
  obtain ⟨hocxo, ⟨hdate, htime, -, -⟩, hsys⟩ := h
  exact ⟨hocxo, hdate, htime, hsys⟩

theorem ofInt_toNat_eq (x : UInt32) :
    (Int32.ofInt x.toNat).toInt = x.toNat ↔ x.toNat < 2147483648 := by
  have hhi : (Int32.ofInt x.toNat).toInt < 2147483648 := Int32.toInt_lt _
  constructor
  · intro h
    omega
  · intro h
    exact Int32.toInt_ofInt_of_le (by omega) (by omega)

theorem neg_toInt_eq (x : Int32) : (-x).toInt = -x.toInt ↔ x.toInt ≠ -2147483648 := by
  have hlo : -2147483648 ≤ x.toInt := x.le_toInt
  have hhi : x.toInt < 2147483648 := x.toInt_lt
  have hlo' : -2147483648 ≤ (-x).toInt := (-x).le_toInt
  have hhi' : (-x).toInt < 2147483648 := (-x).toInt_lt
  obtain ⟨k, hk⟩ := CInt.bmod_spec (-x.toInt) (2 ^ 32)
  rw [← Int32.toInt_neg] at hk
  constructor
  · intro h
    omega
  · intro h
    omega

/-- `state.json` is complete and faithful exactly when every number that is printed
is an `int`. -/
theorem state_json_faithful_iff (mem : Mem) (r : Report φ) :
    FaithfulJson conv mem r ↔ PrintsAsInt r := by
  have hread := parse_jsonBody conv mem r
  rw [reportDoc_value] at hread
  constructor
  · rintro ⟨-, -, lat, lon, hparse⟩
    rw [hread] at hparse
    obtain ⟨hocxo, hdate, htime, hsys⟩ := reportValue_inj (Option.some.inj hparse)
    exact ⟨(ofInt_toNat_eq _).mp hdate, (ofInt_toNat_eq _).mp htime, (ofInt_toNat_eq _).mp hsys,
      (neg_toInt_eq _).mp hocxo⟩
  · rintro ⟨hdate, htime, hsys, hocxo⟩
    rw [(ofInt_toNat_eq _).mpr hdate, (ofInt_toNat_eq _).mpr htime,
      (ofInt_toNat_eq _).mpr hsys, (neg_toInt_eq _).mpr hocxo] at hread
    exact ⟨jsonPrint_length conv mem r, jsonPrint_text conv mem r, _, _, hread⟩

/-- A report of a controller that has been up for 2^31 ticks, almost six hours. -/
def lateReport : Report ℚ where
  vars := { time := 2147483648 }
  ext5V := 0
  ext5P := 0
  ext24V := 0
  ext24P := 0
  mdeV := 0
  mdeP := 0
  lna1V := 0
  lna1P := 0
  lna2V := 0
  lna2P := 0
  ocxoV := 0
  ocxoP := 0
  date := 0
  time := 0
  lat := 0
  lon := 0
  alt := 0
  sats := 0
  satsSol := 0
  pulse := false
  cntr := 0
  dacVal := 0
  connected := false

/-- Its system time is read as -2147483648. -/
theorem state_json_time_negative :
    (chVTGetSystemTimeX lateReport.vars).toNat = 2147483648
      ∧ ∀ conv mem,
        (∃ lat lon, parse (jsonBody conv mem lateReport)
            = some (reportValue lateReport 0 0 0 (-2147483648) lat lon))
          ∧ ¬ FaithfulJson conv mem lateReport := by
  have htime : (chVTGetSystemTimeX lateReport.vars).toNat = 2147483648 := by decide
  refine ⟨htime, ?_⟩
  intro conv mem
  have hread := parse_jsonBody conv mem lateReport
  rw [reportDoc_value, htime] at hread
  refine ⟨⟨_, _, hread⟩, ?_⟩
  rintro ⟨-, -, lat, lon, hparse⟩
  rw [hread] at hparse
  obtain ⟨-, -, -, hsys⟩ := reportValue_inj (Option.some.inj hparse)
  rw [htime] at hsys
  exact absurd hsys (by decide)

end Seatel
