import Mathlib.Tactic.IntervalCases
import Mathlib.Tactic.Ring
import Seatel.Gps

/-!
# The columns of a sentence

`gps_parse` reads its fields at the columns they have in the example that
the comment above it counts out. Up to the number of satellites a `$GPGGA`
sentence has fields of fixed width (`GgaHead`), and what is read there is
what the sentence says (`gga_position_decoded`).

The altitude comes after HDOP, and the date of `$PGRMF` after the week and
the second of the week, whose widths vary. These columns are right exactly
when the fields before them are as wide as in the example
(`variable_width_fields_iff`).
-/

namespace Seatel

open Runs CString Numerals

/-! ## The fields of fixed width -/

/-- `$GPGGA,hhmmss,ddmm.mmmm,X,dddmm.mmmm,Y,q,nn,`. -/
structure GgaHead where
  time : Digits 6
  latDeg : Digits 2
  latMin : Digits 2
  latFrac : Digits 4
  south : Bool
  lonDeg : Digits 3
  lonMin : Digits 2
  lonFrac : Digits 4
  west : Bool
  quality : Digits 1
  sats : Digits 2
deriving Repr, DecidableEq

namespace GgaHead

variable (p : GgaHead)

def ns : UInt8 := if p.south then 83 else 78

def ew : UInt8 := if p.west then 87 else 69

def text : List UInt8 :=
  ascii "$GPGGA," ++ p.time.text ++ [44] ++ p.latDeg.text ++ p.latMin.text ++ [46]
    ++ p.latFrac.text ++ [44, p.ns, 44] ++ p.lonDeg.text ++ p.lonMin.text ++ [46]
    ++ p.lonFrac.text ++ [44, p.ew, 44] ++ p.quality.text ++ [44] ++ p.sats.text ++ [44]

/-- The latitude in degrees, north positive. -/
def lat : ℚ :=
  (if p.south then -1 else 1)
    * (p.latDeg.value + (p.latMin.value + p.latFrac.value / 10000) / 60)

/-- The longitude in degrees, east positive. -/
def lon : ℚ :=
  (if p.west then -1 else 1)
    * (p.lonDeg.value + (p.lonMin.value + p.lonFrac.value / 10000) / 60)

theorem length_text : p.text.length = 44 := by
  have hname : (ascii "$GPGGA,").length = 7 := rfl
  unfold text
  generalize ascii "$GPGGA," = name at hname ⊢
  simp [hname]

end GgaHead

section Columns

variable {str rest : List UInt8} {i : Nat}

/-- Behind a field of digits the next column starts. -/
theorem drop_digits {n : Nat} {d : Digits n} (h : str.drop i = d.text ++ rest) :
    str.drop (i + n) = rest := by
  rw [← List.drop_drop, h, List.drop_left' d.length_text]

theorem drop_byte {b : UInt8} (h : str.drop i = b :: rest) : str.drop (i + 1) = rest := by
  rw [← List.drop_drop, h]
  rfl

theorem getD_of_drop {b : UInt8} (h : str.drop i = b :: rest) : str.getD i 0 = b := by
  rw [List.getD_eq_getElem?_getD, ← List.head?_drop, h]
  rfl

/-- A byte that is no digit ends the field before it. -/
theorem NoDigitHead.of_byte {b : UInt8} (hb : isDigit b = false) : NoDigitHead (b :: rest) := by
  intro c hc
  obtain rfl := Option.some.inj hc
  exact hb

end Columns

/-- The platform with its `double` expressions over the rationals. -/
def rationalGps (libc : Libc) (beyond : List UInt8) : GpsEnv ℚ where
  libc := libc
  coord d m f sgn := (d + (m + f / 10000) / 60) * sgn
  beyond := beyond

section Head

variable (libc : Libc) (beyond : List UInt8) (p : GgaHead) (rest : List UInt8)

/-- Degrees and minutes stand side by side: the degrees are what is left of both
without the last two digits. -/
theorem atoi_degrees {n : Nat} (deg : Digits n) (min : Digits 2) (hn : n ≤ 7)
    {rest : List UInt8} (hrest : NoDigitHead rest) :
    (libc.atoi (deg.text ++ (min.text ++ rest))).toInt.tdiv 100 = deg.value := by
  have hmin := min.value_lt
  rw [← List.append_assoc, ← Digits.text_append,
    Digits.atoi_text libc _ (by omega) hrest, Digits.value_append,
    Int.tdiv_eq_ediv_of_nonneg (Int.natCast_nonneg _)]
  omega

/-- What stands at each column that is read. -/
structure GgaColumns (str : List UInt8) : Prop where
  time : ∃ r, str.drop 7 = p.time.text ++ 44 :: r
  lat : ∃ r, str.drop 14 = p.latDeg.text ++ (p.latMin.text ++ 46 :: r)
  latMin : ∃ r, str.drop 16 = p.latMin.text ++ 46 :: r
  latFrac : ∃ r, str.drop 19 = p.latFrac.text ++ 44 :: r
  ns : str.getD 24 0 = p.ns
  lon : ∃ r, str.drop 26 = p.lonDeg.text ++ (p.lonMin.text ++ 46 :: r)
  lonMin : ∃ r, str.drop 29 = p.lonMin.text ++ 46 :: r
  lonFrac : ∃ r, str.drop 32 = p.lonFrac.text ++ 44 :: r
  ew : str.getD 37 0 = p.ew
  sats : ∃ r, str.drop 41 = p.sats.text ++ 44 :: r
  alt : str.drop 48 = rest.drop 4

theorem ggaColumns_head : GgaColumns p rest (p.text ++ rest) := by
  generalize hstr : p.text ++ rest = str
  have h48 : str.drop 48 = rest.drop 4 := by
    rw [← hstr, show 48 = p.text.length + 4 by rw [p.length_text], List.drop_length_add_append]
  have hname : (ascii "$GPGGA,").length = 7 := rfl
  rw [GgaHead.text] at hstr
  generalize ascii "$GPGGA," = name at hstr hname
  simp only [List.append_assoc, List.cons_append, List.nil_append] at hstr
  -- counted off field by field, as in the comment of the source
  have h7 := (congrArg (List.drop 7) hstr).symm.trans (List.drop_left' hname)
  have h13 : str.drop 13 = _ := drop_digits h7
  have h14 : str.drop 14 = _ := drop_byte h13
  have h16 : str.drop 16 = _ := drop_digits h14
  have h18 : str.drop 18 = _ := drop_digits h16
  have h19 : str.drop 19 = _ := drop_byte h18
  have h23 : str.drop 23 = _ := drop_digits h19
  have h24 : str.drop 24 = _ := drop_byte h23
  have h26 : str.drop 26 = _ := drop_byte (drop_byte h24)
  have h29 : str.drop 29 = _ := drop_digits h26
  have h31 : str.drop 31 = _ := drop_digits h29
  have h32 : str.drop 32 = _ := drop_byte h31
  have h36 : str.drop 36 = _ := drop_digits h32
  have h37 : str.drop 37 = _ := drop_byte h36
  have h39 : str.drop 39 = _ := drop_byte (drop_byte h37)
  have h40 : str.drop 40 = _ := drop_digits h39
  have h41 : str.drop 41 = _ := drop_byte h40
  exact ⟨⟨_, h7⟩, ⟨_, h14⟩, ⟨_, h16⟩, ⟨_, h19⟩, getD_of_drop h24, ⟨_, h26⟩, ⟨_, h29⟩, ⟨_, h32⟩,
    getD_of_drop h37, ⟨_, h41⟩, h48⟩

/-- What a sentence with such a head sets, whatever follows it. -/
theorem ggaFix_head :
    ggaFix (rationalGps libc beyond) (p.text ++ rest)
      = { mTime := UInt32.ofInt p.time.value
          mLat := p.lat
          mLon := p.lon
          mSatsSol := UInt8.ofInt p.sats.value
          mAlt := Int16.ofInt (libc.atoi (rest.drop 4)).toInt } := by
  have hdot : ∀ r, NoDigitHead (46 :: r) := fun r => NoDigitHead.of_byte rfl
  have hcomma : ∀ r, NoDigitHead (44 :: r) := fun r => NoDigitHead.of_byte rfl
  have hcols := ggaColumns_head p rest
  generalize p.text ++ rest = str at hcols ⊢
  obtain ⟨⟨_, h7⟩, ⟨_, h14⟩, ⟨_, h16⟩, ⟨_, h19⟩, h24, ⟨_, h26⟩, ⟨_, h29⟩, ⟨_, h32⟩, h37, ⟨_, h41⟩,
    h48⟩ := hcols
  have hns : (if p.ns = 78 then 1 else -1) = (if p.south then -1 else 1 : Int) := by
    rw [GgaHead.ns]
    cases p.south <;> rfl
  have hew : (if p.ew = 69 then 1 else -1) = (if p.west then -1 else 1 : Int) := by
    rw [GgaHead.ew]
    cases p.west <;> rfl
  simp only [ggaFix, GpsEnv.atoiAt, rationalGps, h24, h37, hns, hew, h48]
  simp only [h7, h14, h16, h19, h26, h29, h32, h41]
  rw [Digits.atoi_text libc p.time (by decide) (hcomma _),
    Digits.atoi_text libc p.latMin (by decide) (hdot _),
    Digits.atoi_text libc p.latFrac (by decide) (hcomma _),
    Digits.atoi_text libc p.lonMin (by decide) (hdot _),
    Digits.atoi_text libc p.lonFrac (by decide) (hcomma _),
    Digits.atoi_text libc p.sats (by decide) (hcomma _),
    atoi_degrees libc p.latDeg p.latMin (by decide) (hdot _),
    atoi_degrees libc p.lonDeg p.lonMin (by decide) (hdot _)]
  simp only [GgaHead.lat, GgaHead.lon]
  push_cast
  congr 1
  · ring
  · ring

theorem gga_isPrefix : ascii "$GPGGA" <+: p.text ++ rest := by
  simp only [GgaHead.text, List.append_assoc]
  exact ⟨_, rfl⟩

end Head

/-! ## A whole line -/

/-- Bytes the loop puts into the buffer. -/
def LineBytes (bytes : List UInt8) : Prop := ∀ c ∈ bytes, c ≠ 0 ∧ isLineEnd c = false

instance (bytes : List UInt8) : Decidable (LineBytes bytes) := List.decidableBAll _ bytes

theorem lineBytes_append {bs cs : List UInt8} :
    LineBytes (bs ++ cs) ↔ LineBytes bs ∧ LineBytes cs :=
  List.forall_mem_append

theorem lineBytes_digits {n : Nat} (d : Digits n) : LineBytes d.text := by
  have hdigit : ∀ k, digitByte k ≠ 0 ∧ isLineEnd (digitByte k) = false := by decide
  intro c hc
  obtain ⟨k, -, rfl⟩ := List.mem_map.mp hc
  exact hdigit k

/-- A `$GPGGA` sentence of at most 127 bytes. -/
structure GgaSentence extends GgaHead where
  rest : List UInt8
  length_le : (toGgaHead.text ++ rest).length ≤ 127
  plain : LineBytes rest

theorem GgaHead.plain (p : GgaHead) : LineBytes p.text := by
  have hname : LineBytes (ascii "$GPGGA,") := by decide
  have hcomma : LineBytes [44] := by decide
  have hdot : LineBytes [46] := by decide
  have hns : LineBytes [44, p.ns, 44] := by
    rw [GgaHead.ns]
    cases p.south <;> decide
  have hew : LineBytes [44, p.ew, 44] := by
    rw [GgaHead.ew]
    cases p.west <;> decide
  simp only [GgaHead.text, lineBytes_append, lineBytes_digits, hname, hcomma, hdot, hns, hew,
    and_self]

def GgaSentence.sentence (s : GgaSentence) : Sentence where
  bytes := s.text ++ s.rest
  ne_nil := by
    rw [← List.length_pos_iff, List.length_append, s.length_text]
    omega
  length_le := s.length_le
  plain := lineBytes_append.mpr ⟨s.toGgaHead.plain, s.plain⟩

/-- From the start of a line on, a `$GPGGA` sentence and a line end set time, position
and the number of satellites to what the sentence says, with the sign of the
hemisphere, and leave the date alone. -/
theorem gga_position_decoded (libc : Libc) (beyond : List UInt8) {g : Gps ℚ} (hidx : g.idx = 0)
    (s : GgaSentence) (e : LineEnd) :
    let g' := run (gpsByte (rationalGps libc beyond)) g (s.text ++ s.rest ++ [e.byte])
    g'.fix.mTime.toNat = s.time.value ∧ g'.fix.mSatsSol.toNat = s.sats.value
      ∧ g'.fix.mLat = s.lat ∧ g'.fix.mLon = s.lon ∧ g'.mDate = g.mDate := by
  have htime := s.time.value_lt
  have hsats := s.sats.value_lt
  obtain ⟨-, hgga, -⟩ := run_line (rationalGps libc beyond) hidx s.sentence e.isLineEnd
  obtain ⟨hfix, hdate⟩ := hgga (gga_isPrefix s.toGgaHead s.rest)
  have hmem : ∃ rest, lineMemory (rationalGps libc beyond) g s.sentence = s.text ++ rest :=
    ⟨_, List.append_assoc ..⟩
  obtain ⟨rest, hrest⟩ := hmem
  rw [hrest, ggaFix_head] at hfix
  intro g'
  have hfix' : g'.fix = _ := hfix
  rw [hfix']
  refine ⟨?_, ?_, rfl, rfl, hdate⟩
  · exact CInt.toNat_ofNatU32 (by omega)
  · exact CInt.toNat_ofNatU8 (by omega)

/-- The example of the source. -/
def ggaExample : GgaHead where
  time := ⟨toDigits [1, 8, 1, 0, 1, 0], rfl⟩
  latDeg := ⟨toDigits [5, 2], rfl⟩
  latMin := ⟨toDigits [2, 4], rfl⟩
  latFrac := ⟨toDigits [7, 2, 1, 4], rfl⟩
  south := false
  lonDeg := ⟨toDigits [0, 1, 3], rfl⟩
  lonMin := ⟨toDigits [2, 3], rfl⟩
  lonFrac := ⟨toDigits [6, 6, 6, 9], rfl⟩
  west := false
  quality := ⟨toDigits [2], rfl⟩
  sats := ⟨toDigits [0, 8], rfl⟩

def ggaExampleLine : GgaSentence where
  toGgaHead := ggaExample
  rest := ascii "1.1,13.8,M,42.0,M,,*71"
  length_le := by decide +kernel
  plain := by decide +kernel

/-- Its latitude, in degrees. -/
theorem gga_position_decoded_example :
    gpsStart.idx = 0
      ∧ ggaExampleLine.text ++ ggaExampleLine.rest
        = ascii "$GPGGA,181010,5224.7214,N,01323.6669,E,2,08,1.1,13.8,M,42.0,M,,*71"
      ∧ (run (gpsByte (rationalGps Libc.saturating [])) gpsStart
          (ggaExampleLine.text ++ ggaExampleLine.rest ++ [LineEnd.cr.byte])).fix.mLat
        = ggaExampleLine.lat :=
  ⟨rfl, by decide +kernel,
    (gga_position_decoded Libc.saturating [] (g := gpsStart) rfl ggaExampleLine .cr).2.2.1⟩

/-! ## Fields behind fields of variable width -/

/-- The altitude field. -/
structure Altitude where
  whole : Numeral
  frac : List (Fin 10)
deriving Repr, DecidableEq

def Altitude.text (a : Altitude) : List UInt8 := a.whole.text ++ 46 :: a.frac.map digitByte

/-- `m_alt` can hold its integer part. -/
def Altitude.Fits (a : Altitude) : Prop := -32768 ≤ a.whole.value ∧ a.whole.value ≤ 32767

/-- A `$GPGGA` sentence up to the altitude, and what follows in memory. -/
def ggaText (p : GgaHead) (hdop : List (Fin 10)) (tenth : Fin 10) (alt : Altitude)
    (rest : List UInt8) : List UInt8 :=
  p.text ++ (hdop.map digitByte ++ [46, digitByte tenth] ++ 44 :: (alt.text ++ 44 :: rest))

/-- A `$PGRMF` sentence up to the date, and what follows in memory. -/
def rmfText (week second : Nat) (date : Digits 6) (rest : List UInt8) : List UInt8 :=
  ascii "$PGRMF," ++ (ascii week.repr ++ 44 :: ascii second.repr
    ++ 44 :: (date.text ++ 44 :: rest))

theorem rmf_isPrefix (week second : Nat) (date : Digits 6) (rest : List UInt8) :
    ascii "$PGRMF" <+: rmfText week second date rest := by
  simp only [rmfText]
  exact ⟨_, rfl⟩

section Variable

variable {φ : Type} (env : GpsEnv φ) (g : Gps φ)

/-- `m_alt` becomes the integer part of the altitude. -/
def AltDecoded (p : GgaHead) (hdop : List (Fin 10)) (tenth : Fin 10) (alt : Altitude)
    (rest : List UInt8) : Prop :=
  (gpsParse env (ggaText p hdop tenth alt rest) g).fix.mAlt.toInt = alt.whole.value

/-- `m_date` becomes the number of the date. -/
def DateDecoded (week second : Nat) (date : Digits 6) (rest : List UInt8) : Prop :=
  (gpsParse env (rmfText week second date rest) g).mDate.toNat = date.value

/-- A comma between the column and the field makes the field invisible. -/
theorem numeral_before_comma {pre : List UInt8} {n : Nat} (h : n ≤ pre.length)
    (rest : List UInt8) : numeral ((pre ++ 44 :: rest).drop n) = numeral (pre.drop n) := by
  rw [List.drop_append_of_le_length h, numeral_stop Stops.comma]

theorem gpsParse_mAlt (p : GgaHead) (hdop : List (Fin 10)) (tenth : Fin 10) (alt : Altitude)
    (rest : List UInt8) :
    (gpsParse env (ggaText p hdop tenth alt rest) g).fix.mAlt
      = Int16.ofInt (env.libc.atoi ((hdop.map digitByte ++ [46, digitByte tenth]
          ++ 44 :: (alt.text ++ 44 :: rest)).drop 4)).toInt := by
  have hname : strncmpEq (ggaText p hdop tenth alt rest) (ascii "$GPGGA") = true :=
    strncmpEq_iff.mpr (gga_isPrefix p _)
  have h48 : 48 = p.text.length + 4 := by rw [p.length_text]
  rw [gpsParse_gga env g hname]
  simp only [ggaFix, GpsEnv.atoiAt, ggaText]
  rw [h48, List.drop_length_add_append]

theorem gpsParse_mDate (week second : Nat) (date : Digits 6) (rest : List UInt8) :
    (gpsParse env (rmfText week second date rest) g).mDate
      = UInt32.ofInt (env.libc.atoi ((ascii week.repr ++ 44 :: ascii second.repr
          ++ 44 :: (date.text ++ 44 :: rest)).drop 11)).toInt := by
  have hname : strncmpEq (rmfText week second date rest) (ascii "$PGRMF") = true :=
    strncmpEq_iff.mpr (rmf_isPrefix week second date rest)
  have h18 : 18 = (ascii "$PGRMF,").length + 11 := rfl
  rw [gpsParse_rmf env g hname]
  simp only [rmfDate, GpsEnv.atoiAt, rmfText]
  rw [h18, List.drop_length_add_append]

/-- Behind an HDOP with one integer digit the altitude is read as far as `m_alt` can
hold it. -/
theorem altDecoded_iff {hdop : List (Fin 10)} (hlen : hdop.length = 1) (p : GgaHead)
    (tenth : Fin 10) (alt : Altitude) (rest : List UInt8) :
    AltDecoded env g p hdop tenth alt rest ↔ alt.Fits := by
  have hcol : (hdop.map digitByte ++ [46, digitByte tenth]
      ++ 44 :: (alt.text ++ 44 :: rest)).drop 4 = alt.text ++ 44 :: rest :=
    drop_byte (List.drop_left' (by simp [hlen]))
  have hread : numeral (alt.text ++ 44 :: rest) = alt.whole.value := by
    rw [Altitude.text, List.append_assoc]
    exact numeral_text alt.whole (NoDigitHead.of_byte rfl)
  rw [AltDecoded, gpsParse_mAlt, hcol, Libc.atoi, hread]
  constructor
  · intro heq
    rw [Altitude.Fits, ← heq]
    exact CInt.toInt16_mem _
  · rintro ⟨hlo, hhi⟩
    rw [env.libc.toInt_narrow (by omega) (by omega), Int16.toInt_ofInt_of_le hlo (by omega)]

/-- An altitude of so many metres. -/
def metres (k : Nat) : Altitude := ⟨⟨none, [lastDigit k], List.cons_ne_nil _ _⟩, [lastDigit 0]⟩

/-- With any other number of digits an altitude of one or two metres is missed. -/
theorem altDecoded_width {p : GgaHead} {hdop : List (Fin 10)} {tenth : Fin 10}
    (h1 : AltDecoded env g p hdop tenth (metres 1) [])
    (h2 : AltDecoded env g p hdop tenth (metres 2) []) : hdop.length = 1 := by
  have hone : (metres 1).whole.value = 1 := rfl
  have htwo : (metres 2).whole.value = 2 := rfl
  rw [AltDecoded, gpsParse_mAlt, Libc.atoi] at h1 h2
  by_cases hlong : 2 ≤ hdop.length
  · -- column 48 lies before the comma that ends HDOP
    rw [numeral_before_comma (by simpa using hlong)] at h1 h2
    rw [h1, hone, htwo] at h2
    cases h2
  · by_contra hne
    obtain rfl : hdop = [] := List.length_eq_zero_iff.mp (by omega)
    -- column 48 is the decimal point of the altitude
    have hzero : numeral (([].map digitByte ++ [46, digitByte tenth]
        ++ 44 :: ((metres 1).text ++ 44 :: [])).drop 4) = 0 := rfl
    rw [hzero, env.libc.toInt_narrow (by decide) (by decide), hone] at h1
    exact absurd h1 (by decide)

theorem length_weekSecond (week second : Nat) :
    (ascii week.repr ++ 44 :: ascii second.repr).length
      = week.repr.length + second.repr.length + 1 := by
  simp only [ascii, List.length_append, List.length_cons, List.length_map, String.length_toList]
  omega

/-- Behind nine digits of week and second the date is read. -/
theorem dateDecoded_of_nine {week second : Nat}
    (hlen : week.repr.length + second.repr.length = 9) (date : Digits 6) (rest : List UInt8) :
    DateDecoded env g week second date rest := by
  have hcol : (ascii week.repr ++ 44 :: ascii second.repr
      ++ 44 :: (date.text ++ 44 :: rest)).drop 11 = date.text ++ 44 :: rest :=
    drop_byte (List.drop_left' (by rw [length_weekSecond, hlen]))
  have hdate := date.value_lt
  rw [DateDecoded, gpsParse_mDate, hcol,
    date.atoi_text env.libc (by decide) (NoDigitHead.of_byte rfl)]
  exact CInt.toNat_ofNatU32 (by omega)

/-- The first and the second of the month `0`. -/
def dayOne : Digits 6 := ⟨toDigits [1, 0, 0, 0, 0, 0], rfl⟩

def dayTwo : Digits 6 := ⟨toDigits [2, 0, 0, 0, 0, 0], rfl⟩

/-- Behind any other number of digits one of these dates is missed. -/
theorem dateDecoded_width {week second : Nat} (h1 : DateDecoded env g week second dayOne [])
    (h2 : DateDecoded env g week second dayTwo []) :
    week.repr.length + second.repr.length = 9 := by
  have hone : dayOne.value = 100000 := rfl
  have htwo : dayTwo.value = 200000 := rfl
  have hw : 0 < week.repr.length := Nat.length_repr_pos
  have hs : 0 < second.repr.length := Nat.length_repr_pos
  have hlen := length_weekSecond week second
  rw [DateDecoded, gpsParse_mDate, Libc.atoi] at h1 h2
  generalize ascii week.repr ++ 44 :: ascii second.repr = pre at h1 h2 hlen
  by_cases hlong : 10 ≤ week.repr.length + second.repr.length
  · -- column 18 lies before the comma that ends the second
    rw [numeral_before_comma (by omega)] at h1 h2
    rw [h1, hone, htwo] at h2
    cases h2
  · by_contra hne
    -- column 18 lies behind the first digit of the date
    obtain ⟨k, hk, hpos, hle⟩ : ∃ k, 11 = pre.length + (k + 1) ∧ 1 ≤ k ∧ k ≤ 7 :=
      ⟨10 - pre.length, by omega, by omega, by omega⟩
    have hzero : numeral ((dayOne.text ++ 44 :: []).drop k) = 0 := by
      interval_cases k <;> rfl
    rw [hk, List.drop_length_add_append, List.drop_succ_cons, hzero,
      env.libc.toInt_narrow (by decide) (by decide), hone] at h1
    exact absurd h1 (by decide)

/-- The altitude is decoded for every HDOP of one integer digit and for no other, as
far as it fits `m_alt`; and the date for every week and second of nine digits
together and for no others. -/
theorem variable_width_fields_iff :
    (∀ (p : GgaHead) (hdop : List (Fin 10)) (tenth : Fin 10),
        (∀ alt rest, alt.Fits → AltDecoded env g p hdop tenth alt rest) ↔ hdop.length = 1)
      ∧ (∀ (p : GgaHead) (hdop : List (Fin 10)) (tenth : Fin 10) (alt : Altitude)
          (rest : List UInt8), hdop.length = 1 →
          (AltDecoded env g p hdop tenth alt rest ↔ alt.Fits))
      ∧ ∀ week second : Nat, (∀ date rest, DateDecoded env g week second date rest)
          ↔ week.repr.length + second.repr.length = 9 := by
  refine ⟨fun p hdop tenth => ⟨fun h => ?_, fun hlen alt rest hfits => ?_⟩,
    fun p hdop tenth alt rest hlen => altDecoded_iff env g hlen p tenth alt rest,
    fun week second => ⟨fun h => ?_, fun hlen date rest => ?_⟩⟩
  · exact altDecoded_width env g (h (metres 1) [] ⟨by decide, by decide⟩)
      (h (metres 2) [] ⟨by decide, by decide⟩)
  · exact (altDecoded_iff env g hlen p tenth alt rest).mpr hfits
  · exact dateDecoded_width env g (h dayOne []) (h dayTwo [])
  · exact dateDecoded_of_nine env g hlen date rest

end Variable

/-- An HDOP of 10.1 hides an altitude of 13.8 metres, and in the hundredth second of
week 142 the date loses its first three digits. -/
theorem variable_width_fields_missed :
    ¬ AltDecoded exactGps gpsStart ggaExample (toDigits [1, 0]) (lastDigit 1)
        ⟨⟨none, toDigits [1, 3], by decide⟩, toDigits [8]⟩ (ascii "M,42.0,M,,*71" ++ [0])
      ∧ ¬ DateDecoded exactGps gpsStart 142 100 ⟨toDigits [1, 8, 0, 5, 0, 2], rfl⟩
        (ascii "000215,18" ++ [0]) := by
  unfold AltDecoded DateDecoded
  constructor <;> decide +kernel

end Seatel
