import Mathlib.Data.List.Permutation
import Mathlib.Data.Nat.Digits.Defs
import Seatel.GpsFields
import Seatel.StateJson

/-!
# Date and time on the dashboard

`gps_parse` keeps the time `hhmmss` and the date `ddmmyy` as one number
each, `print_json` prints these, and the script of the page takes them
apart again. It divides by a hundred or ten thousand and rounds, where it
should cut off: a part comes out one too large when the parts behind it
make up half of it or more.

The numbers of the script are read as rationals and its texts as bytes.
What the page shows for any two numbers is said once (`timeHtml_report`);
the received sentences come in through the columns of `GpsFields`.
-/

namespace Seatel

open Runs CString Numerals Json

/-! ## The script -/

/-- `data[key]`. When a name is repeated the last member counts. -/
def jsMember (key : List UInt8) : Value → Option Value
  | .obj members => members.reverse.lookup key
  | _ => none

def jsNumber : Value → Option ℚ
  | .num q => some q
  | _ => none

/-- `Math.round`. -/
def mathRound (x : ℚ) : ℚ := ⌊x + 1 / 2⌋

/-- `x % y`: the remainder has the sign of `x`. -/
def jsRem (x y : ℚ) : ℚ := x - y * trunc (x / y)

/-- `String(num)` for a whole number. -/
def jsString (num : ℚ) : Option (List UInt8) :=
  if num.den = 1 then some (ascii (toString num.num)) else none

/-- `zeroPad`. -/
def zeroPad (num : ℚ) (places : Nat) : Option (List UInt8) :=
  (jsString num).map (List.leftpad places 48)

/-- The mark behind the time while pulses arrive. -/
def pulseMark (pulse : Bool) : List UInt8 := if pulse then ascii " &#x1F7E2;" else []

/-- What the script puts into `#time`. -/
def timeHtml (data : Value) : Option (List UInt8) := do
  let gps ← jsMember (ascii "gps") data
  let date ← (jsMember (ascii "date") gps).bind jsNumber
  let time ← (jsMember (ascii "time") gps).bind jsNumber
  let pulse ← (jsMember (ascii "pulse") gps).bind jsNumber
  let yy ← zeroPad (jsRem date 100) 2
  let mm ← zeroPad (jsRem (mathRound (date / 100)) 100) 2
  let dd ← zeroPad (mathRound (date / 10000)) 2
  let hh ← zeroPad (mathRound (time / 10000)) 2
  let mi ← zeroPad (jsRem (mathRound (time / 100)) 100) 2
  let ss ← zeroPad (jsRem time 100) 2
  return ascii "20" ++ yy ++ ascii "-" ++ mm ++ ascii "-" ++ dd ++ ascii " " ++ hh ++ ascii ":"
    ++ mi ++ ascii ":" ++ ss ++ pulseMark (pulse ≠ 0)

/-! ## Received and shown -/

/-- Two decimal digits. -/
def twoDigits (n : Nat) : Digits 2 := ⟨[lastDigit (n / 10), lastDigit n], rfl⟩

/-- A time of day, leap seconds included. -/
structure UtcTime where
  hour : Nat
  minute : Nat
  second : Nat
  hour_lt : hour < 24
  minute_lt : minute < 60
  second_le : second ≤ 60
deriving Repr, DecidableEq

/-- A date of this century, whatever the length of the month. -/
structure UtcDate where
  day : Nat
  month : Nat
  year : Nat
  day_pos : 1 ≤ day
  day_le : day ≤ 31
  month_pos : 1 ≤ month
  month_le : month ≤ 12
  year_lt : year < 100
deriving Repr, DecidableEq

/-- The field `hhmmss`. -/
def UtcTime.hhmmss (t : UtcTime) : Digits 6 :=
  ((twoDigits t.hour).append (twoDigits t.minute)).append (twoDigits t.second)

/-- The field `ddmmyy`. -/
def UtcDate.ddmmyy (d : UtcDate) : Digits 6 :=
  ((twoDigits d.day).append (twoDigits d.month)).append (twoDigits d.year)

/-- The numbers in a line of date and time. -/
structure Stamp where
  year : Nat
  month : Nat
  day : Nat
  hour : Nat
  minute : Nat
  second : Nat
deriving Repr, DecidableEq

/-- `20yy-mm-dd hh:mm:ss`. -/
def Stamp.text (s : Stamp) : List UInt8 :=
  ascii "20" ++ (twoDigits s.year).text ++ ascii "-" ++ (twoDigits s.month).text ++ ascii "-"
    ++ (twoDigits s.day).text ++ ascii " " ++ (twoDigits s.hour).text ++ ascii ":"
    ++ (twoDigits s.minute).text ++ ascii ":" ++ (twoDigits s.second).text

def stampOf (d : UtcDate) (t : UtcTime) : Stamp :=
  ⟨d.year, d.month, d.day, t.hour, t.minute, t.second⟩

/-- GPS week and second of the week, as `$PGRMF` has them before the date. -/
structure GpsWeek where
  week : Nat
  second : Nat
  week_lt : week < 1024
  second_lt : second < 604800
deriving Repr, DecidableEq

/-- The number of digits before the date. -/
def GpsWeek.width (w : GpsWeek) : Nat := w.week.repr.length + w.second.repr.length

variable {φ : Type}

/-- `get_gps_data`, with the satellites in view and the pulse as they are. -/
def getGpsData (g : Gps φ) (r : Report φ) : Report φ :=
  { r with
    date := g.mDate
    time := g.fix.mTime
    lat := g.fix.mLat
    lon := g.fix.mLon
    alt := g.fix.mAlt
    satsSol := g.fix.mSatsSol }

/-- What the page shows after the sentences have been parsed. -/
def dashboardTime (env : GpsEnv φ) (conv : FloatConv φ) (mem : Mem) (r : Report φ) (g : Gps φ)
    (sentences : List (List UInt8)) : Option (List UInt8) :=
  let g := run (fun g str => gpsParse env str g) g sentences
  (parse (jsonBody conv mem (getGpsData g r))).bind timeHtml

/-- The page shows the time of the `$GPGGA` sentence and the date of the `$PGRMF`
sentence, whichever comes first and whatever follows the fields. -/
def DashboardShows (env : GpsEnv φ) (conv : FloatConv φ) (mem : Mem) (r : Report φ) (g : Gps φ)
    (p : GgaHead) (t : UtcTime) (w : GpsWeek) (d : UtcDate) : Prop :=
  ∀ ggaRest rmfRest sentences,
    List.Perm sentences
      [{ p with time := t.hhmmss }.text ++ ggaRest, rmfText w.week w.second d.ddmmyy rmfRest] →
    dashboardTime env conv mem r g sentences
      = some ((stampOf d t).text ++ pulseMark r.pulse)

/-! ## Numbers of the script -/

theorem mathRound_div (n : Nat) {h : Nat} (hpos : 0 < h) :
    mathRound (n / (2 * h : Nat)) = ((n + h) / (2 * h) : Nat) := by
  have hne : (h : ℚ) ≠ 0 := by exact_mod_cast hpos.ne'
  have hsum : (n / (2 * h : Nat) + 1 / 2 : ℚ) = (n + h : Nat) / (2 * h : Nat) := by
    push_cast
    field_simp
  rw [mathRound, hsum, Rat.floor_natCast_div_natCast]
  rfl

theorem mathRound_hundred (n : Nat) : mathRound (n / 100) = ((n + 50) / 100 : Nat) :=
  mathRound_div n (h := 50) (by decide)

theorem mathRound_tenThousand (n : Nat) : mathRound (n / 10000) = ((n + 5000) / 10000 : Nat) :=
  mathRound_div n (h := 5000) (by decide)

theorem jsRem_hundred (n : Nat) : jsRem n 100 = (n % 100 : Nat) := by
  have htrunc : trunc (n / 100 : ℚ) = (n / 100 : Nat) := trunc_div n 100
  have hsplit : (100 : ℚ) * (n / 100 : Nat) + (n % 100 : Nat) = n := by
    exact_mod_cast Nat.div_add_mod n 100
  rw [jsRem, htrunc, Int.cast_natCast]
  linarith

theorem zeroPad_two {n : Nat} (h : n < 100) : zeroPad n 2 = some (twoDigits n).text := by
  have hall : ∀ n : Nat, n < 100 →
      List.leftpad 2 48 (ascii (toString (n : Int))) = (twoDigits n).text := by
    decide +kernel
  simp only [zeroPad, jsString, Rat.den_natCast, if_true, Rat.num_natCast, Option.map_some,
    hall n h]

/-- The members of `state.json` that the script reads. -/
theorem reportValue_gps (r : Report φ) (ocxoP date time sysTime : Int) (lat lon : ℚ) :
    ∃ gps, jsMember (ascii "gps") (reportValue r ocxoP date time sysTime lat lon) = some gps
      ∧ jsMember (ascii "date") gps = some (intValue date)
      ∧ jsMember (ascii "time") gps = some (intValue time)
      ∧ jsMember (ascii "pulse") gps = some (intValue r.pulse.toNat) :=
  ⟨_, rfl, rfl, rfl, rfl⟩

theorem pulseMark_toNat (pulse : Bool) :
    pulseMark ((pulse.toNat : ℚ) ≠ 0) = pulseMark pulse := by
  cases pulse <;> simp

/-- The numbers that the script gets out of a date and a time. -/
def unpacked (date time : Nat) : Stamp where
  year := date % 100
  month := (date + 50) / 100 % 100
  day := (date + 5000) / 10000
  hour := (time + 5000) / 10000
  minute := (time + 50) / 100 % 100
  second := time % 100

/-- The expression of the script, for numbers whose days and hours have two digits. -/
theorem timeHtml_eq {data gps : Value} {date time : Nat} {pulse : ℚ} (hdate : date < 995000)
    (htime : time < 995000) (hgps : jsMember (ascii "gps") data = some gps)
    (hd : jsMember (ascii "date") gps = some (.num date))
    (ht : jsMember (ascii "time") gps = some (.num time))
    (hp : jsMember (ascii "pulse") gps = some (.num pulse)) :
    timeHtml data = some ((unpacked date time).text ++ pulseMark (pulse ≠ 0)) := by
  have hmod : ∀ n, n % 100 < 100 := fun n => Nat.mod_lt n (by decide)
  have hday : (date + 5000) / 10000 < 100 := by omega
  have hhour : (time + 5000) / 10000 < 100 := by omega
  rw [timeHtml, hgps]
  simp only [Option.bind_eq_bind, Option.bind_some, hd, ht, hp, jsNumber, jsRem_hundred,
    mathRound_hundred, mathRound_tenThousand]
  rw [zeroPad_two (hmod date), zeroPad_two (hmod _), zeroPad_two hday, zeroPad_two hhour,
    zeroPad_two (hmod _), zeroPad_two (hmod time)]
  rfl

/-- What the page shows for a date and a time that are stored as numbers. -/
theorem timeHtml_report (conv : FloatConv φ) (mem : Mem) {r : Report φ}
    (hdate : r.date.toNat < 995000) (htime : r.time.toNat < 995000) :
    (parse (jsonBody conv mem r)).bind timeHtml
      = some ((unpacked r.date.toNat r.time.toNat).text ++ pulseMark r.pulse) := by
  rw [parse_jsonBody, reportDoc_value, (ofInt_toNat_eq r.date).mpr (by omega),
    (ofInt_toNat_eq r.time).mpr (by omega), Option.bind_some]
  obtain ⟨gps, hgps, hd, ht, hp⟩ := reportValue_gps r (-r.ocxoP).toInt r.date.toNat r.time.toNat
    (Int32.ofInt (chVTGetSystemTimeX r.vars).toNat).toInt (fLiteral conv 5 r.lat).value
    (fLiteral conv 5 r.lon).value
  simp only [intValue, Int.cast_natCast] at hd ht hp
  rw [timeHtml_eq hdate htime hgps hd ht hp, pulseMark_toNat]

/-! ## The texts of the components -/

theorem twoDigits_value {n : Nat} (h : n < 100) : (twoDigits n).value = n := by
  simp only [twoDigits, Digits.value, List.foldl_cons, List.foldl_nil, lastDigit]
  omega

theorem twoDigits_inj {m n : Nat} (hm : m < 100) (hn : n < 100)
    (h : (twoDigits m).text = (twoDigits n).text) : m = n := by
  have hbyte : ∀ a b : Fin 10, digitByte a = digitByte b → a = b := by decide
  simp only [Digits.text, twoDigits, List.map_cons, List.map_nil, List.cons.injEq,
    and_true] at h
  have htens := congrArg Fin.val (hbyte _ _ h.1)
  have hones := congrArg Fin.val (hbyte _ _ h.2)
  simp only [lastDigit] at htens hones
  omega

/-- Three numbers packed into one. -/
theorem packed_value {a b c : Nat} (ha : a < 100) (hb : b < 100) (hc : c < 100) :
    (((twoDigits a).append (twoDigits b)).append (twoDigits c)).value
      = a * 10000 + b * 100 + c := by
  rw [Digits.value_append, Digits.value_append, twoDigits_value ha, twoDigits_value hb,
    twoDigits_value hc]
  omega

theorem UtcTime.value_hhmmss (t : UtcTime) :
    t.hhmmss.value = t.hour * 10000 + t.minute * 100 + t.second :=
  packed_value (Nat.lt_trans t.hour_lt (by decide)) (Nat.lt_trans t.minute_lt (by decide))
    (Nat.lt_of_le_of_lt t.second_le (by decide))

theorem UtcTime.hhmmss_lt (t : UtcTime) : t.hhmmss.value < 995000 := by
  have hvalue := t.value_hhmmss
  have hhour := t.hour_lt
  have hminute := t.minute_lt
  have hsecond := t.second_le
  omega

theorem UtcDate.value_ddmmyy (d : UtcDate) :
    d.ddmmyy.value = d.day * 10000 + d.month * 100 + d.year :=
  packed_value (Nat.lt_of_le_of_lt d.day_le (by decide)) (Nat.lt_of_le_of_lt d.month_le (by decide))
    d.year_lt

/-- Two texts agree in a field and behind it. -/
theorem field_inj {m n : Nat} (hm : m < 100) (hn : n < 100) {rest rest' : List UInt8}
    (h : (twoDigits m).text ++ rest = (twoDigits n).text ++ rest') : m = n ∧ rest = rest' := by
  obtain ⟨htext, hrest⟩ := List.append_inj h (by rw [Digits.length_text, Digits.length_text])
  exact ⟨twoDigits_inj hm hn htext, hrest⟩

/-- Every number of the stamp has two digits. -/
structure Stamp.Fits (s : Stamp) : Prop where
  year : s.year < 100
  month : s.month < 100
  day : s.day < 100
  hour : s.hour < 100
  minute : s.minute < 100
  second : s.second < 100

theorem Stamp.text_inj {s s' : Stamp} (hs : s.Fits) (hs' : s'.Fits) (h : s.text = s'.text) :
    s = s' := by
  simp only [Stamp.text, List.append_assoc] at h
  obtain ⟨hyear, h⟩ := field_inj hs.year hs'.year (List.append_cancel_left h)
  obtain ⟨hmonth, h⟩ := field_inj hs.month hs'.month (List.append_cancel_left h)
  obtain ⟨hday, h⟩ := field_inj hs.day hs'.day (List.append_cancel_left h)
  obtain ⟨hhour, h⟩ := field_inj hs.hour hs'.hour (List.append_cancel_left h)
  obtain ⟨hminute, h⟩ := field_inj hs.minute hs'.minute (List.append_cancel_left h)
  have hsecond := twoDigits_inj hs.second hs'.second (List.append_cancel_left h)
  obtain ⟨year, month, day, hour, minute, second⟩ := s
  exact Stamp.mk.injEq .. |>.mpr ⟨hyear, hmonth, hday, hhour, hminute, hsecond⟩

theorem stampOf_fits (d : UtcDate) (t : UtcTime) : (stampOf d t).Fits := by
  obtain ⟨day, month, year, -, hday, -, hmonth, hyear⟩ := d
  obtain ⟨hour, minute, second, hhour, hminute, hsecond⟩ := t
  constructor <;> simp only [stampOf] <;> omega

theorem unpacked_fits {date time : Nat} (hdate : date < 995000) (htime : time < 995000) :
    (unpacked date time).Fits := by
  constructor <;> simp only [unpacked] <;> omega

/-! ## The sentences -/

/-- What column 18 has of the date. -/
def storedDate (w : GpsWeek) (d : UtcDate) : Nat :=
  if w.width ≤ 9 then d.ddmmyy.value % 10 ^ (w.width - 3) else 0

theorem storedDate_lt (w : GpsWeek) (d : UtcDate) : storedDate w d < 995000 := by
  have hvalue := d.value_ddmmyy
  have hday := d.day_le
  have hmonth := d.month_le
  have hyear := d.year_lt
  unfold storedDate
  split
  · exact Nat.lt_of_le_of_lt (Nat.mod_le _ _) (by omega)
  · decide

section Sentences

variable (env : GpsEnv φ) (g : Gps φ) (p : GgaHead) (w : GpsWeek) (d : UtcDate)

theorem GpsWeek.width_mem : 2 ≤ w.width ∧ w.width ≤ 10 := by
  have hweek : 0 < w.week.repr.length := Nat.length_repr_pos
  have hsecond : 0 < w.second.repr.length := Nat.length_repr_pos
  have hweek' := Nat.repr_length w.week 4 (by decide) (Nat.lt_trans w.week_lt (by decide))
  have hsecond' := Nat.repr_length w.second 6 (by decide) (Nat.lt_trans w.second_lt (by decide))
  unfold GpsWeek.width
  omega

/-- The time is read off any `$GPGGA` sentence. -/
theorem gpsParse_mTime (rest : List UInt8) :
    (gpsParse env (p.text ++ rest) g).fix.mTime.toNat = p.time.value := by
  have hname : strncmpEq (p.text ++ rest) (ascii "$GPGGA") = true :=
    strncmpEq_iff.mpr (gga_isPrefix p rest)
  obtain ⟨after, hcol⟩ := (ggaColumns_head p rest).time
  have htime := p.time.value_lt
  rw [gpsParse_gga env g hname]
  simp only [ggaFix, GpsEnv.atoiAt, hcol]
  rw [p.time.atoi_text env.libc (by decide) (NoDigitHead.of_byte rfl)]
  exact CInt.toNat_ofNatU32 (by omega)

/-- Column 18 is so many digits into the date, at the comma before it, or behind it. -/
theorem numeral_dateColumn {rest : List UInt8} (hrest : 3 ≤ w.width ∨ rest = []) :
    numeral ((ascii w.week.repr ++ 44 :: ascii w.second.repr
        ++ 44 :: (d.ddmmyy.text ++ 44 :: rest)).drop 11)
      = storedDate w d := by
  obtain ⟨hlo, hhi⟩ := w.width_mem
  have hlen : (ascii w.week.repr ++ 44 :: ascii w.second.repr).length = w.width + 1 :=
    length_weekSecond w.week w.second
  generalize ascii w.week.repr ++ 44 :: ascii w.second.repr = pre at hlen ⊢
  rw [storedDate]
  by_cases hwidth : w.width ≤ 9
  · have hcol : 11 = pre.length + (9 - w.width + 1) := by omega
    rw [if_pos hwidth, hcol, List.drop_length_add_append, List.drop_succ_cons]
    by_cases hthree : 3 ≤ w.width
    · have hleft : 6 - (9 - w.width) = w.width - 3 := by omega
      rw [d.ddmmyy.numeral_drop (by omega), hleft]
    · obtain rfl := hrest.resolve_left hthree
      have hend : (d.ddmmyy.text ++ [44]).drop (9 - w.width) = [] :=
        List.drop_eq_nil_of_le (by rw [List.length_append, Digits.length_text]; simp; omega)
      rw [hend, show w.width - 3 = 0 by omega, Nat.pow_zero, Nat.mod_one]
      rfl
  · rw [if_neg hwidth, numeral_before_comma (by omega), List.drop_eq_nil_of_le (by omega)]
    rfl

theorem gpsParse_mDate_width {rest : List UInt8} (hrest : 3 ≤ w.width ∨ rest = []) :
    (gpsParse env (rmfText w.week w.second d.ddmmyy rest) g).mDate.toNat
      = storedDate w d := by
  have hlt := storedDate_lt w d
  rw [gpsParse_mDate, Libc.atoi, numeral_dateColumn w d hrest,
    env.libc.toInt_narrow (by omega) (by omega)]
  exact CInt.toNat_ofNatU32 (by omega)

/-- The numbers that both sentences leave behind, in either order. -/
theorem received {ggaRest rmfRest : List UInt8} {sentences : List (List UInt8)}
    (hperm : List.Perm sentences
      [p.text ++ ggaRest, rmfText w.week w.second d.ddmmyy rmfRest])
    (hrest : 3 ≤ w.width ∨ rmfRest = []) :
    (run (fun g str => gpsParse env str g) g sentences).fix.mTime.toNat = p.time.value
      ∧ (run (fun g str => gpsParse env str g) g sentences).mDate.toNat
        = storedDate w d := by
  have hgga : strncmpEq (p.text ++ ggaRest) (ascii "$GPGGA") = true :=
    strncmpEq_iff.mpr (gga_isPrefix p ggaRest)
  have hrmf : strncmpEq (rmfText w.week w.second d.ddmmyy rmfRest) (ascii "$PGRMF") = true :=
    strncmpEq_iff.mpr (rmf_isPrefix w.week w.second d.ddmmyy rmfRest)
  rcases List.perm_pair.mp hperm with rfl | rfl
  · rw [run_cons, run_cons, run_nil, gpsParse_rmf_fix env _ hrmf]
    exact ⟨gpsParse_mTime env g p ggaRest, gpsParse_mDate_width env _ w d hrest⟩
  · rw [run_cons, run_cons, run_nil, gpsParse_gga_date env _ hgga]
    exact ⟨gpsParse_mTime env _ p ggaRest, gpsParse_mDate_width env g w d hrest⟩

end Sentences

/-! ## When the page is right -/

/-- The date is read at its column, or without a leading zero. -/
def DateRead (w : GpsWeek) (d : UtcDate) : Prop := w.width = 9 ∨ (w.width = 8 ∧ d.day < 10)

/-- The script gets the numbers back unless one of its quotients is rounded up. -/
theorem unpacked_eq_iff (t : UtcTime) (d : UtcDate) :
    unpacked d.ddmmyy.value t.hhmmss.value = stampOf d t
      ↔ t.minute < 50 ∧ t.second < 50 ∧ d.year < 50 := by
  rw [t.value_hhmmss, d.value_ddmmyy]
  obtain ⟨day, month, year, -, hday, -, hmonth, hyear⟩ := d
  obtain ⟨hour, minute, second, hhour, hminute, hsecond⟩ := t
  simp only [unpacked, stampOf, Stamp.mk.injEq]
  omega

theorem storedDate_of_read {w : GpsWeek} {d : UtcDate} (h : DateRead w d) :
    storedDate w d = d.ddmmyy.value := by
  have hlt := d.ddmmyy.value_lt
  have hvalue := d.value_ddmmyy
  have hmonth := d.month_le
  have hyear := d.year_lt
  rcases h with hnine | ⟨height, hten⟩
  · rw [storedDate, hnine]
    exact Nat.mod_eq_of_lt hlt
  · rw [storedDate, height]
    exact Nat.mod_eq_of_lt (show d.ddmmyy.value < 10 ^ 5 by omega)

/-- A date that was not read whole is missed by its day. -/
theorem dateRead_of_day {w : GpsWeek} {d : UtcDate} (h : (storedDate w d + 5000) / 10000 = d.day) :
    DateRead w d := by
  obtain ⟨hlo, hhi⟩ := w.width_mem
  have hpos := d.day_pos
  have hmonth := d.month_le
  have hyear := d.year_lt
  have hvalue := d.value_ddmmyy
  rw [storedDate] at h
  rw [DateRead]
  generalize w.width = n at hlo hhi h ⊢
  generalize d.ddmmyy.value = value at hvalue h
  by_cases hshort : n ≤ 7
  · -- at most month and year are left, which do not make half a day
    have hsplit : value % 10 ^ (n - 3) = value % 10 ^ 4 % 10 ^ (n - 3) :=
      (Nat.mod_mod_of_dvd _ (Nat.pow_dvd_pow 10 (by omega))).symm
    have hle := Nat.mod_le (value % 10 ^ 4) (10 ^ (n - 3))
    rw [if_pos (by omega), hsplit] at h
    omega
  · obtain rfl | rfl | rfl : n = 8 ∨ n = 9 ∨ n = 10 := by omega
    · rw [if_pos (by decide)] at h
      omega
    · exact Or.inl rfl
    · rw [if_neg (by decide)] at h
      omega

section Page

variable (env : GpsEnv φ) (conv : FloatConv φ) (mem : Mem) (r : Report φ) (g : Gps φ)
  (p : GgaHead) (t : UtcTime) (w : GpsWeek) (d : UtcDate)

/-- What the page shows after one sentence of each kind. -/
theorem dashboardTime_eq {ggaRest rmfRest : List UInt8} {sentences : List (List UInt8)}
    (hperm : List.Perm sentences
      [{ p with time := t.hhmmss }.text ++ ggaRest, rmfText w.week w.second d.ddmmyy rmfRest])
    (hrest : 3 ≤ w.width ∨ rmfRest = []) :
    dashboardTime env conv mem r g sentences
      = some ((unpacked (storedDate w d) t.hhmmss.value).text ++ pulseMark r.pulse) := by
  obtain ⟨htime, hdate⟩ := received env g { p with time := t.hhmmss } w d hperm hrest
  have hhtml := timeHtml_report conv mem
    (r := getGpsData (run (fun g str => gpsParse env str g) g sentences) r)
    (by rw [getGpsData, hdate]; exact storedDate_lt w d)
    (by rw [getGpsData, htime]; exact t.hhmmss_lt)
  rw [dashboardTime, hhtml]
  simp only [getGpsData, hdate, htime]

/-- The page shows the date and the time that were received exactly when minute, second
and year are below 50 and the date has been read. -/
theorem dashboard_time_iff :
    DashboardShows env conv mem r g p t w d
      ↔ t.minute < 50 ∧ t.second < 50 ∧ d.year < 50 ∧ DateRead w d := by
  constructor
  · intro hshows
    have hshown := hshows [] [] _ (List.Perm.refl _)
    rw [dashboardTime_eq env conv mem r g p t w d (List.Perm.refl _) (Or.inr rfl)] at hshown
    have hstamp := Stamp.text_inj (unpacked_fits (storedDate_lt w d) t.hhmmss_lt)
      (stampOf_fits d t) (List.append_cancel_right (Option.some.inj hshown))
    have hread : DateRead w d := dateRead_of_day (congrArg Stamp.day hstamp)
    rw [storedDate_of_read hread] at hstamp
    obtain ⟨hminute, hsecond, hyear⟩ := (unpacked_eq_iff t d).mp hstamp
    exact ⟨hminute, hsecond, hyear, hread⟩
  · rintro ⟨hminute, hsecond, hyear, hread⟩ ggaRest rmfRest sentences hperm
    have hwidth : 3 ≤ w.width := by
      rcases hread with h | ⟨h, -⟩ <;> omega
    rw [dashboardTime_eq env conv mem r g p t w d hperm (Or.inl hwidth), storedDate_of_read hread,
      (unpacked_eq_iff t d).mpr ⟨hminute, hsecond, hyear⟩]

end Page

/-- Ten minutes to seven in the evening. -/
def tenToSeven : UtcTime := ⟨18, 50, 10, by decide, by decide, by decide⟩

/-- Week, second and date of the example of the source. -/
def exampleWeek : GpsWeek := ⟨142, 518553, by decide, by decide⟩

def exampleDate : UtcDate := ⟨18, 5, 2, by decide, by decide, by decide, by decide, by decide⟩

/-- The hour is one ahead on the page. -/
theorem dashboard_hour_ahead :
    { ggaExample with time := tenToSeven.hhmmss }.text
        = ascii "$GPGGA,185010,5224.7214,N,01323.6669,E,2,08,"
      ∧ rmfText exampleWeek.week exampleWeek.second exampleDate.ddmmyy []
        = ascii "$PGRMF,142,518553,180502,"
      ∧ ∀ conv mem r,
        dashboardTime exactGps conv mem r gpsStart
            [ascii "$GPGGA,185010,5224.7214,N,01323.6669,E,2,08,1.1,13.8,M,42.0,M,,*71" ++ [0],
              ascii "$PGRMF,142,518553,180502,000215,18,5230.0000,N,01329.9932,E,A,2,0,218,3,1*16"
                ++ [0]]
          = some (ascii "2002-05-18 19:50:10" ++ pulseMark r.pulse)
        ∧ ¬ DashboardShows exactGps conv mem r gpsStart ggaExample tenToSeven exampleWeek
          exampleDate := by
  have hgga : ascii "$GPGGA,185010,5224.7214,N,01323.6669,E,2,08,1.1,13.8,M,42.0,M,,*71" ++ [0]
      = { ggaExample with time := tenToSeven.hhmmss }.text
        ++ (ascii "1.1,13.8,M,42.0,M,,*71" ++ [0]) := by decide +kernel
  have hrmf : ascii "$PGRMF,142,518553,180502,000215,18,5230.0000,N,01329.9932,E,A,2,0,218,3,1*16"
        ++ [0]
      = rmfText exampleWeek.week exampleWeek.second exampleDate.ddmmyy
        (ascii "000215,18,5230.0000,N,01329.9932,E,A,2,0,218,3,1*16" ++ [0]) := by decide +kernel
  have hwidth : 3 ≤ exampleWeek.width := by decide +kernel
  have hstamp : (unpacked (storedDate exampleWeek exampleDate) tenToSeven.hhmmss.value).text
      = ascii "2002-05-18 19:50:10" := by decide +kernel
  have hright : (stampOf exampleDate tenToSeven).text ≠ ascii "2002-05-18 19:50:10" := by
    decide +kernel
  have hshown : ∀ conv mem r ggaRest rmfRest,
      dashboardTime exactGps conv mem r gpsStart
          [{ ggaExample with time := tenToSeven.hhmmss }.text ++ ggaRest,
            rmfText exampleWeek.week exampleWeek.second exampleDate.ddmmyy rmfRest]
        = some (ascii "2002-05-18 19:50:10" ++ pulseMark r.pulse) := by
    intro conv mem r ggaRest rmfRest
    rw [dashboardTime_eq exactGps conv mem r gpsStart ggaExample tenToSeven exampleWeek
      exampleDate (List.Perm.refl _) (Or.inl hwidth), hstamp]
  refine ⟨by decide +kernel, by decide +kernel, fun conv mem r => ⟨?_, ?_⟩⟩
  · rw [hgga, hrmf]
    exact hshown conv mem r _ _
  · intro hshows
    have heq := hshows [] [] _ (List.Perm.refl _)
    rw [hshown conv mem r [] []] at heq
    exact hright (List.append_cancel_right (Option.some.inj heq)).symm

end Seatel
