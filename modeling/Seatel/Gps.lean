import Mathlib.Data.Rat.Defs
import Seatel.CString
import Seatel.Numerals
import Seatel.Runs

/-!
# The GPS thread

`gps.c` collects a line in a buffer that it never clears, ends it with a
NUL and reads the fields of two sentences at fixed columns. A field that
lies behind the NUL is read from what an earlier line left there.

The state after a line is computed once (`run_line`), so that a sentence
is parsed out of the line, a NUL and the stale rest of the buffer. A
column inside the line reads a number that ends at the NUL at the latest
(`atoiAt_line`); the last column of each sentence is therefore what
decides whether the fix depends on the sentence alone.

The expressions in `double` stay an arbitrary function of the integers
they are computed from.
-/

namespace Seatel

open Runs CString Numerals

/-- The platform of the thread: `atoi`, the coordinate expression over its
degrees, minutes, fraction and sign, and the memory behind the buffer. -/
structure GpsEnv (φ : Type) where
  libc : Libc
  coord : Int → Int → Int → Int → φ
  beyond : List UInt8

/-- What `$GPGGA` sets. -/
structure GgaFix (φ : Type) where
  mTime : UInt32
  mLat : φ
  mLon : φ
  mSatsSol : UInt8
  mAlt : Int16
deriving Repr, DecidableEq

/-- The variables of `gps.c` and its thread. -/
structure Gps (φ : Type) where
  fix : GgaFix φ
  mDate : UInt32
  buf : List UInt8
  idx : Nat
  length_buf : buf.length = 128
  idx_lt : idx < 128

variable {φ : Type}

/-- `atoi(&str[i])`. -/
def GpsEnv.atoiAt (env : GpsEnv φ) (str : List UInt8) (i : Nat) : Int :=
  (env.libc.atoi (str.drop i)).toInt

/-- The columns of a `$GPGGA` sentence. -/
def ggaFix (env : GpsEnv φ) (str : List UInt8) : GgaFix φ where
  mTime := UInt32.ofInt (env.atoiAt str 7)
  mLat := env.coord ((env.atoiAt str 14).tdiv 100) (env.atoiAt str 16) (env.atoiAt str 19)
    (if str.getD 24 0 = 78 then 1 else -1)
  mLon := env.coord ((env.atoiAt str 26).tdiv 100) (env.atoiAt str 29) (env.atoiAt str 32)
    (if str.getD 37 0 = 69 then 1 else -1)
  mSatsSol := UInt8.ofInt (env.atoiAt str 41)
  mAlt := Int16.ofInt (env.atoiAt str 48)

/-- The column of a `$PGRMF` sentence. -/
def rmfDate (env : GpsEnv φ) (str : List UInt8) : UInt32 := UInt32.ofInt (env.atoiAt str 18)

def gpsParse (env : GpsEnv φ) (str : List UInt8) (g : Gps φ) : Gps φ :=
  let g := if strncmpEq str (ascii "$GPGGA") then { g with fix := ggaFix env str } else g
  if strncmpEq str (ascii "$PGRMF") then { g with mDate := rmfDate env str } else g

def isLineEnd (c : UInt8) : Bool := c = 10 || c = 13

/-- `buf[idx] = c`. -/
def Gps.put (g : Gps φ) (c : UInt8) : Gps φ :=
  { g with buf := g.buf.set g.idx c, length_buf := by rw [List.length_set, g.length_buf] }

theorem Gps.idx_lt_length (g : Gps φ) : g.idx < g.buf.length := by
  rw [g.length_buf]
  exact g.idx_lt

/-- One byte from the serial line. -/
def gpsByte (env : GpsEnv φ) (g : Gps φ) (c : UInt8) : Gps φ :=
  if c = 0 then g
  else if isLineEnd c then
    { gpsParse env ((g.put 0).buf ++ env.beyond) (g.put 0) with idx := 0, idx_lt := by decide }
  else if h : g.idx < 127 then
    { g.put c with idx := g.idx + 1, idx_lt := Nat.succ_lt_succ h }
  else { g with idx := 0, idx_lt := by decide }

/-- A line that fits the buffer. -/
structure Sentence where
  bytes : List UInt8
  ne_nil : bytes ≠ []
  length_le : bytes.length ≤ 127
  plain : ∀ c ∈ bytes, c ≠ 0 ∧ isLineEnd c = false

/-! ## The buffer after a line -/

theorem gpsParse_frame (env : GpsEnv φ) (str : List UInt8) (g : Gps φ) :
    (gpsParse env str g).buf = g.buf ∧ (gpsParse env str g).idx = g.idx := by
  unfold gpsParse
  split <;> split <;> exact ⟨rfl, rfl⟩

/-- A line end parses the buffer and starts a new line. -/
theorem gpsByte_lineEnd (env : GpsEnv φ) (g : Gps φ) {c : UInt8} (hc : isLineEnd c = true) :
    (gpsByte env g c).buf = g.buf.set g.idx 0 ∧ (gpsByte env g c).idx = 0
      ∧ (gpsByte env g c).fix = (gpsParse env (g.buf.set g.idx 0 ++ env.beyond) (g.put 0)).fix
      ∧ (gpsByte env g c).mDate
        = (gpsParse env (g.buf.set g.idx 0 ++ env.beyond) (g.put 0)).mDate := by
  have hne : c ≠ 0 := by
    rintro rfl
    cases hc
  rw [gpsByte, if_neg hne, if_pos hc]
  exact ⟨(gpsParse_frame env _ _).1, rfl, rfl, rfl⟩

/-- Inside a line only the buffer changes. -/
theorem run_frame (env : GpsEnv φ) (g : Gps φ) {l : List UInt8}
    (hplain : ∀ c ∈ l, c ≠ 0 ∧ isLineEnd c = false) :
    (run (gpsByte env) g l).fix = g.fix ∧ (run (gpsByte env) g l).mDate = g.mDate := by
  induction l generalizing g with
  | nil => exact ⟨rfl, rfl⟩
  | cons c l ih =>
      obtain ⟨hne, hend⟩ := hplain c List.mem_cons_self
      have hstep : (gpsByte env g c).fix = g.fix ∧ (gpsByte env g c).mDate = g.mDate := by
        rw [gpsByte, if_neg hne, if_neg (by simp [hend])]
        split <;> exact ⟨rfl, rfl⟩
      obtain ⟨hfix, hdate⟩ := ih (gpsByte env g c) fun d hd => hplain d (List.mem_cons_of_mem c hd)
      exact ⟨hfix.trans hstep.1, hdate.trans hstep.2⟩

theorem take_set_succ {l : List UInt8} {i : Nat} (hi : i < l.length) (c : UInt8) :
    (l.set i c).take (i + 1) = l.take i ++ [c] := by
  have hlen : (l.take i).length = i := List.length_take_of_le (Nat.le_of_lt hi)
  rw [List.set_eq_take_append_cons_drop, if_pos hi, List.take_append, hlen,
    List.take_of_length_le (by omega), Nat.add_sub_cancel_left]
  rfl

/-- The bytes of a line go into the buffer one behind the other. -/
theorem run_bytes (env : GpsEnv φ) (g : Gps φ) {l : List UInt8}
    (hplain : ∀ c ∈ l, c ≠ 0 ∧ isLineEnd c = false) (hlen : g.idx + l.length ≤ 127) :
    (run (gpsByte env) g l).buf = g.buf.take g.idx ++ l ++ g.buf.drop (g.idx + l.length)
      ∧ (run (gpsByte env) g l).idx = g.idx + l.length := by
  induction l generalizing g with
  | nil => simp
  | cons c l ih =>
      obtain ⟨hne, hend⟩ := hplain c List.mem_cons_self
      rw [List.length_cons] at hlen
      have hlt : g.idx < 127 := by omega
      have hstep : gpsByte env g c
          = { g.put c with idx := g.idx + 1, idx_lt := Nat.succ_lt_succ hlt } := by
        rw [gpsByte, if_neg hne, if_neg (by simp [hend]), dif_pos hlt]
      obtain ⟨hb, hi⟩ := ih (gpsByte env g c)
        (fun d hd => hplain d (List.mem_cons_of_mem c hd)) (by rw [hstep]; simp only; omega)
      rw [run_cons, hb, hi, hstep]
      simp only [Gps.put, List.length_cons]
      refine ⟨?_, by omega⟩
      rw [take_set_succ g.idx_lt_length, List.drop_set_of_lt (by omega), Nat.add_right_comm,
        Nat.add_assoc g.idx, List.append_assoc (g.buf.take g.idx), List.singleton_append]

/-! ## What is parsed -/

theorem gpsParse_gga (env : GpsEnv φ) {str : List UInt8} (g : Gps φ)
    (h : strncmpEq str (ascii "$GPGGA") = true) :
    (gpsParse env str g).fix = ggaFix env str := by
  simp only [gpsParse, h, if_true]
  split <;> rfl

theorem gpsParse_rmf (env : GpsEnv φ) {str : List UInt8} (g : Gps φ)
    (h : strncmpEq str (ascii "$PGRMF") = true) :
    (gpsParse env str g).mDate = rmfDate env str := by
  simp only [gpsParse, h, if_true]

/-- A string starts with one of the two names only. -/
theorem gpsParse_gga_date (env : GpsEnv φ) {str : List UInt8} (g : Gps φ)
    (h : strncmpEq str (ascii "$GPGGA") = true) : (gpsParse env str g).mDate = g.mDate := by
  have hnames : Incomparable (ascii "$GPGGA") (ascii "$PGRMF") := by decide
  have hother := hnames.excludes h
  simp only [gpsParse, hother, h, if_true]
  rfl

theorem gpsParse_rmf_fix (env : GpsEnv φ) {str : List UInt8} (g : Gps φ)
    (h : strncmpEq str (ascii "$PGRMF") = true) : (gpsParse env str g).fix = g.fix := by
  have hnames : Incomparable (ascii "$PGRMF") (ascii "$GPGGA") := by decide
  have hother := hnames.excludes h
  simp only [gpsParse, hother, h, if_true]
  rfl

/-- The sentence, its terminator, and what earlier lines left behind it. -/
def lineMemory (env : GpsEnv φ) (g : Gps φ) (s : Sentence) : List UInt8 :=
  s.bytes ++ 0 :: (g.buf.drop (s.bytes.length + 1) ++ env.beyond)

theorem strncmpEq_lineMemory (env : GpsEnv φ) (g : Gps φ) {s : Sentence} {lit : List UInt8}
    (h : lit <+: s.bytes) : strncmpEq (lineMemory env g s) lit = true := by
  rw [strncmpEq_iff]
  exact h.trans (List.prefix_append _ _)

/-- A line and its end, from the start of a line on. -/
theorem run_line (env : GpsEnv φ) {g : Gps φ} (hidx : g.idx = 0) (s : Sentence) {e : UInt8}
    (he : isLineEnd e = true) :
    (run (gpsByte env) g (s.bytes ++ [e])).buf
        = s.bytes ++ 0 :: g.buf.drop (s.bytes.length + 1)
      ∧ (ascii "$GPGGA" <+: s.bytes →
        (run (gpsByte env) g (s.bytes ++ [e])).fix = ggaFix env (lineMemory env g s)
          ∧ (run (gpsByte env) g (s.bytes ++ [e])).mDate = g.mDate)
      ∧ (ascii "$PGRMF" <+: s.bytes →
        (run (gpsByte env) g (s.bytes ++ [e])).mDate = rmfDate env (lineMemory env g s)) := by
  obtain ⟨hbuf, hi⟩ := run_bytes env g s.plain (by rw [hidx]; simpa using s.length_le)
  rw [hidx, List.take_zero, List.nil_append, Nat.zero_add] at hbuf
  rw [hidx, Nat.zero_add] at hi
  have hset : (run (gpsByte env) g s.bytes).buf.set (run (gpsByte env) g s.bytes).idx 0
      = s.bytes ++ 0 :: g.buf.drop (s.bytes.length + 1) := by
    have hlt : s.bytes.length < g.buf.length := by
      rw [g.length_buf]
      exact Nat.lt_succ_of_le s.length_le
    rw [hbuf, hi, List.set_append_right _ _ (Nat.le_refl _), Nat.sub_self,
      List.drop_eq_getElem_cons hlt, List.set_cons_zero]
  obtain ⟨hb, -, hf, hd⟩ := gpsByte_lineEnd env (run (gpsByte env) g s.bytes) he
  have hmem : s.bytes ++ 0 :: g.buf.drop (s.bytes.length + 1) ++ env.beyond
      = lineMemory env g s := by simp [lineMemory]
  rw [hset, hmem] at hf hd
  rw [run_append, run_cons, run_nil]
  refine ⟨hb.trans hset, fun h => ?_, fun h => ?_⟩
  · have hname := strncmpEq_lineMemory env g h
    rw [hf, hd, gpsParse_gga env _ hname, gpsParse_gga_date env _ hname]
    exact ⟨rfl, (run_frame env g s.plain).2⟩
  · rw [hd, gpsParse_rmf env _ (strncmpEq_lineMemory env g h)]

/-! ## Columns inside the sentence -/

section Columns

variable (libc : Libc) (coord : Int → Int → Int → Int → φ) (s : List UInt8)

/-- A number that starts in the line, or at its terminator, ends there. -/
theorem atoiAt_line (beyond rest : List UInt8) {i : Nat} (hi : i ≤ s.length) :
    (GpsEnv.mk libc coord beyond).atoiAt (s ++ 0 :: rest) i = (libc.atoi (s.drop i)).toInt := by
  rw [GpsEnv.atoiAt, List.drop_append_of_le_length hi, Libc.atoi, numeral_stop Stops.nul]
  rfl

theorem ggaFix_line (beyond beyond' rest rest' : List UInt8) (hlen : 48 ≤ s.length) :
    ggaFix (GpsEnv.mk libc coord beyond) (s ++ 0 :: rest)
      = ggaFix (GpsEnv.mk libc coord beyond') (s ++ 0 :: rest') := by
  have hget : ∀ (t : List UInt8) (i : Nat), i < 48 → (s ++ t).getD i 0 = s.getD i 0 := by
    intro t i hi
    rw [List.getD_eq_getElem?_getD, List.getElem?_append_left (by omega),
      ← List.getD_eq_getElem?_getD]
  simp only [ggaFix, hget _ 24 (by decide), hget _ 37 (by decide)]
  simp only [atoiAt_line libc coord s _ _ (show 7 ≤ s.length by omega),
    atoiAt_line libc coord s _ _ (show 14 ≤ s.length by omega),
    atoiAt_line libc coord s _ _ (show 16 ≤ s.length by omega),
    atoiAt_line libc coord s _ _ (show 19 ≤ s.length by omega),
    atoiAt_line libc coord s _ _ (show 26 ≤ s.length by omega),
    atoiAt_line libc coord s _ _ (show 29 ≤ s.length by omega),
    atoiAt_line libc coord s _ _ (show 32 ≤ s.length by omega),
    atoiAt_line libc coord s _ _ (show 41 ≤ s.length by omega),
    atoiAt_line libc coord s _ _ hlen]

theorem rmfDate_line (beyond beyond' rest rest' : List UInt8) (hlen : 18 ≤ s.length) :
    rmfDate (GpsEnv.mk libc coord beyond) (s ++ 0 :: rest)
      = rmfDate (GpsEnv.mk libc coord beyond') (s ++ 0 :: rest') := by
  simp only [rmfDate, atoiAt_line libc coord s _ _ hlen]

end Columns

/-! ## Columns behind the sentence -/

/-- A line of `c` letters, a digit and a letter. -/
def staleLine (c : Nat) (hc : c ≤ 125) (d : UInt8) (hd : isDigit d = true) : Sentence where
  bytes := List.replicate c 120 ++ [d, 120]
  ne_nil := by simp
  length_le := by
    rw [List.length_append, List.length_replicate]
    exact Nat.add_le_add_right hc 2
  plain b hb := by
    rcases List.mem_append.mp hb with h | h
    · rw [List.eq_of_mem_replicate h]
      decide
    · rcases List.mem_pair.mp h with rfl | rfl
      · constructor
        · rintro rfl
          cases hd
        · rw [isLineEnd, Bool.or_eq_false_iff, decide_eq_false_iff_not, decide_eq_false_iff_not]
          constructor
          · rintro rfl
            cases hd
          · rintro rfl
            cases hd
      · decide

/-- A column behind the terminator shows what the line before had there. -/
theorem atoiAt_stale (env : GpsEnv φ) {g : Gps φ} {s : Sentence} {c : Nat} {d : UInt8}
    {rest : List UInt8} (hlen : s.bytes.length < c)
    (hbuf : g.buf = List.replicate c 120 ++ d :: 120 :: rest) :
    env.atoiAt (lineMemory env g s) c
      = (env.libc.atoi (d :: 120 :: (rest ++ env.beyond))).toInt := by
  have hdrop : (lineMemory env g s).drop c = d :: 120 :: (rest ++ env.beyond) := by
    obtain ⟨k, hk⟩ : ∃ k, c = s.bytes.length + (k + 1) := ⟨c - s.bytes.length - 1, by omega⟩
    rw [lineMemory, hk, List.drop_length_add_append, List.drop_succ_cons,
      List.drop_append_of_le_length, List.drop_drop, hbuf, hk]
    · rw [Nat.add_assoc, Nat.add_comm 1 k, List.drop_append_of_le_length (by simp),
        List.drop_replicate, Nat.sub_self]
      rfl
    · rw [List.length_drop, hbuf, List.length_append, List.length_replicate]
      omega
  rw [GpsEnv.atoiAt, hdrop]

/-! ## Two histories -/

inductive LineEnd where
  | lf
  | cr
deriving Repr, DecidableEq

def LineEnd.byte : LineEnd → UInt8
  | .lf => 10
  | .cr => 13

theorem LineEnd.isLineEnd (e : LineEnd) : Seatel.isLineEnd e.byte = true := by
  cases e <;> rfl

/-- Any bytes, a line end, the sentence and a line end. -/
def gpsAfter (env : GpsEnv φ) (g : Gps φ) (h : List UInt8) (e : LineEnd) (s : Sentence)
    (e' : LineEnd) : Gps φ :=
  run (gpsByte env) g (h ++ [e.byte] ++ (s.bytes ++ [e'.byte]))

/-- After a line end the thread is at the start of a line. -/
theorem run_idx (env : GpsEnv φ) (g : Gps φ) (h : List UInt8) (e : LineEnd) :
    (run (gpsByte env) g (h ++ [e.byte])).idx = 0 := by
  rw [run_append]
  exact (gpsByte_lineEnd env _ e.isLineEnd).2.1

theorem gpsAfter_gga (env : GpsEnv φ) (g : Gps φ) (h : List UInt8) (e : LineEnd) {s : Sentence}
    (e' : LineEnd) (hs : ascii "$GPGGA" <+: s.bytes) :
    (gpsAfter env g h e s e').fix
      = ggaFix env (lineMemory env (run (gpsByte env) g (h ++ [e.byte])) s) := by
  rw [gpsAfter, run_append]
  exact ((run_line env (run_idx env g h e) s e'.isLineEnd).2.1 hs).1

theorem gpsAfter_rmf (env : GpsEnv φ) (g : Gps φ) (h : List UInt8) (e : LineEnd) {s : Sentence}
    (e' : LineEnd) (hs : ascii "$PGRMF" <+: s.bytes) :
    (gpsAfter env g h e s e').mDate
      = rmfDate env (lineMemory env (run (gpsByte env) g (h ++ [e.byte])) s) := by
  rw [gpsAfter, run_append]
  exact (run_line env (run_idx env g h e) s e'.isLineEnd).2.2 hs

/-- A digit in column `c` of the line before is read there behind a shorter
sentence. -/
theorem atoiAt_afterStale (env : GpsEnv φ) {g : Gps φ} (hidx : g.idx = 0) {s : Sentence} {c : Nat}
    (hc : c ≤ 125) (hlen : s.bytes.length < c) {d : UInt8} (hd : isDigit d = true) {n : Int}
    (hn : ∀ rest, numeral (d :: 120 :: rest) = n) (hlo : 0 ≤ n) (hhi : n ≤ 9) :
    env.atoiAt (lineMemory env (run (gpsByte env) g ((staleLine c hc d hd).bytes ++ [10])) s) c
      = n := by
  have hbuf := (run_line env hidx (staleLine c hc d hd) (e := 10) rfl).1
  have hsplit : (staleLine c hc d hd).bytes
        ++ 0 :: g.buf.drop ((staleLine c hc d hd).bytes.length + 1)
      = List.replicate c 120 ++ d :: 120 :: (0 :: g.buf.drop
          ((staleLine c hc d hd).bytes.length + 1)) := by
    simp only [staleLine, List.append_assoc, List.cons_append, List.nil_append]
  rw [hsplit] at hbuf
  rw [atoiAt_stale env hlen hbuf, Libc.atoi, hn]
  exact env.libc.toInt_narrow (by omega) (by omega)

/-- The fields of a sentence come from the sentence alone, whatever came before
it, exactly when it reaches the last column that is read: column 48 of `$GPGGA`
and column 18 of `$PGRMF`. -/
theorem gps_sentence_isolated_iff [Inhabited φ] (libc : Libc)
    (coord : Int → Int → Int → Int → φ) (s : Sentence) :
    (∀ (beyond₁ beyond₂ : List UInt8) (g₁ g₂ : Gps φ) (h₁ h₂ : List UInt8)
        (e₁ e₁' e₂ e₂' : LineEnd),
        (ascii "$GPGGA" <+: s.bytes →
          (gpsAfter ⟨libc, coord, beyond₁⟩ g₁ h₁ e₁ s e₁').fix
            = (gpsAfter ⟨libc, coord, beyond₂⟩ g₂ h₂ e₂ s e₂').fix)
        ∧ (ascii "$PGRMF" <+: s.bytes →
          (gpsAfter ⟨libc, coord, beyond₁⟩ g₁ h₁ e₁ s e₁').mDate
            = (gpsAfter ⟨libc, coord, beyond₂⟩ g₂ h₂ e₂ s e₂').mDate))
      ↔ (ascii "$GPGGA" <+: s.bytes → 48 ≤ s.bytes.length)
        ∧ (ascii "$PGRMF" <+: s.bytes → 18 ≤ s.bytes.length) := by
  constructor
  · intro h
    let g : Gps φ := ⟨⟨0, default, default, 0, 0⟩, 0, List.replicate 128 0, 0, by simp, by decide⟩
    have hone : ∀ rest, numeral (49 :: 120 :: rest) = 1 := fun _ => rfl
    have htwo : ∀ rest, numeral (50 :: 120 :: rest) = 2 := fun _ => rfl
    -- the same sentence behind a line with a 1 and behind one with a 2 in column `c`
    have hcol : ∀ c (hc : c ≤ 125), s.bytes.length < c → ∀ env : GpsEnv φ,
        env.atoiAt (lineMemory env (run (gpsByte env) g
            ((staleLine c hc 49 rfl).bytes ++ [10])) s) c = 1
          ∧ env.atoiAt (lineMemory env (run (gpsByte env) g
            ((staleLine c hc 50 rfl).bytes ++ [10])) s) c = 2 := by
      intro c hc hlen env
      exact ⟨atoiAt_afterStale env rfl hc hlen rfl hone (by decide) (by decide),
        atoiAt_afterStale env rfl hc hlen rfl htwo (by decide) (by decide)⟩
    constructor
    · intro hs
      by_contra hlen
      obtain ⟨h1, h2⟩ := hcol 48 (by decide) (by omega) ⟨libc, coord, []⟩
      have heq := (h [] [] g g (staleLine 48 (by decide) 49 rfl).bytes
        (staleLine 48 (by decide) 50 rfl).bytes .lf .lf .lf .lf).1 hs
      rw [gpsAfter_gga _ _ _ _ _ hs, gpsAfter_gga _ _ _ _ _ hs] at heq
      have halt := congrArg GgaFix.mAlt heq
      simp only [ggaFix, LineEnd.byte, h1, h2] at halt
      exact absurd halt (by decide)
    · intro hs
      by_contra hlen
      obtain ⟨h1, h2⟩ := hcol 18 (by decide) (by omega) ⟨libc, coord, []⟩
      have heq := (h [] [] g g (staleLine 18 (by decide) 49 rfl).bytes
        (staleLine 18 (by decide) 50 rfl).bytes .lf .lf .lf .lf).2 hs
      rw [gpsAfter_rmf _ _ _ _ _ hs, gpsAfter_rmf _ _ _ _ _ hs] at heq
      simp only [rmfDate, LineEnd.byte, h1, h2] at heq
      exact absurd heq (by decide)
  · rintro ⟨hgga, hrmf⟩ beyond₁ beyond₂ g₁ g₂ h₁ h₂ e₁ e₁' e₂ e₂'
    constructor
    · intro hs
      rw [gpsAfter_gga _ _ _ _ _ hs, gpsAfter_gga _ _ _ _ _ hs]
      exact ggaFix_line libc coord s.bytes _ _ _ _ (hgga hs)
    · intro hs
      rw [gpsAfter_rmf _ _ _ _ _ hs, gpsAfter_rmf _ _ _ _ _ hs]
      exact rmfDate_line libc coord s.bytes _ _ _ _ (hrmf hs)

/-! ## A receiver that loses its fix -/

/-- The platform over the rationals, with nothing behind the buffer. -/
def exactGps : GpsEnv ℚ where
  libc := Libc.saturating
  coord d m f sgn := (d + (m + f / 10000) / 60) * sgn
  beyond := []

/-- The thread when it starts, with a cleared stack. -/
def gpsStart : Gps ℚ := ⟨⟨0, 0, 0, 0, 0⟩, 0, List.replicate 128 0, 0, by simp, by decide⟩

/-- What the receiver sends while it has no fix. -/
def noFix : Sentence where
  bytes := ascii "$GPGGA,,,,,,0,00,,,M,,M,,*66"
  ne_nil := by decide
  length_le := by decide
  plain := by decide +kernel

/-- The altitude of an empty sentence is that of the line before it. -/
theorem stale_altitude_stored :
    ascii "$GPGGA" <+: noFix.bytes
      ∧ (gpsAfter exactGps gpsStart
          (ascii "$GPGGA,181010,5224.7214,N,01323.6669,E,2,08,1.1,13.8,M,42.0,M,,*71")
          .cr noFix .cr).fix.mAlt = 13
      ∧ (gpsAfter exactGps gpsStart [] .cr noFix .cr).fix.mAlt = 0 := by
  refine ⟨by decide, ?_, ?_⟩ <;> decide +kernel

end Seatel
