import Seatel.Gps

/-!
# The lines of the GPS thread

The loop of `gps.c` cuts the serial stream into lines for `gps_parse`. A
line that fills the buffer is not skipped up to its end: the byte that no
longer fits is dropped, and the buffer starts anew in the middle of the
line (`heldPart`). So `gps_parse` is called once for every line end, with
what came after the last such restart (`trace_gpsCalls`), and the calls
are those for the lines of at most 127 bytes exactly when there are no
other lines (`gps_framing_iff`).
-/

namespace Seatel

open Runs CString

variable {φ : Type}

/-- The thread when it starts, with anything in its variables and on its stack. -/
def Gps.start (g : Gps φ) : Gps φ := { g with idx := 0, idx_lt := Nat.zero_lt_succ 127 }

/-- The string `gps_parse` is called with at a byte, if it is called. -/
def gpsCalls (env : GpsEnv φ) (g : Gps φ) (c : UInt8) : List (List UInt8) :=
  if isLineEnd c then [((g.put 0).buf ++ env.beyond).takeWhile (· ≠ 0)] else []

/-- The lines of a stream, as its line ends complete them; NUL bytes do not count. -/
def segments (bytes : List UInt8) : List (List UInt8) :=
  ((bytes.filter (· ≠ 0)).splitOnP isLineEnd).dropLast

/-- What the buffer holds of a line: every 128th byte starts it anew. -/
def heldPart (seg : List UInt8) : List UInt8 := seg.drop (128 * (seg.length / 128))

theorem length_heldPart (seg : List UInt8) : (heldPart seg).length = seg.length % 128 := by
  rw [heldPart, List.length_drop]
  omega

theorem heldPart_short {seg : List UInt8} (h : seg.length ≤ 127) : heldPart seg = seg := by
  rw [heldPart, Nat.div_eq_of_lt (Nat.lt_succ_of_le h), Nat.mul_zero, List.drop_zero]

/-- A byte that fits is appended. -/
theorem heldPart_append {seg : List UInt8} (h : seg.length % 128 < 127) (c : UInt8) :
    heldPart (seg ++ [c]) = heldPart seg ++ [c] := by
  have hdiv : (seg.length + 1) / 128 = seg.length / 128 := by omega
  rw [heldPart, List.length_append, List.length_singleton, hdiv,
    List.drop_append_of_le_length (by omega), heldPart]

/-- A byte that does not fit is dropped with all that was there. -/
theorem heldPart_restart {seg : List UInt8} (h : seg.length % 128 = 127) (c : UInt8) :
    heldPart (seg ++ [c]) = [] := by
  rw [← List.length_eq_zero_iff, length_heldPart, List.length_append, List.length_singleton]
  omega

/-- The state in the middle of a line, said by the bytes of the line alone. -/
structure LineInv (g : Gps φ) (seg : List UInt8) : Prop where
  plain : ∀ c ∈ seg, c ≠ 0 ∧ isLineEnd c = false
  idx : g.idx = (heldPart seg).length
  held : g.buf.take g.idx = heldPart seg

theorem lineInv_start {g : Gps φ} (h : g.idx = 0) : LineInv g [] := by
  refine ⟨fun c hc => ?_, h, ?_⟩
  · cases hc
  · rw [h]
    rfl

theorem lineInv_byte (env : GpsEnv φ) {g : Gps φ} {seg : List UInt8} (h : LineInv g seg) {c : UInt8}
    (hne : c ≠ 0) (hend : isLineEnd c = false) : LineInv (gpsByte env g c) (seg ++ [c]) := by
  have hplain : ∀ d ∈ seg ++ [c], d ≠ 0 ∧ isLineEnd d = false := by
    intro d hd
    rcases List.mem_append.mp hd with hd | hd
    · exact h.plain d hd
    · obtain rfl := List.mem_singleton.mp hd
      exact ⟨hne, hend⟩
  have hidx := h.idx
  rw [length_heldPart] at hidx
  rw [gpsByte, if_neg hne, if_neg (by simp [hend])]
  split
  · rename_i hlt
    have hfit := heldPart_append (show seg.length % 128 < 127 by omega) c
    refine ⟨hplain, ?_, ?_⟩
    · rw [hfit, List.length_append, ← h.idx]
      rfl
    · rw [hfit, ← h.held]
      exact take_set_succ g.idx_lt_length c
  · rename_i hfull
    have hlast := g.idx_lt
    have hnil := heldPart_restart (show seg.length % 128 = 127 by omega) c
    refine ⟨hplain, ?_, ?_⟩
    · rw [hnil]
      rfl
    · rw [hnil]
      rfl

/-- A line end passes on what the buffer holds of the line. -/
theorem gpsCalls_lineEnd (env : GpsEnv φ) {g : Gps φ} {seg : List UInt8} (h : LineInv g seg)
    {c : UInt8} (hend : isLineEnd c = true) : gpsCalls env g c = [heldPart seg] := by
  have hnul : 0 ∉ heldPart seg := by
    intro hmem
    exact (h.plain 0 (List.mem_of_mem_drop hmem)).1 rfl
  have hput : (g.put 0).buf ++ env.beyond
      = heldPart seg ++ 0 :: (g.buf.drop (g.idx + 1) ++ env.beyond) := by
    simp only [Gps.put]
    rw [List.set_eq_take_append_cons_drop, if_pos g.idx_lt_length, h.held, List.append_assoc,
      List.cons_append]
  rw [gpsCalls, if_pos hend, hput, takeWhile_nul hnul]

/-- From the middle of a line on, `gps_parse` is called once for every line, with
what the buffer holds of it at its end. -/
theorem trace_gpsCalls (env : GpsEnv φ) {g : Gps φ} {seg : List UInt8} (h : LineInv g seg)
    (bytes : List UInt8) :
    trace (gpsByte env) (gpsCalls env) g bytes
      = ((seg ++ bytes.filter (· ≠ 0)).splitOnP isLineEnd).dropLast.map heldPart := by
  induction bytes generalizing g seg with
  | nil =>
      rw [trace_nil, List.filter_nil, List.append_nil,
        List.splitOnP_eq_singleton fun c hc => (h.plain c hc).2]
      rfl
  | cons c bytes ih =>
      rw [trace_cons]
      by_cases hnul : c = 0
      · subst hnul
        have hskip : gpsByte env g 0 = g := if_pos rfl
        rw [hskip, ih h]
        rfl
      · rw [List.filter_cons_of_pos (by simpa using hnul)]
        cases hend : isLineEnd c with
        | true =>
            have hnext : LineInv (gpsByte env g c) [] :=
              lineInv_start (gpsByte_lineEnd env g hend).2.1
            rw [gpsCalls_lineEnd env h hend, ih hnext,
              List.splitOnP_append_cons_of_forall_mem (fun d hd => (h.plain d hd).2) c hend,
              List.dropLast_cons_of_ne_nil (List.splitOnP_ne_nil _ _)]
            rfl
        | false =>
            rw [ih (lineInv_byte env h hnul hend), gpsCalls, if_neg (by simp [hend]),
              List.append_assoc]
            rfl

/-- From the start of the thread on, `gps_parse` is called on the lines of at most
127 bytes, in order and with nothing else, exactly when the stream has no longer line. -/
theorem gps_framing_iff (env : GpsEnv φ) (g : Gps φ) (bytes : List UInt8) :
    (trace (gpsByte env) (gpsCalls env) g.start bytes
          = (segments bytes).filter (·.length ≤ 127)
        ∧ ∀ pre, pre <+: bytes → (run (gpsByte env) g.start pre).idx ≤ 127)
      ↔ ∀ seg ∈ segments bytes, seg.length ≤ 127 := by
  rw [trace_gpsCalls env (lineInv_start (g := g.start) rfl), List.nil_append]
  change ((segments bytes).map heldPart = _ ∧ _) ↔ _
  constructor
  · rintro ⟨hcalls, -⟩
    -- one call a line: an equal number of lines are short
    have hlen := congrArg List.length hcalls
    rw [List.length_map, eq_comm, List.length_filter_eq_length_iff] at hlen
    intro seg hseg
    exact of_decide_eq_true (hlen seg hseg)
  · intro hshort
    constructor
    · rw [List.filter_eq_self.mpr fun seg hseg => decide_eq_true (hshort seg hseg)]
      calc (segments bytes).map heldPart
          = (segments bytes).map id :=
            List.map_congr_left fun seg hseg => heldPart_short (hshort seg hseg)
        _ = segments bytes := List.map_id _
    · intro pre _
      exact Nat.le_of_lt_succ (run (gpsByte env) g.start pre).idx_lt

/-- A line of 134 bytes whose last six are a sentence's first: `gps_parse` gets them
for a line. -/
theorem gps_part_parsed :
    ¬ (trace (gpsByte exactGps) (gpsCalls exactGps) gpsStart.start
            (List.replicate 128 120 ++ ascii "$GPGGA" ++ [10])
          = (segments (List.replicate 128 120 ++ ascii "$GPGGA" ++ [10])).filter (·.length ≤ 127)
        ∧ ∀ pre, pre <+: List.replicate 128 120 ++ ascii "$GPGGA" ++ [10] →
            (run (gpsByte exactGps) gpsStart.start pre).idx ≤ 127) := by
  rintro ⟨hcalls, -⟩
  revert hcalls
  decide +kernel

end Seatel
