import Mathlib.Algebra.Ring.Int.Defs
import Mathlib.Data.Int.Order.Basic
import Mathlib.Data.List.Infix
import Mathlib.Logic.Function.Basic
import Seatel.CInt
import Seatel.Runs

/-!
# The OCXO thread

`ocxo.c` counts the oscillator between two 1PPS pulses, publishes a count
that three slots agree on and steers the oscillator by ±10 on its DAC.
The interrupt handler stores into the slots at any time, so the loop body
of the thread is cut into its single accesses, and an `OcxoAct` is one of
them or a pulse.

Two independent facts are proved. The DAC value integrates the published
counts without a limit, so it leaves the 12-bit range exactly when one
sign of correction outnumbers the other too far. And agreement of the
slots confirms a count when the slots are those of the last three pulses
and do not change between the comparison and the read that publishes;
`OcxoMon` keeps the history this is said about.

What the thread prints and what it does to the LED is left out.
-/

namespace Seatel

open Runs CInt

/-- The next access of the thread. -/
inductive OcxoPc where
  /-- Read `ocxo_cntr[0]`. -/
  | top
  /-- Read `ocxo_cntr[1]` and compare it with what `ocxo_cntr[0]` was. -/
  | cmp01 (a : Int32)
  /-- Read `ocxo_cntr[1]` again. -/
  | read1
  /-- Read `ocxo_cntr[2]` and compare it with what `ocxo_cntr[1]` was. -/
  | cmp12 (b : Int32)
  /-- `out_ocxo_cntr = ocxo_cntr[0]` -/
  | publish
  /-- `ocxo_cntr[0] = -1` -/
  | mark
  /-- Correct the DAC. -/
  | correct
  /-- The 10 ms sleep. -/
  | sleep
deriving Repr, DecidableEq

/-- The variables of `ocxo.c` and its thread. -/
structure Ocxo where
  /-- The array of three slots, at the indices 0, 1 and 2. -/
  ocxoCntr : Nat → Int32
  cntrI : UInt32
  outOcxoCntr : Int32
  dacVal : UInt16
  pc : OcxoPc

inductive OcxoAct where
  /-- `exti_cb` with this timer count. -/
  | pulse (cnt : Int32)
  /-- The thread makes its next access. -/
  | thread
deriving Repr, DecidableEq

/-- `exti_cb`. -/
def extiCb (cnt : Int32) (s : Ocxo) : Ocxo :=
  { s with
    ocxoCntr := Function.update s.ocxoCntr (s.cntrI.toNat % 3) cnt
    cntrI := s.cntrI + 1 }

/-- The correction of the DAC by a published count. -/
def dacCorrect (out : Int32) (dac : UInt16) : UInt16 :=
  if out.toInt > 20000001 then dac - 10
  else if out.toInt < 19999999 then dac + 10
  else dac

def ocxoStep (s : Ocxo) : Ocxo :=
  match s.pc with
  | .top => { s with pc := .cmp01 (s.ocxoCntr 0) }
  | .cmp01 a => { s with pc := if a = s.ocxoCntr 1 then .read1 else .sleep }
  | .read1 => { s with pc := .cmp12 (s.ocxoCntr 1) }
  | .cmp12 b => { s with pc := if b = s.ocxoCntr 2 then .publish else .sleep }
  | .publish => { s with outOcxoCntr := s.ocxoCntr 0, pc := .mark }
  | .mark => { s with ocxoCntr := Function.update s.ocxoCntr 0 (-1), pc := .correct }
  | .correct => { s with dacVal := dacCorrect s.outOcxoCntr s.dacVal, pc := .sleep }
  | .sleep => { s with pc := .top }

def ocxoNext (s : Ocxo) : OcxoAct → Ocxo
  | .pulse cnt => extiCb cnt s
  | .thread => ocxoStep s

def Ocxo.boot : Ocxo where
  ocxoCntr i := if i = 1 then 1 else if i = 2 then 2 else 0
  cntrI := 0
  outOcxoCntr := 0
  dacVal := 2050
  pc := .top

/-! ## The DAC value -/

/-- The counts by which the DAC is corrected. -/
def corrections (s : Ocxo) : OcxoAct → List Int32
  | .pulse _ => []
  | .thread => if s.pc = .correct then [s.outOcxoCntr] else []

/-- The direction of a correction. -/
def steer (out : Int32) : Int :=
  if out.toInt > 20000001 then -1 else if out.toInt < 19999999 then 1 else 0

/-- How many more corrections went up than down. -/
def balance (outs : List Int32) : Int := (outs.map steer).sum

/-- The step leaves the DAC value in the 12-bit range and does not change it by
more than 10. -/
def DacOk (s : Ocxo) (a : OcxoAct) : Prop :=
  (ocxoNext s a).dacVal.toNat ≤ 4095
    ∧ (((ocxoNext s a).dacVal.toNat : Int) - s.dacVal.toNat).natAbs ≤ 10

/-- The balances at which the DAC value is in range. -/
def InRange (b : Int) : Prop := -205 ≤ b ∧ b ≤ 204

theorem toNat_sub_ten (d : UInt16) :
    (d - 10).toNat = if d.toNat < 10 then d.toNat + 65526 else d.toNat - 10 := by
  have hd : d.toNat < 65536 := d.toNat_lt
  have hten : (10 : UInt16).toNat = 10 := rfl
  rw [UInt16.toNat_sub, hten]
  split <;> omega

theorem toNat_add_ten {d : UInt16} (h : d.toNat ≤ 4095) : (d + 10).toNat = d.toNat + 10 := by
  have hten : (10 : UInt16).toNat = 10 := rfl
  rw [UInt16.toNat_add, hten]
  omega

/-- While the DAC value is 2050 and ten times the balance, a correction keeps it
so when the new balance is in range, and goes wrong otherwise. -/
theorem dacCorrect_iff {d : UInt16} {b : Int} (hd : (d.toNat : Int) = 2050 + 10 * b)
    (hb : InRange b) (out : Int32) :
    ((dacCorrect out d).toNat ≤ 4095
        ∧ (((dacCorrect out d).toNat : Int) - d.toNat).natAbs ≤ 10 ↔ InRange (b + steer out))
      ∧ (InRange (b + steer out) →
        ((dacCorrect out d).toNat : Int) = 2050 + 10 * (b + steer out)) := by
  unfold InRange at *
  simp only [dacCorrect, steer]
  by_cases hhigh : out.toInt > 20000001
  · rw [if_pos hhigh, if_pos hhigh]
    have hsub := toNat_sub_ten d
    split at hsub <;> omega
  · rw [if_neg hhigh, if_neg hhigh]
    by_cases hlow : out.toInt < 19999999
    · rw [if_pos hlow, if_pos hlow, toNat_add_ten (by omega)]
      omega
    · rw [if_neg hlow, if_neg hlow]
      omega

/-- Every step is a correction by what it shows, or leaves the DAC alone. -/
theorem ocxoNext_dacVal (s : Ocxo) (a : OcxoAct) :
    (∃ out, corrections s a = [out] ∧ (ocxoNext s a).dacVal = dacCorrect out s.dacVal)
      ∨ (corrections s a = [] ∧ (ocxoNext s a).dacVal = s.dacVal) := by
  cases a with
  | pulse cnt => exact Or.inr ⟨rfl, rfl⟩
  | thread =>
      cases hpc : s.pc with
      | correct =>
          refine Or.inl ⟨s.outOcxoCntr, if_pos hpc, ?_⟩
          simp only [ocxoNext, ocxoStep, hpc]
      | _ =>
          refine Or.inr ⟨if_neg (by simp [hpc]), ?_⟩
          simp only [ocxoNext, ocxoStep, hpc]

theorem dacOk_step {s : Ocxo} {b : Int} (hd : (s.dacVal.toNat : Int) = 2050 + 10 * b)
    (hb : InRange b) (a : OcxoAct) :
    (DacOk s a ↔ InRange (b + balance (corrections s a)))
      ∧ (InRange (b + balance (corrections s a)) →
        ((ocxoNext s a).dacVal.toNat : Int) = 2050 + 10 * (b + balance (corrections s a))) := by
  unfold DacOk
  rcases ocxoNext_dacVal s a with ⟨out, hcor, hdac⟩ | ⟨hcor, hdac⟩
  · rw [hcor, hdac]
    simpa [balance] using dacCorrect_iff hd hb out
  · rw [hcor, hdac]
    simp only [balance, List.map_nil, List.sum_nil, Int.add_zero]
    unfold InRange at *
    omega

theorem dacOk_run {s : Ocxo} {b : Int} (hd : (s.dacVal.toNat : Int) = 2050 + 10 * b)
    (hb : InRange b) (as : List OcxoAct) :
    Along ocxoNext DacOk s as
      ↔ ∀ pre, pre <+: as → InRange (b + balance (trace ocxoNext corrections s pre)) := by
  induction as generalizing s b with
  | nil =>
      constructor
      · rintro - pre hpre
        obtain rfl := List.prefix_nil.mp hpre
        simpa [balance] using hb
      · intro _
        trivial
  | cons a as ih =>
      obtain ⟨hiff, hnext⟩ := dacOk_step hd hb a
      have hsplit : ∀ pre, b + balance (trace ocxoNext corrections s (a :: pre))
          = b + balance (corrections s a)
            + balance (trace ocxoNext corrections (ocxoNext s a) pre) := by
        intro pre
        simp only [trace_cons, balance, List.map_append, List.sum_append]
        omega
      rw [along_cons, hiff]
      constructor
      · rintro ⟨hin, hrest⟩ pre hpre
        cases pre with
        | nil => simpa [balance] using hb
        | cons c pre =>
            obtain ⟨rfl, hpre'⟩ := List.cons_prefix_cons.mp hpre
            rw [hsplit]
            exact (ih (hnext hin) hin).mp hrest pre hpre'
      · intro h
        have hin : InRange (b + balance (corrections s a)) := by
          have := h [a] (List.cons_prefix_cons.mpr ⟨rfl, List.nil_prefix⟩)
          rw [hsplit] at this
          simpa [balance] using this
        refine ⟨hin, (ih (hnext hin) hin).mpr fun pre hpre => ?_⟩
        rw [← hsplit]
        exact h (a :: pre) (List.cons_prefix_cons.mpr ⟨rfl, hpre⟩)

/-- From start-up on the DAC value stays in its range, changing by at most 10,
exactly as long as the corrections down never outnumber those up by more than
205, nor those up the ones down by more than 204. -/
theorem dac_in_range_iff (as : List OcxoAct) :
    Along ocxoNext DacOk Ocxo.boot as
      ↔ ∀ pre, pre <+: as →
          -205 ≤ balance (trace ocxoNext corrections Ocxo.boot pre)
            ∧ balance (trace ocxoNext corrections Ocxo.boot pre) ≤ 204 := by
  have h := dacOk_run (s := Ocxo.boot) (b := 0) rfl ⟨by decide, by decide⟩ as
  simpa [InRange] using h

/-- Three pulses with the same count, and an iteration of the thread. -/
def agreeingSecond (cnt : Int32) : List OcxoAct :=
  [.pulse cnt, .pulse cnt, .pulse cnt] ++ List.replicate 8 .thread

/-- The oscillator runs fast for this many confirmed counts. -/
def fastOscillator (n : Nat) : List OcxoAct :=
  (List.replicate n (agreeingSecond 20000100)).flatten

/-- After 205 of them the DAC value is 0, and the next correction takes it to the
other end of its type. -/
theorem dac_wraps_below_zero :
    (run ocxoNext Ocxo.boot (fastOscillator 205)).dacVal = 0
      ∧ (run ocxoNext Ocxo.boot (fastOscillator 206)).dacVal = 65526 := by
  constructor <;> decide +kernel

/-! ## Confirmed counts -/

/-- The firmware with what is needed to judge a published count: the counts so
far, latest first, for how many pulses the slots have been filled in turn (since
start-up, or since `cntr_i` wrapped), whether slot 0 still holds the marker, and
whether the check under way is intact: its first read found the slots filled by
the last three pulses, and no pulse has changed a slot since. -/
structure OcxoMon where
  sys : Ocxo
  hist : List Int32
  inTurn : Nat
  marked : Bool
  intact : Bool

def ocxoMonNext (p : OcxoMon) : OcxoAct → OcxoMon
  | .pulse cnt =>
      { sys := extiCb cnt p.sys
        hist := cnt :: p.hist
        inTurn := p.sys.cntrI.toNat + 1
        marked := if p.sys.cntrI.toNat % 3 = 0 then false else p.marked
        intact := p.intact && p.sys.ocxoCntr (p.sys.cntrI.toNat % 3) = cnt }
  | .thread =>
      { p with
        sys := ocxoStep p.sys
        marked := p.marked || p.sys.pc = .mark
        intact :=
          match p.sys.pc with
          | .top => decide (3 ≤ p.inTurn) && !p.marked
          | .mark => false
          | _ => p.intact }

def OcxoMon.boot : OcxoMon where
  sys := Ocxo.boot
  hist := []
  inTurn := 0
  marked := false
  intact := false

/-- Three consecutive pulses measured `v`. -/
def Confirmed (v : Int32) (hist : List Int32) : Prop := [v, v, v] <:+: hist

instance (v : Int32) (hist : List Int32) : Decidable (Confirmed v hist) :=
  inferInstanceAs (Decidable (_ <:+: _))

/-- If the step publishes a count, it is confirmed. -/
def PublishOk (p : OcxoMon) (a : OcxoAct) : Prop :=
  a = .thread → p.sys.pc = .publish → Confirmed (ocxoStep p.sys).outOcxoCntr p.hist

instance (p : OcxoMon) (a : OcxoAct) : Decidable (PublishOk p a) :=
  inferInstanceAs (Decidable (_ → _))

/-- The three slots hold the same value. -/
def Ocxo.Agree (s : Ocxo) : Prop :=
  s.ocxoCntr 0 = s.ocxoCntr 1 ∧ s.ocxoCntr 1 = s.ocxoCntr 2

instance (s : Ocxo) : Decidable s.Agree := inferInstanceAs (Decidable (_ ∧ _))

/-- If the step publishes a count, the check before it is intact. It is not when it
started with the initial value in slot 2, with the marker in slot 0 or right after a
wrap of `cntr_i`, nor when a pulse has changed a slot since its first read. -/
def CheckOk (p : OcxoMon) (a : OcxoAct) : Prop :=
  a = .thread → p.sys.pc = .publish → p.intact = true

instance (p : OcxoMon) (a : OcxoAct) : Decidable (CheckOk p a) :=
  inferInstanceAs (Decidable (_ → _))

/-- Slot `(inTurn - 1 - k) % 3` holds the `k`-th last count, unless it is slot 0
with the marker in it. -/
structure SlotInv (p : OcxoMon) : Prop where
  turn : p.sys.cntrI.toNat = p.inTurn % 4294967296
  turn_le : p.inTurn ≤ 4294967296
  slot : ∀ k, k < 3 → k < p.inTurn →
    p.hist[k]? = some (p.sys.ocxoCntr ((p.inTurn - 1 - k) % 3))
      ∨ ((p.inTurn - 1 - k) % 3 = 0 ∧ p.marked = true)

theorem slotInv_pulse {p : OcxoMon} (h : SlotInv p) (cnt : Int32) :
    SlotInv (ocxoMonNext p (.pulse cnt)) := by
  have hlt : p.sys.cntrI.toNat < 4294967296 := p.sys.cntrI.toNat_lt
  have hone : (1 : UInt32).toNat = 1 := rfl
  refine ⟨?_, hlt, fun k hk hturn => ?_⟩
  · simp only [ocxoMonNext, extiCb, UInt32.toNat_add, hone]
  · simp only [ocxoMonNext, extiCb] at hturn ⊢
    cases k with
    | zero =>
        left
        rw [show p.sys.cntrI.toNat + 1 - 1 - 0 = p.sys.cntrI.toNat by omega, Function.update_self]
        rfl
    | succ k =>
        -- the counter has not wrapped since the slot was filled
        have hsame : p.sys.cntrI.toNat = p.inTurn := by
          have hturn' := h.turn
          have hle := h.turn_le
          omega
        rw [hsame] at hturn ⊢
        have hidx : p.inTurn + 1 - 1 - (k + 1) = p.inTurn - 1 - k := by omega
        have hne : (p.inTurn - 1 - k) % 3 ≠ p.inTurn % 3 := by omega
        rw [hidx, Function.update_of_ne hne, List.getElem?_cons_succ]
        rcases h.slot k (by omega) (by omega) with hslot | ⟨hzero, hmark⟩
        · exact Or.inl hslot
        · refine Or.inr ⟨hzero, ?_⟩
          rw [if_neg (by omega)]
          exact hmark

/-- The thread writes no slot but slot 0, with the marker. -/
theorem slotInv_thread {p : OcxoMon} (h : SlotInv p) : SlotInv (ocxoMonNext p .thread) := by
  by_cases hmark : p.sys.pc = .mark
  · have hstep : ocxoStep p.sys = { p.sys with
        ocxoCntr := Function.update p.sys.ocxoCntr 0 (-1), pc := .correct } := by
      simp only [ocxoStep, hmark]
    simp only [ocxoMonNext, hstep, hmark, decide_true, Bool.or_true]
    refine ⟨h.turn, h.turn_le, fun k hk hturn => ?_⟩
    by_cases hzero : (p.inTurn - 1 - k) % 3 = 0
    · exact Or.inr ⟨hzero, rfl⟩
    · rcases h.slot k hk hturn with hslot | ⟨hzero', -⟩
      · left
        simp only [Function.update_of_ne hzero]
        exact hslot
      · exact absurd hzero' hzero
  · have hslots : (ocxoStep p.sys).ocxoCntr = p.sys.ocxoCntr
        ∧ (ocxoStep p.sys).cntrI = p.sys.cntrI := by
      unfold ocxoStep
      split <;> first | exact ⟨rfl, rfl⟩ | exact absurd ‹_› hmark
    simp only [ocxoMonNext, hmark, decide_false, Bool.or_false]
    exact ⟨hslots.2 ▸ h.turn, h.turn_le, hslots.1 ▸ h.slot⟩

/-- Slots of the last three pulses that agree have been measured three times in
a row. -/
theorem confirmed_of_agree {p : OcxoMon} (h : SlotInv p) (hturn : 3 ≤ p.inTurn)
    (hmark : p.marked = false) (hagree : p.sys.Agree) : Confirmed (p.sys.ocxoCntr 0) p.hist := by
  have hall : ∀ i, i < 3 → p.sys.ocxoCntr i = p.sys.ocxoCntr 0 := by
    intro i hi
    obtain ⟨h01, h12⟩ := hagree
    rcases (show i = 0 ∨ i = 1 ∨ i = 2 by omega) with rfl | rfl | rfl
    · rfl
    · exact h01.symm
    · exact (h01.trans h12).symm
  have hget : ∀ k, k < 3 → p.hist[k]? = some (p.sys.ocxoCntr 0) := by
    intro k hk
    rcases h.slot k hk (by omega) with hslot | ⟨-, hmark'⟩
    · rw [hslot, hall _ (Nat.mod_lt _ (by decide))]
    · cases hmark.symm.trans hmark'
  have h0 := hget 0 (by decide)
  have h1 := hget 1 (by decide)
  have h2 := hget 2 (by decide)
  generalize p.sys.ocxoCntr 0 = v at h0 h1 h2 ⊢
  generalize p.hist = hist at h0 h1 h2 ⊢
  rcases hist with _ | ⟨a, _ | ⟨b, _ | ⟨c, rest⟩⟩⟩
  · cases h0
  · cases h1
  · cases h2
  · obtain rfl := Option.some.inj h0
    obtain rfl := Option.some.inj h1
    obtain rfl := Option.some.inj h2
    exact List.IsPrefix.isInfix ⟨rest, rfl⟩

/-- What a check has read so far is what the slots hold. -/
def Ocxo.ReadOk (s : Ocxo) : Prop :=
  match s.pc with
  | .cmp01 a => a = s.ocxoCntr 0
  | .read1 => s.ocxoCntr 0 = s.ocxoCntr 1
  | .cmp12 b => s.ocxoCntr 0 = s.ocxoCntr 1 ∧ b = s.ocxoCntr 1
  | .publish => s.Agree
  | _ => True

/-- During an intact check the slots are as at its start: agreement is backed by the
history, and nothing that has been read is out of date. -/
structure CheckInv (p : OcxoMon) : Prop where
  slots : SlotInv p
  backed : p.intact = true → p.sys.Agree → Confirmed (p.sys.ocxoCntr 0) p.hist
  read : p.intact = true → p.sys.ReadOk

theorem checkInv_pulse {p : OcxoMon} (h : CheckInv p) (cnt : Int32) :
    CheckInv (ocxoMonNext p (.pulse cnt)) := by
  -- the check stays intact when the pulse stores what is there already
  have hkeep : (ocxoMonNext p (.pulse cnt)).intact = true →
      p.intact = true ∧ extiCb cnt p.sys = { p.sys with cntrI := p.sys.cntrI + 1 } := by
    intro hintact
    obtain ⟨hp, hsame⟩ := Bool.and_eq_true_iff.mp hintact
    refine ⟨hp, ?_⟩
    rw [extiCb, ← of_decide_eq_true hsame, Function.update_eq_self]
  refine ⟨slotInv_pulse h.slots cnt, fun hintact hagree => ?_, fun hintact => ?_⟩
  · obtain ⟨hp, hsame⟩ := hkeep hintact
    simp only [ocxoMonNext, hsame] at hagree ⊢
    exact (h.backed hp hagree).trans (List.suffix_cons cnt p.hist).isInfix
  · obtain ⟨hp, hsame⟩ := hkeep hintact
    simp only [ocxoMonNext, hsame]
    exact h.read hp

theorem checkInv_thread {p : OcxoMon} (h : CheckInv p) : CheckInv (ocxoMonNext p .thread) := by
  have hslots := slotInv_thread h.slots
  obtain ⟨⟨ocxoCntr, cntrI, out, dac, pc⟩, hist, inTurn, marked, intact⟩ := p
  cases pc with
  | top =>
      -- the first read: agreement now is backed by the last three pulses
      refine ⟨hslots, fun hintact hagree => ?_, fun _ => rfl⟩
      obtain ⟨hturn, hmark⟩ := Bool.and_eq_true_iff.mp hintact
      have hconf := confirmed_of_agree h.slots (of_decide_eq_true hturn) (by simpa using hmark)
        hagree
      exact hconf
  | cmp01 a =>
      refine ⟨hslots, h.backed, fun hintact => ?_⟩
      obtain rfl : a = ocxoCntr 0 := h.read hintact
      by_cases heq : ocxoCntr 0 = ocxoCntr 1
      · simp only [ocxoMonNext, ocxoStep, if_pos heq]
        exact heq
      · simp only [ocxoMonNext, ocxoStep, if_neg heq]
        trivial
  | read1 => exact ⟨hslots, h.backed, fun hintact => ⟨h.read hintact, rfl⟩⟩
  | cmp12 b =>
      refine ⟨hslots, h.backed, fun hintact => ?_⟩
      obtain ⟨h01, rfl⟩ : ocxoCntr 0 = ocxoCntr 1 ∧ b = ocxoCntr 1 := h.read hintact
      by_cases heq : ocxoCntr 1 = ocxoCntr 2
      · simp only [ocxoMonNext, ocxoStep, if_pos heq]
        exact ⟨h01, heq⟩
      · simp only [ocxoMonNext, ocxoStep, if_neg heq]
        trivial
  | publish => exact ⟨hslots, h.backed, fun _ => trivial⟩
  | mark =>
      refine ⟨hslots, fun hintact => ?_, fun hintact => ?_⟩
      · cases hintact
      · cases hintact
  | correct => exact ⟨hslots, h.backed, fun _ => trivial⟩
  | sleep => exact ⟨hslots, h.backed, fun _ => trivial⟩

theorem checkInv_next {p : OcxoMon} (h : CheckInv p) (a : OcxoAct) :
    CheckInv (ocxoMonNext p a) := by
  cases a with
  | pulse cnt => exact checkInv_pulse h cnt
  | thread => exact checkInv_thread h

theorem checkInv_boot : CheckInv OcxoMon.boot := by
  refine ⟨⟨rfl, by decide, fun k _ hk => ?_⟩, fun hintact => ?_, fun _ => trivial⟩
  · exact absurd hk (Nat.not_lt_zero k)
  · cases hintact

/-- What an intact check publishes is what slot 0 has held all the time. -/
theorem publishOk_of_inv {p : OcxoMon} (h : CheckInv p) {a : OcxoAct} (hok : CheckOk p a) :
    PublishOk p a := by
  intro ha hpc
  have hintact := hok ha hpc
  have hread := h.read hintact
  have hout : (ocxoStep p.sys).outOcxoCntr = p.sys.ocxoCntr 0 := by
    simp only [ocxoStep, hpc]
  rw [Ocxo.ReadOk, hpc] at hread
  rw [hout]
  exact h.backed hintact hread

/-- In a run from start-up in which every check that publishes started with the slots
of the last three pulses, and no pulse changed a slot during it, every published
count is confirmed. Whenever a check has succeeded, a pulse with an unconfirmed
count for slot 0 that comes before the publishing read gets that count published. -/
theorem published_counts_confirmed (as : List OcxoAct)
    (hok : Along ocxoMonNext CheckOk OcxoMon.boot as) :
    Along ocxoMonNext PublishOk OcxoMon.boot as
      ∧ ∀ cnt, (run ocxoMonNext OcxoMon.boot as).sys.pc = .publish →
          (run ocxoMonNext OcxoMon.boot as).sys.cntrI.toNat % 3 = 0 →
          ¬ Confirmed cnt (cnt :: (run ocxoMonNext OcxoMon.boot as).hist) →
          ¬ Along ocxoMonNext PublishOk OcxoMon.boot (as ++ [.pulse cnt, .thread]) := by
  constructor
  · exact along_of_invariant (I := CheckInv) (fun _ a h _ => checkInv_next h a)
      (fun _ _ h ha => publishOk_of_inv h ha) checkInv_boot hok
  · intro cnt hpc hslot hun halong
    obtain ⟨-, -, hpub, -⟩ := (along_append _ _ _).mp halong
    generalize run ocxoMonNext OcxoMon.boot as = p at *
    have hconf := hpub rfl hpc
    simp only [ocxoMonNext, extiCb, ocxoStep, hpc, hslot, Function.update_self] at hconf
    exact hun hconf

/-- Three pulses of a nominal second, and a check. -/
theorem published_counts_confirmed_nominal :
    Along ocxoMonNext PublishOk OcxoMon.boot (agreeingSecond 20000000) :=
  (published_counts_confirmed (agreeingSecond 20000000) (by decide +kernel)).1

/-- The count 20000050 arrives between the comparison of three counts of 20000000
and the read that publishes: it is published after one pulse. -/
theorem unconfirmed_count_published :
    ¬ Along ocxoMonNext PublishOk OcxoMon.boot
      ([.pulse 20000000, .pulse 20000000, .pulse 20000000] ++ List.replicate 4 .thread
        ++ [.pulse 20000050, .thread]) := by
  decide +kernel

end Seatel
