import Mathlib.Data.List.Basic
import Seatel.Ocxo

/-!
# The pulses behind a correction

The correction block of the OCXO thread runs when the three slots agree,
and marks its measurement as used by writing -1 into slot 0. Slots 1 and 2
keep their counts, so a correction can rest on pulses that an earlier one
has used already: after three equal counts, a single equal pulse for slot 0
is enough.

Here an iteration of the thread is one step (`ocxoIteration`, tied to the
single accesses by `run_iterations`). `PulseMon` numbers the pulses and
keeps which pulse each slot holds. No pulse is used twice exactly in the
runs in which slots 1 and 2 are both filled again before the slots agree
again (`pulses_used_once_iff`).
-/

namespace Seatel

open Runs

inductive IterAct where
  /-- `exti_cb` with this timer count. -/
  | pulse (cnt : Int32)
  /-- A whole iteration of the thread. -/
  | iteration
deriving Repr, DecidableEq

/-- An iteration no pulse falls into. -/
def ocxoIteration (s : Ocxo) : Ocxo :=
  if s.Agree then
    { s with
      outOcxoCntr := s.ocxoCntr 0
      ocxoCntr := Function.update s.ocxoCntr 0 (-1)
      dacVal := dacCorrect (s.ocxoCntr 0) s.dacVal }
  else s

def iterNext (s : Ocxo) : IterAct → Ocxo
  | .pulse cnt => extiCb cnt s
  | .iteration => ocxoIteration s

theorem iterNext_pc (s : Ocxo) (a : IterAct) : (iterNext s a).pc = s.pc := by
  cases a with
  | pulse cnt => rfl
  | iteration =>
      simp only [iterNext, ocxoIteration]
      split <;> rfl

/-- The accesses of an iteration: three or five when a comparison fails, else all
eight. -/
theorem ocxoIteration_accesses {s : Ocxo} (hpc : s.pc = .top) :
    ∃ n, run ocxoNext s (List.replicate n .thread) = ocxoIteration s := by
  obtain ⟨ocxoCntr, cntrI, out, dac, pc⟩ := s
  cases hpc
  by_cases h01 : ocxoCntr 0 = ocxoCntr 1
  · by_cases h12 : ocxoCntr 1 = ocxoCntr 2
    · refine ⟨8, ?_⟩
      simp [List.replicate, ocxoNext, ocxoStep, ocxoIteration, Ocxo.Agree, h01, h12]
    · refine ⟨5, ?_⟩
      simp [List.replicate, ocxoNext, ocxoStep, ocxoIteration, Ocxo.Agree, h01, h12]
  · refine ⟨3, ?_⟩
    simp [List.replicate, ocxoNext, ocxoStep, ocxoIteration, Ocxo.Agree, h01]

/-- A run of iterations is a run of accesses. -/
theorem run_iterations {s : Ocxo} (hpc : s.pc = .top) (as : List IterAct) :
    ∃ bs, run ocxoNext s bs = run iterNext s as := by
  have hstep : ∀ (s t : Ocxo) (a : IterAct), s.pc = .top ∧ s = t →
      ∃ bs, (iterNext s a).pc = .top ∧ iterNext s a = run ocxoNext t bs := by
    rintro s _ a ⟨hpc, rfl⟩
    have hpc' := (iterNext_pc s a).trans hpc
    cases a with
    | pulse cnt => exact ⟨[.pulse cnt], hpc', rfl⟩
    | iteration =>
        obtain ⟨n, hn⟩ := ocxoIteration_accesses hpc
        exact ⟨List.replicate n .thread, hpc', hn.symm⟩
  obtain ⟨bs, -, hbs⟩ := run_simulates (R := fun s t : Ocxo => s.pc = .top ∧ s = t) hstep
    ⟨hpc, rfl⟩ as
  exact ⟨bs, hbs.symm⟩

/-! ## The monitor -/

/-- The firmware, with a number for every pulse. -/
structure PulseMon where
  sys : Ocxo
  /-- How many pulses there were; the next pulse gets this number. -/
  count : Nat
  /-- The pulse whose count a slot holds, if it is a count. -/
  src : Nat → Option Nat
  /-- The pulses behind each execution of the correction block, latest first. -/
  used : List (List Nat)
  /-- `count` at the latest execution. -/
  since : Nat
  /-- The slots a pulse has filled after the latest execution. -/
  refilled : Nat → Bool

/-- The pulses the slots hold. -/
def PulseMon.measured (p : PulseMon) : List Nat := [0, 1, 2].filterMap p.src

def pulseMonNext (p : PulseMon) : IterAct → PulseMon
  | .pulse cnt =>
      { p with
        sys := iterNext p.sys (.pulse cnt)
        count := p.count + 1
        src := Function.update p.src (p.sys.cntrI.toNat % 3) (some p.count)
        refilled := Function.update p.refilled (p.sys.cntrI.toNat % 3) true }
  | .iteration =>
      if p.sys.Agree then
        { p with
          sys := iterNext p.sys .iteration
          src := Function.update p.src 0 none
          used := p.measured :: p.used
          since := p.count
          refilled := fun _ => false }
      else { p with sys := iterNext p.sys .iteration }

def PulseMon.boot : PulseMon where
  sys := Ocxo.boot
  count := 0
  src _ := none
  used := []
  since := 0
  refilled _ := false

/-- If the step executes the correction block, it does so on pulses that no earlier
execution has used and that came after the latest one; no triple comes back. -/
def UsesFresh (p : PulseMon) (a : IterAct) : Prop :=
  a = .iteration → p.sys.Agree →
    (∀ u ∈ p.used, u.Disjoint p.measured) ∧ (∀ n ∈ p.measured, p.since ≤ n) ∧ p.measured ∉ p.used

instance (p : PulseMon) (a : IterAct) : Decidable (UsesFresh p a) :=
  inferInstanceAs (Decidable (_ → _ → (∀ u ∈ p.used, ∀ n, n ∈ u → n ∈ p.measured → False) ∧ _))

/-- When the slots agree again, slots 1 and 2 have both been filled again. -/
def RefilledOk (p : PulseMon) (a : IterAct) : Prop :=
  a = .iteration → p.sys.Agree → p.used ≠ [] → p.refilled 1 = true ∧ p.refilled 2 = true

instance (p : PulseMon) (a : IterAct) : Decidable (RefilledOk p a) :=
  inferInstanceAs (Decidable (_ → _))

/-! ## The invariant -/

/-- What the slots hold besides counts: slot 1 its initial value before the second
pulse, slot 2 its own before the third, with the marker in slot 0 once the block has
run. -/
structure InitialSlots (p : PulseMon) : Prop where
  slot1 : p.src 1 = none → p.sys.cntrI.toNat ≤ 1 ∧ p.sys.ocxoCntr 1 = 1 ∧ p.src 2 = none
  slot2 : p.src 2 = none → p.sys.cntrI.toNat ≤ 2 ∧ p.sys.ocxoCntr 2 = 2
    ∧ (p.src 1 ≠ none → p.sys.cntrI.toNat = 2)
    ∧ (p.used ≠ [] → p.src 1 ≠ none ∧ p.sys.ocxoCntr 0 = -1)

/-- A slot that was filled again holds a pulse after the latest execution, a slot
that was not, one of the pulses that execution has used. -/
structure PulseInv (p : PulseMon) : Prop where
  initial : InitialSlots p
  filled : ∀ i n, p.refilled i = true → p.src i = some n → p.since ≤ n
  marker : p.used ≠ [] → p.refilled 0 = false → p.src 0 = none
  kept : ∀ i n, i ≤ 2 → p.refilled i = false → p.src i = some n → ∀ u ∈ p.used.head?, n ∈ u
  counted : ∀ i n, p.src i = some n → n < p.count
  since_le : p.since ≤ p.count
  spent : ∀ u ∈ p.used, ∀ n ∈ u, n < p.since
  fresh : p.used = [] → p.since = 0

theorem mem_measured {p : PulseMon} {n : Nat} :
    n ∈ p.measured ↔ ∃ i, i ≤ 2 ∧ p.src i = some n := by
  rw [PulseMon.measured, List.mem_filterMap]
  constructor
  · rintro ⟨i, hi, hsrc⟩
    refine ⟨i, ?_, hsrc⟩
    simp only [List.mem_cons, List.not_mem_nil, or_false] at hi
    omega
  · rintro ⟨i, hi, hsrc⟩
    refine ⟨i, ?_, hsrc⟩
    simp only [List.mem_cons, List.not_mem_nil, or_false]
    omega

/-- Slots that agree hold a pulse in slot 1, and in slot 2 if the block has run
before. -/
theorem InitialSlots.src_of_agree {p : PulseMon} (h : InitialSlots p) (hagree : p.sys.Agree) :
    (∃ n, p.src 1 = some n) ∧ (p.used ≠ [] → ∃ n, p.src 2 = some n) := by
  obtain ⟨h01, h12⟩ := hagree
  constructor
  · cases h1 : p.src 1 with
    | some n => exact ⟨n, rfl⟩
    | none =>
        obtain ⟨-, hslot1, h2⟩ := h.slot1 h1
        obtain ⟨-, hslot2, -, -⟩ := h.slot2 h2
        rw [hslot1, hslot2] at h12
        cases h12
  · intro hused
    cases h2 : p.src 2 with
    | some n => exact ⟨n, rfl⟩
    | none =>
        obtain ⟨-, hslot2, -, hmark⟩ := h.slot2 h2
        rw [(hmark hused).2, h12, hslot2] at h01
        cases h01

/-- A slot without a count is not the one that a pulse fills. -/
theorem src_pulse_none {p : PulseMon} {cnt : Int32} {i : Nat}
    (h : (pulseMonNext p (.pulse cnt)).src i = none) :
    i ≠ p.sys.cntrI.toNat % 3 ∧ p.src i = none := by
  simp only [pulseMonNext, Function.update_apply] at h
  split at h
  · cases h
  · rename_i hne
    exact ⟨hne, h⟩

theorem initialSlots_pulse {p : PulseMon} (h : InitialSlots p) (cnt : Int32) :
    InitialSlots (pulseMonNext p (.pulse cnt)) := by
  have hnext : ∀ k, p.sys.cntrI.toNat = k → k ≤ 2 → (p.sys.cntrI + 1).toNat = k + 1 := by
    intro k hk hle
    have hone : (1 : UInt32).toNat = 1 := rfl
    rw [UInt32.toNat_add, hone]
    omega
  constructor
  · intro hsrc
    obtain ⟨hne, hsrc⟩ := src_pulse_none hsrc
    obtain ⟨hle, hslot, hsrc2⟩ := h.slot1 hsrc
    have hzero : p.sys.cntrI.toNat = 0 := by omega
    simp [pulseMonNext, iterNext, extiCb, hnext 0 hzero (by decide), hzero, hslot, hsrc2]
  · intro hsrc
    obtain ⟨hne, hsrc⟩ := src_pulse_none hsrc
    obtain ⟨hle, hslot, hsrc1, hmark⟩ := h.slot2 hsrc
    have hfirst : p.src 1 = none := by
      by_contra hsome
      have htwo := hsrc1 hsome
      omega
    have hused : ¬ p.used ≠ [] := fun hused => (hmark hused).1 hfirst
    rcases (show p.sys.cntrI.toNat = 0 ∨ p.sys.cntrI.toNat = 1 by omega) with hzero | hone
    · simp [pulseMonNext, iterNext, extiCb, hnext 0 hzero (by decide), hzero, hslot, hfirst, hused]
    · simp [pulseMonNext, iterNext, extiCb, hnext 1 hone (by decide), hone, hslot, hused]

theorem initialSlots_iteration {p : PulseMon} (h : InitialSlots p) :
    InitialSlots (pulseMonNext p .iteration) := by
  by_cases hagree : p.sys.Agree
  · obtain ⟨⟨n, hn⟩, -⟩ := h.src_of_agree hagree
    simp only [pulseMonNext, iterNext, ocxoIteration, if_pos hagree]
    constructor
    · intro hsrc
      simp [hn] at hsrc
    · intro hsrc
      simp only [Function.update_apply] at hsrc ⊢
      obtain ⟨hle, hslot, hsrc1, -⟩ := h.slot2 hsrc
      exact ⟨hle, hslot, fun _ => hsrc1 (by simp [hn]), fun _ => ⟨by simp [hn], rfl⟩⟩
  · simp only [pulseMonNext, iterNext, ocxoIteration, if_neg hagree]
    exact ⟨h.slot1, h.slot2⟩

theorem pulseInv_pulse {p : PulseMon} (h : PulseInv p) (cnt : Int32) :
    PulseInv (pulseMonNext p (.pulse cnt)) := by
  refine ⟨initialSlots_pulse h.initial cnt, ?_, ?_, ?_, ?_, ?_, h.spent, h.fresh⟩
  all_goals simp only [pulseMonNext, Function.update_apply]
  · intro i n hfill hsrc
    split at hsrc
    · obtain rfl := Option.some.inj hsrc
      exact h.since_le
    · rename_i hne
      rw [if_neg hne] at hfill
      exact h.filled i n hfill hsrc
  · intro hused hfill
    split at hfill
    · cases hfill
    · rename_i hne
      rw [if_neg hne]
      exact h.marker hused hfill
  · intro i n hi hfill hsrc
    split at hfill
    · cases hfill
    · rename_i hne
      rw [if_neg hne] at hsrc
      exact h.kept i n hi hfill hsrc
  · intro i n hsrc
    split at hsrc
    · obtain rfl := Option.some.inj hsrc
      exact Nat.lt_succ_self _
    · exact Nat.lt_succ_of_lt (h.counted i n hsrc)
  · exact Nat.le_succ_of_le h.since_le

/-- After an execution every slot but slot 0 still holds a pulse it has used. -/
theorem pulseInv_iteration {p : PulseMon} (h : PulseInv p) :
    PulseInv (pulseMonNext p .iteration) := by
  have hinit := initialSlots_iteration h.initial
  by_cases hagree : p.sys.Agree
  · have hlast : ∀ n ∈ p.measured, n < p.count := by
      intro n hn
      obtain ⟨i, -, hsrc⟩ := mem_measured.mp hn
      exact h.counted i n hsrc
    simp only [pulseMonNext, if_pos hagree] at hinit ⊢
    have hslot : ∀ i n, Function.update p.src 0 none i = some n → p.src i = some n := by
      intro i n hsrc
      simp only [Function.update_apply] at hsrc
      split at hsrc
      · cases hsrc
      · exact hsrc
    refine ⟨hinit, ?_, fun _ _ => by simp, ?_, ?_, le_rfl, ?_, ?_⟩
    · intro i n hfill
      cases hfill
    · intro i n hi _ hsrc u hu
      obtain rfl := Option.some.inj hu
      exact mem_measured.mpr ⟨i, hi, hslot i n hsrc⟩
    · intro i n hsrc
      exact h.counted i n (hslot i n hsrc)
    · intro u hu n hn
      rcases List.mem_cons.mp hu with rfl | hu
      · exact hlast n hn
      · exact lt_of_lt_of_le (h.spent u hu n hn) h.since_le
    · intro hnil
      cases hnil
  · simp only [pulseMonNext, if_neg hagree] at hinit ⊢
    exact ⟨hinit, h.filled, h.marker, h.kept, h.counted, h.since_le, h.spent, h.fresh⟩

theorem pulseInv_boot : PulseInv PulseMon.boot where
  initial := ⟨fun _ => ⟨by decide, rfl, rfl⟩, fun _ => ⟨by decide, rfl, fun h => absurd rfl h,
    fun h => absurd rfl h⟩⟩
  filled _ _ hfill := by cases hfill
  marker hused := absurd rfl hused
  kept _ _ _ _ hsrc := by cases hsrc
  counted _ _ hsrc := by cases hsrc
  since_le := le_rfl
  spent u hu := by cases hu
  fresh _ := rfl

/-! ## Used once -/

/-- With slots 1 and 2 filled again, all the slots hold is new. -/
theorem since_le_of_refilled {p : PulseMon} (h : PulseInv p) (hused : p.used ≠ [])
    (h1 : p.refilled 1 = true) (h2 : p.refilled 2 = true) {n : Nat} (hn : n ∈ p.measured) :
    p.since ≤ n := by
  obtain ⟨i, hi, hsrc⟩ := mem_measured.mp hn
  rcases (show i = 0 ∨ i = 1 ∨ i = 2 by omega) with rfl | rfl | rfl
  · cases h0 : p.refilled 0 with
    | true => exact h.filled 0 n h0 hsrc
    | false =>
        rw [h.marker hused h0] at hsrc
        cases hsrc
  · exact h.filled 1 n h1 hsrc
  · exact h.filled 2 n h2 hsrc

/-- A slot that was not filled again brings a pulse of the latest execution back. -/
theorem refilled_of_disjoint {p : PulseMon} (h : PulseInv p) (hused : p.used ≠ [])
    (hdisj : ∀ u ∈ p.used, u.Disjoint p.measured) {i n : Nat} (hi : i ≤ 2)
    (hsrc : p.src i = some n) : p.refilled i = true := by
  cases hfill : p.refilled i with
  | true => rfl
  | false =>
      obtain ⟨u, us, hcons⟩ := List.exists_cons_of_ne_nil hused
      have hn : n ∈ u := h.kept i n hi hfill hsrc u (by rw [hcons]; rfl)
      have hu : u ∈ p.used := by rw [hcons]; exact List.mem_cons_self
      exact absurd (mem_measured.mpr ⟨i, hi, hsrc⟩) (hdisj u hu hn)

theorem usesFresh_iff {p : PulseMon} (h : PulseInv p) (a : IterAct) :
    UsesFresh p a ↔ RefilledOk p a := by
  refine forall_congr' fun _ => forall_congr' fun hagree => ?_
  obtain ⟨⟨n₁, hn₁⟩, hsrc2⟩ := h.initial.src_of_agree hagree
  constructor
  · rintro ⟨hdisj, -, -⟩ hused
    obtain ⟨n₂, hn₂⟩ := hsrc2 hused
    exact ⟨refilled_of_disjoint h hused hdisj (by decide) hn₁,
      refilled_of_disjoint h hused hdisj le_rfl hn₂⟩
  · intro hfill
    have hsince : ∀ n ∈ p.measured, p.since ≤ n := by
      intro n hn
      by_cases hused : p.used = []
      · rw [h.fresh hused]
        exact Nat.zero_le n
      · obtain ⟨h1, h2⟩ := hfill hused
        exact since_le_of_refilled h hused h1 h2 hn
    have hdisj : ∀ u ∈ p.used, u.Disjoint p.measured := by
      intro u hu n hn hn'
      exact absurd (hsince n hn') (Nat.not_le.mpr (h.spent u hu n hn))
    refine ⟨hdisj, hsince, fun hmem => ?_⟩
    have hn : n₁ ∈ p.measured := mem_measured.mpr ⟨1, by decide, hn₁⟩
    exact hdisj _ hmem hn hn

/-- From start-up on, for every sequence of pulses and iterations: no execution of
the correction block uses a pulse that an earlier one has used, or one from before
the latest execution, exactly when slots 1 and 2 are both filled again whenever the
slots agree again. -/
theorem pulses_used_once_iff (as : List IterAct) :
    Along pulseMonNext UsesFresh PulseMon.boot as
      ↔ Along pulseMonNext RefilledOk PulseMon.boot as := by
  refine along_congr_of_invariant (I := PulseInv) (P := fun _ _ => True) ?_ ?_ pulseInv_boot ?_
  · intro p a h _
    cases a with
    | pulse cnt => exact pulseInv_pulse h cnt
    | iteration => exact pulseInv_iteration h
  · intro p a h _
    exact usesFresh_iff h a
  · exact along_true PulseMon.boot as

/-- An oscillator at its nominal frequency: after three equal counts the fourth pulse
triggers the block again, with the second and the third behind it once more. -/
theorem pulses_used_twice :
    ¬ Along pulseMonNext UsesFresh PulseMon.boot
      [.pulse 20000000, .pulse 20000000, .pulse 20000000, .iteration, .pulse 20000000,
        .iteration] := by
  decide +kernel

end Seatel
