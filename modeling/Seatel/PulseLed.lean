import Seatel.Platform
import Seatel.Runs

/-!
# The pulse of the GPS receiver

The interrupt of the 1PPS input stamps the time and switches an LED on; the
OCXO thread, in its iterations, switches it off once the stamp is older than
100 ms. `get_gps_data` compares the same stamp with the time again and gives
the mark on the dashboard for 200 ms.

Both compare times that wrap after 2^32 ticks. The LED is not fooled as long
as the thread runs: it is switched off long before, and nothing but a pulse
switches it on. The mark has no such memory. It comes back for 200 ms every
11 h 56 min without a pulse, and the first time right after the start
(`pulse_shown_iff`).

A test and a look at the mark read the clock and the stamp in one step here;
a pulse between the two reads is left out.
-/

namespace Seatel

open Runs CInt

/-- `last_pulse` and the LED, with the real time in ticks and the result of the test that the
thread is about to act on. For the statements below, when the last pulse was, and when the LED
was last looked after, by a pulse or a test. -/
structure Pps where
  time : Nat
  lastPulse : SysTime
  led : Bool
  found : Option Bool
  pulseAt : Option Nat
  seenAt : Nat
deriving Repr, DecidableEq

inductive PpsAct where
  /-- time passes -/
  | tick (n : Nat)
  /-- `exti_cb` -/
  | exti
  /-- the OCXO thread tests the stamp, or switches the LED off if it was too old -/
  | ocxo
deriving Repr, DecidableEq

/-- `TIME_I2MS(chVTGetSystemTimeX()-last_pulse)`. -/
def Pps.age (s : Pps) : UInt32 := timeI2Ms (UInt32.ofNat s.time - s.lastPulse)

def ppsNext (s : Pps) : PpsAct → Pps
  | .tick n => { s with time := s.time + n }
  | .exti =>
      { s with
        lastPulse := UInt32.ofNat s.time
        led := true
        pulseAt := some s.time
        seenAt := s.time }
  | .ocxo =>
      match s.found with
      | none => { s with found := some (s.age > 100), seenAt := s.time }
      | some old => { s with led := if old then false else s.led, found := none }

/-- `pulse` in `get_gps_data`. -/
def Pps.mark (s : Pps) : Bool := s.age ≤ 200

def Pps.boot : Pps := ⟨0, 0, false, none, none, 0⟩

/-- The thread comes back before the age of the stamp can wrap, and no pulse comes between a
test that finds it too old and the LED. -/
def InTime (s : Pps) : PpsAct → Prop
  | .tick _ => True
  | .exti => s.found ≠ some true
  | .ocxo => s.time - s.seenAt < 4294957296

instance (s : Pps) (a : PpsAct) : Decidable (InTime s a) :=
  match a with
  | .tick _ => .isTrue trivial
  | .exti => inferInstanceAs (Decidable (s.found ≠ some true))
  | .ocxo => inferInstanceAs (Decidable (s.time - s.seenAt < 4294957296))

/-! ## The stamp -/

/-- The stamp is that of the last pulse, or of the start. -/
structure Stamped (s : Pps) : Prop where
  stamp : s.lastPulse = UInt32.ofNat (s.pulseAt.getD 0)
  le : s.pulseAt.getD 0 ≤ s.seenAt
  seen : s.seenAt ≤ s.time

theorem Stamped.age {s : Pps} (h : Stamped s) :
    s.age.toNat = ((s.time - s.pulseAt.getD 0) % 4294967296 + 99) / 100 := by
  have hle : s.pulseAt.getD 0 ≤ s.time := h.le.trans h.seen
  rw [Pps.age, h.stamp, timeI2Ms, UInt32.toNat_ofNat', toNat_sub_ofNat32 hle, chCfgStFrequency]
  omega

theorem stamped_next {s : Pps} (h : Stamped s) (a : PpsAct) : Stamped (ppsNext s a) := by
  cases a with
  | tick n => exact ⟨h.stamp, h.le, Nat.le_add_right_of_le h.seen⟩
  | exti => exact ⟨rfl, Nat.le_refl _, Nat.le_refl _⟩
  | ocxo =>
      rw [ppsNext]
      split
      · exact ⟨h.stamp, h.le.trans h.seen, Nat.le_refl _⟩
      · exact ⟨h.stamp, h.le, h.seen⟩

theorem Stamped.boot : Stamped Pps.boot := ⟨rfl, Nat.le_refl _, Nat.le_refl _⟩

/-! ## The LED -/

/-- The last pulse was at most 100 ms before `t`. -/
def Pps.YoungAt (s : Pps) (t : Nat) : Prop := ∃ p, s.pulseAt = some p ∧ t - p ≤ 10000

/-- The LED tells the truth about the moment in which it was last looked after, unless it is
about to be switched off. -/
structure LedInv (s : Pps) : Prop where
  stamped : Stamped s
  truth : s.found ≠ some true → (s.led = true ↔ s.YoungAt s.seenAt)
  old : s.found = some true → ¬ s.YoungAt s.seenAt

theorem youngAt_mono {s : Pps} {t u : Nat} (hle : t ≤ u) (h : s.YoungAt u) : s.YoungAt t := by
  obtain ⟨p, hp, hpu⟩ := h
  exact ⟨p, hp, by omega⟩

/-- A stamp that was young when it was last looked at is found old exactly when it is. -/
theorem age_iff {s : Pps} (h : Stamped s) (hin : s.time - s.seenAt < 4294957296)
    (hyoung : s.YoungAt s.seenAt) : s.age > 100 ↔ ¬ s.YoungAt s.time := by
  obtain ⟨p, hp, hle⟩ := hyoung
  have hage := h.age
  have hpast := h.le
  have hseen := h.seen
  rw [hp, Option.getD_some] at hage hpast
  have htime : s.YoungAt s.time ↔ s.time - p ≤ 10000 := by
    rw [Pps.YoungAt, hp]
    exact ⟨fun ⟨q, hq, hle⟩ => by rwa [Option.some.inj hq], fun hle => ⟨p, rfl, hle⟩⟩
  rw [htime]
  change (100 : UInt32).toNat < s.age.toNat ↔ _
  rw [hage]
  change 100 < _ ↔ _
  omega

theorem ledInv_ocxo {s : Pps} (h : LedInv s) (hin : s.time - s.seenAt < 4294957296) :
    LedInv (ppsNext s .ocxo) := by
  have hst := stamped_next h.stamped .ocxo
  rw [ppsNext] at hst ⊢
  cases hfound : s.found with
  | none =>
      rw [hfound] at hst
      have hled := h.truth (by rw [hfound]; simp)
      refine ⟨hst, fun hno => ?_, fun hold => ?_⟩
      · have hage : ¬ s.age > 100 := fun hgt => hno (congrArg some (decide_eq_true hgt))
        change s.led = true ↔ s.YoungAt s.time
        rw [hled]
        refine ⟨fun hyoung => ?_, youngAt_mono h.stamped.seen⟩
        by_contra hold
        exact hage ((age_iff h.stamped hin hyoung).mpr hold)
      · have hage : s.age > 100 := of_decide_eq_true (Option.some.inj hold)
        change ¬ s.YoungAt s.time
        intro hyoung
        exact (age_iff h.stamped hin (youngAt_mono h.stamped.seen hyoung)).mp hage hyoung
  | some old =>
      rw [hfound] at hst
      refine ⟨hst, fun _ => ?_, fun hno => (nomatch hno)⟩
      change (if old then false else s.led) = true ↔ s.YoungAt s.seenAt
      cases old with
      | true => exact ⟨fun hno => (nomatch hno), fun hyoung => absurd hyoung (h.old hfound)⟩
      | false => exact h.truth (by rw [hfound]; simp)

theorem ledInv_next {s : Pps} {a : PpsAct} (h : LedInv s) (hin : InTime s a) :
    LedInv (ppsNext s a) := by
  cases a with
  | tick n => exact ⟨stamped_next h.stamped (.tick n), h.truth, h.old⟩
  | exti =>
      refine ⟨stamped_next h.stamped .exti, fun _ => ?_, fun hold => absurd hold hin⟩
      refine ⟨fun _ => ⟨s.time, rfl, ?_⟩, fun _ => rfl⟩
      rw [ppsNext, Nat.sub_self]
      exact Nat.zero_le _
  | ocxo => exact ledInv_ocxo h hin

/-- In every run in which the OCXO thread comes back within 2^32 - 10000 ticks and no pulse comes
between its test and the LED: the LED is on, unless the thread is about to switch it off, exactly
when the last pulse was at most 100 ms old when the LED was last looked after. In every run, the
mark is shown exactly when the time since the last pulse, or since the start before the first
one, is at most 200 ms more than a multiple of 2^32 ticks. -/
theorem pulse_shown_iff (as : List PpsAct) :
    (Along ppsNext InTime Pps.boot as → (run ppsNext Pps.boot as).found ≠ some true →
      ((run ppsNext Pps.boot as).led = true
        ↔ (run ppsNext Pps.boot as).YoungAt (run ppsNext Pps.boot as).seenAt))
    ∧ ((run ppsNext Pps.boot as).mark = true
      ↔ ((run ppsNext Pps.boot as).time - (run ppsNext Pps.boot as).pulseAt.getD 0) % 4294967296
          ≤ 20000) := by
  have hst : Stamped (run ppsNext Pps.boot as) :=
    run_invariant_always (I := Stamped) (fun _ a h => stamped_next h a) Stamped.boot as
  constructor
  · intro hin
    have hboot : LedInv Pps.boot := by
      refine ⟨Stamped.boot, fun _ => ?_, fun hno => (nomatch hno)⟩
      exact ⟨fun hno => (nomatch hno), fun ⟨_, hp, _⟩ => (nomatch hp)⟩
    exact (run_invariant (fun _ _ h ha => ledInv_next h ha) hboot hin).truth
  · rw [Pps.mark, decide_eq_true_eq]
    change (run ppsNext Pps.boot as).age.toNat ≤ 200 ↔ _
    rw [hst.age]
    omega

/-- A pulse after one second, and an iteration 10 ms later. -/
theorem pulse_shown_iff_on :
    (run ppsNext Pps.boot [.tick 100000, .exti, .tick 1000, .ocxo, .ocxo]).led = true
      ∧ (run ppsNext Pps.boot [.tick 100000, .exti, .tick 1000, .ocxo, .ocxo]).mark = true := by
  have hboth := pulse_shown_iff [.tick 100000, .exti, .tick 1000, .ocxo, .ocxo]
  have hin : Along ppsNext InTime Pps.boot [.tick 100000, .exti, .tick 1000, .ocxo, .ocxo] := by
    decide +kernel
  have hyoung : (101000 - 100000 : Nat) ≤ 10000 := by decide
  refine ⟨(hboth.1 hin (by decide +kernel)).mpr ⟨100000, rfl, hyoung⟩, hboth.2.mpr ?_⟩
  decide +kernel

/-- The mark without a pulse, when the counter has wrapped. -/
example : (run ppsNext Pps.boot [.tick 4294967296]).mark = true := by
  decide +kernel

end Seatel
