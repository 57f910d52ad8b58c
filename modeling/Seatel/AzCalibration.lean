import Seatel.System

/-!
# The end of an azimuth calibration

While a calibration rotates, every iteration compares the encoder with
what the iteration before has seen and stops when it has become smaller,
which is taken for the overflow from 65535 to 0. `old_az` starts at 0, so
that the first iteration never stops.

The encoder also becomes smaller when it goes back by a count. The
monitor keeps the reading of the iteration before (`CalMon.seen`); the
decision is the right one exactly as long as no iteration sees a step
back that stays on its side of the index (`calibration_ends_iff`).
-/

namespace Seatel

open Runs CInt

/-- The encoder went forward across 65535 → 0. -/
def CrossedIndex (old az : UInt16) : Prop := 0 < circDiff old az ∧ az < old

instance (old az : UInt16) : Decidable (CrossedIndex old az) := inferInstanceAs (Decidable (_ ∧ _))

/-- The encoder went back without crossing the index. -/
def SteppedBack (old az : UInt16) : Prop := circDiff old az < 0 ∧ az < old

instance (old az : UInt16) : Decidable (SteppedBack old az) := inferInstanceAs (Decidable (_ ∧ _))

/-- The firmware, and the encoder as the last iteration has seen it since constant
speed was entered. -/
structure CalMon where
  sys : Sys
  seen : Option UInt16

def calMonNext (fpu : Fpu) (m : CalMon) (a : Act) : CalMon where
  sys := sysNext fpu m.sys a
  seen := if a = .ctrl then some m.sys.vars.mde.encAz else m.seen

/-- The calibration sleep ends and constant speed is entered. -/
def calEntered (fpu : Fpu) (s : Sys) : CalMon := ⟨sysNext fpu s .ctrl, none⟩

/-- No azimuth command, no failsafe, and less than half a turn between two
iterations. -/
def CalQuiet (m : CalMon) : Act → Prop
  | .req r => commandFor .az r = false
  | .ctrl => failsafe m.sys.vars.imu = false
      ∧ ∀ old ∈ m.seen, (circDiff old m.sys.vars.mde.encAz).natAbs < 32768
  | _ => True

instance (m : CalMon) : (a : Act) → Decidable (CalQuiet m a)
  | .req r => inferInstanceAs (Decidable (commandFor .az r = false))
  | .ctrl => @instDecidableAnd _ _ inferInstance (Option.decidableForallMem _)
  | .mde _ => inferInstanceAs (Decidable True)
  | .imu _ => inferInstanceAs (Decidable True)
  | .tick _ => inferInstanceAs (Decidable True)

/-- The encoder crossed the index since the last iteration. -/
def CalMon.Crossed (m : CalMon) : Prop := ∃ old ∈ m.seen, CrossedIndex old m.sys.vars.mde.encAz

/-- An iteration of a calibration owes its end when the index was crossed, and else
that it goes on. -/
def CalStepOk (fpu : Fpu) (m : CalMon) (a : Act) : Prop :=
  a = .ctrl → m.sys.vars.ctrl.azFlagCalibrate = true →
    let v := (calMonNext fpu m a).sys.vars
    (m.Crossed → v.ctrl.azFlagCalibrate = false ∧ v.ctrl.azState = .constTorque
      ∧ v.mde.motorAz = 0)
    ∧ (¬ m.Crossed → v.ctrl.azFlagCalibrate = true ∧ v.ctrl.azState = .constSpeed)

/-- No iteration of a calibration sees a step back. -/
def NoStepBack (m : CalMon) (a : Act) : Prop :=
  a = .ctrl → m.sys.vars.ctrl.azFlagCalibrate = true →
    ∀ old ∈ m.seen, ¬ SteppedBack old m.sys.vars.mde.encAz

instance (m : CalMon) (a : Act) : Decidable (NoStepBack m a) :=
  have := Option.decidableForallMem (p := fun old => ¬ SteppedBack old m.sys.vars.mde.encAz) m.seen
  inferInstanceAs (Decidable (_ → _ → _))

/-! ## The invariant -/

/-- A calibration that is going on rotates at constant speed, and `old_az` is what
the last iteration has seen. -/
structure CalInv (m : CalMon) : Prop where
  pc : m.sys.ctrl.pc = .loopSleep
  state : m.sys.vars.ctrl.azFlagCalibrate = true → m.sys.vars.ctrl.azState = .constSpeed
  old : m.sys.vars.ctrl.azFlagCalibrate = true → m.sys.ctrl.oldAz = m.seen.getD 0

theorem calInv_entered (fpu : Fpu) {s : Sys} (hpc : s.ctrl.pc = .calibrateSleep) :
    CalInv (calEntered fpu s) := by
  have hstep : sysNext fpu s .ctrl
      = { s with vars := (ctrlResume fpu s.vars).1, ctrl := (ctrlResume fpu s.vars).2 } := by
    simp only [sysNext, ctrlStep_resume fpu s.vars hpc]
  rw [calEntered, hstep]
  refine ⟨rfl, fun _ => ?_, fun _ => rfl⟩
  simp [ctrlResume, setAzState]

/-- Flag, mode and the thread are all the invariant looks at. -/
theorem CalInv.congr {m m' : CalMon} (h : CalInv m) (hthd : m'.sys.ctrl = m.sys.ctrl)
    (hseen : m'.seen = m.seen)
    (hflag : m'.sys.vars.ctrl.azFlagCalibrate = m.sys.vars.ctrl.azFlagCalibrate)
    (hst : m'.sys.vars.ctrl.azState = m.sys.vars.ctrl.azState) : CalInv m' := by
  refine ⟨by rw [hthd]; exact h.pc, fun hcal => ?_, fun hcal => ?_⟩
  · rw [hst]
    exact h.state (hflag.symm.trans hcal)
  · rw [hthd, hseen]
    exact h.old (hflag.symm.trans hcal)

/-- With the flag down there is nothing to keep. -/
theorem calInv_of_down {m : CalMon} (hpc : m.sys.ctrl.pc = .loopSleep)
    (hdown : m.sys.vars.ctrl.azFlagCalibrate = false) : CalInv m where
  pc := hpc
  state hup := by cases hdown.symm.trans hup
  old hup := by cases hdown.symm.trans hup

theorem serve_azMode {r : Request} (h : commandFor .az r = false) (v : Vars) :
    (serve v r).ctrl.azFlagCalibrate = v.ctrl.azFlagCalibrate
      ∧ (serve v r).ctrl.azState = v.ctrl.azState := by
  cases r with
  | apiPos az el slow => cases h
  | _ => first | exact ⟨rfl, rfl⟩ | cases h

/-- What an iteration does in a quiet run: without a calibration it leaves the flag
down, in one it ends it or goes on as `old_az` says. -/
theorem calMonNext_ctrl (fpu : Fpu) {m : CalMon} (h : CalInv m)
    (htrip : failsafe m.sys.vars.imu = false) :
    (m.sys.vars.ctrl.azFlagCalibrate = false
        ∧ (calMonNext fpu m .ctrl).sys.vars.ctrl.azFlagCalibrate = false
        ∧ (calMonNext fpu m .ctrl).sys.ctrl.pc = .loopSleep)
      ∨ (m.sys.vars.ctrl.azFlagCalibrate = true ∧ m.sys.vars.mde.encAz < m.seen.getD 0
        ∧ (calMonNext fpu m .ctrl).sys.vars.ctrl.azFlagCalibrate = false
        ∧ (calMonNext fpu m .ctrl).sys.vars.ctrl.azState = .constTorque
        ∧ (calMonNext fpu m .ctrl).sys.vars.mde.motorAz = 0
        ∧ (calMonNext fpu m .ctrl).sys.ctrl.pc = .loopSleep)
      ∨ (m.sys.vars.ctrl.azFlagCalibrate = true ∧ ¬ m.sys.vars.mde.encAz < m.seen.getD 0
        ∧ (calMonNext fpu m .ctrl).sys.vars.ctrl.azFlagCalibrate = true
        ∧ (calMonNext fpu m .ctrl).sys.vars.ctrl.azState = .constSpeed
        ∧ (calMonNext fpu m .ctrl).sys.ctrl = ⟨.loopSleep, m.sys.vars.mde.encAz⟩) := by
  have hcases := ctrlStep_cases fpu m.sys.vars h.pc
  simp only [calMonNext, sysNext]
  generalize ctrlStep fpu m.sys.vars m.sys.ctrl = r at hcases
  cases hcases with
  | failsafe htrip' => cases htrip.symm.trans htrip'
  | plain _ hflag => exact Or.inl ⟨hflag, by simp [hflag], rfl⟩
  | start _ hflag hst => exact absurd (h.state hflag) hst
  | finish _ hflag _ hover =>
      rw [h.old hflag] at hover
      refine Or.inr (Or.inl ⟨hflag, hover, ?_, ?_, ?_, rfl⟩)
      · rw [ctrlAxes_azFlagCalibrate]
        rfl
      · rw [ctrlAxes_azState]
        rfl
      · exact ctrlAxes_motorAz fpu rfl
  | rotate _ hflag hst hover =>
      rw [h.old hflag] at hover
      refine Or.inr (Or.inr ⟨hflag, hover, ?_, ?_, rfl⟩)
      · rw [ctrlAxes_azFlagCalibrate, hflag]
      · rw [ctrlAxes_azState, hst]

theorem calInv_next (fpu : Fpu) (m : CalMon) (a : Act) (h : CalInv m) (hq : CalQuiet m a) :
    CalInv (calMonNext fpu m a) := by
  cases a with
  | req r =>
      obtain ⟨hflag, hst⟩ := serve_azMode hq m.sys.vars
      exact h.congr rfl rfl hflag hst
  | ctrl =>
      rcases calMonNext_ctrl fpu h hq.1 with ⟨-, hdown, hpc⟩ | ⟨-, -, hdown, -, -, hpc⟩
        | ⟨-, -, -, hst, hthd⟩
      · exact calInv_of_down hpc hdown
      · exact calInv_of_down hpc hdown
      · refine ⟨by rw [hthd], fun _ => hst, fun _ => ?_⟩
        rw [hthd]
        rfl
  | mde miso =>
      have hf := mdeStep_frame fpu miso m.sys.vars m.sys.mde
      exact h.congr rfl rfl (congrArg Ctrl.azFlagCalibrate hf.ctrl)
        (congrArg Ctrl.azState hf.ctrl)
  | imu r => exact h.congr rfl rfl rfl rfl
  | tick n => exact h.congr rfl rfl rfl rfl

/-! ## The decision -/

/-- A smaller reading has crossed the index or stepped back. -/
theorem lt_iff_crossed_or_back {old az : UInt16} :
    az < old ↔ CrossedIndex old az ∨ SteppedBack old az := by
  have hne : az < old → circDiff old az ≠ 0 := by
    intro hlt hzero
    obtain ⟨k, hk, -, -⟩ := circDiff_spec old az
    rw [UInt16.lt_iff_toNat_lt] at hlt
    have hold : old.toNat < 65536 := old.toNat_lt
    omega
  constructor
  · intro hlt
    rcases Int.lt_or_gt_of_ne (hne hlt) with hneg | hpos
    · exact Or.inr ⟨hneg, hlt⟩
    · exact Or.inl ⟨hpos, hlt⟩
  · rintro (⟨-, hlt⟩ | ⟨-, hlt⟩)
    · exact hlt
    · exact hlt

/-- An iteration that ends the calibration is right if the smaller reading is that of
a crossing. -/
theorem calStepOk_ends (fpu : Fpu) {m : CalMon}
    (hcal : m.sys.vars.ctrl.azFlagCalibrate = true) (hlt : m.sys.vars.mde.encAz < m.seen.getD 0)
    (hdown : (calMonNext fpu m .ctrl).sys.vars.ctrl.azFlagCalibrate = false)
    (hst : (calMonNext fpu m .ctrl).sys.vars.ctrl.azState = .constTorque)
    (hmot : (calMonNext fpu m .ctrl).sys.vars.mde.motorAz = 0) :
    CalStepOk fpu m .ctrl ↔ NoStepBack m .ctrl := by
  obtain ⟨old, hseen⟩ : ∃ old, m.seen = some old := by
    cases hseen : m.seen with
    | none =>
        rw [hseen] at hlt
        exact absurd hlt UInt16.not_lt_zero
    | some old => exact ⟨old, rfl⟩
  rw [hseen] at hlt
  constructor
  · intro hok _ _ old' hold' hback
    obtain rfl : old = old' := Option.some.inj (hseen.symm.trans hold')
    have hnot : ¬ m.Crossed := by
      rintro ⟨o, ho, hpos, -⟩
      obtain rfl : old = o := Option.some.inj (hseen.symm.trans ho)
      exact absurd hpos (Int.lt_asymm hback.1)
    cases hdown.symm.trans ((hok rfl hcal).2 hnot).1
  · intro hno _ _
    refine ⟨fun _ => ⟨hdown, hst, hmot⟩, fun hnot => ?_⟩
    rcases lt_iff_crossed_or_back.mp hlt with hcross | hback
    · exact absurd ⟨old, hseen, hcross⟩ hnot
    · exact absurd hback (hno rfl hcal old hseen)

/-- An iteration that goes on is right: the reading is not smaller. -/
theorem calStepOk_goesOn (fpu : Fpu) {m : CalMon} (hge : ¬ m.sys.vars.mde.encAz < m.seen.getD 0)
    (hup : (calMonNext fpu m .ctrl).sys.vars.ctrl.azFlagCalibrate = true)
    (hst : (calMonNext fpu m .ctrl).sys.vars.ctrl.azState = .constSpeed) :
    CalStepOk fpu m .ctrl ↔ NoStepBack m .ctrl := by
  have hkeep : ∀ old ∈ m.seen, ¬ m.sys.vars.mde.encAz < old := by
    intro old hold
    rw [show m.seen = some old from hold] at hge
    exact hge
  constructor
  · intro _ _ _ old hold hback
    exact hkeep old hold hback.2
  · intro _ _ _
    refine ⟨?_, fun _ => ⟨hup, hst⟩⟩
    rintro ⟨old, hold, hcross⟩
    exact absurd hcross.2 (hkeep old hold)

theorem calStepOk_iff (fpu : Fpu) (m : CalMon) (a : Act) (h : CalInv m) (hq : CalQuiet m a) :
    CalStepOk fpu m a ↔ NoStepBack m a := by
  by_cases ha : a = .ctrl
  · subst ha
    rcases calMonNext_ctrl fpu h hq.1 with ⟨hno, -, -⟩ | ⟨hcal, hlt, hdown, hst, hmot, -⟩
      | ⟨hcal, hge, hup, hst, -⟩
    · constructor
      · intro _ _ hcal
        cases hno.symm.trans hcal
      · intro _ _ hcal
        cases hno.symm.trans hcal
    · exact calStepOk_ends fpu hcal hlt hdown hst hmot
    · exact calStepOk_goesOn fpu hge hup hst
  · constructor
    · intro _ hctrl
      exact absurd hctrl ha
    · intro _ hctrl
      exact absurd hctrl ha

/-- From the moment a calibration enters constant speed on, in a run without azimuth
commands and failsafe, every iteration ends it exactly when the encoder crossed the
index, as long as and only as long as no iteration sees the encoder step back. -/
theorem calibration_ends_iff (fpu : Fpu) (s : Sys) (hpc : s.ctrl.pc = .calibrateSleep)
    (as : List Act) (hquiet : Along (calMonNext fpu) CalQuiet (calEntered fpu s) as) :
    Along (calMonNext fpu) (CalStepOk fpu) (calEntered fpu s) as
      ↔ Along (calMonNext fpu) NoStepBack (calEntered fpu s) as :=
  along_congr_of_invariant (calInv_next fpu) (calStepOk_iff fpu) (calInv_entered fpu hpc) hquiet

/-- In the calibration sleep at the encoder value `az`; the next reply of the MDE
completes a reading. -/
def calSleeping (az : UInt16) : Sys where
  vars := {
    ctrl := { azFlagCalibrate := true }
    mde := { encAz := az }
    imu := { accelZ := 4096, rotX := 2070, rotY := 2070, rotZ := 2070 } }
  ctrl := ⟨.calibrateSleep, 0⟩
  mde := { pc := .poll 6, oldT := 0, oldX := az, fc := 0xFF }

/-- From 65530 across the index to 5. -/
theorem calibration_ends_across_index :
    Along (calMonNext Fpu.modular) (CalStepOk Fpu.modular)
        (calEntered Fpu.modular (calSleeping 65530)) [.ctrl, .mde 0xFA, .ctrl]
      ∧ (run (calMonNext Fpu.modular) (calEntered Fpu.modular (calSleeping 65530))
          [.ctrl, .mde 0xFA, .ctrl]).sys.vars.ctrl.azFlagCalibrate = false :=
  ⟨(calibration_ends_iff Fpu.modular (calSleeping 65530) rfl [.ctrl, .mde 0xFA, .ctrl]
    (by decide +kernel)).mpr (by decide +kernel), by decide +kernel⟩

/-- From 100 back to 99, far from the index: the calibration ends. -/
theorem calibration_ends_on_jitter :
    Along (calMonNext Fpu.modular) CalQuiet (calEntered Fpu.modular (calSleeping 100))
        [.ctrl, .mde 0x9C, .ctrl]
      ∧ (run (calMonNext Fpu.modular) (calEntered Fpu.modular (calSleeping 100))
          [.ctrl, .mde 0x9C]).sys.vars.mde.encAz = 99
      ∧ ¬ Along (calMonNext Fpu.modular) (CalStepOk Fpu.modular)
        (calEntered Fpu.modular (calSleeping 100)) [.ctrl, .mde 0x9C, .ctrl] := by
  refine ⟨by decide +kernel, by decide +kernel, ?_⟩
  rintro ⟨-, -, hlast, -⟩
  have hnot : ¬ (run (calMonNext Fpu.modular) (calEntered Fpu.modular (calSleeping 100))
      [.ctrl, .mde 0x9C]).Crossed := by
    rintro ⟨old, hold, hcross, -⟩
    obtain rfl : (100 : UInt16) = old := Option.some.inj hold
    exact absurd hcross (by decide +kernel)
  exact absurd ((hlast rfl (by decide +kernel)).2 hnot).1 (by decide +kernel)

end Seatel
