import Seatel.MdeProtocol

/-!
# The watchdog between the control and the MDE thread

The control thread stamps the system time at the end of every iteration,
and the MDE thread exchanges words only while that stamp is younger than
100 ms. The first half of this file is about a control thread that has
stalled: the stamp keeps its value, but the time it is compared with
wraps after 2^32 ticks, so the gate opens again for 99 ms every
11 h 56 min.

The second half is about a live one. Its runs are timed by a clock of
their own (`Timed`): a sleep lasts its nominal time, computation less
than 50 ms per iteration, and the other threads run at any time. The
calibration sleep of 1000 ms lies between two stamps, so every
calibration trips the watchdog, and nothing else does.
-/

namespace Seatel

open Runs CInt

/-! ## The test of `ctrl_is_running` -/

theorem ctrlIsRunning_iff {v : Vars} {T : Nat}
    (hT : v.ctrl.lastLoopUpdate = UInt32.ofNat T) (hle : T ≤ v.time) :
    ctrlIsRunning v = true ↔ (v.time - T) % 4294967296 ≤ 9900 := by
  rw [ctrlIsRunning, decide_eq_true_iff, hT, timeI2Ms, UInt32.toNat_ofNat', chVTGetSystemTimeX,
    toNat_sub_ofNat32 hle, chCfgStFrequency]
  omega

/-- The step ends a control iteration, and with that writes the time stamp. -/
def EndsIteration (fpu : Fpu) (s : Sys) (a : Act) : Prop :=
  a = .ctrl ∧ (sysNext fpu s a).ctrl.pc = .loopSleep

/-- The iteration about to start begins a calibration, and so a 1000 ms sleep. -/
def StartsCalibration (s : Sys) : Prop :=
  s.ctrl.pc = .loopSleep ∧ failsafe s.vars.imu = false
    ∧ s.vars.ctrl.azFlagCalibrate = true ∧ s.vars.ctrl.azState ≠ .constSpeed

theorem ctrlAxes_lastLoopUpdate (fpu : Fpu) (v : Vars) :
    (ctrlAxes fpu v).ctrl.lastLoopUpdate = chVTGetSystemTimeX v
      ∧ (ctrlAxes fpu v).time = v.time := by
  obtain ⟨_, _, _, _, h⟩ := ctrlAxes_eq fpu v
  rw [h]
  exact ⟨rfl, rfl⟩

/-- A step of the control thread either starts a calibration or writes the
stamp and goes to its 20 ms sleep. Time stands still meanwhile. -/
theorem ctrlStep_stamp (fpu : Fpu) (s : Sys) :
    (StartsCalibration s
        ∧ (sysNext fpu s .ctrl).ctrl.pc = .calibrateSleep
        ∧ (sysNext fpu s .ctrl).vars.ctrl.lastLoopUpdate = s.vars.ctrl.lastLoopUpdate
        ∧ (sysNext fpu s .ctrl).vars.time = s.vars.time)
      ∨ (¬ StartsCalibration s
        ∧ (sysNext fpu s .ctrl).ctrl.pc = .loopSleep
        ∧ (sysNext fpu s .ctrl).vars.ctrl.lastLoopUpdate = chVTGetSystemTimeX s.vars
        ∧ (sysNext fpu s .ctrl).vars.time = s.vars.time) := by
  simp only [sysNext]
  cases hpc : s.ctrl.pc with
  | calibrateSleep =>
      right
      rw [ctrlStep_resume fpu s.vars hpc]
      refine ⟨?_, rfl, ctrlAxes_lastLoopUpdate fpu _⟩
      rintro ⟨hloop, -⟩
      cases hpc.symm.trans hloop
  | loopSleep =>
      have hcases := ctrlStep_cases fpu s.vars hpc
      generalize ctrlStep fpu s.vars s.ctrl = r at hcases
      cases hcases with
      | failsafe htrip =>
          right
          refine ⟨?_, rfl, ctrlAxes_lastLoopUpdate fpu _⟩
          rintro ⟨-, htrip', -⟩
          cases htrip.symm.trans htrip'
      | plain htrip hflag =>
          right
          refine ⟨?_, rfl, ctrlAxes_lastLoopUpdate fpu _⟩
          rintro ⟨-, -, hflag', -⟩
          cases hflag.symm.trans hflag'
      | start htrip hflag hst => exact Or.inl ⟨⟨hpc, htrip, hflag, hst⟩, rfl, rfl, rfl⟩
      | finish htrip hflag hst =>
          right
          refine ⟨?_, rfl, ctrlAxes_lastLoopUpdate fpu _⟩
          rintro ⟨-, -, -, hst'⟩
          exact hst' hst
      | rotate htrip hflag hst =>
          right
          refine ⟨?_, rfl, ctrlAxes_lastLoopUpdate fpu _⟩
          rintro ⟨-, -, -, hst'⟩
          exact hst' hst

/-- Every other act leaves the stamp and the control thread alone, and lets no
time pass unless it is a tick. -/
theorem sysNext_stamp (fpu : Fpu) {a : Act} (ha : a ≠ .ctrl) (s : Sys) :
    (sysNext fpu s a).ctrl = s.ctrl
      ∧ (sysNext fpu s a).vars.ctrl.lastLoopUpdate = s.vars.ctrl.lastLoopUpdate
      ∧ s.vars.time ≤ (sysNext fpu s a).vars.time := by
  cases a with
  | req r =>
      refine ⟨rfl, ?_⟩
      cases r with
      | apiPos az el slow => cases slow <;> exact ⟨rfl, Nat.le_refl _⟩
      | _ => exact ⟨rfl, Nat.le_refl _⟩
  | ctrl => exact absurd rfl ha
  | mde miso =>
      have hf := mdeStep_frame fpu miso s.vars s.mde
      exact ⟨rfl, congrArg Ctrl.lastLoopUpdate hf.ctrl, Nat.le_of_eq hf.time.symm⟩
  | imu r => exact ⟨rfl, rfl, Nat.le_refl _⟩
  | tick n => exact ⟨rfl, rfl, Nat.le_add_right _ _⟩

/-! ## A stalled control thread -/

/-- The control thread ends no iteration any more. -/
def Stalled (fpu : Fpu) (s : Sys) (a : Act) : Prop := ¬ EndsIteration fpu s a

/-- The stamp was written at time `T`, and not since. -/
structure StampedAt (T : Nat) (s : Sys) : Prop where
  stamp : s.vars.ctrl.lastLoopUpdate = UInt32.ofNat T
  le : T ≤ s.vars.time

theorem stampedAt_next (fpu : Fpu) {T : Nat} {s : Sys} {a : Act} (h : StampedAt T s)
    (hstall : Stalled fpu s a) : StampedAt T (sysNext fpu s a) := by
  by_cases ha : a = .ctrl
  · subst ha
    rcases ctrlStep_stamp fpu s with ⟨-, -, hst, ht⟩ | ⟨-, hpc, -, -⟩
    · exact ⟨hst.trans h.stamp, ht ▸ h.le⟩
    · exact absurd ⟨rfl, hpc⟩ hstall
  · obtain ⟨-, hst, ht⟩ := sysNext_stamp fpu ha s
    exact ⟨hst.trans h.stamp, Nat.le_trans h.le ht⟩

theorem stampedAt_run (fpu : Fpu) {T : Nat} {s : Sys} (h : StampedAt T s) {as : List Act}
    (hstall : Along (sysNext fpu) (Stalled fpu) s as) : StampedAt T (run (sysNext fpu) s as) :=
  run_invariant (fun _ _ hs ha => stampedAt_next fpu hs ha) h hstall

/-- The last iteration that ended stamped its own time. -/
theorem stampedAt_last (fpu : Fpu) {s : Sys} (hlast : EndsIteration fpu s .ctrl) :
    StampedAt s.vars.time (sysNext fpu s .ctrl) := by
  rcases ctrlStep_stamp fpu s with ⟨-, hpc, -, -⟩ | ⟨-, -, hst, ht⟩
  · cases hpc.symm.trans hlast.2
  · exact ⟨hst, Nat.le_of_eq ht.symm⟩

/-! ### The MDE thread behind a closed gate -/

/-- Waking up from this wait, the MDE thread sends another word of its cycle. -/
def MdePc.midCycle : MdePc → Bool
  | .poll _ => true
  | .torque .az => true
  | .torque .el => true
  | _ => false

/-- What a step of the MDE thread shows is no word of a cycle, and leads to none. -/
def MdeOut.Silent (o : MdeOut) : Prop :=
  o.thd.pc.midCycle = false ∧ ∀ e ∈ o.events, e.inCycle = false

theorem silent_quiet {o : MdeOut} (hpc : o.thd.pc.midCycle = false) (hev : o.events = []) :
    o.Silent := by
  refine ⟨hpc, fun e he => ?_⟩
  rw [hev] at he
  cases he

theorem silent_event {o : MdeOut} {e : BusEvent} (hpc : o.thd.pc.midCycle = false)
    (hev : o.events = [e]) (he : e.inCycle = false) : o.Silent := by
  refine ⟨hpc, fun e' he' => ?_⟩
  rw [hev] at he'
  rw [List.mem_singleton.mp he']
  exact he

theorem mdeGate_closed {v : Vars} (h : ctrlIsRunning v = false) (t : MdeThd) :
    (mdeGate v t).Silent := by
  rw [mdeGate, h, Bool.and_false, if_neg Bool.false_ne_true]
  exact silent_quiet rfl rfl

theorem mdePowerUpTest_closed {v : Vars} (h : ctrlIsRunning v = false) (t : MdeThd) :
    (mdePowerUpTest v t).Silent := by
  unfold mdePowerUpTest
  split
  · exact silent_event rfl rfl rfl
  · exact mdeGate_closed h t

theorem mdeInit_closed {v : Vars} (h : ctrlIsRunning v = false) (rest : List InitOp)
    (t : MdeThd) : (mdeInit rest v t).Silent := by
  unfold mdeInit
  split
  · exact silent_event rfl rfl rfl
  · exact silent_quiet rfl rfl
  · exact mdeGate_closed
      (v := { v with mde := { v.mde with powerUp := false, isPoweredUp := true } }) h t

theorem mdeStep_closed (fpu : Fpu) (miso : UInt16) {v : Vars} {t : MdeThd}
    (h : ctrlIsRunning v = false) (hpc : t.pc.midCycle = false) :
    (mdeStep fpu miso v t).Silent := by
  obtain ⟨pc, oldT, oldX, fc⟩ := t
  cases pc with
  | loopSleep =>
      simp only [mdeStep, mdeTop]
      split
      · exact silent_event rfl rfl rfl
      · exact mdePowerUpTest_closed h _
  | powerDnSleep =>
      exact mdePowerUpTest_closed
        (v := { v with mde := { v.mde with powerDn := false, isPoweredUp := false } }) h _
  | imuCalibrate i accu =>
      simp only [mdeStep]
      split
      · exact silent_quiet rfl rfl
      · exact silent_quiet rfl rfl
  | powerUpSleep => exact mdeInit_closed h initScript _
  | init rest => exact mdeInit_closed h rest _
  | poll i => cases hpc
  | torque m =>
      cases m with
      | az => cases hpc
      | el => cases hpc
      | sk => exact silent_quiet rfl rfl

/-- In the middle of a cycle the thread sends the next word without a look at
the gate. -/
theorem mdeStep_midCycle (fpu : Fpu) (miso : UInt16) (v : Vars) {t : MdeThd}
    (hpc : t.pc.midCycle = true) : ∃ e ∈ (mdeStep fpu miso v t).events, e.inCycle = true := by
  obtain ⟨pc, oldT, oldX, fc⟩ := t
  cases pc with
  | poll i =>
      simp only [mdeStep]
      split
      · exact ⟨_, List.mem_singleton_self _, rfl⟩
      · exact ⟨_, List.mem_singleton_self _, rfl⟩
  | torque m =>
      cases m with
      | az => exact ⟨_, List.mem_singleton_self _, rfl⟩
      | el => exact ⟨_, List.mem_singleton_self _, rfl⟩
      | sk => cases hpc
  | _ => cases hpc

/-! ### Every run of the stalled system -/

theorem sysNext_mde (fpu : Fpu) (s : Sys) {a : Act} (ha : ¬ ∃ miso, a = .mde miso) :
    (sysNext fpu s a).mde = s.mde := by
  cases a with
  | mde miso => exact absurd ⟨miso, rfl⟩ ha
  | _ => rfl

/-- Behind a gate that stays closed the MDE thread sends no word of a cycle,
unless it was in the middle of one. -/
theorem trace_closed (fpu : Fpu) {s : Sys} {as : List Act}
    (hclosed : ∀ pre, pre <+: as → ctrlIsRunning (run (sysNext fpu) s pre).vars = false)
    (hpc : s.mde.pc.midCycle = true → ∀ miso, .mde miso ∉ as) :
    ∀ e ∈ trace (sysNext fpu) (busObs fpu) s as, e.inCycle = false := by
  induction as generalizing s with
  | nil =>
      intro e he
      cases he
  | cons a as ih =>
      have hnow : ctrlIsRunning s.vars = false := hclosed [] (List.nil_prefix)
      have hrest : ∀ pre, pre <+: as →
          ctrlIsRunning (run (sysNext fpu) (sysNext fpu s a) pre).vars = false :=
        fun pre hpre => hclosed (a :: pre) (List.cons_prefix_cons.mpr ⟨rfl, hpre⟩)
      intro e he
      rw [trace_cons, List.mem_append] at he
      by_cases hmde : ∃ miso, a = .mde miso
      · obtain ⟨miso, rfl⟩ := hmde
        have hmid : s.mde.pc.midCycle = false := by
          by_contra hmid
          exact hpc (Bool.of_not_eq_false hmid) miso List.mem_cons_self
        obtain ⟨hpc', hev⟩ := mdeStep_closed fpu miso hnow hmid
        rcases he with he | he
        · exact hev e he
        · refine ih hrest ?_ e he
          intro hmid'
          cases hpc'.symm.trans hmid'
      · rcases he with he | he
        · exact absurd (mem_busObs he) hmde
        · refine ih hrest ?_ e he
          intro hmid miso hmem
          rw [sysNext_mde fpu s hmde] at hmid
          exact hpc hmid miso (List.mem_cons_of_mem a hmem)

/-- A thread in the middle of a cycle that runs at all shows a word of it. -/
theorem trace_midCycle (fpu : Fpu) {s : Sys} {as : List Act} {miso : UInt16}
    (hpc : s.mde.pc.midCycle = true) (hmem : .mde miso ∈ as) :
    ∃ e ∈ trace (sysNext fpu) (busObs fpu) s as, e.inCycle = true := by
  induction as generalizing s with
  | nil => cases hmem
  | cons a as ih =>
      by_cases hmde : ∃ miso, a = .mde miso
      · obtain ⟨miso', rfl⟩ := hmde
        obtain ⟨e, he, hcyc⟩ := mdeStep_midCycle fpu miso' s.vars hpc
        exact ⟨e, List.mem_append_left _ he, hcyc⟩
      · rcases List.mem_cons.mp hmem with heq | hmem
        · exact absurd ⟨miso, heq.symm⟩ hmde
        · obtain ⟨e, he, hcyc⟩ := ih (sysNext_mde fpu s hmde ▸ hpc) hmem
          exact ⟨e, List.mem_append_right _ he, hcyc⟩

theorem time_le_next (fpu : Fpu) (s : Sys) (a : Act) :
    s.vars.time ≤ (sysNext fpu s a).vars.time := by
  by_cases ha : a = .ctrl
  · subst ha
    rcases ctrlStep_stamp fpu s with ⟨-, -, -, ht⟩ | ⟨-, -, -, ht⟩
    · exact Nat.le_of_eq ht.symm
    · exact Nat.le_of_eq ht.symm
  · exact (sysNext_stamp fpu ha s).2.2

theorem time_le_run (fpu : Fpu) (s : Sys) (as : List Act) :
    s.vars.time ≤ (run (sysNext fpu) s as).vars.time := by
  induction as generalizing s with
  | nil => exact Nat.le_refl _
  | cons a as ih => exact Nat.le_trans (time_le_next fpu s a) (ih _)

/-- 100 ms have passed since time `T`. -/
def Overdue (T : Nat) (s : Sys) : Prop := T + 10000 ≤ s.vars.time

instance (T : Nat) (s : Sys) : Decidable (Overdue T s) := inferInstanceAs (Decidable (_ ≤ _))

/-- After the last iteration of the control thread the watchdog reports it as
stopped, and the MDE thread sends no more encoder and torque words once 100 ms
are over, exactly when the elapsed time never comes back to within 99 ms of a
multiple of 2^32 ticks and no cycle is under way when the 100 ms are over. -/
theorem stalled_ctrl_silences_mde_iff (fpu : Fpu) (s : Sys) (hlast : EndsIteration fpu s .ctrl)
    (as : List Act) (hstall : Along (sysNext fpu) (Stalled fpu) (sysNext fpu s .ctrl) as) :
    (∀ pre post, as = pre ++ post →
        Overdue s.vars.time (run (sysNext fpu) (sysNext fpu s .ctrl) pre) →
        ctrlIsRunning (run (sysNext fpu) (sysNext fpu s .ctrl) pre).vars = false
          ∧ ∀ e ∈ trace (sysNext fpu) (busObs fpu)
              (run (sysNext fpu) (sysNext fpu s .ctrl) pre) post, e.inCycle = false)
      ↔ ∀ pre post, as = pre ++ post →
          Overdue s.vars.time (run (sysNext fpu) (sysNext fpu s .ctrl) pre) →
          9900 < ((run (sysNext fpu) (sysNext fpu s .ctrl) pre).vars.time - s.vars.time)
              % 4294967296
            ∧ ((run (sysNext fpu) (sysNext fpu s .ctrl) pre).mde.pc.midCycle = true →
                ∀ miso, .mde miso ∉ post) := by
  have hstamp := stampedAt_last fpu hlast
  generalize sysNext fpu s .ctrl = s₁ at *
  generalize s.vars.time = T at *
  have hrunning : ∀ pre post, as = pre ++ post →
      (ctrlIsRunning (run (sysNext fpu) s₁ pre).vars = false
        ↔ 9900 < ((run (sysNext fpu) s₁ pre).vars.time - T) % 4294967296) := by
    rintro pre post rfl
    have hpre := stampedAt_run fpu hstamp ((along_append _ _ _).mp hstall).1
    rw [← Bool.not_eq_true, ctrlIsRunning_iff hpre.stamp hpre.le, Nat.not_le]
  constructor
  · intro h pre post heq hlate
    obtain ⟨hrun, hquiet⟩ := h pre post heq hlate
    refine ⟨(hrunning pre post heq).mp hrun, fun hmid miso hmem => ?_⟩
    obtain ⟨e, he, hcyc⟩ := trace_midCycle fpu hmid hmem
    cases (hquiet e he).symm.trans hcyc
  · intro h pre post heq hlate
    refine ⟨(hrunning pre post heq).mpr (h pre post heq hlate).1, ?_⟩
    refine trace_closed fpu (fun mid hmid => ?_) (h pre post heq hlate).2
    -- the positions after an overdue one are overdue
    obtain ⟨rest, rfl⟩ := hmid
    have heq' : as = (pre ++ mid) ++ rest := by rw [heq, List.append_assoc]
    rw [← run_append, hrunning (pre ++ mid) rest heq']
    refine (h (pre ++ mid) rest heq' ?_).1
    rw [run_append]
    exact Nat.le_trans hlate (time_le_run fpu _ mid)

/-- A control thread that never runs again has stalled. -/
theorem stalled_of_not_mem (fpu : Fpu) {s : Sys} {as : List Act} (h : .ctrl ∉ as) :
    Along (sysNext fpu) (Stalled fpu) s as := by
  refine along_iff.mpr ?_
  rintro pre a post rfl ⟨rfl, -⟩
  exact h (List.mem_append_right _ List.mem_cons_self)

/-- 200 ms after its only iteration the control thread counts as stopped. -/
theorem stalled_ctrl_silences_mde_boot :
    EndsIteration Fpu.modular (Sys.boot 0 0 0 0) .ctrl
      ∧ ctrlIsRunning (run (sysNext Fpu.modular) (sysNext Fpu.modular (Sys.boot 0 0 0 0) .ctrl)
          [.tick 20000]).vars = false := by
  have hends : EndsIteration Fpu.modular (Sys.boot 0 0 0 0) .ctrl := ⟨rfl, by decide +kernel⟩
  refine ⟨hends, ((stalled_ctrl_silences_mde_iff Fpu.modular (Sys.boot 0 0 0 0) hends [.tick 20000]
    (stalled_of_not_mem _ (by decide))).mpr ?_ [.tick 20000] [] rfl (by decide +kernel)).1⟩
  intro pre post heq hlate
  cases pre with
  | nil => exact absurd hlate (by decide +kernel)
  | cons a pre =>
      obtain ⟨rfl, hnil⟩ := List.cons.inj heq
      obtain ⟨rfl, rfl⟩ := List.append_eq_nil_iff.mp hnil.symm
      exact ⟨by decide +kernel, fun _ _ hmem => by cases hmem⟩

/-- The control thread stalls after one iteration; the MDE is powered up 200 ms
later. -/
def stalledActs : List Act :=
  [.tick 20000, .req .mdePowerUp] ++ List.replicate 150 (.mde 0) ++ [.tick (2 ^ 32 - 20000)]

/-- 2^32 ticks after the last iteration the watchdog reports the stalled thread
as running, and the MDE thread sends the words of a cycle. -/
theorem stalled_ctrl_reported_running :
    EndsIteration Fpu.modular (Sys.boot 0 0 0 0) .ctrl
      ∧ .ctrl ∉ stalledActs
      ∧ Overdue 0 (run (sysNext Fpu.modular) (sysNext Fpu.modular (Sys.boot 0 0 0 0) .ctrl)
          stalledActs)
      ∧ ctrlIsRunning (run (sysNext Fpu.modular) (sysNext Fpu.modular (Sys.boot 0 0 0 0) .ctrl)
          stalledActs).vars = true
      ∧ trace (sysNext Fpu.modular) (busObs Fpu.modular)
          (run (sysNext Fpu.modular) (sysNext Fpu.modular (Sys.boot 0 0 0 0) .ctrl) stalledActs)
          [.mde 0] = [.poll 0xFEFF] := by
  refine ⟨⟨rfl, ?_⟩, ?_, ?_, ?_, ?_⟩ <;> decide +kernel

/-! ## A live control thread -/

/-- How long a wait of the control thread lasts, in ticks. -/
def CtrlPc.sleepTicks : CtrlPc → Nat
  | .loopSleep => 2000
  | .calibrateSleep => 100000

/-- What the computations of one iteration stay below, in ticks. -/
def computeBudget : Nat := 5000

/-- The firmware with the clock of its control thread: the time its present
sleep began, and how many ticks the iteration has computed for before that. -/
structure Timed where
  sys : Sys
  since : Nat
  spent : Nat

/-- For how long the control thread has been computing since its sleep ended. -/
def Timed.computing (p : Timed) : Nat :=
  p.sys.vars.time - (p.since + p.sys.ctrl.pc.sleepTicks)

def timedNext (fpu : Fpu) (p : Timed) (a : Act) : Timed :=
  let s := sysNext fpu p.sys a
  match a with
  | .ctrl =>
      { sys := s
        since := p.sys.vars.time
        spent := if s.ctrl.pc = .loopSleep then 0 else p.spent + p.computing }
  | _ => { p with sys := s }

/-- The iteration has computed for less than 50 ms so far. -/
def Timed.InBudget (p : Timed) : Prop := p.spent + p.computing < computeBudget

instance (p : Timed) : Decidable p.InBudget := inferInstanceAs (Decidable (_ < _))

/-- The control thread runs when its sleep is over, and no time passes in which
it would exceed its budget; the other threads run at any time. -/
def Timely (fpu : Fpu) (p : Timed) (a : Act) : Prop :=
  (a = .ctrl → p.since + p.sys.ctrl.pc.sleepTicks ≤ p.sys.vars.time)
    ∧ (timedNext fpu p a).InBudget

instance (fpu : Fpu) (p : Timed) (a : Act) : Decidable (Timely fpu p a) :=
  inferInstanceAs (Decidable (_ ∧ _))

/-- The control thread has just ended an iteration. -/
def Timed.start (s : Sys) : Timed where
  sys := s
  since := s.vars.time
  spent := 0

theorem timedNext_other (fpu : Fpu) {a : Act} (ha : a ≠ .ctrl) (p : Timed) :
    timedNext fpu p a = { p with sys := sysNext fpu p.sys a } := by
  cases a with
  | ctrl => exact absurd rfl ha
  | _ => rfl

/-- With the stamp of time `L`: in the 20 ms sleep the stamp is as old as the
sleep, in the calibration sleep it is older by the 20 ms sleep before it and by
what the iteration computed. -/
structure TimedInv (L : Nat) (p : Timed) : Prop where
  stamped : StampedAt L p.sys
  budget : p.InBudget
  since_le : p.since ≤ p.sys.vars.time
  loop : p.sys.ctrl.pc = .loopSleep → p.since = L ∧ p.spent = 0
  calibrate : p.sys.ctrl.pc = .calibrateSleep → p.since = L + 2000 + p.spent

theorem timedInv_next (fpu : Fpu) {L : Nat} {p : Timed} {a : Act} (h : TimedInv L p)
    (ht : Timely fpu p a) : ∃ L', TimedInv L' (timedNext fpu p a) := by
  by_cases ha : a = .ctrl
  · subst ha
    have hslept := ht.1 rfl
    have hbudget := ht.2
    rcases ctrlStep_stamp fpu p.sys with
      ⟨hstart, hpc, hst, htime⟩ | ⟨-, hpc, hst, htime⟩
    · obtain ⟨hsince, hspent⟩ := h.loop hstart.1
      rw [hstart.1] at hslept
      refine ⟨L, ⟨hst.trans h.stamped.stamp, htime ▸ h.stamped.le⟩, hbudget,
        Nat.le_of_eq htime.symm, fun hloop => ?_, fun _ => ?_⟩
      · cases hpc.symm.trans hloop
      · simp only [timedNext, hpc, Timed.computing, hstart.1, hspent, reduceCtorEq, if_false]
        simp only [CtrlPc.sleepTicks] at hslept ⊢
        omega
    · refine ⟨p.sys.vars.time, ⟨hst, Nat.le_of_eq htime.symm⟩, hbudget,
        Nat.le_of_eq htime.symm, fun _ => ⟨rfl, if_pos hpc⟩, fun hcal => ?_⟩
      cases hpc.symm.trans hcal
  · obtain ⟨hctrl, hst, htime⟩ := sysNext_stamp fpu ha p.sys
    have hbudget := ht.2
    rw [timedNext_other fpu ha] at hbudget ⊢
    exact ⟨L, ⟨hst.trans h.stamped.stamp, Nat.le_trans h.stamped.le htime⟩, hbudget,
      Nat.le_trans h.since_le htime, fun hloop => h.loop (hctrl ▸ hloop),
      fun hcal => h.calibrate (hctrl ▸ hcal)⟩

theorem timedInv_run (fpu : Fpu) {p : Timed} (h : ∃ L, TimedInv L p) {as : List Act}
    (ht : Along (timedNext fpu) (Timely fpu) p as) :
    ∃ L, TimedInv L (run (timedNext fpu) p as) :=
  run_invariant (I := fun p => ∃ L, TimedInv L p)
    (fun _ _ ⟨_, hL⟩ ha => timedInv_next fpu hL ha) h ht

theorem timedInv_start (fpu : Fpu) {s : Sys} (hdone : EndsIteration fpu s .ctrl) :
    ∃ L, TimedInv L (Timed.start (sysNext fpu s .ctrl)) := by
  have hstamp := stampedAt_last fpu hdone
  have htime : (sysNext fpu s .ctrl).vars.time = s.vars.time := by
    rcases ctrlStep_stamp fpu s with ⟨-, -, -, ht⟩ | ⟨-, -, -, ht⟩ <;> exact ht
  refine ⟨s.vars.time, hstamp, ?_, Nat.le_refl _, fun _ => ⟨htime, rfl⟩, fun hcal => ?_⟩
  · simp only [Timed.InBudget, Timed.start, Timed.computing, computeBudget]
    omega
  · cases hdone.2.symm.trans hcal

/-- In the 20 ms sleep and after it the stamp is younger than 70 ms. -/
theorem TimedInv.running {L : Nat} {p : Timed} (h : TimedInv L p)
    (hpc : p.sys.ctrl.pc = .loopSleep) : ctrlIsRunning p.sys.vars = true := by
  obtain ⟨hsince, hspent⟩ := h.loop hpc
  have hbudget := h.budget
  simp only [Timed.InBudget, Timed.computing, hpc, CtrlPc.sleepTicks, computeBudget] at hbudget
  rw [ctrlIsRunning_iff h.stamped.stamp h.stamped.le]
  omega

/-- When the calibration sleep ends the stamp is more than a second old. -/
theorem TimedInv.not_running {L : Nat} {p : Timed} (h : TimedInv L p)
    (hpc : p.sys.ctrl.pc = .calibrateSleep) (hslept : p.since + 100000 ≤ p.sys.vars.time) :
    ctrlIsRunning p.sys.vars = false := by
  have hsince := h.calibrate hpc
  have hbudget := h.budget
  simp only [Timed.InBudget, Timed.computing, hpc, CtrlPc.sleepTicks, computeBudget] at hbudget
  rw [← Bool.not_eq_true, ctrlIsRunning_iff h.stamped.stamp h.stamped.le]
  omega

/-- A calibration sleep that the run gets out of was slept to its end. -/
theorem calibrateSleep_ends (fpu : Fpu) {p : Timed} (hpc : p.sys.ctrl.pc = .calibrateSleep)
    {as : List Act} (ht : Along (timedNext fpu) (Timely fpu) p as)
    (hend : (run (timedNext fpu) p as).sys.ctrl.pc = .loopSleep) :
    ∃ pre, pre <+: as ∧ (run (timedNext fpu) p pre).sys.ctrl.pc = .calibrateSleep
      ∧ (run (timedNext fpu) p pre).since + 100000
          ≤ (run (timedNext fpu) p pre).sys.vars.time := by
  induction as generalizing p with
  | nil => cases hpc.symm.trans hend
  | cons a as ih =>
      by_cases ha : a = .ctrl
      · have hslept := ht.1.1 ha
        rw [hpc] at hslept
        exact ⟨[], List.nil_prefix, hpc, hslept⟩
      · have hpc' : (timedNext fpu p a).sys.ctrl.pc = .calibrateSleep := by
          rw [timedNext_other fpu ha]
          exact (congrArg CtrlThd.pc (sysNext_stamp fpu ha p.sys).1).trans hpc
        obtain ⟨pre, hpre, hcal, hslept⟩ := ih hpc' ht.2 hend
        exact ⟨a :: pre, List.cons_prefix_cons.mpr ⟨rfl, hpre⟩, hcal, hslept⟩

/-- Without the start of a calibration the thread only ever sleeps for 20 ms. -/
theorem loopSleep_run (fpu : Fpu) {p : Timed} (hpc : p.sys.ctrl.pc = .loopSleep)
    {as : List Act}
    (hno : Along (timedNext fpu) (fun p a => a = .ctrl → ¬ StartsCalibration p.sys) p as) :
    (run (timedNext fpu) p as).sys.ctrl.pc = .loopSleep := by
  refine run_invariant (I := fun p : Timed => p.sys.ctrl.pc = .loopSleep) ?_ hpc hno
  intro p a hpc hno
  by_cases ha : a = .ctrl
  · subst ha
    rcases ctrlStep_stamp fpu p.sys with ⟨hstart, -, -, -⟩ | ⟨-, hloop, -, -⟩
    · exact absurd hstart (hno rfl)
    · exact hloop
  · rw [timedNext_other fpu ha]
    exact (congrArg CtrlThd.pc (sysNext_stamp fpu ha p.sys).1).trans hpc

/-- From the first completed iteration on the watchdog reports the control thread
as running, at every instant, as long as no iteration starts a calibration; and
every calibration that a run gets through trips it. -/
theorem live_ctrl_running_iff (fpu : Fpu) (s : Sys) (hdone : EndsIteration fpu s .ctrl)
    (as : List Act)
    (ht : Along (timedNext fpu) (Timely fpu) (Timed.start (sysNext fpu s .ctrl)) as) :
    (Along (timedNext fpu) (fun p a => a = .ctrl → ¬ StartsCalibration p.sys)
          (Timed.start (sysNext fpu s .ctrl)) as →
        ∀ pre, pre <+: as → ctrlIsRunning
          (run (timedNext fpu) (Timed.start (sysNext fpu s .ctrl)) pre).sys.vars = true)
      ∧ ((run (timedNext fpu) (Timed.start (sysNext fpu s .ctrl)) as).sys.ctrl.pc = .loopSleep →
        (∀ pre, pre <+: as → ctrlIsRunning
          (run (timedNext fpu) (Timed.start (sysNext fpu s .ctrl)) pre).sys.vars = true) →
        Along (timedNext fpu) (fun p a => a = .ctrl → ¬ StartsCalibration p.sys)
          (Timed.start (sysNext fpu s .ctrl)) as) := by
  have hinv := timedInv_start fpu hdone
  have hpc : (Timed.start (sysNext fpu s .ctrl)).sys.ctrl.pc = .loopSleep := hdone.2
  generalize Timed.start (sysNext fpu s .ctrl) = p at *
  constructor
  · rintro hno pre ⟨post, rfl⟩
    obtain ⟨L, hL⟩ := timedInv_run fpu hinv ((along_append _ _ _).mp ht).1
    exact hL.running (loopSleep_run fpu hpc ((along_append _ _ _).mp hno).1)
  · intro hend hrun
    refine along_iff.mpr ?_
    rintro pre a post rfl rfl hstart
    -- after the start the run has to get through the calibration sleep
    obtain ⟨-, hact, htail⟩ := (along_append _ _ _).mp ht
    rcases ctrlStep_stamp fpu (run (timedNext fpu) p pre).sys with ⟨-, hcal, -, -⟩ | ⟨hnot, -, -, -⟩
    · rw [run_append, run_cons] at hend
      obtain ⟨mid, ⟨rest, rfl⟩, hcal', hslept⟩ := calibrateSleep_ends fpu hcal htail hend
      have hsplit : pre ++ .ctrl :: (mid ++ rest) = (pre ++ .ctrl :: mid) ++ rest := by simp
      rw [hsplit] at ht hrun
      have hmid := timedInv_run fpu hinv ((along_append _ _ _).mp ht).1
      rw [run_append, run_cons] at hmid
      obtain ⟨L, hL⟩ := hmid
      have htrue := hrun (pre ++ .ctrl :: mid) (List.prefix_append _ _)
      rw [run_append, run_cons] at htrue
      cases htrue.symm.trans (hL.not_running hcal' hslept)
    · exact hnot hstart

/-- Two iterations with a reading in between, 45 ms after the first. -/
theorem live_ctrl_running_boot :
    ctrlIsRunning (run (timedNext Fpu.modular)
      (Timed.start (sysNext Fpu.modular (Sys.boot 0 0 0 0) .ctrl))
      [.imu imuAtRest, .tick 2000, .ctrl, .tick 2500]).sys.vars = true := by
  refine (live_ctrl_running_iff Fpu.modular (Sys.boot 0 0 0 0) ⟨rfl, by decide +kernel⟩
    [.imu imuAtRest, .tick 2000, .ctrl, .tick 2500]
    ⟨by decide +kernel, by decide +kernel, by decide +kernel, by decide +kernel, trivial⟩).1
    ⟨?_, ?_, ?_, ?_, trivial⟩ _ (List.prefix_refl _)
  · intro ha
    cases ha
  · intro ha
    cases ha
  · rintro - ⟨-, -, hflag, -⟩
    exact absurd hflag (by decide +kernel)
  · intro ha
    cases ha

/-- A firmware with the MDE powered up and polled, at the end of an iteration. -/
def poweredSys : Sys :=
  run (sysNext Fpu.modular) (Sys.boot 0 0 0 0)
    ([.ctrl, .req .mdePowerUp] ++ List.replicate 150 (.mde 0) ++ [.imu imuAtRest, .ctrl])

/-- A calibration is asked for, and half of its sleep has passed. -/
def calibrationActs : List Act :=
  [.req .azCalibrate, .tick 2000, .ctrl, .tick 50000] ++ List.replicate 12 (.mde 0)

/-- Half a second into the calibration sleep of a run in which nothing but the
sleeps takes time, the watchdog reports the control thread as stopped, and the
MDE thread wakes up again and again without sending the kick torque. -/
theorem live_ctrl_tripped_by_calibration :
    EndsIteration Fpu.modular poweredSys .ctrl
      ∧ Along (timedNext Fpu.modular) (Timely Fpu.modular)
          (Timed.start (sysNext Fpu.modular poweredSys .ctrl)) calibrationActs
      ∧ ctrlIsRunning (run (timedNext Fpu.modular)
          (Timed.start (sysNext Fpu.modular poweredSys .ctrl)) calibrationActs).sys.vars = false
      ∧ (run (sysNext Fpu.modular) (sysNext Fpu.modular poweredSys .ctrl)
          calibrationActs).vars.mde.motorAz = 25
      ∧ (run (sysNext Fpu.modular) (sysNext Fpu.modular poweredSys .ctrl)
          calibrationActs).vars.mde.isPoweredUp = true
      ∧ trace (sysNext Fpu.modular) (busObs Fpu.modular)
          (run (sysNext Fpu.modular) (sysNext Fpu.modular poweredSys .ctrl) calibrationActs)
          (List.replicate 12 (.mde 0)) = [] := by
  refine ⟨⟨rfl, ?_⟩, ?_, ?_, ?_, ?_, ?_⟩
  · decide +kernel
  · simp only [calibrationActs, List.replicate, List.cons_append, List.nil_append, along_cons,
      along_nil, and_true]
    decide +kernel
  all_goals decide +kernel

end Seatel
