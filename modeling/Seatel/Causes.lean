import Seatel.Failsafe
import Seatel.MdeProtocol

/-!
# Nothing moves by itself

Three things the firmware never does on its own. A motor is not driven
unless a request asked for motion of its own axis, and none of the trips
since then has cancelled it: the failsafe stops the axes together, but
each is woken up only by a command of its own. The drive is not powered
up more often than `mde_power_up` was called, nor powered down more often
than `mde_power_down` was.

The first is the rule for causes over the state in which an axis is idle
(`idle_next`), the others are countings: a latched flag that the thread
has not taken up yet is a request that is still to be spent (`pendingUp`,
`pendingDn`).
-/

namespace Seatel

open Runs

/-! ## Motion -/

/-- The request can lead to a torque other than 0 on the axis. Skew positions are never
driven to. -/
def moves : Motor → Request → Bool
  | .az, .azSetConstTrq t => t != 0
  | .az, .azSetTgtPos _ => true
  | .az, .azCalibrate => true
  | .az, .apiPos _ _ _ => true
  | .az, .apiStop => true
  | .el, .elSetConstTrq t => t != 0
  | .el, .elSetTgtPos _ => true
  | .el, .apiPos _ _ _ => true
  | .el, .apiStop => true
  | .sk, .skSetConstTrq t => t != 0
  | _, _ => false

def Moves (m : Motor) (a : Act) : Prop := ∃ r, a = .req r ∧ moves m r = true

/-- The step is an iteration that trips the failsafe. -/
def Trips (s : Sys) (a : Act) : Prop :=
  a = .ctrl ∧ s.ctrl.pc = .loopSleep ∧ failsafe s.vars.imu = true

/-- No torque, and nothing under way that would bring one. -/
def Idle : Motor → Vars → CtrlPc → Prop
  | .az, v, pc => v.mde.motorAz = 0 ∧ v.ctrl.azState = .constTorque
      ∧ v.ctrl.azFlagCalibrate = false ∧ pc = .loopSleep
  | .el, v, _ => v.mde.motorEl = 0 ∧ v.ctrl.elState = .constTorque
  | .sk, v, _ => v.mde.motorSk = 0

theorem Idle.motor {m : Motor} {v : Vars} {pc : CtrlPc} (h : Idle m v pc) :
    v.mde.motor m = 0 := by
  cases m with
  | az => exact h.1
  | el => exact h.1
  | sk => exact h

theorem idle_trips (fpu : Fpu) (m : Motor) {s : Sys} {a : Act} (h : Trips s a) :
    Idle m (sysNext fpu s a).vars (sysNext fpu s a).ctrl.pc := by
  obtain ⟨rfl, hpc, htrip⟩ := h
  have hstop := stopped_of_failsafe fpu hpc htrip
  cases m with
  | az => exact ⟨hstop.motorAz, hstop.azState, hstop.azFlagCalibrate, hstop.pc⟩
  | el => exact ⟨hstop.motorEl, hstop.elState⟩
  | sk => exact hstop.motorSk

theorem idle_serve {m : Motor} {v : Vars} {pc : CtrlPc} (h : Idle m v pc) {r : Request}
    (hr : moves m r = false) : Idle m (serve v r) pc := by
  cases m with
  | az =>
      cases r with
      | azSetConstTrq t =>
          have ht : t = 0 := bne_eq_false_iff_eq.mp hr
          exact ⟨ht, rfl, rfl, h.2.2.2⟩
      | azSetTgtPos p => cases hr
      | azCalibrate => cases hr
      | apiPos az el slow => cases hr
      | apiStop => cases hr
      | _ => exact h
  | el =>
      cases r with
      | elSetConstTrq t =>
          have ht : t = 0 := bne_eq_false_iff_eq.mp hr
          exact ⟨ht, rfl⟩
      | elSetTgtPos p => cases hr
      | apiPos az el slow => cases hr
      | apiStop => cases hr
      | _ => exact h
  | sk =>
      cases r with
      | skSetConstTrq t =>
          have ht : t = 0 := bne_eq_false_iff_eq.mp hr
          exact ht
      | apiPos az el slow => cases slow <;> exact h
      | _ => exact h

theorem idle_ctrlAxes (fpu : Fpu) {m : Motor} {v : Vars} {pc : CtrlPc} (h : Idle m v pc) :
    Idle m (ctrlAxes fpu v) pc := by
  cases m with
  | az =>
      obtain ⟨hmot, hst, hflag, hpc⟩ := h
      exact ⟨(ctrlAxes_motorAz fpu hst).trans hmot, (ctrlAxes_azState fpu v).trans hst,
        (ctrlAxes_azFlagCalibrate fpu v).trans hflag, hpc⟩
  | el =>
      obtain ⟨hmot, hst⟩ := h
      exact ⟨(ctrlAxes_motorEl fpu hst).trans hmot, (ctrlAxes_elState fpu v).trans hst⟩
  | sk => exact (ctrlAxes_motorSk fpu v).trans h

/-- An idle azimuth axis excludes a calibration; the other two do not mind one. -/
theorem idle_ctrl (fpu : Fpu) {m : Motor} {v : Vars} {t : CtrlThd} (h : Idle m v t.pc) :
    Idle m (ctrlStep fpu v t).1 (ctrlStep fpu v t).2.pc := by
  cases hpc : t.pc with
  | calibrateSleep =>
      rw [hpc] at h
      rw [ctrlStep_resume fpu v hpc]
      refine idle_ctrlAxes fpu ?_
      cases m with
      | az => cases h.2.2.2
      | el => exact h
      | sk => exact h
  | loopSleep =>
      have hcases := ctrlStep_cases fpu v hpc
      rw [hpc] at h
      generalize ctrlStep fpu v t = r at hcases
      cases hcases with
      | failsafe =>
          refine idle_ctrlAxes fpu ?_
          cases m with
          | az => exact ⟨rfl, rfl, rfl, rfl⟩
          | el => exact ⟨rfl, rfl⟩
          | sk => rfl
      | plain => exact idle_ctrlAxes fpu h
      | start _ hflag hst =>
          cases m with
          | az => cases hflag.symm.trans h.2.2.1
          | el => exact h
          | sk => exact h
      | finish _ hflag hst hover =>
          refine idle_ctrlAxes fpu ?_
          cases m with
          | az => cases hflag.symm.trans h.2.2.1
          | el => exact h
          | sk => exact h
      | rotate => exact idle_ctrlAxes fpu h

/-- Only a request for the axis wakes it up. -/
theorem idle_next (fpu : Fpu) {m : Motor} {s : Sys} (h : Idle m s.vars s.ctrl.pc) {a : Act}
    (ha : ¬ Moves m a) : Idle m (sysNext fpu s a).vars (sysNext fpu s a).ctrl.pc := by
  cases a with
  | req r => exact idle_serve h (Bool.eq_false_iff.mpr fun hr => ha ⟨r, rfl, hr⟩)
  | ctrl => exact idle_ctrl fpu h
  | mde miso =>
      have hf := mdeStep_frame fpu miso s.vars s.mde
      cases m with
      | az =>
          exact ⟨(hf.motor .az).trans h.1, (congrArg Ctrl.azState hf.ctrl).trans h.2.1,
            (congrArg Ctrl.azFlagCalibrate hf.ctrl).trans h.2.2.1, h.2.2.2⟩
      | el => exact ⟨(hf.motor .el).trans h.1, (congrArg Ctrl.elState hf.ctrl).trans h.2⟩
      | sk => exact (hf.motor .sk).trans h
  | imu r => cases m <;> exact h
  | tick n => cases m <;> exact h

theorem idle_boot (m : Motor) (oldAz : UInt16) (oldT : SysTime) (oldX : UInt16) (fc : UInt8) :
    Idle m (Sys.boot oldAz oldT oldX fc).vars (Sys.boot oldAz oldT oldX fc).ctrl.pc := by
  cases m with
  | az => exact ⟨rfl, rfl, rfl, rfl⟩
  | el => exact ⟨rfl, rfl⟩
  | sk => rfl

/-! ## Power -/

def BusEvent.rises : BusEvent → Bool
  | .line true => true
  | _ => false

def BusEvent.falls : BusEvent → Bool
  | .line false => true
  | _ => false

/-- From the rising line to the end of the initialisation. -/
def MdePc.startingUp : MdePc → Bool
  | .imuCalibrate _ _ => true
  | .powerUpSleep => true
  | .init _ => true
  | _ => false

/-- A call of `mde_power_up` that the thread has not taken up: while it starts up, the
flag is the one it started for. -/
def pendingUp (p : PwrView) (pc : MdePc) : Nat := if !pc.startingUp && p.powerUp then 1 else 0

def pendingDn (p : PwrView) (pc : MdePc) : Nat :=
  if !(pc == .powerDnSleep) && p.powerDn then 1 else 0

/-- The step has not driven the line more often than calls were pending. -/
structure MdeOut.Paid (out : MdeOut) (up dn : Nat) : Prop where
  up : out.events.countP BusEvent.rises + pendingUp out.vars.pwr out.thd.pc ≤ up
  dn : out.events.countP BusEvent.falls + pendingDn out.vars.pwr out.thd.pc ≤ dn

theorem mdeGate_paid (v : Vars) (t : MdeThd) :
    (mdeGate v t).Paid (pendingUp v.pwr .loopSleep) (pendingDn v.pwr .loopSleep) := by
  unfold mdeGate
  split
  · exact ⟨Nat.le_of_eq (Nat.zero_add _), Nat.le_of_eq (Nat.zero_add _)⟩
  · exact ⟨Nat.le_of_eq (Nat.zero_add _), Nat.le_of_eq (Nat.zero_add _)⟩

theorem mdePowerUpTest_paid (v : Vars) (t : MdeThd) :
    (mdePowerUpTest v t).Paid (pendingUp v.pwr .loopSleep) (pendingDn v.pwr .loopSleep) := by
  unfold mdePowerUpTest
  split
  · rename_i h
    have hup : v.mde.powerUp = true := (Bool.and_eq_true_iff.mp h).1
    refine ⟨?_, Nat.le_of_eq (Nat.zero_add _)⟩
    simp [pendingUp, MdePc.startingUp, BusEvent.rises, Vars.pwr, hup]
  · exact mdeGate_paid v t

theorem mdeInit_paid (rest : List InitOp) (v : Vars) (t : MdeThd) :
    (mdeInit rest v t).Paid 0 (pendingDn v.pwr .loopSleep) := by
  unfold mdeInit
  split
  · refine ⟨?_, Nat.le_of_eq (Nat.zero_add _)⟩
    simp [pendingUp, MdePc.startingUp, BusEvent.rises]
  · refine ⟨?_, Nat.le_of_eq (Nat.zero_add _)⟩
    simp [pendingUp, MdePc.startingUp]
  · -- a call that came during the initialisation is dropped with the flag
    exact mdeGate_paid { v with mde := { v.mde with powerUp := false, isPoweredUp := true } } t

theorem mdeStep_paid (fpu : Fpu) (miso : UInt16) (v : Vars) (t : MdeThd) :
    (mdeStep fpu miso v t).Paid (pendingUp v.pwr t.pc) (pendingDn v.pwr t.pc) := by
  unfold mdeStep
  cases hpc : t.pc with
  | loopSleep =>
      simp only [mdeTop]
      split
      · rename_i h
        have hdn : v.mde.powerDn = true := (Bool.and_eq_true_iff.mp h).1
        refine ⟨Nat.le_of_eq (Nat.zero_add _), ?_⟩
        simp [pendingDn, BusEvent.falls, Vars.pwr, hdn]
      · exact mdePowerUpTest_paid v t
  | powerDnSleep =>
      obtain ⟨hup, hdn⟩ := mdePowerUpTest_paid
        { v with mde := { v.mde with powerDn := false, isPoweredUp := false } } t
      exact ⟨hup, hdn.trans (Nat.zero_le _)⟩
  | imuCalibrate i accu =>
      simp only
      split
      · exact ⟨Nat.le_of_eq (Nat.zero_add _), Nat.le_of_eq (Nat.zero_add _)⟩
      · exact ⟨Nat.le_of_eq (Nat.zero_add _), Nat.le_of_eq (Nat.zero_add _)⟩
  | powerUpSleep => exact mdeInit_paid initScript v t
  | init rest => exact mdeInit_paid rest v t
  | poll i =>
      simp only
      split
      · exact ⟨Nat.le_of_eq (Nat.zero_add _), Nat.le_of_eq (Nat.zero_add _)⟩
      · exact ⟨Nat.le_of_eq (Nat.zero_add _), Nat.le_of_eq (Nat.zero_add _)⟩
  | torque m =>
      cases m <;> exact ⟨Nat.le_of_eq (Nat.zero_add _), Nat.le_of_eq (Nat.zero_add _)⟩

/-- A call pends once at most, however often it is repeated. -/
theorem pending_serve (v : Vars) (pc : MdePc) (r : Request) :
    pendingUp (serve v r).pwr pc ≤ pendingUp v.pwr pc + [Act.req r].count (.req .mdePowerUp)
      ∧ pendingDn (serve v r).pwr pc
        ≤ pendingDn v.pwr pc + [Act.req r].count (.req .mdePowerDown) := by
  cases r with
  | mdePowerUp =>
      have hone : pendingUp (serve v .mdePowerUp).pwr pc ≤ 1 := by
        unfold pendingUp
        split <;> omega
      exact ⟨hone.trans (Nat.le_add_left 1 _), Nat.le_refl _⟩
  | mdePowerDown =>
      have hone : pendingDn (serve v .mdePowerDown).pwr pc ≤ 1 := by
        unfold pendingDn
        split <;> omega
      exact ⟨Nat.le_refl _, hone.trans (Nat.le_add_left 1 _)⟩
  | apiPos az el slow => cases slow <;> exact ⟨Nat.le_refl _, Nat.le_refl _⟩
  | _ => exact ⟨Nat.le_refl _, Nat.le_refl _⟩

theorem sysNext_paid (fpu : Fpu) (s : Sys) (a : Act) :
    (busObs fpu s a).countP BusEvent.rises
          + pendingUp (sysNext fpu s a).vars.pwr (sysNext fpu s a).mde.pc
        ≤ pendingUp s.vars.pwr s.mde.pc + [a].count (.req .mdePowerUp)
      ∧ (busObs fpu s a).countP BusEvent.falls
          + pendingDn (sysNext fpu s a).vars.pwr (sysNext fpu s a).mde.pc
        ≤ pendingDn s.vars.pwr s.mde.pc + [a].count (.req .mdePowerDown) := by
  cases a with
  | req r =>
      obtain ⟨hup, hdn⟩ := pending_serve s.vars s.mde.pc r
      exact ⟨(Nat.zero_add _).trans_le hup, (Nat.zero_add _).trans_le hdn⟩
  | ctrl =>
      simp only [busObs, sysNext, ctrlStep_pwr]
      exact ⟨(Nat.zero_add _).trans_le (Nat.le_add_right _ _),
        (Nat.zero_add _).trans_le (Nat.le_add_right _ _)⟩
  | mde miso =>
      obtain ⟨hup, hdn⟩ := mdeStep_paid fpu miso s.vars s.mde
      exact ⟨hup, hdn⟩
  | imu r => exact ⟨Nat.le_of_eq (Nat.zero_add _), Nat.le_of_eq (Nat.zero_add _)⟩
  | tick n => exact ⟨Nat.le_of_eq (Nat.zero_add _), Nat.le_of_eq (Nat.zero_add _)⟩

section Boot

variable (fpu : Fpu) (oldAz : UInt16) (oldT : SysTime) (oldX : UInt16) (fc : UInt8)
  (as : List Act)

theorem rises_le_powerUp :
    (trace (sysNext fpu) (busObs fpu) (Sys.boot oldAz oldT oldX fc) as).countP BusEvent.rises
      ≤ as.count (.req .mdePowerUp) := by
  have hpaid := countP_trace_le (I := fun _ => True)
    (φ := fun s : Sys => pendingUp s.vars.pwr s.mde.pc) (fun _ _ _ => trivial)
    (fun s a _ => (sysNext_paid fpu s a).1) (s := Sys.boot oldAz oldT oldX fc) trivial as
  exact (Nat.le_add_right _ _).trans (hpaid.trans (Nat.le_of_eq (Nat.zero_add _)))

theorem falls_le_powerDown :
    (trace (sysNext fpu) (busObs fpu) (Sys.boot oldAz oldT oldX fc) as).countP BusEvent.falls
      ≤ as.count (.req .mdePowerDown) := by
  have hpaid := countP_trace_le (I := fun _ => True)
    (φ := fun s : Sys => pendingDn s.vars.pwr s.mde.pc) (fun _ _ _ => trivial)
    (fun s a _ => (sysNext_paid fpu s a).2) (s := Sys.boot oldAz oldT oldX fc) trivial as
  exact (Nat.le_add_right _ _).trans (hpaid.trans (Nat.le_of_eq (Nat.zero_add _)))

/-- In every run the power line rises at most once for each call of `mde_power_up`, and
falls at most once for each call of `mde_power_down`. -/
theorem power_changes_requested :
    (trace (sysNext fpu) (busObs fpu) (Sys.boot oldAz oldT oldX fc) as).countP BusEvent.rises
        ≤ as.count (.req .mdePowerUp)
      ∧ (trace (sysNext fpu) (busObs fpu) (Sys.boot oldAz oldT oldX fc) as).countP BusEvent.falls
        ≤ as.count (.req .mdePowerDown) :=
  ⟨rises_le_powerUp fpu oldAz oldT oldX fc as, falls_le_powerDown fpu oldAz oldT oldX fc as⟩

end Boot

/-! ## Words -/

/-- A line that is high has risen. -/
theorem exists_rises {level : Bool} {es : List BusEvent} (h : run lineNext level es = true) :
    level = true ∨ ∃ e ∈ es, e.rises = true := by
  induction es generalizing level with
  | nil => exact Or.inl h
  | cons e es ih =>
      rcases ih h with hlevel | ⟨e', he', hrises⟩
      · cases e with
        | line level' =>
            refine Or.inr ⟨_, List.mem_cons_self, ?_⟩
            have hhigh : level' = true := hlevel
            rw [hhigh]
            rfl
        | _ => exact Or.inl hlevel
      · exact Or.inr ⟨e', List.mem_cons_of_mem e he', hrises⟩

/-- A word that a run shows needs a call of `mde_power_up`. -/
theorem powerUp_of_word {fpu : Fpu} {oldAz : UInt16} {oldT : SysTime} {oldX : UInt16} {fc : UInt8}
    {as : List Act} {e : BusEvent} {w : UInt16}
    (he : e ∈ trace (sysNext fpu) (busObs fpu) (Sys.boot oldAz oldT oldX fc) as)
    (hw : e.word = some w) : Act.req .mdePowerUp ∈ as := by
  obtain ⟨before, after, hsplit⟩ := List.append_of_mem he
  rcases exists_rises (boot_line_high hsplit hw) with hlow | ⟨e', he', hrises⟩
  · cases hlow
  · have hpaid := rises_le_powerUp fpu oldAz oldT oldX fc as
    have hone : 0 < (before ++ e :: after).countP BusEvent.rises :=
      List.countP_pos_iff.mpr ⟨e', List.mem_append_left _ he', hrises⟩
    rw [hsplit] at hpaid
    exact List.count_pos_iff.mp (hone.trans_le hpaid)

/-- A torque other than 0 that a run of the booted firmware sends to a motor has been
asked for: `mde_power_up` was called, and motion of that axis was requested with no trip
of the failsafe since then. -/
theorem motion_requested (fpu : Fpu) (oldAz : UInt16) (oldT : SysTime) (oldX : UInt16)
    (fc : UInt8) (as : List Act) (miso : UInt16) (m : Motor) (w : UInt16)
    (hw : .torque m w ∈ busObs fpu (run (sysNext fpu) (Sys.boot oldAz oldT oldX fc) as) (.mde miso))
    (hne : trqTorque w ≠ 0) :
    Act.req .mdePowerUp ∈ as
      ∧ ∃ pre a post, as = pre ++ a :: post ∧ Moves m a
        ∧ Along (sysNext fpu) (fun s a => ¬ Trips s a)
            (run (sysNext fpu) (Sys.boot oldAz oldT oldX fc) (pre ++ [a])) post := by
  constructor
  · have hshown : .torque m w ∈ trace (sysNext fpu) (busObs fpu)
        (Sys.boot oldAz oldT oldX fc) (as ++ [.mde miso]) :=
      mem_trace.mpr ⟨as, .mde miso, [], rfl, hw⟩
    rcases List.mem_append.mp (powerUp_of_word hshown rfl) with hmem | hmem
    · exact hmem
    · cases List.mem_singleton.mp hmem
  · have hidle : ¬ Idle m (run (sysNext fpu) (Sys.boot oldAz oldT oldX fc) as).vars
        (run (sysNext fpu) (Sys.boot oldAz oldT oldX fc) as).ctrl.pc := by
      intro hidle
      rw [mdeStep_torque hw, trqTorque_mdeCmdSetMotTrq] at hne
      exact hne hidle.motor
    obtain ⟨pre, a, post, heq, hmoves, hpost⟩ :=
      exists_cause (I := fun s : Sys => Idle m s.vars s.ctrl.pc) (C := fun _ a => Moves m a)
        (D := Trips) (fun s a hs ha => idle_next fpu hs ha) (fun s a h => idle_trips fpu m h)
        (idle_boot m oldAz oldT oldX fc) hidle
    refine ⟨pre, a, post, heq, hmoves, ?_⟩
    rw [run_append]
    exact hpost

/-- From the request to power up to the first torque word, with a manual torque before it. -/
def manualActs : List Act :=
  .req .mdePowerUp :: (List.replicate 140 (.mde 0) ++ [.req (.azSetConstTrq 25)])

/-- The word that carries the manual torque of 25. -/
theorem motion_requested_manual :
    trqTorque (mdeCmdSetMotTrq Motor.az.code 25) ≠ 0
      ∧ ∃ pre a post, manualActs = pre ++ a :: post ∧ Moves .az a
        ∧ Along (sysNext Fpu.modular) (fun s a => ¬ Trips s a)
            (run (sysNext Fpu.modular) (Sys.boot 0 0 0 0) (pre ++ [a])) post := by
  have hne : trqTorque (mdeCmdSetMotTrq Motor.az.code 25) ≠ 0 := by decide +kernel
  exact ⟨hne, (motion_requested Fpu.modular 0 0 0 0 manualActs 0 .az
    (mdeCmdSetMotTrq Motor.az.code 25) (by decide +kernel) hne).2⟩

end Seatel
