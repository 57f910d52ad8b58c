import Seatel.System

/-!
# Skew positions

The skew axis has a mode and a target like the others, and requests that
set them, but its switch answers every closed-loop mode by falling back
to constant torque. Nobody reads the target, and the mode is read only to
be reset: wiping both commutes with every step (`sysNext_noSk`). So the
requests for a position can be left out of a run without a trace, on the
skew axis as well, which keeps the torque it had.
-/

namespace Seatel

open Runs

/-- The variables with the skew mode and the skew target wiped. -/
def Vars.noSk (v : Vars) : Vars :=
  { v with ctrl := { v.ctrl with skState := .constTorque, skTgtPos := 0 } }

def MdeOut.noSk (o : MdeOut) : MdeOut := { o with vars := o.vars.noSk }

theorem serve_noSk (v : Vars) (r : Request) : (serve v.noSk r).noSk = (serve v r).noSk := by
  cases r with
  | apiPos az el slow => cases slow <;> rfl
  | _ => rfl

theorem azControl_noSk (fpu : Fpu) (v : Vars) : azControl fpu v.noSk = (azControl fpu v).noSk := by
  have hst : v.noSk.ctrl.azState = v.ctrl.azState := rfl
  rw [azControl, azControl, hst]
  cases v.ctrl.azState with
  | constTorque => rfl
  | constSpeed => rfl
  | targetPosition =>
      have henc : azEnc v.noSk = azEnc v := rfl
      have htgt : azTgt fpu v.noSk = azTgt fpu v := rfl
      have hmot : v.noSk.mde.motorAz = v.mde.motorAz := rfl
      simp only [azTargetPosition, henc, htgt, hmot]
      split <;> rfl

theorem elControl_noSk (fpu : Fpu) (v : Vars) : elControl fpu v.noSk = (elControl fpu v).noSk := by
  have hst : v.noSk.ctrl.elState = v.ctrl.elState := rfl
  rw [elControl, elControl, hst]
  cases v.ctrl.elState <;> rfl

/-- The skew switch resets the mode and reads nothing else of the axis. -/
theorem ctrlAxes_noSk (fpu : Fpu) (v : Vars) :
    (ctrlAxes fpu v.noSk).noSk = (ctrlAxes fpu v).noSk := by
  rw [ctrlAxes, ctrlAxes, skControl_eq, skControl_eq, azControl_noSk, elControl_noSk]
  rfl

theorem ctrlStep_noSk (fpu : Fpu) (v : Vars) (t : CtrlThd) :
    (ctrlStep fpu v.noSk t).1.noSk = (ctrlStep fpu v t).1.noSk
      ∧ (ctrlStep fpu v.noSk t).2 = (ctrlStep fpu v t).2 := by
  have hflag' : v.noSk.ctrl.azFlagCalibrate = v.ctrl.azFlagCalibrate := rfl
  have hst' : v.noSk.ctrl.azState = v.ctrl.azState := rfl
  cases hpc : t.pc with
  | calibrateSleep =>
      rw [ctrlStep_resume fpu v hpc, ctrlStep_resume fpu v.noSk hpc]
      exact ⟨ctrlAxes_noSk fpu (setAzState .constSpeed (setAzTgtSpd (180 * 30) v)), rfl⟩
  | loopSleep =>
      cases htrip : failsafe v.imu with
      | true =>
          rw [ctrlStep_tripped fpu hpc htrip, ctrlStep_tripped fpu (v := v.noSk) hpc htrip]
          exact ⟨ctrlAxes_noSk fpu (stopAll v), rfl⟩
      | false =>
          cases hflag : v.ctrl.azFlagCalibrate with
          | false =>
              rw [ctrlStep_plain fpu hpc htrip hflag,
                ctrlStep_plain fpu (v := v.noSk) hpc htrip hflag]
              exact ⟨ctrlAxes_noSk fpu v, rfl⟩
          | true =>
              by_cases hst : v.ctrl.azState = .constSpeed
              · rw [ctrlStep_rotating fpu hpc htrip hflag hst,
                  ctrlStep_rotating fpu (v := v.noSk) hpc htrip hflag hst]
                have henc : v.noSk.mde.encAz = v.mde.encAz := rfl
                rw [henc]
                refine ⟨?_, rfl⟩
                split
                · exact ctrlAxes_noSk fpu (azSetConstTrq 0 v)
                · exact ctrlAxes_noSk fpu v
              · rw [ctrlStep_starting fpu hpc htrip hflag hst,
                  ctrlStep_starting fpu (v := v.noSk) hpc htrip hflag hst]
                exact ⟨rfl, rfl⟩

theorem mdeGate_noSk (v : Vars) (t : MdeThd) : mdeGate v.noSk t = (mdeGate v t).noSk := by
  have hrun : ctrlIsRunning v.noSk = ctrlIsRunning v := rfl
  have hon : v.noSk.mde.isPoweredUp = v.mde.isPoweredUp := rfl
  rw [mdeGate, mdeGate, hrun, hon]
  split <;> rfl

theorem mdePowerUpTest_noSk (v : Vars) (t : MdeThd) :
    mdePowerUpTest v.noSk t = (mdePowerUpTest v t).noSk := by
  have hmde : v.noSk.mde = v.mde := rfl
  rw [mdePowerUpTest, mdePowerUpTest, hmde]
  split
  · rfl
  · exact mdeGate_noSk v t

theorem mdeInit_noSk (rest : List InitOp) (v : Vars) (t : MdeThd) :
    mdeInit rest v.noSk t = (mdeInit rest v t).noSk := by
  rcases rest with _ | ⟨op, rest⟩
  · exact mdeGate_noSk { v with mde := { v.mde with powerUp := false, isPoweredUp := true } } t
  · cases op <;> rfl

/-- The MDE thread does not look at the skew mode and target. -/
theorem mdeStep_noSk (fpu : Fpu) (miso : UInt16) (v : Vars) (t : MdeThd) :
    mdeStep fpu miso v.noSk t = (mdeStep fpu miso v t).noSk := by
  rw [mdeStep, mdeStep]
  cases t.pc with
  | loopSleep =>
      have hmde : v.noSk.mde = v.mde := rfl
      simp only [mdeTop, hmde]
      split
      · rfl
      · exact mdePowerUpTest_noSk v t
  | powerDnSleep =>
      exact mdePowerUpTest_noSk
        { v with mde := { v.mde with powerDn := false, isPoweredUp := false } } t
  | imuCalibrate i accu =>
      simp only
      split <;> rfl
  | powerUpSleep => exact mdeInit_noSk initScript v t
  | init rest => exact mdeInit_noSk rest v t
  | poll i =>
      simp only
      cases pollWords[i + 1]? <;> rfl
  | torque m => cases m <;> rfl

def Sys.noSk (s : Sys) : Sys := { s with vars := s.vars.noSk }

theorem sysNext_noSk (fpu : Fpu) (s : Sys) (a : Act) :
    (sysNext fpu s.noSk a).noSk = (sysNext fpu s a).noSk
      ∧ busObs fpu s.noSk a = busObs fpu s a := by
  cases a with
  | req r =>
      refine ⟨?_, rfl⟩
      exact congrArg (fun v => { s with vars := v }) (serve_noSk s.vars r)
  | ctrl =>
      obtain ⟨hvars, hthd⟩ := ctrlStep_noSk fpu s.vars s.ctrl
      refine ⟨?_, rfl⟩
      exact congrArg₂ (fun v t => { s with vars := v, ctrl := t }) hvars hthd
  | mde miso =>
      have hstep := mdeStep_noSk fpu miso s.vars s.mde
      refine ⟨congrArg (fun o : MdeOut => { s with vars := o.vars.noSk, mde := o.thd }) hstep, ?_⟩
      rw [busObs, busObs]
      exact (congrArg MdeOut.events hstep :)
  | imu r => exact ⟨rfl, rfl⟩
  | tick n => exact ⟨rfl, rfl⟩

theorem noSk_next (fpu : Fpu) {s t : Sys} (h : s.noSk = t.noSk) (a : Act) :
    (sysNext fpu s a).noSk = (sysNext fpu t a).noSk ∧ busObs fpu s a = busObs fpu t a := by
  obtain ⟨hs, hs'⟩ := sysNext_noSk fpu s a
  obtain ⟨ht, ht'⟩ := sysNext_noSk fpu t a
  rw [← hs, ← ht, ← hs', ← ht', h]
  exact ⟨rfl, rfl⟩

/-- Not a skew position. -/
def notSkPos : Act → Bool
  | .req (.skSetTgtPos _) => false
  | _ => true

/-- Requests for a skew position do nothing: with all of them left out, every run from
every state shows the same events, skew torques included. -/
theorem skew_positions_ignored (fpu : Fpu) (s : Sys) (as : List Act) :
    trace (sysNext fpu) (busObs fpu) s (as.filter notSkPos)
      = trace (sysNext fpu) (busObs fpu) s as := by
  have hacts : Matched (fun a => ∃ p, a = .req (.skSetTgtPos p)) Eq (as.filter notSkPos) as := by
    induction as with
    | nil => exact .nil
    | cons a as ih =>
        cases hsk : notSkPos a with
        | true =>
            rw [List.filter_cons_of_pos hsk]
            exact .both rfl ih
        | false =>
            rw [List.filter_cons_of_neg (by simp [hsk])]
            refine .right ?_ ih
            cases a with
            | req r =>
                cases r with
                | skSetTgtPos p => exact ⟨p, rfl⟩
                | _ => cases hsk
            | _ => cases hsk
  refine (hacts.run_trace (R := fun s t : Sys => s.noSk = t.noSk) ?_ ?_ ?_ ?_ rfl).2
  · rintro s t _ hst ⟨p, rfl⟩
    exact hst
  · rintro s t _ hst ⟨p, rfl⟩
    exact hst
  · rintro s _ ⟨p, rfl⟩
    rfl
  · rintro s t a _ hst rfl
    exact noSk_next fpu hst a

end Seatel
