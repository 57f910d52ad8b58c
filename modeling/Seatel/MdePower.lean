import Seatel.System

/-!
# The MDE power switch

`mde_power_up` and `mde_power_down` latch a flag each, and each flag is
cleared only by the branch that acts on it. A power-down request while
the MDE is off, or a power-up request while it is on, is therefore not
dropped: it waits for the next change of state and then undoes it.

The analysis is one of three functions of the power variables and the
position of the thread. `PwrInv` ties the line and `is_powered_up` to the
position. `pwrOutcome` is the state the switch comes to rest in, which no
step without a call changes. `pwrRank` bounds the ends of iterations
until then, at most two from the end of an iteration. A call is obeyed
exactly when it makes the outcome what it asks for (`PwrCallOk`).
-/

namespace Seatel

open Runs

/-- `LINE_MDE_PWR` and `is_powered_up` at each wait of the MDE thread. -/
def PwrInv (p : PwrView) : MdePc → Prop
  | .loopSleep => p.lineMdePwr = p.isPoweredUp
  | .powerDnSleep => p.powerDn = true ∧ p.isPoweredUp = true ∧ p.lineMdePwr = false
  | .imuCalibrate _ _ => p.powerUp = true ∧ p.isPoweredUp = false ∧ p.lineMdePwr = true
  | .powerUpSleep => p.powerUp = true ∧ p.isPoweredUp = false ∧ p.lineMdePwr = true
  | .init _ => p.powerUp = true ∧ p.isPoweredUp = false ∧ p.lineMdePwr = true
  | .poll _ => p.isPoweredUp = true ∧ p.lineMdePwr = true
  | .torque _ => p.isPoweredUp = true ∧ p.lineMdePwr = true

/-- Where the switch comes to rest when no further call is made. -/
def pwrOutcome (p : PwrView) : Bool :=
  if p.isPoweredUp then !p.powerDn || p.powerUp else p.powerUp && !p.powerDn

/-- How many more iterations have to end before it does. -/
def pwrRank (p : PwrView) : MdePc → Nat
  | .loopSleep =>
      if p.isPoweredUp then if p.powerDn then 1 else 0
      else if p.powerUp then if p.powerDn then 2 else 1 else 0
  | .powerDnSleep => 1
  | .imuCalibrate _ _ => if p.powerDn then 2 else 1
  | .powerUpSleep => if p.powerDn then 2 else 1
  | .init _ => if p.powerDn then 2 else 1
  | .poll _ => if p.powerDn then 2 else 0
  | .torque _ => if p.powerDn then 2 else 0

/-- What a step of the thread does to the three. -/
structure PwrStep (p : PwrView) (pc : MdePc) (p' : PwrView) (pc' : MdePc) : Prop where
  inv : PwrInv p' pc'
  outcome : pwrOutcome p' = pwrOutcome p
  rank : pwrRank p' pc' ≤ pwrRank p pc - if pc' = .loopSleep then 1 else 0

/-! ## Steps of the MDE thread -/

theorem mdeGate_pwr {v : Vars} (t : MdeThd) (hline : v.mde.lineMdePwr = v.mde.isPoweredUp)
    {p : PwrView} {pc : MdePc} (hout : pwrOutcome v.pwr = pwrOutcome p)
    (hpoll : v.mde.isPoweredUp = true → pwrRank v.pwr (.poll 0) ≤ pwrRank p pc)
    (hloop : pwrRank v.pwr .loopSleep ≤ pwrRank p pc - 1) :
    PwrStep p pc (mdeGate v t).vars.pwr (mdeGate v t).thd.pc := by
  unfold mdeGate
  split
  · rename_i h
    have hon : v.mde.isPoweredUp = true := (Bool.and_eq_true _ _ ▸ h).1
    exact ⟨⟨hon, hline.trans hon⟩, hout, hpoll hon⟩
  · exact ⟨hline, hout, hloop⟩

/-- From the end of the power-down branch, with the line following
`is_powered_up` again. -/
theorem mdePowerUpTest_pwr {v : Vars} (t : MdeThd)
    (hline : v.mde.lineMdePwr = v.mde.isPoweredUp)
    (hdn : v.mde.powerDn = true → v.mde.isPoweredUp = false)
    {p : PwrView} {pc : MdePc} (hout : pwrOutcome v.pwr = pwrOutcome p)
    (hup : v.mde.powerUp = true → v.mde.isPoweredUp = false →
      (if v.mde.powerDn then 2 else 1) ≤ pwrRank p pc) :
    PwrStep p pc (mdePowerUpTest v t).vars.pwr (mdePowerUpTest v t).thd.pc := by
  unfold mdePowerUpTest
  split
  · rename_i h
    simp only [Bool.and_eq_true, Bool.not_eq_true'] at h
    exact ⟨⟨h.1, h.2, rfl⟩, hout, hup h.1 h.2⟩
  · rename_i h
    simp only [Bool.and_eq_true, Bool.not_eq_true', not_and, Bool.not_eq_false] at h
    refine mdeGate_pwr t hline hout ?_ ?_
    · intro hon
      have hdn' : v.mde.powerDn = false := by
        cases hd : v.mde.powerDn with
        | false => rfl
        | true => cases hon.symm.trans (hdn hd)
      simp [pwrRank, Vars.pwr, hdn']
    · cases hon : v.mde.isPoweredUp <;> cases hu : v.mde.powerUp <;> simp_all [pwrRank, Vars.pwr]

theorem mdeInit_pwr {rest : List InitOp} {v : Vars} {t : MdeThd} {pc : MdePc}
    (h : v.mde.powerUp = true ∧ v.mde.isPoweredUp = false ∧ v.mde.lineMdePwr = true)
    (hrank : pwrRank v.pwr pc = if v.mde.powerDn then 2 else 1) :
    PwrStep v.pwr pc (mdeInit rest v t).vars.pwr (mdeInit rest v t).thd.pc := by
  unfold mdeInit
  split
  · exact ⟨h, rfl, Nat.le_of_eq hrank.symm⟩
  · exact ⟨h, rfl, Nat.le_of_eq hrank.symm⟩
  · -- the flag of the other request decides whether the power-up lasts
    obtain ⟨hup, hon, hline⟩ := h
    refine mdeGate_pwr t hline ?_ ?_ ?_
    · simp [pwrOutcome, Vars.pwr, hup, hon]
    · intro _
      rw [hrank]
      cases hd : v.mde.powerDn <;> simp [pwrRank, Vars.pwr, hd]
    · rw [hrank]
      cases hd : v.mde.powerDn <;> simp [pwrRank, Vars.pwr, hd]

theorem mdeStep_pwr (fpu : Fpu) (miso : UInt16) {v : Vars} {t : MdeThd}
    (h : PwrInv v.pwr t.pc) :
    PwrStep v.pwr t.pc (mdeStep fpu miso v t).vars.pwr (mdeStep fpu miso v t).thd.pc := by
  cases hpc : t.pc with
  | loopSleep =>
      rw [hpc] at h
      simp only [mdeStep, hpc, mdeTop]
      split
      · rename_i hdn
        simp only [Bool.and_eq_true] at hdn
        refine ⟨⟨hdn.1, hdn.2, rfl⟩, rfl, ?_⟩
        simp [pwrRank, Vars.pwr, hdn.1, hdn.2]
      · rename_i hdn
        simp only [Bool.and_eq_true, not_and, Bool.not_eq_true] at hdn
        refine mdePowerUpTest_pwr t h hdn rfl ?_
        intro hup hon
        simp [pwrRank, Vars.pwr, hup, hon]
  | powerDnSleep =>
      rw [hpc] at h
      obtain ⟨hdn, hon, hline⟩ := h
      simp only [mdeStep, hpc]
      refine mdePowerUpTest_pwr t hline (fun _ => rfl) ?_ ?_
      · simp only [Vars.pwr] at hdn hon
        simp [pwrOutcome, Vars.pwr, hdn, hon]
      · intro _ _
        exact Nat.le_refl 1
  | imuCalibrate i accu =>
      rw [hpc] at h
      simp only [mdeStep, hpc]
      split
      · exact ⟨h, rfl, Nat.le_refl _⟩
      · exact ⟨h, rfl, Nat.le_refl _⟩
  | powerUpSleep =>
      rw [hpc] at h
      simp only [mdeStep, hpc]
      exact mdeInit_pwr h rfl
  | init rest =>
      rw [hpc] at h
      simp only [mdeStep, hpc]
      exact mdeInit_pwr h rfl
  | poll i =>
      rw [hpc] at h
      simp only [mdeStep, hpc]
      split
      · exact ⟨h, rfl, Nat.le_refl _⟩
      · exact ⟨h, rfl, Nat.le_refl _⟩
  | torque m =>
      rw [hpc] at h
      cases m with
      | az => simp only [mdeStep, hpc]; exact ⟨h, rfl, Nat.le_refl _⟩
      | el => simp only [mdeStep, hpc]; exact ⟨h, rfl, Nat.le_refl _⟩
      | sk =>
          simp only [mdeStep, hpc]
          refine ⟨h.2.trans h.1.symm, rfl, ?_⟩
          have hon := h.1
          simp only [Vars.pwr] at hon
          cases hd : v.mde.powerDn <;> simp [pwrRank, Vars.pwr, hd, hon]

/-! ## Runs without a call -/

/-- The request a switch position stands for. -/
def pwrRequest (on : Bool) : Request := if on then .mdePowerUp else .mdePowerDown

def IsPwrCall (a : Act) : Prop := ∃ on, a = .req (pwrRequest on)

/-- One mark for each end of an iteration of the MDE thread. -/
def loopEnds (fpu : Fpu) (s : Sys) : Act → List Unit
  | .mde miso => if (mdeStep fpu miso s.vars s.mde).thd.pc = .loopSleep then [()] else []
  | _ => []

theorem serve_pwr {r : Request} (hr : ∀ on, r ≠ pwrRequest on) (v : Vars) :
    (serve v r).pwr = v.pwr := by
  cases r with
  | mdePowerUp => exact absurd rfl (hr true)
  | mdePowerDown => exact absurd rfl (hr false)
  | apiPos az el slow => cases slow <;> rfl
  | _ => rfl

theorem sysNext_pwr (fpu : Fpu) {s : Sys} (h : PwrInv s.vars.pwr s.mde.pc) {a : Act}
    (ha : ¬ IsPwrCall a) :
    PwrInv (sysNext fpu s a).vars.pwr (sysNext fpu s a).mde.pc
      ∧ pwrOutcome (sysNext fpu s a).vars.pwr = pwrOutcome s.vars.pwr
      ∧ pwrRank (sysNext fpu s a).vars.pwr (sysNext fpu s a).mde.pc
          ≤ pwrRank s.vars.pwr s.mde.pc - (loopEnds fpu s a).length := by
  cases a with
  | req r =>
      have hr : ∀ on, r ≠ pwrRequest on := fun on hr => ha ⟨on, congrArg Act.req hr⟩
      have hp : (sysNext fpu s (.req r)).vars.pwr = s.vars.pwr := serve_pwr hr s.vars
      rw [hp]
      exact ⟨h, rfl, Nat.le_refl _⟩
  | ctrl =>
      have hp : (sysNext fpu s .ctrl).vars.pwr = s.vars.pwr := ctrlStep_pwr fpu s.vars s.ctrl
      rw [hp]
      exact ⟨h, rfl, Nat.le_refl _⟩
  | mde miso =>
      obtain ⟨hinv, hout, hrank⟩ := mdeStep_pwr fpu miso h
      refine ⟨hinv, hout, ?_⟩
      simp only [loopEnds]
      split at hrank <;> rename_i hpc
      · rw [if_pos hpc]
        exact hrank
      · rw [if_neg hpc]
        exact hrank
  | imu r => exact ⟨h, rfl, Nat.le_refl _⟩
  | tick n => exact ⟨h, rfl, Nat.le_refl _⟩

theorem run_pwr (fpu : Fpu) {s : Sys} (h : PwrInv s.vars.pwr s.mde.pc) {as : List Act}
    (has : ∀ a ∈ as, ¬ IsPwrCall a) :
    PwrInv (run (sysNext fpu) s as).vars.pwr (run (sysNext fpu) s as).mde.pc
      ∧ pwrOutcome (run (sysNext fpu) s as).vars.pwr = pwrOutcome s.vars.pwr
      ∧ pwrRank (run (sysNext fpu) s as).vars.pwr (run (sysNext fpu) s as).mde.pc
          ≤ pwrRank s.vars.pwr s.mde.pc
            - (trace (sysNext fpu) (loopEnds fpu) s as).length := by
  induction as generalizing s with
  | nil => exact ⟨h, rfl, Nat.le_refl _⟩
  | cons a as ih =>
      obtain ⟨hinv, hout, hrank⟩ := sysNext_pwr fpu h (has a List.mem_cons_self)
      obtain ⟨hinv', hout', hrank'⟩ := ih hinv fun b hb => has b (List.mem_cons_of_mem a hb)
      refine ⟨hinv', hout'.trans hout, ?_⟩
      rw [trace_cons, List.length_append]
      exact Nat.le_trans hrank' (by omega)

/-- Rank 0 is rest: the switch and the line are in the final state. -/
theorem settled_of_rank {p : PwrView} {pc : MdePc} (h : PwrInv p pc) (hrank : pwrRank p pc = 0) :
    p.isPoweredUp = pwrOutcome p ∧ p.lineMdePwr = pwrOutcome p := by
  obtain ⟨up, dn, on, line⟩ := p
  cases pc <;> cases up <;> cases dn <;> cases on <;> cases line <;>
    simp_all [PwrInv, pwrRank, pwrOutcome]

theorem rank_loopSleep_le (p : PwrView) : pwrRank p .loopSleep ≤ 2 := by
  obtain ⟨up, dn, on, line⟩ := p
  cases up <;> cases dn <;> cases on <;> simp [pwrRank]

/-! ## A call and what becomes of it -/

/-- The call finds no request of the other kind that only a change of state
will consume. -/
def PwrCallOk (on : Bool) (p : PwrView) : Prop :=
  if on then p.isPoweredUp = true ∨ p.powerDn = false
  else p.isPoweredUp = false ∨ p.powerUp = false

theorem pwrInv_call (fpu : Fpu) (on : Bool) {s : Sys} (h : PwrInv s.vars.pwr s.mde.pc) :
    PwrInv (sysNext fpu s (.req (pwrRequest on))).vars.pwr s.mde.pc := by
  cases hpc : s.mde.pc <;> rw [hpc] at h <;> cases on <;>
    simp_all [sysNext, serve, pwrRequest, mdePowerUp, mdePowerDown, PwrInv, Vars.pwr]

theorem pwrOutcome_call_iff (fpu : Fpu) (on : Bool) (s : Sys) :
    pwrOutcome (sysNext fpu s (.req (pwrRequest on))).vars.pwr = on
      ↔ PwrCallOk on s.vars.pwr := by
  cases on <;> cases hon : s.vars.mde.isPoweredUp <;>
    simp [sysNext, serve, pwrRequest, mdePowerUp, mdePowerDown, PwrCallOk, pwrOutcome,
      Vars.pwr, hon]

theorem pwrInv_next (fpu : Fpu) {s : Sys} (h : PwrInv s.vars.pwr s.mde.pc) (a : Act) :
    PwrInv (sysNext fpu s a).vars.pwr (sysNext fpu s a).mde.pc := by
  by_cases hcall : IsPwrCall a
  · obtain ⟨on, rfl⟩ := hcall
    exact pwrInv_call fpu on h
  · exact (sysNext_pwr fpu h hcall).1

theorem pwrInv_reachable {fpu : Fpu} {s : Sys} (h : Reachable fpu s) :
    PwrInv s.vars.pwr s.mde.pc :=
  h.invariant (I := fun s => PwrInv s.vars.pwr s.mde.pc) (fun _ _ _ _ => rfl)
    (fun _ a hs => pwrInv_next fpu hs a)

/-- After the last call the thread finishes its iteration (`rest`) and ends two
more (`full`); from then on, whatever else happens (`more`), the switch and the
line are as the call asked exactly when the call was unobstructed. -/
theorem mde_power_follows_iff (fpu : Fpu) (s : Sys) (hs : Reachable fpu s) (on : Bool)
    (rest full : List Act) (hrest : ∀ a ∈ rest, ¬ IsPwrCall a)
    (hfull : ∀ a ∈ full, ¬ IsPwrCall a)
    (hpc : (run (sysNext fpu) (sysNext fpu s (.req (pwrRequest on))) rest).mde.pc = .loopSleep)
    (htwo : 2 ≤ (trace (sysNext fpu) (loopEnds fpu)
      (run (sysNext fpu) (sysNext fpu s (.req (pwrRequest on))) rest) full).length) :
    (∀ more : List Act, (∀ a ∈ more, ¬ IsPwrCall a) →
        let s' := run (sysNext fpu) (sysNext fpu s (.req (pwrRequest on))) (rest ++ full ++ more)
        s'.vars.mde.isPoweredUp = on ∧ s'.vars.mde.lineMdePwr = on)
      ↔ PwrCallOk on s.vars.pwr := by
  have hcall := pwrInv_call fpu on (pwrInv_reachable hs)
  obtain ⟨hinv1, hout1, -⟩ := run_pwr fpu hcall hrest
  obtain ⟨hinv2, hout2, hrank2⟩ := run_pwr fpu hinv1 hfull
  have hzero : ∀ more : List Act, (∀ a ∈ more, ¬ IsPwrCall a) →
      let s' := run (sysNext fpu) (sysNext fpu s (.req (pwrRequest on))) (rest ++ full ++ more)
      s'.vars.mde.isPoweredUp = pwrOutcome (sysNext fpu s (.req (pwrRequest on))).vars.pwr
        ∧ s'.vars.mde.lineMdePwr
            = pwrOutcome (sysNext fpu s (.req (pwrRequest on))).vars.pwr := by
    intro more hmore
    obtain ⟨hinv3, hout3, hrank3⟩ := run_pwr fpu hinv2 hmore
    rw [run_append, run_append]
    have hle := rank_loopSleep_le
      (run (sysNext fpu) (sysNext fpu s (.req (pwrRequest on))) rest).vars.pwr
    rw [hpc] at hrank2
    have hsettled := settled_of_rank hinv3 (by omega)
    rw [hout3, hout2, hout1] at hsettled
    exact hsettled
  rw [← pwrOutcome_call_iff fpu on s]
  constructor
  · intro h
    have h1 := h [] (by simp)
    have h2 := hzero [] (by simp)
    exact h2.1.symm.trans h1.1
  · intro hout more hmore
    have h := hzero more hmore
    rw [hout] at h
    exact h

/-- Switching on after start-up. -/
theorem mde_power_follows_first_on :
    let s' := run (sysNext Fpu.modular) (sysNext Fpu.modular (Sys.boot 0 0 0 0)
      (.req (pwrRequest true))) ([] ++ List.replicate 160 (.mde 0) ++ [])
    s'.vars.mde.isPoweredUp = true ∧ s'.vars.mde.lineMdePwr = true := by
  refine (mde_power_follows_iff Fpu.modular (Sys.boot 0 0 0 0) ⟨0, 0, 0, 0, [], rfl⟩ true []
    (List.replicate 160 (.mde 0)) (by simp) ?_ rfl (by decide +kernel)).mpr (Or.inr rfl) []
    (by simp)
  intro a ha ⟨on, hon⟩
  rw [List.eq_of_mem_replicate ha] at hon
  cases hon

/-- Switching off while it is off and then on: the MDE powers up in the first
iteration and, the old request still being set, down again in the second. -/
theorem mde_power_drops_after_off_on :
    let s := sysNext Fpu.modular (Sys.boot 0 0 0 0) (.req .mdePowerDown)
    let s' := sysNext Fpu.modular s (.req .mdePowerUp)
    let full := List.replicate 146 (.mde 0)
    s'.mde.pc = .loopSleep
      ∧ (trace (sysNext Fpu.modular) (loopEnds Fpu.modular) s' full).length = 2
      ∧ (run (sysNext Fpu.modular) s' full).vars.mde.isPoweredUp = false := by
  decide +kernel

end Seatel
