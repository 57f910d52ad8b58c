import Seatel.Failsafe
import Seatel.ImuThread

/-!
# The replies of the inertial sensors

The monitor keeps, for each of the six readings of the IMU thread, the
last word that was received for it. Whatever the other threads do in
between, the variables are these words decoded (`registers_next`): a
signed 14-bit value for an acceleration, 12 bits for a rotation rate.

What the failsafe makes of a bus that has died follows: lines that are
stuck give every reading the same word, and after seven steps of the
thread the variables all come from it. Stuck low and stuck high are both
noticed, because the gyros then read 0 or 4095. A word whose 12 low bits
are those of a gyro at rest is not.
-/

namespace Seatel

open Runs CInt

/-! ## Decoding -/

/-- The two's complement value of the 14 low bits. -/
def signed14 (w : UInt16) : Int := Int.bmod (w.toNat % 16384 : Nat) 16384

/-- The shift to the top of the type and the division back extend the sign. -/
theorem imuAccel_eq (w : UInt16) : imuAccel w = signed14 w := by
  have hmask : (w &&& 0x3FFF).toNat = w.toNat % 16384 := by
    rw [UInt16.toNat_and]
    exact Nat.and_two_pow_sub_one_eq_mod w.toNat 14
  have hshift : ((w &&& 0x3FFF) <<< 2).toNat = 4 * (w.toNat % 16384) := by
    rw [UInt16.toNat_shiftLeft, hmask, Nat.shiftLeft_eq, show (2 : UInt16).toNat % 16 = 2 from rfl]
    omega
  obtain ⟨k, hk⟩ := toInt_toInt16 ((w &&& 0x3FFF) <<< 2)
  have hmem := toInt16_mem ((w &&& 0x3FFF) <<< 2).toInt16
  obtain ⟨j, hj⟩ := bmod_spec ((w.toNat % 16384 : Nat) : Int) 16384
  have hlo := Int.le_bmod (x := ((w.toNat % 16384 : Nat) : Int)) (m := 16384) (by decide)
  have hhi := Int.bmod_lt (x := ((w.toNat % 16384 : Nat) : Int)) (m := 16384) (by decide)
  have hdiv := tdiv_spec ((w &&& 0x3FFF) <<< 2).toInt16.toInt (show (0 : Int) < 4 by decide)
  rw [hshift] at hk
  unfold imuAccel signed14
  omega

theorem signed14_mem (w : UInt16) : -8192 ≤ signed14 w ∧ signed14 w ≤ 8191 := by
  have hlo := Int.le_bmod (x := ((w.toNat % 16384 : Nat) : Int)) (m := 16384) (by decide)
  have hhi := Int.bmod_lt (x := ((w.toNat % 16384 : Nat) : Int)) (m := 16384) (by decide)
  unfold signed14
  omega

theorem imuRot_toNat (w : UInt16) : (imuRot w).toNat = w.toNat % 4096 := by
  rw [imuRot, UInt16.toNat_and]
  exact Nat.and_two_pow_sub_one_eq_mod w.toNat 12

/-- The variable of the reading has the value of the word. -/
def ImuPc.Holds (w : UInt16) (r : ImuReading) : ImuPc → Prop
  | .accelZ => r.accelZ = Int16.ofInt (-imuAccel w)
  | .accelX => r.accelX = Int16.ofInt (imuAccel w)
  | .accelY => r.accelY = Int16.ofInt (-imuAccel w)
  | .rotX => r.rotX = imuRot w
  | .rotY => r.rotY = imuRot w
  | .rotZ => r.rotZ = imuRot w
  | .calculate => True

section Monitor

variable (angle : Int16 → Int16 → Int16)

theorem holds_imuStep (miso : UInt16) (imu : Imu) (t : ImuThd) :
    t.pc.Holds miso (imuStep angle miso imu t).1.published := by
  unfold imuStep
  cases t.pc with
  | calculate => trivial
  | _ => rfl

/-- The other variables stay. -/
theorem holds_imuStep_of_ne (miso : UInt16) (imu : Imu) {t : ImuThd} {pc : ImuPc} (hne : pc ≠ t.pc)
    {w : UInt16} (h : pc.Holds w imu.published) :
    pc.Holds w (imuStep angle miso imu t).1.published := by
  unfold imuStep
  cases hpc : t.pc with
  | calculate =>
      simp only
      split <;> cases pc <;> exact h
  | _ =>
      rw [hpc] at hne
      cases pc <;> first | exact absurd rfl hne | exact h

/-! ## The monitor -/

/-- The firmware, the last word received for each reading, and the two words of which the
last calculation made the elevation. -/
structure ReplyMon where
  sys : ImuSys
  reply : ImuPc → Option UInt16 := fun _ => none
  used : Option (UInt16 × UInt16) := none

/-- The words of the accelerations in the plane of the elevation. -/
def ReplyMon.words (m : ReplyMon) : Option (UInt16 × UInt16) :=
  match m.reply .accelZ, m.reply .accelX with
  | some z, some x => some (z, x)
  | _, _ => none

def replyNext (fpu : Fpu) (m : ReplyMon) : ImuSysAct → ReplyMon
  | .imu miso =>
      { sys := imuSysNext angle fpu m.sys (.imu miso)
        reply := Function.update m.reply m.sys.thd.pc (some miso)
        used := if m.sys.thd.pc = .calculate then m.words else m.used }
  | a => { m with sys := imuSysNext angle fpu m.sys a }

theorem replyNext_sys (fpu : Fpu) (m : ReplyMon) (a : ImuSysAct) :
    (replyNext angle fpu m a).sys = imuSysNext angle fpu m.sys a := by
  cases a <;> rfl

/-- The other threads leave what the IMU thread publishes alone, and its locals. -/
theorem imuSysNext_published (fpu : Fpu) (s : ImuSys) {a : ImuSysAct} (ha : ∀ miso, a ≠ .imu miso) :
    (imuSysNext angle fpu s a).sys.vars.imu.published = s.sys.vars.imu.published
      ∧ (imuSysNext angle fpu s a).thd = s.thd := by
  refine ⟨?_, ?_⟩
  · cases a with
    | req r =>
        simp only [imuSysNext, sysNext]
        rcases serve_imu s.sys.vars r with himu | ⟨off, himu⟩
        · rw [himu]
        · rw [himu]
          rfl
    | ctrl => simp only [imuSysNext, sysNext, ctrlStep_imu]
    | mde miso =>
        simp only [imuSysNext, sysNext]
        rw [(mdeStep_frame fpu miso s.sys.vars s.sys.mde).imu]
        rfl
    | imu miso => exact absurd rfl (ha miso)
    | tick n => rfl
  · cases a with
    | imu miso => exact absurd rfl (ha miso)
    | _ => rfl

theorem imuSysNext_imu (fpu : Fpu) (s : ImuSys) (miso : UInt16) :
    (imuSysNext angle fpu s (.imu miso)).sys.vars.imu
      = (imuStep angle miso s.sys.vars.imu s.thd).1 :=
  imuPublish_imuStep angle miso s.sys.vars s.thd

/-- `imu_el_pos` of two accelerations. -/
def elPosOf (z x : Int16) : Int16 := imuElPos angle { accelZ := z, accelX := x }

/-- The variables are the words decoded. -/
structure Registers (m : ReplyMon) : Prop where
  reply : ∀ pc, ∀ w ∈ m.reply pc, pc.Holds w m.sys.sys.vars.imu.published
  elPos : ∀ z x, m.used = some (z, x) →
    m.sys.sys.vars.imu.elPos
      = elPosOf angle (Int16.ofInt (-imuAccel z)) (Int16.ofInt (imuAccel x))

/-- Only the calculation writes the elevation. -/
theorem imuStep_elPos (miso : UInt16) (imu : Imu) (t : ImuThd) :
    (imuStep angle miso imu t).1.elPos
      = if t.pc = .calculate then elPosOf angle imu.accelZ imu.accelX else imu.elPos := by
  unfold imuStep
  cases t.pc with
  | calculate =>
      simp only [if_true]
      split <;> rfl
  | _ => rfl

theorem ReplyMon.words_eq_some {m : ReplyMon} {z x : UInt16} (h : m.words = some (z, x)) :
    m.reply .accelZ = some z ∧ m.reply .accelX = some x := by
  unfold ReplyMon.words at h
  split at h
  · rename_i z' x' hz hx
    obtain ⟨rfl, rfl⟩ := Prod.mk.inj (Option.some.inj h)
    exact ⟨hz, hx⟩
  · cases h

theorem registers_next (fpu : Fpu) (m : ReplyMon) (a : ImuSysAct) (h : Registers angle m) :
    Registers angle (replyNext angle fpu m a) := by
  by_cases ha : ∃ miso, a = .imu miso
  · obtain ⟨miso, rfl⟩ := ha
    constructor
    · intro pc w hw
      rw [replyNext_sys, imuSysNext_imu]
      by_cases hpc : pc = m.sys.thd.pc
      · simp only [replyNext, hpc, Function.update_self, Option.mem_some_iff] at hw
        rw [← hw, hpc]
        exact holds_imuStep angle miso m.sys.sys.vars.imu m.sys.thd
      · simp only [replyNext, Function.update_of_ne hpc] at hw
        exact holds_imuStep_of_ne angle miso m.sys.sys.vars.imu hpc (h.reply pc w hw)
    · intro z x hused
      rw [replyNext_sys, imuSysNext_imu, imuStep_elPos]
      simp only [replyNext] at hused
      split
      · rename_i hpc
        rw [if_pos hpc] at hused
        obtain ⟨hz, hx⟩ := ReplyMon.words_eq_some hused
        have hz' : m.sys.sys.vars.imu.accelZ = Int16.ofInt (-imuAccel z) := h.reply .accelZ z hz
        have hx' : m.sys.sys.vars.imu.accelX = Int16.ofInt (imuAccel x) := h.reply .accelX x hx
        rw [hz', hx']
      · rename_i hpc
        rw [if_neg hpc] at hused
        exact h.elPos z x hused
  · have hother : ∀ miso, a ≠ .imu miso := fun miso heq => ha ⟨miso, heq⟩
    obtain ⟨hpub, -⟩ := imuSysNext_published angle fpu m.sys hother
    have hreply : replyNext angle fpu m a = { m with sys := imuSysNext angle fpu m.sys a } := by
      cases a with
      | imu miso => exact absurd rfl (hother miso)
      | _ => rfl
    rw [hreply]
    constructor
    · intro pc w hw
      rw [hpub]
      exact h.reply pc w hw
    · intro z x hused
      exact (congrArg ImuReading.elPos hpub).trans (h.elPos z x hused)

theorem registers_start (s : ImuSys) : Registers angle { sys := s } :=
  ⟨fun _ _ hw => (nomatch hw), fun _ _ hused => (nomatch hused)⟩

/-! ## A stuck bus -/

def ImuSysAct.isImu : ImuSysAct → Bool
  | .imu _ => true
  | _ => false

/-- Every reply of the sensors is `w`. -/
def StuckAt (w : UInt16) (as : List ImuSysAct) : Prop := ∀ miso, .imu miso ∈ as → miso = w

/-- The place of a reading in the loop. -/
def ImuPc.idx : ImuPc → Nat
  | .accelZ => 0
  | .accelX => 1
  | .accelY => 2
  | .rotX => 3
  | .rotY => 4
  | .rotZ => 5
  | .calculate => 6

theorem ImuPc.idx_lt (pc : ImuPc) : pc.idx < 7 := by
  cases pc <;> decide

theorem ImuPc.idx_inj {pc pc' : ImuPc} (h : pc.idx = pc'.idx) : pc = pc' := by
  cases pc <;> cases pc' <;> first | rfl | cases h

theorem imuStep_idx (miso : UInt16) (imu : Imu) (t : ImuThd) :
    (imuStep angle miso imu t).2.pc.idx = (t.pc.idx + 1) % 7 := by
  unfold imuStep
  cases t.pc with
  | calculate =>
      simp only
      split <;> rfl
  | _ => rfl

/-- `n` replies ago the thread stood at `i`; all readings it has passed since then have
received `w`. -/
structure Swept (w : UInt16) (i n : Nat) (m : ReplyMon) : Prop where
  pc : m.sys.thd.pc.idx = (i + n) % 7
  reply : ∀ pc : ImuPc, (pc.idx + 7 - i) % 7 < n → m.reply pc = some w

theorem swept_imu (fpu : Fpu) {w : UInt16} {i n : Nat} (hi : i < 7) {m : ReplyMon}
    (h : Swept w i n m) : Swept w i (n + 1) (replyNext angle fpu m (.imu w)) where
  pc := by
    have hidx := imuStep_idx angle w m.sys.sys.vars.imu m.sys.thd
    have hpc := h.pc
    change (imuStep angle w m.sys.sys.vars.imu m.sys.thd).2.pc.idx = _
    omega
  reply := by
    intro pc hlt
    simp only [replyNext]
    by_cases hpc : pc = m.sys.thd.pc
    · rw [hpc, Function.update_self]
    · rw [Function.update_of_ne hpc]
      refine h.reply pc ?_
      have hne : pc.idx ≠ (i + n) % 7 := fun heq => hpc (ImuPc.idx_inj (heq.trans h.pc.symm))
      have := pc.idx_lt
      omega

theorem swept_run (fpu : Fpu) {w : UInt16} {i : Nat} (hi : i < 7) {as : List ImuSysAct}
    (hstuck : StuckAt w as) {n : Nat} {m : ReplyMon} (h : Swept w i n m) :
    Swept w i (n + as.countP ImuSysAct.isImu) (run (replyNext angle fpu) m as) := by
  induction as generalizing n m with
  | nil => exact h
  | cons a as ih =>
      have htail : StuckAt w as := fun miso hmem => hstuck miso (List.mem_cons_of_mem a hmem)
      rw [run_cons]
      cases a with
      | imu miso =>
          obtain rfl := hstuck miso List.mem_cons_self
          rw [List.countP_cons_of_pos rfl, Nat.add_comm _ 1, ← Nat.add_assoc]
          exact ih htail (swept_imu angle fpu hi h)
      | req r => exact ih htail ⟨h.pc, h.reply⟩
      | ctrl => exact ih htail ⟨h.pc, h.reply⟩
      | mde miso => exact ih htail ⟨h.pc, h.reply⟩
      | tick t => exact ih htail ⟨h.pc, h.reply⟩

/-- With all readings from one word, only the gyros decide: accelerations that are all 0
come with gyros that read 0. -/
theorem failsafe_of_holds {w : UInt16} {imu : Imu} (h : ∀ pc : ImuPc, pc.Holds w imu.published) :
    failsafe imu = true ↔ w.toNat % 4096 < 1270 ∨ 2870 < w.toNat % 4096 := by
  have hx : imu.rotX = imuRot w := h .rotX
  have hy : imu.rotY = imuRot w := h .rotY
  have hz : imu.rotZ = imuRot w := h .rotZ
  have ha : imu.accelX = Int16.ofInt (imuAccel w) := h .accelX
  have hrot := imuRot_toNat w
  have hzero : imu.accelX = 0 → w.toNat % 4096 = 0 := by
    intro hzero
    obtain ⟨hlo, hhi⟩ := signed14_mem w
    have hint := congrArg Int16.toInt (ha.symm.trans hzero)
    rw [imuAccel_eq, Int16.toInt_ofInt_of_le (by omega) (by omega)] at hint
    obtain ⟨k, hk⟩ := bmod_spec ((w.toNat % 16384 : Nat) : Int) 16384
    have hsig : Int.bmod (w.toNat % 16384 : Nat) 16384 = 0 := hint
    omega
  simp only [failsafe, hx, hy, hz, hrot, Bool.or_eq_true, Bool.and_eq_true, beq_iff_eq,
    decide_eq_true_eq]
  constructor
  · rintro (((((( ⟨⟨hax, -⟩, -⟩ | h) | h) | h) | h) | h) | h)
    · have := hzero hax
      omega
    all_goals omega
  · rintro (h | h)
    · exact Or.inl (Or.inl (Or.inl (Or.inl (Or.inl (Or.inr h)))))
    · exact Or.inl (Or.inl (Or.inl (Or.inl (Or.inr h))))

/-- A bus that is stuck at a word for a whole loop of the IMU thread is noticed by the
failsafe exactly when the 12 low bits are outside the limits of the gyros; then every
iteration that starts stops the antenna, whatever the other threads do in between. -/
theorem stuck_imu_bus_trips_iff (fpu : Fpu) (s : ImuSys) (w : UInt16) (as : List ImuSysAct)
    (hstuck : StuckAt w as) (hloop : 7 ≤ as.countP ImuSysAct.isImu) :
    let s' := run (imuSysNext angle fpu) s as
    (failsafe s'.sys.vars.imu = true ↔ w.toNat % 4096 < 1270 ∨ 2870 < w.toNat % 4096)
      ∧ ((w.toNat % 4096 < 1270 ∨ 2870 < w.toNat % 4096) → s'.sys.ctrl.pc = .loopSleep →
          Stopped (imuSysNext angle fpu s' .ctrl).sys) := by
  intro s'
  have hstart : Swept w s.thd.pc.idx 0 { sys := s } :=
    ⟨(Nat.mod_eq_of_lt s.thd.pc.idx_lt).symm, fun _ hlt => absurd hlt (Nat.not_lt_zero _)⟩
  have hswept := swept_run angle fpu s.thd.pc.idx_lt hstuck hstart
  have hreg := run_invariant_always (registers_next angle fpu) (registers_start angle s) as
  have hsys : (run (replyNext angle fpu) { sys := s } as).sys = s' :=
    run_proj (f := ReplyMon.sys) (replyNext_sys angle fpu) { sys := s } as
  have hholds : ∀ pc : ImuPc, pc.Holds w s'.sys.vars.imu.published := by
    intro pc
    rw [← hsys]
    exact hreg.reply pc w (hswept.reply pc (by omega))
  have htrip := failsafe_of_holds hholds
  exact ⟨htrip, fun hout hpc => stopped_of_failsafe fpu hpc (htrip.mpr hout)⟩

end Monitor

/-- Lines stuck high during one loop of the thread. -/
theorem stuck_imu_bus_trips_high :
    Stopped (imuSysNext (fun _ _ => 0) Fpu.modular
      (run (imuSysNext (fun _ _ => 0) Fpu.modular) { sys := Sys.boot 0 0 0 0 }
        (List.replicate 7 (.imu 0xFFFF))) .ctrl).sys :=
  (stuck_imu_bus_trips_iff (fun _ _ => 0) Fpu.modular _ 0xFFFF (List.replicate 7 (.imu 0xFFFF))
    (fun _ hmem => ImuSysAct.imu.inj (List.eq_of_mem_replicate hmem)) (by decide)).2
    (by decide) (by decide +kernel)

end Seatel
