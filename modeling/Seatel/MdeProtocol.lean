import Seatel.MdePower
import Seatel.MdeWords

/-!
# The protocol on the MDE bus

What the MDE sees of the firmware is a sequence of line changes and
words. `busNext` is the acceptor of the sequences the motor driver
expects: power on, the whole initialisation, then cycles of an encoder
reading and three torque words, until power off between two cycles. The
MDE thread follows it step by step (`mdeStep_reads`), with the state of
the acceptor read off the position of the thread, so every run produces
an accepted sequence; the separate requirements are consequences of that.
-/

namespace Seatel

open Runs

/-! ## The acceptor -/

inductive BusState where
  | off
  /-- Powered up, with these initialisation words still to come. -/
  | init (rest : List UInt16)
  /-- Between two cycles. -/
  | idle
  /-- Word `i` of the encoder reading has been sent. -/
  | poll (i : Nat)
  /-- The torque word of azimuth has been sent. -/
  | torqueAz
  /-- Those of azimuth and elevation have been sent. -/
  | torqueEl
deriving Repr, DecidableEq

def afterInit : List UInt16 → BusState
  | [] => .idle
  | w :: rest => .init (w :: rest)

def busNext : BusState → BusEvent → Option BusState
  | .off, .line true => some (.init initWords)
  | .idle, .line false => some .off
  | .init (w :: rest), .init mosi => if mosi = w then some (afterInit rest) else none
  | .idle, .poll mosi => if pollWords[0]? = some mosi then some (.poll 0) else none
  | .poll i, .poll mosi => if pollWords[i + 1]? = some mosi then some (.poll (i + 1)) else none
  | .poll i, .torque .az _ => if pollWords[i + 1]? = none then some .torqueAz else none
  | .torqueAz, .torque .el _ => some .torqueEl
  | .torqueEl, .torque .sk _ => some .idle
  | _, _ => none

/-- The acceptor's state at each wait of the MDE thread. -/
def busOf (on : Bool) : MdePc → BusState
  | .loopSleep => if on then .idle else .off
  | .powerDnSleep => .off
  | .imuCalibrate _ _ => .init initWords
  | .powerUpSleep => .init initWords
  | .init rest => afterInit (initWordsOf rest)
  | .poll i => .poll i
  | .torque .az => .torqueAz
  | .torque .el => .torqueEl
  | .torque .sk => .idle

def busOfOut (o : MdeOut) : BusState := busOf o.vars.mde.isPoweredUp o.thd.pc

/-! ## The MDE thread follows it -/

theorem mdeGate_reads (v : Vars) (t : MdeThd) :
    Reads busNext (busOf v.mde.isPoweredUp .loopSleep) (mdeGate v t).events
      (busOfOut (mdeGate v t)) := by
  unfold mdeGate
  split
  · rename_i hrun
    have hon : v.mde.isPoweredUp = true := (Bool.and_eq_true _ _ ▸ hrun).1
    rw [hon]
    exact ⟨.poll 0, rfl, rfl⟩
  · rfl

theorem mdePowerUpTest_reads (v : Vars) (t : MdeThd) :
    Reads busNext (busOf v.mde.isPoweredUp .loopSleep) (mdePowerUpTest v t).events
      (busOfOut (mdePowerUpTest v t)) := by
  unfold mdePowerUpTest
  split
  · rename_i hup
    simp only [Bool.and_eq_true, Bool.not_eq_true'] at hup
    rw [hup.2]
    exact ⟨.init initWords, rfl, rfl⟩
  · exact mdeGate_reads v t

theorem mdeTop_reads (v : Vars) (t : MdeThd) :
    Reads busNext (busOf v.mde.isPoweredUp .loopSleep) (mdeTop v t).events
      (busOfOut (mdeTop v t)) := by
  unfold mdeTop
  split
  · rename_i hdn
    simp only [Bool.and_eq_true] at hdn
    rw [hdn.2]
    exact ⟨.off, rfl, rfl⟩
  · exact mdePowerUpTest_reads v t

theorem mdeInit_reads (rest : List InitOp) (v : Vars) (t : MdeThd) :
    Reads busNext (afterInit (initWordsOf rest)) (mdeInit rest v t).events
      (busOfOut (mdeInit rest v t)) := by
  rcases rest with _ | ⟨op, rest⟩
  · exact mdeGate_reads
      { v with mde := { v.mde with powerUp := false, isPoweredUp := true } } t
  · cases op with
    | exchange mosi => exact ⟨afterInit (initWordsOf rest), if_pos rfl, rfl⟩
    | sleep ms => rfl

theorem mdeStep_reads (fpu : Fpu) (miso : UInt16) {v : Vars} {t : MdeThd}
    (h : PwrInv v.pwr t.pc) :
    Reads busNext (busOf v.mde.isPoweredUp t.pc) (mdeStep fpu miso v t).events
      (busOfOut (mdeStep fpu miso v t)) := by
  cases hpc : t.pc with
  | loopSleep =>
      simp only [mdeStep, hpc]
      exact mdeTop_reads v t
  | powerDnSleep =>
      simp only [mdeStep, hpc]
      exact mdePowerUpTest_reads
        { v with mde := { v.mde with powerDn := false, isPoweredUp := false } } t
  | imuCalibrate i accu =>
      simp only [mdeStep, hpc]
      split
      · rfl
      · rfl
  | powerUpSleep =>
      simp only [mdeStep, hpc]
      exact mdeInit_reads initScript v t
  | init rest =>
      simp only [mdeStep, hpc]
      exact mdeInit_reads rest v t
  | poll i =>
      simp only [mdeStep, hpc]
      split
      · rename_i mosi hword
        exact ⟨.poll (i + 1), if_pos hword, rfl⟩
      · rename_i hword
        exact ⟨.torqueAz, if_pos hword, rfl⟩
  | torque m =>
      rw [hpc] at h
      cases m with
      | az =>
          simp only [mdeStep, hpc]
          exact ⟨.torqueEl, rfl, rfl⟩
      | el =>
          simp only [mdeStep, hpc]
          exact ⟨.idle, rfl, rfl⟩
      | sk =>
          -- the cycle is over and the MDE still on
          have hon : v.mde.isPoweredUp = true := h.1
          simp only [mdeStep, hpc, busOfOut, hon]
          rfl

theorem serve_isPoweredUp (v : Vars) (r : Request) :
    (serve v r).mde.isPoweredUp = v.mde.isPoweredUp := by
  cases r with
  | apiPos az el slow => cases slow <;> rfl
  | _ => rfl

theorem sysNext_reads (fpu : Fpu) {s : Sys} (h : PwrInv s.vars.pwr s.mde.pc) (a : Act) :
    Reads busNext (busOf s.vars.mde.isPoweredUp s.mde.pc) (busObs fpu s a)
      (busOf (sysNext fpu s a).vars.mde.isPoweredUp (sysNext fpu s a).mde.pc) := by
  cases a with
  | req r =>
      simp only [sysNext, serve_isPoweredUp]
      rfl
  | ctrl =>
      have hon := congrArg PwrView.isPoweredUp (ctrlStep_pwr fpu s.vars s.ctrl)
      simp only [Vars.pwr] at hon
      simp only [sysNext, hon]
      rfl
  | mde miso => exact mdeStep_reads fpu miso h
  | imu r => rfl
  | tick n => rfl

/-- Every run of the booted firmware shows the MDE an accepted sequence. -/
theorem boot_reads (fpu : Fpu) (oldAz : UInt16) (oldT : SysTime) (oldX : UInt16) (fc : UInt8)
    (as : List Act) :
    ∃ b, Reads busNext .off
      (trace (sysNext fpu) (busObs fpu) (Sys.boot oldAz oldT oldX fc) as) b := by
  have hboot : PwrInv (Sys.boot oldAz oldT oldX fc).vars.pwr .loopSleep := rfl
  exact ⟨_, reads_trace (I := fun s : Sys => PwrInv s.vars.pwr s.mde.pc)
    (g := fun s : Sys => busOf s.vars.mde.isPoweredUp s.mde.pc)
    (fun _ a hs => pwrInv_next fpu hs a) (fun _ a hs => sysNext_reads fpu hs a) hboot as⟩

/-! ## What an accepted sequence looks like -/

def BusEvent.word : BusEvent → Option UInt16
  | .line _ => none
  | .init mosi => some mosi
  | .poll mosi => some mosi
  | .torque _ mosi => some mosi

/-- The event is a word of a cycle. -/
def BusEvent.inCycle : BusEvent → Bool
  | .poll _ => true
  | .torque _ _ => true
  | _ => false

def lineNext (level : Bool) : BusEvent → Bool
  | .line level' => level'
  | _ => level

/-- The level of `LINE_MDE_PWR` after the events, low at the start. -/
def lineAfter (es : List BusEvent) : Bool := run lineNext false es

/-- The motors of the torque words among the events. -/
def torqueMotors : List BusEvent → List Motor
  | [] => []
  | .torque m _ :: es => m :: torqueMotors es
  | _ :: es => torqueMotors es

/-- The motor whose turn it is. -/
def motorAt (i : Nat) : Motor :=
  match i % 3 with
  | 0 => .az
  | 1 => .el
  | _ => .sk

/-- The moves of the acceptor. -/
inductive BusMove : BusState → BusEvent → BusState → Prop where
  | powerUp : BusMove .off (.line true) (.init initWords)
  | powerDown : BusMove .idle (.line false) .off
  | init {w : UInt16} {rest : List UInt16} : BusMove (.init (w :: rest)) (.init w) (afterInit rest)
  | pollFirst {mosi : UInt16} (hmem : mosi ∈ pollWords) : BusMove .idle (.poll mosi) (.poll 0)
  | pollNext {i : Nat} {mosi : UInt16} (hmem : mosi ∈ pollWords) :
      BusMove (.poll i) (.poll mosi) (.poll (i + 1))
  | torqueAz {i : Nat} {w : UInt16} : BusMove (.poll i) (.torque .az w) .torqueAz
  | torqueEl {w : UInt16} : BusMove .torqueAz (.torque .el w) .torqueEl
  | torqueSk {w : UInt16} : BusMove .torqueEl (.torque .sk w) .idle

theorem busNext_move {b b' : BusState} {e : BusEvent} (h : busNext b e = some b') :
    BusMove b e b' := by
  unfold busNext at h
  split at h
  · cases h
    exact .powerUp
  · cases h
    exact .powerDown
  · split at h
    · rename_i hw
      cases h
      rw [hw]
      exact .init
    · cases h
  · split at h
    · rename_i hw
      cases h
      exact .pollFirst (List.mem_of_getElem? hw)
    · cases h
  · split at h
    · rename_i hw
      cases h
      exact .pollNext (List.mem_of_getElem? hw)
    · cases h
  · split at h
    · cases h
      exact .torqueAz
    · cases h
  · cases h
    exact .torqueEl
  · cases h
    exact .torqueSk
  · cases h

/-! ### Power -/

/-- The line is high in every state but `off`. -/
def BusState.on : BusState → Bool
  | .off => false
  | _ => true

theorem afterInit_on (rest : List UInt16) : (afterInit rest).on = true := by
  cases rest <;> rfl

theorem move_line {b b' : BusState} {e : BusEvent} (h : BusMove b e b') :
    b'.on = lineNext b.on e := by
  cases h with
  | init => exact afterInit_on _
  | _ => rfl

theorem reads_line {b b' : BusState} {es : List BusEvent} (h : Reads busNext b es b') :
    b'.on = run lineNext b.on es := by
  induction es generalizing b with
  | nil => rw [← h, run_nil]
  | cons e es ih =>
      obtain ⟨b₁, he, hes⟩ := h
      rw [ih hes, move_line (busNext_move he), run_cons]

/-- A word is only accepted with the line high. -/
theorem move_word {b b' : BusState} {e : BusEvent} {w : UInt16} (h : BusMove b e b')
    (hw : e.word = some w) : b.on = true := by
  cases h with
  | powerUp => cases hw
  | powerDown => cases hw
  | _ => rfl

/-! ### Initialisation -/

/-- In the initialisation nothing but the words still to come is accepted, so a
word of a cycle comes after all of them. -/
theorem reads_init {ws : List UInt16} {es post : List BusEvent} {e : BusEvent} {b' : BusState}
    (h : Reads busNext (afterInit ws) (es ++ e :: post) b') (he : e.inCycle = true) :
    ws.map .init <+: es := by
  induction ws generalizing es with
  | nil => exact List.nil_prefix
  | cons w ws ih =>
      cases es with
      | nil =>
          obtain ⟨b₁, hmove, -⟩ := h
          cases busNext_move hmove
          cases he
      | cons e' es =>
          obtain ⟨b₁, hmove, hrest⟩ := h
          cases busNext_move hmove
          exact List.prefix_cons_inj _ |>.mpr (ih hrest)

/-- The words of the initialisation that are still to come. -/
def BusOk (b : BusState) : Prop := ∀ ws, b = .init ws → ∀ w ∈ ws, w ∈ initWords

theorem busOk_move {b b' : BusState} {e : BusEvent} (hb : BusOk b) (h : BusMove b e b') :
    BusOk b' := by
  cases h with
  | powerUp =>
      intro ws hws w hw
      cases hws
      exact hw
  | @init w rest =>
      intro ws hws w' hw'
      cases rest with
      | nil => cases hws
      | cons w₁ rest =>
          cases hws
          exact hb _ rfl w' (List.mem_cons_of_mem w hw')
  | _ => nofun

/-- The literal words of an accepted sequence. -/
theorem literal_of_move {b b' : BusState} {e : BusEvent} (hb : BusOk b) (h : BusMove b e b')
    {w : UInt16} (hw : e.word = some w) :
    (∃ m, e = .torque m w) ∨ w ∈ initWords ∨ w ∈ pollWords := by
  cases h with
  | powerUp => cases hw
  | powerDown => cases hw
  | init =>
      cases hw
      exact Or.inr (Or.inl (hb _ rfl w List.mem_cons_self))
  | pollFirst hmem =>
      cases hw
      exact Or.inr (Or.inr hmem)
  | pollNext hmem =>
      cases hw
      exact Or.inr (Or.inr hmem)
  | torqueAz =>
      cases hw
      exact Or.inl ⟨.az, rfl⟩
  | torqueEl =>
      cases hw
      exact Or.inl ⟨.el, rfl⟩
  | torqueSk =>
      cases hw
      exact Or.inl ⟨.sk, rfl⟩

/-! ### Cycles -/

/-- How many torque words of the current cycle have been sent. -/
def BusState.phase : BusState → Nat
  | .torqueAz => 1
  | .torqueEl => 2
  | _ => 0

theorem afterInit_phase (rest : List UInt16) : (afterInit rest).phase = 0 := by
  cases rest <;> rfl

theorem motorAt_congr {i j : Nat} (h : i % 3 = j % 3) : motorAt i = motorAt j := by
  rw [motorAt, motorAt, h]

/-- A word for the motor whose turn it is, before words that take turns from the next
phase on. -/
theorem motorAt_cons {p q i : Nat} {m : Motor} {ms : List Motor} (hq : q % 3 = (p + 1) % 3)
    (hms : ∀ {j m}, ms[j]? = some m → m = motorAt (q + j))
    (hm : (motorAt p :: ms)[i]? = some m) : m = motorAt (p + i) := by
  cases i with
  | zero => exact (Option.some.inj hm).symm
  | succ i =>
      refine (hms hm).trans (motorAt_congr ?_)
      omega

/-- The torque words take turns. -/
theorem reads_motors {b b' : BusState} {es : List BusEvent} (h : Reads busNext b es b') {i : Nat}
    {m : Motor} (hm : (torqueMotors es)[i]? = some m) : m = motorAt (b.phase + i) := by
  induction es generalizing b i m with
  | nil => cases hm
  | cons e es ih =>
      obtain ⟨b₁, hmove, hes⟩ := h
      cases busNext_move hmove with
      | powerUp => exact ih hes hm
      | powerDown => exact ih hes hm
      | init =>
          rw [ih hes hm, afterInit_phase]
          rfl
      | pollFirst => exact ih hes hm
      | pollNext => exact ih hes hm
      | torqueAz => exact motorAt_cons rfl (ih hes) hm
      | torqueEl => exact motorAt_cons rfl (ih hes) hm
      | torqueSk => exact motorAt_cons (q := BusState.idle.phase) rfl (ih hes) hm

/-- Whatever is not a torque word stands between two cycles. -/
theorem move_phase {b b' : BusState} {e : BusEvent} (h : BusMove b e b') :
    (∃ m w, e = .torque m w ∧ b'.phase = (b.phase + 1) % 3)
      ∨ ((∀ m w, e ≠ .torque m w) ∧ b.phase = 0 ∧ b'.phase = 0) := by
  cases h with
  | init => exact Or.inr ⟨nofun, rfl, afterInit_phase _⟩
  | torqueAz => exact Or.inl ⟨_, _, rfl, rfl⟩
  | torqueEl => exact Or.inl ⟨_, _, rfl, rfl⟩
  | torqueSk => exact Or.inl ⟨_, _, rfl, rfl⟩
  | _ => exact Or.inr ⟨nofun, rfl, rfl⟩

theorem reads_phase {b b' : BusState} {es : List BusEvent} (h : Reads busNext b es b')
    (hb : b.phase < 3) : b'.phase = (b.phase + (torqueMotors es).length) % 3 := by
  induction es generalizing b with
  | nil =>
      cases h
      exact (Nat.mod_eq_of_lt hb).symm
  | cons e es ih =>
      obtain ⟨b₁, hmove, hes⟩ := h
      rcases move_phase (busNext_move hmove) with ⟨m, w, rfl, hphase⟩ | ⟨hno, hzero, hphase⟩
      · rw [ih hes (by omega), hphase, torqueMotors, List.length_cons]
        omega
      · have hskip : torqueMotors (e :: es) = torqueMotors es := by
          cases e with
          | torque m w => exact absurd rfl (hno m w)
          | _ => rfl
        rw [ih hes (by omega), hphase, hskip, hzero]

/-! ## Every run -/

theorem trqMotor_code (m : Motor) (speed : Int8) :
    trqMotor (mdeCmdSetMotTrq m.code speed) = m.code := by
  rw [trqMotor_mdeCmdSetMotTrq]
  cases m <;> rfl

section Run

variable {fpu : Fpu} {oldAz : UInt16} {oldT : SysTime} {oldX : UInt16} {fc : UInt8}
  {as : List Act}

/-- What stands before and after an event of a run. -/
theorem boot_move {pre post : List BusEvent} {e : BusEvent}
    (h : trace (sysNext fpu) (busObs fpu) (Sys.boot oldAz oldT oldX fc) as = pre ++ e :: post) :
    ∃ b b₁ b', Reads busNext .off pre b ∧ BusMove b e b₁ ∧ Reads busNext b₁ post b' := by
  obtain ⟨b', hreads⟩ := boot_reads fpu oldAz oldT oldX fc as
  rw [h] at hreads
  obtain ⟨b, hpre, b₁, hmove, hpost⟩ := reads_append.mp hreads
  exact ⟨b, b₁, b', hpre, busNext_move hmove, hpost⟩

/-- The word of an event of a run, and where its torque comes from. -/
theorem boot_word {e : BusEvent} {w : UInt16}
    (he : e ∈ trace (sysNext fpu) (busObs fpu) (Sys.boot oldAz oldT oldX fc) as)
    (hw : e.word = some w) :
    (∃ m t, e = .torque m w ∧ w = mdeCmdSetMotTrq m.code t) ∨ w ∈ initWords ∨ w ∈ pollWords := by
  obtain ⟨pre, post, hsplit⟩ := List.append_of_mem he
  obtain ⟨b, b₁, b', hpre, hmove, -⟩ := boot_move hsplit
  have hoff : BusOk .off := nofun
  have hok : BusOk b := reads_invariant (J := BusOk)
    (fun _ _ _ hb hnext => busOk_move hb (busNext_move hnext)) hoff hpre
  rcases literal_of_move hok hmove hw with ⟨m, rfl⟩ | hlit
  · obtain ⟨pre', a, post', -, hobs⟩ := mem_trace.mp he
    obtain ⟨miso, rfl⟩ := mem_busObs hobs
    exact Or.inl ⟨m, _, rfl, mdeStep_torque hobs⟩
  · exact Or.inr hlit

theorem boot_oddParity {e : BusEvent} {w : UInt16}
    (he : e ∈ trace (sysNext fpu) (busObs fpu) (Sys.boot oldAz oldT oldX fc) as)
    (hw : e.word = some w) : OddParity w := by
  rcases boot_word he hw with ⟨m, t, -, rfl⟩ | hinit | hpoll
  · exact mdeCmdSetMotTrq_oddParity m.code t
  · exact (initWords_check hinit).1
  · exact (pollWords_check hpoll).1

theorem boot_torque_of_topNibble {e : BusEvent} {w : UInt16}
    (he : e ∈ trace (sysNext fpu) (busObs fpu) (Sys.boot oldAz oldT oldX fc) as)
    (hw : e.word = some w) (htop : topNibble w = 0b1110) : ∃ m, e = .torque m w := by
  rcases boot_word he hw with ⟨m, t, rfl, -⟩ | hinit | hpoll
  · exact ⟨m, rfl⟩
  · exact absurd htop (initWords_check hinit).2
  · exact absurd htop (pollWords_check hpoll).2

theorem boot_line_high {pre post : List BusEvent} {e : BusEvent} {w : UInt16}
    (hsplit : trace (sysNext fpu) (busObs fpu) (Sys.boot oldAz oldT oldX fc) as
      = pre ++ e :: post) (hw : e.word = some w) : lineAfter pre = true := by
  obtain ⟨b, b₁, b', hpre, hmove, -⟩ := boot_move hsplit
  exact (reads_line hpre).symm.trans (move_word hmove hw)

theorem boot_init_first {pre mid post : List BusEvent} {e : BusEvent}
    (hsplit : trace (sysNext fpu) (busObs fpu) (Sys.boot oldAz oldT oldX fc) as
      = pre ++ .line true :: (mid ++ e :: post)) (he : e.inCycle = true) :
    initWords.map .init <+: mid := by
  obtain ⟨b, b₁, b', -, hmove, hpost⟩ := boot_move hsplit
  cases hmove with
  | powerUp =>
      have hinit : Reads busNext (afterInit initWords) (mid ++ e :: post) b' := hpost
      exact reads_init hinit he

theorem boot_turns {i : Nat} {m : Motor}
    (hm : (torqueMotors
      (trace (sysNext fpu) (busObs fpu) (Sys.boot oldAz oldT oldX fc) as))[i]? = some m) :
    m = motorAt i := by
  obtain ⟨b', hreads⟩ := boot_reads fpu oldAz oldT oldX fc as
  refine (reads_motors hreads hm).trans (motorAt_congr ?_)
  simp only [BusState.phase, Nat.zero_add]

theorem boot_between_cycles {pre post : List BusEvent} {e : BusEvent}
    (hsplit : trace (sysNext fpu) (busObs fpu) (Sys.boot oldAz oldT oldX fc) as
      = pre ++ e :: post) (hno : ∀ m w, e ≠ .torque m w) :
    (torqueMotors pre).length % 3 = 0 := by
  obtain ⟨b, b₁, b', hpre, hmove, -⟩ := boot_move hsplit
  have hphase := reads_phase hpre (show BusState.off.phase < 3 by decide)
  rcases move_phase hmove with ⟨m, w, rfl, -⟩ | ⟨-, hzero, -⟩
  · exact absurd rfl (hno m w)
  · rw [hzero] at hphase
    simpa [BusState.phase] using hphase.symm

end Run

/-- What a torque word says, at the moment it is sent. -/
theorem torque_decodes {fpu : Fpu} {s : Sys} {a : Act} {m : Motor} {w : UInt16}
    (hw : .torque m w ∈ busObs fpu s a) :
    topNibble w = 0b1110 ∧ trqMotor w = m.code ∧ trqTorque w = s.vars.mde.motor m := by
  obtain ⟨miso, rfl⟩ := mem_busObs hw
  rw [mdeStep_torque hw]
  exact ⟨topNibble_mdeCmdSetMotTrq _ _, trqMotor_code m _, trqTorque_mdeCmdSetMotTrq _ _⟩

/-- The bus protocol, for every run: parity of all words; no word with the line
low, and the whole initialisation before the first word of a cycle; the torque
words recognisable, three in a row in the order az, el, sk, each with the torque
its variable holds when it is sent, and protected against a flipped bit. -/
theorem mde_bus_protocol (fpu : Fpu) (oldAz : UInt16) (oldT : SysTime) (oldX : UInt16)
    (fc : UInt8) (as : List Act) :
    let boot := Sys.boot oldAz oldT oldX fc
    let es := trace (sysNext fpu) (busObs fpu) boot as
    (∀ e ∈ es, ∀ w, e.word = some w → OddParity w)
      ∧ (∀ pre e post w, es = pre ++ e :: post → e.word = some w → lineAfter pre = true)
      ∧ (∀ pre mid e post, es = pre ++ .line true :: (mid ++ e :: post) → e.inCycle = true →
          initWords.map .init <+: mid)
      ∧ (∀ e ∈ es, ∀ w, e.word = some w → topNibble w = 0b1110 → ∃ m, e = .torque m w)
      ∧ (∀ pre a post, as = pre ++ a :: post → ∀ m w,
          .torque m w ∈ busObs fpu (run (sysNext fpu) boot pre) a →
            topNibble w = 0b1110 ∧ trqMotor w = m.code
              ∧ trqTorque w = (run (sysNext fpu) boot pre).vars.mde.motor m)
      ∧ (∀ i m, (torqueMotors es)[i]? = some m → m = motorAt i)
      ∧ (∀ pre e post, es = pre ++ e :: post → (∀ m w, e ≠ .torque m w) →
          (torqueMotors pre).length % 3 = 0)
      ∧ (∀ m w, .torque m w ∈ es → ∀ i < 16, ¬ OddParity (w ^^^ UInt16.ofNat (2 ^ i))) := by
  refine ⟨?_, ?_, ?_, ?_, ?_, ?_, ?_, ?_⟩
  · intro e he w hw
    exact boot_oddParity he hw
  · intro pre e post w hsplit hw
    exact boot_line_high hsplit hw
  · intro pre mid e post hsplit he
    exact boot_init_first hsplit he
  · intro e he w hw htop
    exact boot_torque_of_topNibble he hw htop
  · intro pre a post _ m w hw
    exact torque_decodes hw
  · intro i m hm
    exact boot_turns hm
  · intro pre e post hsplit hno
    exact boot_between_cycles hsplit hno
  · intro m w he i hi
    exact not_oddParity_xor (boot_oddParity he rfl) hi

-- From the request to power up to the end of the first cycle.
example : torqueMotors (trace (sysNext Fpu.modular) (busObs Fpu.modular) (Sys.boot 0 0 0 0)
    (.req .mdePowerUp :: List.replicate 146 (.mde 0))) = [.az, .el, .sk] := by
  decide +kernel

end Seatel
