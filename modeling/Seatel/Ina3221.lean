import Mathlib.Logic.Function.Basic
import Seatel.Platform
import Seatel.Runs

/-!
# The power monitors

Two INA3221 chips are polled by a thread that stores both voltages of a
channel; the HTTP thread computes a power from them. It has the lower
priority, so a poll stores both at once for it, but `ina3221_lock` has no
body and a poll can come between its two reads.

The state keeps, next to the variables of `ina3221.c`, what the successful
polls have read and what the calls have returned. A reading is sound as
long as the shunt voltage that was read first belongs to a poll together
with the bus voltage that is stored (`ReadingInv`); a poll that brings two
new voltages in between ends that.

The product in `float` stays an arbitrary function of the two voltages.
-/

namespace Seatel

open Runs

/-! ## Channels and sources -/

/-- The records `mon_ch1` to `mon_ch6`. -/
inductive MonChan where
  | ch1
  | ch2
  | ch3
  | ch4
  | ch5
  | ch6
deriving Repr, DecidableEq

/-- `mon_port_t`. -/
inductive MonPort where
  | noPort
  | port1
  | port2
  | port3
  | port4
  | port5
  | port6
deriving Repr, DecidableEq

/-- The record that the `case` of a port uses. -/
def MonPort.chan : MonPort → Option MonChan
  | .noPort => none
  | .port1 => some .ch1
  | .port2 => some .ch2
  | .port3 => some .ch3
  | .port4 => some .ch4
  | .port5 => some .ch5
  | .port6 => some .ch6

/-- `mon_compute_t`. -/
inductive MonCompute where
  | nmVolt
  | nmWatt
deriving Repr, DecidableEq

/-- `mon_source_t`. -/
structure MonSource where
  ports : MonPort
  compute : MonCompute
deriving Repr, DecidableEq

/-- `ina3221_mon_t`. -/
structure Mon where
  busVolt : Int32 := 0
  shuntVolt : Int32 := 0
deriving Repr, DecidableEq

/-- `ina3221_chan_t`. -/
structure InaChan where
  shunt : Int16
  bus : Int16
deriving Repr, DecidableEq

/-- `ina3221_get_chan` with the results of its two transfers, none when a transfer
fails. -/
def ina3221GetChan (shunt bus : Option Int16) : InaChan × Bool :=
  (⟨shunt.getD 0, bus.getD 0⟩, shunt.isSome && bus.isSome)

/-- `ina3221_update_chan`. -/
def ina3221UpdateChan (shunt bus : Option Int16) (mon : Mon) : Mon :=
  let (chan, ok) := ina3221GetChan shunt bus
  if ok then ⟨chan.bus.toInt32, chan.shunt.toInt32⟩ else mon

/-! ## Polls and readings -/

/-- What `ina3221_get_current_reading` returns. -/
inductive Reading (ω : Type) where
  | msgError
  | volt (v : Int32)
  | watt (w : ω)
deriving Repr, DecidableEq

/-- The records, the call that is under way with the shunt voltage it has read, and
what happened so far, the latest first. -/
structure Ina (ω : Type) where
  mon : MonChan → Mon := fun _ => {}
  call : Option (MonSource × MonChan × Int32) := none
  polls : List (MonChan × Mon) := []
  returned : List (MonSource × Reading ω) := []

inductive InaAct where
  /-- The thread polls a channel. -/
  | poll (c : MonChan) (shunt bus : Option Int16)
  /-- The reader calls, and reads `bus_volt` or `shunt_volt`. -/
  | call (source : MonSource)
  /-- The reader reads `bus_volt` for a power and returns. -/
  | finish
deriving Repr, DecidableEq

variable {ω : Type} (watt : Int32 → Int32 → ω)

def inaNext (s : Ina ω) : InaAct → Ina ω
  | .poll c shunt bus =>
      let mon := ina3221UpdateChan shunt bus (s.mon c)
      { s with
        mon := Function.update s.mon c mon
        polls := if (ina3221GetChan shunt bus).2 then (c, mon) :: s.polls else s.polls }
  | .call source =>
      match s.call, source.ports.chan, source.compute with
      | none, none, _ => { s with returned := (source, .msgError) :: s.returned }
      | none, some c, .nmVolt =>
          { s with returned := (source, .volt (s.mon c).busVolt) :: s.returned }
      | none, some c, .nmWatt => { s with call := some (source, c, (s.mon c).shuntVolt) }
      | some _, _, _ => s
  | .finish =>
      match s.call with
      | none => s
      | some (source, c, shunt) =>
          { s with
            call := none
            returned := (source, .watt (watt shunt (s.mon c).busVolt)) :: s.returned }

/-- Every power was computed from the two voltages of one successful poll of its
channel. -/
def PowersOfPolls (s : Ina ω) : Prop :=
  ∀ source w, (source, Reading.watt w) ∈ s.returned →
    ∃ c m, source.ports.chan = some c ∧ (c, m) ∈ s.polls ∧ w = watt m.shuntVolt m.busVolt

/-- The step is in order: a reading of a power begins behind the first successful poll
of its channel, and no poll replaces both voltages between its two reads. -/
def Untorn (s : Ina ω) : InaAct → Prop
  | .poll c (some shunt) (some bus) =>
      ∀ source x, s.call = some (source, c, x) →
        shunt.toInt32 = x ∨ bus.toInt32 = (s.mon c).busVolt
  | .call source =>
      source.compute = .nmWatt → ∀ c, source.ports.chan = some c → ∃ m, (c, m) ∈ s.polls
  | _ => True

/-! ## The invariant -/

/-- The shunt voltage of the call under way was polled with the bus voltage that is
stored, and so was every stored pair of a channel that was polled at all. -/
structure ReadingInv (s : Ina ω) : Prop where
  stored : ∀ c m, (c, m) ∈ s.polls → (c, s.mon c) ∈ s.polls
  call : ∀ source c x, s.call = some (source, c, x) → source.ports.chan = some c
    ∧ ∃ m, (c, m) ∈ s.polls ∧ m.shuntVolt = x ∧ m.busVolt = (s.mon c).busVolt
  powers : PowersOfPolls watt s

variable {watt}

theorem PowersOfPolls.mono {s s' : Ina ω} (h : PowersOfPolls watt s)
    (hret : s'.returned = s.returned) (hpolls : ∀ e ∈ s.polls, e ∈ s'.polls) :
    PowersOfPolls watt s' := by
  intro source w hmem
  rw [hret] at hmem
  obtain ⟨c, m, hc, hm, hw⟩ := h source w hmem
  exact ⟨c, m, hc, hpolls _ hm, hw⟩

/-- A return that is no power does not matter. -/
theorem PowersOfPolls.push {s : Ina ω} (h : PowersOfPolls watt s) (source : MonSource)
    {r : Reading ω} (hr : ∀ w, r ≠ .watt w) :
    PowersOfPolls watt { s with returned := (source, r) :: s.returned } := by
  intro source' w hmem
  rcases List.mem_cons.mp hmem with heq | hmem
  · exact absurd (congrArg Prod.snd heq).symm (hr w)
  · exact h source' w hmem

variable (watt) in
/-- What a poll does: nothing when a transfer fails, and else it stores both
voltages. -/
theorem inaNext_poll (s : Ina ω) (c : MonChan) (shunt bus : Option Int16) :
    inaNext watt s (.poll c shunt bus) = s
      ∨ ∃ x y, shunt = some x ∧ bus = some y
        ∧ inaNext watt s (.poll c shunt bus)
          = { s with
              mon := Function.update s.mon c ⟨y.toInt32, x.toInt32⟩
              polls := (c, ⟨y.toInt32, x.toInt32⟩) :: s.polls } := by
  rcases shunt with _ | x
  · exact .inl (by simp [inaNext, ina3221UpdateChan, ina3221GetChan])
  · rcases bus with _ | y
    · exact .inl (by simp [inaNext, ina3221UpdateChan, ina3221GetChan])
    · exact .inr ⟨x, y, rfl, rfl, rfl⟩

theorem readingInv_poll {s : Ina ω} (h : ReadingInv watt s) {c : MonChan}
    {shunt bus : Option Int16} (hstep : Untorn s (.poll c shunt bus)) :
    ReadingInv watt (inaNext watt s (.poll c shunt bus)) := by
  rcases inaNext_poll watt s c shunt bus with hsame | ⟨x, y, rfl, rfl, hnext⟩
  · rw [hsame]
    exact h
  · rw [hnext]
    refine ⟨?_, ?_, h.powers.mono rfl fun e he => List.mem_cons_of_mem _ he⟩
    · intro c' m hm
      dsimp only at hm ⊢
      rcases eq_or_ne c' c with rfl | hc
      · rw [Function.update_self]
        exact List.mem_cons_self
      · rw [Function.update_of_ne hc]
        rcases List.mem_cons.mp hm with heq | hm
        · exact absurd (congrArg Prod.fst heq) hc
        · exact List.mem_cons_of_mem _ (h.stored c' m hm)
    · intro source c' z hcall
      obtain ⟨hchan, m, hm, hshunt, hbus⟩ := h.call source c' z hcall
      refine ⟨hchan, ?_⟩
      dsimp only
      rcases eq_or_ne c' c with rfl | hc
      · -- the call under way is for the channel that was polled
        rw [Function.update_self]
        rcases hstep source z hcall with hsame | hsame
        · exact ⟨_, List.mem_cons_self, hsame, rfl⟩
        · exact ⟨m, List.mem_cons_of_mem _ hm, hshunt, hbus.trans hsame.symm⟩
      · rw [Function.update_of_ne hc]
        exact ⟨m, List.mem_cons_of_mem _ hm, hshunt, hbus⟩

theorem readingInv_call {s : Ina ω} (h : ReadingInv watt s) {source : MonSource}
    (hstep : Untorn s (.call source)) :
    ReadingInv watt (inaNext watt s (.call source)) := by
  rw [inaNext]
  split
  · exact ⟨h.stored, h.call, h.powers.push source fun w hw => nomatch hw⟩
  · exact ⟨h.stored, h.call, h.powers.push source fun w hw => nomatch hw⟩
  · rename_i c hidle hchan hwatt
    obtain ⟨m, hm⟩ := hstep hwatt c hchan
    refine ⟨h.stored, ?_, h.powers⟩
    intro source' c' x hcall
    cases hcall
    exact ⟨hchan, s.mon c, h.stored c m hm, rfl, rfl⟩
  · exact h

theorem readingInv_finish {s : Ina ω} (h : ReadingInv watt s) :
    ReadingInv watt (inaNext watt s .finish) := by
  rw [inaNext]
  split
  · exact h
  · rename_i source c x hcall
    obtain ⟨hchan, m, hm, hshunt, hbus⟩ := h.call source c x hcall
    refine ⟨h.stored, fun _ _ _ hnone => (by cases hnone), ?_⟩
    intro source' w hmem
    rcases List.mem_cons.mp hmem with heq | hmem
    · cases heq
      exact ⟨c, m, hchan, hm, by rw [hshunt, hbus]⟩
    · exact h.powers source' w hmem

theorem readingInv_next (s : Ina ω) (a : InaAct) (h : ReadingInv watt s)
    (hstep : Untorn s a) : ReadingInv watt (inaNext watt s a) := by
  cases a with
  | poll c shunt bus => exact readingInv_poll h hstep
  | call source => exact readingInv_call h hstep
  | finish => exact readingInv_finish h

/-! ## Power readings -/

variable (watt)

/-- In every run without such a poll all powers are those of one poll. -/
theorem power_of_one_poll (as : List InaAct)
    (h : Along (inaNext watt) Untorn {} as) :
    PowersOfPolls watt (run (inaNext watt) {} as) := by
  have hboot : ReadingInv watt ({} : Ina ω) := by
    refine ⟨?_, ?_, ?_⟩
    · intro c m hm
      cases hm
    · intro source c x hcall
      cases hcall
    · intro source w hmem
      cases hmem
  exact (run_invariant readingInv_next hboot h).powers

/-- A poll that brings two new voltages in between is seen in the result, for every
product that can be told apart. -/
theorem power_of_two_polls {s : Ina ω} {source : MonSource} {c : MonChan} {x : Int32}
    {shunt bus : Int16} (hinj : ∀ x y x' y', watt x y = watt x' y' → x = x' ∧ y = y')
    (hcall : s.call = some (source, c, x)) (hchan : source.ports.chan = some c)
    (hshunt : shunt.toInt32 ≠ x) (hbus : ∀ m, (c, m) ∈ s.polls → m.busVolt ≠ bus.toInt32) :
    ¬ PowersOfPolls watt (run (inaNext watt) s [.poll c (some shunt) (some bus), .finish]) := by
  intro h
  have hnext : run (inaNext watt) s [.poll c (some shunt) (some bus), .finish]
      = { mon := Function.update s.mon c ⟨bus.toInt32, shunt.toInt32⟩
          call := none
          polls := (c, ⟨bus.toInt32, shunt.toInt32⟩) :: s.polls
          returned := (source, .watt (watt x bus.toInt32)) :: s.returned } := by
    simp [inaNext, ina3221UpdateChan, ina3221GetChan, hcall]
  rw [hnext] at h
  obtain ⟨c', m, hc', hm, hw⟩ := h source _ List.mem_cons_self
  obtain ⟨hx, hy⟩ := hinj _ _ _ _ hw
  obtain rfl : c = c' := Option.some.inj (hchan.symm.trans hc')
  rcases List.mem_cons.mp hm with heq | hm
  · cases heq
    exact hshunt hx.symm
  · exact hbus m hm hy.symm

/-- `calc * (float)bus_volt / 1000000.0` over the rationals. -/
def exactWatt (shunt bus : Int32) : Int32 :=
  Int32.ofInt (trunc ((shunt.toInt : ℚ) * 5 * 100 * bus.toInt / 1000000))

/-- A reading with the poll of another channel in it. -/
theorem power_of_one_poll_quiet :
    PowersOfPolls exactWatt (run (inaNext exactWatt) {}
      [.poll .ch1 (some 8000) (some 5000), .call ⟨.port1, .nmWatt⟩,
        .poll .ch2 (some 4000) (some 5200), .finish]) := by
  refine power_of_one_poll exactWatt _ ⟨?_, ?_, ?_, trivial, trivial⟩
  · intro source x hcall
    cases hcall
  · rintro - c hc
    cases hc
    exact ⟨_, List.mem_cons_self⟩
  · intro source x hcall
    cases hcall

/-- One round of polls, a reading, and the next poll of its channel in between: the
power is 20.8 W, while the polls saw 20 W and 10.4 W. -/
def tornRun : List InaAct := [
  .poll .ch1 (some 8000) (some 5000), .poll .ch2 (some 0) (some 0),
  .poll .ch3 (some 0) (some 0), .poll .ch4 (some 0) (some 0), .poll .ch5 (some 0) (some 0),
  .poll .ch6 (some 0) (some 0), .call ⟨.port1, .nmWatt⟩, .poll .ch1 (some 4000) (some 5200),
  .finish]

theorem power_of_one_poll_torn :
    (run (inaNext exactWatt) {} tornRun).returned = [(⟨.port1, .nmWatt⟩, .watt 20800)]
      ∧ ¬ PowersOfPolls exactWatt (run (inaNext exactWatt) {} tornRun) := by
  have hret : (run (inaNext exactWatt) {} tornRun).returned
      = [(⟨.port1, .nmWatt⟩, .watt 20800)] := by
    decide +kernel
  refine ⟨hret, ?_⟩
  intro h
  have hall : ∀ e ∈ (run (inaNext exactWatt) {} tornRun).polls,
      exactWatt e.2.shuntVolt e.2.busVolt ≠ 20800 := by
    decide +kernel
  obtain ⟨c, m, -, hm, hw⟩ := h ⟨.port1, .nmWatt⟩ 20800 (by rw [hret]; exact List.mem_cons_self)
  exact hall _ hm hw.symm

end Seatel
