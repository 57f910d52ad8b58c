import Seatel.GpsFraming
import Seatel.RingBuffers
import Seatel.Runs

/-!
# From the serial line to the GPS thread

The interrupt of the serial driver writes a received byte into a queue of 16
bytes, `sdGet` reads it in the thread. The queue of `hal_queues.c` is a ring
buffer whose pointers are compared for the test whether it is full; it keeps
the bytes in order, and a byte is lost only when 16 are waiting.

A NUL byte makes the thread sleep for 50 ms, in which 48 bytes arrive at 9600
baud: of these the queue keeps as many as it has room for, and what is
behind them is missing in the middle of a sentence
(`gps_serial_lossless_iff`).
-/

namespace Seatel

open Runs

variable {φ : Type}

def serialBuffersSize : Nat := 16

/-- The input queue of `SD3` with the thread that reads it. -/
structure GpsPort (φ : Type) where
  iqueue : RingBuffer UInt8 serialBuffersSize
  /-- in `chThdSleepMilliseconds` -/
  asleep : Bool
  gps : Gps φ

inductive PortAct where
  /-- the interrupt of a received byte -/
  | sdIncomingDataI (b : UInt8)
  /-- the thread goes on, to its next `sdGet` -/
  | thread
  /-- the 50 ms are over -/
  | wake
deriving Repr, DecidableEq

/-- A byte from `sdGet`, if the thread is awake and there is one. -/
def GpsPort.sdGet (s : GpsPort φ) : Option (UInt8 × RingBuffer UInt8 serialBuffersSize) :=
  if s.asleep then none else s.iqueue.pop

section Port

variable (env : GpsEnv φ)

def portNext (s : GpsPort φ) : PortAct → GpsPort φ
  | .sdIncomingDataI b => { s with iqueue := s.iqueue.push b }
  | .thread =>
      match s.sdGet with
      | none => s
      | some (c, iqueue) => { iqueue := iqueue, asleep := c = 0, gps := gpsByte env s.gps c }
  | .wake => { s with asleep := false }

/-- The thread has started, with anything in the buffer of the queue. -/
def GpsPort.boot (cells : Nat → UInt8) (g : Gps φ) : GpsPort φ where
  iqueue := RingBuffer.empty cells (by decide)
  asleep := false
  gps := g.start

/-! ## What is observed -/

/-- The bytes on the line. -/
def portReceived (_ : GpsPort φ) : PortAct → List UInt8
  | .sdIncomingDataI b => [b]
  | _ => []

/-- The bytes for which `iqPutI` returns `MSG_OK`. -/
def portAccepted (s : GpsPort φ) : PortAct → List UInt8
  | .sdIncomingDataI b => if s.iqueue.full then [] else [b]
  | _ => []

/-- The bytes that `sdGet` returns. -/
def portHandled (s : GpsPort φ) : PortAct → List UInt8
  | .thread => (s.sdGet.map Prod.fst).toList
  | _ => []

/-- The strings that `gps_parse` is called with. -/
def portCalls (s : GpsPort φ) (a : PortAct) : List (List UInt8) :=
  (portHandled s a).flatMap (gpsCalls env s.gps)

/-- No byte arrives while 16 are waiting. -/
def KeepsUp (s : GpsPort φ) : PortAct → Prop
  | .sdIncomingDataI _ => s.iqueue.content.length < serialBuffersSize
  | _ => True

/-! ## The queue -/

theorem content_le (s : GpsPort φ) : s.iqueue.content.length ≤ serialBuffersSize := by
  rw [RingBuffer.length_content]
  exact s.iqueue.count_le

/-- In a step the bytes go from the line into the queue, or from the queue to the thread. -/
theorem portNext_queue (s : GpsPort φ) (a : PortAct) :
    s.iqueue.content ++ portAccepted s a
      = portHandled s a ++ (portNext env s a).iqueue.content := by
  cases a with
  | sdIncomingDataI b =>
      have hfull := s.iqueue.full_iff
      rw [← RingBuffer.length_content] at hfull
      simp only [portAccepted, portNext, portHandled, List.nil_append]
      split
      · next h => rw [RingBuffer.push_full (hfull.mp h), List.append_nil]
      · next h => rw [RingBuffer.content_push fun hlen => h (hfull.mpr hlen)]
  | thread =>
      simp only [portAccepted, portNext, portHandled, List.append_nil]
      cases hget : s.sdGet with
      | none => rfl
      | some next =>
          obtain ⟨c, iqueue⟩ := next
          rw [GpsPort.sdGet] at hget
          split at hget
          · cases hget
          · exact RingBuffer.content_pop hget
  | wake => simp [portAccepted, portNext, portHandled]

theorem portNext_gps (s : GpsPort φ) (a : PortAct) :
    (portNext env s a).gps = run (gpsByte env) s.gps (portHandled s a) := by
  cases a with
  | thread =>
      simp only [portNext, portHandled]
      cases s.sdGet <;> rfl
  | _ => rfl

theorem portCalls_eq (s : GpsPort φ) (a : PortAct) :
    portCalls env s a = trace (gpsByte env) (gpsCalls env) s.gps (portHandled s a) := by
  rw [portCalls]
  cases a with
  | thread =>
      rw [portHandled]
      cases s.sdGet <;> rfl
  | _ => rfl

/-- The thread sees the handled bytes and nothing else. -/
theorem trace_portCalls (s : GpsPort φ) (as : List PortAct) :
    trace (portNext env) (portCalls env) s as
      = trace (gpsByte env) (gpsCalls env) s.gps (trace (portNext env) portHandled s as) := by
  induction as generalizing s with
  | nil => rfl
  | cons a as ih =>
      rw [trace_cons, trace_cons, ih, portNext_gps, portCalls_eq, trace_append]

theorem portAccepted_eq_iff (s : GpsPort φ) (a : PortAct) :
    portAccepted s a = portReceived s a ↔ KeepsUp s a := by
  cases a with
  | sdIncomingDataI b =>
      have hle := content_le s
      have hfull := s.iqueue.full_iff
      rw [← RingBuffer.length_content] at hfull
      simp only [portAccepted, portReceived, KeepsUp]
      split
      · next h =>
          have hlen := hfull.mp h
          exact ⟨fun hno => (nomatch hno), fun hlt => by omega⟩
      · next h =>
          have hne : s.iqueue.content.length ≠ serialBuffersSize := fun heq => h (hfull.mpr heq)
          exact ⟨fun _ => by omega, fun _ => rfl⟩
  | _ => simp [portAccepted, portReceived, KeepsUp]

theorem portAccepted_sublist (s : GpsPort φ) (a : PortAct) :
    (portAccepted s a).Sublist (portReceived s a) := by
  cases a with
  | sdIncomingDataI b =>
      rw [portAccepted]
      split
      · exact List.nil_sublist _
      · exact List.Sublist.refl _
  | _ => exact List.Sublist.refl _

theorem run_incoming (s : GpsPort φ) (bs : List UInt8) :
    (run (portNext env) s (bs.map .sdIncomingDataI)).iqueue
      = bs.foldl RingBuffer.push s.iqueue := by
  induction bs generalizing s with
  | nil => rfl
  | cons b bs ih =>
      rw [List.map_cons, run_cons, ih]
      rfl

/-- In every run of the interrupt and the thread: the bytes that were accepted are those that
the thread has handled and those in the queue, in order; `gps_parse` is called on the lines of
the handled ones; of any bytes that arrive while the thread does not run the queue keeps those
that 16 cells can hold; and every byte received has been handled or is in the queue exactly when
none has arrived while 16 were waiting. -/
theorem gps_serial_lossless_iff (cells : Nat → UInt8) (g : Gps φ) (as : List PortAct) :
    trace (portNext env) portAccepted (GpsPort.boot cells g) as
        = trace (portNext env) portHandled (GpsPort.boot cells g) as
          ++ (run (portNext env) (GpsPort.boot cells g) as).iqueue.content
    ∧ trace (portNext env) (portCalls env) (GpsPort.boot cells g) as
        = (segments (trace (portNext env) portHandled (GpsPort.boot cells g) as)).map heldPart
    ∧ (∀ bs, (run (portNext env) (GpsPort.boot cells g)
            (as ++ bs.map .sdIncomingDataI)).iqueue.content
        = ((run (portNext env) (GpsPort.boot cells g) as).iqueue.content ++ bs).take 16)
    ∧ (trace (portNext env) portHandled (GpsPort.boot cells g) as
            ++ (run (portNext env) (GpsPort.boot cells g) as).iqueue.content
          = trace (portNext env) portReceived (GpsPort.boot cells g) as
        ↔ Along (portNext env) KeepsUp (GpsPort.boot cells g) as) := by
  have hstep : ∀ (s : GpsPort φ) (a : PortAct), True →
      s.iqueue.content ++ (portAccepted s a).flatMap (fun b => [b])
        = portHandled s a ++ (portNext env s a).iqueue.content := by
    intro s a _
    rw [List.flatMap_singleton']
    exact portNext_queue env s a
  have hempty : (GpsPort.boot cells g).iqueue.content = [] := RingBuffer.content_empty cells _
  have hqueue := trace_answers (I := fun _ => True) (fun _ _ h => h) hstep
    (s := GpsPort.boot cells g) trivial as
  rw [List.flatMap_singleton', hempty, List.nil_append] at hqueue
  refine ⟨hqueue, ?_, fun bs => ?_, ?_⟩
  · rw [trace_portCalls, trace_gpsCalls env (lineInv_start rfl)]
    rfl
  · rw [run_append, run_incoming, RingBuffer.content_foldl_push]
    rfl
  · rw [← hqueue]
    refine Iff.trans (trace_eq_iff portAccepted_sublist _ as) ?_
    exact along_congr_of_invariant (I := fun _ => True) (P := fun _ _ => True)
      (fun _ _ h _ => h) (fun s a _ _ => portAccepted_eq_iff s a) trivial (along_true _ as)

end Port

end Seatel
