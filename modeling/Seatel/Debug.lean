import Mathlib.Logic.Function.Basic
import Seatel.CString
import Seatel.Runs

/-!
# The debug bucket, byte by byte

`debug.c` appends messages to a shared string of 4096 bytes and empties
it, from several threads and without a lock. Here a call advances one
access to the bucket at a time and any thread may run between two of
them: a `strlen` or `strcpy` reads one byte, a `memcpy` writes one byte,
in whatever order the library copies. The memory counts from `&bucket[0]`
and goes on behind the bucket with whatever lies there.

The strict `<` of the capacity test keeps every copy below the last byte
of the bucket. That byte is therefore 0 for ever, which bounds every scan
(`dbgInv_next`), and bounded scans keep the copies below it in turn.
-/

namespace Seatel

open Runs CString

def debugBucketSize : Nat := 4096

/-- A value as `size_t` holds it. -/
def sizeT (n : Nat) : Nat := n % 4294967296

/-- A NUL-terminated message. Like every object it has a size that `size_t` can
hold. -/
structure Msg where
  bytes : List UInt8
  noNul : 0 ∉ bytes
  size_lt : bytes.length + 1 < 4294967296
deriving Repr, DecidableEq

/-- The bytes of the object, terminator included. -/
def Msg.object (msg : Msg) : List UInt8 := msg.bytes ++ [0]

/-- `in_len+1 < sizeof(bucket)-used`, in `size_t`. -/
def Msg.fits (msg : Msg) (used : Nat) : Bool :=
  sizeT (msg.bytes.length + 1) < sizeT (debugBucketSize + 4294967296 - used)

/-! ## The calls -/

/-- How far a thread has got. -/
inductive Call where
  | idle
  /-- In `strlen(bucket)`, about to read byte `i`. -/
  | strlen (msg : Msg) (i : Nat)
  /-- `strlen(bucket)` has returned. -/
  | test (msg : Msg) (used : Nat)
  /-- In `memcpy(&bucket[used], str, in_len+1)`, with these offsets to be copied. -/
  | memcpy (msg : Msg) (used : Nat) (todo : List Nat)
  /-- In `strcpy(ret, bucket)`, which has written `ret` so far. -/
  | strcpy (ret : List UInt8)
  /-- About to execute `bucket[0] = 0`. -/
  | clear (ret : List UInt8)
deriving Repr, DecidableEq

/-- The next access of a call; `k` is the offset a `memcpy` turns to. -/
def callStep (mem : Mem) (k : Nat) : Call → Mem × Call
  | .idle => (mem, .idle)
  | .strlen msg i => (mem, if mem i = 0 then .test msg i else .strlen msg (i + 1))
  | .test msg used =>
      (mem, if msg.fits used then
          .memcpy msg used (List.range (sizeT (msg.bytes.length + 1)))
        else .idle)
  | .memcpy _ _ [] => (mem, .idle)
  | .memcpy msg used (j :: todo) =>
      if k ∈ j :: todo then
        (Function.update mem (used + k) (msg.object.getD k 0),
          .memcpy msg used ((j :: todo).erase k))
      else (mem, .memcpy msg used (j :: todo))
  | .strcpy ret =>
      let b := mem ret.length
      (mem, if b = 0 then .clear (ret ++ [b]) else .strcpy (ret ++ [b]))
  | .clear _ => (Function.update mem 0 0, .idle)

/-- The bucket and the calls of all threads. -/
structure Dbg (ι : Type) where
  mem : Mem
  call : ι → Call

inductive DbgAct (ι : Type) where
  /-- The thread calls `debug_print`. -/
  | print (t : ι) (msg : Msg)
  /-- The thread calls `debug_emty_bucket`. -/
  | empty (t : ι)
  /-- The thread makes its next access. -/
  | step (t : ι) (k : Nat)

variable {ι : Type} [DecidableEq ι]

def dbgNext (s : Dbg ι) : DbgAct ι → Dbg ι
  | .print t msg =>
      if s.call t = .idle then { s with call := Function.update s.call t (.strlen msg 0) } else s
  | .empty t =>
      if s.call t = .idle then { s with call := Function.update s.call t (.strcpy []) } else s
  | .step t k =>
      let r := callStep s.mem k (s.call t)
      { mem := r.1, call := Function.update s.call t r.2 }

/-- The bucket is zero-initialised, and no call is under way. -/
structure Dbg.Boot (s : Dbg ι) : Prop where
  zero : ∀ i, i < debugBucketSize → s.mem i = 0
  idle : ∀ t, s.call t = .idle

/-! ## The sentinel -/

/-- Every index of the call lies in the bucket, and every index still to be
written before its last byte. -/
def Call.InBounds : Call → Prop
  | .idle => True
  | .strlen _ i => i ≤ 4095
  | .test _ used => used ≤ 4095
  | .memcpy _ used todo => used ≤ 4095 ∧ ∀ k ∈ todo, used + k ≤ 4094
  | .strcpy ret => ret.length ≤ 4095
  | .clear ret => ret.length ≤ 4096

/-- What lies from the last byte of the bucket on is as it was. -/
structure DbgInv (mem₀ : Mem) (s : Dbg ι) : Prop where
  sentinel : ∀ j, 4095 ≤ j → s.mem j = mem₀ j
  calls : ∀ t, (s.call t).InBounds

/-- A scan that has read no terminator yet is before the sentinel. -/
theorem lt_of_sentinel {mem : Mem} (hlast : mem 4095 = 0) {i : Nat} (hi : i ≤ 4095)
    (hne : mem i ≠ 0) : i + 1 ≤ 4095 := by
  by_cases h : i = 4095
  · rw [h] at hne
    exact absurd hlast hne
  · omega

/-- The capacity test leaves the last byte out. -/
theorem fits_bound {msg : Msg} {used : Nat} (hused : used ≤ 4095) (h : msg.fits used = true) :
    ∀ k ∈ List.range (sizeT (msg.bytes.length + 1)), used + k ≤ 4094 := by
  intro k hk
  rw [Msg.fits, decide_eq_true_iff] at h
  have hlt := List.mem_range.mp hk
  simp only [sizeT, debugBucketSize] at h hlt
  omega

theorem callStep_inBounds {mem : Mem} (hlast : mem 4095 = 0) (k : Nat) {c : Call}
    (hc : c.InBounds) :
    (∀ j, 4095 ≤ j → (callStep mem k c).1 j = mem j) ∧ (callStep mem k c).2.InBounds := by
  cases c with
  | idle => exact ⟨fun _ _ => rfl, hc⟩
  | strlen msg i =>
      refine ⟨fun _ _ => rfl, ?_⟩
      simp only [callStep]
      split
      · exact hc
      · rename_i hne
        exact lt_of_sentinel hlast hc hne
  | test msg used =>
      refine ⟨fun _ _ => rfl, ?_⟩
      simp only [callStep]
      split
      · rename_i hfits
        exact ⟨hc, fits_bound hc hfits⟩
      · trivial
  | memcpy msg used todo =>
      obtain ⟨hused, htodo⟩ := hc
      cases todo with
      | nil => exact ⟨fun _ _ => rfl, trivial⟩
      | cons j todo =>
          simp only [callStep]
          split
          · rename_i hk
            have hbound := htodo k hk
            refine ⟨fun i hi => ?_, hused, fun k' hk' => ?_⟩
            · exact Function.update_of_ne (by omega) _ _
            · exact htodo k' (List.erase_subset hk')
          · exact ⟨fun _ _ => rfl, hused, htodo⟩
  | strcpy ret =>
      refine ⟨fun _ _ => rfl, ?_⟩
      simp only [callStep]
      split
      · simp only [Call.InBounds, List.length_append, List.length_singleton] at hc ⊢
        omega
      · rename_i hne
        have := lt_of_sentinel hlast hc hne
        simpa only [Call.InBounds, List.length_append, List.length_singleton] using this
  | clear ret =>
      refine ⟨fun i hi => ?_, trivial⟩
      exact Function.update_of_ne (by omega) _ _

theorem inBounds_update {call : ι → Call} (h : ∀ t, (call t).InBounds) (t : ι) {c : Call}
    (hc : c.InBounds) (t' : ι) : (Function.update call t c t').InBounds := by
  by_cases ht : t' = t
  · rw [ht, Function.update_self]
    exact hc
  · rw [Function.update_of_ne ht]
    exact h t'

theorem dbgInv_next {mem₀ : Mem} (hlast : mem₀ 4095 = 0) {s : Dbg ι} (h : DbgInv mem₀ s)
    (a : DbgAct ι) : DbgInv mem₀ (dbgNext s a) := by
  cases a with
  | print t msg =>
      simp only [dbgNext]
      split
      · exact ⟨h.sentinel, inBounds_update h.calls t (Nat.zero_le 4095)⟩
      · exact h
  | empty t =>
      simp only [dbgNext]
      split
      · exact ⟨h.sentinel, inBounds_update h.calls t (Nat.zero_le 4095)⟩
      · exact h
  | step t k =>
      have hmem : s.mem 4095 = 0 := (h.sentinel 4095 (Nat.le_refl _)).trans hlast
      obtain ⟨hkeep, hin⟩ := callStep_inBounds hmem k (h.calls t)
      refine ⟨fun j hj => (hkeep j hj).trans (h.sentinel j hj), ?_⟩
      exact inBounds_update h.calls t hin

theorem dbgInv_run {s : Dbg ι} (hboot : s.Boot) (as : List (DbgAct ι)) :
    DbgInv s.mem (run dbgNext s as) := by
  have hlast : s.mem 4095 = 0 := hboot.zero 4095 (by decide)
  refine run_invariant_always (I := DbgInv s.mem) (fun _ a hs => dbgInv_next hlast hs a) ?_ as
  refine ⟨fun _ _ => rfl, fun t => ?_⟩
  rw [hboot.idle t]
  trivial

/-! ## Scans return -/

/-- The byte a `strlen` or `strcpy` reads next. -/
def Call.scan : Call → Option Nat
  | .strlen _ i => some i
  | .strcpy ret => some ret.length
  | _ => none

/-- What the scan of the first call ends with. -/
def Call.ScanEnds : Call → Call → Prop
  | .strlen msg _, .test msg' used => msg' = msg ∧ used ≤ 4095
  | .strcpy _, .clear ret => ret.length ≤ 4096
  | _, _ => False

/-- A step of a scan ends it or moves on by one byte. -/
theorem callStep_scan {mem : Mem} (hlast : mem 4095 = 0) (k : Nat) {c : Call} {i : Nat}
    (hc : c.InBounds) (hi : c.scan = some i) :
    c.ScanEnds (callStep mem k c).2
      ∨ ((callStep mem k c).2.scan = some (i + 1)
        ∧ ∀ c', (callStep mem k c).2.ScanEnds c' → c.ScanEnds c') := by
  have hin := (callStep_inBounds hlast k hc).2
  cases c with
  | strlen msg n =>
      obtain rfl := Option.some.inj hi
      simp only [callStep] at hin ⊢
      split
      · exact Or.inl ⟨rfl, hc⟩
      · refine Or.inr ⟨rfl, fun c' hc' => ?_⟩
        cases c' with
        | test msg' used => exact hc'
        | _ => exact hc'.elim
  | strcpy ret =>
      obtain rfl := Option.some.inj hi
      simp only [callStep] at hin ⊢
      split
      · rename_i hzero
        rw [if_pos hzero] at hin
        exact Or.inl hin
      · refine Or.inr ⟨by simp [Call.scan], fun c' hc' => ?_⟩
        cases c' with
        | clear ret' => exact hc'
        | _ => exact hc'.elim
  | _ => cases hi

/-- The act is an access of the thread. -/
def DbgAct.isStepOf (t : ι) : DbgAct ι → Bool
  | .step t' _ => t' = t
  | _ => false

/-- No other act touches a call that is under way. -/
theorem dbgNext_call {s : Dbg ι} {t : ι} {i : Nat} (hi : (s.call t).scan = some i)
    {a : DbgAct ι} (ha : a.isStepOf t = false) : (dbgNext s a).call t = s.call t := by
  have hbusy : ∀ t', s.call t' = .idle → t ≠ t' := by
    rintro t' hidle rfl
    rw [hidle] at hi
    cases hi
  cases a with
  | print t' msg =>
      simp only [dbgNext]
      split
      · rename_i hidle
        exact Function.update_of_ne (hbusy t' hidle) _ _
      · rfl
  | empty t' =>
      simp only [dbgNext]
      split
      · rename_i hidle
        exact Function.update_of_ne (hbusy t' hidle) _ _
      · rfl
  | step t' k =>
      have hne : t ≠ t' := by
        rintro rfl
        simp [DbgAct.isStepOf] at ha
      exact Function.update_of_ne hne _ _

theorem scan_le {c : Call} (hc : c.InBounds) {i : Nat} (hi : c.scan = some i) : i ≤ 4095 := by
  cases c with
  | strlen msg n => exact Option.some.inj hi ▸ hc
  | strcpy ret => exact Option.some.inj hi ▸ hc
  | _ => cases hi

theorem DbgAct.eq_step {a : DbgAct ι} {t : ι} (h : a.isStepOf t = true) : ∃ k, a = .step t k := by
  cases a with
  | step t' k => exact ⟨k, by rw [of_decide_eq_true h]⟩
  | _ => cases h

/-- A scan returns within as many accesses of its thread as there are bytes left. -/
theorem scan_returns {mem₀ : Mem} (hlast : mem₀ 4095 = 0) {s : Dbg ι} (h : DbgInv mem₀ s) {t : ι}
    {i : Nat} (hi : (s.call t).scan = some i) {as : List (DbgAct ι)}
    (hcount : 4096 ≤ as.countP (·.isStepOf t) + i) :
    ∃ pre, pre <+: as ∧ (s.call t).ScanEnds ((run dbgNext s pre).call t) := by
  have hmem : s.mem 4095 = 0 := (h.sentinel 4095 (Nat.le_refl _)).trans hlast
  induction as generalizing s i with
  | nil =>
      -- without an access left the scan would be past the sentinel
      have hle := scan_le (h.calls t) hi
      simp only [List.countP_nil] at hcount
      omega
  | cons a as ih =>
      have h' := dbgInv_next hlast h a
      have hmem' : (dbgNext s a).mem 4095 = 0 := (h'.sentinel 4095 (Nat.le_refl _)).trans hlast
      cases ha : a.isStepOf t with
      | false =>
          have hcall := dbgNext_call hi ha
          obtain ⟨pre, hpre, hend⟩ := ih h' (i := i) (by rw [hcall]; exact hi)
            (by simpa [List.countP_cons, ha] using hcount) hmem'
          rw [hcall] at hend
          exact ⟨a :: pre, List.cons_prefix_cons.mpr ⟨rfl, hpre⟩, hend⟩
      | true =>
          obtain ⟨k, rfl⟩ := DbgAct.eq_step ha
          have hcall : (dbgNext s (.step t k)).call t = (callStep s.mem k (s.call t)).2 :=
            Function.update_self _ _ _
          rcases callStep_scan hmem k (h.calls t) hi with hend | ⟨hscan, hends⟩
          · refine ⟨[.step t k], List.cons_prefix_cons.mpr ⟨rfl, List.nil_prefix⟩, ?_⟩
            rw [run_cons, run_nil, hcall]
            exact hend
          · obtain ⟨pre, hpre, hend⟩ := ih h' (i := i + 1) (by rw [hcall]; exact hscan)
              (by simp only [List.countP_cons, ha, if_true] at hcount; omega) hmem'
            rw [hcall] at hend
            exact ⟨_ :: pre, List.cons_prefix_cons.mpr ⟨rfl, hpre⟩, hends _ hend⟩

/-- Whatever the interleaving, the last byte of the bucket is 0 and nothing is
written from it on, every index of every call is in bounds, and every `strlen`
and `strcpy` returns within 4096 reads. -/
theorem debug_bucket_in_bounds {s : Dbg ι} (hboot : s.Boot) (as : List (DbgAct ι)) :
    (run dbgNext s as).mem 4095 = 0
      ∧ (∀ j, 4095 ≤ j → (run dbgNext s as).mem j = s.mem j)
      ∧ (∀ t, ((run dbgNext s as).call t).InBounds)
      ∧ ∀ t i, ((run dbgNext s as).call t).scan = some i →
          ∀ bs : List (DbgAct ι), 4096 ≤ bs.countP (·.isStepOf t) →
            ∃ pre, pre <+: bs ∧ ((run dbgNext s as).call t).ScanEnds
              ((run dbgNext (run dbgNext s as) pre).call t) := by
  have hlast : s.mem 4095 = 0 := hboot.zero 4095 (by decide)
  have hinv := dbgInv_run hboot as
  refine ⟨(hinv.sentinel 4095 (Nat.le_refl _)).trans hlast, hinv.sentinel, hinv.calls, ?_⟩
  intro t i hi bs hcount
  exact scan_returns hlast hinv hi (by omega)

/-- A message of five bytes. -/
def helloMsg : Msg := ⟨[104, 101, 108, 108, 111], by decide, by decide⟩

/-- Two threads print at once, the second inside the copy of the first. -/
theorem debug_bucket_in_bounds_preempted :
    (run dbgNext (⟨fun _ => 0, fun _ => .idle⟩ : Dbg Bool)
      [.print true helloMsg, .step true 0, .step true 0, .step true 3, .print false helloMsg,
        .step false 0, .step false 0, .step false 5, .step true 0]).mem 4095 = 0 :=
  (debug_bucket_in_bounds ⟨fun _ _ => rfl, fun _ => rfl⟩ _).1

end Seatel
