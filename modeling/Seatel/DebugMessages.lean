import Mathlib.Data.List.Induction
import Mathlib.Data.List.Perm.Basic
import Seatel.Debug

/-!
# What becomes of the debug messages

The same calls at the granularity at which they matter for the messages:
`strlen`, the test with its `memcpy`, `strcpy` and `bucket[0] = 0` are one
step each. The control and the OCXO thread print, the HTTP thread empties
the bucket. Every step is a run of the byte machine of `Debug` in which
nobody interferes (`bucketNext_refines`), so what happens here can happen
there.

A print relies on the length it has measured until it has copied, and a
drain on the text it has copied until it has cleared it. A run in which
no step changes the text while another call relies on it delivers every
message once and whole (`bucketInv_next`). A step that does change it
costs a message as soon as the other call goes on.
-/

namespace Seatel

open Runs CString

inductive Printer where
  | ctrl
  | ocxo
deriving Repr, DecidableEq

/-- The bucket between two steps of the calls. -/
structure Bucket where
  mem : Mem
  /-- A print that has measured the bucket: its message and `used`. -/
  print : Printer → Option (Msg × Nat)
  /-- A drain that has copied the bucket to `ret`. -/
  drain : Option (List UInt8)
  /-- The texts of all completed drains, in order. -/
  drained : List UInt8
  /-- The messages whose capacity test succeeded, in order. -/
  accepted : List (List UInt8)

inductive BucketAct where
  | strlen (p : Printer) (msg : Msg)
  | memcpy (p : Printer)
  | strcpy
  | clear
deriving Repr, DecidableEq

def bucketText (mem : Mem) : List UInt8 := text mem debugBucketSize

def bucketNext (s : Bucket) : BucketAct → Bucket
  | .strlen p msg =>
      match s.print p with
      | none =>
          { s with print := Function.update s.print p (some (msg, (bucketText s.mem).length)) }
      | some _ => s
  | .memcpy p =>
      match s.print p with
      | none => s
      | some (msg, used) =>
          let s := { s with print := Function.update s.print p none }
          if msg.fits used then
            { s with
              mem := CString.memcpy s.mem used msg.object
              accepted := s.accepted ++ [msg.bytes] }
          else s
  | .strcpy =>
      match s.drain with
      | none => { s with drain := some (bucketText s.mem) }
      | some _ => s
  | .clear =>
      match s.drain with
      | none => s
      | some ret =>
          { s with mem := Function.update s.mem 0 0, drain := none, drained := s.drained ++ ret }

def Bucket.boot : Bucket where
  mem _ := 0
  print _ := none
  drain := none
  drained := []
  accepted := []

/-- The drained texts followed by the bucket are the accepted messages, each of
them once and in one piece. -/
def Delivered (s : Bucket) : Prop :=
  ∃ ms : List (List UInt8), ms.Perm s.accepted ∧ s.drained ++ bucketText s.mem = ms.flatten

theorem Delivered.length_eq {s : Bucket} (h : Delivered s) :
    s.drained.length + (bucketText s.mem).length = s.accepted.flatten.length := by
  obtain ⟨ms, hperm, heq⟩ := h
  rw [← List.length_append, heq]
  exact hperm.flatten.length_eq

/-! ## Interference -/

/-- The print has measured the bucket and will copy its message. -/
def Bucket.Live (s : Bucket) (p : Printer) (msg : Msg) (used : Nat) : Prop :=
  s.print p = some (msg, used) ∧ msg.fits used = true

/-- The step changes the text while another call relies on it: a message is
copied into the bucket between `strlen` and `memcpy` of another print or between
`strcpy` and `bucket[0] = 0` of a drain, or a text is cleared between `strlen`
and `memcpy` of a print. -/
def Interferes (s : Bucket) : BucketAct → Prop
  | .memcpy p => ∃ msg used, s.Live p msg used ∧ msg.bytes ≠ []
      ∧ ((∃ q msg' used', q ≠ p ∧ s.Live q msg' used') ∨ s.drain.isSome = true)
  | .clear => ∃ ret, s.drain = some ret ∧ ret ≠ [] ∧ ∃ q msg used, s.Live q msg used
  | _ => False

/-! ## Undisturbed steps -/

/-- The bucket holds the string `t`, every call relies on this `t`, and with what
has been drained it makes up the accepted messages in order. -/
structure BucketInv (s : Bucket) (t : List UInt8) : Prop where
  cstr : CStr s.mem t
  length_le : t.length ≤ 4095
  live : ∀ p msg used, s.Live p msg used → used = t.length
  drain : ∀ ret, s.drain = some ret → ret = t
  flatten : s.drained ++ t = s.accepted.flatten

theorem BucketInv.text_eq {s : Bucket} {t : List UInt8} (h : BucketInv s t) :
    bucketText s.mem = t :=
  h.cstr.text_eq (Nat.lt_succ_of_le h.length_le)

theorem BucketInv.delivered {s : Bucket} {t : List UInt8} (h : BucketInv s t) :
    Delivered s :=
  ⟨s.accepted, List.Perm.refl _, by rw [h.text_eq, h.flatten]⟩

/-- The capacity test leaves room for the terminator. -/
theorem fits_length {msg : Msg} {used : Nat} (hused : used ≤ 4095) (h : msg.fits used = true) :
    used + msg.bytes.length ≤ 4094 := by
  have hsize : sizeT (msg.bytes.length + 1) = msg.bytes.length + 1 :=
    Nat.mod_eq_of_lt msg.size_lt
  refine fits_bound hused h _ (List.mem_range.mpr ?_)
  rw [hsize]
  exact Nat.lt_succ_self _

/-- What a printer relies on after another printer's variable has changed. -/
theorem live_update {s s' : Bucket} {p q : Printer} {c : Option (Msg × Nat)} {msg : Msg}
    {used : Nat} (hprint : s'.print = Function.update s.print p c) (h : s'.Live q msg used) :
    (q = p ∧ c = some (msg, used)) ∨ (q ≠ p ∧ s.Live q msg used) := by
  obtain ⟨hq, hfits⟩ := h
  rw [hprint] at hq
  by_cases hqp : q = p
  · subst hqp
    rw [Function.update_self] at hq
    exact Or.inl ⟨rfl, hq⟩
  · rw [Function.update_of_ne hqp] at hq
    exact Or.inr ⟨hqp, hq, hfits⟩

theorem bucketInv_strlen {s : Bucket} {t : List UInt8} (h : BucketInv s t) (p : Printer)
    (msg : Msg) : BucketInv (bucketNext s (.strlen p msg)) t := by
  simp only [bucketNext]
  cases hp : s.print p with
  | some c => exact h
  | none =>
      refine ⟨h.cstr, h.length_le, fun q msg' used' hlive => ?_, h.drain, h.flatten⟩
      rcases live_update rfl hlive with ⟨-, heq⟩ | ⟨-, hlive⟩
      · obtain ⟨rfl, rfl⟩ := Prod.mk.inj (Option.some.inj heq)
        rw [h.text_eq]
      · exact h.live q msg' used' hlive

theorem bucketInv_memcpy {s : Bucket} {t : List UInt8} (h : BucketInv s t) {p : Printer}
    (hno : ¬ Interferes s (.memcpy p)) : ∃ t', BucketInv (bucketNext s (.memcpy p)) t' := by
  simp only [bucketNext]
  cases hp : s.print p with
  | none => exact ⟨t, h⟩
  | some c =>
      obtain ⟨msg, used⟩ := c
      by_cases hfits : msg.fits used = true
      · simp only [hfits, if_true]
        have hlive : s.Live p msg used := ⟨hp, hfits⟩
        obtain rfl := h.live p msg used hlive
        have hlen := fits_length h.length_le hfits
        refine ⟨t ++ msg.bytes, cstr_memcpy h.cstr.holds h.cstr.noNul msg.noNul, ?_, ?_, ?_, ?_⟩
        · rw [List.length_append]
          omega
        · intro q msg' used' hq
          rcases live_update rfl hq with ⟨-, heq⟩ | ⟨hqp, hq⟩
          · cases heq
          · -- another live print tolerates an empty message only
            have hnil : msg.bytes = [] := by
              by_contra hne
              exact hno ⟨msg, t.length, hlive, hne, Or.inl ⟨q, msg', used', hqp, hq⟩⟩
            rw [hnil, List.append_nil]
            exact h.live q msg' used' hq
        · intro ret hret
          have hnil : msg.bytes = [] := by
            by_contra hne
            refine hno ⟨msg, t.length, hlive, hne, Or.inr ?_⟩
            exact Option.isSome_iff_exists.mpr ⟨ret, hret⟩
          rw [hnil, List.append_nil]
          exact h.drain ret hret
        · simp only [List.flatten_append, List.flatten_singleton, ← h.flatten, List.append_assoc]
      · simp only [hfits, Bool.false_eq_true, if_false]
        refine ⟨t, h.cstr, h.length_le, fun q msg' used' hq => ?_, h.drain, h.flatten⟩
        rcases live_update rfl hq with ⟨-, heq⟩ | ⟨-, hq⟩
        · cases heq
        · exact h.live q msg' used' hq

theorem bucketInv_strcpy {s : Bucket} {t : List UInt8} (h : BucketInv s t) :
    BucketInv (bucketNext s .strcpy) t := by
  simp only [bucketNext]
  cases hd : s.drain with
  | some ret => exact h
  | none =>
      refine ⟨h.cstr, h.length_le, h.live, fun ret hret => ?_, h.flatten⟩
      rw [← Option.some.inj hret, h.text_eq]

theorem bucketInv_clear {s : Bucket} {t : List UInt8} (h : BucketInv s t)
    (hno : ¬ Interferes s .clear) : ∃ t', BucketInv (bucketNext s .clear) t' := by
  simp only [bucketNext]
  cases hd : s.drain with
  | none => exact ⟨t, h⟩
  | some ret =>
      obtain rfl := h.drain ret hd
      refine ⟨[], cstr_nil (Function.update_self 0 0 s.mem), by simp, ?_, ?_, ?_⟩
      · intro q msg used hq
        have hnil : ret = [] := by
          by_contra hne
          exact hno ⟨ret, hd, hne, q, msg, used, hq⟩
        rw [← hnil]
        exact h.live q msg used hq
      · intro ret' hret'
        cases hret'
      · rw [List.append_nil]
        exact h.flatten

theorem bucketInv_next {s : Bucket} {t : List UInt8} (h : BucketInv s t) {a : BucketAct}
    (hno : ¬ Interferes s a) : ∃ t', BucketInv (bucketNext s a) t' := by
  cases a with
  | strlen p msg => exact ⟨t, bucketInv_strlen h p msg⟩
  | memcpy p => exact bucketInv_memcpy h hno
  | strcpy => exact ⟨t, bucketInv_strcpy h⟩
  | clear => exact bucketInv_clear h hno

theorem bucketInv_boot : BucketInv Bucket.boot [] where
  cstr := cstr_nil rfl
  length_le := Nat.zero_le _
  live p msg used h := by cases h.1
  drain ret h := by cases h
  flatten := rfl

theorem bucketInv_run {as : List BucketAct}
    (hno : Along bucketNext (fun s a => ¬ Interferes s a) Bucket.boot as) :
    ∃ t, BucketInv (run bucketNext Bucket.boot as) t :=
  run_invariant (I := fun s => ∃ t, BucketInv s t)
    (fun _ _ ⟨_, ht⟩ ha => bucketInv_next ht ha) ⟨[], bucketInv_boot⟩ hno

/-! ## Interference costs a message -/

/-- A step that accepted one message and one that lost a message: the lengths do
not add up. -/
theorem not_delivered_of_length {s : Bucket}
    (h : s.drained.length + (bucketText s.mem).length ≠ s.accepted.flatten.length) :
    ¬ Delivered s :=
  fun hd => h hd.length_eq

/-- The `memcpy` of a live print, as one equation. -/
theorem bucketNext_memcpy {s : Bucket} {p : Printer} {msg : Msg} {used : Nat}
    (h : s.Live p msg used) :
    bucketNext s (.memcpy p) = { s with
      print := Function.update s.print p none
      mem := CString.memcpy s.mem used msg.object
      accepted := s.accepted ++ [msg.bytes] } := by
  simp only [bucketNext, h.1, h.2, if_true]

/-- A copy into the window of another print is overwritten by that print. -/
theorem lost_to_print {s : Bucket} {t : List UInt8} (h : BucketInv s t) {p q : Printer}
    {msg msg' : Msg} {used used' : Nat} (hp : s.Live p msg used) (hne : msg.bytes ≠ [])
    (hqp : q ≠ p) (hq : s.Live q msg' used') :
    ¬ Delivered (run bucketNext s [.memcpy p, .memcpy q]) := by
  obtain rfl := h.live p msg used hp
  obtain rfl := h.live q msg' used' hq
  have hlen' := fits_length h.length_le hq.2
  rw [run_cons, run_cons, run_nil, bucketNext_memcpy hp]
  have hq' : Bucket.Live { s with
      print := Function.update s.print p none
      mem := CString.memcpy s.mem t.length msg.object
      accepted := s.accepted ++ [msg.bytes] } q msg' t.length :=
    ⟨(Function.update_of_ne hqp _ _).trans hq.1, hq.2⟩
  rw [bucketNext_memcpy hq']
  have hholds : Holds (CString.memcpy s.mem t.length msg.object) t := by
    intro i b hb
    rw [memcpy_below _ (List.getElem?_eq_some_iff.mp hb).1]
    exact h.cstr.holds i b hb
  have hstr : CStr (CString.memcpy (CString.memcpy s.mem t.length msg.object) t.length
      msg'.object) (t ++ msg'.bytes) := cstr_memcpy hholds h.cstr.noNul msg'.noNul
  have htext : text _ debugBucketSize = t ++ msg'.bytes :=
    hstr.text_eq (by rw [List.length_append, debugBucketSize]; omega)
  refine not_delivered_of_length ?_
  have hflat := congrArg List.length h.flatten
  have hpos := List.length_pos_iff.mpr hne
  simp only [bucketText, htext, List.flatten_append, List.flatten_singleton,
    List.length_append] at hflat ⊢
  omega

/-- A copy into the window of a drain is cleared by the drain. -/
theorem lost_to_drain {s : Bucket} {t : List UInt8} (h : BucketInv s t) {p : Printer}
    {msg : Msg} {used : Nat} (hp : s.Live p msg used) (hne : msg.bytes ≠ [])
    (hd : s.drain.isSome = true) :
    ¬ Delivered (run bucketNext s [.memcpy p, .clear]) := by
  obtain ⟨ret, hret⟩ := Option.isSome_iff_exists.mp hd
  obtain rfl := h.drain ret hret
  rw [run_cons, run_cons, run_nil, bucketNext_memcpy hp]
  simp only [bucketNext, hret]
  have hnil := cstr_nil
    (Function.update_self 0 (0 : UInt8) (CString.memcpy s.mem used msg.object))
  have htext : text _ debugBucketSize = [] := hnil.text_eq (by decide)
  refine not_delivered_of_length ?_
  have hflat := congrArg List.length h.flatten
  have hpos := List.length_pos_iff.mpr hne
  simp only [bucketText, htext, List.flatten_append,
    List.flatten_singleton, List.length_append, List.length_nil] at hflat ⊢
  omega

/-- A print whose text was cleared under it copies its message behind the
terminator. -/
theorem lost_behind_clear {s : Bucket} {t : List UInt8} (h : BucketInv s t) {ret : List UInt8}
    (hret : s.drain = some ret) (hne : ret ≠ []) {q : Printer} {msg : Msg} {used : Nat}
    (hq : s.Live q msg used) (hmsg : msg.bytes ≠ []) :
    ¬ Delivered (run bucketNext s [.clear, .memcpy q]) := by
  obtain rfl := h.drain ret hret
  obtain rfl := h.live q msg used hq
  have hclear : bucketNext s .clear = { s with
      mem := Function.update s.mem 0 0, drain := none, drained := s.drained ++ ret } := by
    simp only [bucketNext, hret]
  have hq' : (bucketNext s .clear).Live q msg ret.length := by
    rw [hclear]
    exact hq
  rw [run_cons, run_cons, run_nil, bucketNext_memcpy hq', hclear]
  have hpos := List.length_pos_iff.mpr hne
  have hnil : CStr (CString.memcpy (Function.update s.mem 0 0) ret.length msg.object) [] := by
    refine cstr_nil ?_
    rw [memcpy_below _ hpos, Function.update_self]
  have htext : text _ debugBucketSize = [] := hnil.text_eq (by decide)
  refine not_delivered_of_length ?_
  have hflat := congrArg List.length h.flatten
  have hpos' := List.length_pos_iff.mpr hmsg
  simp only [bucketText, htext, List.flatten_append,
    List.flatten_singleton, List.length_append, List.length_nil] at hflat ⊢
  omega

/-! ## Every step is an undisturbed run of the byte machine -/

inductive DbgThread where
  | printer (p : Printer)
  | http
deriving Repr, DecidableEq

/-- Where a print is that has measured the bucket. -/
def printCall : Option (Msg × Nat) → Call
  | none => .idle
  | some (msg, used) => .test msg used

/-- Where a drain is that has copied the bucket. -/
def drainCall : Option (List UInt8) → Call
  | none => .idle
  | some ret => .clear (ret ++ [0])

/-- The two machines show the same bucket and the same calls. -/
structure BucketRel (b : Bucket) (s : Dbg DbgThread) : Prop where
  mem : s.mem = b.mem
  print : ∀ p, s.call (.printer p) = printCall (b.print p)
  drain : s.call .http = drainCall b.drain

section Scan

variable {mem : Mem} {call : DbgThread → Call} {t : DbgThread} {txt : List UInt8}

/-- An undisturbed `strlen` returns the length of the string. -/
theorem run_strlen (hstr : CStr mem txt) (msg : Msg) {n i : Nat} (hn : txt.length = i + n) :
    run dbgNext ⟨mem, Function.update call t (.strlen msg i)⟩ (List.replicate (n + 1) (.step t 0))
      = ⟨mem, Function.update call t (.test msg txt.length)⟩ := by
  induction n generalizing i with
  | zero =>
      have hnul : mem i = 0 := by
        rw [show i = txt.length by omega]
        exact hstr.nul
      simp [dbgNext, callStep, hnul, hn]
  | succ n ih =>
      have hi : i < txt.length := by omega
      have hne : mem i ≠ 0 := by
        rw [hstr.holds i _ (List.getElem?_eq_getElem hi)]
        exact fun h => hstr.noNul (h ▸ List.getElem_mem hi)
      rw [List.replicate_succ, run_cons]
      simp only [dbgNext, callStep, Function.update_self, if_neg hne, Function.update_idem]
      exact ih (by omega)

/-- An undisturbed `strcpy` copies the string with its terminator. -/
theorem run_strcpy (hstr : CStr mem txt) {ret rest : List UInt8} (hsplit : txt = ret ++ rest) :
    run dbgNext ⟨mem, Function.update call t (.strcpy ret)⟩
        (List.replicate (rest.length + 1) (.step t 0))
      = ⟨mem, Function.update call t (.clear (txt ++ [0]))⟩ := by
  induction rest generalizing ret with
  | nil =>
      rw [List.append_nil] at hsplit
      subst hsplit
      simp [dbgNext, callStep, hstr.nul]
  | cons b rest ih =>
      have hget : txt[ret.length]? = some b := by
        rw [hsplit, List.getElem?_append_right (Nat.le_refl _), Nat.sub_self]
        rfl
      have hb : mem ret.length = b := hstr.holds _ _ hget
      have hne : b ≠ 0 := by
        rintro rfl
        exact hstr.noNul (List.mem_of_getElem? hget)
      rw [List.length_cons, List.replicate_succ, run_cons]
      simp only [dbgNext, callStep, Function.update_self, hb, if_neg hne, Function.update_idem]
      exact ih (by rw [hsplit, List.append_assoc]; rfl)

end Scan

/-- The bytes a `memcpy` of these offsets leaves behind. -/
def writeAll (used : Nat) (object : List UInt8) (mem : Mem) (ks : List Nat) : Mem :=
  ks.foldl (fun m k => Function.update m (used + k) (object.getD k 0)) mem

theorem writeAll_range {used : Nat} {object : List UInt8} {mem : Mem} {n : Nat}
    (hn : n ≤ object.length) :
    writeAll used object mem (List.range n) = CString.memcpy mem used (object.take n) := by
  induction n with
  | zero =>
      funext i
      simp [writeAll, CString.memcpy]
  | succ n ih =>
      rw [writeAll, List.range_succ, List.foldl_append]
      change Function.update (writeAll used object mem (List.range n)) _ _ = _
      rw [ih (by omega)]
      funext i
      by_cases hi : i = used + n
      · subst hi
        have hget : (object.take (n + 1))[n]? = some (object.getD n 0) := by
          rw [List.getElem?_take_of_lt (Nat.lt_succ_self n), List.getD_eq_getElem?_getD,
            List.getElem?_eq_getElem (by omega)]
          rfl
        rw [Function.update_self, memcpy_inside hget]
      · rw [Function.update_of_ne hi]
        simp only [CString.memcpy]
        split
        · rename_i hle
          by_cases hlt : i - used < n
          · rw [List.getElem?_take_of_lt hlt, List.getElem?_take_of_lt (by omega)]
          · rw [List.getElem?_eq_none (by simp; omega), List.getElem?_eq_none (by simp; omega)]
        · rfl

/-- An undisturbed `memcpy` in any order. -/
theorem run_memcpy {mem : Mem} {call : DbgThread → Call} {t : DbgThread} (msg : Msg) (used : Nat)
    (ks : List Nat) :
    run dbgNext ⟨mem, Function.update call t (.memcpy msg used ks)⟩ (ks.map (.step t))
      = ⟨writeAll used msg.object mem ks, Function.update call t (.memcpy msg used [])⟩ := by
  induction ks generalizing mem with
  | nil => rfl
  | cons k ks ih =>
      rw [List.map_cons, run_cons]
      simp only [dbgNext, callStep, Function.update_self, List.mem_cons_self, if_true,
        List.erase_cons_head, Function.update_idem]
      rw [ih]
      rfl

/-- Only the call of one printer has changed. -/
theorem bucketRel_print {b b' : Bucket} {s : Dbg DbgThread} (h : BucketRel b s) {p : Printer}
    {c : Option (Msg × Nat)} (hprint : b'.print = Function.update b.print p c)
    (hdrain : b'.drain = b.drain) :
    BucketRel b' ⟨b'.mem, Function.update s.call (.printer p) (printCall c)⟩ where
  mem := rfl
  print q := by
    rw [hprint]
    by_cases hq : q = p
    · subst hq
      simp only [Function.update_self]
    · have hne : DbgThread.printer q ≠ .printer p := by simpa using hq
      simp only [Function.update_of_ne hq, Function.update_of_ne hne]
      exact h.print q
  drain := by
    have hne : DbgThread.http ≠ .printer p := by simp
    simp only [hdrain, Function.update_of_ne hne]
    exact h.drain

/-- Only the call of the HTTP thread has changed. -/
theorem bucketRel_drain {b b' : Bucket} {s : Dbg DbgThread} (h : BucketRel b s)
    {c : Option (List UInt8)} (hprint : b'.print = b.print) (hdrain : b'.drain = c) :
    BucketRel b' ⟨b'.mem, Function.update s.call .http (drainCall c)⟩ where
  mem := rfl
  print q := by
    have hne : DbgThread.printer q ≠ .http := by simp
    simp only [hprint, Function.update_of_ne hne]
    exact h.print q
  drain := by
    simp only [hdrain, Function.update_self]

theorem strlen_refines {b : Bucket} {call : DbgThread → Call} (h : BucketRel b ⟨b.mem, call⟩)
    (hstr : CStr b.mem (bucketText b.mem)) (p : Printer) (msg : Msg) :
    ∃ as, BucketRel (bucketNext b (.strlen p msg)) (run dbgNext ⟨b.mem, call⟩ as) := by
  simp only [bucketNext]
  cases hp : b.print p with
  | some c => exact ⟨[], h⟩
  | none =>
      have hidle : call (.printer p) = .idle := by
        have := h.print p
        rwa [hp] at this
      refine ⟨.print (.printer p) msg :: List.replicate ((bucketText b.mem).length + 1)
        (.step (.printer p) 0), ?_⟩
      rw [run_cons]
      simp only [dbgNext, hidle, if_true]
      rw [run_strlen hstr msg (Nat.zero_add _).symm]
      exact bucketRel_print (c := some (msg, (bucketText b.mem).length)) h rfl rfl

/-- The capacity test and, when it succeeds, the bytes of the copy in their order. -/
theorem memcpy_refines {b : Bucket} {call : DbgThread → Call} (h : BucketRel b ⟨b.mem, call⟩)
    (p : Printer) :
    ∃ as, BucketRel (bucketNext b (.memcpy p)) (run dbgNext ⟨b.mem, call⟩ as) := by
  simp only [bucketNext]
  cases hp : b.print p with
  | none => exact ⟨[], h⟩
  | some c =>
      obtain ⟨msg, used⟩ := c
      have hcall : call (.printer p) = .test msg used := by
        have := h.print p
        rwa [hp] at this
      by_cases hfits : msg.fits used = true
      · have hsize : sizeT (msg.bytes.length + 1) = msg.object.length := by
          rw [Msg.object, List.length_append]
          exact Nat.mod_eq_of_lt msg.size_lt
        refine ⟨.step (.printer p) 0 :: ((List.range msg.object.length).map
          (.step (.printer p)) ++ [.step (.printer p) 0]), ?_⟩
        rw [run_cons]
        simp only [dbgNext, hcall, callStep, hfits, if_true, hsize]
        rw [run_append, run_memcpy, writeAll_range (Nat.le_refl _), List.take_length]
        simp only [run_cons, run_nil, dbgNext, callStep, Function.update_self,
          Function.update_idem]
        exact bucketRel_print (c := none) h rfl rfl
      · refine ⟨[.step (.printer p) 0], ?_⟩
        simp only [run_cons, run_nil, dbgNext, hcall, callStep, hfits, Bool.false_eq_true,
          if_false]
        exact bucketRel_print (c := none) h rfl rfl

theorem strcpy_refines {b : Bucket} {call : DbgThread → Call} (h : BucketRel b ⟨b.mem, call⟩)
    (hstr : CStr b.mem (bucketText b.mem)) :
    ∃ as, BucketRel (bucketNext b .strcpy) (run dbgNext ⟨b.mem, call⟩ as) := by
  simp only [bucketNext]
  cases hd : b.drain with
  | some ret => exact ⟨[], h⟩
  | none =>
      have hidle : call .http = .idle := by
        have := h.drain
        rwa [hd] at this
      refine ⟨.empty .http :: List.replicate ((bucketText b.mem).length + 1) (.step .http 0), ?_⟩
      rw [run_cons]
      simp only [dbgNext, hidle, if_true]
      rw [run_strcpy hstr (List.nil_append _).symm]
      exact bucketRel_drain (c := some (bucketText b.mem)) h rfl rfl

theorem clear_refines {b : Bucket} {call : DbgThread → Call} (h : BucketRel b ⟨b.mem, call⟩) :
    ∃ as, BucketRel (bucketNext b .clear) (run dbgNext ⟨b.mem, call⟩ as) := by
  simp only [bucketNext]
  cases hd : b.drain with
  | none => exact ⟨[], h⟩
  | some ret =>
      have hcall : call .http = .clear (ret ++ [0]) := by
        have := h.drain
        rwa [hd] at this
      refine ⟨[.step .http 0], ?_⟩
      simp only [run_cons, run_nil, dbgNext, hcall, callStep]
      exact bucketRel_drain (c := none) h rfl rfl

theorem bucketNext_refines {b : Bucket} {s : Dbg DbgThread} (h : BucketRel b s)
    (hlast : b.mem 4095 = 0) (a : BucketAct) :
    ∃ as, BucketRel (bucketNext b a) (run dbgNext s as) := by
  have hstr : CStr b.mem (bucketText b.mem) := (cstr_text (by decide) hlast).1
  obtain ⟨mem, call⟩ := s
  obtain rfl : mem = b.mem := h.mem
  cases a with
  | strlen p msg => exact strlen_refines h hstr p msg
  | memcpy p => exact memcpy_refines h p
  | strcpy => exact strcpy_refines h hstr
  | clear => exact clear_refines h

/-- What the calls do from the zero-initialised bucket on, step by step, they can
do byte by byte. -/
theorem bucket_run_refines (as : List BucketAct) :
    ∃ bs, BucketRel (run bucketNext Bucket.boot as)
      (run dbgNext (⟨fun _ => 0, fun _ => .idle⟩ : Dbg DbgThread) bs) := by
  have hboot : Dbg.Boot (⟨fun _ => 0, fun _ => .idle⟩ : Dbg DbgThread) :=
    ⟨fun _ _ => rfl, fun _ => rfl⟩
  induction as using List.reverseRecOn with
  | nil => exact ⟨[], rfl, fun _ => rfl, rfl⟩
  | append_singleton as a ih =>
      obtain ⟨bs, hrel⟩ := ih
      have hlast : (run bucketNext Bucket.boot as).mem 4095 = 0 := by
        rw [← hrel.mem]
        exact (dbgInv_run hboot bs).sentinel 4095 (Nat.le_refl _)
      obtain ⟨cs, hrel'⟩ := bucketNext_refines hrel hlast a
      refine ⟨bs ++ cs, ?_⟩
      rw [run_append, run_append]
      exact hrel'

/-! ## Every run -/

/-- From the zero-initialised bucket, a run in which no step changes the text
while another call relies on it delivers every accepted message once and whole,
in every state on the way. The first step that does so is followed by one after
which a message is gone, when the messages under way are not empty. -/
theorem debug_messages_delivered (as : List BucketAct)
    (hno : Along bucketNext (fun s a => ¬ Interferes s a) Bucket.boot as) :
    (∀ pre, pre <+: as → Delivered (run bucketNext Bucket.boot pre))
      ∧ ∀ a, Interferes (run bucketNext Bucket.boot as) a →
          (∀ q msg used, (run bucketNext Bucket.boot as).Live q msg used → msg.bytes ≠ []) →
          ∃ b, ¬ Delivered (run bucketNext Bucket.boot (as ++ [a, b])) := by
  constructor
  · rintro pre ⟨post, rfl⟩
    obtain ⟨t, ht⟩ := bucketInv_run ((along_append _ _ _).mp hno).1
    exact ht.delivered
  · intro a ha hmsgs
    obtain ⟨t, ht⟩ := bucketInv_run hno
    simp only [run_append]
    cases a with
    | strlen p msg => exact ha.elim
    | strcpy => exact ha.elim
    | memcpy p =>
        obtain ⟨msg, used, hlive, hne, ⟨q, msg', used', hqp, hq⟩ | hdrain⟩ := ha
        · exact ⟨.memcpy q, lost_to_print ht hlive hne hqp hq⟩
        · exact ⟨.clear, lost_to_drain ht hlive hne hdrain⟩
    | clear =>
        obtain ⟨ret, hret, hne, q, msg, used, hq⟩ := ha
        exact ⟨.memcpy q, lost_behind_clear ht hret hne hq (hmsgs q msg used hq)⟩

theorem not_interferes_of_alone {s : Bucket} {p : Printer}
    (hprint : ∀ q, q ≠ p → s.print q = none) (hdrain : s.drain = none) :
    ¬ Interferes s (.memcpy p) := by
  rintro ⟨msg, used, hlive, hne, ⟨q, msg', used', hqp, hq⟩ | hsome⟩
  · cases (hprint q hqp).symm.trans hq.1
  · rw [hdrain] at hsome
    cases hsome

/-- Two messages printed one after the other. -/
theorem debug_messages_delivered_in_turn :
    Delivered (run bucketNext Bucket.boot
      [.strlen .ctrl helloMsg, .memcpy .ctrl, .strlen .ocxo helloMsg, .memcpy .ocxo]) := by
  refine (debug_messages_delivered
    [.strlen .ctrl helloMsg, .memcpy .ctrl, .strlen .ocxo helloMsg, .memcpy .ocxo]
    ⟨id, ?_, id, ?_, trivial⟩).1 _ (List.prefix_refl _)
  · refine not_interferes_of_alone (fun q hq => ?_) (by decide +kernel)
    cases q with
    | ctrl => exact absurd rfl hq
    | ocxo => decide +kernel
  · refine not_interferes_of_alone (fun q hq => ?_) (by decide +kernel)
    cases q with
    | ctrl => decide +kernel
    | ocxo => exact absurd rfl hq

/-- The OCXO thread prints while the control thread is between its `strlen` and
its `memcpy`: both messages are accepted and one is left. -/
theorem debug_message_lost :
    (run bucketNext Bucket.boot
        [.strlen .ctrl helloMsg, .strlen .ocxo helloMsg, .memcpy .ocxo, .memcpy .ctrl]).accepted
        = [helloMsg.bytes, helloMsg.bytes]
      ∧ ¬ Delivered (run bucketNext Bucket.boot
        [.strlen .ctrl helloMsg, .strlen .ocxo helloMsg, .memcpy .ocxo, .memcpy .ctrl]) := by
  refine ⟨by decide +kernel, not_delivered_of_length ?_⟩
  decide +kernel

end Seatel
