import Mathlib.Data.List.Basic

/-!
# C strings in byte memory

Memory is a function from addresses to bytes, counted from the object a
program works on, so that an access past the end of the object is as
visible as one inside. `CStr mem t` says that the string at the start of
memory is `t`; it determines `t`, and `text` computes it from an object
of bounded size (`text_eq`). `memcpy` is the block copy, and
`cstr_memcpy` the one fact about appending with it.
-/

namespace CString

abbrev Mem := Nat → UInt8

/-- The bytes of `t` lie at the start of memory. -/
def Holds (mem : Mem) (t : List UInt8) : Prop := ∀ i b, t[i]? = some b → mem i = b

/-- The string at the start of memory. -/
structure CStr (mem : Mem) (t : List UInt8) : Prop where
  holds : Holds mem t
  nul : mem t.length = 0
  noNul : 0 ∉ t

/-- The string in an object of `size` bytes, all of it when there is no NUL. -/
def text (mem : Mem) (size : Nat) : List UInt8 :=
  ((List.range size).map mem).takeWhile (· ≠ 0)

/-- `memcpy(&mem[at], src, n)` for the `n` bytes of `src`. -/
def memcpy (mem : Mem) (pos : Nat) (src : List UInt8) : Mem :=
  fun i => if pos ≤ i then (src[i - pos]?).getD (mem i) else mem i

theorem memcpy_below {mem : Mem} {pos i : Nat} (src : List UInt8) (h : i < pos) :
    memcpy mem pos src i = mem i := by
  rw [memcpy, if_neg (by omega)]

theorem memcpy_inside {mem : Mem} {pos k : Nat} {src : List UInt8} {b : UInt8}
    (h : src[k]? = some b) : memcpy mem pos src (pos + k) = b := by
  rw [memcpy, if_pos (by omega), Nat.add_sub_cancel_left, h]
  rfl

/-- The bytes of a string literal. -/
def ascii (s : String) : List UInt8 := s.toList.map fun c => c.toNat.toUInt8

/-- `strncmp(data, lit, n) == 0` for a literal of `n` characters. -/
def strncmpEq (data lit : List UInt8) : Bool := lit.isPrefixOf data

theorem strncmpEq_iff {data lit : List UInt8} : strncmpEq data lit = true ↔ lit <+: data :=
  List.isPrefixOf_iff_prefix

/-- Neither of two literals is the start of the other. -/
def Incomparable (a b : List UInt8) : Prop := ¬ a <+: b ∧ ¬ b <+: a

instance (a b : List UInt8) : Decidable (Incomparable a b) := inferInstanceAs (Decidable (_ ∧ _))

/-- Two such literals do not both match. -/
theorem Incomparable.not_prefix {a b data : List UInt8} (h : Incomparable a b) (ha : a <+: data) :
    ¬ b <+: data := by
  intro hb
  rcases List.prefix_or_prefix_of_prefix ha hb with hab | hba
  · exact h.1 hab
  · exact h.2 hba

theorem Incomparable.excludes {a b data : List UInt8} (h : Incomparable a b)
    (ha : strncmpEq data a = true) : strncmpEq data b = false := by
  rw [Bool.eq_false_iff, ne_eq, strncmpEq_iff]
  exact h.not_prefix (strncmpEq_iff.mp ha)

/-- `strncmp(s, t, n) == 0`, with a terminator at the end of each list. -/
def strncmpZero : List UInt8 → List UInt8 → Nat → Bool
  | _, _, 0 => true
  | s, t, n + 1 =>
      if s.headD 0 ≠ t.headD 0 then false
      else if s.headD 0 = 0 then true
      else strncmpZero s.tail t.tail n

/-- Compared as far as a literal goes, the bytes have to start with it. -/
theorem strncmpZero_literal {lit : List UInt8} (h : 0 ∉ lit) (data : List UInt8) :
    strncmpZero data lit lit.length = strncmpEq data lit := by
  induction lit generalizing data with
  | nil => cases data <;> rfl
  | cons b lit ih =>
      rw [List.mem_cons, not_or] at h
      obtain ⟨hb, hlit⟩ := h
      rw [List.length_cons, strncmpZero, List.headD_cons, List.tail_cons, ih hlit]
      cases data with
      | nil =>
          rw [if_pos (show List.headD [] 0 ≠ b from hb)]
          rfl
      | cons c data =>
          rw [List.headD_cons, List.tail_cons, strncmpEq, strncmpEq, List.isPrefixOf_cons_cons]
          by_cases hcb : c = b
          · rw [if_neg (not_not_intro hcb), hcb, if_neg (Ne.symm hb), beq_self_eq_true,
              Bool.true_and]
          · rw [if_pos hcb, beq_eq_false_iff_ne.mpr (Ne.symm hcb), Bool.false_and]

/-- How many bytes of `s` this comparison reads. -/
def strncmpReads : List UInt8 → List UInt8 → Nat → Nat
  | _, _, 0 => 0
  | s, t, n + 1 =>
      if s.headD 0 ≠ t.headD 0 then 1
      else if s.headD 0 = 0 then 1
      else strncmpReads s.tail t.tail n + 1

/-- A comparison with a literal reads past the first bytes exactly when they are the
start of the literal and not all of it. -/
theorem strncmpReads_le_iff {lit : List UInt8} (h : 0 ∉ lit) (data beyond : List UInt8) :
    strncmpReads (data ++ beyond) lit lit.length ≤ data.length
      ↔ ¬ (data <+: lit ∧ data ≠ lit) := by
  induction lit generalizing data with
  | nil => simp [strncmpReads]
  | cons b lit ih =>
      rw [List.mem_cons, not_or] at h
      obtain ⟨hb, hlit⟩ := h
      rw [List.length_cons, strncmpReads, List.headD_cons, List.tail_cons]
      cases data with
      | nil =>
          have hpos : ¬ strncmpReads ([] ++ beyond) (b :: lit) (lit.length + 1) ≤ 0 := by
            rw [strncmpReads]
            split
            · simp
            · split <;> simp
          rw [strncmpReads, List.headD_cons, List.tail_cons] at hpos
          simpa using hpos
      | cons c data =>
          rw [List.cons_append, List.headD_cons, List.tail_cons, List.cons_prefix_cons]
          by_cases hcb : c = b
          · subst hcb
            rw [if_neg (not_not_intro rfl), if_neg (Ne.symm hb), List.length_cons,
              Nat.add_le_add_iff_right, ih hlit]
            simp
          · rw [if_pos hcb]
            simp [hcb]

/-! ## What the string is -/

/-- A string ends at its terminator, whatever stands behind it. -/
theorem takeWhile_nul {t : List UInt8} (h : 0 ∉ t) (rest : List UInt8) :
    (t ++ 0 :: rest).takeWhile (· ≠ 0) = t := by
  have hall : ∀ b ∈ t, decide (b ≠ 0) = true := by
    intro b hb
    rw [decide_eq_true_iff]
    rintro rfl
    exact h hb
  rw [List.takeWhile_append_of_pos hall, List.takeWhile_cons_of_neg (by simp), List.append_nil]

theorem CStr.text_eq {mem : Mem} {t : List UInt8} (h : CStr mem t) {size : Nat}
    (hsize : t.length < size) : text mem size = t := by
  have hpre : (List.range t.length).map mem = t := by
    refine List.ext_getElem? fun i => ?_
    by_cases hi : i < t.length
    · rw [List.getElem?_map, List.getElem?_range hi, List.getElem?_eq_getElem hi]
      exact congrArg some (h.holds i _ (List.getElem?_eq_getElem hi))
    · rw [List.getElem?_eq_none (by simpa using hi), List.getElem?_eq_none (by simpa using hi)]
  obtain ⟨d, rfl⟩ : ∃ d, size = t.length + (d + 1) := ⟨size - t.length - 1, by omega⟩
  rw [text, List.range_add, List.map_append, hpre, List.range_succ_eq_map, List.map_cons,
    List.map_cons, Nat.add_zero, h.nul]
  exact takeWhile_nul h.noNul _

theorem cstr_nil {mem : Mem} (h : mem 0 = 0) : CStr mem [] where
  holds i b hb := by cases hb
  nul := h
  noNul := List.not_mem_nil

/-- An object with a NUL in it holds a string. -/
theorem cstr_text {mem : Mem} {n size : Nat} (hn : n < size) (hnul : mem n = 0) :
    CStr mem (text mem size) ∧ (text mem size).length ≤ n := by
  induction n generalizing mem size with
  | zero =>
      rw [(cstr_nil hnul).text_eq hn]
      exact ⟨cstr_nil hnul, Nat.le_refl 0⟩
  | succ n ih =>
      by_cases hzero : mem 0 = 0
      · rw [(cstr_nil hzero).text_eq (Nat.lt_of_le_of_lt (Nat.zero_le _) hn)]
        exact ⟨cstr_nil hzero, Nat.zero_le _⟩
      · obtain ⟨size, rfl⟩ : ∃ k, size = k + 1 := ⟨size - 1, by omega⟩
        obtain ⟨hstr, hlen⟩ : CStr (fun i => mem (i + 1)) (text (fun i => mem (i + 1)) size)
            ∧ (text (fun i => mem (i + 1)) size).length ≤ n := ih (by omega) hnul
        have hcons : text mem (size + 1) = mem 0 :: text (fun i => mem (i + 1)) size := by
          rw [text, text, List.range_succ_eq_map, List.map_cons, List.map_map,
            List.takeWhile_cons_of_pos (by simpa using hzero)]
          rfl
        rw [hcons]
        refine ⟨⟨fun i b hb => ?_, hstr.nul, ?_⟩, by simpa using hlen⟩
        · cases i with
          | zero => exact Option.some.inj hb
          | succ i => exact hstr.holds i b hb
        · rw [List.mem_cons, not_or]
          exact ⟨fun h => hzero h.symm, hstr.noNul⟩

/-! ## Appending -/

/-- A string copied with its terminator behind the bytes `t` extends them,
whatever was there before. -/
theorem cstr_memcpy {mem : Mem} {t m : List UInt8} (ht : Holds mem t) (htn : 0 ∉ t)
    (hm : 0 ∉ m) : CStr (memcpy mem t.length (m ++ [0])) (t ++ m) := by
  refine ⟨fun i b hb => ?_, ?_, ?_⟩
  · by_cases hi : i < t.length
    · rw [memcpy_below _ hi]
      rw [List.getElem?_append_left hi] at hb
      exact ht i b hb
    · obtain ⟨k, rfl⟩ : ∃ k, i = t.length + k := ⟨i - t.length, by omega⟩
      rw [List.getElem?_append_right (by omega), Nat.add_sub_cancel_left] at hb
      refine memcpy_inside ?_
      have hk : k < m.length := (List.getElem?_eq_some_iff.mp hb).1
      rwa [List.getElem?_append_left hk]
  · rw [List.length_append]
    refine memcpy_inside ?_
    rw [List.getElem?_append_right (Nat.le_refl _), Nat.sub_self]
    rfl
  · rw [List.mem_append, not_or]
    exact ⟨htn, hm⟩

end CString
