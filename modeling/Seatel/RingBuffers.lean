import Mathlib.Data.Nat.ModEq
import Mathlib.Logic.Function.Basic

/-!
# Ring buffers

An array with a pointer to the next cell to write, one to the next cell to
read, and the number of cells in use. Both pointers go back to the start of
the array behind its end, so that they are equal in a full buffer as well as
in an empty one, and the number tells the two apart.

A buffer is a queue (`content`): an element that is pushed goes to its end
unless there is no cell left, and the first one is popped.
-/

/-- A ring buffer of `n` cells. The cell to write is `count` cells behind the cell to read. -/
structure RingBuffer (α : Type) (n : Nat) where
  cells : Nat → α
  rd : Nat
  wr : Nat
  count : Nat
  rd_lt : rd < n
  wr_eq : wr = (rd + count) % n
  count_le : count ≤ n

namespace RingBuffer

variable {α : Type} {n : Nat}

/-- The pointer behind `i`. -/
def advance (n i : Nat) : Nat := if i + 1 ≥ n then 0 else i + 1

theorem advance_eq {i : Nat} (hi : i < n) : advance n i = (i + 1) % n := by
  rw [advance]
  split
  · have hlast : i + 1 = n := by omega
    rw [hlast, Nat.mod_self]
  · rw [Nat.mod_eq_of_lt (by omega)]

theorem wr_lt (r : RingBuffer α n) : r.wr < n := by
  rw [r.wr_eq]
  exact Nat.mod_lt _ (Nat.zero_lt_of_lt r.rd_lt)

/-- The pointers are equal and there is something in between. -/
def full (r : RingBuffer α n) : Bool := r.wr = r.rd ∧ r.count ≠ 0

theorem full_iff (r : RingBuffer α n) : r.full = true ↔ r.count = n := by
  have hrd := r.rd_lt
  have hle := r.count_le
  rw [full, decide_eq_true_eq, r.wr_eq]
  constructor
  · rintro ⟨hptr, hne⟩
    by_contra hlt
    rcases Nat.lt_or_ge (r.rd + r.count) n with hin | hout
    · rw [Nat.mod_eq_of_lt hin] at hptr
      omega
    · rw [Nat.mod_eq_sub_mod hout, Nat.mod_eq_of_lt (by omega)] at hptr
      omega
  · intro hcount
    rw [hcount, Nat.add_mod_right, Nat.mod_eq_of_lt hrd]
    exact ⟨rfl, by omega⟩

theorem count_lt {r : RingBuffer α n} (h : r.full ≠ true) : r.count < n := by
  have hle := r.count_le
  rw [Ne, full_iff] at h
  omega

/-! ## Operations -/

/-- Writes an element, or nothing where no cell is left. -/
def push (r : RingBuffer α n) (x : α) : RingBuffer α n :=
  if h : r.full then r
  else
    { cells := Function.update r.cells r.wr x
      rd := r.rd
      wr := advance n r.wr
      count := r.count + 1
      rd_lt := r.rd_lt
      wr_eq := by
        rw [advance_eq r.wr_lt, r.wr_eq, Nat.mod_add_mod, Nat.add_assoc]
      count_le := count_lt h }

/-- Reads an element and frees its cell. -/
def pop (r : RingBuffer α n) : Option (α × RingBuffer α n) :=
  if h : r.count = 0 then none
  else
    some (r.cells r.rd,
      { cells := r.cells
        rd := advance n r.rd
        wr := r.wr
        count := r.count - 1
        rd_lt := by
          rw [advance_eq r.rd_lt]
          exact Nat.mod_lt _ (Nat.zero_lt_of_lt r.rd_lt)
        wr_eq := by
          have hcount : r.rd + 1 + (r.count - 1) = r.rd + r.count := by omega
          rw [advance_eq r.rd_lt, Nat.mod_add_mod, hcount, r.wr_eq]
        count_le := Nat.le_trans (Nat.sub_le _ _) r.count_le })

/-- An empty buffer with anything in its cells. -/
def empty (cells : Nat → α) (hn : 0 < n) : RingBuffer α n where
  cells := cells
  rd := 0
  wr := 0
  count := 0
  rd_lt := hn
  wr_eq := (Nat.zero_mod n).symm
  count_le := Nat.zero_le n

/-! ## As a queue -/

/-- The elements in the order in which they are read. -/
def content (r : RingBuffer α n) : List α :=
  (List.range r.count).map fun k => r.cells ((r.rd + k) % n)

@[simp] theorem length_content (r : RingBuffer α n) : r.content.length = r.count := by
  rw [content, List.length_map, List.length_range]

theorem content_empty (cells : Nat → α) (hn : 0 < n) : (empty cells hn).content = [] := rfl

theorem push_full {r : RingBuffer α n} (h : r.content.length = n) (x : α) : r.push x = r := by
  rw [length_content, ← full_iff] at h
  rw [push, dif_pos h]

/-- The cell to write is none of those in use. -/
theorem wr_ne {r : RingBuffer α n} (hlt : r.count < n) {k : Nat} (hk : k < r.count) :
    (r.rd + k) % n ≠ r.wr := by
  rw [r.wr_eq]
  intro heq
  have hmod : k ≡ r.count [MOD n] := Nat.ModEq.add_left_cancel' r.rd heq
  have heq := hmod.eq_of_lt_of_lt (by omega) hlt
  omega

theorem content_push {r : RingBuffer α n} (h : r.content.length ≠ n) (x : α) :
    (r.push x).content = r.content ++ [x] := by
  rw [length_content, Ne, ← full_iff] at h
  have hlt := count_lt h
  rw [push, dif_neg h]
  simp only [content, List.range_succ, List.map_append, List.map_cons, List.map_nil]
  congr 1
  · refine List.map_congr_left fun k hk => ?_
    exact Function.update_of_ne (wr_ne hlt (List.mem_range.mp hk)) _ _
  · rw [← r.wr_eq, Function.update_self]

theorem content_pop {r r' : RingBuffer α n} {x : α} (h : r.pop = some (x, r')) :
    r.content = x :: r'.content := by
  rw [pop] at h
  split at h
  · cases h
  · next hne =>
      obtain ⟨rfl, rfl⟩ := Prod.mk.inj (Option.some.inj h)
      have hrange : List.range r.count = 0 :: (List.range (r.count - 1)).map Nat.succ := by
        rw [← List.range_succ_eq_map, Nat.sub_add_cancel (Nat.one_le_iff_ne_zero.mpr hne)]
      simp only [content, hrange, List.map_cons, List.map_map]
      congr 1
      · rw [Nat.add_zero, Nat.mod_eq_of_lt r.rd_lt]
      · refine List.map_congr_left fun k _ => ?_
        change r.cells ((r.rd + (k + 1)) % n) = r.cells ((advance n r.rd + k) % n)
        rw [advance_eq r.rd_lt, Nat.mod_add_mod, Nat.add_assoc, Nat.add_comm 1 k]

/-- What comes after the last cell has been taken is lost. -/
theorem content_foldl_push (r : RingBuffer α n) (xs : List α) :
    (xs.foldl push r).content = (r.content ++ xs).take n := by
  induction xs generalizing r with
  | nil =>
      have hle : r.content.length ≤ n := by
        rw [length_content]
        exact r.count_le
      rw [List.foldl_nil, List.append_nil, List.take_of_length_le hle]
  | cons x xs ih =>
      rw [List.foldl_cons, ih]
      by_cases hfull : r.content.length = n
      · rw [push_full hfull, List.take_append_of_le_length (Nat.le_of_eq hfull.symm),
          List.take_append_of_le_length (Nat.le_of_eq hfull.symm)]
      · rw [content_push hfull, List.append_assoc, List.singleton_append]

end RingBuffer
