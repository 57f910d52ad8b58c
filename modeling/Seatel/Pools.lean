import Mathlib.Algebra.BigOperators.Fin
import Mathlib.Algebra.Order.BigOperators.Group.Finset
import Mathlib.Data.List.Count

/-!
# Pools of cells

A pool hands out the cells of a fixed array and keeps those that are not
handed out on a free list. It cannot tell who holds a cell, so that nothing
but the discipline of its users keeps a cell from being freed twice, or from
being used by two of them: a free list has no check.

`Accounted` is that discipline as a sum: every cell is on the free list or
with one holder, once. It is kept by taking the head of the free list and by
putting back a cell that is held, and where the holders are few the free
list is not empty (`Accounted.exists_free`).

`ledger` reads the life of the cells off a trace: a cell that is taken was
free, one that is used or given back was taken, and not given back since.
-/

namespace Pools

variable {n : Nat} {tab : List (Fin n)} {held held' : Fin n → Nat} {i : Fin n}

/-- How often a variable that may hold a cell holds the cell `i`. -/
def holds (o : Option (Fin n)) (i : Fin n) : Nat := if o = some i then 1 else 0

@[simp] theorem holds_none : holds none i = 0 := rfl

theorem holds_some (j : Fin n) : holds (some j) i = if j = i then 1 else 0 := by
  simp [holds]

@[simp] theorem holds_self : holds (some i) i = 1 := by simp [holds]

theorem sum_holds (o : Option (Fin n)) : ∑ i, holds o i = if o.isSome then 1 else 0 := by
  cases o with
  | none => simp
  | some j => simp [holds_some]

theorem sum_count (l : List (Fin n)) : ∑ i, l.count i = l.length := by
  have hcard := Multiset.sum_count_eq_card (s := Finset.univ) (m := (l : Multiset (Fin n)))
    fun i _ => Finset.mem_univ i
  simpa using hcard

/-- Every cell is on the free list or held, and once in all. -/
def Accounted (tab : List (Fin n)) (held : Fin n → Nat) : Prop := ∀ i, tab.count i + held i = 1

namespace Accounted

/-- The head of the free list goes to a holder. -/
theorem take (h : Accounted (i :: tab) held) (hheld : ∀ j, held' j = held j + holds (some i) j) :
    Accounted tab held' := by
  intro j
  have hj := h j
  rw [List.count_cons] at hj
  rw [hheld, holds_some]
  simp only [beq_iff_eq] at hj
  omega

/-- A held cell goes back to the free list. -/
theorem give (h : Accounted tab held) (hheld : ∀ j, held j = held' j + holds (some i) j) :
    Accounted (i :: tab) held' := by
  intro j
  have hj := h j
  rw [hheld, holds_some] at hj
  rw [List.count_cons]
  simp only [beq_iff_eq]
  omega

/-- Cells may change hands. -/
theorem pass (h : Accounted tab held) (hheld : ∀ j, held' j = held j) : Accounted tab held' := by
  intro j
  rw [hheld]
  exact h j

theorem mem_tab_iff (h : Accounted tab held) : i ∈ tab ↔ held i = 0 := by
  have hi := h i
  rw [← List.count_pos_iff]
  omega

theorem held_le (h : Accounted tab held) (i : Fin n) : held i ≤ 1 := by
  have hi := h i
  omega

/-- The cells are the free ones and the held ones. -/
theorem length_add (h : Accounted tab held) : tab.length + ∑ i, held i = n := by
  calc tab.length + ∑ i, held i = ∑ i, (tab.count i + held i) := by
        rw [Finset.sum_add_distrib, sum_count]
    _ = ∑ _i : Fin n, 1 := Finset.sum_congr rfl fun i _ => h i
    _ = n := by simp

/-- While fewer cells are held than there are, one is free. -/
theorem exists_free (h : Accounted tab held) (hfew : ∑ i, held i < n) :
    ∃ i rest, tab = i :: rest := by
  have hlen := h.length_add
  cases tab with
  | nil =>
      rw [List.length_nil] at hlen
      omega
  | cons i rest => exact ⟨i, rest, rfl⟩

end Accounted

/-! ## The life of a cell -/

inductive CellEvent (n : Nat) where
  | take (i : Fin n)
  | use (i : Fin n)
  | give (i : Fin n)
deriving Repr, DecidableEq

/-- Reads what happens to the cells; `live` are those taken and not given back. -/
def ledger (live : Fin n → Bool) : CellEvent n → Option (Fin n → Bool)
  | .take i => if live i then none else some (Function.update live i true)
  | .use i => if live i then some live else none
  | .give i => if live i then some (Function.update live i false) else none

/-- The cells that are not on the free list. -/
def taken (tab : List (Fin n)) : Fin n → Bool := fun i => decide (i ∉ tab)

theorem Accounted.taken_iff (h : Accounted tab held) : taken tab i = true ↔ 0 < held i := by
  rw [taken, decide_eq_true_iff, h.mem_tab_iff]
  omega

theorem ledger_take (h : Accounted (i :: tab) held) :
    ledger (taken (i :: tab)) (.take i) = some (taken tab) := by
  have hi : i ∉ tab := by
    have hi := h i
    rw [List.count_cons_self] at hi
    rw [← List.count_eq_zero]
    omega
  rw [ledger, if_neg (by simp [taken])]
  congr 1
  funext j
  by_cases hj : j = i
  · subst hj
    simp [taken, hi]
  · simp [taken, hj]

theorem ledger_use (h : Accounted tab held) (hi : 0 < held i) :
    ledger (taken tab) (.use i) = some (taken tab) := by
  rw [ledger, if_pos (h.taken_iff.mpr hi)]

theorem ledger_give (h : Accounted tab held) (hi : 0 < held i) :
    ledger (taken tab) (.give i) = some (taken (i :: tab)) := by
  rw [ledger, if_pos (h.taken_iff.mpr hi)]
  congr 1
  funext j
  by_cases hj : j = i
  · subst hj
    simp [taken]
  · simp [taken, hj]

end Pools
