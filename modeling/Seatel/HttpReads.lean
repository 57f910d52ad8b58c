import Seatel.HttpDispatch

/-!
# What the HTTP server reads

`server_serve` compares and parses the first fragment of a request where
it lies, without a terminator behind it and without a look at its length.
A comparison stops at the first byte that differs and `atoi` at the first
byte that does not belong to the number, so most requests end the reading
themselves. Two kinds do not: the start of a path that is cut off, and a
number that is (`http_reads_inside_iff`).
-/

namespace Seatel

open CString Numerals

/-- What a test reads: the literal it compares with, so many bytes of it, and the
offset of the number that its branch reads, if it reads one. -/
structure HttpRead where
  literal : List UInt8
  n : Nat
  arg : Option Nat

def serverReads : List HttpRead := [
  ⟨ascii "GET /state.json", 15, none⟩,
  ⟨ascii "GET /favicon.ico", 16, none⟩,
  ⟨ascii "GET /jquery.js", 14, none⟩,
  ⟨ascii "GET / ", 6, none⟩,
  ⟨ascii "GET /set/trq/az/", 16, some 16⟩,
  ⟨ascii "GET /set/trq/el/", 16, some 16⟩,
  ⟨ascii "GET /set/trq/sk/", 16, some 16⟩,
  ⟨ascii "GET /set/tar/az/", 16, some 16⟩,
  ⟨ascii "GET /set/tar/el/", 16, some 16⟩,
  ⟨ascii "GET /set/tar/sk/", 16, some 16⟩,
  ⟨ascii "GET /set/off/az/", 16, some 16⟩,
  ⟨ascii "GET /set/off/el/", 16, some 16⟩,
  ⟨ascii "GET /sw/lna/", 12, some 12⟩,
  ⟨ascii "GET /sw/mde/", 12, some 12⟩,
  ⟨ascii "GET /sw/ext5/", 13, some 13⟩,
  ⟨ascii "GET /sw/ext24/", 14, some 14⟩,
  ⟨ascii "GET /calibrate", 14, none⟩,
  ⟨ascii "GET /debug", 10, none⟩]

/-- The test compares these bytes, and its branch knows the request by the number at
the offset only. -/
structure HttpTest.ReadsAs (libc : Libc) (t : HttpTest) (r : HttpRead) : Prop where
  literal : t.literal = r.literal
  n : t.n = r.n
  arg : ∀ data data', (∀ k ∈ r.arg, libc.atoi (data.drop k) = libc.atoi (data'.drop k)) →
    t.action data = t.action data'

theorem switchOf_congr {libc : Libc} {a b : List UInt8} (h : libc.atoi a = libc.atoi b) :
    switchOf libc a = switchOf libc b := by
  rw [switchOf, switchOf, h]

theorem serverTests_readsAs (libc : Libc) :
    List.Forall₂ (HttpTest.ReadsAs libc) (serverTests libc) serverReads := by
  unfold serverTests serverReads
  repeat' first
    | exact .nil
    | refine .cons ⟨rfl, rfl, fun _ _ _ => rfl⟩ ?_
    | refine .cons ⟨rfl, rfl, fun _ _ h => by
        simp only [argI8, argI16, argU16, h _ rfl, switchOf_congr (h _ rfl)]⟩ ?_

/-- The indices of the request that the chain of tests reads: every comparison up to
the first that succeeds, and the number of its branch. -/
def dataTouched (data : List UInt8) : List HttpRead → List Nat
  | [] => []
  | r :: rs =>
      List.range (strncmpReads data r.literal r.n)
        ++ if strncmpZero data r.literal r.n then r.arg.toList.flatMap (atoiTouched data)
          else dataTouched data rs

/-- The fragment ends in the middle of the literal. -/
def CutOff (data literal : List UInt8) : Prop := data <+: literal ∧ data ≠ literal

/-- The number of a route that matches the fragment ends inside it. -/
def NumberInside (data : List UInt8) (r : HttpRead) : Prop :=
  r.literal <+: data → ∀ k ∈ r.arg, k + numeralSpan (data.drop k) < data.length

/-- A literal without a NUL is compared in full, and the number comes right behind
it. -/
structure HttpRead.Whole (r : HttpRead) : Prop where
  n : r.n = r.literal.length
  noNul : 0 ∉ r.literal
  arg : ∀ k ∈ r.arg, k = r.literal.length

theorem serverReads_whole : ∀ r ∈ serverReads, r.Whole := by
  have h : ∀ r ∈ serverReads, r.n = r.literal.length ∧ 0 ∉ r.literal
      ∧ ∀ k ∈ r.arg, k = r.literal.length := by decide +kernel
  intro r hr
  obtain ⟨hn, hnul, harg⟩ := h r hr
  exact ⟨hn, hnul, harg⟩

theorem serverReads_incomparable :
    serverReads.Pairwise fun r r' => Incomparable r.literal r'.literal := by
  decide +kernel

section Fragment

variable {data beyond : List UInt8} {r : HttpRead}

theorem atoiTouched_inside_iff {k : Nat} (hk : k ≤ data.length) :
    (∀ i ∈ atoiTouched (data ++ beyond) k, i < data.length)
      ↔ k + numeralSpan (data.drop k) < data.length := by
  have hlen : (data.drop k).length = data.length - k := List.length_drop
  have hspan := numeralSpan_append_lt (data.drop k) beyond
  rw [← List.drop_append_of_le_length hk, hlen] at hspan
  constructor
  · intro h
    have hlast := h (k + numeralSpan ((data ++ beyond).drop k))
      (mem_atoiTouched.mpr ⟨Nat.le_add_right _ _, Nat.le_refl _⟩)
    omega
  · intro h i hi
    obtain ⟨-, hle⟩ := mem_atoiTouched.mp hi
    omega

/-- A literal that matches, but not with what lies behind the fragment, matches the
fragment. -/
theorem prefix_of_not_cutOff {literal : List UInt8} (hmatch : literal <+: data ++ beyond)
    (hcut : ¬ CutOff data literal) : literal <+: data := by
  rcases List.prefix_or_prefix_of_prefix hmatch (List.prefix_append data beyond) with h | h
  · exact h
  · by_contra hne
    refine hcut ⟨h, ?_⟩
    rintro rfl
    exact hne (List.prefix_refl _)

/-- Once a literal has matched the fragment, the others are neither cut off nor
match. -/
theorem others_idle {r' : HttpRead} (hinc : Incomparable r.literal r'.literal)
    (hmatch : r.literal <+: data) : ¬ CutOff data r'.literal ∧ NumberInside data r' := by
  constructor
  · rintro ⟨hcut, -⟩
    exact hinc.1 (hmatch.trans hcut)
  · intro hmatch'
    exact absurd hmatch' (hinc.not_prefix hmatch)

theorem forall_range_lt_iff (n m : Nat) : (∀ i ∈ List.range n, i < m) ↔ n ≤ m := by
  constructor
  · intro h
    by_contra hlt
    exact absurd (h m (List.mem_range.mpr (by omega))) (Nat.lt_irrefl m)
  · intro h i hi
    exact Nat.lt_of_lt_of_le (List.mem_range.mp hi) h

/-- The number of a route that matches without the bytes behind the fragment. -/
theorem argTouched_inside_iff (hr : r.Whole) (hdata : r.literal <+: data) :
    (∀ i ∈ r.arg.toList.flatMap (atoiTouched (data ++ beyond)), i < data.length)
      ↔ NumberInside data r := by
  have hin : ∀ k ∈ r.arg, ((∀ i ∈ atoiTouched (data ++ beyond) k, i < data.length)
      ↔ k + numeralSpan (data.drop k) < data.length) := by
    intro k hk
    refine atoiTouched_inside_iff ?_
    rw [hr.arg k hk]
    exact hdata.length_le
  constructor
  · intro h _ k hk
    refine (hin k hk).mp fun i hi => ?_
    exact h i (List.mem_flatMap.mpr ⟨k, Option.mem_toList.mpr hk, hi⟩)
  · intro h i hi
    obtain ⟨k, hk, hi⟩ := List.mem_flatMap.mp hi
    have hk := Option.mem_toList.mp hk
    exact (hin k hk).mpr (h hdata k hk) i hi

theorem dataTouched_inside_iff {rs : List HttpRead} (hwhole : ∀ r ∈ rs, r.Whole)
    (hinc : rs.Pairwise fun r r' => Incomparable r.literal r'.literal) :
    (∀ i ∈ dataTouched (data ++ beyond) rs, i < data.length)
      ↔ ∀ r ∈ rs, ¬ CutOff data r.literal ∧ NumberInside data r := by
  induction rs with
  | nil => simp [dataTouched]
  | cons r rs ih =>
      have hr := hwhole r List.mem_cons_self
      obtain ⟨hfirst, hrest⟩ := List.pairwise_cons.mp hinc
      rw [dataTouched, List.forall_mem_append, forall_range_lt_iff, List.forall_mem_cons, hr.n,
        strncmpReads_le_iff hr.noNul, strncmpZero_literal hr.noNul]
      change (¬ CutOff data r.literal ∧ _) ↔ _
      cases hmatch : strncmpEq (data ++ beyond) r.literal with
      | true =>
          rw [if_pos rfl]
          rw [strncmpEq_iff] at hmatch
          constructor
          · rintro ⟨hcut, htouch⟩
            have hdata := prefix_of_not_cutOff hmatch hcut
            exact ⟨⟨hcut, (argTouched_inside_iff hr hdata).mp htouch⟩,
              fun r' hr' => others_idle (hfirst r' hr') hdata⟩
          · rintro ⟨⟨hcut, hnum⟩, -⟩
            exact ⟨hcut, (argTouched_inside_iff hr (prefix_of_not_cutOff hmatch hcut)).mpr hnum⟩
      | false =>
          rw [if_neg (by decide), ih (fun r' hr' => hwhole r' (List.mem_cons_of_mem r hr')) hrest]
          have hidle : NumberInside data r := by
            intro hdata
            have hall := strncmpEq_iff.mpr (hdata.trans (List.prefix_append data beyond))
            cases hmatch.symm.trans hall
          constructor
          · rintro ⟨hcut, hothers⟩
            exact ⟨⟨hcut, hidle⟩, hothers⟩
          · rintro ⟨⟨hcut, -⟩, hothers⟩
            exact ⟨hcut, hothers⟩

end Fragment

/-- The server reads no byte behind a fragment, whatever lies there, exactly when the
fragment does not end in the middle of a path, and the number behind a path ends
inside the fragment. -/
theorem http_reads_inside_iff (data beyond : List UInt8) :
    (∀ i ∈ dataTouched (data ++ beyond) serverReads, i < data.length)
      ↔ ∀ r ∈ serverReads, ¬ CutOff data r.literal ∧ NumberInside data r :=
  dataTouched_inside_iff serverReads_whole serverReads_incomparable

/-- A fragment that ends in the path, and one that ends in the number. -/
theorem http_reads_behind :
    (¬ ∀ i ∈ dataTouched (ascii "GET /" ++ []) serverReads, i < (ascii "GET /").length)
      ∧ ¬ ∀ i ∈ dataTouched (ascii "GET /set/trq/az/2" ++ []) serverReads,
        i < (ascii "GET /set/trq/az/2").length := by
  constructor <;> decide +kernel

end Seatel
