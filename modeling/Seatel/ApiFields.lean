import Seatel.Api

/-!
# The fields of a position command

`extract_numbers` looks for a separator, a blank and a separator, and goes
on behind the end of the message when one is missing. Where the three
scans stop is said once, in terms of the message as a C string
(`scan_spec`); with `missing` for how many of the three are not there, the
number behind the last one starts at the end of the message plus
`missing`.

Two results follow. The bytes that are touched are inside the buffer
exactly as long as there is room for what is missing
(`extract_numbers_in_bounds_iff`). And the one comparison that decides
whether a message is accepted, `i != l`, refuses a message that ends with
the last separator and none in which something is missing
(`malformed_position_refused_iff`).
-/

namespace Seatel

open CString Numerals

/-! ## Where the scans stop -/

theorem dropWhile_eq_drop (p : UInt8 → Bool) (l : List UInt8) :
    l.dropWhile p = l.drop (l.takeWhile p).length := by
  calc l.dropWhile p
      = (l.takeWhile p ++ l.dropWhile p).drop (l.takeWhile p).length := List.drop_left.symm
    _ = l.drop (l.takeWhile p).length := by rw [List.takeWhile_append_dropWhile]

/-- What a scan from `i` to `j` over the message says. -/
structure ScanStop (stop : UInt8 → Bool) (text : List UInt8) (i j : Nat) : Prop where
  rest : (text.drop i).dropWhile (!stop ·) = text.drop j
  le : i ≤ j
  le_end : j ≤ max i text.length
  found : j < text.length → ∃ b, text[j]? = some b ∧ stop b = true
  first : ∀ p b, i ≤ p → text[p]? = some b → stop b = true → j ≤ p

/-- A scan stops at the first byte it looks for, or at the end. -/
theorem scanTo_spec (stop : UInt8 → Bool) (msg : List UInt8) (l i : Nat) :
    ScanStop stop (msg.take l) i (scanTo stop msg l i) := by
  have hspan : (((msg.take l).drop i).takeWhile fun b => !stop b).length
      = ((msg.take l).drop i).findIdx stop := by
    have hle : ((msg.take l).drop i).findIdx stop ≤ ((msg.take l).drop i).length :=
      List.findIdx_le_length
    rw [List.takeWhile_eq_take_findIdx_not, List.length_take]
    simp only [Bool.not_not]
    exact Nat.min_eq_left hle
  have hrest : ((msg.take l).drop i).dropWhile (!stop ·)
      = (msg.take l).drop (scanTo stop msg l i) := by
    rw [dropWhile_eq_drop, List.drop_drop, scanTo]
  rw [scanTo, hspan] at *
  generalize msg.take l = text at *
  have hlen : (text.drop i).findIdx stop ≤ (text.drop i).length := List.findIdx_le_length
  rw [List.length_drop] at hlen
  refine ⟨hrest, Nat.le_add_right _ _, by omega, fun hlt => ?_, fun p b hp hb hstop => ?_⟩
  · have hin : (text.drop i).findIdx stop < (text.drop i).length := by
      rw [List.length_drop]
      omega
    refine ⟨_, List.getElem?_eq_getElem hlt, ?_⟩
    have hget := List.findIdx_getElem (w := hin)
    rwa [List.getElem_drop] at hget
  · by_contra hnot
    have hlt : p - i < (text.drop i).findIdx stop := by omega
    have hno := List.not_of_lt_findIdx hlt
    obtain ⟨hpl, heq⟩ := List.getElem?_eq_some_iff.mp hb
    rw [List.getElem_drop] at hno
    have hidx : i + (p - i) = p := by omega
    simp only [hidx, heq, hstop] at hno
    cases hno

/-! ## The message -/

/-- The C string of a fragment. -/
def fragText (data : List UInt8) : List UInt8 := data.takeWhile (· ≠ 0)

/-- How many are missing of a separator from index 2 on, a blank behind it and a
separator behind that. -/
def missing (text : List UInt8) : Nat :=
  match (text.drop 2).dropWhile (!isSeparator ·) with
  | [] => 3
  | _ :: rest =>
      match rest.dropWhile (!isBlank ·) with
      | [] => 2
      | _ :: rest =>
          match rest.dropWhile (!isSeparator ·) with
          | [] => 1
          | _ :: _ => 0

theorem apiBuf_length (data : List UInt8) : (apiBuf data).length = 128 := by
  rw [apiBuf, List.length_take, List.length_append, List.length_replicate]
  omega

/-- The string in the buffer is that of the fragment, as far as there is room. -/
theorem apiBuf_text (data : List UInt8) :
    (apiBuf data).takeWhile (· ≠ 0) = (fragText data).take 128 := by
  rw [apiBuf, ← List.take_takeWhile, fragText, List.replicate_succ, takeWhile_stop (by decide)]

/-- Where the scans of a buffer stop, given its text. -/
structure FieldScan (text : List UInt8) (f : Fields) : Prop where
  l : f.l = text.length
  s₁ : ScanStop isSeparator text 2 f.i₁
  s₂ : ScanStop isBlank text (f.i₁ + 1) f.i₂
  s₃ : ScanStop isSeparator text (f.i₂ + 1) f.i₃

theorem scanFields_spec (msg : List UInt8) :
    FieldScan (msg.takeWhile (· ≠ 0)) (scanFields msg) := by
  have htake : msg.take (msg.takeWhile (· ≠ 0)).length = msg.takeWhile (· ≠ 0) :=
    (List.prefix_iff_eq_take.mp (List.takeWhile_prefix _)).symm
  have hspec : ∀ stop i, ScanStop stop (msg.takeWhile (· ≠ 0)) i
      (scanTo stop msg (msg.takeWhile (· ≠ 0)).length i) := by
    intro stop i
    have h := scanTo_spec stop msg (msg.takeWhile (· ≠ 0)).length i
    rwa [htake] at h
  rw [scanFields_eq rfl rfl rfl rfl]
  exact ⟨rfl, hspec _ _, hspec _ _, hspec _ _⟩

theorem missing_eq {text : List UInt8} {f : Fields} (h : FieldScan text f) :
    missing text
      = if text.length ≤ f.i₁ then 3
        else if text.length ≤ f.i₂ then 2
        else if text.length ≤ f.i₃ then 1
        else 0 := by
  unfold missing
  rw [h.s₁.rest]
  split_ifs with h₁ h₂ h₃
  · rw [List.drop_eq_nil_of_le h₁]
  · rw [List.drop_eq_getElem_cons (Nat.lt_of_not_le h₁)]
    simp only [h.s₂.rest, List.drop_eq_nil_of_le h₂]
  · rw [List.drop_eq_getElem_cons (Nat.lt_of_not_le h₁)]
    simp only [h.s₂.rest]
    rw [List.drop_eq_getElem_cons (Nat.lt_of_not_le h₂)]
    simp only [h.s₃.rest, List.drop_eq_nil_of_le h₃]
  · rw [List.drop_eq_getElem_cons (Nat.lt_of_not_le h₁)]
    simp only [h.s₂.rest]
    rw [List.drop_eq_getElem_cons (Nat.lt_of_not_le h₂)]
    simp only [h.s₃.rest]
    rw [List.drop_eq_getElem_cons (Nat.lt_of_not_le h₃)]

theorem missing_le (text : List UInt8) : missing text ≤ 3 := by
  unfold missing
  split
  · exact Nat.le_refl 3
  · split
    · exact (by decide : 2 ≤ 3)
    · split
      · exact (by decide : 1 ≤ 3)
      · exact Nat.zero_le 3

/-- The last number starts inside the message, or behind its end by what is
missing. -/
theorem lastStart_eq {text : List UInt8} {f : Fields} (h : FieldScan text f) :
    (missing text = 0 ∧ f.i₃ < text.length)
      ∨ (missing text ≠ 0 ∧ f.i₃ + 1 = max text.length 2 + missing text) := by
  have hm := missing_eq h
  have h₁ := h.s₁.le
  have h₁' := h.s₁.le_end
  have h₂ := h.s₂.le
  have h₂' := h.s₂.le_end
  have h₃ := h.s₃.le
  have h₃' := h.s₃.le_end
  split_ifs at hm <;> omega

/-! ## What is touched -/

theorem scanFields_msg (msg : List UInt8) :
    (scanFields msg).msg = ((msg.set (scanFields msg).i₁ 95).set (scanFields msg).i₂ 95).set
      (scanFields msg).i₃ 95 := by
  rw [scanFields_eq rfl rfl rfl rfl]

/-- Behind the last store the buffer is as it was. -/
theorem scanFields_drop (msg : List UInt8) :
    (scanFields msg).msg.drop ((scanFields msg).i₃ + 1) = msg.drop ((scanFields msg).i₃ + 1) := by
  have hscan := scanFields_spec msg
  have h₂ := hscan.s₂.le
  have h₃ := hscan.s₃.le
  rw [scanFields_msg, List.drop_set_of_lt (by omega), List.drop_set_of_lt (by omega),
    List.drop_set_of_lt (by omega)]

theorem stops_underscore : Stops 95 := ⟨rfl, rfl, by decide, by decide⟩

/-- A number ends at a byte behind it that stops it: a store or a terminator. -/
theorem numeralSpan_upto {msg : List UInt8} {b : UInt8} (hb : Stops b) {k j : Nat} (hkj : k ≤ j)
    (hj : msg[j]? = some b) : k + numeralSpan (msg.drop k) ≤ j := by
  have hget : (msg.drop k)[j - k]? = some b := by
    rw [List.getElem?_drop, Nat.add_sub_cancel' hkj, hj]
  have hle := numeralSpan_le hget hb
  omega

theorem mem_scanTouched {l i j k : Nat} (hij : i ≤ j) (h : k ∈ scanTouched l i j) :
    k < l ∨ k < j := by
  rw [scanTouched, List.mem_range'_1] at h
  split at h <;> omega

/-- Everything that is touched lies between the end of the message and the end of
the last number. -/
theorem touched_inside_iff (msg : List UInt8) :
    (∀ i ∈ touched msg, i < msg.length)
      ↔ (scanFields msg).l < msg.length
        ∧ (scanFields msg).i₃ + 1 + numeralSpan (msg.drop ((scanFields msg).i₃ + 1))
          < msg.length := by
  have hscan := scanFields_spec msg
  have h₁ := hscan.s₁.le
  have h₂ := hscan.s₂.le
  have h₃ := hscan.s₃.le
  constructor
  · intro hin
    constructor
    · refine hin _ ?_
      simp only [touched, List.mem_append, List.mem_range]
      exact .inl (.inl (.inl (.inl (.inl (Nat.lt_succ_self _)))))
    · refine hin _ ?_
      simp only [touched, List.mem_append]
      refine .inr (.inr (mem_atoiTouched.mpr ⟨Nat.le_add_right _ _, ?_⟩))
      rw [scanFields_drop]
  · rintro ⟨hl, hend⟩ i hi
    have hstore : ∀ j, j = (scanFields msg).i₁ ∨ j = (scanFields msg).i₂ ∨ j = (scanFields msg).i₃ →
        (scanFields msg).msg[j]? = some 95 := by
      intro j hj
      rw [scanFields_msg]
      simp only [List.getElem?_set, List.length_set]
      split_ifs <;> first | rfl | omega
    have ha₁ := numeralSpan_upto stops_underscore h₁ (hstore _ (.inl rfl))
    have ha₂ := numeralSpan_upto stops_underscore h₂ (hstore _ (.inr (.inl rfl)))
    have ha₃ := numeralSpan_upto stops_underscore h₃ (hstore _ (.inr (.inr rfl)))
    simp only [touched, List.mem_append, List.mem_range, List.mem_singleton, mem_atoiTouched,
      scanFields_drop] at hi
    rcases hi with ((((hi | hi | hi) | hi | hi) | hi | hi) | hi | hi) | hi | hi
    · omega
    · have hk := mem_scanTouched h₁ hi
      omega
    · omega
    · have hk := mem_scanTouched h₂ hi
      omega
    · omega
    · have hk := mem_scanTouched h₃ hi
      omega
    all_goals omega

/-! ## The buffer -/

/-- A short message stands in the buffer with its terminator. -/
theorem apiBuf_message {data : List UInt8} (h : (fragText data).length ≤ 127) :
    (apiBuf data).takeWhile (· ≠ 0) = fragText data
      ∧ (apiBuf data)[(fragText data).length]? = some 0 := by
  have htext : (apiBuf data).takeWhile (· ≠ 0) = fragText data := by
    rw [apiBuf_text, List.take_of_length_le (by omega)]
  refine ⟨htext, ?_⟩
  have hlt : (fragText data).length < (apiBuf data).length := by
    rw [apiBuf_length]
    omega
  have hsplit := List.takeWhile_append_dropWhile (p := fun b : UInt8 => decide (b ≠ 0))
    (l := apiBuf data)
  rw [htext] at hsplit
  cases hdrop : (apiBuf data).dropWhile fun b : UInt8 => decide (b ≠ 0) with
  | nil =>
      rw [hdrop, List.append_nil] at hsplit
      rw [← hsplit] at hlt
      omega
  | cons b rest =>
      have hhead := List.head?_dropWhile_not (fun b : UInt8 => decide (b ≠ 0)) (apiBuf data)
      rw [hdrop] at hhead hsplit
      have hb : b = 0 := by simpa using hhead
      rw [← hsplit, List.getElem?_append_right (Nat.le_refl _), Nat.sub_self, hb]
      rfl

/-- When nothing is missing the terminator ends the last number. -/
theorem complete_inside {data : List UInt8} (hlen : (fragText data).length ≤ 127)
    (hlast : (scanFields (apiBuf data)).i₃ < (fragText data).length) :
    ∀ i ∈ touched (apiBuf data), i < (apiBuf data).length := by
  obtain ⟨htext, hnul⟩ := apiBuf_message hlen
  have hl := (scanFields_spec (apiBuf data)).l
  rw [htext] at hl
  have hle := numeralSpan_upto Stops.nul (Nat.succ_le_of_lt hlast) hnul
  rw [Nat.succ_eq_add_one] at hle
  rw [touched_inside_iff, apiBuf_length]
  omega

/-- A fragment shorter than the buffer leaves a terminator at its end. -/
theorem apiBuf_last {data : List UInt8} (h : data.length < 128) :
    (apiBuf data)[127]? = some 0 := by
  rw [apiBuf, List.getElem?_take_of_lt (by decide), List.getElem?_append_right (by omega),
    List.getElem?_replicate_of_lt (by omega)]

/-- There is room for the message and what is missing of it, and a fragment that
fills the buffer does not end in a number that was begun behind the message. -/
structure FitsBuffer (data : List UInt8) : Prop where
  room : (fragText data).length + missing (fragText data) ≤ 127
  ends : 128 ≤ data.length → missing (fragText data) ≠ 0 →
    max (fragText data).length 2 + missing (fragText data)
      + numeralSpan ((data.take 128).drop
          (max (fragText data).length 2 + missing (fragText data))) ≤ 127

/-- Every byte that is touched for a fragment is inside `buf` exactly when the
message fits. -/
theorem extract_numbers_in_bounds_iff (data : List UInt8) :
    (∀ i ∈ touched (apiBuf data), i ≤ 127) ↔ FitsBuffer data := by
  have hinside := touched_inside_iff (apiBuf data)
  have hscan := scanFields_spec (apiBuf data)
  rw [apiBuf_length] at hinside
  simp only [← Nat.lt_succ_iff, Nat.succ_eq_add_one, Nat.reduceAdd]
  rw [hinside]
  rcases Nat.lt_or_ge 127 (fragText data).length with hlong | hshort
  · -- no terminator in the buffer
    have hl : (scanFields (apiBuf data)).l = 128 := by
      rw [hscan.l, apiBuf_text, List.length_take]
      omega
    constructor
    · rintro ⟨h, -⟩
      omega
    · rintro ⟨hroom, -⟩
      omega
  · obtain ⟨htext, hnul⟩ := apiBuf_message hshort
    rw [htext] at hscan
    have hl := hscan.l
    generalize hf : scanFields (apiBuf data) = f at *
    rcases lastStart_eq hscan with ⟨hm, hlast⟩ | ⟨hm, hlast⟩
    · constructor
      · intro _
        exact ⟨by omega, fun _ hne => absurd hm hne⟩
      · intro _
        have hall := complete_inside hshort (hf ▸ hlast)
        rwa [apiBuf_length, hinside] at hall
    · have hthree := missing_le (fragText data)
      rw [hlast]
      rcases Nat.lt_or_ge data.length 128 with hdata | hdata
      · -- the buffer ends with a terminator
        constructor
        · rintro ⟨-, hend⟩
          exact ⟨by omega, fun hfull => absurd hdata (by omega)⟩
        · rintro ⟨hroom, -⟩
          have hfit : max (fragText data).length 2 + missing (fragText data) ≤ 127 := by omega
          have hle := numeralSpan_upto Stops.nul hfit (apiBuf_last hdata)
          omega
      · have hbuf : apiBuf data = data.take 128 := by
          rw [apiBuf, List.take_append_of_le_length hdata]
        rw [hbuf]
        constructor
        · rintro ⟨-, hend⟩
          exact ⟨by omega, fun _ _ => by omega⟩
        · rintro ⟨hroom, hends⟩
          have hend := hends hdata hm
          omega

/-- A position command without separators of 125 bytes is one byte too long. -/
theorem extract_numbers_overruns :
    (80 :: List.replicate 124 (32 : UInt8)).head? = some 80
      ∧ 128 ∈ touched (apiBuf (80 :: List.replicate 124 32))
      ∧ ∀ i ∈ touched (apiBuf (80 :: List.replicate 123 32)), i ≤ 127 := by
  decide +kernel

/-! ## Acceptance -/

/-- From index 2 on a separator, a later blank and a later separator, with at least
so many bytes behind it. -/
def HasSeparators (text : List UInt8) (after : Nat) : Prop :=
  ∃ p₁ p₂ p₃ s t, 2 ≤ p₁ ∧ p₁ < p₂ ∧ p₂ < p₃ ∧ p₃ + after < text.length
    ∧ text[p₁]? = some s ∧ isSeparator s = true ∧ text[p₂]? = some 32
    ∧ text[p₃]? = some t ∧ isSeparator t = true

/-- The scans find them when they are there. -/
theorem hasSeparators_iff {text : List UInt8} {f : Fields} (h : FieldScan text f) (after : Nat) :
    HasSeparators text after ↔ f.i₃ + after < text.length := by
  have h₂ := h.s₂.le
  have h₃ := h.s₃.le
  constructor
  · rintro ⟨p₁, p₂, p₃, s, t, hp₁, hp₂, hp₃, hlen, hs, hsep, hblank, ht, hsep'⟩
    have hi₁ := h.s₁.first p₁ s hp₁ hs hsep
    have hi₂ := h.s₂.first p₂ 32 (by omega) hblank rfl
    have hi₃ := h.s₃.first p₃ t (by omega) ht hsep'
    omega
  · intro hlen
    obtain ⟨s, hs, hsep⟩ := h.s₁.found (by omega)
    obtain ⟨b, hb, hblank⟩ := h.s₂.found (by omega)
    obtain ⟨t, ht, hsep'⟩ := h.s₃.found (by omega)
    have hb32 : b = 32 := of_decide_eq_true hblank
    rw [hb32] at hb
    exact ⟨f.i₁, f.i₂, f.i₃, s, t, h.s₁.le, by omega, by omega, hlen, hs, hsep, hb, ht, hsep'⟩

/-- What a position command owes: only a complete one is accepted, and any other is
answered by `RPRT 1` and changes nothing. -/
structure RefusesMalformed {φ : Type} (env : ApiEnv φ) (data : List UInt8) : Prop where
  accepted : ∀ az el, extractNumbers env (apiBuf data) = some (true, az, el) →
    HasSeparators (fragText data) 1
  refused : ¬ HasSeparators (fragText data) 1 →
    ∀ slow v, servePosition env slow v data = some (v, ascii "RPRT 1\n")

/-- What is returned, as long as the buffer is not left. -/
theorem extractNumbers_result {φ : Type} (env : ApiEnv φ) {data : List UInt8}
    (hlen : (fragText data).length ≤ 127) :
    extractNumbers env (apiBuf data) = none
      ∨ ∃ az el, extractNumbers env (apiBuf data)
          = some (decide ((scanFields (apiBuf data)).i₃ + 1 ≠ (fragText data).length), az, el) := by
  have hl := (scanFields_spec (apiBuf data)).l
  rw [(apiBuf_message hlen).1] at hl
  rw [extractNumbers]
  split
  · exact .inr ⟨_, _, by rw [hl]⟩
  · exact .inl rfl

/-- Malformed position commands are refused exactly when both separators and the
blank between them are there: only the byte behind the last one is checked. -/
theorem malformed_position_refused_iff {φ : Type} (env : ApiEnv φ) (data : List UInt8)
    (hlen : (fragText data).length ≤ 120) :
    RefusesMalformed env data ↔ HasSeparators (fragText data) 0 := by
  have hscan := scanFields_spec (apiBuf data)
  rw [(apiBuf_message (by omega)).1] at hscan
  have hcomplete := hasSeparators_iff hscan 1
  have hfound := hasSeparators_iff hscan 0
  have hresult := extractNumbers_result env (show (fragText data).length ≤ 127 by omega)
  rw [hfound]
  constructor
  · intro h
    by_contra hmissing
    have hnot : ¬ HasSeparators (fragText data) 1 := by
      rw [hcomplete]
      omega
    have hreply := h.refused hnot false {}
    rcases hresult with hnone | ⟨az, el, hsome⟩
    · rw [servePosition, hnone] at hreply
      cases hreply
    · rw [decide_eq_true (by omega)] at hsome
      exact hnot (h.accepted az el hsome)
  · intro hsep
    have hin := complete_inside (show (fragText data).length ≤ 127 by omega) (by omega)
    have hsome : ∃ az el, extractNumbers env (apiBuf data)
        = some (decide ((scanFields (apiBuf data)).i₃ + 1 ≠ (fragText data).length), az, el) := by
      refine hresult.resolve_left fun hnone => ?_
      rw [extractNumbers, if_pos hin] at hnone
      cases hnone
    obtain ⟨az, el, hsome⟩ := hsome
    constructor
    · intro az' el' haccept
      rw [hsome] at haccept
      have hok := congrArg (fun r => r.map Prod.fst) haccept
      simp only [Option.map_some, Option.some.injEq, decide_eq_true_eq] at hok
      rw [hcomplete]
      omega
    · intro hnot slow v
      rw [hcomplete] at hnot
      rw [decide_eq_false (by omega)] at hsome
      rw [servePosition, hsome]

/-- A message that ends with the last separator. -/
theorem malformed_position_refused_cut :
    RefusesMalformed exactApi (ascii "P 90.00 45.")
      ∧ servePosition exactApi false {} (ascii "P 90.00 45.") = some ({}, ascii "RPRT 1\n") :=
  ⟨(malformed_position_refused_iff exactApi (ascii "P 90.00 45.") (by decide)).mpr
    ⟨4, 7, 10, 46, 46, by decide, by decide, by decide, by decide, rfl, rfl, rfl, rfl, rfl⟩,
    by decide +kernel⟩

/-- A message with no numbers at all sends the antenna to 0/0. -/
theorem malformed_position_accepted :
    ¬ HasSeparators (fragText (ascii "PARK\n")) 1
      ∧ servePosition exactApi false { ctrl := { azTgtPos := 5, elTgtPos := 7 } }
          (ascii "PARK\n")
        = some ({ ctrl := { azState := .targetPosition, elState := .targetPosition } },
            ascii "RPRT 0\n") := by
  constructor
  · rintro ⟨p₁, p₂, p₃, s, t, hp₁, hp₂, hp₃, hlen, -⟩
    have hfive : (fragText (ascii "PARK\n")).length = 5 := by decide
    omega
  · decide +kernel

end Seatel
