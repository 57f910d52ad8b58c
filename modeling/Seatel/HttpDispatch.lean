import Mathlib.Data.List.Perm.Basic
import Seatel.Debug
import Seatel.Http

/-!
# Dispatch of HTTP requests

The chain of `server_serve` once more, with the lengths and offsets that
are written by hand next to its literals. They are the lengths of the
literals, so the chain is the one of `Http` (`httpDispatch_eq`).

No literal is the start of another one. Two of them cannot both match a
request, so the chain could be in any order (`httpDispatch_perm`). What a
request may change is said once per route (`routeParts`), by what is left
when the part that the route names is erased from the state.
-/

namespace Seatel

open CString Numerals

/-! ## The first match -/

section FirstMatch

variable {α : Type} {p : α → Bool}

/-- At most one element matches when any two exclude each other. -/
theorem length_filter_le_one {R : α → α → Prop} {l : List α} (hl : l.Pairwise R)
    (hR : ∀ x y, R x y → p x = true → p y = false) : (l.filter p).length ≤ 1 := by
  have hpair := hl.filter p
  have hmem : ∀ x ∈ l.filter p, p x = true := fun x hx => (List.mem_filter.mp hx).2
  rcases hfilter : l.filter p with _ | ⟨x, _ | ⟨y, rest⟩⟩
  · exact Nat.zero_le 1
  · exact Nat.le_refl 1
  · rw [hfilter] at hpair hmem
    have hxy := List.rel_of_pairwise_cons hpair List.mem_cons_self
    have hy := hR x y hxy (hmem x List.mem_cons_self)
    rw [hmem y (List.mem_cons_of_mem _ List.mem_cons_self)] at hy
    cases hy

/-- The first match does not depend on the order when there is only one. -/
theorem find?_perm {l l' : List α} (hperm : l'.Perm l) (hone : (l.filter p).length ≤ 1) :
    l'.find? p = l.find? p := by
  have hfilter := hperm.filter p
  have heq : l'.filter p = l.filter p := by
    rcases hcase : l.filter p with _ | ⟨x, _ | ⟨y, rest⟩⟩
    · rw [hcase] at hfilter
      exact hfilter.eq_nil
    · rw [hcase] at hfilter
      exact List.perm_singleton.mp hfilter
    · rw [hcase] at hone
      exact absurd hone (by simp)
  rw [← List.head?_filter, ← List.head?_filter, heq]

/-- The only match is found. -/
theorem find?_of_mem {l : List α} {x : α} (hone : (l.filter p).length ≤ 1) (hx : x ∈ l)
    (hp : p x = true) : l.find? p = some x := by
  have hmem : x ∈ l.filter p := List.mem_filter.mpr ⟨hx, hp⟩
  rw [← List.head?_filter]
  rcases hcase : l.filter p with _ | ⟨y, _ | ⟨z, rest⟩⟩
  · rw [hcase] at hmem
    cases hmem
  · rw [hcase, List.mem_singleton] at hmem
    rw [hmem]
    rfl
  · rw [hcase] at hone
    exact absurd hone (by simp)

theorem exists_related {β : Type} {R : α → β → Prop} {l : List α} {l' : List β}
    (h : List.Forall₂ R l l') {x : α} (hx : x ∈ l) : ∃ y ∈ l', R x y := by
  induction h with
  | nil => cases hx
  | @cons x' y _ _ hxy _ ih =>
      rcases List.mem_cons.mp hx with rfl | hx
      · exact ⟨y, List.mem_cons_self, hxy⟩
      · obtain ⟨y', hy', hrel⟩ := ih hx
        exact ⟨y', List.mem_cons_of_mem _ hy', hrel⟩

end FirstMatch

/-! ## The chain as it is written -/

/-- One `if(strncmp((char*)data, literal, n) == 0)` with its branch. -/
structure HttpTest where
  literal : List UInt8
  n : Nat
  action : List UInt8 → HttpAction

def HttpTest.holds (data : List UInt8) (t : HttpTest) : Bool := strncmpZero data t.literal t.n

/-- The tests in their order; a branch finds its argument at `&data[..]`. -/
def serverTests (libc : Libc) : List HttpTest := [
  ⟨ascii "GET /state.json", 15, fun _ => .stateJson⟩,
  ⟨ascii "GET /favicon.ico", 16, fun _ => .favicon⟩,
  ⟨ascii "GET /jquery.js", 14, fun _ => .jquery⟩,
  ⟨ascii "GET / ", 6, fun _ => .page⟩,
  ⟨ascii "GET /set/trq/az/", 16, fun data => .command (.azSetConstTrq (argI8 libc (data.drop 16)))⟩,
  ⟨ascii "GET /set/trq/el/", 16, fun data => .command (.elSetConstTrq (argI8 libc (data.drop 16)))⟩,
  ⟨ascii "GET /set/trq/sk/", 16, fun data => .command (.skSetConstTrq (argI8 libc (data.drop 16)))⟩,
  ⟨ascii "GET /set/tar/az/", 16, fun data => .command (.azSetTgtPos (argU16 libc (data.drop 16)))⟩,
  ⟨ascii "GET /set/tar/el/", 16, fun data => .command (.elSetTgtPos (argI16 libc (data.drop 16)))⟩,
  ⟨ascii "GET /set/tar/sk/", 16, fun data => .command (.skSetTgtPos (argI16 libc (data.drop 16)))⟩,
  ⟨ascii "GET /set/off/az/", 16, fun data =>
    .command (.mdeSetAzEncOff (argU16 libc (data.drop 16)))⟩,
  ⟨ascii "GET /set/off/el/", 16, fun data => .command (.imuSetElOff (argI16 libc (data.drop 16)))⟩,
  ⟨ascii "GET /sw/lna/", 12, fun data => .palWriteLine .lna (switchOf libc (data.drop 12))⟩,
  ⟨ascii "GET /sw/mde/", 12, fun data =>
    .command (if switchOf libc (data.drop 12) then .mdePowerUp else .mdePowerDown)⟩,
  ⟨ascii "GET /sw/ext5/", 13, fun data => .palWriteLine .ext5V (switchOf libc (data.drop 13))⟩,
  ⟨ascii "GET /sw/ext24/", 14, fun data => .palWriteLine .ext24V (switchOf libc (data.drop 14))⟩,
  ⟨ascii "GET /calibrate", 14, fun _ => .command .azCalibrate⟩,
  ⟨ascii "GET /debug", 10, fun _ => .debug⟩]

/-- An `else if` chain over the tests. -/
def httpDispatch (tests : List HttpTest) (data : List UInt8) : HttpAction :=
  match tests.find? (HttpTest.holds data) with
  | some t => t.action data
  | none => .notFound

/-- A test is the route of `Http`. -/
structure HttpTest.IsRoute (t : HttpTest) (r : List UInt8 × (List UInt8 → HttpAction)) : Prop where
  literal : t.literal = r.1
  n : t.n = r.1.length
  noNul : 0 ∉ r.1
  action : ∀ data, t.action data = r.2 (data.drop r.1.length)

theorem serverTests_isRoute (libc : Libc) :
    List.Forall₂ HttpTest.IsRoute (serverTests libc) (httpRoutes libc) := by
  unfold serverTests httpRoutes
  repeat' first
    | exact .nil
    | refine .cons ⟨rfl, rfl, by dsimp only; decide, fun _ => rfl⟩ ?_

theorem HttpTest.IsRoute.holds_eq {t : HttpTest} {r : List UInt8 × (List UInt8 → HttpAction)}
    (h : t.IsRoute r) (data : List UInt8) : t.holds data = strncmpEq data r.1 := by
  rw [HttpTest.holds, h.literal, h.n, strncmpZero_literal h.noNul]

/-- The chain with its lengths and offsets is the chain without them. -/
theorem httpDispatch_eq (libc : Libc) (data : List UInt8) :
    httpDispatch (serverTests libc) data = httpServe libc data := by
  have hroutes := serverTests_isRoute libc
  unfold httpDispatch httpServe
  generalize serverTests libc = ts, httpRoutes libc = rs at hroutes
  induction hroutes with
  | nil => rfl
  | @cons t r _ _ h _ ih =>
      rw [List.find?_cons, List.find?_cons, h.holds_eq data]
      cases strncmpEq data r.1 with
      | true => exact h.action data
      | false => exact ih

/-! ## One match at most -/

theorem httpRoutes_incomparable (libc : Libc) :
    (httpRoutes libc).Pairwise fun r r' => Incomparable r.1 r'.1 := by
  have hlits : ((httpRoutes libc).map Prod.fst).Pairwise Incomparable := by
    have hconst : (httpRoutes libc).map Prod.fst = (httpRoutes Libc.saturating).map Prod.fst := by
      simp only [httpRoutes, List.map_cons, List.map_nil]
    rw [hconst]
    decide +kernel
  exact List.pairwise_map.mp hlits

theorem serverTests_one (libc : Libc) (data : List UInt8) :
    ((serverTests libc).filter (HttpTest.holds data)).length ≤ 1 := by
  have hroutes : ((httpRoutes libc).filter fun r => strncmpEq data r.1).length ≤ 1 :=
    length_filter_le_one (httpRoutes_incomparable libc) fun r r' h => h.excludes
  refine le_trans (Nat.le_of_eq ?_) hroutes
  have hrel := serverTests_isRoute libc
  generalize serverTests libc = ts, httpRoutes libc = rs at hrel
  induction hrel with
  | nil => rfl
  | @cons t r _ _ h _ ih =>
      rw [List.filter_cons, List.filter_cons, h.holds_eq data]
      split
      · rw [List.length_cons, List.length_cons, ih]
      · exact ih

/-- The chain does the same in any order. -/
theorem httpDispatch_perm (libc : Libc) (data : List UInt8) {tests : List HttpTest}
    (hperm : tests.Perm (serverTests libc)) :
    httpDispatch tests data = httpDispatch (serverTests libc) data := by
  rw [httpDispatch, httpDispatch, find?_perm hperm (serverTests_one libc data)]

/-! ## What a request changes -/

/-- The state the server can reach: the shared variables, the debug bucket and the
power outputs. -/
structure HttpState where
  vars : Vars
  bucket : Mem
  lines : PwrLine → Bool

/-- The branches on the state; `debug_emty_bucket` copies the bucket and writes its
first byte. -/
def HttpAction.apply (s : HttpState) : HttpAction → HttpState
  | .command r => { s with vars := serve s.vars r }
  | .palWriteLine line sw => { s with lines := Function.update s.lines line sw }
  | .debug => { s with bucket := Function.update s.bucket 0 0 }
  | _ => s

theorem HttpAction.apply_vars (a : HttpAction) (s : HttpState) :
    (a.apply s).vars = a.effect s.vars := by
  cases a <;> rfl

def httpRequest (libc : Libc) (data : List UInt8) (s : HttpState) : HttpState :=
  (httpDispatch (serverTests libc) data).apply s

/-- What a route can name. -/
inductive Part where
  | nothing
  | az
  | azOff
  | el
  | elOff
  | sk
  | mdePower
  | azCalibrate
  | debug
  | line (l : PwrLine)
deriving Repr, DecidableEq

/-- The part that each path names. -/
def routeParts : List (List UInt8 × Part) := [
  (ascii "GET /state.json", .nothing),
  (ascii "GET /favicon.ico", .nothing),
  (ascii "GET /jquery.js", .nothing),
  (ascii "GET / ", .nothing),
  (ascii "GET /set/trq/az/", .az),
  (ascii "GET /set/trq/el/", .el),
  (ascii "GET /set/trq/sk/", .sk),
  (ascii "GET /set/tar/az/", .az),
  (ascii "GET /set/tar/el/", .el),
  (ascii "GET /set/tar/sk/", .sk),
  (ascii "GET /set/off/az/", .azOff),
  (ascii "GET /set/off/el/", .elOff),
  (ascii "GET /sw/lna/", .line .lna),
  (ascii "GET /sw/mde/", .mdePower),
  (ascii "GET /sw/ext5/", .line .ext5V),
  (ascii "GET /sw/ext24/", .line .ext24V),
  (ascii "GET /calibrate", .azCalibrate),
  (ascii "GET /debug", .debug)]

/-- The state with the part overwritten, so that what is left is all the rest. -/
def Part.erase (s : HttpState) : Part → HttpState
  | .nothing => s
  | .az =>
      { s with
        vars := { s.vars with
          ctrl := { s.vars.ctrl with
            azFlagCalibrate := false, azState := .constTorque, azTgtSpd := 0, azTgtPos := 0,
            azTgtPosSpd := 0, azTgtPosTim := 0 }
          mde := { s.vars.mde with motorAz := 0 } } }
  | .azOff => { s with vars := { s.vars with mde := { s.vars.mde with encAzOff := 0 } } }
  | .el =>
      { s with
        vars := { s.vars with
          ctrl := { s.vars.ctrl with
            elState := .constTorque, elTgtSpd := 0, elTgtPos := 0, elTgtPosSpd := 0,
            elTgtPosTim := 0 }
          mde := { s.vars.mde with motorEl := 0 } } }
  | .elOff => { s with vars := { s.vars with imu := { s.vars.imu with elOff := 0 } } }
  | .sk =>
      { s with
        vars := { s.vars with
          ctrl := { s.vars.ctrl with skState := .constTorque, skTgtPos := 0 }
          mde := { s.vars.mde with motorSk := 0 } } }
  | .mdePower =>
      { s with
        vars := { s.vars with mde := { s.vars.mde with powerUp := false, powerDn := false } } }
  | .azCalibrate =>
      { s with vars := { s.vars with ctrl := { s.vars.ctrl with azFlagCalibrate := false } } }
  | .debug => { s with bucket := fun _ => 0 }
  | .line l => { s with lines := Function.update s.lines l false }

/-- The test is for the path, and its branch changes no more than the part. -/
structure HttpTest.Names (t : HttpTest) (r : List UInt8 × Part) : Prop where
  literal : t.literal = r.1
  frame : ∀ data s, r.2.erase ((t.action data).apply s) = r.2.erase s

theorem erase_line (l : PwrLine) (sw : Bool) (s : HttpState) :
    (Part.line l).erase { s with lines := Function.update s.lines l sw }
      = (Part.line l).erase s := by
  simp only [Part.erase, Function.update_idem]

theorem serverTests_names (libc : Libc) :
    List.Forall₂ HttpTest.Names (serverTests libc) routeParts := by
  unfold serverTests routeParts
  repeat' first
    | exact .nil
    | refine .cons ⟨rfl, fun _ _ => rfl⟩ ?_
    | refine .cons ⟨rfl, fun _ s => erase_line _ _ s⟩ ?_
    | refine .cons ⟨rfl, fun data s => by dsimp only; split <;> rfl⟩ ?_

theorem HttpTest.Names.holds_iff {libc : Libc} {t : HttpTest} {r : List UInt8 × Part}
    (h : t.Names r) (ht : t ∈ serverTests libc) (data : List UInt8) :
    t.holds data = true ↔ r.1 <+: data := by
  obtain ⟨route, -, hroute⟩ := exists_related (serverTests_isRoute libc) ht
  rw [hroute.holds_eq, ← hroute.literal, h.literal, strncmpEq_iff]

/-- The branch of a path that matches is taken. -/
theorem httpDispatch_names (libc : Libc) {data : List UInt8} {r : List UInt8 × Part}
    (hr : r ∈ routeParts) (hmatch : r.1 <+: data) :
    ∃ t : HttpTest, t.Names r ∧ httpDispatch (serverTests libc) data = t.action data := by
  obtain ⟨t, ht, hnames⟩ := exists_related (serverTests_names libc).flip hr
  have hholds := (hnames.holds_iff ht data).mpr hmatch
  refine ⟨t, hnames, ?_⟩
  rw [httpDispatch, find?_of_mem (serverTests_one libc data) ht hholds]

/-- What is owed to a request of any bytes: one test at most matches it and the order
of the tests does not matter; when none matches nothing changes, and when a path
matches nothing but the part it names. -/
structure WellDispatched (libc : Libc) (data : List UInt8) : Prop where
  one : ((serverTests libc).filter (HttpTest.holds data)).length ≤ 1
  order : ∀ tests : List HttpTest, tests.Perm (serverTests libc) →
    httpDispatch tests data = httpDispatch (serverTests libc) data
  unmatched : (∀ r ∈ routeParts, ¬ r.1 <+: data) → ∀ s, httpRequest libc data s = s
  framed : ∀ r ∈ routeParts, r.1 <+: data → ∀ s,
    r.2.erase (httpRequest libc data s) = r.2.erase s

/-- Dispatch is unambiguous and framed. -/
theorem http_dispatch_framed (libc : Libc) (data : List UInt8) : WellDispatched libc data where
  one := serverTests_one libc data
  order _ hperm := httpDispatch_perm libc data hperm
  unmatched hnone s := by
    have hfind : (serverTests libc).find? (HttpTest.holds data) = none := by
      rw [List.find?_eq_none]
      intro t ht hholds
      obtain ⟨r, hr, hnames⟩ := exists_related (serverTests_names libc) ht
      exact hnone r hr ((hnames.holds_iff ht data).mp hholds)
    rw [httpRequest, httpDispatch, hfind]
    rfl
  framed r hr hmatch s := by
    obtain ⟨t, hnames, haction⟩ := httpDispatch_names libc hr hmatch
    rw [httpRequest, haction, hnames.frame]

/-- A path with an argument changes its axis: the frame is not empty. -/
example :
    (httpRequest Libc.saturating (ascii "GET /set/tar/az/100 HTTP/1.1")
      ⟨{}, fun _ => 0, fun _ => false⟩).vars.ctrl.azTgtPos = 100 := by
  decide +kernel

end Seatel
