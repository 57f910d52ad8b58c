import Seatel.Dashboard
import Seatel.Http
import Seatel.Runs

/-!
# The script of the page

The page polls `/state.json` and `/debug` from two timers and keeps the
targets and offsets of the last answer.

`mutex_req` is cleared in `complete`, behind every request; `mutex_deb` is
cleared in `success` only, so that a single `/debug` request that fails or
times out leaves it set for good. Both are set before `$.ajax` is called,
which throws as long as jQuery is not there: a timer that is too early stops
its polling in the same way (`page_polling`).
-/

namespace Seatel

open CString Json Numerals Runs

variable {φ : Type}

/-! ## What the script computes -/

/-- The values that have step buttons on the page. -/
inductive Control where
  | azTgt
  | elTgt
  | azOff
  | elOff
deriving Repr, DecidableEq

/-- The route the buttons use. -/
def Control.route : Control → NumRoute
  | .azTgt => .tarAz
  | .elTgt => .tarEl
  | .azOff => .offAz
  | .elOff => .offEl

/-- `data[i]`. -/
def jsIndex (i : Nat) : Value → Option Value
  | .arr elements => elements[i]?
  | _ => none

/-- The expression that `success` assigns to `az_tgt`, `el_tgt`, `az_off` and `el_off`. -/
def Control.member (data : Value) : Control → Option ℚ
  | .azTgt => jsMember (ascii "ctrl") data >>= jsMember (ascii "tgt") >>= jsIndex 0 >>= jsNumber
  | .elTgt => jsMember (ascii "ctrl") data >>= jsMember (ascii "tgt") >>= jsIndex 1 >>= jsNumber
  | .azOff => jsMember (ascii "mde") data >>= jsMember (ascii "enc") >>= jsMember (ascii "off")
      >>= jsNumber
  | .elOff => jsMember (ascii "imu") data >>= jsMember (ascii "el") >>= jsMember (ascii "off")
      >>= jsNumber

/-! ## Polling -/

/-- The mutex of a poll and its requests that have not ended; for the statements below,
whether its timer came before jQuery and whether a request has failed. -/
structure Poll where
  mutex : Bool
  pending : Nat
  early : Bool
  failed : Bool
deriving Repr, DecidableEq

namespace Poll

/-- No request yet; the mutex is `undefined`. -/
def boot : Poll := ⟨false, 0, false, false⟩

/-- `req` and `deb`: `$.ajax` throws without jQuery, behind the mutex. -/
def timer (jquery : Bool) (p : Poll) : Poll × Bool :=
  if p.mutex then (p, false)
  else if jquery then ({ p with mutex := true, pending := p.pending + 1 }, true)
  else ({ p with mutex := true, early := true }, false)

/-- A request ends. `always` is whether the mutex is cleared in `complete` and not only in
`success`. -/
def finish (always ok : Bool) (p : Poll) : Poll :=
  if p.pending = 0 then p
  else
    { p with
      mutex := if ok ∨ always then false else p.mutex
      pending := p.pending - 1
      failed := p.failed || !ok }

variable {always : Bool} {p : Poll}

/-- The mutex is never cleared again. -/
def Stopped (always : Bool) (p : Poll) : Prop := p.early = true ∨ always = false ∧ p.failed = true

/-- What the mutex stands for. -/
structure Sane (always : Bool) (p : Poll) : Prop where
  le : p.pending ≤ 1
  mutex : p.mutex = true ↔ p.pending = 1 ∨ p.Stopped always
  idle : p.Stopped always → p.pending = 0

theorem Sane.boot : Sane always Poll.boot := by
  constructor <;> simp [Poll.boot, Stopped]

theorem Sane.timer (h : Sane always p) (jquery : Bool) : Sane always (p.timer jquery).1 := by
  obtain ⟨hle, hmutex, hidle⟩ := h
  rw [Poll.timer]
  split
  · exact ⟨hle, hmutex, hidle⟩
  · next hfree =>
      rw [hmutex, not_or] at hfree
      obtain ⟨hnone, hgoing⟩ := hfree
      split
      · refine ⟨?_, ?_, fun h => absurd h hgoing⟩
        · change p.pending + 1 ≤ 1
          omega
        · exact ⟨fun _ => .inl (by change p.pending + 1 = 1; omega), fun _ => rfl⟩
      · refine ⟨hle, ⟨fun _ => .inr (.inl rfl), fun _ => rfl⟩, fun _ => ?_⟩
        change p.pending = 0
        omega

theorem Sane.finish (h : Sane always p) (ok : Bool) : Sane always (p.finish always ok) := by
  obtain ⟨hle, hmutex, hidle⟩ := h
  rw [Poll.finish]
  split
  · exact ⟨hle, hmutex, hidle⟩
  · next hsome =>
      have hgoing : ¬ p.Stopped always := fun h => hsome (hidle h)
      have hheld : p.mutex = true := hmutex.mpr (.inl (by omega))
      rw [Stopped, not_or, not_and] at hgoing
      obtain ⟨hearly, hfailed⟩ := hgoing
      have hpending : p.pending - 1 = 0 := by omega
      refine ⟨?_, ?_, fun _ => hpending⟩
      · change p.pending - 1 ≤ 1
        omega
      · -- it stays set exactly behind a failure that `complete` does not see
        change (if ok ∨ always then false else p.mutex) = true
          ↔ p.pending - 1 = 1 ∨ p.early = true ∨ always = false ∧ (p.failed || !ok) = true
        rw [hpending, hheld]
        cases ok <;> cases always <;> simp_all

/-- The timer makes a request when none is pending, jQuery is there and the poll has not
stopped. -/
theorem timer_iff (h : Sane always p) (jquery : Bool) :
    (p.timer jquery).2 = true ↔ jquery = true ∧ p.pending = 0 ∧ ¬ p.Stopped always := by
  have hle := h.le
  have hmutex := h.mutex
  rw [Poll.timer]
  split
  · next hheld =>
      refine ⟨fun h => (nomatch h), ?_⟩
      rintro ⟨-, hnone, hgoing⟩
      rcases hmutex.mp hheld with hone | hstopped
      · omega
      · exact absurd hstopped hgoing
  · next hfree =>
      rw [hmutex, not_or] at hfree
      cases jquery with
      | true => exact ⟨fun _ => ⟨rfl, by omega, hfree.2⟩, fun _ => rfl⟩
      | false => exact ⟨fun h => (nomatch h), fun h => (nomatch h.1)⟩

theorem timer_early (jquery : Bool) :
    (p.timer jquery).1.early = true
      ↔ p.early = true ∨ p.mutex = false ∧ jquery = false := by
  rw [Poll.timer]
  cases hmutex : p.mutex <;> cases jquery <;> simp

theorem timer_failed (jquery : Bool) : (p.timer jquery).1.failed = p.failed := by
  rw [Poll.timer]
  cases p.mutex <;> cases jquery <;> rfl

theorem timer_unloaded : (p.timer false).1.pending = p.pending := by
  rw [Poll.timer]
  cases p.mutex <;> rfl

theorem finish_early (ok : Bool) : (p.finish always ok).early = p.early := by
  rw [Poll.finish]
  split <;> rfl

theorem finish_failed (ok : Bool) :
    (p.finish always ok).failed = true ↔ p.failed = true ∨ ok = false ∧ p.pending ≠ 0 := by
  rw [Poll.finish]
  split
  · next h => simp [h]
  · next h => cases ok <;> simp [h]

theorem finish_idle (ok : Bool) (h : p.pending = 0) : p.finish always ok = p := by
  rw [Poll.finish, if_pos h]

end Poll

/-! ## The page -/

/-- The script's variables and its two polls; `seen` is the last report received. -/
structure Page (φ : Type) where
  copies : Control → Option ℚ
  jquery : Bool
  req : Poll
  deb : Poll
  seen : Option (Report φ)

/-- `var az_tgt,el_tgt,sk_tgt,az_off,el_off = 0` gives a value to the last only. -/
def Page.boot : Page φ where
  copies := fun c => if c = .elOff then some 0 else none
  jquery := false
  req := Poll.boot
  deb := Poll.boot
  seen := none

inductive PageAct (φ : Type) where
  /-- `jquery.js` has been loaded -/
  | loaded
  | reqTimer
  | debTimer
  /-- a `/state.json` request ends, with what the board reported or in an error -/
  | reqEnd (answer : Option (Report φ))
  /-- a `/debug` request ends -/
  | debEnd (ok : Bool)

inductive PageEvent where
  | getState
  | getDebug
deriving Repr, DecidableEq

section Script

variable (conv : FloatConv φ) (mem : Mem)

/-- `success` of the state request, on the text of the answer. -/
def reqSuccess (r : Report φ) (s : Page φ) : Page φ :=
  match parse (jsonBody conv mem r) with
  | none => s
  | some data => { s with copies := fun c => c.member data, seen := some r }

/-- What the answer to a pending request does. -/
def reqAnswer (answer : Option (Report φ)) (s : Page φ) : Page φ :=
  match answer with
  | none => s
  | some r => if s.req.pending = 0 then s else reqSuccess conv mem r s

def pageNext (s : Page φ) : PageAct φ → Page φ
  | .loaded => { s with jquery := true }
  | .reqTimer => { s with req := (s.req.timer s.jquery).1 }
  | .debTimer => { s with deb := (s.deb.timer s.jquery).1 }
  | .reqEnd answer =>
      { reqAnswer conv mem answer s with req := s.req.finish true answer.isSome }
  | .debEnd ok => { s with deb := s.deb.finish false ok }

def pageObs (s : Page φ) : PageAct φ → List PageEvent
  | .reqTimer => if (s.req.timer s.jquery).2 then [.getState] else []
  | .debTimer => if (s.deb.timer s.jquery).2 then [.getDebug] else []
  | _ => []

/-- The page after a run of its callbacks. -/
def pageAfter (as : List (PageAct φ)) : Page φ := run (pageNext conv mem) Page.boot as

/-! ### Both polls -/

structure Page.Sane (s : Page φ) : Prop where
  req : s.req.Sane true
  deb : s.deb.Sane false

/-- An answer changes nothing but the copies. -/
theorem reqAnswer_frame (answer : Option (Report φ)) (s : Page φ) :
    (reqAnswer conv mem answer s).deb = s.deb
      ∧ (reqAnswer conv mem answer s).jquery = s.jquery := by
  cases answer with
  | none => exact ⟨rfl, rfl⟩
  | some r =>
      rw [reqAnswer]
      split
      · exact ⟨rfl, rfl⟩
      · unfold reqSuccess
        cases parse (jsonBody conv mem r) <;> exact ⟨rfl, rfl⟩

theorem pageNext_sane {s : Page φ} (h : s.Sane) (a : PageAct φ) : (pageNext conv mem s a).Sane := by
  cases a with
  | loaded => exact ⟨h.req, h.deb⟩
  | reqTimer => exact ⟨h.req.timer _, h.deb⟩
  | debTimer => exact ⟨h.req, h.deb.timer _⟩
  | reqEnd answer =>
      refine ⟨h.req.finish _, ?_⟩
      change (reqAnswer conv mem answer s).deb.Sane false
      rw [(reqAnswer_frame conv mem answer s).1]
      exact h.deb
  | debEnd ok => exact ⟨h.req, h.deb.finish _⟩

theorem pageAfter_sane (as : List (PageAct φ)) : (pageAfter conv mem as).Sane :=
  run_invariant_always (I := Page.Sane) (fun _ a h => pageNext_sane conv mem h a)
    ⟨Poll.Sane.boot, Poll.Sane.boot⟩ as

/-- Which callbacks make a request. -/
theorem getState_iff {s : Page φ} (h : s.Sane) (a : PageAct φ) :
    .getState ∈ pageObs s a
      ↔ a = .reqTimer ∧ s.jquery = true ∧ s.req.pending = 0 ∧ ¬ s.req.Stopped true := by
  rw [← Poll.timer_iff h.req]
  cases a <;> simp [pageObs]

theorem getDebug_iff {s : Page φ} (h : s.Sane) (a : PageAct φ) :
    .getDebug ∈ pageObs s a
      ↔ a = .debTimer ∧ s.jquery = true ∧ s.deb.pending = 0 ∧ ¬ s.deb.Stopped false := by
  rw [← Poll.timer_iff h.deb]
  cases a <;> simp [pageObs]

/-! ### What has happened to them -/

/-- A timer came before jQuery. -/
def TooEarly (timer : PageAct φ) (as : List (PageAct φ)) : Prop :=
  ∃ pre post, as = pre ++ timer :: post ∧ .loaded ∉ pre

/-- A `/debug` request has failed. -/
def DebugFailed (as : List (PageAct φ)) : Prop :=
  ∃ pre post, as = pre ++ .debEnd false :: post ∧ (pageAfter conv mem pre).deb.pending ≠ 0

theorem split_concat {P : List (PageAct φ) → Prop} {b : PageAct φ} (as : List (PageAct φ))
    (a : PageAct φ) :
    (∃ pre post, as ++ [a] = pre ++ b :: post ∧ P pre)
      ↔ (∃ pre post, as = pre ++ b :: post ∧ P pre) ∨ a = b ∧ P as := by
  constructor
  · rintro ⟨pre, post, heq, hP⟩
    rcases List.eq_nil_or_concat post with rfl | ⟨post, c, rfl⟩
    · obtain ⟨rfl, hab⟩ := List.append_inj' heq rfl
      exact .inr ⟨(List.cons.inj hab).1, hP⟩
    · rw [List.concat_eq_append, ← List.cons_append, ← List.append_assoc] at heq
      obtain ⟨rfl, -⟩ := List.append_inj' heq rfl
      exact .inl ⟨pre, post, rfl, hP⟩
  · rintro (⟨pre, post, rfl, hP⟩ | ⟨rfl, hP⟩)
    · exact ⟨pre, post ++ [a], by simp, hP⟩
    · exact ⟨as, [], rfl, hP⟩

/-- The page knows what has happened. -/
structure Recorded (s : Page φ) (as : List (PageAct φ)) : Prop where
  jquery : s.jquery = true ↔ .loaded ∈ as
  reqEarly : s.req.early = true ↔ TooEarly .reqTimer as
  debEarly : s.deb.early = true ↔ TooEarly .debTimer as
  debFailed : s.deb.failed = true ↔ DebugFailed conv mem as
  unloaded : s.jquery = false → s.req.pending = 0 ∧ s.deb.pending = 0 ∧ s.deb.failed = false

theorem Recorded.boot : Recorded conv mem (Page.boot : Page φ) [] := by
  constructor <;> simp [Page.boot, Poll.boot, TooEarly, DebugFailed]

/-- A timer before jQuery finds the mutex free the first time. -/
theorem early_timer {p : Poll} {always : Bool} (h : p.Sane always) (hidle : p.pending = 0)
    (hok : always = false → p.failed = false) : p.early = true ∨ p.mutex = false := by
  cases hmutex : p.mutex with
  | false => exact .inr rfl
  | true =>
      rcases h.mutex.mp hmutex with hone | hearly | ⟨halways, hfailed⟩
      · omega
      · exact .inl hearly
      · rw [hok halways] at hfailed
        cases hfailed

/-! What a step does to each of the records. -/

theorem pageNext_jquery (s : Page φ) (a : PageAct φ) :
    (pageNext conv mem s a).jquery = true ↔ s.jquery = true ∨ a = .loaded := by
  cases a with
  | loaded => simp [pageNext]
  | reqEnd answer =>
      change (reqAnswer conv mem answer s).jquery = true ↔ _
      rw [(reqAnswer_frame conv mem answer s).2]
      simp
  | _ => simp [pageNext]

theorem pageNext_reqEarly (s : Page φ) (a : PageAct φ) :
    (pageNext conv mem s a).req.early = true
      ↔ s.req.early = true ∨ a = .reqTimer ∧ s.req.mutex = false ∧ s.jquery = false := by
  cases a with
  | reqTimer => simpa [pageNext] using Poll.timer_early s.jquery
  | reqEnd answer => simp [pageNext, Poll.finish_early]
  | _ => simp [pageNext]

theorem pageNext_debEarly (s : Page φ) (a : PageAct φ) :
    (pageNext conv mem s a).deb.early = true
      ↔ s.deb.early = true ∨ a = .debTimer ∧ s.deb.mutex = false ∧ s.jquery = false := by
  cases a with
  | debTimer => simpa [pageNext] using Poll.timer_early s.jquery
  | reqEnd answer => simp [pageNext, (reqAnswer_frame conv mem answer s).1]
  | debEnd ok => simp [pageNext, Poll.finish_early]
  | _ => simp [pageNext]

theorem pageNext_debFailed (s : Page φ) (a : PageAct φ) :
    (pageNext conv mem s a).deb.failed = true
      ↔ s.deb.failed = true ∨ a = .debEnd false ∧ s.deb.pending ≠ 0 := by
  cases a with
  | debTimer => simp [pageNext, Poll.timer_failed]
  | reqEnd answer => simp [pageNext, (reqAnswer_frame conv mem answer s).1]
  | debEnd ok => simpa [pageNext] using Poll.finish_failed ok
  | _ => simp [pageNext]

/-- Without jQuery there are no requests, and none can fail. -/
theorem pageNext_unloaded {s : Page φ}
    (h : s.jquery = false → s.req.pending = 0 ∧ s.deb.pending = 0 ∧ s.deb.failed = false)
    (a : PageAct φ) (hnext : (pageNext conv mem s a).jquery = false) :
    (pageNext conv mem s a).req.pending = 0 ∧ (pageNext conv mem s a).deb.pending = 0
      ∧ (pageNext conv mem s a).deb.failed = false := by
  have hnot : ¬ (s.jquery = true ∨ a = .loaded) := by
    rw [← pageNext_jquery conv mem s a, hnext]
    exact Bool.false_ne_true
  rw [not_or, Bool.not_eq_true] at hnot
  obtain ⟨hreq, hdeb, hfailed⟩ := h hnot.1
  cases a with
  | loaded => exact absurd rfl hnot.2
  | reqTimer =>
      simp only [pageNext, hnot.1, Poll.timer_unloaded]
      exact ⟨hreq, hdeb, hfailed⟩
  | debTimer =>
      simp only [pageNext, hnot.1, Poll.timer_unloaded, Poll.timer_failed]
      exact ⟨hreq, hdeb, hfailed⟩
  | reqEnd answer =>
      simp only [pageNext, Poll.finish_idle _ hreq, (reqAnswer_frame conv mem answer s).1]
      exact ⟨hreq, hdeb, hfailed⟩
  | debEnd ok =>
      simp only [pageNext, Poll.finish_idle _ hdeb]
      exact ⟨hreq, hdeb, hfailed⟩

/-- A timer is recorded as too early exactly when it is: a mutex that it finds set is that of
an earlier one. -/
theorem tooEarly_concat {p : Poll} {always jquery : Bool} (h : p.Sane always)
    {timer a : PageAct φ} {as : List (PageAct φ)} (hjquery : jquery = true ↔ .loaded ∈ as)
    (hearly : p.early = true ↔ TooEarly timer as)
    (hidle : jquery = false → p.pending = 0 ∧ (always = false → p.failed = false)) :
    p.early = true ∨ a = timer ∧ p.mutex = false ∧ jquery = false
      ↔ TooEarly timer (as ++ [a]) := by
  rw [TooEarly, split_concat, hearly]
  refine or_congr_right' fun hnot => and_congr_right fun _ => ?_
  rw [← hjquery, Bool.not_eq_true]
  refine ⟨And.right, fun hunloaded => ⟨?_, hunloaded⟩⟩
  obtain ⟨hpending, hok⟩ := hidle hunloaded
  exact (early_timer h hpending hok).resolve_left fun he => hnot (hearly.mp he)

theorem pageAfter_concat (as : List (PageAct φ)) (a : PageAct φ) :
    pageAfter conv mem (as ++ [a]) = pageNext conv mem (pageAfter conv mem as) a := by
  rw [pageAfter, run_append]
  rfl

theorem Recorded.concat {as : List (PageAct φ)} (h : Recorded conv mem (pageAfter conv mem as) as)
    (a : PageAct φ) : Recorded conv mem (pageAfter conv mem (as ++ [a])) (as ++ [a]) := by
  have hsane := pageAfter_sane conv mem as
  rw [pageAfter_concat]
  refine ⟨?_, ?_, ?_, ?_, pageNext_unloaded conv mem h.unloaded a⟩
  · rw [pageNext_jquery, h.jquery, List.mem_append, List.mem_singleton, eq_comm (a := a)]
  · rw [pageNext_reqEarly]
    exact tooEarly_concat hsane.req h.jquery h.reqEarly
      fun hun => ⟨(h.unloaded hun).1, fun hal => (nomatch hal)⟩
  · rw [pageNext_debEarly]
    exact tooEarly_concat hsane.deb h.jquery h.debEarly
      fun hun => ⟨(h.unloaded hun).2.1, fun _ => (h.unloaded hun).2.2⟩
  · rw [pageNext_debFailed, h.debFailed, DebugFailed, DebugFailed, split_concat]

theorem recorded (as : List (PageAct φ)) : Recorded conv mem (pageAfter conv mem as) as := by
  induction as using List.reverseRecOn with
  | nil => exact Recorded.boot conv mem
  | append_singleton as a ih => exact ih.concat conv mem a

/-- In every run of the page at most one request of either kind is pending. `/state.json` is
polled again after every end of a request, good or bad, unless its timer came before jQuery;
`/debug` is polled until its timer has been too early or one request has failed, and never
again after that. -/
theorem page_polling (as : List (PageAct φ)) (a : PageAct φ) :
    (pageAfter conv mem as).req.pending ≤ 1 ∧ (pageAfter conv mem as).deb.pending ≤ 1
    ∧ (.getState ∈ pageObs (pageAfter conv mem as) a
        ↔ a = .reqTimer ∧ .loaded ∈ as ∧ (pageAfter conv mem as).req.pending = 0
          ∧ ¬ TooEarly .reqTimer as)
    ∧ (.getDebug ∈ pageObs (pageAfter conv mem as) a
        ↔ a = .debTimer ∧ .loaded ∈ as ∧ (pageAfter conv mem as).deb.pending = 0
          ∧ ¬ TooEarly .debTimer as ∧ ¬ DebugFailed conv mem as) := by
  have hsane := pageAfter_sane conv mem as
  have hrec := recorded conv mem as
  refine ⟨hsane.req.le, hsane.deb.le, ?_, ?_⟩
  · rw [getState_iff hsane, hrec.jquery, Poll.Stopped, hrec.reqEarly]
    simp
  · rw [getDebug_iff hsane, hrec.jquery, Poll.Stopped, hrec.debEarly, hrec.debFailed, not_or]
    simp

end Script

end Seatel
