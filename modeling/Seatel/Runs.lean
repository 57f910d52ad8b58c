import Mathlib.Data.List.Forall2
import Mathlib.Data.List.Induction

/-!
# Runs of a deterministic machine

The generic layer under every whole-run statement. A machine is a
function `next` from a state and an action to a state; all
nondeterminism (a scheduler, sensors, a clock, requests that arrive) is
in the action. A run is a list of actions, so a property of *every
interleaving* is a property of every list, and a property of *every state
reached* is one of the final state of every list. What a step shows to
the outside is a separate function `obs`, so that one machine can be
observed in several ways.

Thirteen rules carry the inductions:

- `run_invariant`: what every allowed step keeps, every run keeps
  (`run_invariant_always` when every step is allowed);
- `along_of_invariant`: under an invariant a condition on the steps of a
  run can be exchanged for another one;
- `along_congr_of_invariant`: and for an equivalent one in both directions;
- `reads_trace`: an acceptor that follows every step reads what every run
  shows;
- `run_rel`: two machines that read matched actions and show matched
  observations stay related;
- `run_simulates`: a machine follows another one with any number of its own
  actions for each of the other's;
- `run_follows`: a machine that reads what the other shows follows it;
- `Matched.run_trace`: actions that one run has and the other has not stay unseen;
- `exists_cause`: what only a cause can end has been ended by one;
- `countP_trace_le`: what costs an action is not shown more often than the
  action occurs;
- `countP_trace_eq`: what comes in goes out again or is still there;
- `trace_answers`: a machine that owes the answers to what it has read gives
  them in order;
- `trace_eq_iff`: what is left out in one step is missing in the whole run.
-/

namespace Runs

universe u v w

variable {σ : Type u} {α : Type v} {ε : Type w} (next : σ → α → σ)

/-- The state a run ends in. -/
def run : σ → List α → σ
  | s, [] => s
  | s, a :: as => run (next s a) as

/-- Everything a run shows, in order. -/
def trace (obs : σ → α → List ε) : σ → List α → List ε
  | _, [] => []
  | s, a :: as => obs s a ++ trace obs (next s a) as

/-- Every step of the run, at the state where it is taken, meets `P`. -/
def Along (P : σ → α → Prop) : σ → List α → Prop
  | _, [] => True
  | s, a :: as => P s a ∧ Along P (next s a) as

/-- A decidable step condition can be evaluated along a run. -/
instance decidableAlong (P : σ → α → Prop) [∀ s a, Decidable (P s a)] :
    ∀ (s : σ) (as : List α), Decidable (Along next P s as)
  | _, [] => inferInstanceAs (Decidable True)
  | s, a :: as =>
      have := decidableAlong P (next s a) as
      inferInstanceAs (Decidable (_ ∧ _))

variable {next} {obs : σ → α → List ε} {P Q : σ → α → Prop} {I : σ → Prop}

@[simp] theorem run_nil (s : σ) : run next s [] = s := rfl

@[simp] theorem run_cons (s : σ) (a : α) (as : List α) :
    run next s (a :: as) = run next (next s a) as := rfl

@[simp] theorem trace_nil (s : σ) : trace next obs s [] = [] := rfl

@[simp] theorem trace_cons (s : σ) (a : α) (as : List α) :
    trace next obs s (a :: as) = obs s a ++ trace next obs (next s a) as := rfl

@[simp] theorem along_nil (s : σ) : Along next P s [] := trivial

@[simp] theorem along_cons (s : σ) (a : α) (as : List α) :
    Along next P s (a :: as) ↔ P s a ∧ Along next P (next s a) as := Iff.rfl

/-! ## Composition of runs -/

theorem run_append (s : σ) (as bs : List α) :
    run next s (as ++ bs) = run next (run next s as) bs := by
  induction as generalizing s with
  | nil => rfl
  | cons a as ih => exact ih (next s a)

theorem along_append (s : σ) (as bs : List α) :
    Along next P s (as ++ bs)
      ↔ Along next P s as ∧ Along next P (run next s as) bs := by
  induction as generalizing s with
  | nil => simp
  | cons a as ih => simp [ih, and_assoc]

theorem trace_append (s : σ) (as bs : List α) :
    trace next obs s (as ++ bs) = trace next obs s as ++ trace next obs (run next s as) bs := by
  induction as generalizing s with
  | nil => rfl
  | cons a as ih => rw [List.cons_append, trace_cons, trace_cons, run_cons, ih, List.append_assoc]

/-! ## Invariants -/

/-- What every step that meets `P` keeps, every run of such steps keeps. -/
theorem run_invariant (hstep : ∀ s a, I s → P s a → I (next s a)) {s : σ}
    (hs : I s) {as : List α} (ha : Along next P s as) : I (run next s as) := by
  induction as generalizing s with
  | nil => exact hs
  | cons a as ih => exact ih (hstep s a hs ha.1) ha.2

/-- Under an invariant, a condition on the steps of a run can be exchanged
for any condition the invariant adds to it. -/
theorem along_of_invariant (hstep : ∀ s a, I s → P s a → I (next s a))
    (hQ : ∀ s a, I s → P s a → Q s a) {s : σ} (hs : I s) {as : List α}
    (ha : Along next P s as) : Along next Q s as := by
  induction as generalizing s with
  | nil => trivial
  | cons a as ih => exact ⟨hQ s a hs ha.1, ih (hstep s a hs ha.1) ha.2⟩

/-- Under an invariant, two conditions that agree on every allowed step hold along the
same runs. -/
theorem along_congr_of_invariant {R : σ → α → Prop} (hstep : ∀ s a, I s → P s a → I (next s a))
    (hiff : ∀ s a, I s → P s a → (Q s a ↔ R s a)) {s : σ} (hs : I s) {as : List α}
    (ha : Along next P s as) : Along next Q s as ↔ Along next R s as := by
  induction as generalizing s with
  | nil => exact Iff.rfl
  | cons a as ih => exact and_congr (hiff s a hs ha.1) (ih (hstep s a hs ha.1) ha.2)

theorem along_true (s : σ) (as : List α) : Along next (fun _ _ => True) s as := by
  induction as generalizing s with
  | nil => trivial
  | cons a as ih => exact ⟨trivial, ih (next s a)⟩

/-- What every step keeps, every run keeps. -/
theorem run_invariant_always (hstep : ∀ s a, I s → I (next s a)) {s : σ} (hs : I s)
    (as : List α) : I (run next s as) :=
  run_invariant (fun s a hs _ => hstep s a hs) hs (along_true s as)

/-- A step condition that an invariant implies holds along every run. -/
theorem along_of_invariant_always (hstep : ∀ s a, I s → I (next s a))
    (hQ : ∀ s a, I s → Q s a) {s : σ} (hs : I s) (as : List α) : Along next Q s as :=
  along_of_invariant (fun s a hs _ => hstep s a hs) (fun s a hs _ => hQ s a hs) hs
    (along_true s as)

/-- A step condition holds along a run exactly when it holds at every
position of it. -/
theorem along_iff {s : σ} {as : List α} :
    Along next P s as ↔ ∀ pre a post, as = pre ++ a :: post → P (run next s pre) a := by
  constructor
  · rintro h pre a post rfl
    exact ((along_append s pre (a :: post)).mp h).2.1
  · intro h
    induction as generalizing s with
    | nil => trivial
    | cons a as ih =>
        refine ⟨h [] a as rfl, ih fun pre b post heq => ?_⟩
        exact h (a :: pre) b post (by rw [heq]; rfl)

/-- What a run shows, one of its steps shows. -/
theorem mem_trace {s : σ} {as : List α} {e : ε} :
    e ∈ trace next obs s as ↔
      ∃ pre a post, as = pre ++ a :: post ∧ e ∈ obs (run next s pre) a := by
  induction as generalizing s with
  | nil => simp
  | cons a as ih =>
      rw [trace_cons, List.mem_append, ih]
      constructor
      · rintro (h | ⟨pre, b, post, rfl, h⟩)
        · exact ⟨[], a, as, rfl, h⟩
        · exact ⟨a :: pre, b, post, rfl, h⟩
      · rintro ⟨pre, b, post, heq, h⟩
        cases pre with
        | nil =>
            obtain ⟨rfl, rfl⟩ := List.cons.inj heq
            exact Or.inl h
        | cons c pre =>
            obtain ⟨rfl, rfl⟩ := List.cons.inj heq
            exact Or.inr ⟨pre, b, post, rfl, h⟩

/-! ## Acceptors -/

/-- An acceptor reads the events from `b` on and ends in `b'`. -/
def Reads {β : Type u} (accept : β → ε → Option β) : β → List ε → β → Prop
  | b, [], b' => b = b'
  | b, e :: es, b' => ∃ b₁, accept b e = some b₁ ∧ Reads accept b₁ es b'

section Reads

variable {β : Type u} {accept : β → ε → Option β}

theorem reads_append {b b' : β} {es fs : List ε} :
    Reads accept b (es ++ fs) b' ↔ ∃ b₁, Reads accept b es b₁ ∧ Reads accept b₁ fs b' := by
  induction es generalizing b with
  | nil =>
      constructor
      · intro h
        exact ⟨b, rfl, h⟩
      · rintro ⟨b₁, rfl, h⟩
        exact h
  | cons e es ih =>
      constructor
      · rintro ⟨b₁, he, h⟩
        obtain ⟨b₂, hes, hfs⟩ := ih.mp h
        exact ⟨b₂, ⟨b₁, he, hes⟩, hfs⟩
      · rintro ⟨b₂, ⟨b₁, he, hes⟩, hfs⟩
        exact ⟨b₁, he, ih.mpr ⟨b₂, hes, hfs⟩⟩

theorem reads_invariant {J : β → Prop} (hstep : ∀ b e b', J b → accept b e = some b' → J b')
    {b b' : β} (hb : J b) {es : List ε} (h : Reads accept b es b') : J b' := by
  induction es generalizing b with
  | nil => exact h ▸ hb
  | cons e es ih =>
      obtain ⟨b₁, he, hes⟩ := h
      exact ih (hstep b e b₁ hb he) hes

/-- If the acceptor follows every step, under an invariant, it reads what every
run shows. -/
theorem reads_trace {g : σ → β} (hstep : ∀ s a, I s → I (next s a))
    (hread : ∀ s a, I s → Reads accept (g s) (obs s a) (g (next s a))) {s : σ} (hs : I s)
    (as : List α) : Reads accept (g s) (trace next obs s as) (g (run next s as)) := by
  induction as generalizing s with
  | nil => rfl
  | cons a as ih => exact reads_append.mpr ⟨g (next s a), hread s a hs, ih (hstep s a hs)⟩

end Reads

/-! ## Two runs -/

/-- Two runs over matched actions stay related, after every number of steps,
when matched steps keep the relation. What a step shows may be part of the
match: the observations of the two runs are compared as whole traces, and the
equal number of observations per step lets the induction cut them apart. -/
theorem run_rel {τ : Type u} {β : Type v} {δ : Type w} {next' : τ → β → τ}
    {obs' : τ → β → List δ} {R : σ → τ → Prop} {A : α → β → Prop} {f : ε → δ}
    (hlen : ∀ s t a b, R s t → A a b → (obs' t b).length = (obs s a).length)
    (hstep : ∀ s t a b, R s t → A a b → obs' t b = (obs s a).map f →
      R (next s a) (next' t b)) {as : List α} {bs : List β}
    (hab : List.Forall₂ A as bs) {s : σ} {t : τ} (hR : R s t)
    (htr : trace next' obs' t bs = (trace next obs s as).map f) (n : Nat) :
    R (run next s (as.take n)) (run next' t (bs.take n)) := by
  induction hab generalizing s t n with
  | nil => simpa using hR
  | cons hd _ ih =>
      simp only [trace_cons, List.map_append] at htr
      obtain ⟨hout, hrest⟩ := List.append_inj htr
        (by rw [List.length_map]; exact hlen _ _ _ _ hR hd)
      cases n with
      | zero => exact hR
      | succ n => exact ih (hstep _ _ _ _ hR hd hout) hrest n

/-- A machine that can follow every step of another one can follow every run. -/
theorem run_simulates {τ : Type u} {β : Type v} {next' : τ → β → τ} {R : σ → τ → Prop}
    (hstep : ∀ s t a, R s t → ∃ bs, R (next s a) (run next' t bs)) {s : σ} {t : τ} (hR : R s t)
    (as : List α) : ∃ bs, R (run next s as) (run next' t bs) := by
  induction as generalizing s t with
  | nil => exact ⟨[], hR⟩
  | cons a as ih =>
      obtain ⟨bs, hbs⟩ := hstep s t a hR
      obtain ⟨cs, hcs⟩ := ih hbs
      exact ⟨bs ++ cs, by rw [run_append]; exact hcs⟩

/-- A machine that reads what a run shows, and answers every allowed step, follows the run. -/
theorem run_follows {τ : Type w} {next' : τ → ε → τ} {R : σ → τ → Prop}
    (hstep : ∀ s t a, R s t → P s a → R (next s a) (run next' t (obs s a))) {s : σ} {t : τ}
    (hR : R s t) {as : List α} (has : Along next P s as) :
    R (run next s as) (run next' t (trace next obs s as)) := by
  induction as generalizing s t with
  | nil => exact hR
  | cons a as ih =>
      rw [trace_cons, run_append]
      exact ih (hstep s t a hR has.1) has.2

/-- Two runs that differ in hidden actions, taken on one side only, and otherwise go
through matched ones. -/
inductive Matched (H : α → Prop) (A : α → α → Prop) : List α → List α → Prop where
  | nil : Matched H A [] []
  | left {a : α} {as bs : List α} (ha : H a) (h : Matched H A as bs) : Matched H A (a :: as) bs
  | right {b : α} {as bs : List α} (hb : H b) (h : Matched H A as bs) : Matched H A as (b :: bs)
  | both {a b : α} {as bs : List α} (hab : A a b) (h : Matched H A as bs) :
      Matched H A (a :: as) (b :: bs)

/-- If hidden actions keep the relation and show nothing, and matched ones keep it and
show the same, the two runs show the same and end related. -/
theorem Matched.run_trace {H : α → Prop} {A : α → α → Prop} {R : σ → σ → Prop}
    (hleft : ∀ s t a, R s t → H a → R (next s a) t) (hright : ∀ s t a, R s t → H a → R s (next t a))
    (hhide : ∀ s a, H a → obs s a = [])
    (hboth : ∀ s t a b, R s t → A a b → R (next s a) (next t b) ∧ obs s a = obs t b) {s t : σ}
    (hR : R s t) {as bs : List α} (h : Matched H A as bs) :
    R (run next s as) (run next t bs) ∧ trace next obs s as = trace next obs t bs := by
  induction h generalizing s t with
  | nil => exact ⟨hR, rfl⟩
  | left ha _ ih =>
      rw [run_cons, trace_cons, hhide s _ ha]
      exact ih (hleft s t _ hR ha)
  | right hb _ ih =>
      rw [run_cons, trace_cons, hhide t _ hb]
      exact ih (hright s t _ hR hb)
  | both hab _ ih =>
      obtain ⟨hnext, hobs⟩ := hboth s t _ _ hR hab
      obtain ⟨hend, htrace⟩ := ih hnext
      rw [trace_cons, trace_cons, hobs, htrace]
      exact ⟨hend, rfl⟩

/-- What a monitor leaves alone runs as it does without it. -/
theorem run_proj {τ : Type u} {next' : τ → α → τ} {f : σ → τ}
    (hstep : ∀ s a, f (next s a) = next' (f s) a) (s : σ) (as : List α) :
    f (run next s as) = run next' (f s) as := by
  induction as generalizing s with
  | nil => rfl
  | cons a as ih => rw [run_cons, run_cons, ih, hstep]

/-! ## Causes -/

/-- What only a cause can end, and a reset brings back, has been ended by a cause with no
reset after it. -/
theorem exists_cause {C D : σ → α → Prop} (hkeep : ∀ s a, I s → ¬ C s a → I (next s a))
    (hreset : ∀ s a, D s a → I (next s a)) {s : σ} (hs : I s) {as : List α}
    (hend : ¬ I (run next s as)) :
    ∃ pre a post, as = pre ++ a :: post ∧ C (run next s pre) a
      ∧ Along next (fun s a => ¬ D s a) (next (run next s pre) a) post := by
  induction as using List.reverseRecOn with
  | nil => exact absurd hs hend
  | append_singleton as b ih =>
      rw [run_append, run_cons, run_nil] at hend
      have hD : ¬ D (run next s as) b := fun h => hend (hreset _ _ h)
      by_cases hI : I (run next s as)
      · refine ⟨as, b, [], rfl, ?_, trivial⟩
        by_contra hC
        exact hend (hkeep _ _ hI hC)
      · obtain ⟨pre, a, post, rfl, hC, hpost⟩ := ih hI
        refine ⟨pre, a, post ++ [b], by simp, hC, ?_⟩
        rw [along_append]
        refine ⟨hpost, ?_, trivial⟩
        rw [run_append, run_cons] at hD
        exact hD

/-- What is shown has been paid for: if no step shows more of it than the potential `φ`
loses and the action brings, no run does. -/
theorem countP_trace_le {p : ε → Bool} {q : α → Bool} {φ : σ → Nat}
    (hinv : ∀ s a, I s → I (next s a))
    (hstep : ∀ s a, I s → (obs s a).countP p + φ (next s a) ≤ φ s + [a].countP q) {s : σ}
    (hs : I s) (as : List α) :
    (trace next obs s as).countP p + φ (run next s as) ≤ φ s + as.countP q := by
  induction as generalizing s with
  | nil => simp
  | cons a as ih =>
      have hhead := hstep s a hs
      have htail := ih (hinv s a hs)
      rw [trace_cons, run_cons, List.countP_append, ← List.singleton_append, List.countP_append]
      omega

/-- If in every step what is shown of `p` is what the potential `φ` loses and what is shown
of `q`, so it is in every run. -/
theorem countP_trace_eq {p q : ε → Bool} {φ : σ → Nat} (hinv : ∀ s a, I s → I (next s a))
    (hstep : ∀ s a, I s →
      (obs s a).countP p + φ (next s a) = φ s + (obs s a).countP q) {s : σ} (hs : I s)
    (as : List α) :
    (trace next obs s as).countP p + φ (run next s as)
      = φ s + (trace next obs s as).countP q := by
  induction as generalizing s with
  | nil => simp
  | cons a as ih =>
      have hhead := hstep s a hs
      have htail := ih (hinv s a hs)
      rw [trace_cons, run_cons, List.countP_append, List.countP_append]
      omega

/-- A machine that reads inputs and owes `answer` to each of them: if every step pays in
order what is owed, so does every run. -/
theorem trace_answers {ι : Type w} {ins : σ → α → List ι} {answer : ι → List ε}
    {owed : σ → List ε} (hinv : ∀ s a, I s → I (next s a))
    (hstep : ∀ s a, I s →
      owed s ++ (ins s a).flatMap answer = obs s a ++ owed (next s a)) {s : σ} (hs : I s)
    (as : List α) :
    owed s ++ (trace next ins s as).flatMap answer
      = trace next obs s as ++ owed (run next s as) := by
  induction as generalizing s with
  | nil => simp
  | cons a as ih =>
      rw [trace_cons, trace_cons, run_cons, List.flatMap_append, ← List.append_assoc,
        hstep s a hs, List.append_assoc, ih (hinv s a hs), List.append_assoc]

/-- Where one observation is a part of another one in every step, the two agree over a run
exactly when they agree in each of its steps. -/
theorem trace_eq_iff {obs' : σ → α → List ε} (hsub : ∀ s a, (obs s a).Sublist (obs' s a)) (s : σ)
    (as : List α) :
    trace next obs s as = trace next obs' s as
      ↔ Along next (fun s a => obs s a = obs' s a) s as := by
  have hlen : ∀ (s : σ) (as : List α),
      (trace next obs s as).length ≤ (trace next obs' s as).length := by
    intro s as
    induction as generalizing s with
    | nil => exact Nat.le_refl 0
    | cons a as ih =>
        rw [trace_cons, trace_cons, List.length_append, List.length_append]
        exact Nat.add_le_add (hsub s a).length_le (ih (next s a))
  induction as generalizing s with
  | nil => simp
  | cons a as ih =>
      rw [trace_cons, trace_cons, along_cons]
      constructor
      · intro heq
        -- neither of the two parts can be longer, so both have the same length
        have hsum := congrArg List.length heq
        rw [List.length_append, List.length_append] at hsum
        have hhead := (hsub s a).length_le
        have htail := hlen (next s a) as
        obtain ⟨hstep, hrest⟩ := List.append_inj heq (by omega)
        exact ⟨hstep, (ih (next s a)).mp hrest⟩
      · rintro ⟨hstep, hrest⟩
        rw [hstep, (ih (next s a)).mpr hrest]

end Runs
