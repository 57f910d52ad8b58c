import Mathlib.Data.List.TakeWhile
import Mathlib.Data.Rat.Defs
import Seatel.CString
import Seatel.Numerals
import Seatel.System

/-!
# The rotator API

`server_serve` reads a TCP stream and looks at the first byte of every
fragment it is handed. The bytes of a stream reach it in netbufs, each a
chain of fragments, and TCP may cut the stream anywhere, so that the
commands of a stream are those of one of its cuttings.

A fragment executes at most one command, and only when it starts with a
command letter (`serveFragment_length`). Cut into single bytes a stream
executes every command letter in it, with a bare `P` read as the position
0/0; from that cutting the others are told apart. What the cuttings of a
stream have in common is thus decided by the letters behind the first byte
and by what `extract_numbers` makes of the prefixes (`segmentationFree_cons`).

`extract_numbers` writes into its buffer and can leave it: the indices it
reads and writes are listed (`touched`), and the model has numbers as long
as they are inside. The sums in `double` stay an arbitrary function of the
integers they are computed from.
-/

namespace Seatel

open CString Numerals

/-- `atoi`, `atoi(n1) + atoi(n2)/100.0` of its results, and `az*182.044` and
`el*182.044` in the parameter types of the setters. -/
structure ApiEnv (φ : Type) where
  libc : Libc
  num : Int32 → Int32 → φ
  azCount : φ → UInt16
  elCount : φ → Int16

/-- What `server_serve` executes; `overrun` stands for a `P` that leaves the
buffer. -/
inductive Cmd (φ : Type) where
  | getPosition
  | setPosition (az el : φ)
  | stop
  | quit
  | overrun
deriving Repr, DecidableEq

variable {φ : Type}

/-- What a command asks of the shared variables; `slow` as in `Request.apiPos`. -/
def Cmd.request (env : ApiEnv φ) (slow : Bool) : Cmd φ → Option Request
  | .setPosition az el => some (.apiPos (env.azCount az) (env.elCount el) slow)
  | .stop => some .apiStop
  | _ => none

def isSeparator (b : UInt8) : Bool := b = 46 || b = 44

def isBlank (b : UInt8) : Bool := b = 32

/-- `while(i<l && !stop(msg[i])) i++`. -/
def scanTo (stop : UInt8 → Bool) (msg : List UInt8) (l i : Nat) : Nat :=
  i + (((msg.take l).drop i).takeWhile fun b => !stop b).length

/-- The length of the message, where its three scans stop, and the buffer after
the stores there. -/
structure Fields where
  l : Nat
  i₁ : Nat
  i₂ : Nat
  i₃ : Nat
  msg : List UInt8
deriving Repr, DecidableEq

def scanFields (msg : List UInt8) : Fields :=
  let l := (msg.takeWhile (· ≠ 0)).length
  let i₁ := scanTo isSeparator msg l 2
  let msg := msg.set i₁ 95
  let i₂ := scanTo isBlank msg l (i₁ + 1)
  let msg := msg.set i₂ 95
  let i₃ := scanTo isSeparator msg l (i₂ + 1)
  let msg := msg.set i₃ 95
  ⟨l, i₁, i₂, i₃, msg⟩

/-- The indices a scan from `i` reads when it stops at `j`: `msg[j]` only if `j` is
not the end. -/
def scanTouched (l i j : Nat) : List Nat := List.range' i (j - i + if j < l then 1 else 0)

/-- The indices that `extract_numbers` reads or writes. Behind one that is outside
of the buffer the list goes on as if the memory there were empty. -/
def touched (msg : List UInt8) : List Nat :=
  let f := scanFields msg
  List.range (f.l + 1)
    ++ (scanTouched f.l 2 f.i₁ ++ [f.i₁])
    ++ (scanTouched f.l (f.i₁ + 1) f.i₂ ++ [f.i₂])
    ++ (scanTouched f.l (f.i₂ + 1) f.i₃ ++ [f.i₃])
    ++ (atoiTouched f.msg 2 ++ atoiTouched f.msg (f.i₁ + 1))
    ++ (atoiTouched f.msg (f.i₂ + 1) ++ atoiTouched f.msg (f.i₃ + 1))

/-- The result and the two numbers of `extract_numbers`, none when it leaves the
buffer. -/
def extractNumbers (env : ApiEnv φ) (msg : List UInt8) : Option (Bool × φ × φ) :=
  let f := scanFields msg
  let n₁ := env.libc.atoi (f.msg.drop 2)
  let n₂ := env.libc.atoi (f.msg.drop (f.i₁ + 1))
  let n₃ := env.libc.atoi (f.msg.drop (f.i₂ + 1))
  let n₄ := env.libc.atoi (f.msg.drop (f.i₃ + 1))
  if ∀ i ∈ touched msg, i < msg.length then
    some (f.i₃ + 1 ≠ f.l, env.num n₁ n₂, env.num n₃ n₄)
  else none

/-- `memset` and `memcpy` into `buf[128]`. -/
def apiBuf (data : List UInt8) : List UInt8 := (data ++ List.replicate 128 0).take 128

/-- `case 'P'`: a position that is not read is answered by `RPRT 1`. -/
def setPosition (env : ApiEnv φ) (data : List UInt8) : List (Cmd φ) :=
  match extractNumbers env (apiBuf data) with
  | none => [.overrun]
  | some (false, _, _) => []
  | some (true, az, el) => [.setPosition az el]

/-- `case 'P'` on the shared variables, with the reply. -/
def servePosition (env : ApiEnv φ) (slow : Bool) (v : Vars) (data : List UInt8) :
    Option (Vars × List UInt8) :=
  match extractNumbers env (apiBuf data) with
  | none => none
  | some (false, _, _) => some (v, ascii "RPRT 1\n")
  | some (true, az, el) =>
      some (apiPos (env.azCount az) (env.elCount el) slow v, ascii "RPRT 0\n")

/-- The commands executed for one fragment. -/
def serveFragment (env : ApiEnv φ) : List UInt8 → List (Cmd φ)
  | [] => []
  | b :: data =>
      if b = 112 then [.getPosition]
      else if b = 80 then setPosition env (b :: data)
      else if b = 83 then [.stop]
      else if b = 113 then [.quit]
      else []

/-- The fragments of one netbuf; `q` ends the netbuf, and with it nothing else. -/
def serveNetbuf (env : ApiEnv φ) : List (List UInt8) → List (Cmd φ)
  | [] => []
  | data :: rest =>
      serveFragment env data ++ if data.head? = some 113 then [] else serveNetbuf env rest

def serverServe (env : ApiEnv φ) (netbufs : List (List (List UInt8))) : List (Cmd φ) :=
  netbufs.flatMap (serveNetbuf env)

/-- The stream cut into netbufs of non-empty fragments. The length of a netbuf is
a `u16_t`. -/
structure Cutting (stream : List UInt8) where
  netbufs : List (List (List UInt8))
  ne_nil : ∀ nb ∈ netbufs, nb ≠ [] ∧ ∀ data ∈ nb, data ≠ []
  totLen : ∀ nb ∈ netbufs, nb.flatten.length < 65536
  flatten_eq : netbufs.flatten.flatten = stream

/-- The commands do not depend on how the stream is cut. -/
def SegmentationFree (env : ApiEnv φ) (stream : List UInt8) : Prop :=
  ∀ c₁ c₂ : Cutting stream, serverServe env c₁.netbufs = serverServe env c₂.netbufs

/-! ## One fragment -/

def isCommand (b : UInt8) : Bool := b = 112 || b = 80 || b = 83 || b = 113

theorem setPosition_length (env : ApiEnv φ) (data : List UInt8) :
    (setPosition env data).length ≤ 1 := by
  unfold setPosition
  split <;> simp

/-- The variables afterwards are those of the command that is executed. -/
theorem servePosition_vars (env : ApiEnv φ) {slow : Bool} {v v' : Vars} {data reply : List UInt8}
    (h : servePosition env slow v data = some (v', reply)) :
    v' = ((setPosition env data).filterMap (Cmd.request env slow)).foldl serve v := by
  cases hread : extractNumbers env (apiBuf data) with
  | none =>
      rw [servePosition, hread] at h
      cases h
  | some r =>
      obtain ⟨ok, az, el⟩ := r
      cases ok with
      | false =>
          rw [servePosition, hread] at h
          rw [setPosition, hread]
          cases h
          rfl
      | true =>
          rw [servePosition, hread] at h
          rw [setPosition, hread]
          cases h
          rfl

theorem serveFragment_plain (env : ApiEnv φ) {b : UInt8} (data : List UInt8)
    (hb : isCommand b = false) : serveFragment env (b :: data) = [] := by
  simp only [isCommand, Bool.or_eq_false_iff, decide_eq_false_iff_not] at hb
  obtain ⟨⟨⟨hp, hP⟩, hS⟩, hq⟩ := hb
  rw [serveFragment, if_neg hp, if_neg hP, if_neg hS, if_neg hq]

/-- Only a `P` looks behind its first byte. -/
theorem serveFragment_head (env : ApiEnv φ) {b : UInt8} (data : List UInt8) (hb : b ≠ 80) :
    serveFragment env (b :: data) = serveFragment env [b] := by
  simp only [serveFragment, if_neg hb]

theorem serveFragment_P (env : ApiEnv φ) (data : List UInt8) :
    serveFragment env (80 :: data) = setPosition env (80 :: data) := by
  rw [serveFragment, if_neg (by decide), if_pos rfl]

/-- A bare `P` is the position 0/0. -/
theorem extractNumbers_bare (env : ApiEnv φ) :
    extractNumbers env (apiBuf [80]) = some (true, env.num 0 0, env.num 0 0) := by
  have hzero : env.libc.narrow 0 = 0 := env.libc.narrow_of_mem 0 (by decide) (by decide)
  have heval : extractNumbers env (apiBuf [80])
      = some (true, env.num (env.libc.narrow 0) (env.libc.narrow 0),
          env.num (env.libc.narrow 0) (env.libc.narrow 0)) := by
    rw [extractNumbers, if_pos (by decide +kernel)]
    rfl
  rw [heval, hzero]

theorem serveFragment_bare (env : ApiEnv φ) :
    serveFragment env [80] = [.setPosition (env.num 0 0) (env.num 0 0)] := by
  rw [serveFragment_P, setPosition, extractNumbers_bare]

/-- What a `P` executes tells what was read. -/
theorem extractNumbers_of_setPosition (env : ApiEnv φ) {data : List UInt8} {az el : φ}
    (h : setPosition env data = [.setPosition az el]) :
    extractNumbers env (apiBuf data) = some (true, az, el) := by
  unfold setPosition at h
  split at h
  case h_1 => cases h
  case h_2 => cases h
  case h_3 a e hread =>
      rw [hread]
      cases h
      rfl

/-- A single byte executes a command exactly when it is a command letter. -/
theorem serveFragment_byte (env : ApiEnv φ) (b : UInt8) :
    (serveFragment env [b]).length = if isCommand b then 1 else 0 := by
  by_cases hb : isCommand b = true
  · rw [if_pos hb]
    simp only [isCommand, Bool.or_eq_true, decide_eq_true_eq] at hb
    rcases hb with ((rfl | rfl) | rfl) | rfl
    · rfl
    · rw [serveFragment_bare]
      rfl
    · rfl
    · rfl
  · rw [if_neg hb, serveFragment_plain env [] (by simpa using hb)]
    rfl

/-- A fragment executes at most what its first byte does alone. -/
theorem serveFragment_length (env : ApiEnv φ) (b : UInt8) (data : List UInt8) :
    (serveFragment env (b :: data)).length ≤ (serveFragment env [b]).length := by
  by_cases hb : b = 80
  · subst hb
    rw [serveFragment_bare, serveFragment_P]
    exact setPosition_length env (80 :: data)
  · rw [serveFragment_head env data hb]

/-! ## Cuttings -/

/-- Every byte in a netbuf of its own. -/
def oneByte (bs : List UInt8) : List (List (List UInt8)) := bs.map fun b => [[b]]

theorem flatten_oneByte (bs : List UInt8) : (oneByte bs).flatten.flatten = bs := by
  induction bs with
  | nil => rfl
  | cons b bs ih =>
      rw [oneByte, List.map_cons, List.flatten_cons, List.flatten_append, ← oneByte, ih]
      rfl

theorem serveNetbuf_single (env : ApiEnv φ) (data : List UInt8) :
    serveNetbuf env [data] = serveFragment env data := by
  rw [serveNetbuf, serveNetbuf, ite_self, List.append_nil]

theorem serverServe_append (env : ApiEnv φ) (n m : List (List (List UInt8))) :
    serverServe env (n ++ m) = serverServe env n ++ serverServe env m :=
  List.flatMap_append

theorem serverServe_single (env : ApiEnv φ) (data : List UInt8) :
    serverServe env [[data]] = serveFragment env data := by
  rw [serverServe, List.flatMap_singleton, serveNetbuf_single]

theorem serverServe_oneByte_cons (env : ApiEnv φ) (b : UInt8) (bs : List UInt8) :
    serverServe env (oneByte (b :: bs))
      = serveFragment env [b] ++ serverServe env (oneByte bs) := by
  rw [← serverServe_single, ← serverServe_append]
  rfl

/-- Fragments that start with no command letter execute nothing. -/
theorem serveNetbuf_plain (env : ApiEnv φ) {nb : List (List UInt8)}
    (h : ∀ data ∈ nb, ∀ b, data.head? = some b → isCommand b = false) :
    serveNetbuf env nb = [] := by
  induction nb with
  | nil => rfl
  | cons data nb ih =>
      have hfrag : serveFragment env data = [] := by
        cases data with
        | nil => rfl
        | cons b data => exact serveFragment_plain env data (h _ List.mem_cons_self b rfl)
      rw [serveNetbuf, hfrag, ih fun d hd => h d (List.mem_cons_of_mem _ hd), ite_self]
      rfl

theorem serverServe_plain (env : ApiEnv φ) {netbufs : List (List (List UInt8))}
    (h : ∀ b ∈ netbufs.flatten.flatten, isCommand b = false) : serverServe env netbufs = [] := by
  rw [serverServe, List.flatMap_eq_nil_iff]
  intro nb hnb
  refine serveNetbuf_plain env fun data hdata b hb => h b ?_
  exact List.mem_flatten_of_mem (List.mem_flatten_of_mem hnb hdata) (List.mem_of_mem_head? hb)

/-- One fragment, and the stream around it cut into single bytes. -/
def cutAround (pre data post : List UInt8) (hne : data ≠ []) (hlen : data.length < 65536)
    {stream : List UInt8} (hstream : pre ++ data ++ post = stream) : Cutting stream where
  netbufs := oneByte pre ++ [[data]] ++ oneByte post
  ne_nil nb hnb := by
    simp only [oneByte, List.mem_append, List.mem_map, List.mem_singleton] at hnb
    rcases hnb with (⟨b, -, rfl⟩ | rfl) | ⟨b, -, rfl⟩
    · simp
    · simpa using hne
    · simp
  totLen nb hnb := by
    simp only [oneByte, List.mem_append, List.mem_map, List.mem_singleton] at hnb
    rcases hnb with (⟨b, -, rfl⟩ | rfl) | ⟨b, -, rfl⟩
    · simp
    · simpa using hlen
    · simp
  flatten_eq := by
    rw [List.flatten_append, List.flatten_append, List.flatten_append, List.flatten_append,
      flatten_oneByte, flatten_oneByte]
    simpa using hstream

theorem serverServe_cutAround (env : ApiEnv φ) (pre data post : List UInt8) (hne : data ≠ [])
    (hlen : data.length < 65536) {stream : List UInt8} (hstream : pre ++ data ++ post = stream) :
    serverServe env (cutAround pre data post hne hlen hstream).netbufs
      = serverServe env (oneByte pre) ++ serveFragment env data
        ++ serverServe env (oneByte post) := by
  rw [cutAround, serverServe_append, serverServe_append, serverServe_single]

/-- The first fragment of a cutting is a prefix of the stream, and what follows it
lies behind the first byte. -/
theorem Cutting.first {b : UInt8} {bs : List UInt8} (c : Cutting (b :: bs)) :
    ∃ data nb rest, c.netbufs = ((b :: data) :: nb) :: rest
      ∧ data <+: bs ∧ data ++ nb.flatten ++ rest.flatten.flatten = bs := by
  obtain ⟨netbufs, hne, -, hflat⟩ := c
  cases netbufs with
  | nil => cases hflat
  | cons nb rest =>
      obtain ⟨hnb, hdata⟩ := hne nb List.mem_cons_self
      obtain ⟨data, nb, rfl⟩ := List.exists_cons_of_ne_nil hnb
      obtain ⟨d, data, rfl⟩ := List.exists_cons_of_ne_nil (hdata data List.mem_cons_self)
      simp only [List.flatten_cons, List.flatten_append, List.cons_append, List.cons.injEq] at hflat
      obtain ⟨rfl, hbs⟩ := hflat
      exact ⟨data, nb, rest, rfl, ⟨_, hbs⟩, by rw [List.append_assoc]; exact hbs⟩

/-- With no command letter behind the first byte, the first fragment is all that
is executed. -/
theorem Cutting.serverServe_eq (env : ApiEnv φ) {b : UInt8} {bs : List UInt8}
    (hbs : ∀ x ∈ bs, isCommand x = false) (c : Cutting (b :: bs)) :
    ∃ data, data <+: bs
      ∧ serverServe env c.netbufs = serveFragment env (b :: data) := by
  obtain ⟨data, nb, rest, hcut, hpre, hflat⟩ := c.first
  have hnb : serveNetbuf env nb = [] := by
    refine serveNetbuf_plain env fun d hd x hx => hbs x ?_
    rw [← hflat]
    simp only [List.mem_append]
    exact .inl (.inr (List.mem_flatten_of_mem hd (List.mem_of_mem_head? hx)))
  have hrest : serverServe env rest = [] := by
    refine serverServe_plain env fun x hx => hbs x ?_
    rw [← hflat]
    simp only [List.mem_append]
    exact .inr hx
  refine ⟨data, hpre, ?_⟩
  have hfirst : serveNetbuf env ((b :: data) :: nb) = serveFragment env (b :: data) := by
    rw [serveNetbuf, hnb, ite_self, List.append_nil]
  rw [hcut, ← List.singleton_append, serverServe_append, hrest, List.append_nil, serverServe,
    List.flatMap_singleton, hfirst]

/-! ## Streams that do not depend on their cutting -/

/-- What is behind the 128th byte is not copied. -/
theorem apiBuf_take (data : List UInt8) : apiBuf (data.take 128) = apiBuf data := by
  rcases Nat.le_total data.length 128 with h | h
  · rw [List.take_of_length_le h]
  · have hlen : (data.take 128).length = 128 := List.length_take_of_le h
    rw [apiBuf, apiBuf, List.take_append_of_le_length (by omega), List.take_append_of_le_length h,
      List.take_take]
    rfl

/-- A command letter that comes with the byte before it is not executed. -/
theorem SegmentationFree.plain {env : ApiEnv φ} {b : UInt8} {bs : List UInt8}
    (h : SegmentationFree env (b :: bs)) : ∀ x ∈ bs, isCommand x = false := by
  intro x hx
  by_contra hcmd
  obtain ⟨pre, y, post, hsplit⟩ : ∃ pre y post, b :: bs = pre ++ y :: x :: post := by
    obtain ⟨u, v, rfl⟩ := List.append_of_mem hx
    rcases List.eq_nil_or_concat (b :: u) with hnil | ⟨pre, y, hpre⟩
    · cases hnil
    · exact ⟨pre, y, v, by rw [← List.cons_append, hpre]; simp⟩
  -- `x` in one fragment with the byte before it, and `x` alone
  have heq := h
    (cutAround pre [y, x] post (by simp) (by simp) (by simp [hsplit]))
    (cutAround pre [y] (x :: post) (by simp) (by simp) (by simp [hsplit]))
  rw [serverServe_cutAround, serverServe_cutAround, serverServe_oneByte_cons] at heq
  have hlen := congrArg List.length heq
  simp only [List.length_append] at hlen
  have hy := serveFragment_length env y [x]
  have hone := serveFragment_byte env x
  rw [if_pos (by simpa using hcmd)] at hone
  omega

/-- A prefix that comes in one fragment is read as a bare `P` is. -/
theorem SegmentationFree.zero {env : ApiEnv φ} {bs : List UInt8}
    (h : SegmentationFree env (80 :: bs)) {data : List UInt8} (hpre : data <+: bs) :
    extractNumbers env (apiBuf (80 :: data)) = some (true, env.num 0 0, env.num 0 0) := by
  have hbuf := apiBuf_take (80 :: data)
  rw [List.take_succ_cons] at hbuf
  obtain ⟨post, hpost⟩ := (List.take_prefix 127 data).trans hpre
  have hplain : serverServe env (oneByte post) = [] := by
    refine serverServe_plain env fun x hx => h.plain x ?_
    rw [flatten_oneByte] at hx
    exact hpost ▸ List.mem_append_right _ hx
  have hplain' : serverServe env (oneByte bs) = [] :=
    serverServe_plain env fun x hx => h.plain x (by rwa [flatten_oneByte] at hx)
  -- the prefix in one fragment, and `P` alone
  have heq := h
    (cutAround [] (80 :: data.take 127) post (by simp)
      (by rw [List.length_cons, List.length_take]; omega) (by simp [hpost]))
    (cutAround [] [80] bs (by simp) (by simp) rfl)
  rw [serverServe_cutAround, serverServe_cutAround, hplain, hplain', List.append_nil,
    List.append_nil, serveFragment_bare, serveFragment_P] at heq
  rw [← hbuf]
  exact extractNumbers_of_setPosition env (List.append_cancel_left heq)

/-- A stream executes the same commands however it is cut exactly when no command
letter stands behind its first byte and, if that is a `P`, every prefix is read
as the position 0/0. -/
theorem segmentationFree_cons (env : ApiEnv φ) (b : UInt8) (bs : List UInt8) :
    SegmentationFree env (b :: bs)
      ↔ (∀ x ∈ bs, isCommand x = false)
        ∧ (b = 80 → ∀ data, data <+: bs →
          extractNumbers env (apiBuf (80 :: data)) = some (true, env.num 0 0, env.num 0 0)) := by
  constructor
  · intro h
    refine ⟨h.plain, ?_⟩
    rintro rfl data hpre
    exact h.zero hpre
  · rintro ⟨hbs, hpos⟩
    have hone : ∀ c : Cutting (b :: bs), serverServe env c.netbufs = serveFragment env [b] := by
      intro c
      obtain ⟨data, hpre, hserve⟩ := c.serverServe_eq env hbs
      rw [hserve]
      by_cases hb : b = 80
      · subst hb
        rw [serveFragment_P, setPosition, hpos rfl data hpre, serveFragment_bare]
      · exact serveFragment_head env data hb
    intro c₁ c₂
    rw [hone c₁, hone c₂]

theorem segmentationFree_nil (env : ApiEnv φ) : SegmentationFree env [] := by
  have hnone : ∀ c : Cutting [], serverServe env c.netbufs = [] := by
    intro c
    refine serverServe_plain env fun x hx => ?_
    rw [c.flatten_eq] at hx
    cases hx
  intro c₁ c₂
  rw [hnone c₁, hnone c₂]

theorem segmentationFree_iff (env : ApiEnv φ) (stream : List UInt8) :
    SegmentationFree env stream
      ↔ (∀ x ∈ stream.tail, isCommand x = false)
        ∧ ∀ bs, stream = 80 :: bs → ∀ data, data <+: bs →
          extractNumbers env (apiBuf (80 :: data)) = some (true, env.num 0 0, env.num 0 0) := by
  cases stream with
  | nil =>
      refine ⟨fun _ => ⟨?_, ?_⟩, fun _ => segmentationFree_nil env⟩
      · intro x hx
        cases hx
      · intro bs h
        cases h
  | cons b bs =>
      rw [segmentationFree_cons, List.tail_cons]
      refine and_congr_right fun _ => ⟨?_, fun h hb => h bs (by rw [hb])⟩
      rintro h bs heq
      cases heq
      exact h rfl

/-! ## Commands as a client writes them -/

/-- A number of a position: an optional minus, digits, a separator, digits. -/
structure Decimal where
  neg : Bool
  whole : List (Fin 10)
  comma : Bool
  frac : List (Fin 10)
deriving Repr, DecidableEq

/-- The part before the separator. -/
def Decimal.front (d : Decimal) : List UInt8 :=
  (if d.neg then [45] else []) ++ d.whole.map digitByte

def Decimal.separator (d : Decimal) : UInt8 := if d.comma then 44 else 46

/-- `p`, `P az el`, `S` and `q`. -/
inductive Line where
  | getPosition
  | setPosition (az el : Decimal)
  | stop
  | quit
deriving Repr, DecidableEq

/-- The position up to the separator of its second number. -/
def Line.cutPosition (az el : Decimal) : List UInt8 :=
  32 :: (az.front ++ az.separator :: (az.frac.map digitByte ++ 32 :: (el.front ++ [el.separator])))

/-- The letter of a command and the rest of its line. -/
def Line.letter : Line → UInt8
  | .getPosition => 112
  | .setPosition _ _ => 80
  | .stop => 83
  | .quit => 113

def Line.rest : Line → List UInt8
  | .setPosition az el => cutPosition az el ++ (el.frac.map digitByte ++ [10])
  | _ => [10]

def Line.text (c : Line) : List UInt8 := c.letter :: c.rest

theorem Line.isCommand_letter (c : Line) : isCommand c.letter = true := by
  cases c <;> rfl

/-- A digit is no command letter, no separator, no blank and no terminator. -/
theorem digitByte_plain (d : Fin 10) :
    isCommand (digitByte d) = false ∧ isSeparator (digitByte d) = false
      ∧ isBlank (digitByte d) = false ∧ digitByte d ≠ 0 := by
  revert d
  decide

theorem Decimal.front_plain (d : Decimal) {b : UInt8} (hb : b ∈ d.front) :
    isCommand b = false ∧ isSeparator b = false ∧ isBlank b = false ∧ b ≠ 0 := by
  rcases List.mem_append.mp hb with h | h
  · cases hneg : d.neg with
    | false =>
        rw [hneg] at h
        cases h
    | true =>
        rw [hneg, if_pos rfl, List.mem_singleton] at h
        subst h
        decide
  · obtain ⟨n, -, rfl⟩ := List.mem_map.mp h
    exact digitByte_plain n

theorem digits_plain {ds : List (Fin 10)} {b : UInt8} (hb : b ∈ ds.map digitByte) :
    isCommand b = false ∧ isSeparator b = false ∧ isBlank b = false ∧ b ≠ 0 := by
  obtain ⟨n, -, rfl⟩ := List.mem_map.mp hb
  exact digitByte_plain n

theorem Decimal.separator_plain (d : Decimal) :
    isCommand d.separator = false ∧ isSeparator d.separator = true ∧ d.separator ≠ 0 := by
  unfold Decimal.separator
  split <;> decide

theorem Line.cutPosition_plain (az el : Decimal) {b : UInt8} (hb : b ∈ cutPosition az el) :
    isCommand b = false ∧ b ≠ 0 := by
  simp only [cutPosition, List.mem_cons, List.mem_append, List.not_mem_nil, or_false] at hb
  rcases hb with rfl | h | rfl | h | rfl | h | rfl
  · decide
  · exact ⟨(az.front_plain h).1, (az.front_plain h).2.2.2⟩
  · exact ⟨az.separator_plain.1, az.separator_plain.2.2⟩
  · exact ⟨(digits_plain h).1, (digits_plain h).2.2.2⟩
  · decide
  · exact ⟨(el.front_plain h).1, (el.front_plain h).2.2.2⟩
  · exact ⟨el.separator_plain.1, el.separator_plain.2.2⟩

theorem Line.rest_plain (c : Line) : ∀ b ∈ c.rest, isCommand b = false := by
  intro b hb
  cases c with
  | setPosition az el =>
      simp only [rest, List.mem_append, List.mem_singleton] at hb
      rcases hb with h | h | rfl
      · exact (cutPosition_plain az el h).1
      · exact (digits_plain h).1
      · rfl
  | getPosition | stop | quit =>
      rw [List.mem_singleton.mp hb]
      rfl

/-! ## A position cut behind its last separator -/

theorem scanTo_set (stop : UInt8 → Bool) (msg : List UInt8) (l : Nat) {i j : Nat} (hj : j < i)
    (x : UInt8) : scanTo stop (msg.set j x) l i = scanTo stop msg l i := by
  rw [scanTo, scanTo, List.take_set, List.drop_set_of_lt hj]

/-- The loop stops at the first byte that stops it. -/
theorem scanTo_eq {stop : UInt8 → Bool} {msg : List UInt8} (u w rest : List UInt8) {b : UInt8}
    {l : Nat} (hmsg : msg = u ++ (w ++ b :: rest)) (hw : ∀ x ∈ w, stop x = false)
    (hb : stop b = true) (hl : u.length + w.length < l) :
    scanTo stop msg l u.length = u.length + w.length := by
  obtain ⟨k, rfl⟩ : ∃ k, l = u.length + (w.length + (k + 1)) :=
    ⟨l - u.length - w.length - 1, by omega⟩
  have hall : ∀ x ∈ w, (!stop x) = true := by
    intro x hx
    rw [hw x hx]
    rfl
  rw [scanTo, hmsg, List.take_length_add_append, List.drop_left, List.take_length_add_append,
    List.take_succ_cons, List.takeWhile_append_of_pos hall,
    List.takeWhile_cons_of_neg (by simp [hb]), List.append_nil]

/-- Nothing is read out of a buffer without a terminator. -/
theorem extractNumbers_noNul (env : ApiEnv φ) {msg : List UInt8} (h : 0 ∉ msg) :
    extractNumbers env msg = none := by
  have hall : msg.takeWhile (· ≠ 0) = msg := by
    rw [List.takeWhile_eq_self_iff]
    intro b hb
    rw [decide_eq_true_iff]
    rintro rfl
    exact h hb
  have hl : (scanFields msg).l = msg.length := congrArg List.length hall
  rw [extractNumbers, if_neg]
  intro hin
  refine Nat.lt_irrefl _ (hin msg.length ?_)
  simp only [touched, List.mem_append, List.mem_range, hl]
  exact .inl (.inl (.inl (.inl (.inl (Nat.lt_succ_self _)))))

theorem le_scanTo (stop : UInt8 → Bool) (msg : List UInt8) (l i : Nat) :
    i ≤ scanTo stop msg l i := Nat.le_add_right _ _

/-- The stores lie behind what the later scans look at. -/
theorem scanFields_eq {msg : List UInt8} {l i₁ i₂ i₃ : Nat}
    (hl : (msg.takeWhile (· ≠ 0)).length = l) (h₁ : scanTo isSeparator msg l 2 = i₁)
    (h₂ : scanTo isBlank msg l (i₁ + 1) = i₂) (h₃ : scanTo isSeparator msg l (i₂ + 1) = i₃) :
    scanFields msg = ⟨l, i₁, i₂, i₃, ((msg.set i₁ 95).set i₂ 95).set i₃ 95⟩ := by
  have h₂' : scanTo isBlank (msg.set i₁ 95) l (i₁ + 1) = i₂ := by
    rw [scanTo_set _ _ _ (Nat.lt_succ_self i₁), h₂]
  have h₁₂ : i₁ < i₂ + 1 := by
    have hle := le_scanTo isBlank msg l (i₁ + 1)
    omega
  have h₃' : scanTo isSeparator ((msg.set i₁ 95).set i₂ 95) l (i₂ + 1) = i₃ := by
    rw [scanTo_set _ _ _ (Nat.lt_succ_self i₂), scanTo_set _ _ _ h₁₂, h₃]
  simp only [scanFields, hl, h₁, h₂', h₃']

/-- A string that ends with the third byte that is searched for is no position. -/
theorem extractNumbers_ends (env : ApiEnv φ) {msg : List UInt8} {l i₁ i₂ : Nat}
    (hl : (msg.takeWhile (· ≠ 0)).length = l) (h₁ : scanTo isSeparator msg l 2 = i₁)
    (h₂ : scanTo isBlank msg l (i₁ + 1) = i₂) (h₃ : scanTo isSeparator msg l (i₂ + 1) + 1 = l)
    (az el : φ) : extractNumbers env msg ≠ some (true, az, el) := by
  intro h
  simp only [extractNumbers, scanFields_eq hl h₁ h₂ rfl, h₃] at h
  split at h
  · simp at h
  · cases h

theorem apiBuf_short {data : List UInt8} (h : data.length < 128) :
    apiBuf data = data ++ 0 :: List.replicate (127 - data.length) 0 := by
  rw [apiBuf, List.take_append, List.take_of_length_le (Nat.le_of_lt h), List.take_replicate,
    ← List.replicate_succ]
  congr 2
  omega

theorem Line.length_cutPosition (az el : Decimal) :
    (80 :: cutPosition az el).length
      = az.front.length + az.frac.length + el.front.length + 5 := by
  simp only [cutPosition, List.length_cons, List.length_append, List.length_map, List.length_nil]
  omega

/-- The two separators and the blank are found, and the string ends there. -/
theorem extractNumbers_short (env : ApiEnv φ) (az el : Decimal) {msg zeros : List UInt8}
    (hmsg : msg = 80 :: Line.cutPosition az el ++ 0 :: zeros)
    {l : Nat} (hl : (msg.takeWhile (· ≠ 0)).length = l)
    (hlen : l = az.front.length + az.frac.length + el.front.length + 5) (a e : φ) :
    extractNumbers env msg ≠ some (true, a, e) := by
  -- what stands before each of the three
  let u₁ : List UInt8 := [80, 32]
  let u₂ := u₁ ++ az.front ++ [az.separator]
  let u₃ := u₂ ++ az.frac.map digitByte ++ [32]
  have hu₂ : u₂.length = 2 + az.front.length + 1 := by
    rw [List.length_append, List.length_append]
    rfl
  have hu₃ : u₃.length = u₂.length + az.frac.length + 1 := by
    rw [List.length_append, List.length_append, List.length_map]
    rfl
  have h₁ : scanTo isSeparator msg l u₁.length = u₁.length + az.front.length := by
    refine scanTo_eq u₁ az.front
      (az.frac.map digitByte ++ 32 :: (el.front ++ el.separator :: 0 :: zeros))
      (by simp [hmsg, u₁, Line.cutPosition]) (fun x hx => (az.front_plain hx).2.1)
      az.separator_plain.2.1 ?_
    change 2 + _ < _
    omega
  have h₂ : scanTo isBlank msg l u₂.length = u₂.length + (az.frac.map digitByte).length := by
    refine scanTo_eq u₂ (az.frac.map digitByte) (el.front ++ el.separator :: 0 :: zeros)
      (by simp [hmsg, u₁, u₂, Line.cutPosition]) (fun x hx => (digits_plain hx).2.2.1)
      (show isBlank 32 = true from rfl) ?_
    rw [List.length_map]
    omega
  have h₃ : scanTo isSeparator msg l u₃.length = u₃.length + el.front.length := by
    refine scanTo_eq u₃ el.front (0 :: zeros)
      (by simp [hmsg, u₁, u₂, u₃, Line.cutPosition]) (fun x hx => (el.front_plain hx).2.1)
      el.separator_plain.2.1 ?_
    omega
  rw [hu₂, List.length_map] at h₂
  rw [hu₃, hu₂] at h₃
  exact extractNumbers_ends env hl h₁ h₂ (by rw [h₃]; omega) a e

/-- A position that is cut behind its last separator is not executed. -/
theorem extractNumbers_cutPosition (env : ApiEnv φ) (az el : Decimal) (a e : φ) :
    extractNumbers env (apiBuf (80 :: Line.cutPosition az el)) ≠ some (true, a, e) := by
  have hnul : 0 ∉ 80 :: Line.cutPosition az el := by
    rw [List.mem_cons, not_or]
    exact ⟨by decide, fun h => (Line.cutPosition_plain az el h).2 rfl⟩
  rcases Nat.lt_or_ge (80 :: Line.cutPosition az el).length 128 with hlen | hlen
  · have hbuf := apiBuf_short hlen
    refine extractNumbers_short env az el hbuf ?_ (Line.length_cutPosition az el) a e
    rw [hbuf, takeWhile_nul hnul]
  · have hbuf : 0 ∉ apiBuf (80 :: Line.cutPosition az el) := by
      rw [apiBuf, List.take_append_of_le_length hlen]
      exact fun h => hnul (List.mem_of_mem_take h)
    rw [extractNumbers_noNul env hbuf]
    intro h
    cases h

/-- The commands of a client are executed the same however they are cut exactly
when there is at most one and it is no position. For other streams the letters
behind the first byte and the prefixes of a position decide. -/
theorem api_segmentation_free_iff (env : ApiEnv φ) :
    (∀ cs : List Line, SegmentationFree env (cs.flatMap Line.text)
      ↔ cs = [] ∨ ∃ c, cs = [c] ∧ ∀ az el, c ≠ .setPosition az el)
    ∧ ∀ stream, SegmentationFree env stream
      ↔ (∀ x ∈ stream.tail, isCommand x = false)
        ∧ ∀ bs, stream = 80 :: bs → ∀ data, data <+: bs →
          extractNumbers env (apiBuf (80 :: data)) = some (true, env.num 0 0, env.num 0 0) := by
  refine ⟨fun cs => ?_, segmentationFree_iff env⟩
  rw [segmentationFree_iff]
  constructor
  · rintro ⟨hplain, hzero⟩
    rcases cs with _ | ⟨c, _ | ⟨d, cs⟩⟩
    · exact .inl rfl
    · refine .inr ⟨c, rfl, ?_⟩
      rintro az el rfl
      refine extractNumbers_cutPosition env az el _ _ (hzero (Line.setPosition az el).rest ?_
        (Line.cutPosition az el) (List.prefix_append _ _))
      rw [List.flatMap_singleton]
      rfl
    · -- the letter of the second command stands behind the first byte
      have hd := hplain d.letter (by simp [Line.text])
      rw [d.isCommand_letter] at hd
      cases hd
  · rintro (rfl | ⟨c, rfl, hc⟩)
    · constructor
      · intro x hx
        cases hx
      · intro bs h
        cases h
    · rw [List.flatMap_singleton]
      refine ⟨c.rest_plain, fun bs h => ?_⟩
      cases c with
      | setPosition az el => exact absurd rfl (hc az el)
      | getPosition | stop | quit => cases h

/-! ## A position in two segments -/

/-- The platform over the rationals. -/
def exactApi : ApiEnv ℚ where
  libc := Libc.saturating
  num a b := a.toInt + b.toInt / 100
  azCount az := Fpu.modular.toU16 (az * 182044 / 1000)
  elCount el := Fpu.modular.toI16 (el * 182044 / 1000)

/-- The shared variables after the commands. -/
def afterCommands (slow : Bool) (cmds : List (Cmd ℚ)) : Vars :=
  (cmds.filterMap (Cmd.request exactApi slow)).foldl serve {}

/-- `P 90.00 45.00`. -/
def trackLine : Line :=
  .setPosition ⟨false, toDigits [9, 0], false, toDigits [0, 0]⟩
    ⟨false, toDigits [4, 5], false, toDigits [0, 0]⟩

/-- The line in one segment, and cut behind its first byte. -/
def trackWhole : Cutting trackLine.text :=
  cutAround [] trackLine.text [] (by decide) (by decide) (by rfl)

def trackSplit : Cutting trackLine.text where
  netbufs := [[[80]], [trackLine.rest]]
  ne_nil := by decide
  totLen := by decide
  flatten_eq := by rfl

/-- The antenna is sent to 0/0 instead of 90/45. -/
theorem api_position_split :
    trackLine.text = ascii "P 90.00 45.00\n"
      ∧ serverServe exactApi trackWhole.netbufs = [.setPosition 90 45]
      ∧ serverServe exactApi trackSplit.netbufs = [.setPosition 0 0]
      ∧ ¬ SegmentationFree exactApi trackLine.text
      ∧ ∀ slow, (afterCommands slow (serverServe exactApi trackWhole.netbufs)).ctrl.azTgtPos = 16383
        ∧ (afterCommands slow (serverServe exactApi trackSplit.netbufs)).ctrl.azTgtPos = 0 := by
  have hwhole : serverServe exactApi trackWhole.netbufs = [.setPosition 90 45] := by
    decide +kernel
  have hsplit : serverServe exactApi trackSplit.netbufs = [.setPosition 0 0] := by
    decide +kernel
  refine ⟨by decide, hwhole, hsplit, ?_, ?_⟩
  · intro h
    have heq := h trackWhole trackSplit
    rw [hwhole, hsplit] at heq
    exact absurd heq (by decide)
  · rw [hwhole, hsplit]
    decide +kernel

end Seatel
