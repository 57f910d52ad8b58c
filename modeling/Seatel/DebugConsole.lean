import Mathlib.Data.List.DropRight
import Seatel.ApiRoundTrip
import Seatel.Chprintf
import Seatel.DebugMessages
import Seatel.Pointing
import Seatel.Vars

/-!
# The debug console of the page

A message of the control or the OCXO thread goes through a buffer of 128 or
64 bytes into the bucket, from there as the body of a reply to the page, and
the script cuts the white space off at both ends and puts line breaks into
the HTML of `#debug`.

None of this damages a line. The message of the control thread has at most
127 bytes, whatever the seven numbers are, so that it just fits; a message
starts with `[` and ends in a single line feed, and it has no character that
HTML reads as markup (`LogLine`). What the console shows is therefore one
line for each message of a reply that has arrived (`debug_console_lines`),
as long as the calls in `debug.c` do not disturb each other.
-/

namespace Seatel

open CString Numerals Runs

variable {φ : Type}

/-! ## The messages -/

/-- `ms/1000.0`, `x/182.044` in `float` and the difference of two of them. -/
structure LogEnv (φ : Type) where
  seconds : UInt32 → φ
  degrees : Int → φ
  sub : φ → φ → φ

def ctrlLogFormat : List UInt8 :=
  ascii "[%.3f] tgt=(%.2f,%.2f) pos=(%.2f,%.2f) diff=(%.2f,%.2f)\n"

/-- What the control thread prints in every fiftieth iteration, from `buf[128]`. -/
def ctrlLog (conv : FloatConv φ) (env : LogEnv φ) (v : Vars) : List UInt8 :=
  let ms := timeI2Ms (chVTGetSystemTimeX v)
  let az := env.degrees (apiAzCount v)
  let el := env.degrees v.imu.elPos.toInt
  let tgtAz := env.degrees v.ctrl.azTgtPos.toNat
  let tgtEl := env.degrees v.ctrl.elTgtPos.toInt
  (chprintf conv ctrlLogFormat [.f (env.seconds ms), .f tgtAz, .f tgtEl, .f az, .f el,
    .f (env.sub az tgtAz), .f (env.sub el tgtEl)]).take 127

def ocxoLogFormat : List UInt8 := ascii "[%.3f] cntr=%d\n"

/-- What the OCXO thread prints with a correction, from `buf[64]`. -/
def ocxoLog (conv : FloatConv φ) (env : LogEnv φ) (now : SysTime) (outOcxoCntr : Int32) :
    List UInt8 :=
  (chprintf conv ocxoLogFormat [.f (env.seconds (timeI2Ms now)), .d outOcxoCntr]).take 63

/-! ## Lines -/

/-- Neither the end of a string or a line nor the start of a tag or an entity. -/
def PlainByte (b : UInt8) : Prop := b ≠ 0 ∧ b ≠ 10 ∧ b ≠ 38 ∧ b ≠ 60

instance (b : UInt8) : Decidable (PlainByte b) :=
  inferInstanceAs (Decidable (b ≠ 0 ∧ b ≠ 10 ∧ b ≠ 38 ∧ b ≠ 60))

/-- A line of the log without its line feed. -/
structure LogLine where
  body : List UInt8
  first : ∃ bs, body = 91 :: bs
  last : ∃ bs b, body = bs ++ [b] ∧ isSpace b = false
  plain : ∀ b ∈ body, PlainByte b

namespace LogLine

/-- As it is printed. -/
def bytes (l : LogLine) : List UInt8 := l.body ++ [10]

/-- As it is shown. -/
def html (l : LogLine) : List UInt8 := l.body ++ ascii "<br />"

end LogLine

/-- The conversions of a message. -/
def Conv.Plain : Conv → Prop
  | .byte b => PlainByte b
  | .s => False
  | _ => True

instance (c : Conv) : Decidable c.Plain :=
  match c with
  | .byte b => inferInstanceAs (Decidable (PlainByte b))
  | .d => .isTrue trivial
  | .s => .isFalse id
  | .f _ => .isTrue trivial

theorem literal_plain (l : Json.Literal) : ∀ b ∈ l.text, PlainByte b := by
  have hdigits : ∀ ds : List (Fin 10), ∀ b ∈ ds.map digitByte, PlainByte b := by
    intro ds b hb
    obtain ⟨d, -, rfl⟩ := List.mem_map.mp hb
    clear hb
    revert d
    decide
  rw [Json.Literal.text, Json.Literal.body]
  refine List.forall_mem_append.mpr ⟨?_, List.forall_mem_append.mpr ⟨hdigits _, ?_⟩⟩
  · split
    · exact List.forall_mem_singleton.mpr (by decide)
    · exact List.forall_mem_nil _
  · split
    · exact List.forall_mem_nil _
    · exact List.forall_mem_cons.mpr ⟨by decide, hdigits _⟩

/-- A number ends in a digit. -/
theorem literal_last (l : Json.Literal) : ∃ bs d, l.text = bs ++ [digitByte d] := by
  have hmap : ∀ ds : List (Fin 10), ds ≠ [] →
      ∃ bs d, ds.map digitByte = bs ++ [digitByte d] := by
    intro ds hne
    refine ⟨ds.dropLast.map digitByte, ds.getLast hne, ?_⟩
    rw [← List.map_singleton, ← List.map_append, List.dropLast_append_getLast hne]
  rw [Json.Literal.text, Json.Literal.body]
  by_cases hfrac : l.frac = []
  · obtain ⟨bs, d, hbs⟩ := hmap l.whole l.whole_ne
    rw [if_pos hfrac, List.append_nil, hbs]
    exact ⟨_ ++ bs, d, (List.append_assoc _ _ _).symm⟩
  · obtain ⟨bs, d, hbs⟩ := hmap l.frac hfrac
    rw [if_neg hfrac, hbs]
    exact ⟨(if l.neg then [45] else []) ++ (l.whole.map digitByte ++ 46 :: bs), d, by simp⟩

/-- All bytes of the output come from the format or from a number. -/
theorem fill_plain (conv : FloatConv φ) {cs : List Conv} (args : List (PrintArg φ))
    (hcs : ∀ c ∈ cs, c.Plain) : ∀ b ∈ fill conv cs args [], PlainByte b := by
  generalize hrest : ([] : List UInt8) = rest
  fun_induction fill conv cs args rest with
  | case1 b cs args rest ih =>
      obtain ⟨hb, hcs⟩ := List.forall_mem_cons.mp hcs
      exact List.forall_mem_cons.mpr ⟨hb, ih hcs hrest⟩
  | case2 cs x args rest ih =>
      exact List.forall_mem_append.mpr
        ⟨literal_plain _, ih (List.forall_mem_cons.mp hcs).2 hrest⟩
  | case3 cs t args rest ih => exact (hcs .s List.mem_cons_self).elim
  | case4 p cs x args rest ih =>
      exact List.forall_mem_append.mpr
        ⟨literal_plain _, ih (List.forall_mem_cons.mp hcs).2 hrest⟩
  | case5 cs args rest h₁ h₂ h₃ h₄ =>
      subst hrest
      exact List.forall_mem_nil _

/-- The arguments are those that the conversions take. -/
def Fits : List Conv → List (PrintArg φ) → Prop
  | .byte _ :: cs, args => Fits cs args
  | .d :: cs, .d _ :: args => Fits cs args
  | .s :: cs, .s _ :: args => Fits cs args
  | .f _ :: cs, .f _ :: args => Fits cs args
  | [], [] => True
  | _, _ => False

theorem fill_append_convs (conv : FloatConv φ) {cs : List Conv} {args : List (PrintArg φ)}
    (h : Fits cs args) (cs' : List Conv) (args' : List (PrintArg φ)) :
    fill conv (cs ++ cs') (args ++ args') [] = fill conv cs args [] ++ fill conv cs' args' [] := by
  fun_induction Fits cs args with
  | case1 b cs args ih => simp only [List.cons_append, fill, ih h]
  | case2 cs x args ih => simp only [List.cons_append, fill, ih h, List.append_assoc]
  | case3 cs t args ih => simp only [List.cons_append, fill, ih h, List.append_assoc]
  | case4 p cs x args ih => simp only [List.cons_append, fill, ih h, List.append_assoc]
  | case5 => rw [fill.eq_5 conv [] [] []] <;> simp
  | case6 => exact h.elim

/-- A format that starts with `[` and ends in a line feed gives a whole line, when its longest
output fits into the buffer. -/
theorem chprintf_line (conv : FloatConv φ) {fmt : List UInt8} {cs : List Conv}
    {args : List (PrintArg φ)} {size : Nat}
    (hfmt : parseFormat .text fmt = .byte 91 :: (cs ++ [.byte 10])) (hfits : Fits cs args)
    (hcs : ∀ c ∈ cs, c.Plain) (hroom : (cs.map (Conv.room 0)).sum + 2 ≤ size)
    (hs : ∀ t, PrintArg.s t ∉ args)
    (hlast : ∃ bs b, fill conv cs args [] = bs ++ [b] ∧ isSpace b = false) :
    ∃ l : LogLine, (chprintf conv fmt args).take size = l.bytes := by
  have htext : chprintf conv fmt args = 91 :: (fill conv cs args [] ++ [10]) := by
    have happ := fill_append_convs conv hfits [.byte 10] []
    rw [List.append_nil] at happ
    rw [chprintf, hfmt, fill, happ]
    rfl
  have hlen := length_fill_le conv (n := 0) cs args [] fun t ht => absurd ht (hs t)
  rw [List.length_nil] at hlen
  obtain ⟨bs, b, hbs, hspace⟩ := hlast
  refine ⟨⟨91 :: fill conv cs args [], ⟨_, rfl⟩, ⟨91 :: bs, b, by rw [hbs]; rfl, hspace⟩, ?_⟩, ?_⟩
  · exact List.forall_mem_cons.mpr ⟨by decide, fill_plain conv args hcs⟩
  · rw [htext, List.take_of_length_le]
    · rfl
    · simp only [List.length_cons, List.length_append, List.length_nil]
      omega

/-- The format between its first and its last bracket. -/
def ctrlLogMiddle : List Conv :=
  parseFormat .text (ascii "%.3f] tgt=(%.2f,%.2f) pos=(%.2f,%.2f) diff=(%.2f,%.2f")

/-- The message of the control thread is a whole line: with the longest numbers it has 127
bytes. -/
theorem ctrlLog_line (conv : FloatConv φ) (env : LogEnv φ) (v : Vars) :
    ∃ l : LogLine, ctrlLog conv env v = l.bytes := by
  have hall : ∀ t a b c d e f : φ, ∃ l : LogLine,
      (chprintf conv ctrlLogFormat [.f t, .f a, .f b, .f c, .f d, .f e, .f f]).take 127
        = l.bytes := by
    intro t a b c d e f
    have hmiddle : Fits ctrlLogMiddle [.f t, .f a, .f b, .f c, .f d, .f e, .f f] := trivial
    have hfits : Fits (ctrlLogMiddle ++ [.byte 41]) [.f t, .f a, .f b, .f c, .f d, .f e, .f f] :=
      trivial
    have happ := fill_append_convs conv hmiddle [.byte 41] []
    exact chprintf_line conv (by decide +kernel) hfits (by decide +kernel) (by decide +kernel)
      (by simp) ⟨_, 41, happ, by decide⟩
  exact hall _ _ _ _ _ _ _

def ocxoLogMiddle : List Conv := parseFormat .text (ascii "%.3f] cntr=")

theorem ocxoLog_line (conv : FloatConv φ) (env : LogEnv φ) (now : SysTime) (cntr : Int32) :
    ∃ l : LogLine, ocxoLog conv env now cntr = l.bytes := by
  have hmiddle : Fits ocxoLogMiddle [.f (env.seconds (timeI2Ms now))] := trivial
  have hfits : Fits (ocxoLogMiddle ++ [.d]) [.f (env.seconds (timeI2Ms now)), .d cntr] := trivial
  obtain ⟨bs, d, hlast⟩ := literal_last (dLiteral cntr)
  have hfill : fill conv [.d] [.d cntr] [] = bs ++ [digitByte d] := by
    rw [← hlast]
    exact List.append_nil _
  have happ := fill_append_convs conv hmiddle [.d] [.d cntr]
  rw [hfill, ← List.append_assoc] at happ
  exact chprintf_line conv (by decide +kernel) hfits (by decide +kernel) (by decide +kernel)
    (by simp) ⟨_, _, happ, (digitByte_spec d).2.2.1⟩

/-! ## The reply and the page -/

/-- `HTTP_PRINT` and `HTTP_PRINT_COPY`. -/
def httpPrint (str : List UInt8) : List UInt8 := str ++ [10]

/-- `print_debug`. -/
def printDebug (str : List UInt8) : List UInt8 :=
  httpPrint (ascii "HTTP/1.1 200 OK\r\nContent-type: text/plain\r\n") ++ httpPrint str

/-- The body of a response: what is behind the first empty line, where a line ends in CR LF or
in LF alone. -/
def httpBody : List UInt8 → Option (List UInt8)
  | [] => none
  | 10 :: 10 :: rest => some rest
  | 10 :: 13 :: 10 :: rest => some rest
  | _ :: rest => httpBody rest

/-- `data.trim()`. -/
def jsTrim (data : List UInt8) : List UInt8 := (data.dropWhile isSpace).rdropWhile isSpace

/-- `data.replaceAll("\n","<br />")`. -/
def breakLines (data : List UInt8) : List UInt8 :=
  data.flatMap fun b => if b = 10 then ascii "<br />" else [b]

/-- `success` of the debug request, on the HTML of `#debug`. -/
def debSuccess (html response : List UInt8) : List UInt8 :=
  match httpBody response with
  | none => html
  | some data =>
      if jsTrim data = [] then html else html ++ breakLines (jsTrim data) ++ ascii "<br />"

theorem httpBody_printDebug (str : List UInt8) :
    httpBody (printDebug str) = some (str ++ [10]) := by
  rfl

theorem breakLines_body (l : LogLine) : breakLines l.body = l.body := by
  have hbytes : ∀ b ∈ l.body, (if b = 10 then ascii "<br />" else [b]) = [b] :=
    fun b hb => if_neg (l.plain b hb).2.1
  rw [breakLines, List.flatMap_congr hbytes, List.flatMap_singleton']

theorem breakLines_bytes (l : LogLine) : breakLines l.bytes = l.html := by
  rw [LogLine.bytes, breakLines, List.flatMap_append, ← breakLines, breakLines_body]
  rfl

/-- Lines are cut off at the right end only. -/
theorem jsTrim_lines (ls : List LogLine) (l : LogLine) :
    jsTrim ((ls ++ [l]).flatMap LogLine.bytes ++ [10]) = ls.flatMap LogLine.bytes ++ l.body := by
  have hhead : ∃ bs, (ls ++ [l]).flatMap LogLine.bytes = 91 :: bs := by
    cases ls with
    | nil =>
        obtain ⟨bs, hbs⟩ := l.first
        exact ⟨bs ++ [10], by simp [LogLine.bytes, hbs]⟩
    | cons l' ls =>
        obtain ⟨bs, hbs⟩ := l'.first
        exact ⟨bs ++ [10] ++ (ls ++ [l]).flatMap LogLine.bytes, by simp [LogLine.bytes, hbs]⟩
  obtain ⟨hd, hhd⟩ := hhead
  obtain ⟨bs, b, hbs, hspace⟩ := l.last
  have hleft : ((ls ++ [l]).flatMap LogLine.bytes ++ [10]).dropWhile isSpace
      = ls.flatMap LogLine.bytes ++ bs ++ [b] ++ [10] ++ [10] := by
    have htext : (ls ++ [l]).flatMap LogLine.bytes ++ [10]
        = ls.flatMap LogLine.bytes ++ bs ++ [b] ++ [10] ++ [10] := by
      simp [LogLine.bytes, hbs]
    rw [← htext, hhd, List.cons_append, List.dropWhile_cons_of_neg (by decide)]
  rw [jsTrim, hleft, List.rdropWhile_concat_pos _ _ _ (by decide),
    List.rdropWhile_concat_pos _ _ _ (by decide),
    List.rdropWhile_concat_neg _ _ _ (by simp [hspace]), hbs, List.append_assoc]

/-- A reply with whole lines adds these lines. -/
theorem debSuccess_lines (html : List UInt8) (ls : List LogLine) :
    debSuccess html (printDebug (ls.flatMap LogLine.bytes)) = html ++ ls.flatMap LogLine.html := by
  rw [debSuccess, httpBody_printDebug]
  rcases List.eq_nil_or_concat ls with rfl | ⟨ls, l, rfl⟩
  · simp [jsTrim, isSpace]
  · obtain ⟨bs, hbs⟩ := l.first
    have hne : ls.flatMap LogLine.bytes ++ l.body ≠ [] := by
      rw [hbs]
      simp
    have hlines : breakLines (ls.flatMap LogLine.bytes) = ls.flatMap LogLine.html := by
      rw [breakLines, List.flatMap_assoc]
      exact List.flatMap_congr fun l' _ => breakLines_bytes l'
    rw [List.concat_eq_append]
    simp only [jsTrim_lines, if_neg hne]
    rw [breakLines, List.flatMap_append, ← breakLines, ← breakLines, hlines, breakLines_body,
      List.flatMap_append, List.append_assoc, List.append_assoc]
    simp [LogLine.html]

/-! ## The console -/

/-- The bucket, `#debug`, and the replies that have been sent, each with whether it has
arrived. -/
structure Console where
  bucket : Bucket
  html : List UInt8
  replies : List (List UInt8 × Bool)

def Console.boot : Console := ⟨Bucket.boot, [], []⟩

/-- A step of the calls. With `bucket[0] = 0` a drain is through; whether the page gets its
reply goes with the step. -/
def consoleNext (s : Console) (a : BucketAct × Bool) : Console :=
  match a.1, s.bucket.drain with
  | .clear, some ret =>
      { bucket := bucketNext s.bucket .clear
        html := if a.2 then debSuccess s.html (printDebug ret) else s.html
        replies := s.replies ++ [(printDebug ret, a.2)] }
  | _, _ => { s with bucket := bucketNext s.bucket a.1 }

/-- The threads print nothing but their messages. -/
def Logs (conv : FloatConv φ) (env : LogEnv φ) : BucketAct → Prop
  | .strlen .ctrl msg => ∃ v, msg.bytes = ctrlLog conv env v
  | .strlen .ocxo msg => ∃ now cntr, msg.bytes = ocxoLog conv env now cntr
  | _ => True

theorem Logs.line {conv : FloatConv φ} {env : LogEnv φ} {p : Printer} {msg : Msg}
    (h : Logs conv env (.strlen p msg)) : ∃ l : LogLine, msg.bytes = l.bytes := by
  cases p with
  | ctrl =>
      obtain ⟨v, hv⟩ := h
      rw [hv]
      exact ctrlLog_line conv env v
  | ocxo =>
      obtain ⟨now, cntr, hmsg⟩ := h
      rw [hmsg]
      exact ocxoLog_line conv env now cntr

/-- A reply with the lines of a group. -/
def replyOf (group : List LogLine × Bool) : List UInt8 × Bool :=
  (printDebug (group.1.flatMap LogLine.bytes), group.2)

/-- The accepted messages are those of the replies and those in the bucket, and the console
shows the ones that have arrived. -/
structure ConsoleInv (s : Console) (groups : List (List LogLine × Bool)) (rest : List LogLine) :
    Prop where
  bucket : BucketInv s.bucket (rest.flatMap LogLine.bytes)
  accepted : s.bucket.accepted = (groups.flatMap Prod.fst ++ rest).map LogLine.bytes
  prints : ∀ p msg used, s.bucket.print p = some (msg, used) → ∃ l : LogLine, msg.bytes = l.bytes
  html : s.html = ((groups.filter Prod.snd).flatMap Prod.fst).flatMap LogLine.html
  replies : s.replies = groups.map replyOf

/-- A step that drains nothing leaves the page alone. -/
theorem consoleNext_page {s : Console} (a : BucketAct) (got : Bool)
    (h : a = .clear → s.bucket.drain = none) :
    consoleNext s (a, got) = { s with bucket := bucketNext s.bucket a } := by
  cases a with
  | clear =>
      have hnone := h rfl
      simp only [consoleNext, hnone]
  | _ => rfl

variable {s : Console} {groups : List (List LogLine × Bool)} {rest : List LogLine}

/-- A call that is entered with a line, or left, leaves all calls with lines. -/
theorem ConsoleInv.prints_update (h : ConsoleInv s groups rest) (p : Printer)
    {c : Option (Msg × Nat)}
    (hc : ∀ msg used, c = some (msg, used) → ∃ l : LogLine, msg.bytes = l.bytes)
    (q : Printer) (msg : Msg) (used : Nat)
    (hq : Function.update s.bucket.print p c q = some (msg, used)) :
    ∃ l : LogLine, msg.bytes = l.bytes := by
  by_cases hqp : q = p
  · rw [hqp, Function.update_self] at hq
    exact hc msg used hq
  · rw [Function.update_of_ne hqp] at hq
    exact h.prints q msg used hq

theorem consoleInv_strlen (h : ConsoleInv s groups rest) {p : Printer} {msg : Msg}
    (hmsg : ∃ l : LogLine, msg.bytes = l.bytes) (got : Bool) :
    ConsoleInv (consoleNext s (.strlen p msg, got)) groups rest := by
  rw [consoleNext_page (.strlen p msg) got (by simp)]
  refine ⟨bucketInv_strlen h.bucket p msg, ?_, ?_, h.html, h.replies⟩
  · rw [← h.accepted]
    simp only [bucketNext]
    cases s.bucket.print p <;> rfl
  · intro q msg' used' hq
    simp only [bucketNext] at hq
    cases hp : s.bucket.print p with
    | some c =>
        rw [hp] at hq
        exact h.prints q msg' used' hq
    | none =>
        rw [hp] at hq
        refine h.prints_update p (fun msg₀ used₀ h₀ => ?_) q msg' used' hq
        obtain ⟨rfl, -⟩ := Prod.mk.inj (Option.some.inj h₀)
        exact hmsg

theorem consoleInv_strcpy (h : ConsoleInv s groups rest) (got : Bool) :
    ConsoleInv (consoleNext s (.strcpy, got)) groups rest := by
  rw [consoleNext_page .strcpy got (by simp)]
  have hkeep : (bucketNext s.bucket .strcpy).accepted = s.bucket.accepted
      ∧ (bucketNext s.bucket .strcpy).print = s.bucket.print := by
    simp only [bucketNext]
    cases s.bucket.drain <;> exact ⟨rfl, rfl⟩
  refine ⟨bucketInv_strcpy h.bucket, hkeep.1.trans h.accepted, ?_, h.html, h.replies⟩
  dsimp only
  rw [hkeep.2]
  exact h.prints

/-- What the text becomes is determined by what is accepted and drained. -/
theorem BucketInv.eq_append {b b' : Bucket} {t t' msg : List UInt8} (h : BucketInv b t)
    (h' : BucketInv b' t') (hdrained : b'.drained = b.drained)
    (haccepted : b'.accepted.flatten = b.accepted.flatten ++ msg) : t' = t ++ msg := by
  have hflat := h'.flatten
  rw [hdrained, haccepted, ← h.flatten, List.append_assoc] at hflat
  exact List.append_cancel_left hflat

theorem consoleInv_memcpy (h : ConsoleInv s groups rest) {p : Printer}
    (hno : ¬ Interferes s.bucket (.memcpy p)) (got : Bool) :
    ∃ rest', ConsoleInv (consoleNext s (.memcpy p, got)) groups rest' := by
  rw [consoleNext_page (.memcpy p) got (by simp)]
  obtain ⟨t', ht'⟩ := bucketInv_memcpy h.bucket hno
  cases hp : s.bucket.print p with
  | none =>
      have hsame : bucketNext s.bucket (.memcpy p) = s.bucket := by
        simp only [bucketNext, hp]
      rw [hsame]
      exact ⟨rest, h⟩
  | some c =>
      obtain ⟨msg, used⟩ := c
      obtain ⟨l, hl⟩ := h.prints p msg used hp
      have hprints := h.prints_update p (c := none) (by simp)
      cases hfits : msg.fits used with
      | true =>
          -- one line more
          have hstep : bucketNext s.bucket (.memcpy p)
              = { s.bucket with
                  print := Function.update s.bucket.print p none
                  mem := CString.memcpy s.bucket.mem used msg.object
                  accepted := s.bucket.accepted ++ [msg.bytes] } := by
            simp only [bucketNext, hp, hfits, if_true]
          rw [hstep] at ht' ⊢
          have htext := h.bucket.eq_append ht' rfl List.flatten_concat
          refine ⟨rest ++ [l], ?_, ?_, hprints, h.html, h.replies⟩
          · rw [List.flatMap_append, List.flatMap_singleton, ← hl, ← htext]
            exact ht'
          · simp only [h.accepted, hl, List.map_append, List.map_cons, List.map_nil,
              List.append_assoc]
      | false =>
          have hstep : bucketNext s.bucket (.memcpy p)
              = { s.bucket with print := Function.update s.bucket.print p none } := by
            simp only [bucketNext, hp, hfits, Bool.false_eq_true, if_false]
          rw [hstep] at ht' ⊢
          have htext := h.bucket.eq_append ht' rfl (List.append_nil _).symm
          refine ⟨rest, ?_, h.accepted, hprints, h.html, h.replies⟩
          rw [← List.append_nil (rest.flatMap _), ← htext]
          exact ht'

theorem consoleInv_clear (h : ConsoleInv s groups rest) (hno : ¬ Interferes s.bucket .clear)
    (got : Bool) :
    ∃ groups' rest', ConsoleInv (consoleNext s (.clear, got)) groups' rest' := by
  obtain ⟨t', ht'⟩ := bucketInv_clear h.bucket hno
  cases hd : s.bucket.drain with
  | none =>
      have hsame : consoleNext s (.clear, got) = s := by
        rw [consoleNext_page .clear got fun _ => hd]
        simp only [bucketNext, hd]
      rw [hsame]
      exact ⟨groups, rest, h⟩
  | some ret =>
      -- the whole bucket goes into the reply
      obtain rfl := h.bucket.drain ret hd
      have hstep : consoleNext s (.clear, got)
          = { bucket := bucketNext s.bucket .clear
              html := if got then debSuccess s.html (printDebug (rest.flatMap LogLine.bytes))
                else s.html
              replies := s.replies ++ [replyOf (rest, got)] } := by
        simp only [consoleNext, hd, replyOf]
      have hbucket : bucketNext s.bucket .clear
          = { s.bucket with
              mem := Function.update s.bucket.mem 0 0
              drain := none
              drained := s.bucket.drained ++ rest.flatMap LogLine.bytes } := by
        simp only [bucketNext, hd]
      have hnil : t' = [] := by
        have hflat := ht'.flatten
        rw [hbucket] at hflat
        dsimp only at hflat
        rw [← h.bucket.flatten] at hflat
        exact List.append_right_eq_self.mp hflat
      subst hnil
      refine ⟨groups ++ [(rest, got)], [], ?_, ?_, ?_, ?_, ?_⟩
      · rw [hstep]
        exact ht'
      · rw [hstep, hbucket, List.flatMap_append, List.flatMap_singleton, List.append_nil]
        exact h.accepted
      · rw [hstep, hbucket]
        exact h.prints
      · rw [hstep, List.filter_append, List.flatMap_append, List.flatMap_append, ← h.html]
        cases got with
        | true => simpa using debSuccess_lines s.html rest
        | false => simp
      · rw [hstep, List.map_append, ← h.replies]
        rfl

/-- In every run in which the threads print their messages and no call disturbs another one,
the replies hold the accepted messages as whole lines, in order and each in one reply, up to
those that are still in the bucket; and the console shows the lines of the replies that have
arrived, one after the other, and nothing else. -/
theorem debug_console_lines (conv : FloatConv φ) (env : LogEnv φ) (as : List (BucketAct × Bool))
    (hrun : Along consoleNext (fun s a => ¬ Interferes s.bucket a.1 ∧ Logs conv env a.1)
      Console.boot as) :
    ∃ (groups : List (List LogLine × Bool)) (rest : List LogLine),
      (run consoleNext Console.boot as).bucket.accepted
        = (groups.flatMap Prod.fst ++ rest).map LogLine.bytes
      ∧ (run consoleNext Console.boot as).replies = groups.map replyOf
      ∧ (run consoleNext Console.boot as).html
        = ((groups.filter Prod.snd).flatMap Prod.fst).flatMap LogLine.html
      ∧ bucketText (run consoleNext Console.boot as).bucket.mem
        = rest.flatMap LogLine.bytes := by
  have hstep : ∀ (s : Console) (a : BucketAct × Bool), (∃ groups rest, ConsoleInv s groups rest) →
      ¬ Interferes s.bucket a.1 ∧ Logs conv env a.1 →
      ∃ groups rest, ConsoleInv (consoleNext s a) groups rest := by
    rintro s ⟨a, got⟩ ⟨groups, rest, h⟩ ⟨hno, hlogs⟩
    cases a with
    | strlen p msg => exact ⟨groups, rest, consoleInv_strlen h hlogs.line got⟩
    | memcpy p => exact ⟨groups, consoleInv_memcpy h hno got⟩
    | strcpy => exact ⟨groups, rest, consoleInv_strcpy h got⟩
    | clear => exact consoleInv_clear h hno got
  have hboot : ConsoleInv Console.boot [] [] :=
    ⟨bucketInv_boot, rfl, fun p msg used h => (nomatch h), rfl, rfl⟩
  obtain ⟨groups, rest, h⟩ := run_invariant hstep ⟨[], [], hboot⟩ hrun
  exact ⟨groups, rest, h.accepted, h.replies, h.html, h.bucket.text_eq⟩

/-- The numbers of the messages without rounding. -/
def LogEnv.exact : LogEnv ℚ where
  seconds ms := ms.toNat / 1000
  degrees x := x / (182044 / 1000)
  sub x y := x - y

/-- The message of a correction after one second. -/
def cntrMsg : Msg :=
  ⟨ocxoLog floatConv LogEnv.exact 100000 20000005, by decide +kernel, by decide +kernel⟩

/-- Its way to the page. -/
def cntrRun : List (BucketAct × Bool) :=
  [(.strlen .ocxo cntrMsg, true), (.memcpy .ocxo, true), (.strcpy, true), (.clear, true)]

theorem debug_console_lines_one :
    ∃ (groups : List (List LogLine × Bool)) (rest : List LogLine),
      (run consoleNext Console.boot cntrRun).bucket.accepted
        = (groups.flatMap Prod.fst ++ rest).map LogLine.bytes
      ∧ (run consoleNext Console.boot cntrRun).replies = groups.map replyOf
      ∧ (run consoleNext Console.boot cntrRun).html
        = ((groups.filter Prod.snd).flatMap Prod.fst).flatMap LogLine.html
      ∧ bucketText (run consoleNext Console.boot cntrRun).bucket.mem
        = rest.flatMap LogLine.bytes := by
  have hprint : ∀ q, q ≠ Printer.ocxo →
      (run consoleNext Console.boot (cntrRun.take 1)).bucket.print q = none := by
    intro q hq
    cases q with
    | ctrl => rfl
    | ocxo => exact absurd rfl hq
  have hidle : ∀ q, (run consoleNext Console.boot (cntrRun.take 3)).bucket.print q = none := by
    intro q
    cases q <;> decide +kernel
  have hclear : ¬ Interferes (run consoleNext Console.boot (cntrRun.take 3)).bucket .clear := by
    rintro ⟨ret, -, -, q, msg, used, hq, -⟩
    rw [hidle q] at hq
    cases hq
  exact debug_console_lines floatConv LogEnv.exact _ ⟨⟨id, 100000, 20000005, rfl⟩,
    ⟨not_interferes_of_alone hprint rfl, trivial⟩, ⟨id, trivial⟩, ⟨hclear, trivial⟩, trivial⟩

example : (run consoleNext Console.boot cntrRun).html = ascii "[1.000] cntr=20000005<br />" := by
  decide +kernel

end Seatel
