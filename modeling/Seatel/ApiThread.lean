import Seatel.ServerPools

/-!
# The API thread serves sessions

`ApiSession` lists what happens on one connection. Here the thread itself
does it, one call into the stack after the other, with its netbuf in a pool
that it shares with the HTTP thread and the position in the chain kept by
`netbuf_next`: whatever the other thread and the stack do in between, the
thread does what the sessions it has been handed say, in order
(`api_thread_sessions`).

The thread answers what the stack hands it. `owed` is the part of the answer
that is still to come when it is in the middle of one, and a step pays from
it or goes on to the next answer (`apiCall_pays`).
-/

namespace Seatel

open Pools Runs

variable {φ : Type} (env : ApiEnv φ)

def ServersEvent.api? : ServersEvent φ → Option (ApiEvent φ)
  | .api e => some e
  | _ => none

def ServersEvent.input? : ServersEvent φ → Option ServerInput
  | .input .api i => some i
  | _ => none

/-- What the API thread does in a step. -/
def apiObs (s : Servers) (a : ServersAct) : List (ApiEvent φ) :=
  (serversStep env s a).2.filterMap ServersEvent.api?

/-- What it is handed in a step. -/
def apiIns (s : Servers) (a : ServersAct) : List ServerInput :=
  (serversStep env s a).2.filterMap ServersEvent.input?

/-- What the thread does with what it is handed. -/
def apiAnswer : ServerInput → List (ApiEvent φ)
  | .accepted => [.connected true, .recv]
  | .netbuf fragments => handleNetbuf env fragments ++ [.recv]
  | .failed => [.close, .connected false]

/-- What the thread is still to do before it asks the stack for more. -/
def owed (s : Servers) : List (ApiEvent φ) :=
  match s.pc .api with
  | .data _ inbuf =>
      ((s.netbufs inbuf).ptr.elim [] fun p => handleNetbuf env p.fragments) ++ [.recv]
  | .next _ inbuf => ((s.netbufs inbuf).ptr.elim [] fun p => handleNetbuf env p.next) ++ [.recv]
  | .drop _ _ => [.recv]
  | .close _ _ => [.close, .connected false]
  | .delete _ _ => [.connected false]
  | _ => []

/-- The thread waits for the stack: for a connection, or for something on the one it has. -/
def ServerPc.waiting : ServerPc → Bool
  | .accept | .recv _ | .wait _ _ => true
  | _ => false

theorem owed_waiting {s : Servers} (h : (s.pc .api).waiting = true) : owed env s = [] := by
  rw [owed]
  cases hpc : s.pc .api with
  | accept => rfl
  | recv conn => rfl
  | wait conn buf => rfl
  | _ => simp only [ServerPc.waiting, hpc, Bool.false_eq_true] at h

/-! ## The other thread -/

section Frame

variable {s : Servers}

theorem owed_congr {s' : Servers} (hpc : s'.pc .api = s.pc .api)
    (hbufs : ∀ buf, (s.pc .api).filled = some buf → s'.netbufs buf = s.netbufs buf) :
    owed env s' = owed env s := by
  rw [owed, owed, hpc]
  split <;> first | rfl | skip
  all_goals
    next h =>
      rw [hbufs _ (by rw [h]; rfl)]

end Frame

/-! ## One call of the API thread -/

section Call

variable {s : Servers}

/-- A call of the API thread pays what is owed, or adds the answer to what it is handed. -/
theorem apiCall_pays (hs : Sound s) (ans : Answer) :
    owed env s ++ ((serverCall env .api ans s).2.filterMap ServersEvent.input?).flatMap
        (apiAnswer env)
      = (serverCall env .api ans s).2.filterMap ServersEvent.api?
        ++ owed env (serverCall env .api ans s).1 := by
  rcases hpc : s.pc .api with _ | conn | ⟨conn, buf⟩ | ⟨conn, buf⟩ | ⟨conn, buf⟩ | ⟨conn, buf⟩
    | ⟨conn, inbuf⟩ | ⟨conn, inbuf⟩ | conn <;> simp only [serverCall, hpc, owed, List.nil_append]
  · cases ans with
    | fails =>
        simp [netconnAccept, hpc, List.filterMap_cons, ServersEvent.input?, ServersEvent.api?]
    | done p =>
        rcases hbox : s.acceptmbox .api with _ | ⟨_ | conn, rest⟩ <;>
          simp only [netconnAccept, hbox]
        · simp [hpc, List.filterMap_cons, ServersEvent.input?, ServersEvent.api?]
        · simp [hpc, List.filterMap_cons, ServersEvent.input?, ServersEvent.api?]
        · rfl
  · have hnone : (s.pc .api).netbuf = none := by
      rw [hpc]
      rfl
    obtain ⟨buf, rest, htab⟩ := hs.exists_netbuf hnone
    simp only [netconnRecv, htab]
    rfl
  · cases ans with
    | fails => rfl
    | done p =>
        change (handleNetbuf env p.fragments ++ [.recv]) ++ [] = _
        simp [netconnRecvData, Servers.goto, List.filterMap_cons, ServersEvent.api?]
  · -- a fragment is handled, and the rest of the chain is owed unless it is a quit
    obtain ⟨p, hp⟩ := Option.isSome_iff_exists.mp (hs.filled .api buf (by rw [hpc]; rfl)).2
    simp only [netbufData, hp, Option.elim]
    rw [Pbuf.fragments, handleNetbuf]
    split
    · simp [goto_self, List.filterMap_cons, ServersEvent.input?, ServersEvent.api?]
    · simp [Servers.goto, hp, List.filterMap_cons, ServersEvent.input?, ServersEvent.api?]
  · rcases hnb : s.netbufs buf with ⟨p, _ | ⟨payload, _ | ⟨payload', next⟩⟩⟩
    · have hptr := (hs.filled .api buf (by rw [hpc]; rfl)).2
      rw [hnb] at hptr
      cases hptr
    · simp [netbufNext, hnb, goto_self, handleNetbuf, List.filterMap_cons, ServersEvent.input?,
        ServersEvent.api?]
    · simp [netbufNext, hnb, Servers.goto, Pbuf.fragments, List.filterMap_cons,
        ServersEvent.input?, ServersEvent.api?]
  · simp only [dropNetbuf, netbufDelete]
    split <;> rfl
  · rfl
  · cases inbuf with
    | none => rfl
    | some buf =>
        simp only [leave, netbufDelete]
        split <;> rfl
  · cases ans <;>
      simp [netconnDelete, goto_self, List.filterMap_cons, ServersEvent.input?, ServersEvent.api?]

/-- The thread is to call `netconn_recv` again. -/
def ServerPc.receiving : ServerPc → Bool
  | .recv _ | .wait _ _ | .data _ _ | .next _ _ | .drop _ _ => true
  | _ => false

/-- What a call of the API thread is handed. -/
inductive Handed (s s' : Servers) : List ServerInput → Prop where
  | nothing (h : (s'.pc .api).receiving = (s.pc .api).receiving) : Handed s s' []
  | connection (h : (s.pc .api).receiving = false) (h' : (s'.pc .api).receiving = true) :
      Handed s s' [.accepted]
  | fragments (nb : List (List UInt8)) (h : (s.pc .api).receiving = true)
      (h' : (s'.pc .api).receiving = true) : Handed s s' [.netbuf nb]
  | failure (h : (s.pc .api).receiving = true) (h' : (s'.pc .api).receiving = false) :
      Handed s s' [.failed]

theorem apiCall_handed (ans : Answer) :
    Handed s (serverCall env .api ans s).1
      ((serverCall env .api ans s).2.filterMap ServersEvent.input?) := by
  rcases hpc : s.pc .api with _ | conn | ⟨conn, buf⟩ | ⟨conn, buf⟩ | ⟨conn, buf⟩ | ⟨conn, buf⟩
    | ⟨conn, inbuf⟩ | ⟨conn, inbuf⟩ | conn <;> simp only [serverCall, hpc]
  · cases ans with
    | fails => exact .nothing rfl
    | done p =>
        rcases hbox : s.acceptmbox .api with _ | ⟨_ | conn, rest⟩ <;>
          simp only [netconnAccept, hbox]
        · exact .nothing rfl
        · exact .nothing rfl
        · exact .connection (by rw [hpc]; rfl) rfl
  · rcases htab : s.netbufTab with _ | ⟨buf, rest⟩ <;> simp only [netconnRecv, htab]
    · exact .failure (by rw [hpc]; rfl) rfl
    · exact .nothing (by rw [hpc]; rfl)
  · cases ans with
    | fails => exact .failure (by rw [hpc]; rfl) rfl
    | done p => exact .fragments p.fragments (by rw [hpc]; rfl) rfl
  · rcases hptr : (s.netbufs buf).ptr with _ | p <;> simp only [netbufData, hptr]
    · exact .nothing (by rw [hpc]; rfl)
    · split <;> exact .nothing (by rw [hpc]; rfl)
  · rcases hnb : s.netbufs buf with ⟨p, _ | ⟨payload, _ | ⟨payload', next⟩⟩⟩ <;>
      simp only [netbufNext, hnb] <;> exact .nothing (by rw [hpc]; rfl)
  · simp only [dropNetbuf, netbufDelete]
    split <;> exact .nothing (by rw [hpc]; rfl)
  · exact .nothing (by rw [hpc]; rfl)
  · cases inbuf with
    | none => exact .nothing (by rw [hpc]; rfl)
    | some buf =>
        simp only [leave, netbufDelete]
        split <;> exact .nothing (by rw [hpc]; rfl)
  · cases ans <;> exact .nothing (by rw [hpc]; rfl)

end Call

/-! ## Whole runs -/

section WholeRuns

variable {s : Servers}

/-- A step that is not the API thread's is not seen by it. -/
theorem apiStep_frame (hs : Sound s) {a : ServersAct} (ha : ∀ ans, a ≠ .call .api ans) :
    (serversNext env s a).pc .api = s.pc .api ∧ owed env (serversNext env s a) = owed env s
      ∧ apiObs env s a = [] ∧ apiIns env s a = [] := by
  obtain ⟨hpc, hbufs, hevs⟩ := serversStep_frame env hs ha
  refine ⟨hpc, owed_congr env hpc hbufs, ?_, ?_⟩
  · refine List.filterMap_eq_nil_iff.mpr fun e he => ?_
    have hother := hevs e he
    cases e with
    | api e => exact absurd rfl hother
    | _ => rfl
  · refine List.filterMap_eq_nil_iff.mpr fun e he => ?_
    have hother := hevs e he
    cases e with
    | input srv i =>
        cases srv with
        | http => rfl
        | api => exact absurd rfl hother
    | _ => rfl

theorem apiStep_pays (hs : Sound s) (a : ServersAct) :
    owed env s ++ (apiIns env s a).flatMap (apiAnswer env)
      = apiObs env s a ++ owed env (serversNext env s a) := by
  by_cases ha : ∃ ans, a = .call .api ans
  · obtain ⟨ans, rfl⟩ := ha
    exact apiCall_pays env hs ans
  · obtain ⟨-, howed, hobs, hins⟩ :=
      apiStep_frame env hs (a := a) fun ans h => ha ⟨ans, h⟩
    rw [howed, hobs, hins]
    simp

theorem apiStep_handed (hs : Sound s) (a : ServersAct) :
    Handed s (serversNext env s a) (apiIns env s a) := by
  by_cases ha : ∃ ans, a = .call .api ans
  · obtain ⟨ans, rfl⟩ := ha
    exact apiCall_handed env ans
  · obtain ⟨hpc, -, -, hins⟩ :=
      apiStep_frame env hs (a := a) fun ans h => ha ⟨ans, h⟩
    rw [hins]
    exact .nothing (by rw [hpc])

/-- The sessions that are over, each with its netbufs, and the one that is not. -/
structure Sessions where
  ended : List (List (List (List UInt8)))
  current : Option (List (List (List UInt8)))

/-- What the stack has handed to the thread in these sessions. -/
def Sessions.inputs (t : Sessions) : List ServerInput :=
  (t.ended.flatMap fun nbs => .accepted :: nbs.map .netbuf ++ [.failed])
    ++ t.current.elim [] fun nbs => .accepted :: nbs.map .netbuf

/-- What happens in these sessions. -/
def Sessions.events (t : Sessions) : List (ApiEvent φ) :=
  t.ended.flatMap (session env true) ++ t.current.elim [] (session env false)

theorem serveConn_answers (nbs : List (List (List UInt8))) :
    (.recv :: (nbs.map ServerInput.netbuf).flatMap (apiAnswer env)) = serveConn env false nbs := by
  induction nbs with
  | nil => rfl
  | cons nb nbs ih =>
      rw [serveConn, ← ih, List.map_cons, List.flatMap_cons, apiAnswer, List.append_assoc]
      rfl

theorem serveConn_fails (nbs : List (List (List UInt8))) :
    serveConn env true nbs = serveConn env false nbs ++ [.close, .connected false] := by
  induction nbs with
  | nil => rfl
  | cons nb nbs ih =>
      rw [serveConn, serveConn, ih]
      simp

/-- What the thread answers to the inputs of a session is what happens in it. -/
theorem session_answers (nbs : List (List (List UInt8))) :
    (ServerInput.accepted :: nbs.map .netbuf).flatMap (apiAnswer env) = session env false nbs := by
  rw [session, ← serveConn_answers]
  rfl

theorem session_answers_over (nbs : List (List (List UInt8))) :
    (ServerInput.accepted :: nbs.map .netbuf ++ [ServerInput.failed]).flatMap (apiAnswer env)
      = session env true nbs := by
  rw [List.flatMap_append, session_answers, session, session, serveConn_fails]
  rfl

theorem Sessions.answers (t : Sessions) :
    t.inputs.flatMap (apiAnswer env) = t.events env := by
  rw [inputs, events, List.flatMap_append, List.flatMap_assoc]
  congr 1
  · refine List.flatMap_congr fun nbs _ => ?_
    exact session_answers_over env nbs
  · cases t.current with
    | none => rfl
    | some nbs => exact session_answers env nbs

/-- What a step hands over continues the sessions. -/
theorem Handed.continue {s' : Servers} {ins : List ServerInput} (h : Handed s s' ins) {t : Sessions}
    (ht : t.current.isSome = (s.pc .api).receiving) :
    ∃ t' : Sessions, t'.inputs = t.inputs ++ ins
      ∧ t'.current.isSome = (s'.pc .api).receiving := by
  obtain ⟨ended, current⟩ := t
  cases h with
  | nothing h => exact ⟨⟨ended, current⟩, (List.append_nil _).symm, ht.trans h.symm⟩
  | connection h h' =>
      rw [h] at ht
      obtain rfl : current = none := by simpa using ht
      exact ⟨⟨ended, some []⟩, by simp [Sessions.inputs], h'.symm⟩
  | fragments nb h h' =>
      rw [h] at ht
      obtain ⟨nbs, rfl⟩ := Option.isSome_iff_exists.mp ht
      exact ⟨⟨ended, some (nbs ++ [nb])⟩, by simp [Sessions.inputs], h'.symm⟩
  | failure h h' =>
      rw [h] at ht
      obtain ⟨nbs, rfl⟩ := Option.isSome_iff_exists.mp ht
      exact ⟨⟨ended ++ [nbs], none⟩, by simp [Sessions.inputs], h'.symm⟩

theorem exists_sessions (as : List ServersAct) (hs : Sound s) {t : Sessions}
    (ht : t.current.isSome = (s.pc .api).receiving) :
    ∃ t' : Sessions, t'.inputs = t.inputs ++ trace (serversNext env) (apiIns env) s as
      ∧ t'.current.isSome = ((run (serversNext env) s as).pc .api).receiving := by
  induction as generalizing s t with
  | nil => exact ⟨t, (List.append_nil _).symm, ht⟩
  | cons a as ih =>
      obtain ⟨t₁, hins, ht₁⟩ := (apiStep_handed env hs a).continue ht
      obtain ⟨t₂, hrest, ht₂⟩ := ih (serversNext_sound env a hs) ht₁
      refine ⟨t₂, ?_, ht₂⟩
      rw [hrest, hins, trace_cons, List.append_assoc]

end WholeRuns

/-- In every run of the two servers the stack hands sessions to the API thread, and what
the thread has done and still owes is what happens in these sessions; it owes nothing
while it waits for the stack. `connected` and its LED are on exactly while it serves. -/
theorem api_thread_sessions (as : List ServersAct) :
    (∃ t : Sessions,
      trace (serversNext env) (apiIns env) Servers.boot as = t.inputs
      ∧ trace (serversNext env) (apiObs env) Servers.boot as ++ owed env (serversAfter env as)
        = t.events env
      ∧ t.current.isSome = ((serversAfter env as).pc .api).receiving)
    ∧ (((serversAfter env as).pc .api).waiting = true → owed env (serversAfter env as) = [])
    ∧ (serversAfter env as).connected = ((serversAfter env as).pc .api).serving
    ∧ (serversAfter env as).led = (serversAfter env as).connected := by
  have hsound := serversAfter_sound env as
  refine ⟨?_, owed_waiting env, hsound.connected, hsound.led⟩
  obtain ⟨t, hins, hcurrent⟩ := exists_sessions env as Sound.boot (t := ⟨[], none⟩) rfl
  have hpays := trace_answers (fun _ a hs => serversNext_sound env a hs)
    (fun _ a hs => apiStep_pays env hs a) Sound.boot as
  refine ⟨t, hins.symm, ?_, hcurrent⟩
  rw [← t.answers env, hins]
  exact hpays.symm

end Seatel
