import Seatel.HttpDispatch
import Seatel.ServerPools

/-!
# The HTTP thread serves one fragment of a connection

`server_serve` of the HTTP server calls `netconn_recv` once, dispatches the
first fragment of what it gets and closes the connection. What the thread
does in any interleaving with the API thread and the stack, with a netbuf
from the pool they share, is therefore a sequence of such sessions and the
beginning of one more (`http_thread_sessions`): a second fragment, or a
second request on the same connection, is never looked at, and a connection
that fails does nothing to the board.
-/

namespace Seatel

open Numerals Runs

variable {φ : Type} (env : ApiEnv φ)

inductive HttpEvent where
  | input (i : ServerInput)
  /-- the `strncmp` chain, on this fragment -/
  | request (data : List UInt8)
deriving Repr, DecidableEq

def ServersEvent.http? : ServersEvent φ → Option HttpEvent
  | .input .http i => some (.input i)
  | .request data => some (.request data)
  | _ => none

/-- What the HTTP thread is handed and does in a step. -/
def httpObs (s : Servers) (a : ServersAct) : List HttpEvent :=
  (serversStep env s a).2.filterMap ServersEvent.http?

/-- A session in which `netconn_recv` fails, or gets a chain. -/
def httpSession : Option Pbuf → List HttpEvent
  | none => [.input .accepted, .input .failed]
  | some p => [.input .accepted, .input (.netbuf p.fragments), .request p.payload]

/-- The session under way, up to here. -/
def httpOpen (s : Servers) : List HttpEvent :=
  match s.pc .http with
  | .recv _ | .wait _ _ => [.input .accepted]
  | .data _ inbuf =>
      (s.netbufs inbuf).ptr.elim [] fun p => [.input .accepted, .input (.netbuf p.fragments)]
  | _ => []

/-- What an event does to the board. -/
def HttpEvent.apply (libc : Libc) (h : HttpState) : HttpEvent → HttpState
  | .request data => httpRequest libc data h
  | .input _ => h

/-! ## One step -/

/-- There is no loop over netbufs or fragments in this server. -/
def ServerPc.Straight : ServerPc → Prop
  | .next _ _ | .drop _ _ => False
  | _ => True

section Step

variable {s : Servers}

theorem httpOpen_congr {s' : Servers} (hpc : s'.pc .http = s.pc .http)
    (hbufs : ∀ buf, (s.pc .http).filled = some buf → s'.netbufs buf = s.netbufs buf) :
    httpOpen s' = httpOpen s := by
  rw [httpOpen, httpOpen, hpc]
  split <;> first | rfl | skip
  next h => rw [hbufs _ (by rw [h]; rfl)]

/-- A call of the HTTP thread goes on with the session, or ends it. -/
theorem httpCall_sessions (hs : Sound s) (hpath : (s.pc .http).Straight) (ans : Answer) :
    ((serverCall env .http ans s).1.pc .http).Straight
      ∧ ∃ conns : List (Option Pbuf),
        httpOpen s ++ (serverCall env .http ans s).2.filterMap ServersEvent.http?
          = conns.flatMap httpSession ++ httpOpen (serverCall env .http ans s).1 := by
  rcases hpc : s.pc .http with _ | conn | ⟨conn, buf⟩ | ⟨conn, buf⟩ | ⟨conn, buf⟩ | ⟨conn, buf⟩
    | ⟨conn, inbuf⟩ | ⟨conn, inbuf⟩ | conn <;> simp only [serverCall, hpc, httpOpen]
  · cases ans with
    | fails => exact ⟨by rw [netconnAccept, hpc]; trivial, [], by rw [netconnAccept, hpc]; rfl⟩
    | done p =>
        rcases hbox : s.acceptmbox .http with _ | ⟨_ | conn, rest⟩ <;>
          simp only [netconnAccept, hbox]
        · exact ⟨by rw [hpc]; trivial, [], by rw [hpc]; rfl⟩
        · exact ⟨by rw [hpc]; trivial, [], by rw [hpc]; rfl⟩
        · exact ⟨trivial, [], rfl⟩
  · have hnone : (s.pc .http).netbuf = none := by
      rw [hpc]
      rfl
    obtain ⟨buf, rest, htab⟩ := hs.exists_netbuf hnone
    simp only [netconnRecv, htab]
    exact ⟨trivial, [], rfl⟩
  · cases ans with
    | fails => exact ⟨trivial, [none], rfl⟩
    | done p =>
        refine ⟨trivial, [], ?_⟩
        simp [netconnRecvData, Servers.goto, List.filterMap_cons, ServersEvent.http?]
  · -- the only fragment that is dispatched
    obtain ⟨p, hp⟩ := Option.isSome_iff_exists.mp (hs.filled .http buf (by rw [hpc]; rfl)).2
    simp only [netbufData, hp]
    exact ⟨trivial, [some p], rfl⟩
  · rw [hpc] at hpath
    exact hpath.elim
  · rw [hpc] at hpath
    exact hpath.elim
  · exact ⟨trivial, [], rfl⟩
  · refine ⟨trivial, [], ?_⟩
    cases inbuf with
    | none => rfl
    | some buf =>
        simp only [leave, netbufDelete]
        split <;> rfl
  · cases ans <;> exact ⟨trivial, [], rfl⟩

theorem httpStep_sessions (hs : Sound s) (hpath : (s.pc .http).Straight) (a : ServersAct) :
    ((serversNext env s a).pc .http).Straight
      ∧ ∃ conns : List (Option Pbuf), httpOpen s ++ httpObs env s a
        = conns.flatMap httpSession ++ httpOpen (serversNext env s a) := by
  by_cases ha : ∃ ans, a = .call .http ans
  · obtain ⟨ans, rfl⟩ := ha
    exact httpCall_sessions env hs hpath ans
  · have hother : ∀ ans, a ≠ .call .http ans := fun ans h => ha ⟨ans, h⟩
    obtain ⟨hpc, hbufs, hevs⟩ := serversStep_frame env hs hother
    have hobs : httpObs env s a = [] := by
      refine List.filterMap_eq_nil_iff.mpr fun e he => ?_
      have hevent := hevs e he
      cases e with
      | input srv i =>
          cases srv with
          | http => exact absurd rfl hevent
          | api => rfl
      | request data => exact absurd rfl hevent
      | _ => rfl
    refine ⟨by rw [hpc]; exact hpath, [], ?_⟩
    rw [hobs, httpOpen_congr hpc hbufs, List.append_nil]
    rfl

end Step

/-! ## Whole runs -/

theorem exists_httpSessions (as : List ServersAct) {s : Servers} (hs : Sound s)
    (hpath : (s.pc .http).Straight) :
    ∃ conns : List (Option Pbuf), httpOpen s ++ trace (serversNext env) (httpObs env) s as
      = conns.flatMap httpSession ++ httpOpen (run (serversNext env) s as) := by
  induction as generalizing s with
  | nil => exact ⟨[], List.append_nil _⟩
  | cons a as ih =>
      obtain ⟨hpath', conns, hstep⟩ := httpStep_sessions env hs hpath a
      obtain ⟨conns', hrest⟩ := ih (serversNext_sound env a hs) hpath'
      refine ⟨conns ++ conns', ?_⟩
      rw [trace_cons, run_cons, ← List.append_assoc, hstep, List.append_assoc, hrest,
        List.flatMap_append, List.append_assoc]

section Board

variable (libc : Libc)

/-- A session does to the board what its first fragment asks for. -/
theorem foldl_httpSession (conns : List (Option Pbuf)) (h : HttpState) :
    (conns.flatMap httpSession).foldl (HttpEvent.apply libc) h
      = (conns.filterMap id).foldl (fun h p => httpRequest libc p.payload h) h := by
  induction conns generalizing h with
  | nil => rfl
  | cons conn conns ih =>
      rw [List.flatMap_cons, List.foldl_append, ih]
      cases conn <;> rfl

theorem foldl_httpOpen (s : Servers) (h : HttpState) :
    (httpOpen s).foldl (HttpEvent.apply libc) h = h := by
  rw [httpOpen]
  split <;> first | rfl | skip
  next inbuf _ => cases (s.netbufs inbuf).ptr <;> rfl

end Board

/-- In every run of the two servers the HTTP thread goes through sessions, one after the other:
a connection is accepted, `netconn_recv` is called once, and of what it gets the first fragment
is dispatched and nothing else. So the board is changed by the first fragments of the chains
that were received, in this order. -/
theorem http_thread_sessions (as : List ServersAct) :
    ∃ conns : List (Option Pbuf),
      trace (serversNext env) (httpObs env) Servers.boot as
        = conns.flatMap httpSession ++ httpOpen (serversAfter env as)
      ∧ ∀ (libc : Libc) (h : HttpState),
        (trace (serversNext env) (httpObs env) Servers.boot as).foldl (HttpEvent.apply libc) h
          = (conns.filterMap id).foldl (fun h p => httpRequest libc p.payload h) h := by
  obtain ⟨conns, hconns⟩ := exists_httpSessions env as Sound.boot trivial
  have hboot : httpOpen Servers.boot = [] := rfl
  rw [hboot, List.nil_append] at hconns
  refine ⟨conns, hconns, fun libc h => ?_⟩
  rw [hconns, List.foldl_append, foldl_httpOpen, foldl_httpSession]

end Seatel
