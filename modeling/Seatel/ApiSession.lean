import Seatel.Api

/-!
# One connection of the rotator API

What `server_serve` does on a connection, in order: it sets `connected`,
calls `netconn_recv` until that fails, hands the fragments of every netbuf
to the commands, closes the connection and clears `connected`. A call that
never returns leaves the list of events where it stands.

`quit_conn` is a variable of the outer loop's body and ends the inner loop
only: behind every netbuf comes the next `netconn_recv`
(`recv_mem_serveConn`), so that a session with a quit in it goes on.
-/

namespace Seatel

open CString

inductive ApiEvent (φ : Type) where
  | connected (on : Bool)
  | recv
  /-- A fragment and the commands it executes. -/
  | handle (data : List UInt8) (cmds : List (Cmd φ))
  | close
deriving Repr, DecidableEq

variable {φ : Type}

/-- The inner loop. -/
def handleNetbuf (env : ApiEnv φ) : List (List UInt8) → List (ApiEvent φ)
  | [] => []
  | data :: rest =>
      .handle data (serveFragment env data)
        :: if data.head? = some 113 then [] else handleNetbuf env rest

/-- The outer loop and what follows it; behind the netbufs `netconn_recv` fails, or
it does not return. -/
def serveConn (env : ApiEnv φ) (fails : Bool) : List (List (List UInt8)) → List (ApiEvent φ)
  | [] => .recv :: if fails then [.close, .connected false] else []
  | nb :: rest => .recv :: (handleNetbuf env nb ++ serveConn env fails rest)

/-- All that happens on one connection. -/
def session (env : ApiEnv φ) (fails : Bool) (netbufs : List (List (List UInt8))) :
    List (ApiEvent φ) :=
  .connected true :: serveConn env fails netbufs

def ApiEvent.cmds : ApiEvent φ → List (Cmd φ)
  | .handle _ cmds => cmds
  | _ => []

/-- The connection is over: nothing is received or executed any more, it is closed
and `connected` is cleared. -/
structure Over (rest : List (ApiEvent φ)) : Prop where
  recv : .recv ∉ rest
  cmds : rest.flatMap ApiEvent.cmds = []
  close : .close ∈ rest
  cleared : .connected false ∈ rest

/-- Behind every fragment that begins with `q` the connection is over. -/
def QuitEnds (events : List (ApiEvent φ)) : Prop :=
  ∀ before data cmds rest, events = before ++ .handle data cmds :: rest →
    data.head? = some 113 → Over rest

/-! ## The loops -/

/-- The commands of a session are those of its netbufs. -/
theorem handleNetbuf_cmds (env : ApiEnv φ) (nb : List (List UInt8)) :
    (handleNetbuf env nb).flatMap ApiEvent.cmds = serveNetbuf env nb := by
  induction nb with
  | nil => rfl
  | cons data rest ih =>
      rw [handleNetbuf, serveNetbuf, List.flatMap_cons]
      congr 1
      split
      · rfl
      · exact ih

theorem serveConn_cmds (env : ApiEnv φ) (fails : Bool) (netbufs : List (List (List UInt8))) :
    (serveConn env fails netbufs).flatMap ApiEvent.cmds = serverServe env netbufs := by
  induction netbufs with
  | nil => cases fails <;> rfl
  | cons nb rest ih =>
      rw [serveConn, List.flatMap_cons, List.flatMap_append, handleNetbuf_cmds, ih]
      rfl

/-- The loop always comes back to `netconn_recv`. -/
theorem recv_mem_serveConn (env : ApiEnv φ) (fails : Bool)
    (netbufs : List (List (List UInt8))) : .recv ∈ serveConn env fails netbufs := by
  cases netbufs with
  | nil => exact List.mem_cons_self
  | cons nb rest => exact List.mem_cons_self

/-- A netbuf with a quit in it is handled up to the quit. -/
theorem handleNetbuf_quit (env : ApiEnv φ) {nb : List (List UInt8)} {data : List UInt8}
    (hmem : data ∈ nb) (hquit : data.head? = some 113) :
    ∃ before data' cmds, handleNetbuf env nb = before ++ [.handle data' cmds]
      ∧ data'.head? = some 113 := by
  induction nb with
  | nil => cases hmem
  | cons frag rest ih =>
      rw [handleNetbuf]
      by_cases hfrag : frag.head? = some 113
      · rw [if_pos hfrag]
        exact ⟨[], frag, _, rfl, hfrag⟩
      · rw [if_neg hfrag]
        rcases List.mem_cons.mp hmem with rfl | hrest
        · exact absurd hquit hfrag
        · obtain ⟨before, data', cmds, heq, hhead⟩ := ih hrest
          exact ⟨_ :: before, data', cmds, by rw [heq]; rfl, hhead⟩

/-- Behind a quit in one of the netbufs there is another `netconn_recv`. -/
theorem serveConn_quit (env : ApiEnv φ) (fails : Bool) {netbufs : List (List (List UInt8))}
    {nb : List (List UInt8)} {data : List UInt8} (hnb : nb ∈ netbufs) (hmem : data ∈ nb)
    (hquit : data.head? = some 113) :
    ∃ before data' cmds rest, serveConn env fails netbufs = before ++ .handle data' cmds :: rest
      ∧ data'.head? = some 113 ∧ .recv ∈ rest := by
  induction netbufs with
  | nil => cases hnb
  | cons first netbufs ih =>
      rw [serveConn]
      rcases List.mem_cons.mp hnb with rfl | hnb
      · obtain ⟨before, data', cmds, heq, hhead⟩ := handleNetbuf_quit env hmem hquit
        refine ⟨.recv :: before, data', cmds, serveConn env fails netbufs, ?_, hhead,
          recv_mem_serveConn env fails netbufs⟩
        rw [heq, List.append_assoc]
        rfl
      · obtain ⟨before, data', cmds, rest, heq, hhead, hrecv⟩ := ih hnb
        refine ⟨.recv :: (handleNetbuf env first ++ before), data', cmds, rest, ?_, hhead, hrecv⟩
        rw [heq, ← List.append_assoc]
        rfl

/-- Only fragments of the session are handled. -/
theorem handle_mem_netbuf {env : ApiEnv φ} {nb : List (List UInt8)} {data : List UInt8}
    {cmds : List (Cmd φ)} (h : .handle data cmds ∈ handleNetbuf env nb) : data ∈ nb := by
  induction nb with
  | nil => cases h
  | cons frag rest ih =>
      rw [handleNetbuf] at h
      rcases List.mem_cons.mp h with heq | hrest
      · cases heq
        exact List.mem_cons_self
      · split at hrest
        · cases hrest
        · exact List.mem_cons_of_mem _ (ih hrest)

theorem handle_mem_serveConn {env : ApiEnv φ} {fails : Bool}
    {netbufs : List (List (List UInt8))} {data : List UInt8} {cmds : List (Cmd φ)}
    (h : .handle data cmds ∈ serveConn env fails netbufs) : ∃ nb ∈ netbufs, data ∈ nb := by
  induction netbufs with
  | nil => cases fails <;> simp [serveConn] at h
  | cons nb rest ih =>
      rw [serveConn] at h
      rcases List.mem_cons.mp h with heq | h
      · cases heq
      · rcases List.mem_append.mp h with hnb | hrest
        · exact ⟨nb, List.mem_cons_self, handle_mem_netbuf hnb⟩
        · obtain ⟨nb', hnb', hmem⟩ := ih hrest
          exact ⟨nb', List.mem_cons_of_mem _ hnb', hmem⟩

/-! ## Quit -/

/-- A quit ends the session exactly in those sessions that have none. -/
theorem api_quit_ends_iff (env : ApiEnv φ) (fails : Bool) (netbufs : List (List (List UInt8))) :
    QuitEnds (session env fails netbufs)
      ↔ ∀ nb ∈ netbufs, ∀ data ∈ nb, data.head? ≠ some 113 := by
  constructor
  · intro h nb hnb data hmem hquit
    obtain ⟨before, data', cmds, rest, heq, hhead, hrecv⟩ :=
      serveConn_quit env fails hnb hmem hquit
    have hover := h (.connected true :: before) data' cmds rest (by rw [session, heq]; rfl) hhead
    exact hover.recv hrecv
  · intro hnone before data cmds rest heq hquit
    have hmem : .handle data cmds ∈ session env fails netbufs := by
      rw [heq]
      exact List.mem_append_right _ List.mem_cons_self
    rw [session] at hmem
    rcases List.mem_cons.mp hmem with hfirst | hconn
    · cases hfirst
    · obtain ⟨nb, hnb, hdata⟩ := handle_mem_serveConn hconn
      exact absurd hquit (hnone nb hnb data hdata)

/-- After `q` the next message moves the antenna. -/
theorem api_quit_goes_on :
    session exactApi true [[ascii "q"], [ascii "P 90.00 45.00\n"]]
        = [.connected true, .recv, .handle (ascii "q") [.quit], .recv,
            .handle (ascii "P 90.00 45.00\n") [.setPosition 90 45], .recv, .close,
            .connected false]
      ∧ ¬ QuitEnds (session exactApi true [[ascii "q"], [ascii "P 90.00 45.00\n"]]) := by
  have hsession : session exactApi true [[ascii "q"], [ascii "P 90.00 45.00\n"]]
      = [.connected true, .recv, .handle (ascii "q") [.quit], .recv,
          .handle (ascii "P 90.00 45.00\n") [.setPosition 90 45], .recv, .close,
          .connected false] := by
    decide +kernel
  refine ⟨hsession, ?_⟩
  intro h
  have hover := h [.connected true, .recv] (ascii "q") [.quit] _ hsession rfl
  exact hover.recv List.mem_cons_self

end Seatel
