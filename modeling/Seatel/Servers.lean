import Seatel.ApiSession
import Seatel.Pools
import Seatel.Runs

/-!
# The two server threads and the stack's pools

`httpserver` and `apiserver` wait for connections and serve them one at a
time. What they are handed belongs to lwIP's pools: a `struct netconn` comes
out of `MEMP_NETCONN` when the stack sees a connection and waits in the
listener's `acceptmbox`, a `struct netbuf` out of `MEMP_NETBUF` in
`netconn_recv`, which takes it before it waits for data and puts it back
itself when it fails. A pool has no check against a second free, and both
threads use both pools.

A step is one call into the stack with the code up to the next one, so that
the two threads interleave between any two calls; the stack's answers and
the connections that arrive are in the actions. `netconn_write` hands
nothing over and is left out.
-/

namespace Seatel

open Pools

inductive Server where
  | http
  | api
deriving Repr, DecidableEq

/-- `MEMP_NUM_NETBUF`. -/
abbrev netbufCells : Nat := 2

/-- `MEMP_NUM_NETCONN`. -/
abbrev netconnCells : Nat := 4

/-- `DEFAULT_ACCEPTMBOX_SIZE`. -/
def acceptmboxSize : Nat := 4

/-- A chain of pbufs: the payload of the first and those behind it. -/
structure Pbuf where
  payload : List UInt8
  next : List (List UInt8)
deriving Repr, DecidableEq

/-- All its fragments. -/
def Pbuf.fragments (p : Pbuf) : List (List UInt8) := p.payload :: p.next

/-- `struct netbuf`: the chain and the position in it, each or none of them. -/
structure Netbuf where
  p : Option Pbuf
  ptr : Option Pbuf
deriving Repr, DecidableEq

/-- The call a server thread makes next. `inbuf` is its variable in `server_serve`. -/
inductive ServerPc where
  /-- `netconn_accept` -/
  | accept
  /-- `netconn_recv`, before `memp_malloc` -/
  | recv (conn : Fin netconnCells)
  /-- inside of `netconn_recv`, with a netbuf, waiting for data -/
  | wait (conn : Fin netconnCells) (buf : Fin netbufCells)
  /-- `netbuf_data`, and the fragment -/
  | data (conn : Fin netconnCells) (inbuf : Fin netbufCells)
  /-- `netbuf_next` -/
  | next (conn : Fin netconnCells) (inbuf : Fin netbufCells)
  /-- `netbuf_delete` in the loop -/
  | drop (conn : Fin netconnCells) (inbuf : Fin netbufCells)
  /-- `netconn_close` -/
  | close (conn : Fin netconnCells) (inbuf : Option (Fin netbufCells))
  /-- `netbuf_delete` behind it -/
  | delete (conn : Fin netconnCells) (inbuf : Option (Fin netbufCells))
  /-- `netconn_delete` -/
  | finish (conn : Fin netconnCells)
deriving Repr, DecidableEq

/-- The netbuf a thread has. -/
def ServerPc.netbuf : ServerPc → Option (Fin netbufCells)
  | .wait _ buf | .data _ buf | .next _ buf | .drop _ buf => some buf
  | .close _ inbuf | .delete _ inbuf => inbuf
  | _ => none

/-- The connection a thread serves. -/
def ServerPc.netconn : ServerPc → Option (Fin netconnCells)
  | .accept => none
  | .recv conn | .wait conn _ | .data conn _ | .next conn _ | .drop conn _ | .close conn _
  | .delete conn _ | .finish conn => some conn

/-- Between `netconn_accept` and the end of `server_serve`. -/
def ServerPc.serving : ServerPc → Bool
  | .accept | .finish _ => false
  | _ => true

/-- The pools, the listeners with their mailboxes (a connection, or the error message
`none`) and the threads. `lost` are the connections that `netconn_delete` failed to
free. -/
structure Servers where
  netbufTab : List (Fin netbufCells)
  netbufs : Fin netbufCells → Netbuf
  netconnTab : List (Fin netconnCells)
  listener : Server → Fin netconnCells
  acceptmbox : Server → List (Option (Fin netconnCells))
  lost : List (Fin netconnCells)
  pc : Server → ServerPc
  /-- `connected`, with `LINE_LED_CONNECTED` beside it -/
  connected : Bool
  led : Bool

/-- `memp_init` chains every pool from its last cell on; the listeners have taken the
first two connections. -/
def Servers.boot : Servers where
  netbufTab := [1, 0]
  netbufs := fun _ => ⟨none, none⟩
  netconnTab := [1, 0]
  listener := fun | .http => 3 | .api => 2
  acceptmbox := fun _ => []
  lost := []
  pc := fun _ => .accept
  connected := false
  led := false

/-- What the stack answers to a call: an error, or success with what was received. -/
inductive Answer where
  | fails
  | done (p : Pbuf)
deriving Repr, DecidableEq

inductive ServersAct where
  /-- `accept_function` for a new connection; `mbox` is whether its `recvmbox` can be made -/
  | incoming (srv : Server) (mbox : Bool)
  /-- `accept_function` without a pcb -/
  | aborted (srv : Server)
  /-- the next call of a thread -/
  | call (srv : Server) (ans : Answer)
deriving Repr, DecidableEq

/-- What the stack hands to a server: `server_serve` is called, and what becomes of its
`netconn_recv`. -/
inductive ServerInput where
  | accepted
  | netbuf (fragments : List (List UInt8))
  | failed
deriving Repr, DecidableEq

inductive ServersEvent (φ : Type) where
  | netbuf (e : CellEvent netbufCells)
  | netconn (e : CellEvent netconnCells)
  /-- `memp_malloc` in `netconn_recv` finds nothing: `ERR_MEM` -/
  | outOfMemory (srv : Server)
  /-- `buf->ptr` is used and is `NULL` -/
  | nullPtr (srv : Server)
  /-- a chain becomes a netbuf's -/
  | received
  /-- `pbuf_free(buf->p)` -/
  | pbufFree
  | input (srv : Server) (i : ServerInput)
  | api (e : ApiEvent φ)
  /-- the fragment that the HTTP dispatcher is given -/
  | request (data : List UInt8)
deriving Repr, DecidableEq

variable {φ : Type}

/-! ## The calls -/

def Servers.goto (srv : Server) (pc : ServerPc) (s : Servers) : Servers :=
  { s with pc := Function.update s.pc srv pc }

/-- `memp_free(MEMP_NETBUF, buf)` -/
def Servers.mempFree (buf : Fin netbufCells) (s : Servers) : Servers :=
  { s with netbufTab := buf :: s.netbufTab }

/-- `netbuf_delete` -/
def netbufDelete (s : Servers) : Option (Fin netbufCells) → Servers × List (ServersEvent φ)
  | none => (s, [])
  | some buf =>
      (({ s with netbufs := Function.update s.netbufs buf ⟨none, none⟩ }).mempFree buf,
        (if (s.netbufs buf).p.isSome then [.pbufFree] else []) ++ [.netbuf (.give buf)])

def Servers.setConnected (b : Bool) (s : Servers) : Servers :=
  { s with connected := b, led := b }

/-- `sys_mbox_trypost` to the listener's mailbox. -/
def post (srv : Server) (m : Option (Fin netconnCells)) (s : Servers) : Servers :=
  if (s.acceptmbox srv).length < acceptmboxSize then
    { s with acceptmbox := Function.update s.acceptmbox srv (s.acceptmbox srv ++ [m]) }
  else s

/-- `accept_function`: a connection without a cell or a `recvmbox` is reported to the
listener, one that finds the mailbox full is freed again. -/
def incoming (srv : Server) (mbox : Bool) (s : Servers) : Servers × List (ServersEvent φ) :=
  match s.netconnTab with
  | [] => (post srv none s, [])
  | conn :: rest =>
      if mbox ∧ (s.acceptmbox srv).length < acceptmboxSize then
        (post srv (some conn) { s with netconnTab := rest }, [.netconn (.take conn)])
      else
        (if mbox then s else post srv none s, [.netconn (.take conn), .netconn (.give conn)])

/-- The start of `server_serve`. -/
def enter (srv : Server) (conn : Fin netconnCells) (s : Servers) :
    Servers × List (ServersEvent φ) :=
  match srv with
  | .http => (s.goto .http (.recv conn), [.input .http .accepted])
  | .api =>
      ((s.setConnected true).goto .api (.recv conn),
        [.input .api .accepted, .api (.connected true), .api .recv])

/-- `netconn_accept`; it waits as long as the mailbox is empty. -/
def netconnAccept (srv : Server) (ans : Answer) (s : Servers) :
    Servers × List (ServersEvent φ) :=
  match ans, s.acceptmbox srv with
  | .fails, _ => (s, [.netconn (.use (s.listener srv))])
  | .done _, [] => (s, [.netconn (.use (s.listener srv))])
  | .done _, none :: rest =>
      ({ s with acceptmbox := Function.update s.acceptmbox srv rest },
        [.netconn (.use (s.listener srv))])
  | .done _, some conn :: rest =>
      let r := enter srv conn { s with acceptmbox := Function.update s.acceptmbox srv rest }
      (r.1, .netconn (.use (s.listener srv)) :: r.2)

/-- `netconn_recv` has failed: `inbuf` is `NULL` and both servers go on to
`netconn_close`. -/
def recvFailed (srv : Server) (conn : Fin netconnCells) (s : Servers) :
    Servers × List (ServersEvent φ) :=
  (s.goto srv (.close conn none), [.input srv .failed])

/-- `netconn_recv` up to the wait. -/
def netconnRecv (srv : Server) (conn : Fin netconnCells) (s : Servers) :
    Servers × List (ServersEvent φ) :=
  match s.netbufTab with
  | [] =>
      let r := recvFailed srv conn s
      (r.1, .netconn (.use conn) :: .outOfMemory srv :: r.2)
  | buf :: rest =>
      ({ s with netbufTab := rest }.goto srv (.wait conn buf),
        [.netconn (.use conn), .netbuf (.take buf)])

/-- The rest of `netconn_recv`. -/
def netconnRecvData (srv : Server) (conn : Fin netconnCells) (buf : Fin netbufCells) :
    Answer → Servers → Servers × List (ServersEvent φ)
  | .fails, s =>
      let r := recvFailed srv conn (s.mempFree buf)
      (r.1, .netconn (.use conn) :: .netbuf (.give buf) :: r.2)
  | .done p, s =>
      ({ s with netbufs := Function.update s.netbufs buf ⟨some p, some p⟩ }.goto srv
          (.data conn buf),
        [.netconn (.use conn), .netbuf (.use buf), .received, .input srv (.netbuf p.fragments)])

/-- `netbuf_data` and what the server does with the fragment. Without a `ptr` the data
and the length are those of no fragment. -/
def netbufData (env : ApiEnv φ) (srv : Server) (conn : Fin netconnCells)
    (inbuf : Fin netbufCells) (s : Servers) : Servers × List (ServersEvent φ) :=
  match srv, (s.netbufs inbuf).ptr with
  | .http, none => (s.goto .http (.close conn (some inbuf)), [.netbuf (.use inbuf), .nullPtr .http])
  | .http, some p =>
      (s.goto .http (.close conn (some inbuf)), [.netbuf (.use inbuf), .request p.payload])
  | .api, none => (s.goto .api (.next conn inbuf), [.netbuf (.use inbuf), .nullPtr .api])
  | .api, some p =>
      (s.goto .api (if p.payload.head? = some 113 then .drop conn inbuf else .next conn inbuf),
        [.netbuf (.use inbuf), .api (.handle p.payload (serveFragment env p.payload))])

/-- `netbuf_next` -/
def netbufNext (srv : Server) (conn : Fin netconnCells) (inbuf : Fin netbufCells)
    (s : Servers) : Servers × List (ServersEvent φ) :=
  match s.netbufs inbuf with
  | ⟨_, none⟩ => (s.goto srv (.drop conn inbuf), [.netbuf (.use inbuf), .nullPtr srv])
  | ⟨_, some ⟨_, []⟩⟩ => (s.goto srv (.drop conn inbuf), [.netbuf (.use inbuf)])
  | ⟨p, some ⟨_, payload :: next⟩⟩ =>
      ({ s with netbufs := Function.update s.netbufs inbuf ⟨p, some ⟨payload, next⟩⟩ }.goto srv
          (.data conn inbuf),
        [.netbuf (.use inbuf)])

/-- `netbuf_delete` at the end of the outer loop's body, back to `netconn_recv`. -/
def dropNetbuf (srv : Server) (conn : Fin netconnCells) (inbuf : Fin netbufCells)
    (s : Servers) : Servers × List (ServersEvent φ) :=
  let r := netbufDelete s (some inbuf)
  (r.1.goto srv (.recv conn), r.2 ++ if srv = .api then [.api .recv] else [])

/-- `netbuf_delete` behind `netconn_close`, and the end of `server_serve`. -/
def leave (srv : Server) (conn : Fin netconnCells) (inbuf : Option (Fin netbufCells))
    (s : Servers) : Servers × List (ServersEvent φ) :=
  let r := netbufDelete s inbuf
  match srv with
  | .http => (r.1.goto .http (.finish conn), r.2)
  | .api => ((r.1.setConnected false).goto .api (.finish conn), r.2 ++ [.api (.connected false)])

/-- `netconn_delete` -/
def netconnDelete (srv : Server) (conn : Fin netconnCells) :
    Answer → Servers → Servers × List (ServersEvent φ)
  | .fails, s => ({ s with lost := conn :: s.lost }.goto srv .accept, [.netconn (.use conn)])
  | .done _, s =>
      ({ s with netconnTab := conn :: s.netconnTab }.goto srv .accept, [.netconn (.give conn)])

/-- One call of a thread, and the code up to the next. -/
def serverCall (env : ApiEnv φ) (srv : Server) (ans : Answer) (s : Servers) :
    Servers × List (ServersEvent φ) :=
  match s.pc srv with
  | .accept => netconnAccept srv ans s
  | .recv conn => netconnRecv srv conn s
  | .wait conn buf => netconnRecvData srv conn buf ans s
  | .data conn inbuf => netbufData env srv conn inbuf s
  | .next conn inbuf => netbufNext srv conn inbuf s
  | .drop conn inbuf => dropNetbuf srv conn inbuf s
  | .close conn inbuf =>
      (s.goto srv (.delete conn inbuf),
        .netconn (.use conn) :: if srv = .api then [.api .close] else [])
  | .delete conn inbuf => leave srv conn inbuf s
  | .finish conn => netconnDelete srv conn ans s

def serversStep (env : ApiEnv φ) (s : Servers) : ServersAct → Servers × List (ServersEvent φ)
  | .incoming srv mbox => incoming srv mbox s
  | .aborted srv => (post srv none s, [])
  | .call srv ans => serverCall env srv ans s

end Seatel
