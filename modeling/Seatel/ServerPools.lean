import Seatel.Servers

/-!
# Who holds what between the two servers

`Sound` accounts for the cells of both pools: a netbuf is free or with one of
the threads, a connection is free, a listener's, in one mailbox, served by
one thread or lost. Every call keeps it (`serversStep_kept`), and reads as a
step of the ledgers of both pools: nothing is taken twice, used after it was
freed or freed twice, in any interleaving.

A thread that calls `netconn_recv` has no netbuf, so that the other one has
at most one of the two, and `memp_malloc` finds the second.
-/

namespace Seatel

open Pools Runs

variable {φ : Type}

/-- The thread that is not `srv`. -/
def Server.other : Server → Server
  | .http => .api
  | .api => .http

/-- How many threads hold the netbuf. -/
def netbufHeld (s : Servers) (i : Fin netbufCells) : Nat :=
  holds (s.pc .http).netbuf i + holds (s.pc .api).netbuf i

/-- How often a connection waits for a listener. -/
def waiting (s : Servers) (i : Fin netconnCells) : Nat :=
  (s.acceptmbox .http).count (some i) + (s.acceptmbox .api).count (some i)

/-- How many threads serve the connection. -/
def served (s : Servers) (i : Fin netconnCells) : Nat :=
  holds (s.pc .http).netconn i + holds (s.pc .api).netconn i

/-- How often a connection is a listener, waits for one or is lost. -/
def parked (s : Servers) (i : Fin netconnCells) : Nat :=
  holds (some (s.listener .http)) i + holds (some (s.listener .api)) i + waiting s i
    + s.lost.count i

/-- In how many places the connection is. -/
def netconnHeld (s : Servers) (i : Fin netconnCells) : Nat := parked s i + served s i

/-- The netbuf of a thread that has received something in it. -/
def ServerPc.filled : ServerPc → Option (Fin netbufCells)
  | .wait _ _ => none
  | pc => pc.netbuf

/-- How many threads have received something they have not freed. -/
def Servers.packets (s : Servers) : Nat :=
  (s.pc .http).filled.toList.length + (s.pc .api).filled.toList.length

/-- Both pools are accounted for, a received netbuf has its chain, and the API thread
shows whether it is serving. -/
structure Sound (s : Servers) : Prop where
  netbufs : Accounted s.netbufTab (netbufHeld s)
  netconns : Accounted s.netconnTab (netconnHeld s)
  filled : ∀ srv buf, (s.pc srv).filled = some buf →
    (s.netbufs buf).p.isSome ∧ (s.netbufs buf).ptr.isSome
  connected : s.connected = (s.pc .api).serving
  led : s.led = s.connected

theorem Sound.boot : Sound Servers.boot where
  netbufs := by intro i; revert i; decide
  netconns := by intro i; revert i; decide
  filled := by intro srv buf h; cases h
  connected := rfl
  led := rfl

/-! ## Events of one kind -/

def ServersEvent.netbuf? : ServersEvent φ → Option (CellEvent netbufCells)
  | .netbuf e => some e
  | _ => none

def ServersEvent.netconn? : ServersEvent φ → Option (CellEvent netconnCells)
  | .netconn e => some e
  | _ => none

def ServersEvent.isReceived : ServersEvent φ → Bool
  | .received => true
  | _ => false

def ServersEvent.isPbufFree : ServersEvent φ → Bool
  | .pbufFree => true
  | _ => false

/-- A failed allocation, or a `NULL` that is followed. -/
def ServersEvent.isFault : ServersEvent φ → Bool
  | .outOfMemory _ | .nullPtr _ => true
  | _ => false

/-- What one call does to a sound state. -/
structure Kept (s : Servers) (r : Servers × List (ServersEvent φ)) : Prop where
  sound : Sound r.1
  netbufs : Reads ledger (taken s.netbufTab) (r.2.filterMap ServersEvent.netbuf?)
    (taken r.1.netbufTab)
  netconns : Reads ledger (taken s.netconnTab) (r.2.filterMap ServersEvent.netconn?)
    (taken r.1.netconnTab)
  noFault : ∀ e ∈ r.2, e.isFault = false
  packets : r.2.countP ServersEvent.isPbufFree + r.1.packets
    = s.packets + r.2.countP ServersEvent.isReceived

/-! ## Moving one thread -/

section Moves

variable {s : Servers} {srv : Server} {pc : ServerPc}

theorem goto_self : (s.goto srv pc).pc srv = pc := Function.update_self ..

theorem goto_other : (s.goto srv pc).pc srv.other = s.pc srv.other := by
  cases srv <;> rfl

theorem eq_or_other (srv srv' : Server) : srv' = srv ∨ srv' = srv.other := by
  cases srv <;> cases srv' <;> simp [Server.other]

theorem netbufHeld_eq (srv : Server) (i : Fin netbufCells) :
    netbufHeld s i = holds (s.pc srv).netbuf i + holds (s.pc srv.other).netbuf i := by
  cases srv
  · rfl
  · exact Nat.add_comm _ _

theorem served_eq (srv : Server) (i : Fin netconnCells) :
    served s i = holds (s.pc srv).netconn i + holds (s.pc srv.other).netconn i := by
  cases srv
  · rfl
  · exact Nat.add_comm _ _

theorem packets_eq (srv : Server) :
    s.packets = (s.pc srv).filled.toList.length + (s.pc srv.other).filled.toList.length := by
  cases srv
  · rfl
  · exact Nat.add_comm _ _

theorem netbufHeld_goto (i : Fin netbufCells) :
    netbufHeld (s.goto srv pc) i = holds pc.netbuf i + holds (s.pc srv.other).netbuf i := by
  rw [netbufHeld_eq srv, goto_self, goto_other]

theorem served_goto (i : Fin netconnCells) :
    served (s.goto srv pc) i = holds pc.netconn i + holds (s.pc srv.other).netconn i := by
  rw [served_eq srv, goto_self, goto_other]

theorem packets_goto : (s.goto srv pc).packets
    = pc.filled.toList.length + (s.pc srv.other).filled.toList.length := by
  rw [packets_eq srv, goto_self, goto_other]

/-- No netbuf is with both threads. -/
theorem Sound.netbuf_ne (hs : Sound s) {buf : Fin netbufCells}
    (hbuf : (s.pc srv).netbuf = some buf) : (s.pc srv.other).netbuf ≠ some buf := by
  intro hother
  have hle := hs.netbufs.held_le buf
  rw [netbufHeld_eq srv, hbuf, hother, holds_self] at hle
  omega

theorem netbufHeld_pos {buf : Fin netbufCells}
    (hbuf : (s.pc srv).netbuf = some buf) : 0 < netbufHeld s buf := by
  rw [netbufHeld_eq srv, hbuf, holds_self]
  omega

theorem netconnHeld_pos {conn : Fin netconnCells}
    (hconn : (s.pc srv).netconn = some conn) : 0 < netconnHeld s conn := by
  rw [netconnHeld, served_eq srv, hconn, holds_self]
  omega

theorem listener_pos (s : Servers) (srv : Server) :
    0 < netconnHeld s (s.listener srv) := by
  rw [netconnHeld, parked]
  cases srv
  · rw [holds_self]
    omega
  · rw [holds_self (i := s.listener .api)]
    omega

theorem filled_netbuf {buf : Fin netbufCells} (h : pc.filled = some buf) :
    pc.netbuf = some buf := by
  cases pc <;> first | exact h | cases h

/-- What `s₁`, in which only the pools have changed, needs for `srv` to go to `pc`. -/
structure Movable (s s₁ : Servers) (srv : Server) (pc : ServerPc) : Prop where
  other : s₁.pc srv.other = s.pc srv.other
  netbufs : Accounted s₁.netbufTab fun i =>
    holds pc.netbuf i + holds (s.pc srv.other).netbuf i
  netconns : Accounted s₁.netconnTab fun i =>
    parked s₁ i + (holds pc.netconn i + holds (s.pc srv.other).netconn i)
  filled : ∀ buf, pc.filled = some buf →
    (s₁.netbufs buf).p.isSome ∧ (s₁.netbufs buf).ptr.isSome
  rest : ∀ buf, (s.pc srv.other).filled = some buf → s₁.netbufs buf = s.netbufs buf
  connected : s₁.connected = if srv = .api then pc.serving else s.connected
  led : s₁.led = s₁.connected

theorem Movable.sound {s₁ : Servers} (hs : Sound s) (h : Movable s s₁ srv pc) :
    Sound (s₁.goto srv pc) where
  netbufs := h.netbufs.pass fun i => by rw [netbufHeld_goto, h.other]
  netconns := h.netconns.pass fun i => by
    rw [netconnHeld, served_goto, h.other]
    rfl
  filled := by
    intro srv' buf hfilled
    change (s₁.netbufs buf).p.isSome ∧ (s₁.netbufs buf).ptr.isSome
    rcases eq_or_other srv srv' with rfl | rfl
    · rw [goto_self] at hfilled
      exact h.filled buf hfilled
    · rw [goto_other, h.other] at hfilled
      rw [h.rest buf hfilled]
      exact hs.filled _ buf hfilled
  connected := by
    rw [show (s₁.goto srv pc).connected = s₁.connected from rfl, h.connected]
    cases srv with
    | http =>
        have hother : s₁.pc .api = s.pc .api := h.other
        rw [if_neg (by simp), hs.connected, ← hother]
        rfl
    | api => rw [if_pos rfl, goto_self]
  led := h.led

/-- A call after which `srv` goes to `pc`, with the events `evs`. -/
theorem Movable.kept {s₁ : Servers} {evs : List (ServersEvent φ)} (hs : Sound s)
    (h : Movable s s₁ srv pc)
    (hbufs : Reads ledger (taken s.netbufTab) (evs.filterMap ServersEvent.netbuf?)
      (taken s₁.netbufTab))
    (hconns : Reads ledger (taken s.netconnTab) (evs.filterMap ServersEvent.netconn?)
      (taken s₁.netconnTab))
    (hfault : ∀ e ∈ evs, e.isFault = false)
    (hcount : evs.countP ServersEvent.isPbufFree + pc.filled.toList.length
      = (s.pc srv).filled.toList.length + evs.countP ServersEvent.isReceived) :
    Kept s (s₁.goto srv pc, evs) where
  sound := h.sound hs
  netbufs := hbufs
  netconns := hconns
  noFault := hfault
  packets := by
    change evs.countP ServersEvent.isPbufFree + (s₁.goto srv pc).packets
      = s.packets + evs.countP ServersEvent.isReceived
    rw [packets_goto, h.other, packets_eq srv]
    omega

/-- The connection a thread keeps is accounted for as before. -/
theorem Sound.netconns_same (hs : Sound s) (hconn : pc.netconn = (s.pc srv).netconn) :
    Accounted s.netconnTab fun i =>
      parked s i + (holds pc.netconn i + holds (s.pc srv.other).netconn i) :=
  hs.netconns.pass fun i => by rw [netconnHeld, served_eq srv, hconn]

/-- The netbuf a thread keeps is accounted for as before. -/
theorem Sound.netbufs_same (hs : Sound s) (hbuf : pc.netbuf = (s.pc srv).netbuf) :
    Accounted s.netbufTab fun i => holds pc.netbuf i + holds (s.pc srv.other).netbuf i :=
  hs.netbufs.pass fun i => by rw [netbufHeld_eq srv, hbuf]

theorem Sound.connected_same (hs : Sound s) (hserving : pc.serving = (s.pc srv).serving) :
    s.connected = if srv = .api then pc.serving else s.connected := by
  cases srv with
  | http => rfl
  | api => rw [if_pos rfl, hserving, hs.connected]

/-- Writing to the netbuf of one thread leaves that of the other alone. -/
theorem Sound.rest_of_update (hs : Sound s) {buf : Fin netbufCells} (nb : Netbuf)
    (hbuf : (s.pc srv).netbuf = some buf) (buf' : Fin netbufCells)
    (hother : (s.pc srv.other).filled = some buf') :
    Function.update s.netbufs buf nb buf' = s.netbufs buf' := by
  refine Function.update_of_ne ?_ ..
  rintro rfl
  exact hs.netbuf_ne hbuf (filled_netbuf hother)

end Moves

/-! ## One call -/

section Calls

variable {s : Servers} {srv : Server} {conn : Fin netconnCells} {buf : Fin netbufCells}

theorem reads_use {n : Nat} {tab : List (Fin n)} {held : Fin n → Nat} {i : Fin n}
    (h : Accounted tab held) (hi : 0 < held i) :
    Reads ledger (taken tab) [.use i] (taken tab) :=
  ⟨_, ledger_use h hi, rfl⟩

theorem reads_give {n : Nat} {tab : List (Fin n)} {held : Fin n → Nat} {i : Fin n}
    (h : Accounted tab held) (hi : 0 < held i) :
    Reads ledger (taken tab) [.give i] (taken (i :: tab)) :=
  ⟨_, ledger_give h hi, rfl⟩

theorem reads_take {n : Nat} {tab : List (Fin n)} {held : Fin n → Nat} {i : Fin n}
    (h : Accounted (i :: tab) held) :
    Reads ledger (taken (i :: tab)) [.take i] (taken tab) :=
  ⟨_, ledger_take h, rfl⟩

/-- While a thread has no netbuf, one is free. -/
theorem Sound.exists_netbuf (hs : Sound s) (hpc : (s.pc srv).netbuf = none) :
    ∃ buf rest, s.netbufTab = buf :: rest := by
  refine hs.netbufs.exists_free ?_
  calc ∑ i, netbufHeld s i = ∑ i, holds (s.pc srv.other).netbuf i :=
        Finset.sum_congr rfl fun i _ => by rw [netbufHeld_eq srv, hpc, holds_none, Nat.zero_add]
    _ < 2 := by
        rw [sum_holds]
        split <;> omega

theorem netconnRecv_kept (hs : Sound s) (hpc : s.pc srv = .recv conn) :
    Kept s (netconnRecv (φ := φ) srv conn s) := by
  have hnone : (s.pc srv).netbuf = none := by rw [hpc]; rfl
  have hconn : (s.pc srv).netconn = some conn := by rw [hpc]; rfl
  obtain ⟨buf, rest, htab⟩ := hs.exists_netbuf hnone
  have hacc := htab ▸ hs.netbufs
  have hmove : Movable s { s with netbufTab := rest } srv (.wait conn buf) :=
    { other := rfl
      netbufs := hacc.take fun i => by
        rw [netbufHeld_eq srv, hnone, holds_none, Nat.zero_add, Nat.add_comm]
        rfl
      netconns := hs.netconns_same hconn.symm
      filled := fun _ h => nomatch h
      rest := fun _ _ => rfl
      connected := hs.connected_same (by rw [hpc]; rfl)
      led := hs.led }
  rw [netconnRecv, htab]
  refine hmove.kept hs ?_ (reads_use hs.netconns (netconnHeld_pos hconn)) ?_ ?_
  · rw [htab]
    exact reads_take hacc
  · simp [ServersEvent.isFault]
  · rw [hpc]
    rfl

theorem netconnRecvData_kept (hs : Sound s) (hpc : s.pc srv = .wait conn buf) (ans : Answer) :
    Kept s (netconnRecvData (φ := φ) srv conn buf ans s) := by
  have hbuf : (s.pc srv).netbuf = some buf := by rw [hpc]; rfl
  have hconn : (s.pc srv).netconn = some conn := by rw [hpc]; rfl
  cases ans with
  | fails =>
      have hmove : Movable s (s.mempFree buf) srv (.close conn none) :=
        { other := rfl
          netbufs := hs.netbufs.give fun i => by
            rw [netbufHeld_eq srv, hbuf, Nat.add_comm]
            exact congrArg (· + _) (Nat.zero_add _).symm
          netconns := hs.netconns_same hconn.symm
          filled := fun _ h => nomatch h
          rest := fun _ _ => rfl
          connected := hs.connected_same (by rw [hpc]; rfl)
          led := hs.led }
      refine hmove.kept hs ?_ ?_ ?_ ?_
      · cases srv <;> exact reads_give hs.netbufs (netbufHeld_pos hbuf)
      · cases srv <;> exact reads_use hs.netconns (netconnHeld_pos hconn)
      · cases srv <;> simp [recvFailed, ServersEvent.isFault]
      · rw [hpc]
        cases srv <;> rfl
  | done p =>
      have hmove : Movable s
          { s with netbufs := Function.update s.netbufs buf ⟨some p, some p⟩ } srv
          (.data conn buf) :=
        { other := rfl
          netbufs := hs.netbufs_same hbuf.symm
          netconns := hs.netconns_same hconn.symm
          filled := by
            rintro _ ⟨⟩
            simp
          rest := hs.rest_of_update _ hbuf
          connected := hs.connected_same (by rw [hpc]; rfl)
          led := hs.led }
      refine hmove.kept hs ?_ ?_ ?_ ?_
      · cases srv <;> exact reads_use hs.netbufs (netbufHeld_pos hbuf)
      · cases srv <;> exact reads_use hs.netconns (netconnHeld_pos hconn)
      · cases srv <;> simp [ServersEvent.isFault]
      · rw [hpc]
        cases srv <;> rfl

/-- Nothing but the position of `srv` changes. -/
theorem Sound.movable (hs : Sound s) {pc : ServerPc} (hbuf : pc.netbuf = (s.pc srv).netbuf)
    (hconn : pc.netconn = (s.pc srv).netconn) (hfilled : pc.filled = (s.pc srv).filled)
    (hserving : pc.serving = (s.pc srv).serving) : Movable s s srv pc where
  other := rfl
  netbufs := hs.netbufs_same hbuf
  netconns := hs.netconns_same hconn
  filled := fun buf h => hs.filled srv buf (hfilled ▸ h)
  rest := fun _ _ => rfl
  connected := hs.connected_same hserving
  led := hs.led

theorem netbufData_kept (env : ApiEnv φ) (hs : Sound s) (hpc : s.pc srv = .data conn buf) :
    Kept s (netbufData env srv conn buf s) := by
  have hbuf : (s.pc srv).netbuf = some buf := by rw [hpc]; rfl
  have hptr := (hs.filled srv buf (by rw [hpc]; rfl)).2
  obtain ⟨p, hp⟩ := Option.isSome_iff_exists.mp hptr
  have huse := reads_use hs.netbufs (netbufHeld_pos hbuf)
  -- every place the fragment can lead to keeps the netbuf and the connection
  have hmove {pc : ServerPc} (h : pc = .close conn (some buf) ∨ pc = .next conn buf
      ∨ pc = .drop conn buf) : Movable s s srv pc := by
    rcases h with rfl | rfl | rfl <;> exact hs.movable (by rw [hpc]; rfl) (by rw [hpc]; rfl)
      (by rw [hpc]; rfl) (by rw [hpc]; rfl)
  have hone {pc : ServerPc} (h : pc = .close conn (some buf) ∨ pc = .next conn buf
      ∨ pc = .drop conn buf) : pc.filled.toList.length = (s.pc srv).filled.toList.length := by
    rcases h with rfl | rfl | rfl <;> rw [hpc] <;> rfl
  cases srv with
  | http =>
      simp only [netbufData, hp]
      refine (hmove (.inl rfl)).kept hs huse rfl ?_ ?_
      · simp [ServersEvent.isFault]
      · rw [hone (.inl rfl)]
        exact Nat.zero_add _
  | api =>
      simp only [netbufData, hp]
      split
      · refine (hmove (.inr (.inr rfl))).kept hs huse rfl ?_ ?_
        · simp [ServersEvent.isFault]
        · rw [hone (.inr (.inr rfl))]
          exact Nat.zero_add _
      · refine (hmove (.inr (.inl rfl))).kept hs huse rfl ?_ ?_
        · simp [ServersEvent.isFault]
        · rw [hone (.inr (.inl rfl))]
          exact Nat.zero_add _

theorem netbufNext_kept (hs : Sound s) (hpc : s.pc srv = .next conn buf) :
    Kept s (netbufNext (φ := φ) srv conn buf s) := by
  have hbuf : (s.pc srv).netbuf = some buf := by rw [hpc]; rfl
  obtain ⟨hp, hptr⟩ := hs.filled srv buf (by rw [hpc]; rfl)
  have huse := reads_use hs.netbufs (netbufHeld_pos hbuf)
  rcases hnb : s.netbufs buf with ⟨p, _ | ⟨payload, _ | ⟨payload', next⟩⟩⟩
  · rw [hnb] at hptr
    cases hptr
  · have hmove : Movable s s srv (.drop conn buf) :=
      hs.movable (by rw [hpc]; rfl) (by rw [hpc]; rfl) (by rw [hpc]; rfl) (by rw [hpc]; rfl)
    simp only [netbufNext, hnb]
    refine hmove.kept hs huse rfl ?_ ?_
    · simp [ServersEvent.isFault]
    · rw [hpc]
      rfl
  · have hmove : Movable s
        { s with netbufs := Function.update s.netbufs buf ⟨p, some ⟨payload', next⟩⟩ } srv
        (.data conn buf) :=
      { other := rfl
        netbufs := hs.netbufs_same (by rw [hpc]; rfl)
        netconns := hs.netconns_same (by rw [hpc]; rfl)
        filled := by
          rintro _ ⟨⟩
          rw [hnb] at hp
          simpa using hp
        rest := hs.rest_of_update _ hbuf
        connected := hs.connected_same (by rw [hpc]; rfl)
        led := hs.led }
    simp only [netbufNext, hnb]
    refine hmove.kept hs huse rfl ?_ ?_
    · simp [ServersEvent.isFault]
    · rw [hpc]
      rfl

/-- A thread that frees its netbuf has it no more. -/
theorem Sound.movable_delete (hs : Sound s) {s₁ : Servers} {pc : ServerPc}
    (hfilled : (s.pc srv).filled = some buf) (hnone : pc.netbuf = none)
    (hconn : pc.netconn = (s.pc srv).netconn) (htab : s₁.netbufTab = buf :: s.netbufTab)
    (hnetbufs : s₁.netbufs = Function.update s.netbufs buf ⟨none, none⟩)
    (hpcs : s₁.pc = s.pc) (hcells : s₁.netconnTab = s.netconnTab) (hparked : parked s₁ = parked s)
    (hconnected : s₁.connected = if srv = .api then pc.serving else s.connected)
    (hled : s₁.led = s₁.connected) : Movable s s₁ srv pc where
  other := by rw [hpcs]
  netbufs := by
    rw [htab]
    refine hs.netbufs.give fun i => ?_
    rw [netbufHeld_eq srv, filled_netbuf hfilled, hnone, holds_none]
    omega
  netconns := by
    rw [hcells, hparked]
    exact hs.netconns_same hconn
  filled := by
    intro buf' h
    rw [filled_netbuf h] at hnone
    cases hnone
  rest := by
    rw [hnetbufs]
    exact hs.rest_of_update _ (filled_netbuf hfilled)
  connected := hconnected
  led := hled

theorem netbufDelete_filled (hs : Sound s) (hfilled : (s.pc srv).filled = some buf) :
    (netbufDelete (φ := φ) s (some buf)).2 = [.pbufFree, .netbuf (.give buf)] := by
  have hp := (hs.filled srv buf hfilled).1
  rw [netbufDelete, if_pos hp]
  rfl

theorem dropNetbuf_kept (hs : Sound s) (hpc : s.pc srv = .drop conn buf) :
    Kept s (dropNetbuf (φ := φ) srv conn buf s) := by
  have hfilled : (s.pc srv).filled = some buf := by rw [hpc]; rfl
  have hmove : Movable s (netbufDelete (φ := φ) s (some buf)).1 srv (.recv conn) :=
    hs.movable_delete hfilled rfl (by rw [hpc]; rfl) rfl rfl rfl rfl rfl
      (hs.connected_same (by rw [hpc]; rfl)) hs.led
  have hgive := reads_give hs.netbufs (netbufHeld_pos (filled_netbuf hfilled))
  rw [dropNetbuf]
  refine hmove.kept hs ?_ ?_ ?_ ?_
  all_goals rw [netbufDelete_filled hs hfilled]
  · cases srv <;> exact hgive
  · cases srv <;> rfl
  · cases srv <;> simp [ServersEvent.isFault]
  · rw [hpc]
    cases srv <;> rfl

theorem close_kept (hs : Sound s) {inbuf : Option (Fin netbufCells)}
    (hpc : s.pc srv = .close conn inbuf) :
    Kept s (s.goto srv (.delete conn inbuf),
      .netconn (.use conn) :: if srv = .api then [ServersEvent.api (φ := φ) .close] else []) := by
  have hconn : (s.pc srv).netconn = some conn := by rw [hpc]; rfl
  have hmove : Movable s s srv (.delete conn inbuf) :=
    hs.movable (by rw [hpc]; rfl) (by rw [hpc]; rfl) (by rw [hpc]; rfl) (by rw [hpc]; rfl)
  refine hmove.kept hs ?_ ?_ ?_ ?_
  · cases srv <;> rfl
  · cases srv <;> exact reads_use hs.netconns (netconnHeld_pos hconn)
  · cases srv <;> simp [ServersEvent.isFault]
  · rw [hpc]
    cases srv <;> exact Nat.zero_add _

/-- Where `server_serve` returns without a netbuf, nothing is freed. -/
theorem Sound.movable_leave (hs : Sound s) {s₁ : Servers} (hpc : s.pc srv = .delete conn none)
    (htab : s₁.netbufTab = s.netbufTab) (hnetbufs : s₁.netbufs = s.netbufs) (hpcs : s₁.pc = s.pc)
    (hcells : s₁.netconnTab = s.netconnTab) (hparked : parked s₁ = parked s)
    (hconnected : s₁.connected = if srv = .api then false else s.connected)
    (hled : s₁.led = s₁.connected) : Movable s s₁ srv (.finish conn) where
  other := by rw [hpcs]
  netbufs := by
    rw [htab]
    exact hs.netbufs_same (by rw [hpc]; rfl)
  netconns := by
    rw [hcells, hparked]
    exact hs.netconns_same (by rw [hpc]; rfl)
  filled := fun _ h => nomatch h
  rest := fun _ _ => by rw [hnetbufs]
  connected := hconnected
  led := hled

theorem leave_kept (hs : Sound s) {inbuf : Option (Fin netbufCells)}
    (hpc : s.pc srv = .delete conn inbuf) : Kept s (leave (φ := φ) srv conn inbuf s) := by
  cases inbuf with
  | none =>
      cases srv with
      | http =>
          refine Movable.kept hs (hs.movable_leave hpc rfl rfl rfl rfl rfl rfl hs.led) rfl rfl ?_ ?_
          · simp [netbufDelete]
          · rw [hpc]
            rfl
      | api =>
          refine Movable.kept hs (hs.movable_leave hpc rfl rfl rfl rfl rfl rfl rfl) rfl rfl ?_ ?_
          · simp [netbufDelete, ServersEvent.isFault]
          · rw [hpc]
            rfl
  | some buf =>
      have hfilled : (s.pc srv).filled = some buf := by rw [hpc]; rfl
      have hgive := reads_give hs.netbufs (netbufHeld_pos (filled_netbuf hfilled))
      cases srv with
      | http =>
          have hmove : Movable s (netbufDelete (φ := φ) s (some buf)).1 .http (.finish conn) :=
            hs.movable_delete hfilled rfl (by rw [hpc]; rfl) rfl rfl rfl rfl rfl rfl hs.led
          rw [leave]
          refine hmove.kept hs ?_ ?_ ?_ ?_
          all_goals rw [netbufDelete_filled hs hfilled]
          · exact hgive
          · rfl
          · simp [ServersEvent.isFault]
          · rw [hpc]
            rfl
      | api =>
          have hmove : Movable s ((netbufDelete (φ := φ) s (some buf)).1.setConnected false) .api
              (.finish conn) :=
            hs.movable_delete hfilled rfl (by rw [hpc]; rfl) rfl rfl rfl rfl rfl rfl rfl
          rw [leave]
          refine hmove.kept hs ?_ ?_ ?_ ?_
          all_goals rw [netbufDelete_filled hs hfilled]
          · exact hgive
          · rfl
          · simp [ServersEvent.isFault]
          · rw [hpc]
            rfl

theorem netconnDelete_kept (hs : Sound s) (hpc : s.pc srv = .finish conn) (ans : Answer) :
    Kept s (netconnDelete (φ := φ) srv conn ans s) := by
  have hconn : (s.pc srv).netconn = some conn := by rw [hpc]; rfl
  cases ans with
  | fails =>
      have hmove : Movable s { s with lost := conn :: s.lost } srv .accept :=
        { other := rfl
          netbufs := hs.netbufs_same (by rw [hpc]; rfl)
          netconns := hs.netconns.pass fun i => by
            rw [netconnHeld, served_eq srv, hconn, holds_some]
            simp only [parked, waiting, List.count_cons, beq_iff_eq]
            change _ + _ + _ + (_ + _) + (0 + _) = _
            omega
          filled := fun _ h => nomatch h
          rest := fun _ _ => rfl
          connected := hs.connected_same (by rw [hpc]; rfl)
          led := hs.led }
      refine hmove.kept hs rfl (reads_use hs.netconns (netconnHeld_pos hconn)) ?_ ?_
      · simp [ServersEvent.isFault]
      · rw [hpc]
        rfl
  | done p =>
      have hmove : Movable s { s with netconnTab := conn :: s.netconnTab } srv .accept :=
        { other := rfl
          netbufs := hs.netbufs_same (by rw [hpc]; rfl)
          netconns := hs.netconns.give fun i => by
            rw [netconnHeld, served_eq srv, hconn]
            change _ = parked s i + (0 + _) + _
            omega
          filled := fun _ h => nomatch h
          rest := fun _ _ => rfl
          connected := hs.connected_same (by rw [hpc]; rfl)
          led := hs.led }
      refine hmove.kept hs rfl (reads_give hs.netconns (netconnHeld_pos hconn)) ?_ ?_
      · simp [ServersEvent.isFault]
      · rw [hpc]
        rfl

/-! ### The mailboxes -/

/-- The mailbox of `srv` and the free connections, exchanged for others. -/
def Servers.boxes (srv : Server) (box : List (Option (Fin netconnCells)))
    (tab : List (Fin netconnCells)) (s : Servers) : Servers :=
  { s with acceptmbox := Function.update s.acceptmbox srv box, netconnTab := tab }

theorem waiting_eq (srv : Server) (i : Fin netconnCells) :
    waiting s i
      = (s.acceptmbox srv).count (some i) + (s.acceptmbox srv.other).count (some i) := by
  cases srv
  · rfl
  · exact Nat.add_comm _ _

theorem waiting_boxes (box : List (Option (Fin netconnCells))) (tab : List (Fin netconnCells))
    (i : Fin netconnCells) :
    waiting (s.boxes srv box tab) i
      = box.count (some i) + (s.acceptmbox srv.other).count (some i) := by
  rw [waiting_eq srv]
  cases srv <;> rfl

theorem parked_boxes (srv : Server) (box : List (Option (Fin netconnCells)))
    (tab : List (Fin netconnCells)) (i : Fin netconnCells) :
    parked (s.boxes srv box tab) i + (s.acceptmbox srv).count (some i)
      = parked s i + box.count (some i) := by
  rw [parked, parked, waiting_boxes, waiting_eq srv]
  change _ + _ + _ + s.lost.count i + _ = _
  change holds (some (s.listener .http)) i + holds (some (s.listener .api)) i + _ + _ + _ = _
  omega

theorem boxes_kept (hs : Sound s) {box : List (Option (Fin netconnCells))}
    {tab : List (Fin netconnCells)} {evs : List (ServersEvent φ)}
    (hacc : Accounted tab (netconnHeld (s.boxes srv box tab)))
    (hbufs : evs.filterMap ServersEvent.netbuf? = [])
    (hconns : Reads ledger (taken s.netconnTab) (evs.filterMap ServersEvent.netconn?) (taken tab))
    (hfault : ∀ e ∈ evs, e.isFault = false)
    (hcount : evs.countP ServersEvent.isPbufFree = evs.countP ServersEvent.isReceived) :
    Kept s (s.boxes srv box tab, evs) where
  sound :=
    { netbufs := hs.netbufs
      netconns := hacc
      filled := hs.filled
      connected := hs.connected
      led := hs.led }
  netbufs := by
    rw [hbufs]
    rfl
  netconns := hconns
  noFault := hfault
  packets := by
    change evs.countP ServersEvent.isPbufFree + s.packets
      = s.packets + evs.countP ServersEvent.isReceived
    omega

theorem boxes_self : s.boxes srv (s.acceptmbox srv) s.netconnTab = s := by
  rw [Servers.boxes, Function.update_eq_self]

theorem post_eq (m : Option (Fin netconnCells)) :
    post srv m s = s.boxes srv (if (s.acceptmbox srv).length < acceptmboxSize then
      s.acceptmbox srv ++ [m] else s.acceptmbox srv) s.netconnTab := by
  rw [post]
  split
  · rfl
  · exact boxes_self.symm

/-- Error messages do not hold connections. -/
theorem Sound.boxes_same (hs : Sound s) {box : List (Option (Fin netconnCells))}
    (hbox : ∀ i, box.count (some i) = (s.acceptmbox srv).count (some i)) :
    Accounted s.netconnTab (netconnHeld (s.boxes srv box s.netconnTab)) :=
  hs.netconns.pass fun i => by
    have hparked := parked_boxes (s := s) srv box s.netconnTab i
    rw [hbox i] at hparked
    have hserved : served (s.boxes srv box s.netconnTab) i = served s i := rfl
    rw [netconnHeld, netconnHeld, hserved]
    omega

theorem post_none_kept (hs : Sound s) {evs : List (ServersEvent φ)}
    (hbufs : evs.filterMap ServersEvent.netbuf? = [])
    (hconns : Reads ledger (taken s.netconnTab) (evs.filterMap ServersEvent.netconn?)
      (taken s.netconnTab))
    (hfault : ∀ e ∈ evs, e.isFault = false)
    (hcount : evs.countP ServersEvent.isPbufFree = evs.countP ServersEvent.isReceived) :
    Kept s (post srv none s, evs) := by
  rw [post_eq]
  refine boxes_kept hs (hs.boxes_same fun i => ?_) hbufs hconns hfault hcount
  split
  · simp
  · rfl

theorem incoming_kept (hs : Sound s) (mbox : Bool) :
    Kept s (incoming (φ := φ) srv mbox s) := by
  rw [incoming]
  split
  · exact post_none_kept hs rfl rfl (by simp) rfl
  · next conn rest htab =>
      have hacc := htab ▸ hs.netconns
      split
      · next hroom =>
          -- the connection goes from the free list to the mailbox
          have heq : post srv (some conn) { s with netconnTab := rest }
              = s.boxes srv (s.acceptmbox srv ++ [some conn]) rest := if_pos hroom.2
          rw [heq]
          refine boxes_kept hs (hacc.take fun i => ?_) rfl ?_ ?_ rfl
          · have hparked := parked_boxes (s := s) srv (s.acceptmbox srv ++ [some conn]) rest i
            rw [List.count_append, List.count_singleton] at hparked
            have hserved : served (s.boxes srv (s.acceptmbox srv ++ [some conn]) rest) i
                = served s i := rfl
            rw [netconnHeld, netconnHeld, hserved, holds_some]
            simp only [beq_iff_eq, Option.some.injEq] at hparked
            omega
          · rw [htab]
            exact reads_take hacc
          · simp [ServersEvent.isFault]
      · have hround : Reads ledger (taken s.netconnTab) [.take conn, .give conn]
            (taken s.netconnTab) := by
          rw [htab]
          refine ⟨_, ledger_take hacc, _, ?_, rfl⟩
          have hheld : Accounted rest fun i => netconnHeld s i + holds (some conn) i :=
            hacc.take fun _ => rfl
          exact ledger_give hheld (by rw [holds_self]; omega)
        cases mbox with
        | false =>
            rw [if_neg (by simp)]
            exact post_none_kept hs rfl hround (by simp [ServersEvent.isFault]) rfl
        | true =>
            rw [if_pos rfl]
            exact
              { sound := hs
                netbufs := rfl
                netconns := hround
                noFault := by simp [ServersEvent.isFault]
                packets := Nat.zero_add _ }

/-- A connection goes from the mailbox to the thread. -/
theorem Sound.movable_enter (hs : Sound s) {rest : List (Option (Fin netconnCells))} {c l : Bool}
    (hpc : s.pc srv = .accept) (hbox : s.acceptmbox srv = some conn :: rest)
    (hc : c = if srv = .api then true else s.connected) (hl : l = c) :
    Movable s
      { s with
        acceptmbox := Function.update s.acceptmbox srv rest
        connected := c
        led := l }
      srv (.recv conn) where
  other := rfl
  netbufs := hs.netbufs_same (by rw [hpc]; rfl)
  netconns := hs.netconns.pass fun i => by
    have hparked := parked_boxes (s := s) srv rest s.netconnTab i
    rw [hbox, List.count_cons] at hparked
    simp only [beq_iff_eq, Option.some.injEq] at hparked
    have hnone : holds (s.pc srv).netconn i = 0 := by rw [hpc]; rfl
    have hconn : holds (ServerPc.recv conn).netconn i = if conn = i then 1 else 0 :=
      holds_some conn
    rw [netconnHeld, served_eq srv, hnone, hconn]
    change parked (s.boxes srv rest s.netconnTab) i + _ = _
    omega
  filled := fun _ h => nomatch h
  rest := fun _ _ => rfl
  connected := hc
  led := hl

theorem netconnAccept_kept (hs : Sound s) (hpc : s.pc srv = .accept) (ans : Answer) :
    Kept s (netconnAccept (φ := φ) srv ans s) := by
  have huse := reads_use hs.netconns (listener_pos s srv)
  have hsame : Kept s (s, [ServersEvent.netconn (φ := φ) (.use (s.listener srv))]) :=
    { sound := hs
      netbufs := rfl
      netconns := huse
      noFault := by simp [ServersEvent.isFault]
      packets := Nat.zero_add _ }
  cases ans with
  | fails => exact hsame
  | done p =>
      rcases hbox : s.acceptmbox srv with _ | ⟨_ | conn, rest⟩
      · simp only [netconnAccept, hbox]
        exact hsame
      · simp only [netconnAccept, hbox]
        have hsame : ∀ i, rest.count (some i) = (s.acceptmbox srv).count (some i) := by
          intro i
          rw [hbox]
          simp
        refine boxes_kept hs (hs.boxes_same hsame) rfl huse ?_ rfl
        simp [ServersEvent.isFault]
      · simp only [netconnAccept, hbox]
        cases srv with
        | http =>
            refine (hs.movable_enter hpc hbox rfl hs.led).kept hs rfl huse ?_ ?_
            · simp [enter, ServersEvent.isFault]
            · rw [hpc]
              rfl
        | api =>
            refine (hs.movable_enter hpc hbox rfl rfl).kept hs rfl huse ?_ ?_
            · simp [enter, ServersEvent.isFault]
            · rw [hpc]
              rfl

theorem serverCall_kept (env : ApiEnv φ) (hs : Sound s) (srv : Server) (ans : Answer) :
    Kept s (serverCall env srv ans s) := by
  rcases hpc : s.pc srv with _ | _ | _ | _ | _ | _ | _ | _ | _ <;> simp only [serverCall, hpc]
  · exact netconnAccept_kept hs hpc ans
  · exact netconnRecv_kept hs hpc
  · exact netconnRecvData_kept hs hpc ans
  · exact netbufData_kept env hs hpc
  · exact netbufNext_kept hs hpc
  · exact dropNetbuf_kept hs hpc
  · exact close_kept hs hpc
  · exact leave_kept hs hpc
  · exact netconnDelete_kept hs hpc ans

/-- Every step, of the stack or of a thread, keeps both pools. -/
theorem serversStep_kept (env : ApiEnv φ) (hs : Sound s) (a : ServersAct) :
    Kept s (serversStep env s a) := by
  cases a with
  | incoming srv mbox => exact incoming_kept hs mbox
  | aborted srv => exact post_none_kept hs rfl rfl (by simp) rfl
  | call srv ans => exact serverCall_kept env hs srv ans

end Calls

/-! ## Whole runs -/

variable (env : ApiEnv φ)

def serversNext (s : Servers) (a : ServersAct) : Servers := (serversStep env s a).1

/-- All events of a step. -/
def serversObs (s : Servers) (a : ServersAct) : List (ServersEvent φ) := (serversStep env s a).2

def netbufObs (s : Servers) (a : ServersAct) : List (CellEvent netbufCells) :=
  (serversStep env s a).2.filterMap ServersEvent.netbuf?

def netconnObs (s : Servers) (a : ServersAct) : List (CellEvent netconnCells) :=
  (serversStep env s a).2.filterMap ServersEvent.netconn?

/-- The state after a run of the threads and the stack. -/
def serversAfter (as : List ServersAct) : Servers := run (serversNext env) Servers.boot as

theorem serversNext_sound {s : Servers} (a : ServersAct) (hs : Sound s) :
    Sound (serversNext env s a) :=
  (serversStep_kept env hs a).sound

theorem serversAfter_sound (as : List ServersAct) : Sound (serversAfter env as) :=
  run_invariant_always (fun _ a hs => serversNext_sound env a hs) Sound.boot as

/-! ### A thread between its own calls -/

section Frame

variable {s : Servers}

/-- The thread that an event belongs to, where the event says more than what becomes of the
pools. -/
def ServersEvent.thread? : ServersEvent φ → Option Server
  | .input srv _ => some srv
  | .api _ => some .api
  | .request _ => some .http
  | _ => none

/-- A call of one thread leaves the other one and its netbuf alone. -/
theorem serverCall_frame (hs : Sound s) (srv : Server) (ans : Answer) :
    (serverCall env srv ans s).1.pc srv.other = s.pc srv.other
      ∧ ∀ buf, (s.pc srv.other).filled = some buf →
          (serverCall env srv ans s).1.netbufs buf = s.netbufs buf := by
  have hwrite {buf : Fin netbufCells} (nb : Netbuf) (hbuf : (s.pc srv).netbuf = some buf)
      (buf' : Fin netbufCells) (hother : (s.pc srv.other).filled = some buf') :
      Function.update s.netbufs buf nb buf' = s.netbufs buf' :=
    hs.rest_of_update nb hbuf buf' hother
  rcases hpc : s.pc srv with _ | conn | ⟨conn, buf⟩ | ⟨conn, buf⟩ | ⟨conn, buf⟩ | ⟨conn, buf⟩
    | ⟨conn, inbuf⟩ | ⟨conn, inbuf⟩ | conn <;> simp only [serverCall, hpc]
  · rw [netconnAccept.eq_def]
    split <;> first | exact ⟨rfl, fun _ _ => rfl⟩ | skip
    cases srv <;> exact ⟨rfl, fun _ _ => rfl⟩
  · rw [netconnRecv.eq_def]
    split <;> exact ⟨goto_other, fun _ _ => rfl⟩
  · cases ans with
    | fails => exact ⟨goto_other, fun _ _ => rfl⟩
    | done p => exact ⟨goto_other, hwrite _ (by rw [hpc]; rfl)⟩
  · cases srv <;> rw [netbufData.eq_def] <;> rcases (s.netbufs buf).ptr with _ | p <;>
      exact ⟨rfl, fun _ _ => rfl⟩
  · rcases hnb : s.netbufs buf with ⟨p, _ | ⟨payload, _ | ⟨payload', next⟩⟩⟩ <;>
      simp only [netbufNext, hnb]
    · exact ⟨goto_other, fun _ _ => rfl⟩
    · exact ⟨goto_other, fun _ _ => rfl⟩
    · exact ⟨goto_other, hwrite _ (by rw [hpc]; rfl)⟩
  · exact ⟨goto_other, hwrite _ (by rw [hpc]; rfl)⟩
  · exact ⟨goto_other, fun _ _ => rfl⟩
  · rw [leave.eq_def]
    cases inbuf with
    | none => cases srv <;> exact ⟨rfl, fun _ _ => rfl⟩
    | some buf =>
        cases srv
        · exact ⟨rfl, hwrite _ (by rw [hpc]; rfl)⟩
        · exact ⟨rfl, hwrite _ (by rw [hpc]; rfl)⟩
  · cases ans <;> exact ⟨goto_other, fun _ _ => rfl⟩

theorem netbufDelete_thread (inbuf : Option (Fin netbufCells)) :
    ∀ e ∈ (netbufDelete (φ := φ) s inbuf).2, e.thread? = none := by
  cases inbuf with
  | none => simp [netbufDelete]
  | some buf =>
      rw [netbufDelete]
      split <;> simp [ServersEvent.thread?]

/-- The events of a call are its own thread's. -/
theorem serverCall_thread (srv : Server) (ans : Answer) :
    ∀ e ∈ (serverCall env srv ans s).2, e.thread? ≠ some srv.other := by
  have hdelete (inbuf : Option (Fin netbufCells)) :
      ∀ e ∈ (netbufDelete (φ := φ) s inbuf).2, e.thread? ≠ some srv.other := by
    intro e he
    rw [netbufDelete_thread inbuf e he]
    exact fun h => (nomatch h)
  rcases hpc : s.pc srv with _ | conn | ⟨conn, buf⟩ | ⟨conn, buf⟩ | ⟨conn, buf⟩ | ⟨conn, buf⟩
    | ⟨conn, inbuf⟩ | ⟨conn, inbuf⟩ | conn <;> simp only [serverCall, hpc]
  · rw [netconnAccept.eq_def]
    split <;> cases srv <;> simp [enter, ServersEvent.thread?, Server.other]
  · rw [netconnRecv.eq_def]
    split <;> cases srv <;> simp [recvFailed, ServersEvent.thread?, Server.other]
  · cases ans <;> cases srv <;>
      simp [netconnRecvData, recvFailed, ServersEvent.thread?, Server.other]
  · cases srv <;> rw [netbufData.eq_def] <;> rcases (s.netbufs buf).ptr with _ | p <;>
      simp [ServersEvent.thread?, Server.other]
  · rw [netbufNext.eq_def]
    split <;> simp [ServersEvent.thread?]
  · intro e he
    rcases List.mem_append.mp he with he | he
    · exact hdelete _ e he
    · cases srv <;> simp_all [ServersEvent.thread?, Server.other]
  · cases srv <;> simp [ServersEvent.thread?, Server.other]
  · cases srv with
    | http => exact hdelete inbuf
    | api =>
        intro e he
        rcases List.mem_append.mp he with he | he
        · exact hdelete _ e he
        · simp_all [ServersEvent.thread?, Server.other]
  · cases ans <;> simp [netconnDelete, ServersEvent.thread?]

theorem post_frame (srv : Server) (m : Option (Fin netconnCells)) :
    (post srv m s).pc = s.pc ∧ (post srv m s).netbufs = s.netbufs := by
  rw [post]
  split <;> exact ⟨rfl, rfl⟩

/-- The stack does not touch the threads. -/
theorem incoming_frame (srv : Server) (mbox : Bool) :
    (incoming (φ := φ) srv mbox s).1.pc = s.pc
      ∧ (incoming (φ := φ) srv mbox s).1.netbufs = s.netbufs
      ∧ ∀ e ∈ (incoming (φ := φ) srv mbox s).2, e.thread? = none := by
  rw [incoming]
  split
  · exact ⟨(post_frame srv none).1, (post_frame srv none).2, by simp⟩
  · next conn rest _ =>
      split
      · have hpost := post_frame (s := { s with netconnTab := rest }) srv (some conn)
        exact ⟨hpost.1, hpost.2, by simp [ServersEvent.thread?]⟩
      · cases mbox with
        | false =>
            exact ⟨(post_frame srv none).1, (post_frame srv none).2,
              by simp [ServersEvent.thread?]⟩
        | true => exact ⟨rfl, rfl, by simp [ServersEvent.thread?]⟩

/-- A step that is not a thread's own changes nothing for it. -/
theorem serversStep_frame (hs : Sound s) {srv : Server} {a : ServersAct}
    (ha : ∀ ans, a ≠ .call srv ans) :
    (serversNext env s a).pc srv = s.pc srv
      ∧ (∀ buf, (s.pc srv).filled = some buf → (serversNext env s a).netbufs buf = s.netbufs buf)
      ∧ ∀ e ∈ (serversStep env s a).2, e.thread? ≠ some srv := by
  cases a with
  | incoming srv' mbox =>
      obtain ⟨hpc, hbufs, hevs⟩ := incoming_frame (φ := φ) (s := s) srv' mbox
      refine ⟨congrFun hpc _, fun buf _ => congrFun hbufs buf, fun e he => ?_⟩
      rw [hevs e he]
      exact fun h => (nomatch h)
  | aborted srv' =>
      obtain ⟨hpc, hbufs⟩ := post_frame (s := s) srv' none
      exact ⟨congrFun hpc _, fun buf _ => congrFun hbufs buf, fun e he => (nomatch he)⟩
  | call srv' ans =>
      rcases eq_or_other srv' srv with rfl | rfl
      · exact absurd rfl (ha ans)
      · obtain ⟨hpc, hbufs⟩ := serverCall_frame env hs srv' ans
        exact ⟨hpc, hbufs, serverCall_thread env srv' ans⟩

end Frame

/-- The netbufs in order: every one is taken while it is free, used while it is taken and
freed once, and those that are not free are with one thread each. -/
structure NetbufsInOrder (as : List ServersAct) : Prop where
  ledger : Reads ledger (fun _ => false) (trace (serversNext env) (netbufObs env) Servers.boot as)
    (taken (serversAfter env as).netbufTab)
  held : ∀ i, taken (serversAfter env as).netbufTab i = true
    ↔ ∃ srv, ((serversAfter env as).pc srv).netbuf = some i
  one : ∀ i srv srv', ((serversAfter env as).pc srv).netbuf = some i →
    ((serversAfter env as).pc srv').netbuf = some i → srv = srv'
  /-- no `netconn_recv` runs out of netbufs, and no `ptr` is `NULL` where it is used -/
  noFault : ∀ e ∈ trace (serversNext env) (serversObs env) Servers.boot as, e.isFault = false
  /-- a chain that was received has been freed, or is in the netbuf of a thread -/
  chains : (trace (serversNext env) (serversObs env) Servers.boot as).countP
        ServersEvent.isPbufFree + (serversAfter env as).packets
      = (trace (serversNext env) (serversObs env) Servers.boot as).countP
        ServersEvent.isReceived

theorem Sound.netbuf_held {s : Servers} (hs : Sound s) (i : Fin netbufCells) :
    taken s.netbufTab i = true ↔ ∃ srv, (s.pc srv).netbuf = some i := by
  rw [hs.netbufs.taken_iff, netbufHeld, holds, holds]
  constructor
  · intro h
    by_cases hhttp : (s.pc .http).netbuf = some i
    · exact ⟨.http, hhttp⟩
    · rw [if_neg hhttp] at h
      by_cases hapi : (s.pc .api).netbuf = some i
      · exact ⟨.api, hapi⟩
      · rw [if_neg hapi] at h
        omega
  · rintro ⟨_ | _, h⟩
    · rw [if_pos h]
      omega
    · rw [if_pos h]
      omega

/-- In every run of the two server threads, in any interleaving with each other and with
the connections that arrive, the netbufs are in order: the pool of two is always enough. -/
theorem netbufs_in_order (as : List ServersAct) : NetbufsInOrder env as := by
  have hsound := serversAfter_sound env as
  have hinv := fun s a hs => serversNext_sound (s := s) env a hs
  refine ⟨?_, hsound.netbuf_held, ?_, ?_, ?_⟩
  · have hboot : taken Servers.boot.netbufTab = fun _ => false := by decide
    rw [← hboot]
    exact reads_trace (g := fun s => taken s.netbufTab) hinv
      (fun s a hs => (serversStep_kept env hs a).netbufs) Sound.boot as
  · intro i srv srv' h h'
    rcases eq_or_other srv srv' with rfl | rfl
    · rfl
    · exact absurd h' (hsound.netbuf_ne h)
  · intro e he
    obtain ⟨pre, a, post, -, he⟩ := mem_trace.mp he
    exact (serversStep_kept env (serversAfter_sound env pre) a).noFault e he
  · have hpackets := fun s a hs => (serversStep_kept (s := s) env hs a).packets
    exact (countP_trace_eq hinv hpackets Sound.boot as).trans (Nat.zero_add _)

/-! ## Connections -/

/-- The connections in order: every one is taken while it is free, used while it is taken
and freed once, and is in one place only. -/
structure NetconnsInOrder (as : List ServersAct) : Prop where
  ledger : Reads Pools.ledger (taken Servers.boot.netconnTab)
    (trace (serversNext env) (netconnObs env) Servers.boot as)
    (taken (serversAfter env as).netconnTab)
  place : Accounted (serversAfter env as).netconnTab (netconnHeld (serversAfter env as))
  /-- beside the listeners there are two -/
  two : (serversAfter env as).netconnTab.length
      + ∑ i, (waiting (serversAfter env as) i + served (serversAfter env as) i)
      + (serversAfter env as).lost.length = 2

theorem Sound.netconns_two {s : Servers} (hs : Sound s) :
    s.netconnTab.length + ∑ i, (waiting s i + served s i) + s.lost.length = 2 := by
  have hall := hs.netconns.length_add
  have hsum : ∑ i, netconnHeld s i = 2 + ∑ i, (waiting s i + served s i) + s.lost.length := by
    calc ∑ i, netconnHeld s i
        = ∑ i, (holds (some (s.listener .http)) i + holds (some (s.listener .api)) i
            + (waiting s i + served s i) + s.lost.count i) :=
          Finset.sum_congr rfl fun i _ => by rw [netconnHeld, parked]; omega
      _ = 2 + ∑ i, (waiting s i + served s i) + s.lost.length := by
          rw [Finset.sum_add_distrib, Finset.sum_add_distrib, Finset.sum_add_distrib, sum_holds,
            sum_holds, sum_count]
          rfl
  rw [hsum] at hall
  change _ = 4 at hall
  omega

/-- In every run the connections are in order: no connection is served by both threads or
while it waits for one, and at most two wait or are served. -/
theorem netconns_in_order (as : List ServersAct) : NetconnsInOrder env as where
  ledger := reads_trace (g := fun s => taken s.netconnTab)
    (fun _ a hs => serversNext_sound env a hs)
    (fun _ a hs => (serversStep_kept env hs a).netconns) Sound.boot as
  place := (serversAfter_sound env as).netconns
  two := (serversAfter_sound env as).netconns_two

end Seatel
