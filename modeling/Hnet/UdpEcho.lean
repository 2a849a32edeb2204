import Hnet.Lts
import Hnet.UdpClient
import Hnet.UdpServer
import Mathlib.Data.Fintype.Basic
import Mathlib.Logic.Function.Basic

/-!
# The echo protocol

The client fibers, each on a socket of its own, the server fibers on the one socket they share, and
the network in between. Datagrams in flight can be delivered in any order, dropped and duplicated,
and hosts that take no part in the protocol can send to the server.
-/

namespace Hnet

/-- The addresses of the `n` client sockets and of the server's. -/
structure Topology (A : Type) (n : Nat) where
  client : Fin n → A
  server : A
  client_injective : Function.Injective client
  client_ne_server : ∀ thr, client thr ≠ server

/-- A request: the fiber that sent it, and in which iteration. -/
abbrev RequestId (n : Nat) := Fin n × Nat

/-- A datagram in flight. `request` is history: the request it is, or the one it answers. -/
structure Datagram (A : Type) (n : Nat) where
  src : A
  dst : A
  payload : Bytes
  request : Option (RequestId n)

/-- An iteration that pushed a timing, with the request that the datagram it accepted answers. -/
structure Credit (n : Nat) where
  fiber : Fin n
  iteration : Nat
  request : Option (RequestId n)
  deriving DecidableEq, Repr

/-- The state of `n` client fibers, `m` server fibers and the network. `serving` is history, the
request a server fiber is about to answer, as are the last three fields: what each client fiber
received, the iterations that pushed a timing, and those counted as dead. -/
structure Echo (A : Type) (n m : Nat) where
  clients : Fin n → Client
  stats : Stats
  servers : Fin m → Server A
  serving : Fin m → Option (RequestId n)
  aborted : Bool
  network : List (Datagram A n)
  received : List (Fin n × Bytes)
  credited : List (Credit n)
  dead : List (RequestId n)

namespace Echo

variable {A : Type} {n m : Nat}

/-- The buffers on the stacks of the fibers hold whatever was there. -/
def init (clientBuf : Fin n → Buffer 65000) (serverBuf : Fin m → Buffer 65000) : Echo A n m where
  clients := fun thr => Client.spawn (clientBuf thr)
  stats := { timings := [], deadPackets := 0, firstStop := 0, firstStopReqCount := 0 }
  servers := fun a => { buf := serverBuf a, pc := .receiving }
  serving := fun _ => none
  aborted := false
  network := []
  received := []
  credited := []
  dead := []

/-- The timed receive of a client fiber ends: the operation as `done` says, the link timeout with
the result `timeout`. -/
def recvDone (cfg : ClientConfig) (s : Echo A n m) (thr : Fin n) (done : RecvDone A)
    (request : Option (RequestId n)) (timeout now : Int) : Echo A n m :=
  let c := { s.clients thr with buf := done.fill (s.clients thr).buf }
  let verdict := Client.judge cfg thr c.buf
    (recvmsgDur (MemView.of 65000) done.addr (timedOutcome (done.res 65000) timeout))
  let after := c.recvReturned cfg s.stats now verdict
  { s with
    clients := Function.update s.clients thr after.1
    stats := after.2
    credited := if verdict = .reply then s.credited ++ [⟨thr, c.i, request⟩] else s.credited
    dead := if verdict = .dead then s.dead ++ [(thr, c.i)] else s.dead }

def serverRecvDone (s : Echo A n m) (a : Fin m) (done : RecvDone A)
    (request : Option (RequestId n)) : Echo A n m :=
  let server := (s.servers a).recvReturned done
  { s with
    servers := Function.update s.servers a server
    serving := Function.update s.serving a request
    aborted := match server.pc with
      | .aborted => true
      | _ => s.aborted }

def serverSendDone (s : Echo A n m) (a : Fin m) (res : Int) : Echo A n m :=
  { s with
    servers := Function.update s.servers a ((s.servers a).sendReturned res)
    serving := Function.update s.serving a none }

inductive Event (A : Type) (n m : Nat) where
  /-- a client fiber reads the clock and enters its loop -/
  | start (thr : Fin n) (now : Int)
  /-- the kernel ends its send, with the datagram on its way or with an error -/
  | send (thr : Fin n)
  | sendFails (thr : Fin n) (err : Errno)
  /-- the kernel ends its receive with the `k`-th datagram in flight, or with an error -/
  | recv (thr : Fin n) (k : Nat) (timeout now : Int)
  | recvFails (thr : Fin n) (err : Errno) (timeout now : Int)
  | leave (thr : Fin n) (elapsed : Int)
  /-- the same for a server fiber; `stale` is what an address that was never written holds -/
  | serverRecv (a : Fin m) (k : Nat)
  | serverRecvFails (a : Fin m) (err : Errno)
  | serverSend (a : Fin m) (stale : A)
  | serverSendFails (a : Fin m) (err : Errno)
  /-- the network loses or repeats the `k`-th datagram in flight -/
  | drop (k : Nat)
  | duplicate (k : Nat)
  /-- another host sends to the server -/
  | foreign (src : A) (payload : Bytes)

def step [DecidableEq A] (cfg : ClientConfig) (topo : Topology A n) (s : Echo A n m) :
    Event A n m → Option (Echo A n m)
  | .start thr now =>
      if (s.clients thr).pc = .spawned then
        some { s with
          clients := Function.update s.clients thr ((s.clients thr).started cfg now) }
      else
        none
  | .send thr =>
      if (s.clients thr).pc = .sending then
        some
          { s with
            clients := Function.update s.clients thr
              ((s.clients thr).sendReturned (cfg.data thr).length)
            network := s.network ++
              [⟨topo.client thr, topo.server, cfg.data thr, some (thr, (s.clients thr).i)⟩] }
      else
        none
  | .sendFails thr err =>
      if (s.clients thr).pc = .sending then
        some { s with
          clients := Function.update s.clients thr ((s.clients thr).sendReturned (-err.val)) }
      else
        none
  | .recv thr k timeout now =>
      match s.network[k]? with
      | some d =>
          if (s.clients thr).pc = .receiving ∧ d.dst = topo.client thr then
            let done : RecvDone A := .datagram d.src d.payload
            some (recvDone cfg
              { s with
                network := s.network.eraseIdx k
                received := s.received ++ [(thr, done.payload 65000)] }
              thr done d.request timeout now)
          else
            none
      | none => none
  | .recvFails thr err timeout now =>
      if (s.clients thr).pc = .receiving then
        some (recvDone cfg s thr (.failed err) none timeout now)
      else
        none
  | .leave thr elapsed =>
      if (s.clients thr).pc = .leaving then
        let after := (s.clients thr).leave s.stats elapsed
        some { s with clients := Function.update s.clients thr after.1, stats := after.2 }
      else
        none
  | .serverRecv a k =>
      match s.network[k]?, (s.servers a).pc with
      | some d, .receiving =>
          if s.aborted = false ∧ d.dst = topo.server then
            some (serverRecvDone { s with network := s.network.eraseIdx k } a
              (.datagram d.src d.payload) d.request)
          else
            none
      | _, _ => none
  | .serverRecvFails a err =>
      match s.aborted, (s.servers a).pc with
      | false, .receiving => some (serverRecvDone s a (.failed err) none)
      | _, _ => none
  | .serverSend a stale =>
      match s.aborted, (s.servers a).outgoing with
      | false, some (bytes, addr) =>
          some (serverSendDone
            { s with
              network := s.network ++
                [⟨topo.server, addr.sockaddr.getD stale, bytes, s.serving a⟩] }
            a bytes.length)
      | _, _ => none
  | .serverSendFails a err =>
      match s.aborted, (s.servers a).outgoing with
      | false, some _ => some (serverSendDone s a (-err.val))
      | _, _ => none
  | .drop k =>
      if k < s.network.length then some { s with network := s.network.eraseIdx k } else none
  | .duplicate k =>
      match s.network[k]? with
      | some d => some { s with network := s.network ++ [d] }
      | none => none
  | .foreign src payload =>
      if ∀ thr, src ≠ topo.client thr then
        some { s with network := s.network ++ [⟨src, topo.server, payload, none⟩] }
      else
        none

/-! ### What a step can do -/

section Cases

variable [DecidableEq A] {cfg : ClientConfig} {topo : Topology A n} {s s' : Echo A n m}

theorem step_start {thr : Fin n} {now : Int} (h : step cfg topo s (.start thr now) = some s') :
    (s.clients thr).pc = .spawned ∧ s' = { s with
      clients := Function.update s.clients thr ((s.clients thr).started cfg now) } := by
  simp only [step] at h
  exact Lts.of_guarded h

theorem step_send {thr : Fin n} (h : step cfg topo s (.send thr) = some s') :
    (s.clients thr).pc = .sending ∧ s' = { s with
      clients := Function.update s.clients thr
        ((s.clients thr).sendReturned (cfg.data thr).length)
      network := s.network ++
        [⟨topo.client thr, topo.server, cfg.data thr, some (thr, (s.clients thr).i)⟩] } := by
  simp only [step] at h
  exact Lts.of_guarded h

theorem step_sendFails {thr : Fin n} {err : Errno}
    (h : step cfg topo s (.sendFails thr err) = some s') :
    (s.clients thr).pc = .sending ∧ s' = { s with
      clients := Function.update s.clients thr ((s.clients thr).sendReturned (-err.val)) } := by
  simp only [step] at h
  exact Lts.of_guarded h

theorem step_recv {thr : Fin n} {k : Nat} {timeout now : Int}
    (h : step cfg topo s (.recv thr k timeout now) = some s') :
    ∃ d, s.network[k]? = some d ∧ (s.clients thr).pc = .receiving ∧ d.dst = topo.client thr ∧
      s' = recvDone cfg
        { s with
          network := s.network.eraseIdx k
          received := s.received ++ [(thr, d.payload.take 65000)] }
        thr (.datagram d.src d.payload) d.request timeout now := by
  simp only [step] at h
  split at h
  · rename_i d hd
    split at h
    · rename_i hcan
      exact ⟨d, hd, hcan.1, hcan.2, (Option.some.inj h).symm⟩
    · cases h
  · cases h

theorem step_recvFails {thr : Fin n} {err : Errno} {timeout now : Int}
    (h : step cfg topo s (.recvFails thr err timeout now) = some s') :
    (s.clients thr).pc = .receiving ∧
      s' = recvDone cfg s thr (.failed err) none timeout now := by
  simp only [step] at h
  exact Lts.of_guarded h

theorem step_leave {thr : Fin n} {elapsed : Int}
    (h : step cfg topo s (.leave thr elapsed) = some s') :
    (s.clients thr).pc = .leaving ∧ s' = { s with
      clients := Function.update s.clients thr ((s.clients thr).leave s.stats elapsed).1
      stats := ((s.clients thr).leave s.stats elapsed).2 } := by
  simp only [step] at h
  exact Lts.of_guarded h

theorem step_serverRecv {a : Fin m} {k : Nat} (h : step cfg topo s (.serverRecv a k) = some s') :
    ∃ d, s.network[k]? = some d ∧ (s.servers a).pc = .receiving ∧ d.dst = topo.server ∧
      s' = serverRecvDone { s with network := s.network.eraseIdx k } a
        (.datagram d.src d.payload) d.request := by
  simp only [step] at h
  split at h
  · rename_i d hd hpc
    split at h
    · rename_i hcan
      exact ⟨d, hd, hpc, hcan.2, (Option.some.inj h).symm⟩
    · cases h
  · cases h

theorem step_serverRecvFails {a : Fin m} {err : Errno}
    (h : step cfg topo s (.serverRecvFails a err) = some s') :
    (s.servers a).pc = .receiving ∧ s' = serverRecvDone s a (.failed err) none := by
  simp only [step] at h
  split at h
  · rename_i hpc
    exact ⟨hpc, (Option.some.inj h).symm⟩
  · cases h

theorem step_serverSend {a : Fin m} {stale : A}
    (h : step cfg topo s (.serverSend a stale) = some s') :
    ∃ bytes addr, (s.servers a).outgoing = some (bytes, addr) ∧
      s' = serverSendDone
        { s with
          network := s.network ++
            [⟨topo.server, addr.sockaddr.getD stale, bytes, s.serving a⟩] }
        a bytes.length := by
  simp only [step] at h
  split at h
  · rename_i bytes addr _ hout
    exact ⟨bytes, addr, hout, (Option.some.inj h).symm⟩
  · cases h

theorem step_serverSendFails {a : Fin m} {err : Errno}
    (h : step cfg topo s (.serverSendFails a err) = some s') :
    s' = serverSendDone s a (-err.val) := by
  simp only [step] at h
  split at h
  · exact (Option.some.inj h).symm
  · cases h

theorem step_drop {k : Nat} (h : step cfg topo s (.drop k) = some s') :
    s' = { s with network := s.network.eraseIdx k } := by
  simp only [step] at h
  split at h
  · exact (Option.some.inj h).symm
  · cases h

theorem step_duplicate {k : Nat} (h : step cfg topo s (.duplicate k) = some s') :
    ∃ d, s.network[k]? = some d ∧ s' = { s with network := s.network ++ [d] } := by
  simp only [step] at h
  split at h
  · rename_i d hd
    exact ⟨d, hd, (Option.some.inj h).symm⟩
  · cases h

theorem step_foreign {src : A} {payload : Bytes}
    (h : step cfg topo s (.foreign src payload) = some s') :
    (∀ thr, src ≠ topo.client thr) ∧
      s' = { s with network := s.network ++ [⟨src, topo.server, payload, none⟩] } := by
  simp only [step] at h
  exact Lts.of_guarded h

end Cases

end Echo

end Hnet
