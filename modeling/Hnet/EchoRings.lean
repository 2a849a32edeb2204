import Hnet.ServerFibers
import Hnet.UdpEcho

/-!
# The echo protocol over its two rings

`infallible_udp.cc` and `srv2.cc` as they run: the client fibers over the ring of one process, the
server fibers over that of the other, and the network between their sockets. The kernel takes a
datagram out of the network or puts one into it when it ends an operation. What the fiber makes of
it comes later, when the poller has returned the fiber and the scheduler has resumed it.
-/

namespace Hnet

/-- A client fiber. `clock` is what its readings of the clock give, and `counted` is what it adds
to the counters that the fibers share. -/
structure ClientRun where
  thr : Nat
  clock : Nat → Int
  client : Client
  counted : Stats

namespace ClientRun

variable {A : Type}

/-- The fiber in front of its first call. -/
def init (cfg : ClientConfig) (thr : Nat) (clock : Nat → Int) (buf : Buffer 65000) :
    ClientRun where
  thr := thr
  clock := clock
  client := (Client.spawn buf).started cfg (clock 0)
  counted := { timings := [], deadPackets := 0, firstStop := 0, firstStopReqCount := 0 }

/-- `io_uring_prep_sendmsg`, and a timed `io_uring_prep_recvmsg` with `IOSQE_ASYNC` and
`IORING_RECVSEND_POLL_FIRST`. -/
def asks (s : ClientRun) : Option (Request × Bool) :=
  match s.client.pc with
  | .sending => some (⟨.sendmsg, false, false⟩, false)
  | .receiving => some (⟨.recvmsg, true, true⟩, true)
  | .spawned | .leaving | .joined | .threw | .panicked => none

/-- The loop from the end of the timed `ring_submit`. -/
def recvResumed (cfg : ClientConfig) (s : ClientRun) (done : RecvDone A) (outcome : Outcome) :
    ClientRun :=
  let c := { s.client with buf := done.fill s.client.buf }
  let after := c.recvReturned cfg s.counted (s.clock (c.i + 1))
    (Client.judge cfg s.thr c.buf (recvmsgDur (MemView.of 65000) done.addr outcome))
  { s with client := after.1, counted := after.2 }

def resume (cfg : ClientConfig) (s : ClientRun) :
    Outcome → Option (ServerRun.Event A) → ClientRun
  | .panicked, _ => { s with client := { s.client with pc := .panicked } }
  | .returned res, found =>
      match s.client.pc, found with
      | .sending, _ => { s with client := s.client.sendReturned res }
      | .receiving, some (.recv done) => s.recvResumed cfg done (.returned res)
      | _, _ => s
  | .threw code, found =>
      match s.client.pc, found with
      | .receiving, some (.recv done) => s.recvResumed cfg done (.threw code)
      | _, _ => { s with client := { s.client with pc := .threw } }

def program (cfg : ClientConfig) : FiberProgram ClientRun (ServerRun.Event A) where
  asks := asks
  resume := resume cfg
  opcode := ServerRun.Event.opcode
  res := ServerRun.Event.res

end ClientRun

/-- How a ring is set up. -/
structure RingSetup where
  entries : Nat
  capacity : Nat
  fits : entries + capacity < 2 ^ 64
  maxAttempts : UInt64

/-- The client fibers with their ring, the server fibers with theirs, and the network. -/
structure EchoRings (A : Type) (n m : Nat) where
  clients : Fibers (Fin n) ClientRun (ServerRun.Event A)
  servers : Fibers (Fin m) (ServerRun A) (ServerRun.Event A)
  network : List (Packet A)

namespace EchoRings

variable {A : Type} {n m : Nat}

def init (cfg : ClientConfig) (clientRing serverRing : RingSetup) (clock : Fin n → Nat → Int)
    (clientBuf : Fin n → Buffer 65000) (serverBuf : Fin m → Buffer 65000) : EchoRings A n m where
  clients := .init clientRing.entries clientRing.capacity clientRing.fits clientRing.maxAttempts
    fun thr => .init cfg thr (clock thr) (clientBuf thr)
  servers := .init serverRing.entries serverRing.capacity serverRing.fits serverRing.maxAttempts
    fun a => .init (serverBuf a)
  network := []

/-- `WHEELS_VERIFY` takes all server fibers with it. -/
def Aborted (s : EchoRings A n m) : Prop := ∃ a, (s.servers.programs a).server.pc = .aborted

/-- What is behind the `sendmsg` of a client fiber. -/
def clientPacket (cfg : ClientConfig) (topo : Topology A n) (s : EchoRings A n m) (thr : Fin n) :
    Option (Packet A) :=
  if (s.clients.programs thr).client.pc = .sending then
    some ⟨topo.client thr, topo.server, cfg.data thr⟩
  else
    none

/-- The same of a server fiber; `stale` is what an address that was never written holds. -/
def serverPacket (topo : Topology A n) (s : EchoRings A n m) (stale : A) (a : Fin m) :
    Option (Packet A) :=
  (s.servers.programs a).server.outgoing.map fun out =>
    ⟨topo.server, out.2.sockaddr.getD stale, out.1⟩

variable [DecidableEq A]

instance (s : EchoRings A n m) : Decidable s.Aborted :=
  inferInstanceAs (Decidable (∃ a, (s.servers.programs a).server.pc = .aborted))

/-- The network after the end of an operation on a socket. -/
def exchange (network : List (Packet A)) (socket : A) (outgoing : Option (Packet A)) :
    ServerRun.Event A → Option (List (Packet A))
  | .recv (.datagram src payload) =>
      if ⟨src, socket, payload⟩ ∈ network then
        some (network.erase ⟨src, socket, payload⟩)
      else
        none
  | .recv (.failed _) => some network
  | .send res =>
      if res < 0 then
        some network
      else
        match outgoing with
        | some packet =>
            if res = packet.payload.length then some (network ++ [packet]) else none
        | none => none

/-- The network after a step of the fibers of one process. -/
def carried {ι σ : Type} (network : List (Packet A)) (s : Fibers ι σ (ServerRun.Event A))
    (socket : ι → A) (outgoing : ι → Option (Packet A)) :
    Fibers.Event ι (ServerRun.Event A) → Option (List (Packet A))
  | .ends i d =>
      match s.runtime.loop.ring.ring.inKernel[i]? with
      | some sqe => exchange network (socket sqe.addr.fiber) (outgoing sqe.addr.fiber) d
      | none => none
  | .call _ | .runtime _ => some network

inductive Event (A : Type) (n m : Nat) where
  | client (e : Fibers.Event (Fin n) (ServerRun.Event A))
  | server (e : Fibers.Event (Fin m) (ServerRun.Event A)) (stale : A)
  /-- the network loses or repeats a datagram in flight -/
  | drop (packet : Packet A)
  | duplicate (packet : Packet A)
  /-- another host sends to the server -/
  | foreign (src : A) (payload : Bytes)

def step (cfg : ClientConfig) (topo : Topology A n) (s : EchoRings A n m) :
    Event A n m → Option (EchoRings A n m)
  | .client e =>
      (carried s.network s.clients topo.client (s.clientPacket cfg topo) e).bind fun network =>
        (s.clients.step (ClientRun.program cfg) e).map fun clients =>
          { s with clients := clients, network := network }
  | .server e stale =>
      if s.Aborted then
        none
      else
        (carried s.network s.servers (fun _ => topo.server) (s.serverPacket topo stale) e).bind
          fun network => (s.servers.step ServerRun.program e).map fun servers =>
            { s with servers := servers, network := network }
  | .drop packet =>
      if packet ∈ s.network then some { s with network := s.network.erase packet } else none
  | .duplicate packet =>
      if packet ∈ s.network then some { s with network := s.network ++ [packet] } else none
  | .foreign src payload =>
      if ∀ thr, src ≠ topo.client thr then
        some { s with network := s.network ++ [⟨src, topo.server, payload⟩] }
      else
        none

/-! ### What a step can do -/

section Cases

variable {cfg : ClientConfig} {topo : Topology A n} {s s' : EchoRings A n m}

theorem step_client {e : Fibers.Event (Fin n) (ServerRun.Event A)}
    (h : step cfg topo s (.client e) = some s') :
    carried s.network s.clients topo.client (s.clientPacket cfg topo) e = some s'.network
      ∧ s.clients.step (ClientRun.program cfg) e = some s'.clients ∧ s'.servers = s.servers := by
  obtain ⟨network, hcarried, hmap⟩ := Option.bind_eq_some_iff.mp h
  obtain ⟨clients, hstep, rfl⟩ := Option.map_eq_some_iff.mp hmap
  exact ⟨hcarried, hstep, rfl⟩

theorem step_server {e : Fibers.Event (Fin m) (ServerRun.Event A)} {stale : A}
    (h : step cfg topo s (.server e stale) = some s') :
    ¬ s.Aborted
      ∧ carried s.network s.servers (fun _ => topo.server) (s.serverPacket topo stale) e
        = some s'.network
      ∧ s.servers.step ServerRun.program e = some s'.servers ∧ s'.clients = s.clients := by
  simp only [step] at h
  split at h
  · cases h
  · rename_i hgoes
    obtain ⟨network, hcarried, hmap⟩ := Option.bind_eq_some_iff.mp h
    obtain ⟨servers, hstep, rfl⟩ := Option.map_eq_some_iff.mp hmap
    exact ⟨hgoes, hcarried, hstep, rfl⟩

theorem step_drop {packet : Packet A} (h : step cfg topo s (.drop packet) = some s') :
    packet ∈ s.network ∧ s' = { s with network := s.network.erase packet } :=
  Lts.of_guarded h

theorem step_duplicate {packet : Packet A} (h : step cfg topo s (.duplicate packet) = some s') :
    packet ∈ s.network ∧ s' = { s with network := s.network ++ [packet] } :=
  Lts.of_guarded h

theorem step_foreign {src : A} {payload : Bytes}
    (h : step cfg topo s (.foreign src payload) = some s') :
    (∀ thr, src ≠ topo.client thr)
      ∧ s' = { s with network := s.network ++ [⟨src, topo.server, payload⟩] } :=
  Lts.of_guarded h

theorem carried_of_not_ends {ι σ : Type} {network : List (Packet A)}
    {fibers : Fibers ι σ (ServerRun.Event A)} {socket : ι → A}
    {outgoing : ι → Option (Packet A)} {e : Fibers.Event ι (ServerRun.Event A)}
    (h : ∀ i d, e ≠ .ends i d) : carried network fibers socket outgoing e = some network := by
  cases e with
  | ends i d => exact absurd rfl (h i d)
  | call f => rfl
  | runtime e => rfl

theorem carried_ends {ι σ : Type} {network network' : List (Packet A)}
    {fibers : Fibers ι σ (ServerRun.Event A)} {socket : ι → A}
    {outgoing : ι → Option (Packet A)} {i : Nat} {d : ServerRun.Event A} {sqe : Sqe (Ptr ι)}
    (hget : fibers.runtime.loop.ring.ring.inKernel[i]? = some sqe)
    (h : carried network fibers socket outgoing (.ends i d) = some network') :
    exchange network (socket sqe.addr.fiber) (outgoing sqe.addr.fiber) d = some network' := by
  simpa only [carried, hget] using h

theorem exchange_recv {network network' : List (Packet A)} {socket src : A} {payload : Bytes}
    {outgoing : Option (Packet A)}
    (h : exchange network socket outgoing (.recv (.datagram src payload)) = some network') :
    ⟨src, socket, payload⟩ ∈ network ∧ network' = network.erase ⟨src, socket, payload⟩ :=
  Lts.of_guarded h

theorem exchange_send {network network' : List (Packet A)} {socket : A} {res : Int}
    {outgoing : Option (Packet A)}
    (h : exchange network socket outgoing (.send res) = some network') :
    (res < 0 ∧ network' = network) ∨ (0 ≤ res ∧ ∃ packet, outgoing = some packet
      ∧ res = packet.payload.length ∧ network' = network ++ [packet]) := by
  simp only [exchange] at h
  split at h
  · rename_i hneg
    exact Or.inl ⟨hneg, (Option.some.inj h).symm⟩
  · rename_i hnonneg
    split at h
    · rename_i packet
      obtain ⟨hres, heq⟩ := Lts.of_guarded h
      exact Or.inr ⟨not_lt.mp hnonneg, packet, rfl, hres, heq⟩
    · cases h

end Cases

end EchoRings

end Hnet
