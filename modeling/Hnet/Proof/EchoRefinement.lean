import Hnet.Proof.EchoView

/-!
# The two rings refine the echo protocol

Every step of the rings, the fibers and the network is a step of the protocol or none. A client or
server fiber makes one when the kernel ends a send of its or when it goes on from a receive; all
else that the rings do the protocol does not see.
-/

namespace Hnet.EchoRings

open Lts

variable {A : Type} {n m : Nat} [DecidableEq A] {cfg : ClientConfig} {topo : Topology A n}
  {s s' : EchoRings A n m} {t : Echo A n m}

/-- A receive of the server fails in the protocol only if one has over the ring. -/
def Reflects (s : EchoRings A n m) : Echo.Event A n m → Prop
  | .serverRecvFails a err => s.servers.pending a = some (.recv (.failed err))
  | _ => True

theorem packets_of_erase {packet : Packet A} {clients servers : Multiset (Packet A)}
    {network : List (Packet A)} (hmem : packet ∈ network) {all : Multiset (Packet A)}
    (h : all = (network : Multiset (Packet A)) + clients + servers) :
    all = {packet} + ((network.erase packet : List (Packet A)) : Multiset (Packet A)) + clients
      + servers := by
  rw [h, ← Multiset.coe_erase, Multiset.singleton_add,
    Multiset.cons_erase (Multiset.mem_coe.mpr hmem)]

/-- The kernel ends an operation of a client fiber. -/
theorem shows_client_ends {i : Nat} {d : ServerRun.Event A} {sqe : Sqe (Ptr (Fin n))}
    {req : Request} {timed : Bool} (hR : Shows topo s t)
    (hget : s.clients.runtime.loop.ring.ring.inKernel[i]? = some sqe)
    (hasks : (s.clients.programs sqe.addr.fiber).asks = some (req, timed))
    (hopcode : d.opcode = req.opcode) (hfree : s.clients.pending sqe.addr.fiber = none)
    (hpending : s'.clients.pending
      = Function.update s.clients.pending sqe.addr.fiber (some d))
    (hprograms : s'.clients.programs = s.clients.programs) (hservers : s'.servers = s.servers)
    (hcarried : carried s.network s.clients topo.client (s.clientPacket cfg topo) (.ends i d)
      = some s'.network) :
    Shows topo s' t ∨
      ∃ d t', s.Reflects d ∧ Echo.step cfg topo t d = some t' ∧ Shows topo s' t' := by
  have hexchange := carried_ends hget hcarried
  generalize sqe.addr.fiber = thr at hasks hfree hpending hexchange
  obtain ⟨others, hbefore, hafter⟩ := taken_update topo.client s.clients.pending thr (some d)
  rw [hfree] at hbefore
  rw [← hpending] at hafter
  have hsame : s'.clients.programs
      = Function.update s.clients.programs thr (s.clients.programs thr) := by
    rw [hprograms, Function.update_eq_self]
  have hnow : t.clients thr = (s.clients.programs thr).client := by
    rw [hR.clients.seen, hfree]
    rfl
  have hserversShown : ServersShown s'.servers t := hservers ▸ hR.servers
  cases d with
  | recv done =>
      have hclients : ClientsShown s'.clients t := by
        refine hR.clients.update_only ?_ hpending hsame rfl rfl rfl
        rw [ClientRun.seen_recv, ← hnow, Function.update_eq_self]
      refine Or.inl ⟨hclients, hserversShown, ?_⟩
      cases done with
      | datagram src payload =>
          obtain ⟨hmem, hnetwork⟩ := exchange_recv hexchange
          rw [packets_of_erase hmem hR.network, hnetwork, hservers, hafter, hbefore]
          simp only [takenBy, zero_add]
          ac_rfl
      | failed err =>
          have hnetwork : s.network = s'.network := Option.some.inj hexchange
          rw [hR.network, ← hnetwork, hservers, hafter, hbefore]
          rfl
  | send res =>
      obtain ⟨hpc, _⟩ := ClientRun.sending_of_asks hasks hopcode
      have htaken : taken topo.client s'.clients.pending = taken topo.client s.clients.pending :=
        hafter.trans hbefore.symm
      have hclients : ∀ t' : Echo A n m,
          t'.clients = Function.update t.clients thr ((t.clients thr).sendReturned res) →
          t'.stats = t.stats → ClientsShown s'.clients t' := by
        intro t' hclients hstats
        rw [hnow] at hclients
        exact hR.clients.update_only hclients hpending hsame rfl rfl hstats
      have hsending : (t.clients thr).pc = .sending := hnow ▸ hpc
      rcases exchange_send hexchange with ⟨hneg, hnetwork⟩ | ⟨_, packet, hpacket, hres, hnetwork⟩
      · obtain ⟨err, herr⟩ : ∃ err : Errno, -(err.val : Int) = res :=
          ⟨⟨(-res).toNat, by omega⟩, by simp only; omega⟩
        refine Or.inr ⟨.sendFails thr err, _, trivial, if_pos hsending, ?_⟩
        refine ⟨hclients _ (by rw [herr]) rfl, hserversShown.congr rfl rfl rfl rfl, ?_⟩
        rw [hnetwork, htaken, hservers]
        exact hR.network
      · rw [clientPacket, if_pos hpc] at hpacket
        obtain rfl := Option.some.inj hpacket
        refine Or.inr ⟨.send thr, _, trivial, if_pos hsending, ?_⟩
        refine ⟨hclients _ (by rw [hres]) rfl, hserversShown.congr rfl rfl rfl rfl, ?_⟩
        rw [packets_concat, hR.network, hnetwork, htaken, hservers, ← Multiset.coe_add,
          Multiset.coe_singleton]
        simp only [Datagram.packet]
        ac_rfl

omit [DecidableEq A] in
/-- The protocol's end of a receive is what the fiber makes of it over the ring. -/
theorem ClientsShown.recvDone {clients clients' : Fibers (Fin n) ClientRun (ServerRun.Event A)}
    {t₀ : Echo A n m} {thr : Fin n} {done : RecvDone A} {timeout : Int}
    {request : Option (RequestId n)} (h : ClientsShown clients t)
    (hclients : t₀.clients = t.clients) (hstats : t₀.stats = t.stats)
    (hhas : clients.pending thr = some (.recv done))
    (hpending : clients'.pending = Function.update clients.pending thr none)
    (hprograms : clients'.programs = Function.update clients.programs thr
      ((clients.programs thr).recvResumed cfg done (timedOutcome (done.res 65000) timeout))) :
    ClientsShown clients' (Echo.recvDone cfg t₀ thr done request timeout
      ((clients.programs thr).clock ((clients.programs thr).client.i + 1))) := by
  have hnow : t₀.clients thr = (clients.programs thr).client := by
    rw [hclients, h.seen, hhas]
    rfl
  obtain ⟨gained, dead, hadds⟩ := Client.recvReturned_snd cfg
    { (clients.programs thr).client with buf := done.fill (clients.programs thr).client.buf }
    ((clients.programs thr).clock ((clients.programs thr).client.i + 1))
    (Client.judge cfg thr (done.fill (clients.programs thr).client.buf)
      (recvmsgDur (MemView.of 65000) done.addr (timedOutcome (done.res 65000) timeout)))
  refine h.update gained dead ?_ hpending hprograms rfl ?_ ?_
  · simp only [Echo.recvDone, hnow, hclients, ClientRun.seen, ClientRun.recvResumed, h.own thr]
    exact congrArg _ (Client.recvReturned_fst _ _ _ _ _ _)
  · simp only [ClientRun.recvResumed, h.own thr]
    exact hadds _
  · simp only [Echo.recvDone, hnow]
    rw [hadds, hstats]

/-- A client fiber goes on. -/
theorem shows_client_goesOn {thr : Fin n} {d : ServerRun.Event A} {outcome : Outcome}
    (hR : Shows topo s t)
    (hfits : (ClientRun.program cfg).Fits (s.clients.programs thr) (outcome, some d))
    (hhas : s.clients.pending thr = some d)
    (hpending : s'.clients.pending = Function.update s.clients.pending thr none)
    (hprograms : s'.clients.programs = Function.update s.clients.programs thr
      ((s.clients.programs thr).resume cfg outcome (some d)))
    (hservers : s'.servers = s.servers) (hnetwork : s'.network = s.network) :
    Shows topo s' t ∨
      ∃ d t', s.Reflects d ∧ Echo.step cfg topo t d = some t' ∧ Shows topo s' t' := by
  obtain ⟨others, hbefore, hafter⟩ := taken_update topo.client s.clients.pending thr none
  rw [hhas] at hbefore
  rw [← hpending] at hafter
  have hserversShown : ServersShown s'.servers t := hservers ▸ hR.servers
  have hall : packets t.network = takenBy (topo.client thr) (some d)
      + ((s'.network : Multiset (Packet A)) + taken topo.client s'.clients.pending
        + taken (fun _ => topo.server) s'.servers.pending) := by
    rw [hR.network, hnetwork, hservers, hbefore, hafter]
    simp only [takenBy, zero_add]
    ac_rfl
  cases d with
  | send res =>
      rw [(ClientRun.resume_send hfits).2] at hprograms
      refine Or.inl ⟨hR.clients.update_only ?_ hpending hprograms rfl rfl rfl, hserversShown, ?_⟩
      · have hnow : t.clients thr = (s.clients.programs thr).client.sendReturned res := by
          rw [hR.clients.seen, hhas]
          rfl
        change t.clients = Function.update t.clients thr
          ((s.clients.programs thr).client.sendReturned res)
        rw [← hnow, Function.update_eq_self]
      · simpa only [takenBy, zero_add] using hall
  | recv done =>
      obtain ⟨hpc, timeout, hresume⟩ := ClientRun.resume_recv hfits
      rw [hresume] at hprograms
      have hreceiving : (t.clients thr).pc = .receiving := by
        rw [hR.clients.seen, hhas]
        exact hpc
      cases done with
      | datagram src payload =>
          -- the datagram that the kernel has taken is still in flight in the protocol
          have hmem : ⟨src, topo.client thr, payload⟩ ∈ packets t.network := by
            rw [hall]
            exact Multiset.mem_add.mpr (Or.inl (Multiset.mem_singleton_self _))
          obtain ⟨k, d, hd, hpacket⟩ := exists_of_mem_packets hmem
          obtain ⟨rfl, hdst, rfl⟩ := Packet.mk.inj hpacket
          have hstep := Echo.step_recv_of cfg timeout
            ((s.clients.programs thr).clock ((s.clients.programs thr).client.i + 1)) hd hreceiving
            hdst
          refine Or.inr ⟨.recv thr k timeout _, _, trivial, hstep, ?_,
            hserversShown.congr rfl rfl rfl rfl, ?_⟩
          · exact hR.clients.recvDone rfl rfl hhas hpending hprograms
          · have hone := (packets_eraseIdx hd).symm.trans hall
            rw [hpacket] at hone
            exact add_left_cancel hone
      | failed err =>
          have hstep : Echo.step cfg topo t (.recvFails thr err timeout
              ((s.clients.programs thr).clock ((s.clients.programs thr).client.i + 1)))
              = some _ := if_pos hreceiving
          refine Or.inr ⟨.recvFails thr err timeout _, _, trivial, hstep, ?_,
            hserversShown.congr rfl rfl rfl rfl, ?_⟩
          · exact hR.clients.recvDone rfl rfl hhas hpending hprograms
          · exact hall.trans (zero_add _)

/-- The kernel ends an operation of a server fiber. -/
theorem shows_server_ends {i : Nat} {d : ServerRun.Event A} {stale : A} {sqe : Sqe (Ptr (Fin m))}
    {req : Request} {timed : Bool} (hR : Shows topo s t) (hgoes : ¬ s.Aborted)
    (hget : s.servers.runtime.loop.ring.ring.inKernel[i]? = some sqe)
    (hasks : (s.servers.programs sqe.addr.fiber).asks = some (req, timed))
    (hopcode : d.opcode = req.opcode) (hfree : s.servers.pending sqe.addr.fiber = none)
    (hpending : s'.servers.pending
      = Function.update s.servers.pending sqe.addr.fiber (some d))
    (hprograms : s'.servers.programs = s.servers.programs) (hclients : s'.clients = s.clients)
    (hcarried : carried s.network s.servers (fun _ => topo.server) (s.serverPacket topo stale)
      (.ends i d) = some s'.network) :
    Shows topo s' t ∨
      ∃ d t', s.Reflects d ∧ Echo.step cfg topo t d = some t' ∧ Shows topo s' t' := by
  have hexchange := carried_ends hget hcarried
  generalize sqe.addr.fiber = a at hasks hfree hpending hexchange
  obtain ⟨others, hbefore, hafter⟩ :=
    taken_update (fun _ => topo.server) s.servers.pending a (some d)
  rw [hfree] at hbefore
  rw [← hpending] at hafter
  have hsame : s'.servers.programs
      = Function.update s.servers.programs a (s.servers.programs a) := by
    rw [hprograms, Function.update_eq_self]
  have hnow : t.servers a = (s.servers.programs a).server := by
    rw [hR.servers.seen, hfree]
    rfl
  have hruns : (s.servers.programs a).server.pc ≠ .aborted := fun hpc => hgoes ⟨a, hpc⟩
  have hclientsShown : ClientsShown s'.clients t := hclients ▸ hR.clients
  cases d with
  | recv done =>
      have hservers : ServersShown s'.servers t := by
        refine hR.servers.update_only ?_ rfl hruns hruns hpending hsame
        rw [ServerRun.seen_recv, ← hnow, Function.update_eq_self]
      refine Or.inl ⟨hclientsShown, hservers, ?_⟩
      cases done with
      | datagram src payload =>
          obtain ⟨hmem, hnetwork⟩ := exchange_recv hexchange
          rw [packets_of_erase hmem hR.network, hnetwork, hclients, hafter, hbefore]
          simp only [takenBy, zero_add]
          ac_rfl
      | failed err =>
          have hnetwork : s.network = s'.network := Option.some.inj hexchange
          rw [hR.network, ← hnetwork, hclients, hafter, hbefore]
          rfl
  | send res =>
      have htaken : taken (fun _ => topo.server) s'.servers.pending
          = taken (fun _ => topo.server) s.servers.pending := hafter.trans hbefore.symm
      have hservers : ∀ t' : Echo A n m,
          t'.servers = Function.update t.servers a ((t.servers a).sendReturned res) →
          t'.aborted = t.aborted → ServersShown s'.servers t' := by
        intro t' hservers haborted
        rw [hnow] at hservers
        exact hR.servers.update_only hservers haborted hruns hruns hpending hsame
      have htgoes : t.aborted = false := hR.servers.aborted_eq_false hgoes
      obtain ⟨ww, hpc⟩ := ServerRun.sending_of_asks hasks hopcode.symm
      obtain ⟨bytes, addr, hout⟩ : ∃ bytes addr,
          (s.servers.programs a).server.outgoing = some (bytes, addr) :=
        ⟨_, _, by rw [Server.outgoing, hpc]⟩
      have htout : (t.servers a).outgoing = some (bytes, addr) := hnow ▸ hout
      rcases exchange_send hexchange with ⟨hneg, hnetwork⟩ | ⟨_, packet, hpacket, hres, hnetwork⟩
      · obtain ⟨err, herr⟩ : ∃ err : Errno, -(err.val : Int) = res :=
          ⟨⟨(-res).toNat, by omega⟩, by simp only; omega⟩
        have hstep := Echo.step_serverSendFails_of cfg topo err htgoes htout
        refine Or.inr ⟨.serverSendFails a err, _, trivial, hstep, ?_⟩
        refine ⟨hclientsShown.congr rfl rfl rfl rfl, hservers _ (by rw [herr]; rfl) rfl, ?_⟩
        rw [hnetwork, htaken, hclients]
        exact hR.network
      · rw [serverPacket, hout] at hpacket
        obtain rfl := Option.some.inj hpacket
        have hstep := Echo.step_serverSend_of cfg topo stale htgoes htout
        refine Or.inr ⟨.serverSend a stale, _, trivial, hstep, ?_⟩
        refine ⟨hclientsShown.congr rfl rfl rfl rfl, hservers _ (by rw [hres]; rfl) rfl, ?_⟩
        change packets (t.network ++ _) = _
        rw [packets_concat, hR.network, hnetwork, htaken, hclients, ← Multiset.coe_add,
          Multiset.coe_singleton]
        simp only [Datagram.packet]
        ac_rfl

/-- A server fiber goes on. -/
theorem shows_server_goesOn {a : Fin m} {d : ServerRun.Event A} {outcome : Outcome}
    (hR : Shows topo s t) (hgoes : ¬ s.Aborted)
    (hfits : ServerRun.program.Fits (s.servers.programs a) (outcome, some d))
    (hhas : s.servers.pending a = some d)
    (hpending : s'.servers.pending = Function.update s.servers.pending a none)
    (hprograms : s'.servers.programs = Function.update s.servers.programs a
      ((s.servers.programs a).resume outcome (some d)))
    (hclients : s'.clients = s.clients) (hnetwork : s'.network = s.network) :
    Shows topo s' t ∨
      ∃ d t', s.Reflects d ∧ Echo.step cfg topo t d = some t' ∧ Shows topo s' t' := by
  obtain ⟨others, hbefore, hafter⟩ := taken_update (fun _ => topo.server) s.servers.pending a none
  rw [hhas] at hbefore
  rw [← hpending] at hafter
  have hclientsShown : ClientsShown s'.clients t := hclients ▸ hR.clients
  have hruns : (s.servers.programs a).server.pc ≠ .aborted := fun hpc => hgoes ⟨a, hpc⟩
  have htgoes : t.aborted = false := hR.servers.aborted_eq_false hgoes
  have hall : packets t.network = takenBy topo.server (some d)
      + ((s'.network : Multiset (Packet A)) + taken topo.client s'.clients.pending
        + taken (fun _ => topo.server) s'.servers.pending) := by
    rw [hR.network, hnetwork, hclients, hbefore, hafter]
    simp only [takenBy, zero_add]
    ac_rfl
  cases d with
  | send res =>
      have hresume := ServerRun.resume_send hfits
      have hnow : t.servers a = (s.servers.programs a).server.sendReturned res := by
        rw [hR.servers.seen, hhas]
        rfl
      refine Or.inl ⟨hclientsShown, hR.servers.update_only ?_ rfl hruns ?_ hpending hprograms, ?_⟩
      · change t.servers = Function.update t.servers a (ServerRun.resume _ _ _).server
        rw [hresume, ← hnow, Function.update_eq_self]
      · rw [hresume, Server.sendReturned_pc]
        split <;> exact fun heq => by cases heq
      · simpa only [takenBy, zero_add] using hall
  | recv done =>
      obtain ⟨hpc, hresume⟩ := ServerRun.resume_recv hfits
      have hnow : t.servers a = (s.servers.programs a).server := by
        rw [hR.servers.seen, hhas]
        rfl
      have hreceiving : (t.servers a).pc = .receiving := hnow ▸ hpc
      have hservers : ∀ (t₀ : Echo A n m) (request : Option (RequestId n)),
          t₀.servers = t.servers → t₀.aborted = t.aborted →
            ServersShown s'.servers (Echo.serverRecvDone t₀ a done request) := by
        intro t₀ request hsame haborted
        refine hR.servers.update ?_ ?_ hruns hpending hprograms
        · simp only [Echo.serverRecvDone, hsame, ServerRun.seen, hresume, hnow]
        · simp only [Echo.serverRecvDone, hsame, hresume, hnow, haborted]
          cases (s.servers.programs a).server.recvReturned done |>.pc <;> simp
      cases done with
      | datagram src payload =>
          have hmem : ⟨src, topo.server, payload⟩ ∈ packets t.network := by
            rw [hall]
            exact Multiset.mem_add.mpr (Or.inl (Multiset.mem_singleton_self _))
          obtain ⟨k, d, hd, hpacket⟩ := exists_of_mem_packets hmem
          obtain ⟨rfl, hdst, rfl⟩ := Packet.mk.inj hpacket
          have hstep := Echo.step_serverRecv_of cfg htgoes hd hreceiving hdst
          refine Or.inr ⟨.serverRecv a k, _, trivial, hstep, hclientsShown.congr rfl rfl rfl rfl,
            hservers _ _ rfl rfl, ?_⟩
          have hone := (packets_eraseIdx hd).symm.trans hall
          rw [hpacket] at hone
          exact add_left_cancel hone
      | failed err =>
          have hstep := Echo.step_serverRecvFails_of cfg topo err htgoes hreceiving
          refine Or.inr ⟨.serverRecvFails a err, _, hhas, hstep,
            hclientsShown.congr rfl rfl rfl rfl, hservers _ _ rfl rfl, ?_⟩
          exact hall.trans (zero_add _)

/-- The network loses, repeats or lets in a datagram. -/
theorem shows_network {e : Event A n m} (hR : Shows topo s t)
    (hclient : ∀ e', e ≠ .client e') (hserver : ∀ e' stale, e ≠ .server e' stale)
    (h : step cfg topo s e = some s') :
    ∃ d t', s.Reflects d ∧ Echo.step cfg topo t d = some t' ∧ Shows topo s' t' := by
  have hclients : ∀ network, ClientsShown s.clients { t with network := network } :=
    fun network => hR.clients.congr rfl rfl rfl rfl
  have hservers : ∀ network, ServersShown s.servers { t with network := network } :=
    fun network => hR.servers.congr rfl rfl rfl rfl
  have hfind : ∀ packet ∈ s.network, ∃ (k : Nat) (d : Datagram A n),
      t.network[k]? = some d ∧ d.packet = packet := by
    intro packet hmem
    refine exists_of_mem_packets ?_
    rw [hR.network, add_assoc]
    exact Multiset.mem_add.mpr (Or.inl (Multiset.mem_coe.mpr hmem))
  cases e with
  | client e => exact absurd rfl (hclient e)
  | server e stale => exact absurd rfl (hserver e stale)
  | drop packet =>
      obtain ⟨hmem, rfl⟩ := step_drop h
      obtain ⟨k, d, hd, hpacket⟩ := hfind packet hmem
      have hk : k < t.network.length := (List.getElem?_eq_some_iff.mp hd).1
      refine ⟨.drop k, _, trivial, if_pos hk, hclients _, hservers _, ?_⟩
      have hone := (packets_eraseIdx hd).symm.trans (packets_of_erase hmem hR.network)
      rw [hpacket, add_assoc, add_assoc] at hone
      rw [add_assoc]
      exact add_left_cancel hone
  | duplicate packet =>
      obtain ⟨hmem, rfl⟩ := step_duplicate h
      obtain ⟨k, d, hd, hpacket⟩ := hfind packet hmem
      have hstep : Echo.step cfg topo t (.duplicate k)
          = some { t with network := t.network ++ [d] } := by
        simp only [Echo.step, hd]
      refine ⟨.duplicate k, _, trivial, hstep, hclients _, hservers _, ?_⟩
      rw [packets_concat, hpacket, hR.network, ← Multiset.coe_add, Multiset.coe_singleton]
      ac_rfl
  | foreign src payload =>
      obtain ⟨hsrc, rfl⟩ := step_foreign h
      refine ⟨.foreign src payload, _, trivial, if_pos hsrc, hclients _, hservers _, ?_⟩
      rw [packets_concat, hR.network, ← Multiset.coe_add, Multiset.coe_singleton]
      simp only [Datagram.packet]
      ac_rfl

/-- What the rings promise: the count checks of the timed calls pass, and no operation ends with the
sentinel of the setters. -/
def Regular (cfg : ClientConfig) (s : EchoRings A n m) : Event A n m → Prop
  | .client e => s.clients.CountPasses (ClientRun.program cfg) e
      ∧ s.clients.SparesEnocqe (ClientRun.program cfg) e
  | .server e _ => s.servers.SparesEnocqe ServerRun.program e
  | .drop _ | .duplicate _ | .foreign _ _ => True

instance (s : EchoRings A n m) : ∀ e, Decidable (s.Regular cfg e)
  | .client e => inferInstanceAs (Decidable (s.clients.CountPasses (ClientRun.program cfg) e
      ∧ s.clients.SparesEnocqe (ClientRun.program cfg) e))
  | .server e _ => inferInstanceAs (Decidable (s.servers.SparesEnocqe ServerRun.program e))
  | .drop _ | .duplicate _ | .foreign _ _ => isTrue trivial

/-- Both rings work as they should. -/
structure RingsSound (cfg : ClientConfig) (s : EchoRings A n m) : Prop where
  clients : s.clients.Sound (ClientRun.program cfg) ∧ s.clients.runtime.Heard
  servers : s.servers.Sound ServerRun.program ∧ s.servers.runtime.Heard

theorem shows_step {e : Event A n m} (hs : s.RingsSound cfg) (hR : Shows topo s t)
    (hok : s.Regular cfg e) (h : step cfg topo s e = some s') :
    Shows topo s' t ∨
      ∃ d t', s.Reflects d ∧ Echo.step cfg topo t d = some t' ∧ Shows topo s' t' := by
  cases e with
  | client e =>
      obtain ⟨hcarried, hstep, hservers⟩ := step_client h
      cases Fibers.opStep_of_step hs.clients.1 hs.clients.2 hok.1 hstep with
      | ends i d sqe req timed he hget hasks hopcode hfree hpending hprograms =>
          rw [he] at hcarried
          exact shows_client_ends hR hget hasks hopcode hfree hpending hprograms hservers hcarried
      | quiet he hpending hprograms =>
          have hnetwork := Option.some.inj ((carried_of_not_ends he).symm.trans hcarried)
          refine Or.inl ⟨hR.clients.congr rfl rfl hpending hprograms, hservers ▸ hR.servers, ?_⟩
          rw [← hnetwork, hpending, hservers]
          exact hR.network
      | goesOn thr d outcome he hfits hhas hpending hprograms =>
          have hnetwork := Option.some.inj ((carried_of_not_ends he).symm.trans hcarried)
          exact shows_client_goesOn hR hfits hhas hpending hprograms hservers hnetwork.symm
  | server e stale =>
      obtain ⟨hgoes, hcarried, hstep, hclients⟩ := step_server h
      cases Fibers.opStep_of_step hs.servers.1 hs.servers.2
        (hs.servers.1.countPasses ServerRun.plain_program e) hstep with
      | ends i d sqe req timed he hget hasks hopcode hfree hpending hprograms =>
          rw [he] at hcarried
          exact shows_server_ends hR hgoes hget hasks hopcode hfree hpending hprograms hclients
            hcarried
      | quiet he hpending hprograms =>
          have hnetwork := Option.some.inj ((carried_of_not_ends he).symm.trans hcarried)
          refine Or.inl ⟨hclients ▸ hR.clients, hR.servers.congr rfl rfl hpending hprograms, ?_⟩
          rw [← hnetwork, hpending, hclients]
          exact hR.network
      | goesOn a d outcome he hfits hhas hpending hprograms =>
          have hnetwork := Option.some.inj ((carried_of_not_ends he).symm.trans hcarried)
          exact shows_server_goesOn hR hgoes hfits hhas hpending hprograms hclients hnetwork.symm
  | drop packet =>
      exact Or.inr (shows_network hR (fun _ heq => by cases heq) (fun _ _ heq => by cases heq) h)
  | duplicate packet =>
      exact Or.inr (shows_network hR (fun _ heq => by cases heq) (fun _ _ heq => by cases heq) h)
  | foreign src payload =>
      exact Or.inr (shows_network hR (fun _ heq => by cases heq) (fun _ _ heq => by cases heq) h)

/-! ### Runs -/

section Runs

variable {clientRing serverRing : RingSetup} {clock : Fin n → Nat → Int}
  {clientBuf : Fin n → Buffer 65000} {serverBuf : Fin m → Buffer 65000} {es : List (Event A n m)}

theorem simulates_clients : Simulates (step cfg topo) (Regular cfg)
    (Fibers.step (ClientRun.program cfg))
    (fun s e => s.CountPasses (ClientRun.program cfg) e
      ∧ s.SparesEnocqe (ClientRun.program cfg) e)
    (EchoRings.clients (A := A) (n := n) (m := m)) := by
  intro s e s' hok h
  cases e with
  | client e => exact Or.inr ⟨e, hok, (step_client h).2.1⟩
  | server e stale => exact Or.inl (step_server h).2.2.2
  | drop packet =>
      obtain ⟨_, rfl⟩ := step_drop h
      exact Or.inl rfl
  | duplicate packet =>
      obtain ⟨_, rfl⟩ := step_duplicate h
      exact Or.inl rfl
  | foreign src payload =>
      obtain ⟨_, rfl⟩ := step_foreign h
      exact Or.inl rfl

theorem simulates_servers : Simulates (step cfg topo) (Regular cfg)
    (Fibers.step ServerRun.program) (Fibers.SparesEnocqe ServerRun.program)
    (EchoRings.servers (A := A) (n := n) (m := m)) := by
  intro s e s' hok h
  cases e with
  | client e => exact Or.inl (step_client h).2.2
  | server e stale => exact Or.inr ⟨e, hok, (step_server h).2.2.1⟩
  | drop packet =>
      obtain ⟨_, rfl⟩ := step_drop h
      exact Or.inl rfl
  | duplicate packet =>
      obtain ⟨_, rfl⟩ := step_duplicate h
      exact Or.inl rfl
  | foreign src payload =>
      obtain ⟨_, rfl⟩ := step_foreign h
      exact Or.inl rfl

theorem ringsSound_throughout
    (hregular : Along (step cfg topo) (Regular cfg)
      (init cfg clientRing serverRing clock clientBuf serverBuf) es) :
    Throughout (step cfg topo) (RingsSound cfg)
      (init cfg clientRing serverRing clock clientBuf serverBuf) es := by
  have hclients := simulates_clients.throughout hregular fun ds hds =>
    Fibers.sound_throughout (hds.imp fun _ _ h => h.1) (hds.imp fun _ _ h => h.2)
  have hservers := simulates_servers.throughout hregular fun ds hds =>
    Fibers.sound_of_plain ServerRun.plain_program hds
  exact (hclients.and hservers).imp fun _ hs => ⟨hs.1, hs.2⟩

/-- The client fibers read the clock and enter their loops. -/
def starts (clock : Fin n → Nat → Int) (thrs : List (Fin n)) : List (Echo.Event A n m) :=
  thrs.map fun thr => .start thr (clock thr 0)

theorem run_starts {thrs : List (Fin n)} (hnodup : thrs.Nodup)
    (hspawned : ∀ thr ∈ thrs, (t.clients thr).pc = .spawned) :
    run (Echo.step cfg topo) t (starts clock thrs) = some { t with
      clients := fun thr => if thr ∈ thrs then (t.clients thr).started cfg (clock thr 0)
        else t.clients thr } := by
  induction thrs generalizing t with
  | nil => simp [starts]
  | cons thr thrs ih =>
      obtain ⟨hnot, hnodup⟩ := List.nodup_cons.mp hnodup
      have hfirst : Echo.step cfg topo t (.start thr (clock thr 0)) = some { t with
          clients := Function.update t.clients thr
            ((t.clients thr).started cfg (clock thr 0)) } :=
        if_pos (hspawned thr List.mem_cons_self)
      rw [starts, List.map_cons, run_cons, hfirst, Option.bind_some]
      refine (ih hnodup fun g hg => ?_).trans (congrArg some ?_)
      · have hne : g ≠ thr := fun heq => hnot (heq ▸ hg)
        simp only [Function.update_of_ne hne]
        exact hspawned g (List.mem_cons_of_mem _ hg)
      · refine congrArg (fun clients => { t with clients := clients }) (funext fun g => ?_)
        by_cases hg : g = thr
        · subst hg
          rw [if_neg hnot, if_pos List.mem_cons_self]
          exact Function.update_self _ _ _
        · simp only [Function.update_of_ne hg, List.mem_cons, hg, false_or]

/-- The protocol with all client fibers in their loops. -/
def started (cfg : ClientConfig) (clock : Fin n → Nat → Int) (clientBuf : Fin n → Buffer 65000)
    (serverBuf : Fin m → Buffer 65000) : Echo A n m :=
  { (Echo.init clientBuf serverBuf : Echo A n m) with
    clients := fun thr => (Client.spawn (clientBuf thr)).started cfg (clock thr 0) }

theorem run_started : run (Echo.step cfg topo) (Echo.init clientBuf serverBuf : Echo A n m)
    (starts clock (List.finRange n)) = some (started cfg clock clientBuf serverBuf) := by
  rw [run_starts (List.nodup_finRange n) fun _ _ => rfl]
  refine congrArg (fun clients => some { (Echo.init clientBuf serverBuf : Echo A n m) with
    clients := clients }) (funext fun thr => ?_)
  rw [if_pos (List.mem_finRange thr)]
  rfl

omit [DecidableEq A] in
theorem shows_init :
    Shows topo (init cfg clientRing serverRing clock clientBuf serverBuf : EchoRings A n m)
      (started cfg clock clientBuf serverBuf) where
  clients :=
    { own := fun _ => rfl
      seen := fun _ => rfl
      timings := (Finset.sum_const_zero).symm
      deadPackets := (Finset.sum_const_zero).symm }
  servers := ⟨fun _ => rfl, fun h => (by cases h), fun ⟨_, h⟩ => by cases h⟩
  network := by
    have hclients : taken topo.client (init cfg clientRing serverRing clock clientBuf serverBuf
        : EchoRings A n m).clients.pending = 0 := taken_of_none fun _ => rfl
    have hservers : taken (fun _ => topo.server) (init cfg clientRing serverRing clock clientBuf
        serverBuf : EchoRings A n m).servers.pending = 0 := taken_of_none fun _ => rfl
    rw [hclients, hservers]
    rfl

/-- **The two rings refine the echo protocol.** Whatever the rings, the pollers, the schedulers and
the kernel do, there is a run of the protocol that the fibers and the network show. -/
theorem refines_echo
    (hregular : Along (step cfg topo) (Regular cfg)
      (init cfg clientRing serverRing clock clientBuf serverBuf) es) {s : EchoRings A n m}
    (hrun : run (step cfg topo) (init cfg clientRing serverRing clock clientBuf serverBuf) es
      = some s) :
    ∃ ds t, run (Echo.step cfg topo) (Echo.init clientBuf serverBuf) ds = some t
      ∧ Shows topo s t := by
  have hall := (ringsSound_throughout hregular).along.and hregular
  have hrefines : Refines (step cfg topo) (fun s e => s.RingsSound cfg ∧ s.Regular cfg e)
      (Echo.step cfg topo) (fun _ _ => True) (Shows (m := m) topo) := by
    intro s e s' t hR hok hstep
    rcases shows_step hok.1 hR hok.2 hstep with hsame | ⟨d, t', _, hd, hnext⟩
    · exact Or.inl hsame
    · exact Or.inr ⟨d, t', trivial, hd, hnext⟩
  obtain ⟨ds, t, _, hds, hshows⟩ := hrefines.exists_run hall shows_init hrun
  refine ⟨starts clock (List.finRange n) ++ ds, t, ?_, hshows⟩
  rw [run_append, run_started]
  exact hds

end Runs

def oneClient : Topology Nat 1 where
  client := fun _ => 1
  server := 0
  client_injective := by decide
  client_ne_server := by decide

def hiOnce : ClientConfig := { dataToSend := [104, 105], count := 1, fibers := 1 }

def smallRing : RingSetup := ⟨8, 16, by decide, 1000000⟩

/-- The clocks tick by 10 nanoseconds. -/
def smallInit : EchoRings Nat 1 1 :=
  init hiOnce smallRing smallRing (fun _ i => 10 * i) (fun _ => Buffer.zero 65000)
    fun _ => Buffer.zero 65000

/-- The reply is in flight before the client fiber knows of its own send. -/
def earlyReply : List (Event Nat 1 1) :=
  let c : Fin 1 := Fin.last 0
  let s : Fin 1 := Fin.last 0
  [.client (.runtime (.resume c)), .client (.call c), .client (.runtime (.get c)),
    .client (.runtime (.flush c)), .client (.runtime (.count c none)),
    .client (.runtime (.kernel .consume)), .client (.ends c (.send 3)),
    .server (.runtime (.resume s)) 0, .server (.call s) 0, .server (.runtime (.get s)) 0,
    .server (.runtime (.flush s)) 0, .server (.runtime (.count s none)) 0,
    .server (.runtime (.kernel .consume)) 0,
    .server (.ends s (.recv (.datagram 1 [104, 105, 48]))) 0,
    .server (.runtime (.poll .tryPollMany)) 0, .server (.runtime .dispatch) 0,
    .server (.runtime (.resume s)) 0, .server (.runtime (.finish s)) 0, .server (.call s) 0,
    .server (.runtime (.get s)) 0, .server (.runtime (.flush s)) 0,
    .server (.runtime (.count s none)) 0, .server (.runtime (.kernel .consume)) 0,
    .server (.ends s (.send 6)) 0, .client (.runtime (.poll .tryPollMany)),
    .client (.runtime .dispatch), .client (.runtime (.resume c)), .client (.runtime (.finish c)),
    .client (.call c), .client (.runtime (.get c)), .client (.runtime (.get c)),
    .client (.runtime (.flush c)), .client (.runtime (.count c none)),
    .client (.runtime (.kernel .consume)), .client (.runtime (.kernel .consume)),
    .client (.ends c (.recv (.datagram 0 [104, 105, 48, 104, 105, 48]))),
    .client (.runtime (.kernel (.complete 0 (-ECANCELED)))),
    .client (.runtime (.poll .tryPollMany)), .client (.runtime .dispatch),
    .client (.runtime .dispatch), .client (.runtime (.resume c)), .client (.runtime (.finish c))]

/-- The protocol has a run that pushes the timing that the fiber over the ring pushes. -/
theorem refines_echo_earlyReply : ∃ ds t,
    run (Echo.step hiOnce oneClient) (Echo.init (fun _ => Buffer.zero 65000)
      fun _ => Buffer.zero 65000 : Echo Nat 1 1) ds = some t ∧ t.stats.timings = [10] := by
  have htimings : (run (step hiOnce oneClient) smallInit earlyReply).map (fun s =>
      (s.clients.programs 0).counted.timings) = some [10] := by decide +kernel
  obtain ⟨s, hrun, hs⟩ := Option.map_eq_some_iff.mp htimings
  obtain ⟨ds, t, hds, hshows⟩ := refines_echo (by decide +kernel) hrun
  refine ⟨ds, t, hds, Multiset.coe_eq_singleton.mp (hshows.clients.timings.trans ?_)⟩
  exact (Fin.sum_univ_one _).trans (congrArg _ hs)

end Hnet.EchoRings
