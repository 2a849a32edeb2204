import Hnet.EchoRings
import Hnet.Holdings
import Hnet.Proof.Operations
import Hnet.Proof.ServerFibers

/-!
# What the echo protocol sees of its two rings

The protocol lets a fiber take a datagram and react to it at once, while over a ring the kernel has
taken it long before the fiber goes on. So a receive happens, as the protocol sees it, when the
fiber goes on: until then its datagram counts as still in flight. A send happens when the kernel
ends it, for the reply may come before the fiber knows of its send.
-/

namespace Hnet

open Lts

/-! ### How a fiber goes on -/

/-- The fiber once its send has been reported to it. -/
def ClientRun.seen {A : Type} (p : ClientRun) : Option (ServerRun.Event A) → Client
  | some (.send res) => p.client.sendReturned res
  | _ => p.client

def ServerRun.seen {A : Type} (p : ServerRun A) : Option (ServerRun.Event A) → Server A
  | some (.send res) => p.server.sendReturned res
  | _ => p.server

theorem ClientRun.seen_recv {A : Type} (p : ClientRun) (done : RecvDone A) :
    p.seen (some (.recv done)) = p.client := rfl

theorem ServerRun.seen_recv {A : Type} (p : ServerRun A) (done : RecvDone A) :
    p.seen (some (.recv done)) = p.server := rfl

theorem Client.recvReturned_fst (cfg : ClientConfig) (c : Client) (stats stats' : Stats)
    (now : Int) (verdict : Verdict) :
    (c.recvReturned cfg stats now verdict).1 = (c.recvReturned cfg stats' now verdict).1 := by
  cases verdict <;> rfl

/-- What the fiber adds to the counters does not depend on them. -/
theorem Client.recvReturned_snd (cfg : ClientConfig) (c : Client) (now : Int) (verdict : Verdict) :
    ∃ gained dead, ∀ stats, (c.recvReturned cfg stats now verdict).2 =
      { stats with
        timings := stats.timings ++ gained
        deadPackets := stats.deadPackets + dead } := by
  cases verdict with
  | threw => exact ⟨[], 0, fun stats => by rw [List.append_nil]; rfl⟩
  | panicked => exact ⟨[], 0, fun stats => by rw [List.append_nil]; rfl⟩
  | dead => exact ⟨[], 1, fun stats => by rw [List.append_nil]; rfl⟩
  | reply => exact ⟨[now - c.start], 0, fun stats => rfl⟩

namespace ClientRun

variable {A : Type} {cfg : ClientConfig} {p : ClientRun} {req : Request} {timed : Bool}

theorem sending_of_asks (hasks : p.asks = some (req, timed))
    (hopcode : Opcode.sendmsg = req.opcode) : p.client.pc = .sending ∧ timed = false := by
  unfold asks at hasks
  split at hasks
  · exact ⟨by assumption, (Prod.mk.inj (Option.some.inj hasks)).2.symm⟩
  · obtain rfl := (Prod.mk.inj (Option.some.inj hasks)).1
    cases hopcode
  all_goals cases hasks

theorem receiving_of_asks (hasks : p.asks = some (req, timed))
    (hopcode : Opcode.recvmsg = req.opcode) : p.client.pc = .receiving ∧ timed = true := by
  unfold asks at hasks
  split at hasks
  · obtain rfl := (Prod.mk.inj (Option.some.inj hasks)).1
    cases hopcode
  · exact ⟨by assumption, (Prod.mk.inj (Option.some.inj hasks)).2.symm⟩
  all_goals cases hasks

theorem resume_send {outcome : Outcome} {res : Int}
    (h : (program cfg).Fits p (outcome, some (.send res : ServerRun.Event A))) :
    p.client.pc = .sending ∧
      p.resume cfg outcome (some (.send res : ServerRun.Event A))
        = { p with client := p.client.sendReturned res } := by
  obtain ⟨req, timed, d, hasks, hfound, hopcode, hended⟩ := h
  obtain rfl := Option.some.inj hfound
  obtain ⟨hpc, rfl⟩ := sending_of_asks hasks hopcode
  obtain rfl : outcome = .returned res := hended
  exact ⟨hpc, by simp only [resume, hpc]⟩

theorem resume_recv {outcome : Outcome} {done : RecvDone A}
    (h : (program cfg).Fits p (outcome, some (.recv done))) :
    p.client.pc = .receiving ∧ ∃ timeout,
      p.resume cfg outcome (some (.recv done))
        = p.recvResumed cfg done (timedOutcome (done.res 65000) timeout) := by
  obtain ⟨req, timed, d, hasks, hfound, hopcode, hended⟩ := h
  obtain rfl := Option.some.inj hfound
  obtain ⟨hpc, rfl⟩ := receiving_of_asks hasks hopcode
  obtain ⟨timeout, houtcome⟩ := hended
  change outcome = timedOutcome (done.res 65000) timeout at houtcome
  refine ⟨hpc, timeout, ?_⟩
  rw [houtcome]
  rcases timedOutcome_cases (done.res 65000) timeout with heq | heq | ⟨code, heq⟩ <;>
    rw [heq] <;> simp only [resume, hpc]

end ClientRun

namespace ServerRun

variable {A : Type} {p : ServerRun A} {outcome : Outcome}

theorem resume_send {res : Int} (h : program.Fits p (outcome, some (.send res))) :
    (p.resume outcome (some (.send res))).server = p.server.sendReturned res := by
  obtain ⟨e, hfound, hstep⟩ := step_of_fits h
  obtain rfl := Option.some.inj hfound
  rw [(step_send hstep).2]

theorem resume_recv {done : RecvDone A} (h : program.Fits p (outcome, some (.recv done))) :
    p.server.pc = .receiving
      ∧ (p.resume outcome (some (.recv done))).server = p.server.recvReturned done := by
  obtain ⟨e, hfound, hstep⟩ := step_of_fits h
  obtain rfl := Option.some.inj hfound
  obtain ⟨hpc, heq⟩ := step_recv hstep
  exact ⟨hpc, by rw [heq]⟩

end ServerRun

/-! ### The datagrams that receives have taken -/

def Datagram.packet {A : Type} {n : Nat} (d : Datagram A n) : Packet A := ⟨d.src, d.dst, d.payload⟩

/-- The datagram that a pending receive on a socket has taken. -/
def takenBy {A : Type} (socket : A) : Option (ServerRun.Event A) → Multiset (Packet A)
  | some (.recv (.datagram src payload)) => {⟨src, socket, payload⟩}
  | _ => 0

def taken {A : Type} {l : Nat} (socket : Fin l → A)
    (pending : Fin l → Option (ServerRun.Event A)) : Multiset (Packet A) :=
  Holdings.total id (fun f => takenBy (socket f) (pending f)) Finset.univ

theorem taken_of_none {A : Type} {l : Nat} {socket : Fin l → A}
    {pending : Fin l → Option (ServerRun.Event A)} (h : ∀ f, pending f = none) :
    taken socket pending = 0 := by
  unfold taken Holdings.total
  exact Finset.sum_eq_zero fun f _ => congrArg (takenBy (socket f)) (h f)

theorem taken_update {A : Type} {l : Nat} (socket : Fin l → A)
    (pending : Fin l → Option (ServerRun.Event A)) (f : Fin l)
    (x : Option (ServerRun.Event A)) : ∃ others,
      taken socket pending = takenBy (socket f) (pending f) + others ∧
      taken socket (Function.update pending f x) = takenBy (socket f) x + others := by
  obtain ⟨others, hbefore, hafter⟩ := Holdings.exchange id
    (fun g => takenBy (socket g) (pending g)) (Finset.mem_univ f) (takenBy (socket f) x)
  refine ⟨others, hbefore, ?_⟩
  have hmembers : (fun g => takenBy (socket g) (Function.update pending f x g))
      = Function.update (fun g => takenBy (socket g) (pending g)) f (takenBy (socket f) x) := by
    funext g
    by_cases hg : g = f
    · rw [hg, Function.update_self, Function.update_self]
    · rw [Function.update_of_ne hg, Function.update_of_ne hg]
  rw [taken, hmembers]
  exact hafter

section Packets

variable {A : Type} {n : Nat} {network : List (Datagram A n)}

def packets (network : List (Datagram A n)) : Multiset (Packet A) :=
  ((network.map Datagram.packet : List (Packet A)) : Multiset (Packet A))

theorem packets_concat (d : Datagram A n) :
    packets (network ++ [d]) = packets network + {d.packet} := by
  rw [packets, List.map_append, ← Multiset.coe_add]
  rfl

theorem packets_eraseIdx {k : Nat} {d : Datagram A n} (hd : network[k]? = some d) :
    packets network = {d.packet} + packets (network.eraseIdx k) := by
  obtain ⟨hk, rfl⟩ := List.getElem?_eq_some_iff.mp hd
  have hperm := (List.getElem_cons_eraseIdx_perm hk).map Datagram.packet
  exact (Multiset.coe_eq_coe.mpr hperm).symm

theorem exists_of_mem_packets {p : Packet A} (h : p ∈ packets network) :
    ∃ (k : Nat) (d : Datagram A n), network[k]? = some d ∧ d.packet = p := by
  obtain ⟨d, hd, heq⟩ := List.mem_map.mp (Multiset.mem_coe.mp h)
  obtain ⟨k, hk⟩ := List.getElem?_of_mem hd
  exact ⟨k, d, hk, heq⟩

end Packets

/-! ### Steps that the protocol can take -/

namespace Echo

variable {A : Type} {n m : Nat} [DecidableEq A] {topo : Topology A n} {t : Echo A n m} {k : Nat}
  {d : Datagram A n}

theorem step_recv_of (cfg : ClientConfig) {thr : Fin n} (timeout now : Int)
    (hd : t.network[k]? = some d) (hpc : (t.clients thr).pc = .receiving)
    (hdst : d.dst = topo.client thr) :
    step cfg topo t (.recv thr k timeout now) = some (recvDone cfg
      { t with
        network := t.network.eraseIdx k
        received := t.received ++ [(thr, d.payload.take 65000)] }
      thr (.datagram d.src d.payload) d.request timeout now) := by
  simp only [step, hd]
  exact if_pos ⟨hpc, hdst⟩

theorem step_serverRecv_of (cfg : ClientConfig) {a : Fin m} (hgoes : t.aborted = false)
    (hd : t.network[k]? = some d) (hpc : (t.servers a).pc = .receiving)
    (hdst : d.dst = topo.server) :
    step cfg topo t (.serverRecv a k) = some (serverRecvDone
      { t with network := t.network.eraseIdx k } a (.datagram d.src d.payload) d.request) := by
  simp only [step, hd, hpc]
  exact if_pos ⟨hgoes, hdst⟩

theorem step_serverRecvFails_of (cfg : ClientConfig) (topo : Topology A n) {a : Fin m}
    (err : Errno) (hgoes : t.aborted = false) (hpc : (t.servers a).pc = .receiving) :
    step cfg topo t (.serverRecvFails a err) = some (serverRecvDone t a (.failed err) none) := by
  simp only [step, hgoes, hpc]

theorem step_serverSend_of (cfg : ClientConfig) (topo : Topology A n) {a : Fin m} (stale : A)
    {bytes : Bytes} {addr : Addr A} (hgoes : t.aborted = false)
    (hout : (t.servers a).outgoing = some (bytes, addr)) :
    step cfg topo t (.serverSend a stale) = some (serverSendDone
      { t with
        network := t.network ++ [⟨topo.server, addr.sockaddr.getD stale, bytes, t.serving a⟩] }
      a bytes.length) := by
  simp only [step, hgoes, hout]

theorem step_serverSendFails_of (cfg : ClientConfig) (topo : Topology A n) {a : Fin m}
    (err : Errno) {out : Bytes × Addr A} (hgoes : t.aborted = false)
    (hout : (t.servers a).outgoing = some out) :
    step cfg topo t (.serverSendFails a err) = some (serverSendDone t a (-err.val)) := by
  simp only [step, hgoes, hout]

end Echo

namespace EchoRings

/-! ### What the protocol sees -/

variable {A : Type} {n m : Nat}

/-- The client fibers, and the counters that they share. -/
structure ClientsShown (clients : Fibers (Fin n) ClientRun (ServerRun.Event A)) (t : Echo A n m) :
    Prop where
  own : ∀ thr, (clients.programs thr).thr = thr.val
  seen : ∀ thr, t.clients thr = (clients.programs thr).seen (clients.pending thr)
  timings : (t.stats.timings : Multiset Int) =
    Holdings.total (fun p : ClientRun => (p.counted.timings : Multiset Int)) clients.programs
      Finset.univ
  deadPackets : t.stats.deadPackets =
    Holdings.total (fun p : ClientRun => p.counted.deadPackets) clients.programs Finset.univ

structure ServersShown (servers : Fibers (Fin m) (ServerRun A) (ServerRun.Event A))
    (t : Echo A n m) : Prop where
  seen : ∀ a, t.servers a = (servers.programs a).seen (servers.pending a)
  aborted : t.aborted = true ↔ ∃ a, (servers.programs a).server.pc = .aborted

/-- A state of the two rings and the network shows as one of the protocol. What pending receives
have taken is still in flight there. -/
structure Shows (topo : Topology A n) (s : EchoRings A n m) (t : Echo A n m) : Prop where
  clients : ClientsShown s.clients t
  servers : ServersShown s.servers t
  network : packets t.network = (s.network : Multiset (Packet A))
    + taken topo.client s.clients.pending + taken (fun _ => topo.server) s.servers.pending

section Sides

variable {clients clients' : Fibers (Fin n) ClientRun (ServerRun.Event A)}
  {servers servers' : Fibers (Fin m) (ServerRun A) (ServerRun.Event A)} {t t' : Echo A n m}

theorem ClientsShown.congr (h : ClientsShown clients t) (hclients : t'.clients = t.clients)
    (hstats : t'.stats = t.stats) (hpending : clients'.pending = clients.pending)
    (hprograms : clients'.programs = clients.programs) : ClientsShown clients' t' where
  own := hprograms ▸ h.own
  seen := by rw [hclients, hpending, hprograms]; exact h.seen
  timings := by rw [hstats, hprograms]; exact h.timings
  deadPackets := by rw [hstats, hprograms]; exact h.deadPackets

theorem ServersShown.congr (h : ServersShown servers t) (hservers : t'.servers = t.servers)
    (haborted : t'.aborted = t.aborted) (hpending : servers'.pending = servers.pending)
    (hprograms : servers'.programs = servers.programs) : ServersShown servers' t' where
  seen := by rw [hservers, hpending, hprograms]; exact h.seen
  aborted := by rw [haborted, hprograms]; exact h.aborted

/-- One client fiber changes, and adds something to the counters. -/
theorem ClientsShown.update {thr : Fin n} {p : ClientRun} {x : Option (ServerRun.Event A)}
    (gained : List Int) (dead : Nat) (h : ClientsShown clients t)
    (hclients : t'.clients = Function.update t.clients thr (p.seen x))
    (hpending : clients'.pending = Function.update clients.pending thr x)
    (hprograms : clients'.programs = Function.update clients.programs thr p)
    (hown : p.thr = (clients.programs thr).thr)
    (hcounted : p.counted = { (clients.programs thr).counted with
      timings := (clients.programs thr).counted.timings ++ gained
      deadPackets := (clients.programs thr).counted.deadPackets + dead })
    (hstats : t'.stats = { t.stats with
      timings := t.stats.timings ++ gained
      deadPackets := t.stats.deadPackets + dead }) : ClientsShown clients' t' where
  own g := by
    rw [hprograms]
    by_cases hg : g = thr
    · rw [hg, Function.update_self, hown]
      exact h.own thr
    · rw [Function.update_of_ne hg]
      exact h.own g
  seen g := by
    rw [hclients, hpending, hprograms]
    by_cases hg : g = thr
    · rw [hg, Function.update_self, Function.update_self, Function.update_self]
    · rw [Function.update_of_ne hg, Function.update_of_ne hg, Function.update_of_ne hg]
      exact h.seen g
  timings := by
    obtain ⟨others, hbefore, hafter⟩ := Holdings.exchange
      (fun p : ClientRun => (p.counted.timings : Multiset Int)) clients.programs
      (Finset.mem_univ thr) p
    have htimings := h.timings
    rw [hbefore] at htimings
    rw [hprograms, hafter, hstats, hcounted, ← Multiset.coe_add, ← Multiset.coe_add, htimings]
    exact add_right_comm _ _ _
  deadPackets := by
    obtain ⟨others, hbefore, hafter⟩ := Holdings.exchange
      (fun p : ClientRun => p.counted.deadPackets) clients.programs (Finset.mem_univ thr) p
    have hdead := h.deadPackets
    rw [hbefore] at hdead
    rw [hprograms, hafter, hstats, hcounted, hdead]
    exact Nat.add_right_comm _ _ _

/-- One client fiber changes, and the counters do not. -/
theorem ClientsShown.update_only {thr : Fin n} {p : ClientRun} {x : Option (ServerRun.Event A)}
    (h : ClientsShown clients t)
    (hclients : t'.clients = Function.update t.clients thr (p.seen x))
    (hpending : clients'.pending = Function.update clients.pending thr x)
    (hprograms : clients'.programs = Function.update clients.programs thr p)
    (hown : p.thr = (clients.programs thr).thr)
    (hcounted : p.counted = (clients.programs thr).counted) (hstats : t'.stats = t.stats) :
    ClientsShown clients' t' := by
  refine h.update [] 0 hclients hpending hprograms hown ?_ ?_
  · rw [hcounted, List.append_nil]
    rfl
  · rw [hstats, List.append_nil]
    rfl

theorem ServersShown.update {a : Fin m} {p : ServerRun A} {x : Option (ServerRun.Event A)}
    (h : ServersShown servers t)
    (hservers : t'.servers = Function.update t.servers a (p.seen x))
    (haborted : t'.aborted = true ↔ t.aborted = true ∨ p.server.pc = .aborted)
    (hruns : (servers.programs a).server.pc ≠ .aborted)
    (hpending : servers'.pending = Function.update servers.pending a x)
    (hprograms : servers'.programs = Function.update servers.programs a p) :
    ServersShown servers' t' where
  seen b := by
    rw [hservers, hpending, hprograms]
    by_cases hb : b = a
    · rw [hb, Function.update_self, Function.update_self, Function.update_self]
    · rw [Function.update_of_ne hb, Function.update_of_ne hb, Function.update_of_ne hb]
      exact h.seen b
  aborted := by
    rw [haborted, h.aborted, hprograms]
    constructor
    · rintro (⟨b, hb⟩ | hp)
      · have hne : b ≠ a := fun heq => hruns (heq ▸ hb)
        exact ⟨b, by rwa [Function.update_of_ne hne]⟩
      · exact ⟨a, by rwa [Function.update_self]⟩
    · rintro ⟨b, hb⟩
      by_cases hba : b = a
      · rw [hba, Function.update_self] at hb
        exact Or.inr hb
      · rw [Function.update_of_ne hba] at hb
        exact Or.inl ⟨b, hb⟩

theorem ServersShown.update_only {a : Fin m} {p : ServerRun A} {x : Option (ServerRun.Event A)}
    (h : ServersShown servers t)
    (hservers : t'.servers = Function.update t.servers a (p.seen x))
    (haborted : t'.aborted = t.aborted) (hruns : (servers.programs a).server.pc ≠ .aborted)
    (hstill : p.server.pc ≠ .aborted)
    (hpending : servers'.pending = Function.update servers.pending a x)
    (hprograms : servers'.programs = Function.update servers.programs a p) :
    ServersShown servers' t' :=
  h.update hservers (by rw [haborted]; exact (or_iff_left hstill).symm) hruns hpending hprograms

theorem ServersShown.aborted_eq_false (h : ServersShown servers t)
    (hgoes : ¬ ∃ a, (servers.programs a).server.pc = .aborted) : t.aborted = false :=
  Bool.eq_false_iff.mpr fun haborted => hgoes (h.aborted.mp haborted)

end Sides

end EchoRings

end Hnet
