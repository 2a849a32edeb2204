import Hnet.Proof.CliAccounting

/-!
# The other UDP client over a network that loses nothing

As many fibers wait in `recvmsg` as there are datagrams in flight and replies in the hands of server
fibers, so none waits for a reply that is not on its way, though it may take another fiber's. Each
step uses up one of the steps the program has, of which there are four for each iteration and one
for each fiber. A call of `ring_submit` is one step here, so it is taken to return.
-/

namespace Hnet.CliEcho

open Lts

variable {A : Type} {n m : Nat} {cfg : CliConfig} {topo : CliTopology A} {s s' : CliEcho A n m}

/-- Every send and receive succeeds, nothing is lost or repeated, and nobody else sends. -/
def Lossless (_ : CliEcho A n m) : Event A n m → Prop
  | .start _ _ | .send _ | .recv _ _ _ | .serverRecv _ _ | .serverSend _ _ => True
  | .sendFails _ _ | .recvFails _ _ _ | .serverRecvFails _ _ | .serverSendFails _ _ | .drop _
  | .duplicate _ | .foreign _ _ => False

instance (s : CliEcho A n m) : ∀ e, Decidable (s.Lossless e)
  | .start _ _ | .send _ | .recv _ _ _ | .serverRecv _ _ | .serverSend _ _ => isTrue trivial
  | .sendFails _ _ | .recvFails _ _ _ | .serverRecvFails _ _ | .serverSendFails _ _ | .drop _
  | .duplicate _ | .foreign _ _ => isFalse id

/-! ### The steps that are left -/

/-- The steps a fiber has in front of it, those of the server for it after its `send` left out. -/
def fiberSteps (cfg : CliConfig) (c : CliFiber) : Nat :=
  match c.pc with
  | .spawned => 4 * cfg.count.toNat + 1
  | .sending => 4 * (cfg.count.toNat - c.i)
  | .receiving => 4 * (cfg.count.toNat - c.i - 1) + 1
  | .returned | .threw => 0

/-- A request is still to be received by the server and answered. -/
def packetSteps [DecidableEq A] (topo : CliTopology A) (d : Packet A) : Nat :=
  if d.dst = topo.server then 2 else 0

def serverSteps (server : Server A) : Nat := server.outgoing.toList.length

def stepsLeft [DecidableEq A] (cfg : CliConfig) (topo : CliTopology A) (s : CliEcho A n m) : Nat :=
  Holdings.total (fiberSteps cfg) s.fibers Finset.univ
    + ((s.network.map (packetSteps topo)).sum
      + Holdings.total serverSteps s.servers Finset.univ)

/-! ### The fibers that wait -/

def waits (c : CliFiber) : Nat := if c.pc = .receiving then 1 else 0

structure Orderly (cfg : CliConfig) (topo : CliTopology A) (s : CliEcho A n m) : Prop where
  running : s.aborted = false
  fibers : ∀ thr, (s.fibers thr).pc ≠ .threw
  network : ∀ d ∈ s.network, d.dst = topo.client ∨
    d.src = topo.client ∧ d.dst = topo.server ∧ d.payload = cfg.message
  servers : ∀ a, (s.servers a).pc = .receiving ∨
    ∃ bytes addr, (s.servers a).outgoing = some (bytes, addr) ∧ addr.sockaddr = some topo.client
  /-- a fiber that waits has a datagram on its way, to the server or from it -/
  tokens : Holdings.total waits s.fibers Finset.univ
    = s.network.length + Holdings.total serverSteps s.servers Finset.univ

theorem orderly_init (fiberBuf : Fin n → Buffer 65000) (serverBuf : Fin m → Buffer 65000) :
    Orderly cfg topo (init fiberBuf serverBuf : CliEcho A n m) where
  running := rfl
  fibers thr hpc := by cases hpc
  network d hd := by cases hd
  servers a := Or.inl rfl
  tokens := by
    have hfibers := Holdings.total_const waits (init fiberBuf serverBuf : CliEcho A n m).fibers
      fun _ => rfl
    have hservers :=
      Holdings.total_const serverSteps (init fiberBuf serverBuf : CliEcho A n m).servers
        fun _ => rfl
    rw [hfibers, hservers]
    rfl

theorem stepsLeft_init [DecidableEq A] (fiberBuf : Fin n → Buffer 65000)
    (serverBuf : Fin m → Buffer 65000) :
    stepsLeft cfg topo (init fiberBuf serverBuf : CliEcho A n m)
      = n * (4 * cfg.count.toNat + 1) := by
  have hfibers :=
    Holdings.total_const (fiberSteps cfg) (init fiberBuf serverBuf : CliEcho A n m).fibers
      fun _ => rfl
  have hservers :=
    Holdings.total_const serverSteps (init fiberBuf serverBuf : CliEcho A n m).servers
      fun _ => rfl
  rw [stepsLeft, hfibers, hservers]
  rfl

theorem fiberSteps_loopHead (cfg : CliConfig) (c : CliFiber) :
    fiberSteps cfg (c.loopHead cfg) = 4 * (cfg.count.toNat - c.i) := by
  rcases Kept.loopHead_cases cfg c with ⟨hpc, _⟩ | ⟨hpc, hge⟩
  · rw [fiberSteps, hpc]
    rfl
  · rw [fiberSteps, hpc, Nat.sub_eq_zero_of_le hge]

theorem waits_loopHead (cfg : CliConfig) (c : CliFiber) :
    waits (c.loopHead cfg) = 0 ∧ (c.loopHead cfg).pc ≠ .threw := by
  rcases Kept.loopHead_cases cfg c with ⟨hpc, _⟩ | ⟨hpc, _⟩ <;>
    exact ⟨by rw [waits, hpc]; rfl, by rw [hpc]; exact nofun⟩

theorem sendReturned_of_pos (c : CliFiber) {res : Int} (hpos : 0 < res) :
    c.sendReturned res = { c with pc := .receiving } := by
  rw [CliFiber.sendReturned, sendmsg, if_neg (not_lt.mpr hpos.le)]
  exact if_neg (not_le.mpr hpos)

theorem perm_eraseIdx {l : List (Packet A)} {k : Nat} {d : Packet A} (hd : l[k]? = some d) :
    (d :: l.eraseIdx k).Perm l := by
  obtain ⟨hk, rfl⟩ := List.getElem?_eq_some_iff.mp hd
  exact List.getElem_cons_eraseIdx_perm hk

/-- What a step of one fiber exchanges. -/
theorem exchange_fiber [DecidableEq A] {thr : Fin n} {c : CliFiber} {network : List (Packet A)}
    (hfibers : s'.fibers = Function.update s.fibers thr c) (hservers : s'.servers = s.servers)
    (hnetwork : s'.network = network) (hrunning : s'.aborted = s.aborted)
    (h : Orderly cfg topo s) (hc : c.pc ≠ .threw)
    (hsound : ∀ d ∈ network, d ∈ s.network ∨ d.dst = topo.client ∨
      d.src = topo.client ∧ d.dst = topo.server ∧ d.payload = cfg.message)
    (htokens : waits c + s.network.length = waits (s.fibers thr) + network.length)
    (hsteps : fiberSteps cfg c + (network.map (packetSteps topo)).sum + 1
      = fiberSteps cfg (s.fibers thr) + (s.network.map (packetSteps topo)).sum) :
    Orderly cfg topo s' ∧ stepsLeft cfg topo s' + 1 = stepsLeft cfg topo s := by
  obtain ⟨others, hbefore, hafter⟩ :=
    Holdings.exchange (fiberSteps cfg) s.fibers (Finset.mem_univ thr) c
  obtain ⟨waiting, hwaited, hwaits⟩ :=
    Holdings.exchange waits s.fibers (Finset.mem_univ thr) c
  refine ⟨⟨hrunning.trans h.running, fun other => ?_, fun d hd => ?_, hservers ▸ h.servers, ?_⟩, ?_⟩
  · rw [hfibers]
    by_cases heq : other = thr
    · rwa [heq, Function.update_self]
    · rw [Function.update_of_ne heq]
      exact h.fibers other
  · exact (hsound d (hnetwork ▸ hd)).elim (h.network d) id
  · have htotal := h.tokens
    rw [hwaited] at htotal
    rw [hfibers, hwaits, hservers, hnetwork]
    omega
  · rw [stepsLeft, stepsLeft, hfibers, hservers, hnetwork, hbefore, hafter]
    omega

/-- What a step of one server fiber exchanges. -/
theorem exchange_server [DecidableEq A] {a : Fin m} {server : Server A} {network : List (Packet A)}
    (hservers : s'.servers = Function.update s.servers a server) (hfibers : s'.fibers = s.fibers)
    (hnetwork : s'.network = network) (hrunning : s'.aborted = false) (h : Orderly cfg topo s)
    (hserver : server.pc = .receiving ∨ ∃ bytes addr,
      server.outgoing = some (bytes, addr) ∧ addr.sockaddr = some topo.client)
    (hsound : ∀ d ∈ network, d ∈ s.network ∨ d.dst = topo.client)
    (htokens : serverSteps server + network.length
      = serverSteps (s.servers a) + s.network.length)
    (hsteps : serverSteps server + (network.map (packetSteps topo)).sum + 1
      = serverSteps (s.servers a) + (s.network.map (packetSteps topo)).sum) :
    Orderly cfg topo s' ∧ stepsLeft cfg topo s' + 1 = stepsLeft cfg topo s := by
  obtain ⟨others, hbefore, hafter⟩ :=
    Holdings.exchange serverSteps s.servers (Finset.mem_univ a) server
  refine ⟨⟨hrunning, hfibers ▸ h.fibers, fun d hd => ?_, fun b => ?_, ?_⟩, ?_⟩
  · exact (hsound d (hnetwork ▸ hd)).elim (h.network d) Or.inl
  · rw [hservers]
    by_cases heq : b = a
    · rwa [heq, Function.update_self]
    · rw [Function.update_of_ne heq]
      exact h.servers b
  · have htotal := h.tokens
    rw [hbefore] at htotal
    rw [hfibers, hservers, hafter, hnetwork]
    omega
  · rw [stepsLeft, stepsLeft, hfibers, hservers, hnetwork, hbefore, hafter]
    omega

/-! ### Every step -/

variable [DecidableEq A]

theorem packetSteps_server (topo : CliTopology A) {d : Packet A} (h : d.dst = topo.server) :
    packetSteps topo d = 2 := if_pos h

theorem packetSteps_client (topo : CliTopology A) {d : Packet A} (h : d.dst = topo.client) :
    packetSteps topo d = 0 := if_neg fun hserver => topo.client_ne_server (h.symm.trans hserver)

theorem sum_eraseIdx (topo : CliTopology A) {k : Nat} {d : Packet A} {l : List (Packet A)}
    (hd : l[k]? = some d) :
    packetSteps topo d + ((l.eraseIdx k).map (packetSteps topo)).sum
      = (l.map (packetSteps topo)).sum := by
  rw [← List.sum_cons, ← List.map_cons]
  exact ((perm_eraseIdx hd).map _).sum_eq

theorem sum_concat (topo : CliTopology A) (l : List (Packet A)) (d : Packet A) :
    ((l ++ [d]).map (packetSteps topo)).sum
      = (l.map (packetSteps topo)).sum + packetSteps topo d := by
  rw [List.map_append, List.sum_append, List.map_singleton, List.sum_singleton]

theorem step_orderly {e : Event A n m} (hne : cfg.dataToSend ≠ [])
    (hfits : cfg.message.length * 2 < 65000) (hnet : NetInv cfg topo s) (hbooks : Books cfg s)
    (h : Orderly cfg topo s) (hok : s.Lossless e) (hstep : step cfg topo s e = some s')
    (hfault : s'.fault = none) :
    Orderly cfg topo s' ∧ stepsLeft cfg topo s' + 1 = stepsLeft cfg topo s := by
  have hsame : ∀ d ∈ s.network, d ∈ s.network ∨ d.dst = topo.client ∨
      d.src = topo.client ∧ d.dst = topo.server ∧ d.payload = cfg.message := fun d hd => Or.inl hd
  cases e with
  | sendFails thr err => exact absurd hok id
  | recvFails thr err now => exact absurd hok id
  | serverRecvFails a err => exact absurd hok id
  | serverSendFails a err => exact absurd hok id
  | drop k => exact absurd hok id
  | duplicate k => exact absurd hok id
  | foreign src payload => exact absurd hok id
  | start thr now =>
      obtain ⟨⟨_, hpc⟩, rfl⟩ := step_start hstep
      obtain ⟨hwaits, hnot⟩ :=
        waits_loopHead cfg { s.fibers thr with i := 0, start := now.toInt }
      have hsteps := fiberSteps_loopHead cfg { s.fibers thr with i := 0, start := now.toInt }
      have hspawned : fiberSteps cfg (s.fibers thr) = 4 * cfg.count.toNat + 1 := by
        rw [fiberSteps, hpc]
      have hasleep : waits (s.fibers thr) = 0 := by
        rw [waits, hpc]
        rfl
      refine exchange_fiber rfl rfl rfl rfl h hnot hsame ?_ ?_
      · rw [CliFiber.started, hwaits, hasleep]
      · rw [CliFiber.started, hsteps, hspawned]
        exact Nat.add_right_comm _ _ _
  | send thr =>
      obtain ⟨⟨_, hpc⟩, rfl⟩ := step_send hstep
      have hlt := (hbooks.kept thr).before (Or.inl hpc)
      have hpos : (0 : Int) < cfg.message.length := by
        have := List.length_pos_iff.mpr hne
        rw [cfg.length_message]
        omega
      have hsending : fiberSteps cfg (s.fibers thr)
          = 4 * (cfg.count.toNat - (s.fibers thr).i) := by
        rw [fiberSteps, hpc]
      have hasleep : waits (s.fibers thr) = 0 := by
        rw [waits, hpc]
        rfl
      rw [sendReturned_of_pos _ hpos]
      refine exchange_fiber rfl rfl rfl rfl h nofun (fun d hd => ?_) ?_ ?_
      · rcases List.mem_append.mp hd with hd | hd
        · exact Or.inl hd
        · exact Or.inr (Or.inr (List.mem_singleton.mp hd ▸ ⟨rfl, rfl, rfl⟩))
      · rw [hasleep, List.length_append, Nat.zero_add, Nat.add_comm]
        rfl
      · rw [hsending, sum_concat, packetSteps_server topo rfl]
        simp only [fiberSteps]
        omega
  | recv thr k now =>
      obtain ⟨d, hd, ⟨_, hpc, hdst⟩, rfl⟩ := step_recv hstep
      have hkept := hbooks.kept thr
      obtain ⟨hreply, hlen⟩ := (hnet.network d (List.mem_of_getElem? hd)).2 hdst
      have hnot : d.payload.take 65000 ≠ cfg.dataToSend := by
        rw [List.take_of_length_le hlen.le]
        exact hreply.ne_configured hne
      rcases recvDone_cases cfg
          { s with
            network := s.network.eraseIdx k
            received := s.received ++ [d.payload.take 65000] }
          thr (.datagram d.src d.payload) now.toInt with
        ⟨heq, _⟩ | ⟨_, heq | ⟨c, hi, _, heq⟩⟩
      · exact absurd heq hnot
      · rw [heq] at hfault
        cases hfault
      · have hlt := hkept.before (Or.inr hpc)
        have herase := sum_eraseIdx topo hd
        have hlength := (perm_eraseIdx hd).length_eq
        have hnext : waits (c.next cfg now.toInt) = 0 ∧ (c.next cfg now.toInt).pc ≠ .threw :=
          waits_loopHead cfg _
        have hsteps : fiberSteps cfg (c.next cfg now.toInt)
            = 4 * (cfg.count.toNat - (c.i + 1)) := fiberSteps_loopHead cfg _
        have hreceiving : fiberSteps cfg (s.fibers thr)
            = 4 * (cfg.count.toNat - (s.fibers thr).i - 1) + 1 := by
          rw [fiberSteps, hpc]
        have hawake : waits (s.fibers thr) = 1 := by
          rw [waits, hpc]
          rfl
        rw [heq]
        refine exchange_fiber rfl rfl rfl rfl h hnext.2
          (fun x hx => Or.inl (List.mem_of_mem_eraseIdx hx)) ?_ ?_
        · rw [hnext.1, hawake, ← hlength, List.length_cons, Nat.zero_add, Nat.add_comm]
        · rw [packetSteps_client topo hdst] at herase
          rw [hsteps, hreceiving, hi]
          simp only
          omega
  | serverRecv a k =>
      obtain ⟨d, hd, hpc, hrunning, rfl⟩ := step_serverRecv hstep
      have hmem := List.mem_of_getElem? hd
      obtain ⟨hsrc, hdst, hpayload⟩ := (h.network d hmem).resolve_left fun hclient =>
        topo.client_ne_server (hclient.symm.trans hrunning.2)
      have hwhole : ((RecvDone.datagram d.src d.payload).payload 65000) = cfg.message := by
        rw [RecvDone.payload, hpayload]
        exact List.take_of_length_le (by omega)
      have hfitsServer :
          ((RecvDone.datagram d.src d.payload).payload 65000).length * 2 < 65000 := by
        rw [hwhole]
        exact hfits
      obtain ⟨hout, ww, hsending⟩ := Server.recvReturned_of_fits (s := s.servers a) hfitsServer
      have herase := sum_eraseIdx topo hd
      have hlength := (perm_eraseIdx hd).length_eq
      have hidle : serverSteps (s.servers a) = 0 := by
        rw [serverSteps, Server.outgoing, hpc]
        rfl
      have hbusy : serverSteps ((s.servers a).recvReturned (.datagram d.src d.payload)) = 1 := by
        rw [serverSteps, hout]
        rfl
      have hnetwork : (serverRecvDone { s with network := s.network.eraseIdx k } a
          (.datagram d.src d.payload)).network = s.network.eraseIdx k := rfl
      refine exchange_server rfl rfl hnetwork ?_ h (Or.inr ⟨_, _, hout, congrArg some hsrc⟩)
        (fun x hx => Or.inl (List.mem_of_mem_eraseIdx hx)) ?_ ?_
      · simp only [serverRecvDone, hsending]
        exact hrunning.1
      · rw [hidle, hbusy, ← hlength, List.length_cons, Nat.zero_add, Nat.add_comm]
      · rw [packetSteps_server topo hdst] at herase
        rw [hidle, hbusy]
        omega
  | serverSend a stale =>
      obtain ⟨bytes, addr, hout, rfl⟩ := step_serverSend hstep
      have hserver : (s.servers a).pc ≠ .receiving := by
        intro hpc
        rw [Server.outgoing, hpc] at hout
        cases hout
      obtain ⟨bytes', addr', hout', haddr⟩ := (h.servers a).resolve_left hserver
      obtain ⟨rfl, rfl⟩ := Prod.mk.inj (Option.some.inj (hout.symm.trans hout'))
      have hdst : addr.sockaddr.getD stale = topo.client := by
        rw [haddr]
        rfl
      have hidle : serverSteps ((s.servers a).sendReturned bytes.length) = 0 := by
        rw [serverSteps, Server.sendReturned_outgoing]
        rfl
      have hbusy : serverSteps (s.servers a) = 1 := by
        rw [serverSteps, hout]
        rfl
      refine exchange_server rfl rfl (show _ = s.network ++ [_] from rfl) h.running h
        (Or.inl ?_) (fun x hx => ?_) ?_ ?_
      · rw [Server.sendReturned_pc]
        exact if_neg (not_lt.mpr (Int.natCast_nonneg _))
      · rcases List.mem_append.mp hx with hx | hx
        · exact Or.inl hx
        · rw [List.mem_singleton.mp hx]
          exact Or.inr hdst
      · rw [hidle, hbusy, List.length_append, Nat.zero_add, Nat.add_comm]
        rfl
      · rw [hidle, hbusy, sum_concat, packetSteps_client topo hdst]
        omega

theorem fault_of_step {e : Event A n m} (hok : s.Lossless e) (hstep : step cfg topo s e = some s')
    (hfault : s'.fault = none) : s.fault = none := by
  cases e with
  | sendFails thr err => exact absurd hok id
  | recvFails thr err now => exact absurd hok id
  | serverRecvFails a err => exact absurd hok id
  | serverSendFails a err => exact absurd hok id
  | drop k => exact absurd hok id
  | duplicate k => exact absurd hok id
  | foreign src payload => exact absurd hok id
  | start thr now => exact (step_start hstep).1.1
  | send thr => exact (step_send hstep).1.1
  | recv thr k now =>
      obtain ⟨_, _, hcan, _⟩ := step_recv hstep
      exact hcan.1
  | serverRecv a k =>
      obtain ⟨_, _, _, _, rfl⟩ := step_serverRecv hstep
      exact hfault
  | serverSend a stale =>
      obtain ⟨_, _, _, rfl⟩ := step_serverSend hstep
      exact hfault

/-! ### What is left to do -/

omit [DecidableEq A] in
theorem stepsLeft_pos {thr : Fin n} (hbooks : Books cfg s) (h : Orderly cfg topo s)
    (hpc : (s.fibers thr).pc ≠ .returned) : 0 < fiberSteps cfg (s.fibers thr) := by
  have hbefore := (hbooks.kept thr).before
  cases hother : (s.fibers thr).pc with
  | spawned => rw [fiberSteps, hother]; exact Nat.succ_pos _
  | sending =>
      have hlt := hbefore (Or.inl hother)
      rw [fiberSteps, hother]
      exact Nat.mul_pos (by decide) (Nat.sub_pos_of_lt hlt)
  | receiving => rw [fiberSteps, hother]; exact Nat.succ_pos _
  | returned => exact absurd hother hpc
  | threw => exact absurd hother (h.fibers thr)

/-- Some fiber of the program or of the server can take a step. -/
theorem Orderly.enabled (h : Orderly cfg topo s) (hservers : 0 < m) (hfault : s.fault = none)
    {thr : Fin n} (hpc : (s.fibers thr).pc ≠ .returned) :
    ∃ e, s.Lossless e ∧ (step cfg topo s e).isSome = true := by
  cases hother : (s.fibers thr).pc with
  | spawned => exact ⟨.start thr 0, trivial, by simp [step, hfault, hother]⟩
  | sending => exact ⟨.send thr, trivial, by simp [step, hfault, hother]⟩
  | returned => exact absurd hother hpc
  | threw => exact absurd hother (h.fibers thr)
  | receiving =>
      by_cases hbusy : ∃ a, (s.servers a).pc ≠ .receiving
      · obtain ⟨a, ha⟩ := hbusy
        obtain ⟨bytes, addr, hout, _⟩ := (h.servers a).resolve_left ha
        exact ⟨.serverSend a topo.client, trivial, by simp [step, h.running, hout]⟩
      · have hidle : ∀ a, (s.servers a).pc = .receiving := by
          intro a
          by_contra ha
          exact hbusy ⟨a, ha⟩
        have hnone : Holdings.total serverSteps s.servers Finset.univ = 0 := by
          apply (Holdings.total_const serverSteps s.servers (k := 0) fun a => ?_).trans
            (Nat.mul_zero m)
          rw [serverSteps, Server.outgoing, hidle a]
          rfl
        have hwaits := Holdings.le_total waits s.fibers (Finset.mem_univ thr)
        have hone : waits (s.fibers thr) = 1 := by
          rw [waits, hother]
          rfl
        have htokens := h.tokens
        -- the datagram that is on its way to this fiber or for it
        obtain ⟨d, rest, hcons⟩ := List.exists_cons_of_ne_nil
          (List.length_pos_iff.mp (show 0 < s.network.length by omega))
        have hd : s.network[0]? = some d := by
          rw [hcons]
          rfl
        rcases h.network d (List.mem_of_getElem? hd) with hclient | ⟨_, hserver, _⟩
        · exact ⟨.recv thr 0 0, trivial, by simp [step, hd, hfault, hother, hclient]⟩
        · exact ⟨.serverRecv ⟨0, hservers⟩ 0, trivial, by
            simp [step, hd, hidle, h.running, hserver]⟩

omit [DecidableEq A] in
/-- A program that has ended leaves nothing in flight. -/
theorem Orderly.joined (h : Orderly cfg topo s) (hjoined : s.Joined) :
    Holdings.total (fiberSteps cfg) s.fibers Finset.univ = 0 ∧ s.network = []
      ∧ Holdings.total serverSteps s.servers Finset.univ = 0 := by
  have hfibers : Holdings.total (fiberSteps cfg) s.fibers Finset.univ = 0 := by
    apply (Holdings.total_const (fiberSteps cfg) s.fibers (k := 0) fun thr => ?_).trans
      (Nat.mul_zero n)
    rw [fiberSteps, hjoined.2 thr]
  have hwaits : Holdings.total waits s.fibers Finset.univ = 0 := by
    apply (Holdings.total_const waits s.fibers (k := 0) fun thr => ?_).trans (Nat.mul_zero n)
    rw [waits, hjoined.2 thr]
    rfl
  have htokens := h.tokens
  exact ⟨hfibers, List.length_eq_zero_iff.mp (by omega), by omega⟩

/-- **Over a network that loses nothing `cli.cc` ends after exactly so many steps**, unless signed
arithmetic overflows and if every call returns: until then some fiber can take its next step. -/
theorem finishes_lossless (cfg : CliConfig) (topo : CliTopology A) (hne : cfg.dataToSend ≠ [])
    (hfits : cfg.message.length * 2 < 65000) (hservers : 0 < m)
    (fiberBuf : Fin n → Buffer 65000) (serverBuf : Fin m → Buffer 65000)
    (es : List (Event A n m))
    (hlossless : Along (step cfg topo) Lossless (init fiberBuf serverBuf) es)
    {s : CliEcho A n m} (hrun : run (step cfg topo) (init fiberBuf serverBuf) es = some s)
    (hfault : s.fault = none) :
    (s.Joined ∧ s.network = [] ∧ es.length = n * (4 * cfg.count.toNat + 1)) ∨
      (es.length < n * (4 * cfg.count.toNat + 1) ∧
        ∃ e, s.Lossless e ∧ (step cfg topo s e).isSome = true) := by
  let J : Nat → CliEcho A n m → Prop := fun k s => (NetInv cfg topo s ∧ Books cfg s) ∧
    (s.fault = none → Orderly cfg topo s ∧
      k + stepsLeft cfg topo s = n * (4 * cfg.count.toNat + 1))
  have hinit : J 0 (init fiberBuf serverBuf) :=
    ⟨⟨netInv_init fiberBuf serverBuf, fun thr => Kept.spawn cfg (fiberBuf thr),
      Finset.sum_const_zero.symm⟩, fun _ => ⟨orderly_init fiberBuf serverBuf, by
        rw [Nat.zero_add, stepsLeft_init]⟩⟩
  have hstep : ∀ k s e s', J k s → s.Lossless e → step cfg topo s e = some s' → J (k + 1) s' := by
    rintro k s e s' ⟨⟨hnet, hbooks⟩, horderly⟩ hok hstep
    refine ⟨⟨step_netInv hnet hstep, step_books hnet hbooks hstep⟩, fun hfault => ?_⟩
    obtain ⟨hordered, hcount⟩ := horderly (fault_of_step hok hstep hfault)
    obtain ⟨hordered', hless⟩ := step_orderly hne hfits hnet hbooks hordered hok hstep hfault
    exact ⟨hordered', by omega⟩
  obtain ⟨⟨_, hbooks⟩, horderly⟩ := hlossless.counted hinit hstep hrun
  obtain ⟨h, hcount⟩ := horderly hfault
  rw [Nat.zero_add] at hcount
  by_cases hjoined : s.Joined
  · obtain ⟨hfibers, hempty, hreplies⟩ := h.joined hjoined
    refine Or.inl ⟨hjoined, hempty, ?_⟩
    rw [stepsLeft, hfibers, hempty, hreplies] at hcount
    exact hcount
  · obtain ⟨thr, hpc⟩ : ∃ thr, (s.fibers thr).pc ≠ .returned := by
      by_contra hall
      exact hjoined ⟨hfault, fun thr => not_not.mp (not_exists.mp hall thr)⟩
    have hpos := stepsLeft_pos hbooks h hpc
    have hle := Holdings.le_total (fiberSteps cfg) s.fibers (Finset.mem_univ thr)
    rw [stepsLeft] at hcount
    exact Or.inr ⟨by omega, h.enabled hservers hfault hpc⟩

def oneByte : CliConfig := { dataToSend := [104], count := 1, threads := 2 }

def onLoopback : CliTopology Nat where
  client := 7000
  server := 6667
  client_ne_server := by decide

/-- One request for each of two fibers, each of which takes the reply to the other. -/
def crossedRun : List (Event Nat 2 1) :=
  let f : Fin 2 := ⟨0, Nat.two_pos⟩
  let g : Fin 2 := ⟨1, Nat.one_lt_two⟩
  let server : Fin 1 := Fin.last 0
  [.start f 100, .start g 100, .send f, .send g, .serverRecv server 0, .serverSend server 0,
    .recv g 1 300, .serverRecv server 0, .serverSend server 0, .recv f 0 400]

theorem finishes_crossedRun :
    ∃ s, run (step oneByte onLoopback)
        (init (fun _ => Buffer.zero 65000) fun _ => Buffer.zero 65000) crossedRun = some s ∧
      s.timings = [200, 300] ∧ s.Joined ∧ s.network = [] := by
  have hrun : ((run (step oneByte onLoopback)
      (init (fun _ => Buffer.zero 65000) fun _ => Buffer.zero 65000) crossedRun).map fun s =>
        (s.timings, s.fault)) = some ([200, 300], none) := by decide +kernel
  obtain ⟨s, hs, hfinal⟩ := Option.map_eq_some_iff.mp hrun
  obtain ⟨htimings, hfault⟩ := Prod.mk.inj hfinal
  have hfits : oneByte.message.length * 2 < 65000 := by
    rw [oneByte.length_message]
    decide
  have hfinishes := finishes_lossless oneByte onLoopback (by decide) hfits (by decide)
    (fun _ => Buffer.zero 65000) (fun _ => Buffer.zero 65000) crossedRun (by decide +kernel) hs
    hfault
  obtain ⟨hjoined, hempty, _⟩ := hfinishes.resolve_right fun h => absurd h.1 (by decide)
  exact ⟨s, hs, htimings, hjoined, hempty⟩

end Hnet.CliEcho
