import Hnet.Lts
import Hnet.UdpEcho

/-!
# A client receives its own message twice

What is in flight from a client is its message, and what is in flight to it is that message twice:
a server fiber puts its reply together from the datagram it has just received, in a buffer no other
fiber touches, and sends it to where that datagram came from. Neither loss nor delay nor repetition
changes this.
-/

namespace Hnet.Echo

open Lts

variable {A : Type} {n m : Nat} {cfg : ClientConfig} {topo : Topology A n} {s s' : Echo A n m}

def ServerReceives (_ : Echo A n m) : Event A n m → Prop
  | .serverRecvFails _ _ => False
  | _ => True

instance (s : Echo A n m) : ∀ e, Decidable (s.ServerReceives e)
  | .serverRecvFails _ _ => isFalse id
  | .start _ _ | .send _ | .sendFails _ _ | .recv _ _ _ _ | .recvFails _ _ _ _ | .leave _ _
  | .serverRecv _ _ | .serverSend _ _ | .serverSendFails _ _ | .drop _ | .duplicate _
  | .foreign _ _ => isTrue trivial

/-- Whatever a client fiber has received is its own message twice, and none has panicked. -/
structure EchoSafe (cfg : ClientConfig) (s : Echo A n m) : Prop where
  received : ∀ r ∈ s.received, r.2 = cfg.dataExpected r.1
  noPanic : ∀ thr, (s.clients thr).pc ≠ .panicked

/-- The echo a client fiber waits for, short enough for its buffer. -/
def IsEcho (cfg : ClientConfig) (thr : Fin n) (bytes : Bytes) : Prop :=
  bytes = cfg.dataExpected thr ∧ bytes.length < 65000

/-- A datagram from a client is its message, one to a client is its echo. -/
def Sound (cfg : ClientConfig) (topo : Topology A n) (d : Datagram A n) : Prop :=
  ∀ thr, (d.src = topo.client thr → d.payload = cfg.data thr) ∧
    (d.dst = topo.client thr → IsEcho cfg thr d.payload)

structure NetInv (cfg : ClientConfig) (topo : Topology A n) (s : Echo A n m) : Prop where
  network : ∀ d ∈ s.network, Sound cfg topo d
  outgoing : ∀ a bytes addr, (s.servers a).outgoing = some (bytes, addr) →
    ∃ dst, addr.sockaddr = some dst ∧ ∀ thr, dst = topo.client thr → IsEcho cfg thr bytes
  safe : EchoSafe cfg s

theorem netInv_init (clientBuf : Fin n → Buffer 65000) (serverBuf : Fin m → Buffer 65000) :
    NetInv cfg topo (init clientBuf serverBuf : Echo A n m) where
  network d hd := by cases hd
  outgoing a bytes addr hout := by cases hout
  safe := ⟨fun r hr => (by cases hr), fun thr hpc => (by cases hpc)⟩

theorem noPanic_update {thr : Fin n} {c : Client} (h : ∀ g, (s.clients g).pc ≠ .panicked)
    (hc : c.pc ≠ .panicked) (g : Fin n) :
    (Function.update s.clients thr c g).pc ≠ .panicked := by
  by_cases hg : g = thr
  · rwa [hg, Function.update_self]
  · rw [Function.update_of_ne hg]
    exact h g

theorem netInv_of_network (hinv : NetInv cfg topo s)
    (hnetwork : ∀ d ∈ s'.network, d ∈ s.network ∨ Sound cfg topo d)
    (hservers : s'.servers = s.servers) (hreceived : s'.received = s.received)
    (hpanic : ∀ thr, (s'.clients thr).pc ≠ .panicked) : NetInv cfg topo s' where
  network d hd := (hnetwork d hd).elim (hinv.network d) id
  outgoing := hservers ▸ hinv.outgoing
  safe := ⟨hreceived ▸ hinv.safe.received, hpanic⟩

theorem netInv_of_server {a : Fin m} {server : Server A} (hinv : NetInv cfg topo s)
    (hnetwork : ∀ d ∈ s'.network, d ∈ s.network ∨ Sound cfg topo d)
    (hservers : s'.servers = Function.update s.servers a server)
    (hout : ∀ bytes addr, server.outgoing = some (bytes, addr) →
      ∃ dst, addr.sockaddr = some dst ∧ ∀ thr, dst = topo.client thr → IsEcho cfg thr bytes)
    (hreceived : s'.received = s.received) (hclients : s'.clients = s.clients) :
    NetInv cfg topo s' where
  network d hd := (hnetwork d hd).elim (hinv.network d) id
  outgoing b bytes addr hb := by
    rw [hservers] at hb
    by_cases hba : b = a
    · rw [hba, Function.update_self] at hb
      exact hout bytes addr hb
    · rw [Function.update_of_ne hba] at hb
      exact hinv.outgoing b bytes addr hb
  safe := ⟨hreceived ▸ hinv.safe.received, hclients ▸ hinv.safe.noPanic⟩

theorem isEcho_reply {server : Server A} {d : Datagram A n} {bytes : Bytes} {addr : Addr A}
    (hsound : Sound cfg topo d)
    (hout : (server.recvReturned (.datagram d.src d.payload)).outgoing = some (bytes, addr)) :
    ∃ dst, addr.sockaddr = some dst ∧ ∀ thr, dst = topo.client thr → IsEcho cfg thr bytes := by
  by_cases hlen : ((RecvDone.datagram d.src d.payload).payload 65000).length * 2 < 65000
  · rw [(Server.recvReturned_of_fits hlen).1] at hout
    obtain ⟨rfl, rfl⟩ := Prod.mk.inj (Option.some.inj hout)
    refine ⟨d.src, rfl, fun thr hthr => ?_⟩
    have hfull : (RecvDone.datagram d.src d.payload).payload 65000 = cfg.data thr := by
      rw [← (hsound thr).1 hthr]
      refine List.take_of_length_le ?_
      rw [RecvDone.payload, List.length_take] at hlen
      omega
    rw [hfull] at hlen ⊢
    refine ⟨rfl, ?_⟩
    rw [List.length_append]
    omega
  · rw [(Server.recvReturned_of_not_fits hlen).1] at hout
    cases hout

theorem netInv_recvDone {s₀ : Echo A n m} {thr : Fin n} {done : RecvDone A}
    {request : Option (RequestId n)} {timeout now : Int} (hinv : NetInv cfg topo s₀)
    (hdone : 0 < done.res 65000 → done.payload 65000 = cfg.dataExpected thr) :
    NetInv cfg topo (recvDone cfg s₀ thr done request timeout now) := by
  refine netInv_of_network hinv (fun d hd => Or.inl hd) rfl rfl ?_
  refine noPanic_update hinv.safe.noPanic fun hpanic => ?_
  rcases Client.recvReturned_pc cfg
    { s₀.clients thr with buf := done.fill (s₀.clients thr).buf } s₀.stats now
    (Client.judge cfg thr (done.fill (s₀.clients thr).buf)
      (recvmsgDur (MemView.of 65000) done.addr (timedOutcome (done.res 65000) timeout))) with
    ⟨_, hpc⟩ | ⟨hverdict, _⟩ | ⟨_, hpc | hpc⟩
  · cases hpc.symm.trans hpanic
  · obtain ⟨hne, hpos⟩ := (Client.judge_compares hverdict).2 rfl
    exact hne (hdone hpos)
  · cases hpc.symm.trans hpanic
  · cases hpc.symm.trans hpanic

variable [DecidableEq A]

theorem step_netInv {e : Event A n m} (hinv : NetInv cfg topo s) (hok : s.ServerReceives e)
    (h : step cfg topo s e = some s') : NetInv cfg topo s' := by
  have hsame : ∀ d ∈ s.network, d ∈ s.network ∨ Sound cfg topo d := fun d hd => Or.inl hd
  have herase : ∀ k, ∀ d ∈ s.network.eraseIdx k, d ∈ s.network ∨ Sound cfg topo d :=
    fun k d hd => Or.inl (List.mem_of_mem_eraseIdx hd)
  have hnew : ∀ x, (x ∈ s.network ∨ Sound cfg topo x) →
      ∀ d ∈ s.network ++ [x], d ∈ s.network ∨ Sound cfg topo d := by
    intro x hx d hd
    rcases List.mem_append.mp hd with hd | hd
    · exact Or.inl hd
    · exact List.mem_singleton.mp hd ▸ hx
  cases e with
  | start thr now =>
      obtain ⟨_, rfl⟩ := step_start h
      refine netInv_of_network hinv hsame rfl rfl (noPanic_update hinv.safe.noPanic fun hpc => ?_)
      rcases Client.loopHead_pc cfg { s.clients thr with i := 0, start := now } with hhead | hhead
      · cases hhead.symm.trans hpc
      · cases hhead.symm.trans hpc
  | send thr =>
      obtain ⟨_, rfl⟩ := step_send h
      refine netInv_of_network hinv (hnew _ (Or.inr fun g => ⟨fun hsrc => ?_, fun hdst => ?_⟩)) rfl
        rfl (noPanic_update hinv.safe.noPanic fun hpc => ?_)
      · rw [topo.client_injective hsrc]
      · exact absurd hdst.symm (topo.client_ne_server g)
      · rcases Client.sendReturned_pc (s.clients thr) (cfg.data thr).length with hsent | hsent
        · cases hsent.symm.trans hpc
        · cases hsent.symm.trans hpc
  | sendFails thr err =>
      obtain ⟨_, rfl⟩ := step_sendFails h
      refine netInv_of_network hinv hsame rfl rfl (noPanic_update hinv.safe.noPanic fun hpc => ?_)
      rcases Client.sendReturned_pc (s.clients thr) (-err.val) with hsent | hsent
      · cases hsent.symm.trans hpc
      · cases hsent.symm.trans hpc
  | recv thr k timeout now =>
      obtain ⟨d, hd, _, hdst, rfl⟩ := step_recv h
      obtain ⟨hecho, hlen⟩ := (hinv.network d (List.mem_of_getElem? hd) thr).2 hdst
      have htake : d.payload.take 65000 = cfg.dataExpected thr := by
        rw [List.take_of_length_le (by omega), hecho]
      refine netInv_recvDone ⟨fun x hx => ?_, hinv.outgoing, fun r hr => ?_, hinv.safe.noPanic⟩
        fun _ => htake
      · exact hinv.network x (List.mem_of_mem_eraseIdx hx)
      · rcases List.mem_append.mp hr with hr | hr
        · exact hinv.safe.received r hr
        · rw [List.mem_singleton.mp hr]
          exact htake
  | recvFails thr err timeout now =>
      obtain ⟨_, rfl⟩ := step_recvFails h
      refine netInv_recvDone hinv fun hpos => absurd hpos ?_
      have := err.pos
      simp only [RecvDone.res]
      omega
  | leave thr elapsed =>
      obtain ⟨_, rfl⟩ := step_leave h
      exact netInv_of_network hinv hsame rfl rfl
        (noPanic_update hinv.safe.noPanic fun hpc => by cases hpc)
  | serverRecv a k =>
      obtain ⟨d, hd, _, _, rfl⟩ := step_serverRecv h
      exact netInv_of_server hinv (herase k) rfl
        (fun bytes addr => isEcho_reply (hinv.network d (List.mem_of_getElem? hd))) rfl rfl
  | serverRecvFails a err => exact absurd hok id
  | serverSend a stale =>
      obtain ⟨bytes, addr, hout, rfl⟩ := step_serverSend h
      obtain ⟨dst, hdst, hecho⟩ := hinv.outgoing a bytes addr hout
      refine netInv_of_server hinv (hnew _ (Or.inr fun g => ⟨fun hsrc => ?_, fun hto => ?_⟩)) rfl
        (fun bytes' addr' hout' => ?_) rfl rfl
      · exact absurd hsrc.symm (topo.client_ne_server g)
      · rw [hdst] at hto
        exact hecho g hto
      · rw [Server.sendReturned_outgoing] at hout'
        cases hout'
  | serverSendFails a err =>
      obtain rfl := step_serverSendFails h
      refine netInv_of_server hinv hsame rfl (fun bytes' addr' hout' => ?_) rfl rfl
      rw [Server.sendReturned_outgoing] at hout'
      cases hout'
  | drop k =>
      obtain rfl := step_drop h
      exact netInv_of_network hinv (herase k) rfl rfl hinv.safe.noPanic
  | duplicate k =>
      obtain ⟨d, hd, rfl⟩ := step_duplicate h
      exact netInv_of_network hinv (hnew d (Or.inl (List.mem_of_getElem? hd))) rfl rfl
        hinv.safe.noPanic
  | foreign src payload =>
      obtain ⟨hsrc, rfl⟩ := step_foreign h
      refine netInv_of_network hinv (hnew _ (Or.inr fun g => ⟨fun heq => ?_, fun hto => ?_⟩)) rfl
        rfl hinv.safe.noPanic
      · exact absurd heq (hsrc g)
      · exact absurd hto.symm (topo.client_ne_server g)

/-- **A client fiber only ever receives its own message twice** in every run in which the receives
of the server succeed, so "bad response" is not reached. -/
theorem echoSafe_throughout (cfg : ClientConfig) (topo : Topology A n)
    (clientBuf : Fin n → Buffer 65000) (serverBuf : Fin m → Buffer 65000)
    (es : List (Event A n m))
    (hreceives : Along (step cfg topo) ServerReceives (init clientBuf serverBuf) es) :
    Throughout (step cfg topo) (EchoSafe cfg) (init clientBuf serverBuf) es :=
  (hreceives.throughout (netInv_init clientBuf serverBuf) fun _ _ _ hinv hok hstep =>
    step_netInv hinv hok hstep).imp fun _ hinv => hinv.safe

def twoClients : Topology Nat 2 where
  client thr := 7000 + thr
  server := 6667
  client_injective := by decide
  client_ne_server := by decide

/-- Two iterations for each of two fibers, with the messages "hi0" and "hi1". -/
def hiTwice : ClientConfig := { dataToSend := [104, 105], count := 4, fibers := 2 }

/-- The echo for `g` is repeated by the network. The one for `f` comes after its receive has been
cancelled by its timeout, and is received in its next iteration. -/
def lateRun (f g : Fin n) (a : Fin m) (canceled : Errno) : List (Event Nat n m) :=
  [.start f 10, .start g 11, .send f, .send g, .serverRecv a 1, .serverSend a 0, .duplicate 1,
    .recv g 1 (-ENOENT) 20, .recvFails f canceled (-ETIME) 30, .send f, .serverRecv a 0,
    .serverSend a 0, .recv f 2 (-ENOENT) 40]

theorem echoSafe_lateRun :
    (run (step hiTwice twoClients)
        (init (fun _ => Buffer.zero 65000) fun _ : Fin 1 => Buffer.zero 65000)
        (lateRun 0 1 0 ⟨125, by decide⟩)).map (fun s => s.received)
      = some [(1, [104, 105, 49, 104, 105, 49]), (0, [104, 105, 48, 104, 105, 48])] ∧
      Throughout (step hiTwice twoClients) (EchoSafe hiTwice)
        (init (fun _ => Buffer.zero 65000) fun _ : Fin 1 => Buffer.zero 65000)
        (lateRun 0 1 0 ⟨125, by decide⟩) :=
  ⟨by decide, echoSafe_throughout hiTwice twoClients _ _ (lateRun 0 1 0 _) (by decide)⟩

end Hnet.Echo
