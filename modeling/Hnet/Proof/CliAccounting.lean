import Hnet.CliProgram
import Hnet.Gaps
import Hnet.Holdings
import Mathlib.Algebra.BigOperators.Fin

/-!
# The books of the other UDP client

A reply is the message twice, or nothing when the server answers a receive that failed. It is never
what is configured, so no fiber leaves its loop early: every iteration that is not given up by an
exception pushes one timing, whoever's reply it has taken.
-/

namespace Hnet.CliEcho

open Gaps Lts

variable {A : Type} {n m : Nat} {cfg : CliConfig} {topo : CliTopology A} {s s' : CliEcho A n m}

def IsReply (cfg : CliConfig) (bytes : Bytes) : Prop :=
  bytes = [] ∨ bytes = cfg.message ++ cfg.message

/-- What the fibers have received and what they have measured. -/
structure CliSafe (cfg : CliConfig) (s : CliEcho A n m) : Prop where
  received : ∀ bytes ∈ s.received, IsReply cfg bytes
  /-- no fiber has left its loop early -/
  complete : ∀ thr, (s.fibers thr).pc = .returned → (s.fibers thr).i = cfg.count.toNat
  shared : (s.timings : Multiset Int) = ∑ thr, (s.pushed thr : Multiset Int)
  count : s.timings.length = ∑ thr, (s.fibers thr).i
  pushed : ∀ thr, s.pushed thr = gaps (s.readings thr)
  telescopes : ∀ thr first last, (s.readings thr).head? = some first →
    (s.readings thr).getLast? = some last → (s.pushed thr).sum = last - first
  start : ∀ thr last, (s.readings thr).getLast? = some last → (s.fibers thr).start = last
  joined : s.Joined → s.timings.length = n * cfg.count.toNat

theorem IsReply.ne_configured {bytes : Bytes} (h : IsReply cfg bytes)
    (hne : cfg.dataToSend ≠ []) : bytes ≠ cfg.dataToSend := by
  rintro rfl
  rcases h with hnone | htwice
  · exact hne hnone
  · have hlen := congrArg List.length htwice
    have hpos := List.length_pos_iff.mpr hne
    rw [List.length_append, cfg.length_message] at hlen
    omega

/-! ### What is in flight -/

/-- A reply that fits into the buffer of a fiber. -/
def ShortReply (cfg : CliConfig) (bytes : Bytes) : Prop :=
  IsReply cfg bytes ∧ bytes.length < 65000

/-- A datagram from the client is the message, one to the client is a reply. -/
def Sound (cfg : CliConfig) (topo : CliTopology A) (d : Packet A) : Prop :=
  (d.src = topo.client → d.payload = cfg.message) ∧
    (d.dst = topo.client → ShortReply cfg d.payload)

structure NetInv (cfg : CliConfig) (topo : CliTopology A) (s : CliEcho A n m) : Prop where
  network : ∀ d ∈ s.network, Sound cfg topo d
  outgoing : ∀ a bytes addr, (s.servers a).outgoing = some (bytes, addr) →
    addr.sockaddr = none ∨ addr.sockaddr = some topo.client → ShortReply cfg bytes
  received : ∀ bytes ∈ s.received, IsReply cfg bytes

theorem netInv_init (fiberBuf : Fin n → Buffer 65000) (serverBuf : Fin m → Buffer 65000) :
    NetInv cfg topo (init fiberBuf serverBuf : CliEcho A n m) :=
  ⟨fun d hd => (by cases hd), fun a bytes addr hout => (by cases hout),
    fun bytes hbytes => (by cases hbytes)⟩

/-- What a server fiber puts together is a reply, if it has received a message or nothing. -/
theorem shortReply_of_recvReturned {server : Server A} {done : RecvDone A} {bytes : Bytes}
    {addr : Addr A} (hout : (server.recvReturned done).outgoing = some (bytes, addr))
    (hdone : done.payload 65000 = [] ∨ done.payload 65000 = cfg.message.take 65000) :
    ShortReply cfg bytes := by
  by_cases hlen : (done.payload 65000).length * 2 < 65000
  · rw [(Server.recvReturned_of_fits hlen).1] at hout
    obtain ⟨rfl, rfl⟩ := Prod.mk.inj (Option.some.inj hout)
    refine ⟨?_, by rw [List.length_append]; omega⟩
    rcases hdone with hnone | hwhole
    · rw [hnone]
      exact Or.inl rfl
    · have hshort : cfg.message.take 65000 = cfg.message := by
        apply List.take_of_length_le
        rw [hwhole, List.length_take] at hlen
        omega
      rw [hwhole, hshort]
      exact Or.inr rfl
  · rw [(Server.recvReturned_of_not_fits hlen).1] at hout
    cases hout

/-- The network takes up datagrams that are in order, and nothing else of this changes. -/
theorem netInv_of_network (h : NetInv cfg topo s)
    (hnetwork : ∀ d ∈ s'.network, d ∈ s.network ∨ Sound cfg topo d)
    (hservers : s'.servers = s.servers) (hreceived : s'.received = s.received) :
    NetInv cfg topo s' where
  network d hd := (hnetwork d hd).elim (h.network d) id
  outgoing := hservers ▸ h.outgoing
  received := hreceived ▸ h.received

theorem netInv_of_server {a : Fin m} {server : Server A} (h : NetInv cfg topo s)
    (hnetwork : ∀ d ∈ s'.network, d ∈ s.network ∨ Sound cfg topo d)
    (hservers : s'.servers = Function.update s.servers a server)
    (hout : ∀ bytes addr, server.outgoing = some (bytes, addr) →
      addr.sockaddr = none ∨ addr.sockaddr = some topo.client → ShortReply cfg bytes)
    (hreceived : s'.received = s.received) : NetInv cfg topo s' where
  network d hd := (hnetwork d hd).elim (h.network d) id
  outgoing b bytes addr hb := by
    rw [hservers] at hb
    by_cases hba : b = a
    · rw [hba, Function.update_self] at hb
      exact hout bytes addr hb
    · rw [Function.update_of_ne hba] at hb
      exact h.outgoing b bytes addr hb
  received := hreceived ▸ h.received

theorem recvDone_frame (cfg : CliConfig) (s : CliEcho A n m) (thr : Fin n) (done : RecvDone A)
    (now : Int) :
    (recvDone cfg s thr done now).network = s.network
      ∧ (recvDone cfg s thr done now).servers = s.servers
      ∧ (recvDone cfg s thr done now).aborted = s.aborted
      ∧ (recvDone cfg s thr done now).received = s.received := by
  rcases recvDone_cases cfg s thr done now with ⟨_, c, heq⟩ | ⟨_, heq | ⟨c, _, _, heq⟩⟩ <;>
    rw [heq] <;> exact ⟨rfl, rfl, rfl, rfl⟩

theorem netInv_recvDone (h : NetInv cfg topo s) (thr : Fin n) (done : RecvDone A) (now : Int) :
    NetInv cfg topo (recvDone cfg s thr done now) := by
  obtain ⟨hnetwork, hservers, _, hreceived⟩ := recvDone_frame cfg s thr done now
  exact netInv_of_network h (fun d hd => Or.inl (hnetwork ▸ hd)) hservers hreceived

theorem step_netInv [DecidableEq A] {e : Event A n m} (h : NetInv cfg topo s)
    (hstep : step cfg topo s e = some s') : NetInv cfg topo s' := by
  have hsame : ∀ d ∈ s.network, d ∈ s.network ∨ Sound cfg topo d := fun d hd => Or.inl hd
  have herase : ∀ k, ∀ d ∈ s.network.eraseIdx k, d ∈ s.network ∨ Sound cfg topo d :=
    fun k d hd => Or.inl (List.mem_of_mem_eraseIdx hd)
  have hnew : ∀ x, (x ∈ s.network ∨ Sound cfg topo x) →
      ∀ d ∈ s.network ++ [x], d ∈ s.network ∨ Sound cfg topo d := by
    intro x hx d hd
    rcases List.mem_append.mp hd with hd | hd
    · exact Or.inl hd
    · exact List.mem_singleton.mp hd ▸ hx
  cases e with
  | start thr now =>
      obtain ⟨_, rfl⟩ := step_start hstep
      exact netInv_of_network h hsame rfl rfl
  | send thr =>
      obtain ⟨_, rfl⟩ := step_send hstep
      refine netInv_of_network h (hnew _ (Or.inr ⟨fun _ => rfl, fun hdst => ?_⟩)) rfl rfl
      exact absurd hdst.symm topo.client_ne_server
  | sendFails thr err =>
      obtain ⟨_, rfl⟩ := step_sendFails hstep
      exact netInv_of_network h hsame rfl rfl
  | recv thr k now =>
      obtain ⟨d, hd, ⟨_, _, hdst⟩, rfl⟩ := step_recv hstep
      obtain ⟨hreply, hlen⟩ := (h.network d (List.mem_of_getElem? hd)).2 hdst
      have hreceived : ∀ bytes ∈ s.received ++ [d.payload.take 65000], IsReply cfg bytes := by
        intro bytes hbytes
        rcases List.mem_append.mp hbytes with hbytes | hbytes
        · exact h.received bytes hbytes
        · rw [List.mem_singleton.mp hbytes, List.take_of_length_le hlen.le]
          exact hreply
      have htaken : NetInv cfg topo { s with
          network := s.network.eraseIdx k
          received := s.received ++ [d.payload.take 65000] } :=
        ⟨fun x hx => h.network x (List.mem_of_mem_eraseIdx hx), h.outgoing, hreceived⟩
      exact netInv_recvDone htaken thr _ _
  | recvFails thr err now =>
      obtain ⟨_, rfl⟩ := step_recvFails hstep
      exact netInv_recvDone h thr _ _
  | serverRecv a k =>
      obtain ⟨d, hd, _, _, rfl⟩ := step_serverRecv hstep
      refine netInv_of_server h (herase k) rfl (fun bytes addr hout hto => ?_) rfl
      refine shortReply_of_recvReturned hout (Or.inr ?_)
      have haddr : addr.sockaddr = some d.src := by
        by_cases hlen : ((RecvDone.datagram d.src d.payload).payload 65000).length * 2 < 65000
        · rw [(Server.recvReturned_of_fits hlen).1] at hout
          rw [← (Prod.mk.inj (Option.some.inj hout)).2]
          rfl
        · rw [(Server.recvReturned_of_not_fits hlen).1] at hout
          cases hout
      rw [haddr] at hto
      have hsrc : d.src = topo.client := by
        rcases hto with hnone | hsome
        · cases hnone
        · exact Option.some.inj hsome
      exact congrArg (List.take 65000) ((h.network d (List.mem_of_getElem? hd)).1 hsrc)
  | serverRecvFails a err =>
      obtain ⟨_, rfl⟩ := step_serverRecvFails hstep
      exact netInv_of_server h hsame rfl
        (fun bytes addr hout _ => shortReply_of_recvReturned hout (Or.inl rfl)) rfl
  | serverSend a stale =>
      obtain ⟨bytes, addr, hout, rfl⟩ := step_serverSend hstep
      refine netInv_of_server h (hnew _ (Or.inr ⟨fun hsrc => ?_, fun hdst => ?_⟩)) rfl
        (fun bytes' addr' hout' => ?_) rfl
      · exact absurd hsrc.symm topo.client_ne_server
      · refine h.outgoing a bytes addr hout ?_
        cases haddr : addr.sockaddr with
        | none => exact Or.inl rfl
        | some dst =>
            rw [haddr] at hdst
            exact Or.inr (congrArg some hdst)
      · rw [Server.sendReturned_outgoing] at hout'
        cases hout'
  | serverSendFails a err =>
      obtain rfl := step_serverSendFails hstep
      refine netInv_of_server h hsame rfl (fun bytes' addr' hout' => ?_) rfl
      rw [Server.sendReturned_outgoing] at hout'
      cases hout'
  | drop k =>
      obtain rfl := step_drop hstep
      exact netInv_of_network h (herase k) rfl rfl
  | duplicate k =>
      obtain ⟨d, hd, rfl⟩ := step_duplicate hstep
      exact netInv_of_network h (hnew d (Or.inl (List.mem_of_getElem? hd))) rfl rfl
  | foreign src payload =>
      obtain ⟨hsrc, rfl⟩ := step_foreign hstep
      refine netInv_of_network h (hnew _ (Or.inr ⟨fun heq => ?_, fun hdst => ?_⟩)) rfl rfl
      · exact absurd heq hsrc
      · exact absurd hdst.symm topo.client_ne_server

/-! ### The books of one fiber -/

structure Kept (cfg : CliConfig) (c : CliFiber) (readings pushed : List Int) : Prop where
  measured : pushed = gaps readings
  count : pushed.length = c.i
  last : readings = [] ∨ ∃ first rest, readings = first :: rest
    ∧ (first :: rest).getLast (List.cons_ne_nil first rest) = c.start
  fresh : c.pc = .spawned ↔ readings = []
  before : c.pc = .sending ∨ c.pc = .receiving → c.i < cfg.count.toNat
  after : c.pc = .returned → cfg.count.toNat ≤ c.i
  le : c.i ≤ cfg.count.toNat
  /-- an empty message is not waited for -/
  sends : c.pc = .receiving → cfg.dataToSend ≠ []

namespace Kept

variable {c : CliFiber} {readings pushed : List Int}

theorem spawn (cfg : CliConfig) (buf : Buffer 65000) : Kept cfg (CliFiber.spawn buf) [] [] where
  measured := rfl
  count := rfl
  last := Or.inl rfl
  fresh := ⟨fun _ => rfl, fun _ => rfl⟩
  before := by rintro (hpc | hpc) <;> cases hpc
  after hpc := by cases hpc
  le := Nat.zero_le _
  sends hpc := by cases hpc

theorem loopHead_cases (cfg : CliConfig) (c : CliFiber) :
    ((c.loopHead cfg).pc = .sending ∧ c.i < cfg.count.toNat) ∨
      ((c.loopHead cfg).pc = .returned ∧ cfg.count.toNat ≤ c.i) := by
  unfold CliFiber.loopHead
  by_cases hlt : (c.i : Int) < cfg.count
  · exact Or.inl ⟨if_pos hlt, by omega⟩
  · exact Or.inr ⟨if_neg hlt, by omega⟩

/-- Readings and gaps that fit the fiber at the head of its loop. -/
theorem loopHead (hpushed : pushed = gaps readings) (hcount : pushed.length = c.i)
    (hreadings : ∃ first rest, readings = first :: rest
      ∧ (first :: rest).getLast (List.cons_ne_nil first rest) = c.start)
    (hle : c.i ≤ cfg.count.toNat) : Kept cfg (c.loopHead cfg) readings pushed := by
  obtain ⟨first, rest, hfirst, hlast⟩ := hreadings
  have hne : readings ≠ [] := by
    rw [hfirst]
    exact List.cons_ne_nil first rest
  refine ⟨hpushed, hcount, Or.inr ⟨first, rest, hfirst, hlast⟩, ?_, ?_, ?_, hle, ?_⟩
  · refine ⟨fun hspawned => ?_, fun hempty => absurd hempty hne⟩
    rcases loopHead_cases cfg c with ⟨hpc, _⟩ | ⟨hpc, _⟩ <;> rw [hspawned] at hpc <;> cases hpc
  · intro hpc
    rcases loopHead_cases cfg c with ⟨_, hlt⟩ | ⟨hreturned, _⟩
    · exact hlt
    · rw [hreturned] at hpc
      rcases hpc with hpc | hpc <;> cases hpc
  · intro hpc
    rcases loopHead_cases cfg c with ⟨hsending, _⟩ | ⟨_, hge⟩
    · rw [hsending] at hpc
      cases hpc
    · exact hge
  · intro hpc
    rcases loopHead_cases cfg c with ⟨hother, _⟩ | ⟨hother, _⟩ <;> rw [hother] at hpc <;> cases hpc

theorem started (cfg : CliConfig) (c : CliFiber) (now : Int) :
    Kept cfg (c.started cfg now) [now] [] :=
  loopHead rfl rfl ⟨now, [], rfl, rfl⟩ (Nat.zero_le _)

theorem next (h : Kept cfg c readings pushed) (hpc : c.pc = .receiving) {c' : CliFiber}
    (hi : c'.i = c.i) (now : Int) :
    Kept cfg (c'.next cfg now) (readings ++ [now]) (pushed ++ [now - c.start]) := by
  have hne : readings ≠ [] := by
    intro hempty
    rw [h.fresh.mpr hempty] at hpc
    cases hpc
  obtain ⟨first, rest, hfirst, hlast⟩ := h.last.resolve_left hne
  refine loopHead ?_ ?_ ⟨first, rest ++ [now], ?_, ?_⟩ ?_
  · rw [hfirst, List.cons_append, gaps_concat, hlast, ← hfirst, h.measured]
  · rw [List.length_append, h.count, hi]
    rfl
  · rw [hfirst, List.cons_append]
  · exact List.getLast_append_singleton (first :: rest)
  · have hlt := h.before (Or.inr hpc)
    rw [← hi] at hlt
    exact hlt

theorem sendReturned (h : Kept cfg c readings pushed) (hpc : c.pc = .sending) {res : Int}
    (hres : 0 < res → cfg.dataToSend ≠ []) : Kept cfg (c.sendReturned res) readings pushed := by
  have hstays : ∀ pc, pc = .threw ∨ pc = .receiving ∧ cfg.dataToSend ≠ [] →
      Kept cfg { c with pc := pc } readings pushed := by
    intro pc hnext
    refine ⟨h.measured, h.count, h.last, ?_, fun _ => h.before (Or.inl hpc), ?_, h.le, ?_⟩
    · rw [← h.fresh, hpc]
      rcases hnext with rfl | ⟨rfl, _⟩ <;>
        exact ⟨fun heq => (by cases heq), fun heq => by cases heq⟩
    · intro heq
      rcases hnext with rfl | ⟨rfl, _⟩ <;> cases heq
    · intro heq
      rcases hnext with rfl | ⟨_, hne⟩
      · cases heq
      · exact hne
  unfold CliFiber.sendReturned sendmsg
  by_cases hneg : res < 0
  · rw [if_pos hneg]
    exact hstays _ (Or.inl rfl)
  · simp only [if_neg hneg]
    split
    · exact hstays _ (Or.inl rfl)
    · rename_i hpos
      exact hstays _ (Or.inr ⟨rfl, hres (not_le.mp hpos)⟩)

theorem start_eq (h : Kept cfg c readings pushed) {last : Int}
    (hlast : readings.getLast? = some last) : c.start = last := by
  rcases h.last with rfl | ⟨first, rest, rfl, hstart⟩
  · cases hlast
  · rw [List.getLast?_eq_some_getLast (List.cons_ne_nil first rest), hstart] at hlast
    exact Option.some.inj hlast

end Kept

/-! ### All fibers -/

structure Books (cfg : CliConfig) (s : CliEcho A n m) : Prop where
  kept : ∀ thr, Kept cfg (s.fibers thr) (s.readings thr) (s.pushed thr)
  shared : (s.timings : Multiset Int)
    = Holdings.total (fun pushed : List Int => (pushed : Multiset Int)) s.pushed Finset.univ

namespace Books

variable {thr : Fin n}

theorem exchange (h : Books cfg s) {c : CliFiber} {readings new : List Int}
    (hkept : Kept cfg c readings (s.pushed thr ++ new))
    (hfibers : s'.fibers = Function.update s.fibers thr c)
    (hreadings : s'.readings = Function.update s.readings thr readings)
    (hpushed : s'.pushed = Function.update s.pushed thr (s.pushed thr ++ new))
    (htimings : s'.timings = s.timings ++ new) : Books cfg s' where
  kept other := by
    rw [hfibers, hreadings, hpushed]
    by_cases heq : other = thr
    · subst heq
      rw [Function.update_self, Function.update_self, Function.update_self]
      exact hkept
    · rw [Function.update_of_ne heq, Function.update_of_ne heq, Function.update_of_ne heq]
      exact h.kept other
  shared := by
    obtain ⟨others, hbefore, hafter⟩ :=
      Holdings.exchange (fun pushed : List Int => (pushed : Multiset Int)) s.pushed
        (Finset.mem_univ thr) (s.pushed thr ++ new)
    rw [hpushed, hafter, htimings, ← Multiset.coe_add, h.shared, hbefore, ← Multiset.coe_add,
      add_right_comm]

/-- A fiber moves on and pushes nothing. -/
theorem move (h : Books cfg s) {c : CliFiber} {readings : List Int}
    (hkept : Kept cfg c readings (s.pushed thr))
    (hfibers : s'.fibers = Function.update s.fibers thr c)
    (hreadings : s'.readings = Function.update s.readings thr readings)
    (hpushed : s'.pushed = s.pushed) (htimings : s'.timings = s.timings) : Books cfg s' := by
  have hnone : s.pushed thr = s.pushed thr ++ [] := (List.append_nil _).symm
  refine h.exchange (hnone ▸ hkept) hfibers hreadings ?_ ?_
  · rw [List.append_nil, hpushed, Function.update_eq_self]
  · rw [List.append_nil, htimings]

theorem recvDone (h : Books cfg s) (hpc : (s.fibers thr).pc = .receiving) {done : RecvDone A}
    (hreply : IsReply cfg (done.payload 65000)) (now : Int) :
    Books cfg (recvDone cfg s thr done now) := by
  have hkept := h.kept thr
  have hnot := hreply.ne_configured (hkept.sends hpc)
  rcases recvDone_cases cfg s thr done now with ⟨heq, _⟩ | ⟨_, heq | ⟨c, hi, _, heq⟩⟩
  · exact absurd heq hnot
  · rw [heq]
    exact ⟨h.kept, h.shared⟩
  · rw [heq]
    exact h.exchange (hkept.next hpc hi now) rfl rfl rfl rfl

end Books

theorem step_books [DecidableEq A] {e : Event A n m} (hnet : NetInv cfg topo s) (h : Books cfg s)
    (hstep : step cfg topo s e = some s') : Books cfg s' := by
  cases e with
  | start thr now =>
      obtain ⟨⟨_, hpc⟩, rfl⟩ := step_start hstep
      have hpushed : s.pushed thr = [] := by
        rw [(h.kept thr).measured, (h.kept thr).fresh.mp hpc]
        rfl
      exact h.move (hpushed ▸ Kept.started cfg (s.fibers thr) now.toInt) rfl rfl rfl rfl
  | send thr =>
      obtain ⟨⟨_, hpc⟩, rfl⟩ := step_send hstep
      refine h.move ((h.kept thr).sendReturned hpc fun hpos hnil => ?_) rfl
        (Function.update_eq_self _ _).symm rfl rfl
      rw [cfg.length_message, hnil] at hpos
      exact absurd hpos (lt_irrefl 0)
  | sendFails thr err =>
      obtain ⟨⟨_, hpc⟩, rfl⟩ := step_sendFails hstep
      refine h.move ((h.kept thr).sendReturned hpc fun hpos => ?_) rfl
        (Function.update_eq_self _ _).symm rfl rfl
      have := err.pos
      omega
  | recv thr k now =>
      obtain ⟨d, hd, ⟨_, hpc, hdst⟩, rfl⟩ := step_recv hstep
      obtain ⟨hreply, hlen⟩ := (hnet.network d (List.mem_of_getElem? hd)).2 hdst
      have htaken : Books cfg { s with
          network := s.network.eraseIdx k
          received := s.received ++ [d.payload.take 65000] } := ⟨h.kept, h.shared⟩
      refine htaken.recvDone hpc ?_ _
      rwa [RecvDone.payload, List.take_of_length_le hlen.le]
  | recvFails thr err now =>
      obtain ⟨⟨_, hpc⟩, rfl⟩ := step_recvFails hstep
      exact h.recvDone hpc (Or.inl rfl) _
  | serverRecv a k =>
      obtain ⟨d, _, _, _, rfl⟩ := step_serverRecv hstep
      exact ⟨h.kept, h.shared⟩
  | serverRecvFails a err =>
      obtain ⟨_, rfl⟩ := step_serverRecvFails hstep
      exact ⟨h.kept, h.shared⟩
  | serverSend a stale =>
      obtain ⟨bytes, addr, _, rfl⟩ := step_serverSend hstep
      exact ⟨h.kept, h.shared⟩
  | serverSendFails a err =>
      obtain rfl := step_serverSendFails hstep
      exact ⟨h.kept, h.shared⟩
  | drop k =>
      obtain rfl := step_drop hstep
      exact ⟨h.kept, h.shared⟩
  | duplicate k =>
      obtain ⟨d, _, rfl⟩ := step_duplicate hstep
      exact ⟨h.kept, h.shared⟩
  | foreign src payload =>
      obtain ⟨_, rfl⟩ := step_foreign hstep
      exact ⟨h.kept, h.shared⟩

/-! ### What the books add up to -/

theorem Books.cliSafe (h : Books cfg s) (hnet : NetInv cfg topo s) : CliSafe cfg s := by
  have hdone : ∀ thr, (s.fibers thr).pc = .returned → (s.fibers thr).i = cfg.count.toNat :=
    fun thr hpc => le_antisymm (h.kept thr).le ((h.kept thr).after hpc)
  have hcount : s.timings.length = ∑ thr, (s.fibers thr).i := by
    have hcard := congrArg Multiset.card h.shared
    rw [Multiset.coe_card, Holdings.total, Multiset.card_sum] at hcard
    rw [hcard]
    exact Finset.sum_congr rfl fun thr _ => (h.kept thr).count
  refine ⟨hnet.received, hdone, h.shared, hcount, fun thr => (h.kept thr).measured, ?_,
    fun thr last => (h.kept thr).start_eq, fun hjoined => ?_⟩
  · intro thr first last hfirst hlast
    rw [(h.kept thr).measured, sum_gaps_of_ends hfirst hlast]
  calc s.timings.length = ∑ thr, (s.fibers thr).i := hcount
    _ = ∑ _ : Fin n, cfg.count.toNat :=
        Finset.sum_congr rfl fun thr _ => hdone thr (hjoined.2 thr)
    _ = n * cfg.count.toNat := by
        rw [Finset.sum_const, Finset.card_univ, Fintype.card_fin, smul_eq_mul]

theorem books_throughout [DecidableEq A] (cfg : CliConfig) (topo : CliTopology A)
    (fiberBuf : Fin n → Buffer 65000) (serverBuf : Fin m → Buffer 65000)
    (es : List (Event A n m)) :
    Throughout (step cfg topo) (fun s => NetInv cfg topo s ∧ Books cfg s)
      (init fiberBuf serverBuf) es :=
  throughout_of_invariant es
    ⟨netInv_init fiberBuf serverBuf, fun thr => Kept.spawn cfg (fiberBuf thr),
      Finset.sum_const_zero.symm⟩
    fun _ _ _ h hstep => ⟨step_netInv h.1 hstep, step_books h.1 h.2 hstep⟩

/-- **The fibers of `cli.cc` take nothing but replies, and none of them stops early**, whatever the
network does and whoever takes whose reply. -/
theorem cliSafe_throughout [DecidableEq A] (cfg : CliConfig) (topo : CliTopology A)
    (fiberBuf : Fin cfg.threads.toNat → Buffer 65000) (serverBuf : Fin m → Buffer 65000)
    (es : List (Event A cfg.threads.toNat m)) :
    Throughout (step cfg topo) (CliSafe cfg) (init fiberBuf serverBuf) es :=
  (books_throughout cfg topo fiberBuf serverBuf es).imp fun _ h => h.2.cliSafe h.1

end Hnet.CliEcho
