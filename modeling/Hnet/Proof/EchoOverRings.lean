import Hnet.Proof.EchoRefinement
import Hnet.Proof.EchoSafety

/-!
# Over the rings, a client receives its own message twice

The safety of the echo protocol is that of the programs over their rings: a datagram that the
kernel has given to a receive is still in flight in the protocol, so what holds of all datagrams
there holds of it before its fiber looks at it.
-/

namespace Hnet

open Lts

theorem Fibers.asks_of_pending {ι σ D : Type} {program : FiberProgram σ D} {s : Fibers ι σ D}
    [DecidableEq ι] (hs : s.Sound program) {f : ι} {d : D} (h : s.pending f = some d) :
    ∃ ask, program.asks (s.programs f) = some ask := by
  obtain ⟨timed, hquestion, _⟩ := Option.bind_eq_some_iff.mp h
  obtain ⟨req, hasking⟩ := hs.consistent f timed hquestion
  exact ⟨_, hasking.asks⟩

namespace EchoRings

variable {A : Type} {n m : Nat} {cfg : ClientConfig} {topo : Topology A n}
  {s s' : EchoRings A n m} {t : Echo A n m}

/-- What the kernel has given to a client fiber is its own message twice, and none has panicked. -/
structure EchoSafe (cfg : ClientConfig) (s : EchoRings A n m) : Prop where
  received : ∀ thr src payload,
    s.clients.pending thr = some (.recv (.datagram src payload)) → payload = cfg.dataExpected thr
  noPanic : ∀ thr, (s.clients.programs thr).client.pc ≠ .panicked

def ServerReceives (_ : EchoRings A n m) : Event A n m → Prop
  | .server (.ends _ (.recv (.failed _))) _ => False
  | _ => True

instance (s : EchoRings A n m) : ∀ e, Decidable (s.ServerReceives e)
  | .server (.ends _ (.recv (.failed _))) _ => isFalse id
  | .server (.ends _ (.recv (.datagram _ _))) _ | .server (.ends _ (.send _)) _
  | .server (.call _) _ | .server (.runtime _) _ | .client _ | .drop _ | .duplicate _
  | .foreign _ _ => isTrue trivial

/-- The protocol has a safe state that the rings show. -/
structure ShowsSafe (cfg : ClientConfig) (topo : Topology A n) (s : EchoRings A n m) : Prop where
  shows : ∃ t, Shows topo s t ∧ Echo.NetInv cfg topo t
  received : ∀ a err, s.servers.pending a ≠ some (.recv (.failed err))

theorem netInv_started (clock : Fin n → Nat → Int) (clientBuf : Fin n → Buffer 65000)
    (serverBuf : Fin m → Buffer 65000) :
    Echo.NetInv cfg topo (started cfg clock clientBuf serverBuf : Echo A n m) := by
  refine Echo.netInv_of_network (Echo.netInv_init clientBuf serverBuf) (fun d hd => Or.inl hd) rfl
    rfl fun thr hpc => ?_
  rcases Client.loopHead_pc cfg { Client.spawn (clientBuf thr) with i := 0, start := clock thr 0 }
    with hhead | hhead
  · cases hhead.symm.trans hpc
  · cases hhead.symm.trans hpc

theorem echoSafe_of_showsSafe (hs : s.RingsSound cfg) (h : ShowsSafe cfg topo s) :
    EchoSafe cfg s := by
  obtain ⟨t, hshows, hnet⟩ := h.shows
  refine ⟨fun thr src payload hpending => ?_, fun thr hpc => ?_⟩
  · have hmem : ⟨src, topo.client thr, payload⟩ ∈ packets t.network := by
      have htaken : ⟨src, topo.client thr, payload⟩ ∈ taken topo.client s.clients.pending := by
        refine Holdings.mem_total.mpr ⟨thr, Finset.mem_univ thr, ?_⟩
        rw [hpending]
        exact Multiset.mem_singleton_self _
      rw [hshows.network]
      exact Multiset.mem_add.mpr (Or.inl (Multiset.mem_add.mpr (Or.inr htaken)))
    obtain ⟨k, d, hd, hpacket⟩ := exists_of_mem_packets hmem
    obtain ⟨_, hdst, rfl⟩ := Packet.mk.inj hpacket
    exact ((hnet.network d (List.mem_of_getElem? hd) thr).2 hdst).1
  · -- a fiber that has panicked is in no call
    have hnone : s.clients.pending thr = none := by
      cases hpending : s.clients.pending thr with
      | none => rfl
      | some d =>
          obtain ⟨ask, hasks⟩ := Fibers.asks_of_pending hs.clients.1 hpending
          change (s.clients.programs thr).asks = some ask at hasks
          rw [ClientRun.asks, hpc] at hasks
          cases hasks
    refine hnet.safe.noPanic thr ?_
    rw [hshows.clients.seen, hnone]
    exact hpc

variable [DecidableEq A]

theorem received_step {e : Event A n m} (hs : s.RingsSound cfg)
    (hreceived : ∀ a err, s.servers.pending a ≠ some (.recv (.failed err)))
    (hok : s.ServerReceives e) (h : step cfg topo s e = some s') (a : Fin m) (err : Errno) :
    s'.servers.pending a ≠ some (.recv (.failed err)) := by
  cases e with
  | client e =>
      rw [(step_client h).2.2]
      exact hreceived a err
  | server e stale =>
      cases Fibers.opStep_of_step hs.servers.1 hs.servers.2
        (hs.servers.1.countPasses ServerRun.plain_program e) (step_server h).2.2.1 with
      | ends i d sqe req timed he _ _ _ _ hpending _ =>
          rw [hpending]
          by_cases ha : a = sqe.addr.fiber
          · rw [ha, Function.update_self]
            rintro heq
            obtain rfl := Option.some.inj heq
            rw [he] at hok
            exact hok
          · rw [Function.update_of_ne ha]
            exact hreceived a err
      | quiet _ hpending _ =>
          rw [hpending]
          exact hreceived a err
      | goesOn b d outcome _ _ _ hpending _ =>
          rw [hpending]
          by_cases ha : a = b
          · rw [ha, Function.update_self]
            exact fun heq => by cases heq
          · rw [Function.update_of_ne ha]
            exact hreceived a err
  | drop packet =>
      obtain ⟨_, rfl⟩ := step_drop h
      exact hreceived a err
  | duplicate packet =>
      obtain ⟨_, rfl⟩ := step_duplicate h
      exact hreceived a err
  | foreign src payload =>
      obtain ⟨_, rfl⟩ := step_foreign h
      exact hreceived a err

theorem step_showsSafe {e : Event A n m} (hs : s.RingsSound cfg) (hinv : ShowsSafe cfg topo s)
    (hregular : s.Regular cfg e) (hok : s.ServerReceives e) (h : step cfg topo s e = some s') :
    ShowsSafe cfg topo s' := by
  obtain ⟨t, hshows, hnet⟩ := hinv.shows
  refine ⟨?_, received_step hs hinv.received hok h⟩
  rcases shows_step hs hshows hregular h with hsame | ⟨d, t', hreflects, hstep, hnext⟩
  · exact ⟨t, hsame, hnet⟩
  · refine ⟨t', hnext, Echo.step_netInv hnet ?_ hstep⟩
    cases d with
    | serverRecvFails a err => exact hinv.received a err hreflects
    | _ => trivial

/-- **Over the rings, a client fiber only ever receives its own message twice**, in every run in
which the receives of the server succeed; "bad response" is not reached. -/
theorem echoSafe_rings {clientRing serverRing : RingSetup} {clock : Fin n → Nat → Int}
    {clientBuf : Fin n → Buffer 65000} {serverBuf : Fin m → Buffer 65000} {es : List (Event A n m)}
    (hregular : Along (step cfg topo) (Regular cfg)
      (init cfg clientRing serverRing clock clientBuf serverBuf) es)
    (hreceives : Along (step cfg topo) ServerReceives
      (init cfg clientRing serverRing clock clientBuf serverBuf) es) :
    Throughout (step cfg topo) (EchoSafe cfg)
      (init cfg clientRing serverRing clock clientBuf serverBuf) es := by
  have hsound := ringsSound_throughout hregular
  have hinit : ShowsSafe cfg topo
      (init cfg clientRing serverRing clock clientBuf serverBuf : EchoRings A n m) :=
    ⟨⟨_, shows_init, netInv_started clock clientBuf serverBuf⟩, fun a err heq => by cases heq⟩
  have hsafe := ((hsound.along.and hregular).and hreceives).throughout hinit
    fun s e s' hinv hok hstep => step_showsSafe hok.1.1 hinv hok.1.2 hok.2 hstep
  exact (hsound.and hsafe).imp fun s hs => echoSafe_of_showsSafe hs.1 hs.2

/-- The reply is in the buffer of the client, which does not know yet. -/
theorem echoSafe_rings_earlyReply : ∃ s,
    run (step hiOnce oneClient) smallInit (earlyReply.take 36) = some s ∧
    s.clients.pending 0 = some (.recv (.datagram 0 [104, 105, 48, 104, 105, 48])) ∧
    EchoSafe hiOnce s := by
  have hpending : (run (step hiOnce oneClient) smallInit (earlyReply.take 36)).map (fun s =>
      s.clients.pending 0) = some (some (.recv (.datagram 0 [104, 105, 48, 104, 105, 48]))) := rfl
  obtain ⟨s, hrun, hs⟩ := Option.map_eq_some_iff.mp hpending
  have hsafe : Throughout (step hiOnce oneClient) (EchoSafe hiOnce) smallInit
      (earlyReply.take 36) := echoSafe_rings (by decide +kernel) (by decide +kernel)
  exact ⟨s, hrun, hs, hsafe.last hrun⟩

end EchoRings

end Hnet
