import Hnet.Holdings
import Hnet.Proof.EchoSafety
import Mathlib.Algebra.Order.Group.Multiset
import Mathlib.Tactic.Abel

/-!
# Which request does a reply answer?

The client has no way to tell: every iteration sends the same message, and a datagram carries
nothing else. What the network and the server do guarantee, as long as nothing is repeated, is that
each request is in one place: on its way, in the hands of a server fiber, on its way back, or
accepted. So a fiber accepts the answer to each of its requests at most once, and never before it
has sent it.
-/

namespace Hnet.Echo

open Lts

variable {A : Type} {n m : Nat} {cfg : ClientConfig} {topo : Topology A n} {s s' : Echo A n m}

def NoDuplicates (_ : Echo A n m) : Event A n m → Prop
  | .duplicate _ => False
  | _ => True

instance (s : Echo A n m) : ∀ e, Decidable (s.NoDuplicates e)
  | .duplicate _ => isFalse id
  | .start _ _ | .send _ | .sendFails _ _ | .recv _ _ _ _ | .recvFails _ _ _ _ | .leave _ _
  | .serverRecv _ _ | .serverRecvFails _ _ | .serverSend _ _ | .serverSendFails _ _ | .drop _
  | .foreign _ _ => isTrue trivial

/-- Every iteration that pushed a timing accepted the answer to its own request. -/
def CreditsOwn (s : Echo A n m) : Prop :=
  ∀ c ∈ s.credited, c.request = some (c.fiber, c.iteration)

/-- Every iteration that pushed a timing accepted the answer to a request that its fiber sent in
that iteration or before it, no answer was accepted twice, and the request is that of the iteration
itself unless an earlier one has been counted as dead. -/
structure CreditsOnce (s : Echo A n m) : Prop where
  own : ∀ c ∈ s.credited, ∃ j ≤ c.iteration, c.request = some (c.fiber, j)
  once : (s.credited.map Credit.request).Nodup
  punctual : ∀ c ∈ s.credited, (∀ k < c.iteration, (c.fiber, k) ∉ s.dead) →
    c.request = some (c.fiber, c.iteration)

/-! ### Where the requests are -/

/-- The requests the server fibers are about to answer. -/
def held (serving : Fin m → Option (RequestId n)) : Multiset (RequestId n) :=
  ∑ a, ((serving a).toList : Multiset (RequestId n))

/-- Every request that is in flight, in the hands of the server, answered and in flight, or
accepted. -/
def tokens (s : Echo A n m) : Multiset (RequestId n) :=
  (s.network.filterMap Datagram.request : List (RequestId n)) + held s.serving
    + (s.credited.filterMap Credit.request : List (RequestId n))

theorem held_update (serving : Fin m → Option (RequestId n)) (a : Fin m)
    (request : Option (RequestId n)) :
    ((serving a).toList : Multiset (RequestId n)) + held (Function.update serving a request)
      = (request.toList : Multiset (RequestId n)) + held serving := by
  obtain ⟨others, hbefore, hafter⟩ :=
    Holdings.exchange (fun o : Option (RequestId n) => (o.toList : Multiset (RequestId n))) serving
      (Finset.mem_univ a) request
  have hserving : held serving = ((serving a).toList : Multiset (RequestId n)) + others := hbefore
  have hupdated : held (Function.update serving a request)
      = (request.toList : Multiset (RequestId n)) + others := hafter
  rw [hserving, hupdated]
  exact add_left_comm _ _ _

theorem filterMap_eraseIdx {l : List (Datagram A n)} {k : Nat} {d : Datagram A n}
    (h : l[k]? = some d) :
    ((l.filterMap Datagram.request : List (RequestId n)) : Multiset (RequestId n))
      = (d.request.toList : Multiset (RequestId n))
        + ((l.eraseIdx k).filterMap Datagram.request : List (RequestId n)) := by
  obtain ⟨hlt, rfl⟩ := List.getElem?_eq_some_iff.mp h
  have hperm := (List.getElem_cons_eraseIdx_perm hlt).filterMap Datagram.request
  rw [← Multiset.coe_eq_coe.mpr hperm, Multiset.coe_add, List.filterMap_cons]
  cases l[k].request <;> rfl

theorem tokens_append {d : Datagram A n} (hnetwork : s'.network = s.network ++ [d])
    (hserving : s'.serving = s.serving) (hcredited : s'.credited = s.credited) :
    s'.tokens = (d.request.toList : Multiset (RequestId n)) + s.tokens := by
  have hone : [d].filterMap Datagram.request = d.request.toList := by
    cases hd : d.request <;> simp [hd]
  unfold tokens
  rw [hnetwork, hserving, hcredited, List.filterMap_append, hone, ← Multiset.coe_add]
  abel

theorem tokens_erase {k : Nat} {d : Datagram A n} (hd : s.network[k]? = some d)
    (hnetwork : s'.network = s.network.eraseIdx k) (hserving : s'.serving = s.serving)
    (hcredited : s'.credited = s.credited) :
    s.tokens = (d.request.toList : Multiset (RequestId n)) + s'.tokens := by
  unfold tokens
  rw [hnetwork, hserving, hcredited, filterMap_eraseIdx hd]
  abel

theorem tokens_serving {a : Fin m} {request : Option (RequestId n)}
    (hnetwork : s'.network = s.network)
    (hserving : s'.serving = Function.update s.serving a request)
    (hcredited : s'.credited = s.credited) :
    ((s.serving a).toList : Multiset (RequestId n)) + s'.tokens
      = (request.toList : Multiset (RequestId n)) + s.tokens := by
  unfold tokens
  rw [hnetwork, hserving, hcredited]
  calc
    _ = ((s.serving a).toList : Multiset (RequestId n))
          + held (Function.update s.serving a request)
          + ((s.network.filterMap Datagram.request : List (RequestId n))
            + (s.credited.filterMap Credit.request : List (RequestId n))) := by abel
    _ = (request.toList : Multiset (RequestId n)) + held s.serving
          + ((s.network.filterMap Datagram.request : List (RequestId n))
            + (s.credited.filterMap Credit.request : List (RequestId n))) := by rw [held_update]
    _ = _ := by abel

theorem tokens_of_send {d : Datagram A n} {q : RequestId n}
    (hnetwork : s'.network = s.network ++ [d]) (hd : d.request = some q)
    (hserving : s'.serving = s.serving) (hcredited : s'.credited = s.credited) :
    s'.tokens = q ::ₘ s.tokens := by
  rw [tokens_append hnetwork hserving hcredited, hd]
  exact Multiset.singleton_add q s.tokens

theorem tokens_le_of_erase {k : Nat} {d : Datagram A n} (hd : s.network[k]? = some d)
    (hnetwork : s'.network = s.network.eraseIdx k) (hserving : s'.serving = s.serving)
    (hcredited : s'.credited = s.credited) : s'.tokens ≤ s.tokens := by
  rw [tokens_erase hd hnetwork hserving hcredited]
  exact Multiset.le_add_left _ _

theorem tokens_le_of_serverRecv {k : Nat} {d : Datagram A n} {a : Fin m}
    (hd : s.network[k]? = some d) (hnetwork : s'.network = s.network.eraseIdx k)
    (hserving : s'.serving = Function.update s.serving a d.request)
    (hcredited : s'.credited = s.credited) : s'.tokens ≤ s.tokens := by
  have hfree := tokens_serving (s := { s with network := s.network.eraseIdx k }) hnetwork hserving
    hcredited
  have herase : s.tokens = (d.request.toList : Multiset (RequestId n))
      + tokens { s with network := s.network.eraseIdx k } := tokens_erase hd rfl rfl rfl
  rw [herase, ← hfree]
  exact Multiset.le_add_left _ _

theorem tokens_le_of_serverSend {d : Datagram A n} {a : Fin m} (hd : d.request = s.serving a)
    (hnetwork : s'.network = s.network ++ [d])
    (hserving : s'.serving = Function.update s.serving a none)
    (hcredited : s'.credited = s.credited) : s'.tokens ≤ s.tokens := by
  have hfree := tokens_serving (s := { s with network := s.network ++ [d] }) hnetwork hserving
    hcredited
  have hnew : tokens { s with network := s.network ++ [d] }
      = ((s.serving a).toList : Multiset (RequestId n)) + s.tokens :=
    hd ▸ tokens_append rfl rfl rfl
  rw [hnew] at hfree
  exact (add_left_cancel (hfree.trans (zero_add _))).le

theorem tokens_le_of_foreign {d : Datagram A n} (hd : d.request = none)
    (hnetwork : s'.network = s.network ++ [d]) (hserving : s'.serving = s.serving)
    (hcredited : s'.credited = s.credited) : s'.tokens ≤ s.tokens := by
  rw [tokens_append hnetwork hserving hcredited, hd]
  exact (zero_add _).le

theorem tokens_le_of_serverFails {a : Fin m} (hnetwork : s'.network = s.network)
    (hserving : s'.serving = Function.update s.serving a none)
    (hcredited : s'.credited = s.credited) : s'.tokens ≤ s.tokens := by
  have hfree := tokens_serving hnetwork hserving hcredited
  exact (Multiset.le_add_left _ _).trans (hfree.trans (zero_add _)).le

/-! ### The invariant -/

def SentBy (c : Client) (j : Nat) : Prop :=
  j < c.i ∨ (j = c.i ∧ c.pc ≠ .sending ∧ c.pc ≠ .spawned)

/-- A datagram from a client carries one of its requests, and one to a client answers one of its
requests, unless it is empty. -/
def Addressed (topo : Topology A n) (d : Datagram A n) : Prop :=
  ∀ thr, (d.src = topo.client thr → ∃ j, d.request = some (thr, j)) ∧
    (d.dst = topo.client thr → (∃ j, d.request = some (thr, j)) ∨ d.payload = [])

/-- So does the reply a server fiber is about to send. -/
def AddressedReply (topo : Topology A n) (bytes : Bytes) (addr : Addr A)
    (request : Option (RequestId n)) : Prop :=
  bytes = [] ∨ ∃ dst, addr.sockaddr = some dst ∧
    ∀ thr, dst = topo.client thr → ∃ j, request = some (thr, j)

structure MatchInv (topo : Topology A n) (s : Echo A n m) : Prop where
  network : ∀ d ∈ s.network, Addressed topo d
  outgoing : ∀ a bytes addr, (s.servers a).outgoing = some (bytes, addr) →
    AddressedReply topo bytes addr (s.serving a)
  nodup : s.tokens.Nodup
  sent : ∀ q ∈ s.tokens, SentBy (s.clients q.1) q.2
  own : ∀ c ∈ s.credited, ∃ j ≤ c.iteration, c.request = some (c.fiber, j)
  past : ∀ c ∈ s.credited, c.iteration < (s.clients c.fiber).i
  ended : ∀ thr k, k < (s.clients thr).i →
    (thr, k) ∈ s.dead ∨ ∃ c ∈ s.credited, c.fiber = thr ∧ c.iteration = k
  spawned : ∀ thr, (s.clients thr).pc = .spawned → (s.clients thr).i = 0

theorem matchInv_init (clientBuf : Fin n → Buffer 65000) (serverBuf : Fin m → Buffer 65000) :
    MatchInv topo (init clientBuf serverBuf : Echo A n m) where
  network d hd := by cases hd
  outgoing a bytes addr hout := by cases hout
  nodup := by simp [tokens, held, init]
  sent q hq := by simp [tokens, held, init] at hq
  own c hc := by cases hc
  past c hc := by cases hc
  ended thr k hk := by cases hk
  spawned thr _ := rfl

structure Continues (c c' : Client) : Prop where
  i : c'.i = c.i
  sent : ∀ j, SentBy c j → SentBy c' j
  spawned : c'.pc = .spawned → c.pc = .spawned

theorem Continues.refl (c : Client) : Continues c c := ⟨rfl, fun _ h => h, id⟩

theorem Continues.update {thr : Fin n} {c : Client} (h : Continues (s.clients thr) c) (g : Fin n) :
    Continues (s.clients g) (Function.update s.clients thr c g) := by
  by_cases hg : g = thr
  · rw [hg, Function.update_self]
    exact h
  · rw [Function.update_of_ne hg]
    exact Continues.refl _

theorem continues_started {c : Client} (hpc : c.pc = .spawned) (hi : c.i = 0) (now : Int) :
    Continues c (c.started cfg now) where
  i := hi.symm
  sent j hj := by
    rcases hj with hlt | ⟨_, _, hnot⟩
    · omega
    · exact absurd hpc hnot
  spawned _ := hpc

theorem continues_sendReturned {c : Client} (hpc : c.pc = .sending) (res : Int) :
    Continues c (c.sendReturned res) where
  i := c.sendReturned_i res
  sent j hj := by
    rcases hj with hlt | ⟨_, hnot, _⟩
    · rw [← c.sendReturned_i res] at hlt
      exact Or.inl hlt
    · exact absurd hpc hnot
  spawned h := by
    rcases c.sendReturned_pc res with hsent | hsent <;> cases hsent.symm.trans h

theorem sentBy_sendReturned (c : Client) (res : Int) : SentBy (c.sendReturned res) c.i := by
  refine Or.inr ⟨(c.sendReturned_i res).symm, ?_⟩
  rcases c.sendReturned_pc res with hsent | hsent
  · exact hsent ▸ ⟨fun heq => (by cases heq), fun heq => by cases heq⟩
  · exact hsent ▸ ⟨fun heq => (by cases heq), fun heq => by cases heq⟩

theorem continues_leave {c : Client} (stats : Stats) (elapsed : Int) :
    Continues c (c.leave stats elapsed).1 where
  i := rfl
  sent j hj := hj.imp_right fun h => ⟨h.1, fun heq => (by cases heq), fun heq => by cases heq⟩
  spawned h := by cases h

theorem continues_stopped {c : Client} {buf : Buffer 65000} {pc : ClientPc}
    (hpc : pc = .threw ∨ pc = .panicked) : Continues c { c with buf := buf, pc := pc } where
  i := rfl
  sent j hj := by
    refine hj.imp_right fun h => ⟨h.1, ?_⟩
    rcases hpc with rfl | rfl
    · exact ⟨fun heq => (by cases heq), fun heq => by cases heq⟩
    · exact ⟨fun heq => (by cases heq), fun heq => by cases heq⟩
  spawned h := by
    change pc = .spawned at h
    rcases hpc with rfl | rfl
    · cases h
    · cases h

theorem matchInv_of_continues (hinv : MatchInv topo s)
    (hnetwork : ∀ d ∈ s'.network, d ∈ s.network ∨ Addressed topo d)
    (houtgoing : ∀ a bytes addr, (s'.servers a).outgoing = some (bytes, addr) →
      AddressedReply topo bytes addr (s'.serving a))
    (hnodup : s'.tokens.Nodup)
    (hsent : ∀ q ∈ s'.tokens, q ∈ s.tokens ∨ SentBy (s'.clients q.1) q.2)
    (hclients : ∀ thr, Continues (s.clients thr) (s'.clients thr))
    (hcredited : s'.credited = s.credited) (hdead : s'.dead = s.dead) : MatchInv topo s' where
  network d hd := (hnetwork d hd).elim (hinv.network d) id
  outgoing := houtgoing
  nodup := hnodup
  sent q hq := (hsent q hq).elim (fun h => (hclients q.1).sent q.2 (hinv.sent q h)) id
  own := hcredited ▸ hinv.own
  past c hc := by
    rw [(hclients c.fiber).i]
    exact hinv.past c (hcredited ▸ hc)
  ended thr k hk := by
    rw [(hclients thr).i] at hk
    rw [hcredited, hdead]
    exact hinv.ended thr k hk
  spawned thr hpc := by
    rw [(hclients thr).i]
    exact hinv.spawned thr ((hclients thr).spawned hpc)

theorem SentBy.le {c : Client} {j : Nat} (h : SentBy c j) : j ≤ c.i :=
  h.elim Nat.le_of_lt fun h => h.1.le

/-- A step in which no request is sent and no iteration ends. -/
theorem matchInv_of_le (hinv : MatchInv topo s)
    (hnetwork : ∀ d ∈ s'.network, d ∈ s.network ∨ Addressed topo d)
    (houtgoing : ∀ a bytes addr, (s'.servers a).outgoing = some (bytes, addr) →
      AddressedReply topo bytes addr (s'.serving a))
    (hle : s'.tokens ≤ s.tokens)
    (hclients : ∀ thr, Continues (s.clients thr) (s'.clients thr))
    (hcredited : s'.credited = s.credited) (hdead : s'.dead = s.dead) : MatchInv topo s' :=
  matchInv_of_continues hinv hnetwork houtgoing (Multiset.nodup_of_le hle hinv.nodup)
    (fun _ hq => Or.inl (Multiset.mem_of_le hle hq)) hclients hcredited hdead

theorem SentBy.next {c c' : Client} {j : Nat} (h : SentBy c j) (hi : c'.i = c.i + 1) :
    SentBy c' j := by
  left
  rcases h with hlt | ⟨heq, _⟩ <;> omega

/-- A step in which an iteration ends, dead or with an answer. -/
theorem matchInv_of_next {thr : Fin n} {c : Client} (hinv : MatchInv topo s)
    (hi : c.i = (s.clients thr).i + 1) (hspawned : c.pc ≠ .spawned)
    (hnetwork : s'.network = s.network) (hservers : s'.servers = s.servers)
    (hserving : s'.serving = s.serving) (hclients : s'.clients = Function.update s.clients thr c)
    (hnodup : s'.tokens.Nodup)
    (hsent : ∀ q ∈ s'.tokens, q ∈ s.tokens ∨ SentBy (s.clients q.1) q.2)
    (hcredited : ∀ x ∈ s'.credited, x ∈ s.credited ∨
      x.fiber = thr ∧ x.iteration = (s.clients thr).i ∧
        ∃ j ≤ x.iteration, x.request = some (thr, j))
    (hkeep : s.dead ⊆ s'.dead ∧ s.credited ⊆ s'.credited)
    (hended : (thr, (s.clients thr).i) ∈ s'.dead ∨
      ∃ x ∈ s'.credited, x.fiber = thr ∧ x.iteration = (s.clients thr).i) : MatchInv topo s' where
  network := hnetwork ▸ hinv.network
  outgoing := hservers ▸ hserving ▸ hinv.outgoing
  nodup := hnodup
  sent q hq := by
    have hold := (hsent q hq).elim (hinv.sent q) id
    rw [hclients]
    by_cases hg : q.1 = thr
    · rw [hg] at hold ⊢
      rw [Function.update_self]
      exact hold.next hi
    · rwa [Function.update_of_ne hg]
  own x hx := by
    rcases hcredited x hx with hx | ⟨hfiber, _, hown⟩
    · exact hinv.own x hx
    · rwa [hfiber]
  past x hx := by
    have hlt : x.iteration < if x.fiber = thr then c.i else (s.clients x.fiber).i := by
      rcases hcredited x hx with hx | ⟨hfiber, hiteration, _⟩
      · have := hinv.past x hx
        split
        · rename_i hg
          rw [hg] at this
          omega
        · exact this
      · rw [if_pos hfiber]
        omega
    rw [hclients, Function.update_apply]
    split
    · rename_i hg
      rwa [if_pos hg] at hlt
    · rename_i hg
      rwa [if_neg hg] at hlt
  ended g k hk := by
    have hold : k < (s.clients g).i → (g, k) ∈ s'.dead ∨
        ∃ x ∈ s'.credited, x.fiber = g ∧ x.iteration = k := fun hlt =>
      (hinv.ended g k hlt).imp (fun h => hkeep.1 h) fun ⟨x, hx, h⟩ => ⟨x, hkeep.2 hx, h⟩
    rw [hclients] at hk
    by_cases hg : g = thr
    · rw [hg, Function.update_self, hi] at hk
      rcases Nat.lt_succ_iff_lt_or_eq.mp hk with hlt | rfl
      · exact hold (hg ▸ hlt)
      · exact hg ▸ hended
    · rw [Function.update_of_ne hg] at hk
      exact hold hk
  spawned g hpc := by
    rw [hclients] at hpc ⊢
    by_cases hg : g = thr
    · rw [hg, Function.update_self] at hpc
      exact absurd hpc hspawned
    · rw [Function.update_of_ne hg] at hpc ⊢
      exact hinv.spawned g hpc

theorem matchInv_dead {thr : Fin n} {c : Client} (hinv : MatchInv topo s)
    (hi : c.i = (s.clients thr).i + 1) (hspawned : c.pc ≠ .spawned) (stats : Stats) :
    MatchInv topo { s with
      clients := Function.update s.clients thr c
      stats := stats
      dead := s.dead ++ [(thr, (s.clients thr).i)] } :=
  matchInv_of_next hinv hi hspawned rfl rfl rfl rfl hinv.nodup (fun _ hq => Or.inl hq)
    (fun _ hx => Or.inl hx) ⟨List.subset_append_left _ _, List.Subset.refl _⟩
    (Or.inl (List.mem_append_right _ (List.mem_singleton_self _)))

/-- An iteration ends with the answer to the request of iteration `j`. -/
theorem matchInv_reply {thr : Fin n} {c : Client} {j : Nat} (hinv : MatchInv topo s)
    (hi : c.i = (s.clients thr).i + 1) (hspawned : c.pc ≠ .spawned) (stats : Stats)
    (hj : SentBy (s.clients thr) j) (hnew : (thr, j) ∉ s.tokens) :
    MatchInv topo { s with
      clients := Function.update s.clients thr c
      stats := stats
      credited := s.credited ++ [⟨thr, (s.clients thr).i, some (thr, j)⟩] } := by
  have htokens : tokens { s with
      clients := Function.update s.clients thr c
      stats := stats
      credited := s.credited ++ [⟨thr, (s.clients thr).i, some (thr, j)⟩] }
        = (thr, j) ::ₘ s.tokens := by
    simp only [tokens, List.filterMap_append, ← Multiset.coe_add, ← add_assoc]
    exact (add_comm _ _).trans (Multiset.singleton_add _ _)
  refine matchInv_of_next hinv hi hspawned rfl rfl rfl rfl ?_ (fun q hq => ?_) (fun x hx => ?_)
    ⟨List.Subset.refl _, List.subset_append_left _ _⟩
    (Or.inr ⟨_, List.mem_append_right _ (List.mem_singleton_self _), rfl, rfl⟩)
  · rw [htokens]
    exact Multiset.nodup_cons.mpr ⟨hnew, hinv.nodup⟩
  · rw [htokens] at hq
    rcases Multiset.mem_cons.mp hq with rfl | hq
    · exact Or.inr hj
    · exact Or.inl hq
  · rcases List.mem_append.mp hx with hx | hx
    · exact Or.inl hx
    · obtain rfl := List.mem_singleton.mp hx
      exact Or.inr ⟨rfl, rfl, j, hj.le, rfl⟩

theorem matchInv_recvDone {thr : Fin n} {done : RecvDone A} {request : Option (RequestId n)}
    {timeout now : Int} (hinv : MatchInv topo s)
    (hrequest : done.payload 65000 ≠ [] →
      ∃ j, request = some (thr, j) ∧ SentBy (s.clients thr) j ∧ (thr, j) ∉ s.tokens) :
    MatchInv topo (recvDone cfg s thr done request timeout now) := by
  have hnext : ∀ c : Client, (c.loopHead cfg).pc ≠ .spawned := by
    intro c hpc
    rcases c.loopHead_pc cfg with hhead | hhead
    · cases hhead.symm.trans hpc
    · cases hhead.symm.trans hpc
  cases hverdict : Client.judge cfg thr (done.fill (s.clients thr).buf)
      (recvmsgDur (MemView.of 65000) done.addr (timedOutcome (done.res 65000) timeout)) with
  | threw =>
      simp only [recvDone, hverdict]
      exact matchInv_of_le hinv (fun _ hd => Or.inl hd) hinv.outgoing le_rfl
        (continues_stopped (Or.inl rfl)).update rfl rfl
  | panicked =>
      simp only [recvDone, hverdict]
      exact matchInv_of_le hinv (fun _ hd => Or.inl hd) hinv.outgoing le_rfl
        (continues_stopped (Or.inr rfl)).update rfl rfl
  | dead =>
      simp only [recvDone, hverdict]
      exact matchInv_dead hinv rfl (hnext _) _
  | reply =>
      have hpayload := (Client.judge_compares hverdict).1 rfl
      obtain ⟨j, rfl, hj, hnew⟩ := hrequest (hpayload ▸ cfg.dataExpected_ne_nil thr)
      simp only [recvDone, hverdict]
      exact matchInv_reply hinv rfl (hnext _) _ hj hnew

/-- The answer to a datagram goes to where that came from. -/
theorem addressedReply_recvReturned {server : Server A} {d : Datagram A n} {bytes : Bytes}
    {addr : Addr A} (hd : Addressed topo d)
    (hout : (server.recvReturned (.datagram d.src d.payload)).outgoing = some (bytes, addr)) :
    AddressedReply topo bytes addr d.request := by
  by_cases hlen : ((RecvDone.datagram d.src d.payload).payload 65000).length * 2 < 65000
  · rw [(Server.recvReturned_of_fits hlen).1] at hout
    obtain ⟨rfl, rfl⟩ := Prod.mk.inj (Option.some.inj hout)
    exact Or.inr ⟨d.src, rfl, fun thr hthr => (hd thr).1 hthr⟩
  · rw [(Server.recvReturned_of_not_fits hlen).1] at hout
    cases hout

theorem addressedReply_failed {server : Server A} {err : Errno} {bytes : Bytes} {addr : Addr A}
    {request : Option (RequestId n)}
    (hout : (server.recvReturned (.failed err)).outgoing = some (bytes, addr)) :
    AddressedReply topo bytes addr request := by
  have hlen : ((RecvDone.failed err : RecvDone A).payload 65000).length * 2 < 65000 := by
    rw [RecvDone.payload]
    decide
  rw [(Server.recvReturned_of_fits hlen).1] at hout
  obtain ⟨rfl, rfl⟩ := Prod.mk.inj (Option.some.inj hout)
  exact Or.inl rfl

theorem outgoing_update {a : Fin m} {server : Server A} {request : Option (RequestId n)}
    (hinv : MatchInv topo s)
    (hserver : ∀ bytes addr, server.outgoing = some (bytes, addr) →
      AddressedReply topo bytes addr request) (b : Fin m) (bytes : Bytes) (addr : Addr A)
    (hout : (Function.update s.servers a server b).outgoing = some (bytes, addr)) :
    AddressedReply topo bytes addr (Function.update s.serving a request b) := by
  by_cases hb : b = a
  · rw [hb, Function.update_self] at hout ⊢
    exact hserver bytes addr hout
  · rw [Function.update_of_ne hb] at hout ⊢
    exact hinv.outgoing b bytes addr hout

/-- In the first iteration and after iterations with answers only, the answer is that to the
request of the iteration itself. -/
theorem MatchInv.punctual (hinv : MatchInv topo s) (honce : (s.credited.map Credit.request).Nodup)
    {c : Credit n} (hc : c ∈ s.credited) (hdead : ∀ k < c.iteration, (c.fiber, k) ∉ s.dead) :
    c.request = some (c.fiber, c.iteration) := by
  induction hi : c.iteration using Nat.strong_induction_on generalizing c with
  | _ i ih =>
      obtain ⟨j, hj, hrequest⟩ := hinv.own c hc
      rcases hj.eq_or_lt with rfl | hlt
      · rw [hrequest, hi]
      -- the request of an earlier iteration has been answered in that iteration
      rcases hinv.ended c.fiber j (hlt.trans (hinv.past c hc)) with hmem | ⟨x, hx, hfiber, rfl⟩
      · exact absurd hmem (hdead j hlt)
      · have hsame : x.request = c.request := by
          rw [ih x.iteration (hi ▸ hlt) hx (fun k hk => hfiber ▸ hdead k (hk.trans hlt)) rfl,
            hrequest, hfiber]
        obtain rfl := List.inj_on_of_nodup_map honce hx hc hsame
        exact absurd hlt (lt_irrefl _)

theorem MatchInv.creditsOnce (hinv : MatchInv topo s) : CreditsOnce s := by
  have honce : (s.credited.map Credit.request).Nodup := by
    have hsome : s.credited.map Credit.request
        = (s.credited.filterMap Credit.request).map some := by
      rw [List.map_filterMap_some_eq_filter_map_isSome, List.filter_eq_self.mpr]
      intro request hrequest
      obtain ⟨c, hc, rfl⟩ := List.mem_map.mp hrequest
      obtain ⟨j, _, hj⟩ := hinv.own c hc
      rw [hj]
      rfl
    have hcredited := Multiset.nodup_of_le (Multiset.le_add_left _ _) hinv.nodup
    rw [hsome]
    exact (Multiset.coe_nodup.mp hcredited).map (Option.some_injective _)
  exact ⟨hinv.own, honce, fun c hc hdead => hinv.punctual honce hc hdead⟩

variable [DecidableEq A]

theorem step_matchInv {e : Event A n m} (hinv : MatchInv topo s) (hok : s.NoDuplicates e)
    (h : step cfg topo s e = some s') : MatchInv topo s' := by
  have hsame : ∀ d ∈ s.network, d ∈ s.network ∨ Addressed topo d := fun d hd => Or.inl hd
  have herase : ∀ k, ∀ d ∈ s.network.eraseIdx k, d ∈ s.network ∨ Addressed topo d :=
    fun k d hd => Or.inl (List.mem_of_mem_eraseIdx hd)
  have hnew : ∀ x, Addressed topo x →
      ∀ d ∈ s.network ++ [x], d ∈ s.network ∨ Addressed topo d := by
    intro x hx d hd
    rcases List.mem_append.mp hd with hd | hd
    · exact Or.inl hd
    · exact Or.inr (List.mem_singleton.mp hd ▸ hx)
  cases e with
  | start thr now =>
      obtain ⟨hpc, rfl⟩ := step_start h
      exact matchInv_of_le hinv hsame hinv.outgoing le_rfl
        (continues_started hpc (hinv.spawned thr hpc) now).update rfl rfl
  | send thr =>
      obtain ⟨hpc, rfl⟩ := step_send h
      have hsent : ∀ j, SentBy (s.clients thr) j → j < (s.clients thr).i :=
        fun j hj => hj.elim id fun hj => absurd hpc hj.2.1
      have htokens : tokens { s with
          clients := Function.update s.clients thr
            ((s.clients thr).sendReturned (cfg.data thr).length)
          network := s.network ++
            [⟨topo.client thr, topo.server, cfg.data thr, some (thr, (s.clients thr).i)⟩] }
          = (thr, (s.clients thr).i) ::ₘ s.tokens := tokens_of_send rfl rfl rfl rfl
      refine matchInv_of_continues hinv (hnew _ fun g => ⟨fun hsrc => ?_, fun hdst => ?_⟩)
        hinv.outgoing ?_ (fun q hq => ?_) (continues_sendReturned hpc _).update rfl rfl
      · rw [topo.client_injective hsrc]
        exact ⟨_, rfl⟩
      · exact absurd hdst.symm (topo.client_ne_server g)
      · rw [htokens]
        refine Multiset.nodup_cons.mpr ⟨fun hmem => ?_, hinv.nodup⟩
        exact absurd (hsent _ (hinv.sent _ hmem)) (lt_irrefl _)
      · rw [htokens] at hq
        rcases Multiset.mem_cons.mp hq with rfl | hq
        · right
          change SentBy (Function.update s.clients thr _ thr) _
          rw [Function.update_self]
          exact sentBy_sendReturned _ _
        · exact Or.inl hq
  | sendFails thr err =>
      obtain ⟨hpc, rfl⟩ := step_sendFails h
      exact matchInv_of_le hinv hsame hinv.outgoing le_rfl (continues_sendReturned hpc _).update
        rfl rfl
  | recv thr k timeout now =>
      obtain ⟨d, hd, hpc, hdst, rfl⟩ := step_recv h
      refine matchInv_recvDone (matchInv_of_le hinv (herase k) hinv.outgoing
        (tokens_le_of_erase hd rfl rfl rfl) (fun g => Continues.refl (s.clients g)) rfl rfl)
        fun hne => ?_
      obtain ⟨j, hj⟩ | hempty := (hinv.network d (List.mem_of_getElem? hd) thr).2 hdst
      · have htokens : s.tokens = (d.request.toList : Multiset (RequestId n)) + tokens { s with
            network := s.network.eraseIdx k
            received := s.received ++ [(thr, d.payload.take 65000)] } :=
          tokens_erase hd rfl rfl rfl
        have hnodup := hinv.nodup
        rw [htokens, hj] at hnodup
        refine ⟨j, hj, hinv.sent (thr, j) ?_, (Multiset.nodup_cons.mp hnodup).1⟩
        rw [htokens, hj]
        exact Multiset.mem_cons_self _ _
      · rw [RecvDone.payload, hempty] at hne
        exact absurd rfl hne
  | recvFails thr err timeout now =>
      obtain ⟨_, rfl⟩ := step_recvFails h
      exact matchInv_recvDone hinv fun hne => absurd rfl hne
  | leave thr elapsed =>
      obtain ⟨_, rfl⟩ := step_leave h
      exact matchInv_of_le hinv hsame hinv.outgoing le_rfl (continues_leave _ _).update rfl rfl
  | serverRecv a k =>
      obtain ⟨d, hd, _, _, rfl⟩ := step_serverRecv h
      exact matchInv_of_le hinv (herase k) (outgoing_update (s := s) hinv fun bytes addr =>
        addressedReply_recvReturned (hinv.network d (List.mem_of_getElem? hd)))
        (tokens_le_of_serverRecv hd rfl rfl rfl) (fun g => Continues.refl (s.clients g)) rfl rfl
  | serverRecvFails a err =>
      obtain ⟨_, rfl⟩ := step_serverRecvFails h
      exact matchInv_of_le hinv hsame (outgoing_update hinv fun bytes addr =>
        addressedReply_failed) (tokens_le_of_serverFails rfl rfl rfl)
        (fun g => Continues.refl (s.clients g)) rfl rfl
  | serverSend a stale =>
      obtain ⟨bytes, addr, hout, rfl⟩ := step_serverSend h
      refine matchInv_of_le hinv (hnew _ fun g => ⟨fun hsrc => ?_, fun hdst => ?_⟩)
        (outgoing_update (s := s) hinv fun bytes' addr' hout' => ?_)
        (tokens_le_of_serverSend rfl rfl rfl rfl) (fun g => Continues.refl (s.clients g)) rfl rfl
      · exact absurd hsrc.symm (topo.client_ne_server g)
      · rcases hinv.outgoing a bytes addr hout with hempty | ⟨dst, haddr, hown⟩
        · exact Or.inr hempty
        · rw [haddr] at hdst
          exact Or.inl (hown g hdst)
      · rw [Server.sendReturned_outgoing] at hout'
        cases hout'
  | serverSendFails a err =>
      obtain rfl := step_serverSendFails h
      refine matchInv_of_le hinv hsame (outgoing_update hinv fun bytes' addr' hout' => ?_)
        (tokens_le_of_serverFails rfl rfl rfl) (fun g => Continues.refl (s.clients g)) rfl rfl
      rw [Server.sendReturned_outgoing] at hout'
      cases hout'
  | drop k =>
      obtain rfl := step_drop h
      refine matchInv_of_le hinv (herase k) hinv.outgoing ?_
        (fun g => Continues.refl (s.clients g)) rfl rfl
      rcases hd : s.network[k]? with _ | d
      · rw [List.eraseIdx_of_length_le (List.getElem?_eq_none_iff.mp hd)]
      · exact tokens_le_of_erase hd rfl rfl rfl
  | duplicate k => exact absurd hok id
  | foreign src payload =>
      obtain ⟨hsrc, rfl⟩ := step_foreign h
      refine matchInv_of_le hinv (hnew _ fun g => ⟨fun heq => ?_, fun hto => ?_⟩) hinv.outgoing
        (tokens_le_of_foreign rfl rfl rfl rfl) (fun g => Continues.refl (s.clients g)) rfl rfl
      · exact absurd heq (hsrc g)
      · exact absurd hto.symm (topo.client_ne_server g)

/-- **Each answer is accepted once, by the fiber that asked, in the iteration of the request or in
a later one** of every run without duplicates; in a later one only once an iteration has been
counted as dead. -/
theorem creditsOnce_throughout (cfg : ClientConfig) (topo : Topology A n)
    (clientBuf : Fin n → Buffer 65000) (serverBuf : Fin m → Buffer 65000)
    (es : List (Event A n m))
    (honce : Along (step cfg topo) NoDuplicates (init clientBuf serverBuf) es) :
    Throughout (step cfg topo) CreditsOnce (init clientBuf serverBuf) es :=
  (honce.throughout (matchInv_init clientBuf serverBuf) fun _ _ _ hinv hok hstep =>
    step_matchInv hinv hok hstep).imp fun _ hinv => hinv.creditsOnce

/-- The answer to the first request of a fiber comes after its receive has been cancelled by its
timeout, and is accepted in its next iteration. -/
def lateReply (thr : Fin n) (a : Fin m) (canceled : Errno) : List (Event Nat n m) :=
  [.start thr 10, .send thr, .recvFails thr canceled (-ETIME) 30, .send thr, .serverRecv a 0,
    .serverSend a 0, .recv thr 1 (-ENOENT) 40]

theorem creditsOnce_lateReply :
    (run (step hiTwice twoClients)
        (init (fun _ => Buffer.zero 65000) fun _ : Fin 1 => Buffer.zero 65000)
        (lateReply 0 0 ⟨125, by decide⟩)).map (fun s => (s.credited, s.dead))
      = some ([⟨0, 1, some (0, 0)⟩], [(0, 0)]) ∧
      Throughout (step hiTwice twoClients) CreditsOnce
        (init (fun _ => Buffer.zero 65000) fun _ : Fin 1 => Buffer.zero 65000)
        (lateReply 0 0 ⟨125, by decide⟩) :=
  ⟨by decide, creditsOnce_throughout hiTwice twoClients _ _ (lateReply 0 0 _) (by decide)⟩

/-- The timing pushed in iteration 1 is that of the request of iteration 0. -/
theorem not_creditsOwn_lateReply :
    Along (step hiTwice twoClients) NoDuplicates
        (init (fun _ => Buffer.zero 65000) fun _ : Fin 1 => Buffer.zero 65000)
        (lateReply 0 0 ⟨125, by decide⟩) ∧
      ¬ Throughout (step hiTwice twoClients) CreditsOwn
        (init (fun _ => Buffer.zero 65000) fun _ : Fin 1 => Buffer.zero 65000)
        (lateReply 0 0 ⟨125, by decide⟩) := by
  refine ⟨by decide, fun h => ?_⟩
  have hcredited : (run (step hiTwice twoClients)
      (init (fun _ => Buffer.zero 65000) fun _ : Fin 1 => Buffer.zero 65000)
      (lateReply 0 0 ⟨125, by decide⟩)).map (fun s => s.credited)
        = some [⟨0, 1, some (0, 0)⟩] := by decide
  obtain ⟨s, hrun, hs⟩ := Option.map_eq_some_iff.mp hcredited
  have hown := h.last hrun ⟨0, 1, some (0, 0)⟩ (hs ▸ List.mem_singleton_self _)
  exact absurd hown (by decide)

end Hnet.Echo
