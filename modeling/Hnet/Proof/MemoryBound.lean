import Hnet.Proof.NoLeak

/-!
# `dispatch_loop` needs the memory of its busiest moment

The pools are never made smaller, and they call their factories only when everything they have made
is in use. So the number of stacks is the largest number of handlers that were in progress at once,
and it bounds the variants and the buffers, too, for nothing leaks.
-/

namespace Hnet

/-! ### Pools that are counted -/

namespace ObjectPoolLite

variable {σ T : Type}

theorem size_put (pool : ObjectPoolLite T) (t : T) : (pool.put t).size = pool.size + 1 :=
  List.length_append

theorem size_get (pool : ObjectPoolLite T) (factory : σ → T × σ) (s : σ) :
    (pool.get factory s).2.1.size = pool.size - 1 := by
  rcases pool.get_cases factory s with ⟨rest, object, hobjects, hget⟩ | ⟨hobjects, hget⟩
  · rw [hget, size, size, hobjects, List.length_append, List.length_singleton,
      Nat.add_sub_cancel]
  · rw [hget, size, hobjects]
    rfl

/-- Everything made is in use or in the pool, so the factory is called when all of it is in use. -/
theorem get_counted {factory : Nat → T × Nat} (hfactory : ∀ n, (factory n).2 = n + 1)
    {pool : ObjectPoolLite T} {used made : Nat} (h : pool.size + used = made) :
    (pool.get factory made).2.1.size + (used + 1) = (pool.get factory made).2.2
      ∧ ((pool.get factory made).2.2 = made ∨ (pool.get factory made).2.2 = used + 1) := by
  have hsize := pool.size_get factory made
  rcases pool.get_cases factory made with ⟨rest, object, hobjects, hget⟩ | ⟨hobjects, hget⟩
  · have hpos : pool.size = rest.length + 1 := by
      rw [size, hobjects, List.length_append, List.length_singleton]
    rw [hget] at hsize ⊢
    dsimp only at hsize ⊢
    omega
  · have hzero : pool.size = 0 := by
      rw [size, hobjects, List.length_nil]
    rw [hget] at hsize ⊢
    dsimp only at hsize ⊢
    rw [hfactory]
    omega

end ObjectPoolLite

namespace Netring

open Lts

variable {A : Type}

/-- It holds a handler that has not finished. -/
def ReqOrHandler.inProgress : ReqOrHandler A → Bool
  | .handler h =>
      match h.pc with
      | .finished => false
      | .ready | .yielded _ => true
  | .monostate | .request _ => false

namespace Executor

variable {s s' : Executor A} {receiver : VarId} {suspended : Multiset (VarId × Nat)}

/-- The number of handlers that the loop has created and that have not finished. -/
def inProgress (s : Executor A) : Nat :=
  ((Finset.range s.nextVariant).filter fun v => (s.variants v).inProgress).card

/-- The loop has made what `N` handlers at once need, and everything allocated has its owner. -/
structure Frugal (N : Nat) (s : Executor A) : Prop where
  owned : s.heap.allocated.val
    = poolBuffers s.requests + variantBuffers s.variants s.nextVariant
  buffers : s.heap.allocated.card ≤ 2 * N + 1
  madeStacks : s.nextStack ≤ N
  madeVariants : s.nextVariant ≤ N + 1

/-! ### Handlers and buffers are counted -/

theorem Owns.inProgress_eq (h : Owns s receiver suspended) :
    s.inProgress = Multiset.card s.pc.starting + Multiset.card suspended := by
  have hrest := (Multiset.nodup_cons.mp h.nodup).2
  rw [← add_assoc] at hrest
  have hnodup := (Multiset.nodup_add.mp hrest).1
  have hmade : ∀ v ∈ s.pc.starting + suspended.map Prod.fst, v < s.nextVariant := by
    intro v hv
    apply h.made
    rw [places, ← add_assoc]
    exact Multiset.mem_cons_of_mem (Multiset.mem_add.mpr (Or.inl hv))
  have hfilter : (Finset.range s.nextVariant).filter (fun v => (s.variants v).inProgress)
      = (s.pc.starting + suspended.map Prod.fst).toFinset := by
    ext v
    rw [Finset.mem_filter, Finset.mem_range, Multiset.mem_toFinset]
    constructor
    · rintro ⟨_, hlive⟩
      cases hvariant : s.variants v with
      | monostate | request _ =>
          rw [hvariant] at hlive
          cases hlive
      | handler handler =>
          have hpc : handler.pc ≠ .finished := by
            rintro hpc
            rw [hvariant, ReqOrHandler.inProgress, hpc] at hlive
            cases hlive
          exact Multiset.mem_add.mpr ((h.unfinished v handler hvariant hpc).imp_right
            (Multiset.mem_map_of_mem Prod.fst))
    · intro hv
      refine ⟨hmade v hv, ?_⟩
      rcases Multiset.mem_add.mp hv with hstarting | hmem
      · obtain ⟨handler, hhandler, _, hready⟩ := h.ready v hstarting
        rw [hhandler, ReqOrHandler.inProgress, hready]
      · obtain ⟨p, hp, rfl⟩ := Multiset.mem_map.mp hmem
        obtain ⟨handler, hhandler, _, _, reply, hreply⟩ := h.yielded p hp
        rw [hhandler, ReqOrHandler.inProgress, hreply]
  calc
    s.inProgress = (s.pc.starting + suspended.map Prod.fst).toFinset.card := by
      rw [inProgress, hfilter]
    _ = Multiset.card (s.pc.starting + suspended.map Prod.fst) :=
      Multiset.toFinset_card_of_nodup hnodup
    _ = Multiset.card s.pc.starting + Multiset.card suspended := by
      rw [Multiset.card_add, Multiset.card_map]

theorem card_poolBuffers {pool : ObjectPoolLite (Request A)}
    (h : ∀ r ∈ pool.objects, r.Owning) : Multiset.card (poolBuffers pool) = pool.size := by
  have hone : ∀ r ∈ (pool.objects : Multiset (Request A)),
      (Multiset.card ∘ Request.buffers) r = 1 := fun r hr => (h r hr).card_buffers
  rw [poolBuffers, Multiset.card_bind, Multiset.map_congr rfl hone, Multiset.map_const',
    Multiset.sum_replicate, smul_eq_mul, mul_one]
  rfl

/-- Each variant has one buffer, and a suspended handler that of its reply. -/
theorem NoLeak.card_buffers (h : NoLeak s) (howns : Owns s receiver suspended) (v : VarId) :
    Multiset.card (s.variants v).buffers
      ≤ 1 + if v ∈ suspended.map Prod.fst then 1 else 0 := by
  have howning := h.owning v
  cases hvariant : s.variants v with
  | monostate => exact Nat.zero_le _
  | request r =>
      rw [hvariant] at howning
      rw [ReqOrHandler.buffers, Request.Owning.card_buffers howning]
      exact Nat.le_add_right _ _
  | handler handler =>
      rw [hvariant] at howning
      rw [ReqOrHandler.buffers, Handler.buffers, Multiset.card_add, howning.1.card_buffers]
      refine Nat.add_le_add_left ?_ 1
      cases hpc : handler.pc with
      | ready | finished => exact Nat.zero_le _
      | yielded reply =>
          have hmem : v ∈ suspended.map Prod.fst := by
            rcases howns.unfinished v handler hvariant (by rw [hpc]; rintro ⟨⟩) with
              hstarting | hmem
            · obtain ⟨other, hother, _, hready⟩ := howns.ready v hstarting
              obtain rfl := ReqOrHandler.handler.inj (hvariant.symm.trans hother)
              cases hpc.symm.trans hready
            · exact Multiset.mem_map_of_mem Prod.fst hmem
          rw [if_pos hmem, HandlerPc.buffers, (howning.2 reply hpc).card_buffers]

theorem NoLeak.card_allocated_le (h : NoLeak s) (howns : Owns s receiver suspended) :
    s.heap.allocated.card ≤ s.requests.size + s.nextVariant + Multiset.card suspended := by
  have hvariants : Multiset.card (variantBuffers s.variants s.nextVariant)
      ≤ s.nextVariant + Multiset.card suspended := by
    calc
      Multiset.card (variantBuffers s.variants s.nextVariant)
          = ∑ v ∈ Finset.range s.nextVariant, Multiset.card (s.variants v).buffers := by
        rw [variantBuffers, Holdings.total, Multiset.card_sum]
      _ ≤ ∑ v ∈ Finset.range s.nextVariant,
          (1 + if v ∈ suspended.map Prod.fst then 1 else 0) :=
        Finset.sum_le_sum fun v _ => h.card_buffers howns v
      _ = s.nextVariant
          + ((Finset.range s.nextVariant).filter (· ∈ suspended.map Prod.fst)).card := by
        rw [Finset.sum_add_distrib, Finset.sum_const, Finset.card_range, smul_eq_mul, mul_one,
          Finset.sum_boole, Nat.cast_id]
      _ ≤ s.nextVariant + (suspended.map Prod.fst).toFinset.card := by
        refine Nat.add_le_add_left (Finset.card_le_card fun v hv => ?_) _
        exact Multiset.mem_toFinset.mpr (Finset.mem_filter.mp hv).2
      _ ≤ s.nextVariant + Multiset.card suspended := by
        refine Nat.add_le_add_left ((Multiset.toFinset_card_le _).trans ?_) _
        rw [Multiset.card_map]
  calc
    s.heap.allocated.card = Multiset.card s.heap.allocated.val := rfl
    _ = s.requests.size + Multiset.card (variantBuffers s.variants s.nextVariant) := by
      rw [h.owned, Multiset.card_add, card_poolBuffers h.pooled]
    _ ≤ s.requests.size + s.nextVariant + Multiset.card suspended := by
      rw [add_assoc]
      exact Nat.add_le_add_left hvariants _

/-! ### What is made and what is in use -/

/-- The stacks and the variants are in the pools or in use. The requests in the pool were the
replies of handlers that are not in progress any more. -/
structure Counted (s : Executor A) (suspended : Multiset (VarId × Nat)) : Prop where
  madeStacks : s.stackPool.size + (Multiset.card s.pc.starting + Multiset.card suspended)
    = s.nextStack
  madeVariants : s.reqOrHandlerPool.size
    + (Multiset.card s.pc.starting + Multiset.card suspended + 1) = s.nextVariant
  pools : s.reqOrHandlerPool.size = s.stackPool.size
  requests : s.requests.size + Multiset.card suspended ≤ s.nextStack

/-- The same, of the numbers of what has been made only. -/
structure Memory (s : Executor A) : Prop where
  inProgress : s.inProgress ≤ s.nextStack
  madeVariants : s.nextStack + 1 = s.nextVariant
  buffers : s.heap.allocated.card ≤ 2 * s.nextStack + 1

theorem Counted.memory (h : Counted s suspended) (hleak : NoLeak s)
    (howns : Owns s receiver suspended) : Memory s := by
  obtain ⟨hstacks, hvariants, hpools, hrequests⟩ := h
  have hle := hleak.card_allocated_le howns
  refine ⟨?_, by omega, by omega⟩
  rw [howns.inProgress_eq]
  omega

theorem counted_init (capacity : Nat) (fits : 8 + capacity < 2 ^ 64) :
    Counted (init capacity fits : Executor A) 0 := ⟨rfl, rfl, rfl, le_rfl⟩

section Steps

variable (h : Counted s suspended)

include h

theorem Counted.startHandler {cqe : Cqe Cookie} {req : Request A}
    (howns : Owns s receiver suspended) (hpc : s.pc = .polling)
    (hcookie : cqe.userData.variant = receiver) (hreq : s.variants receiver = .request req) :
    Counted (s.pollReturned cqe) suspended ∧ ((s.pollReturned cqe).nextStack = s.nextStack
      ∨ (s.pollReturned cqe).nextStack = 1 + Multiset.card suspended) := by
  obtain ⟨hstacks, hvariants, hpools, hrequests⟩ := h
  rw [hpc, Pc.starting_polling, Multiset.card_zero, Nat.zero_add] at hstacks hvariants
  have hnewStack (n : Nat) : (newStack n).2 = n + 1 := rfl
  have hnewVariant (n : VarId) : (newReqOrHandler n).2 = n + 1 := rfl
  obtain ⟨hstack, hmade⟩ := ObjectPoolLite.get_counted hnewStack hstacks
  obtain ⟨hvariant, _⟩ := ObjectPoolLite.get_counted hnewVariant hvariants
  have hgot := s.requests.size_get newRequest
  have hstackSize := s.stackPool.size_get newStack s.nextStack
  have hvariantSize := s.reqOrHandlerPool.size_get newReqOrHandler s.nextVariant
  rw [howns.pollReturned_receive hpc hcookie hreq]
  refine ⟨⟨?_, ?_, ?_, ?_⟩, ?_⟩ <;>
    simp only [Pc.starting_arming_some, Multiset.card_singleton, hgot] <;> omega

theorem Counted.resume {p : VarId × Nat} {rest : Multiset (VarId × Nat)} {cqe : Cqe Cookie}
    {handler : Handler A} {reply : Request A} (hsuspended : suspended = p ::ₘ rest)
    (hpc : s.pc = .polling) (hhandler : s.variants cqe.userData.variant = .handler handler)
    (hreply : handler.pc = .yielded reply) :
    Counted (s.pollReturned cqe) rest ∧ (s.pollReturned cqe).nextStack = s.nextStack := by
  subst hsuspended
  obtain ⟨hstacks, hvariants, hpools, hrequests⟩ := h
  rw [hpc, Pc.starting_polling, Multiset.card_zero, Multiset.card_cons] at hstacks hvariants
  rw [Multiset.card_cons] at hrequests
  simp only [pollReturned, resumeHandler, hhandler, hreply]
  refine ⟨⟨?_, ?_, ?_, ?_⟩, trivial⟩ <;>
    simp only [Pc.starting_polling, Multiset.card_zero, ObjectPoolLite.size_put] <;> omega

theorem Counted.armReceive {pc : Pc} (uring : IoUring Cookie)
    (hstarting : pc.starting = s.pc.starting) :
    Counted { s with uring := uring, pc := pc } suspended where
  madeStacks := hstarting ▸ h.madeStacks
  madeVariants := hstarting ▸ h.madeVariants
  pools := h.pools
  requests := h.requests

theorem Counted.enter {variant : VarId} {handler : Handler A} (hpc : s.pc = .entering variant)
    (hslot : s.uring.HasSlot) :
    Counted (s.enter variant handler) ((variant, handler.number) ::ₘ suspended) := by
  obtain ⟨hstacks, hvariants, hpools, hrequests⟩ := h
  rw [hpc, Pc.starting_entering, Multiset.card_singleton] at hstacks hvariants
  have hgot : (handler.handle s.requests s.heap).2.1.size = s.requests.size - 1 :=
    s.requests.size_get newRequest s.heap
  rw [enter_of_slot hslot]
  refine ⟨?_, ?_, ?_, ?_⟩ <;>
    simp only [Pc.starting_polling, Multiset.card_zero, Multiset.card_cons, hgot] <;> omega

end Steps

/-! ### What the kernel does -/

section Received

variable (uring : IoUring Cookie) (variant : VarId) (done : RecvDone A)

theorem memory_received (h : Memory s) : Memory (s.received uring variant done) := by
  unfold received
  cases hvariant : s.variants variant with
  | monostate => exact ⟨h.inProgress, h.madeVariants, h.buffers⟩
  | handler _ => exact ⟨h.inProgress, h.madeVariants, h.buffers⟩
  | request r =>
      refine ⟨?_, h.madeVariants, ?_⟩
      · have hsame : ∀ v,
            (Function.update s.variants variant (.request (r.received done)) v).inProgress
              = (s.variants v).inProgress := by
          intro v
          by_cases heq : v = variant
          · rw [heq, Function.update_self, hvariant]
            rfl
          · rw [Function.update_of_ne heq]
        simp only [inProgress, hsame]
        exact h.inProgress
      · rw [Heap.allocated_write]
        exact h.buffers

theorem Counted.received (h : Counted s suspended) :
    Counted (s.received uring variant done) suspended := by
  unfold Executor.received
  split
  · exact ⟨h.madeStacks, h.madeVariants, h.pools, h.requests⟩
  · exact ⟨h.madeStacks, h.madeVariants, h.pools, h.requests⟩

@[simp]
theorem nextStack_received : (s.received uring variant done).nextStack = s.nextStack := by
  unfold received
  split <;> rfl

end Received

/-! ### Runs -/

structure Tight (s : Executor A) : Prop where
  slots : Slots s 0
  noLeak : NoLeak s
  memory : Memory s
  counted : s.pc ≠ .threw → ∃ suspended, Owns s 0 suspended ∧ Counted s suspended

theorem tight_init (capacity : Nat) (fits : 8 + capacity < 2 ^ 64) :
    Tight (init capacity fits : Executor A) where
  slots := slots_init capacity fits
  noLeak := noLeak_init capacity fits
  memory := (counted_init capacity fits).memory (noLeak_init capacity fits)
    (owns_init capacity fits)
  counted _ := ⟨0, owns_init capacity fits, counted_init capacity fits⟩

theorem Tight.of_counted (hslots : Slots s 0) (hleak : NoLeak s) (howns : Owns s 0 suspended)
    (hcounted : Counted s suspended) : Tight s :=
  ⟨hslots, hleak, hcounted.memory hleak howns, fun _ => ⟨suspended, howns, hcounted⟩⟩

/-- A stack is made only for the handler that is one more than there ever were. -/
theorem step_tight {e : Event A} (h : Tight s) (hstep : s.step e = some s') :
    Tight s' ∧ (s'.nextStack = s.nextStack ∨ s'.nextStack = s'.inProgress) := by
  have hslots := step_slots h.slots hstep
  rcases step_cases hstep with ⟨_, uring, hkernel, rfl⟩ | ⟨_, uring, variant, done, hkernel, rfl⟩ |
    ⟨_, hpc, cqe, hpeek, rfl⟩ | ⟨_, rfl⟩ | ⟨variant, handler, hpc, rfl⟩ |
    ⟨_, variant, handler, hpc, hhandler, rfl⟩
  · refine ⟨⟨hslots, h.noLeak.frame uring s.pc,
      ⟨h.memory.inProgress, h.memory.madeVariants, h.memory.buffers⟩, fun hpc => ?_⟩, Or.inl rfl⟩
    obtain ⟨suspended, howns, hcounted⟩ := h.counted hpc
    exact ⟨suspended, howns.kernel hkernel, hcounted.madeStacks, hcounted.madeVariants,
      hcounted.pools, hcounted.requests⟩
  · refine ⟨⟨hslots, h.noLeak.received uring variant done,
      memory_received uring variant done h.memory, fun hpc => ?_⟩,
      Or.inl (nextStack_received uring variant done)⟩
    rw [pc_received] at hpc
    obtain ⟨suspended, howns, hcounted⟩ := h.counted hpc
    exact ⟨suspended, howns.received variant done hkernel, hcounted.received uring variant done⟩
  · obtain ⟨suspended, howns, hcounted⟩ := h.counted (by rw [hpc]; rintro ⟨⟩)
    rcases howns.polled hpc hpeek with ⟨hcookie, req, hreq⟩ |
      ⟨p, hp, hcookie, handler, reply, hhandler, _, hreply⟩
    · have hvariant : cqe.userData.variant = 0 := by rw [hcookie]
      rw [hvariant] at hreq
      obtain ⟨hnext, hmade⟩ := hcounted.startHandler howns hpc hvariant hreq
      have hstarted := howns.startHandler hpc hpeek hcookie hreq
      refine ⟨.of_counted hslots (h.noLeak.startHandler howns hpc hvariant hreq) hstarted hnext,
        hmade.imp_right fun hmade => ?_⟩
      rw [hmade, hstarted.inProgress_eq, howns.pollReturned_receive hpc hvariant hreq]
      rfl
    · obtain ⟨rest, hrest⟩ := Multiset.exists_cons_of_mem hp
      obtain ⟨hnext, hsame⟩ := hcounted.resume hrest hpc hhandler hreply
      exact ⟨.of_counted hslots (h.noLeak.resume hhandler hreply)
        (howns.resume hrest hpc hpeek hcookie) hnext, Or.inl hsame⟩
  · exact ⟨⟨hslots, h.noLeak.frame s.uring .threw,
      ⟨h.memory.inProgress, h.memory.madeVariants, h.memory.buffers⟩, fun hpc => absurd rfl hpc⟩,
      Or.inl rfl⟩
  · obtain ⟨suspended, howns, hcounted⟩ := h.counted (by rw [hpc]; rintro ⟨⟩)
    have hslot := h.slots.hasSlot_arming hpc
    have hout : (s.uring.queue (cookieSqe .recvmsg ⟨variant, .recv⟩) hslot).outstanding
        = ⟨variant, .recv⟩ ::ₘ s.uring.outstanding := IoUring.outstanding_queue hslot
    rw [recvmsg_of_slot hslot] at hslots ⊢
    cases handler with
    | none =>
        have hstarting : Pc.starting .polling = s.pc.starting := by rw [hpc]; rfl
        exact ⟨.of_counted hslots (h.noLeak.frame _ _)
          (howns.armReceive hpc hout (Or.inl rfl) hstarting)
          (hcounted.armReceive _ hstarting), Or.inl rfl⟩
    | some v =>
        have hstarting : Pc.starting (.entering v) = s.pc.starting := by rw [hpc]; rfl
        exact ⟨.of_counted hslots (h.noLeak.frame _ _)
          (howns.armReceive hpc hout (Or.inr ⟨v, rfl⟩) hstarting)
          (hcounted.armReceive _ hstarting), Or.inl rfl⟩
  · obtain ⟨suspended, howns, hcounted⟩ := h.counted (by rw [hpc]; rintro ⟨⟩)
    have hslot := h.slots.hasSlot_entering hpc
    obtain ⟨_, hfound, _, hready⟩ := howns.ready variant
      (by rw [hpc]; exact Multiset.mem_singleton_self variant)
    obtain rfl := ReqOrHandler.handler.inj (hhandler.symm.trans hfound)
    have hentered : Owns (s.enter variant handler) 0 ((variant, handler.number) ::ₘ suspended) := by
      rw [enter_of_slot hslot]
      exact howns.suspend hpc hhandler rfl rfl rfl (IoUring.outstanding_queue hslot)
    have hsame : (s.enter variant handler).nextStack = s.nextStack := by
      rw [enter_of_slot hslot]
    exact ⟨.of_counted hslots (h.noLeak.enter hhandler hready hslot) hentered
      (hcounted.enter hpc hslot), Or.inl hsame⟩

/-- **`dispatch_loop` needs the memory of its busiest moment.** At most `N` handlers are in progress
at any time of a run if and only if the loop makes at most `N` stacks, a variant for each and one to
receive into, and has at most two buffers for each and one to receive into. Nothing leaks. -/
theorem frugal_throughout_iff (capacity : Nat) (fits : 8 + capacity < 2 ^ 64) (N : Nat)
    (es : List (Event A)) :
    Throughout step (fun s => s.inProgress ≤ N) (init capacity fits) es ↔
      Throughout step (Frugal N) (init capacity fits) es := by
  have htight : Throughout step Tight (init capacity fits : Executor A) es :=
    throughout_of_invariant es (tight_init capacity fits)
      fun _ _ _ h hstep => (step_tight h hstep).1
  constructor
  · intro hbusy
    have hbounded : Throughout step (fun s => Tight s ∧ s.nextStack ≤ N)
        (init capacity fits : Executor A) es := by
      refine hbusy.carries ⟨tight_init capacity fits, Nat.zero_le N⟩ fun s e s' h hle hstep => ?_
      obtain ⟨hnext, hmade⟩ := step_tight h.1 hstep
      refine ⟨hnext, ?_⟩
      rcases hmade with hsame | hmade
      · exact hsame.trans_le h.2
      · exact hmade.trans_le hle
    refine hbounded.imp fun s h => ?_
    obtain ⟨_, hvariants, hbuffers⟩ := h.1.memory
    have hle := h.2
    exact ⟨h.1.noLeak.owned, by omega, hle, hvariants.symm.trans_le (Nat.succ_le_succ hle)⟩
  · intro hfrugal
    exact (htight.and hfrugal).imp fun s h => h.1.memory.inProgress.trans h.2.madeStacks

/-- Three requests are answered, at most two of them at once. -/
def threeRequests : List (Event Nat) :=
  twoRequests ++ [.consume, .consume, .recvDone 0 (.datagram 7 [4]), .poll, .recvmsg, .enter]

theorem frugal_threeRequests :
    (run step (init 8 (by decide)) threeRequests).map (fun s => (s.handlers, s.nextStack))
        = some (3, 2) ∧
      Throughout step (Frugal 2) (init 8 (by decide)) threeRequests :=
  ⟨by decide +kernel,
    (frugal_throughout_iff 8 (by decide) 2 threeRequests).mp (by decide +kernel)⟩

end Executor

end Netring

end Hnet
