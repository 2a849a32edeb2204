import Hnet.Proof.BufferBounds

/-!
# `dispatch_loop` leaks no buffer

A request frees its buffer in its destructor unless it has been moved from, and the destructor of a
handler does not know of the reply on its stack. So the loop leaks nothing because it destroys a
request only when that has been moved from, and a handler only when that has put its reply into the
pool: the owners hold exactly what is allocated, each buffer once.
-/

namespace Hnet.Netring

variable {A : Type}

namespace Heap

variable {heap : Heap} {b : BufId}

/-- The buffers that have not been freed. -/
def allocated (heap : Heap) : Finset BufId :=
  (Finset.range heap.next).filter fun b => (heap.live b).isSome

theorem mem_allocated : b ∈ heap.allocated ↔ (heap.live b).isSome := by
  rw [allocated, Finset.mem_filter, Finset.mem_range]
  refine ⟨And.right, fun hlive => ⟨?_, hlive⟩⟩
  by_contra hle
  rw [heap.fresh b (not_lt.mp hle)] at hlive
  cases hlive

theorem allocated_malloc (heap : Heap) (n : Nat) :
    (heap.malloc n).2.allocated.val = (heap.malloc n).1 ::ₘ heap.allocated.val := by
  have hfresh : heap.next ∉ heap.allocated := by
    rw [mem_allocated, heap.fresh heap.next le_rfl]
    rintro ⟨⟩
  have hinsert : (heap.malloc n).2.allocated = insert heap.next heap.allocated := by
    ext b
    simp only [Finset.mem_insert, mem_allocated, malloc, Function.update_apply]
    by_cases heq : b = heap.next <;> simp [heq]
  rw [hinsert, Finset.insert_val_of_notMem hfresh]
  rfl

theorem allocated_free (heap : Heap) (b : BufId) :
    (heap.free (some b)).allocated.val = heap.allocated.val.erase b := by
  have herase : (heap.free (some b)).allocated = heap.allocated.erase b := by
    ext c
    simp only [Finset.mem_erase, mem_allocated, free, Function.update_apply]
    by_cases heq : c = b <;> simp [heq]
  rw [herase, Finset.erase_val]

@[simp]
theorem allocated_write (heap : Heap) (base : Option BufId) (off : Nat) (src : Bytes) :
    (heap.write base off src).allocated = heap.allocated := by
  cases base with
  | none => rfl
  | some b =>
      ext c
      simp only [mem_allocated, write, Function.update_apply]
      by_cases heq : c = b <;> simp [heq]

end Heap

/-! ### The owners -/

/-- The request has a buffer, which its destructor frees. -/
structure Request.Owning (r : Request A) : Prop where
  base : ∃ b, r.iov.base = some b
  iovlen : r.iovlen = 1

def ReqOrHandler.Owning : ReqOrHandler A → Prop
  | .monostate => True
  | .request r => r.Owning
  | .handler h => h.request.Owning ∧ ∀ reply, h.pc = .yielded reply → reply.Owning

section Owners

variable {heap : Heap} {owned : Multiset BufId} {pool : ObjectPoolLite (Request A)}

theorem Request.Owning.card_buffers {r : Request A} (h : r.Owning) :
    Multiset.card r.buffers = 1 := by
  obtain ⟨b, hb⟩ := h.base
  rw [Request.buffers_of_base hb, Multiset.card_singleton]

theorem Request.owning_new (heap : Heap) : (newRequest heap : Request A × Heap).1.Owning :=
  ⟨⟨_, rfl⟩, rfl⟩

theorem allocated_destroyRequest {r : Request A} (hr : r.Owning)
    (h : heap.allocated.val = r.buffers + owned) : (r.destroy heap).allocated.val = owned := by
  obtain ⟨b, hb⟩ := hr.base
  rw [Request.buffers_of_base hb, Multiset.singleton_add] at h
  rw [Request.destroy, if_neg (by rw [hr.iovlen]; exact one_ne_zero), hb, Heap.allocated_free, h,
    Multiset.erase_cons_head]

/-- What `emplace` destroys is freed, if it is not a handler with a reply. -/
theorem allocated_destroy {x : ReqOrHandler A} (hx : x.Owning)
    (hdone : ∀ h, x = .handler h → h.pc = .finished)
    (h : heap.allocated.val = x.buffers + owned) : (x.destroy heap).allocated.val = owned := by
  cases x with
  | monostate => exact h.trans (zero_add owned)
  | request r => exact allocated_destroyRequest hx h
  | handler handler =>
      have hbuffers : (ReqOrHandler.handler handler).buffers = handler.request.buffers := by
        simp only [ReqOrHandler.buffers, Handler.buffers, hdone handler rfl, HandlerPc.buffers,
          add_zero]
      exact allocated_destroyRequest hx.1 (hbuffers ▸ h)

theorem allocated_get {got : Request A × ObjectPoolLite (Request A) × Heap}
    (h : heap.allocated.val = poolBuffers pool + owned) (hpool : ∀ r ∈ pool.objects, r.Owning)
    (hgot : pool.get newRequest heap = got) :
    got.2.2.allocated.val = got.1.buffers + (poolBuffers got.2.1 + owned)
      ∧ got.1.Owning ∧ ∀ r ∈ got.2.1.objects, r.Owning := by
  rcases pool.get_cases newRequest heap with ⟨rest, object, hobjects, hget⟩ | ⟨_, hget⟩
  · obtain rfl := hgot.symm.trans hget
    have hput : pool = ObjectPoolLite.put ⟨rest⟩ object := by
      rw [ObjectPoolLite.put, ← hobjects]
    rw [hput, ObjectPoolLite.objects_put] at hpool
    rw [hput, poolBuffers_put, add_assoc] at h
    refine ⟨h, hpool object (List.mem_append_right _ (List.mem_singleton_self _)), fun r hr => ?_⟩
    exact hpool r (List.mem_append_left _ hr)
  · obtain rfl := hgot.symm.trans hget
    refine ⟨?_, Request.owning_new heap, hpool⟩
    rw [← h]
    exact Heap.allocated_malloc heap 500

theorem allocated_handle {h : Handler A}
    {handled : Request A × ObjectPoolLite (Request A) × Heap × List Access}
    (hheap : heap.allocated.val = poolBuffers pool + owned)
    (hpool : ∀ r ∈ pool.objects, r.Owning) (hhandled : h.handle pool heap = handled) :
    handled.2.2.1.allocated.val = handled.1.buffers + (poolBuffers handled.2.1 + owned)
      ∧ handled.1.Owning ∧ ∀ r ∈ handled.2.1.objects, r.Owning := by
  subst hhandled
  obtain ⟨hgot, howning, hrest⟩ := allocated_get hheap hpool rfl
  unfold Handler.handle
  generalize pool.get newRequest heap = got at hgot howning hrest ⊢
  refine ⟨?_, ⟨howning.base, howning.iovlen⟩, hrest⟩
  simp only [Heap.allocated_write]
  exact hgot

end Owners

namespace Executor

variable {s s' : Executor A}

/-! ### A receive is found completed -/

/-- The handler that the loop creates. -/
def newHandler (s : Executor A) (cqe : Cqe Cookie) (req : Request A) : Handler A where
  request := req
  stack := (s.stackPool.get newStack s.nextStack).1
  cookie := (s.reqOrHandlerPool.get newReqOrHandler s.nextVariant).1
  lastCqe := cqe
  pc := .ready
  number := s.handlers

section Receive

variable {receiver : VarId} {suspended : Multiset (VarId × Nat)} {cqe : Cqe Cookie}
  {req : Request A} (h : Owns s receiver suspended) (hpc : s.pc = .polling)

include h hpc

/-- The handler that a variant from the pool holds has finished. -/
theorem Owns.finished_of_taken {new : VarId × ObjectPoolLite VarId × VarId}
    (hnew : s.reqOrHandlerPool.get newReqOrHandler s.nextVariant = new) (handler : Handler A)
    (hhandler : s.variants new.1 = .handler handler) : handler.pc = .finished := by
  by_contra hlive
  obtain ⟨hnodup, _⟩ := h.takeVariant hpc hnew
  rw [places, Pc.starting_arming_some, Multiset.singleton_add] at hnodup
  obtain ⟨htaken, _⟩ := Multiset.nodup_cons.mp (Multiset.nodup_cons.mp hnodup).2
  rcases h.unfinished new.1 handler hhandler hlive with hstarting | hmem
  · rw [hpc] at hstarting
    exact Multiset.notMem_zero _ hstarting
  · exact htaken (Multiset.mem_add.mpr (Or.inl (Multiset.mem_map_of_mem Prod.fst hmem)))

theorem Owns.pollReturned_receive (hcookie : cqe.userData.variant = receiver)
    (hreq : s.variants receiver = .request req) :
    s.pollReturned cqe =
      let new := s.reqOrHandlerPool.get newReqOrHandler s.nextVariant
      let stack := s.stackPool.get newStack s.nextStack
      let got := s.requests.get newRequest ((s.variants new.1).destroy s.heap)
      { s with
        uring := s.uring.advance 1
        variants := Function.update (Function.update s.variants new.1
          (.handler (s.newHandler cqe req))) receiver (.request got.1)
        nextVariant := new.2.2
        heap := got.2.2
        stackPool := stack.2.1
        nextStack := stack.2.2
        reqOrHandlerPool := new.2.1
        requests := got.2.1
        pc := .arming receiver (some new.1)
        handlers := s.handlers + 1 } := by
  obtain ⟨hne, _⟩ := h.taken_ne_receiver hpc rfl
  simp only [Executor.pollReturned, Executor.startHandler, hcookie, hreq, newHandler]
  generalize s.reqOrHandlerPool.get newReqOrHandler s.nextVariant = new at hne ⊢
  simp only [Function.update_of_ne hne.symm, Function.update_self, ReqOrHandler.destroy_request,
    Request.destroy_movedFrom]
  rw [Function.update_comm hne.symm, Function.update_idem]

/-- The buffer of the request goes with it, so the receiver is exchanged beside the handler. -/
theorem Owns.exchange_receive {new : VarId × ObjectPoolLite VarId × VarId} {x : ReqOrHandler A}
    (hnew : s.reqOrHandlerPool.get newReqOrHandler s.nextVariant = new)
    (hreq : s.variants receiver = .request req) (hx : x.buffers = req.buffers) :
    ∃ others, variantBuffers s.variants new.2.2 = (s.variants new.1).buffers + others ∧
      ∀ r : Request A, variantBuffers (Function.update (Function.update s.variants new.1 x)
        receiver (.request r)) new.2.2 = r.buffers + others := by
  obtain ⟨hne, hnewLt, hreceiverLt⟩ := h.taken_ne_receiver hpc hnew
  obtain ⟨others, hbefore, hemplaced⟩ :=
    Holdings.exchange ReqOrHandler.buffers s.variants (Finset.mem_range.mpr hnewLt) x
  refine ⟨others, hbefore, fun r => ?_⟩
  obtain ⟨others', hmiddle, hfinal⟩ :=
    Holdings.exchange ReqOrHandler.buffers (Function.update s.variants new.1 x)
      (Finset.mem_range.mpr hreceiverLt) (.request r)
  rw [hemplaced, Function.update_of_ne hne.symm, hreq, hx] at hmiddle
  rw [variantBuffers, hfinal, add_left_cancel hmiddle]
  rfl

end Receive

/-! ### What each step does to the buffers -/

/-- The owners hold exactly what is allocated, each buffer once. -/
structure NoLeak (s : Executor A) : Prop where
  owned : s.heap.allocated.val
    = poolBuffers s.requests + variantBuffers s.variants s.nextVariant
  pooled : ∀ r ∈ s.requests.objects, r.Owning
  owning : ∀ v, (s.variants v).Owning
  unmade : ∀ v, s.nextVariant ≤ v → s.variants v = .monostate

theorem NoLeak.lt_nextVariant {v : VarId} (h : NoLeak s) (hv : s.variants v ≠ .monostate) :
    v < s.nextVariant := by
  by_contra hle
  exact hv (h.unmade v (not_lt.mp hle))

theorem noLeak_init (capacity : Nat) (fits : 8 + capacity < 2 ^ 64) :
    NoLeak (init capacity fits : Executor A) where
  owned := Heap.allocated_malloc Heap.empty 500
  pooled r hr := by cases hr
  owning v := by
    by_cases heq : v = 0
    · subst heq
      exact Request.owning_new Heap.empty
    · simp only [init, started, newReqOrHandler, Function.update_of_ne heq]
      trivial
  unmade := (owns_init capacity fits).unmade

section Steps

variable {receiver : VarId} {suspended : Multiset (VarId × Nat)} (h : NoLeak s)

include h

theorem NoLeak.frame (uring : IoUring Cookie) (pc : Pc) :
    NoLeak { s with uring := uring, pc := pc } where
  owned := h.owned
  pooled := h.pooled
  owning := h.owning
  unmade := h.unmade

/-- A step that exchanges one variant. -/
theorem NoLeak.exchange {v : VarId} {x : ReqOrHandler A} (hv : v < s.nextVariant)
    (hvariants : s'.variants = Function.update s.variants v x)
    (hnext : s'.nextVariant = s.nextVariant) (hx : x.Owning)
    (howned : ∀ others,
      variantBuffers s.variants s.nextVariant = (s.variants v).buffers + others →
        s'.heap.allocated.val = poolBuffers s'.requests + (x.buffers + others))
    (hpooled : ∀ r ∈ s'.requests.objects, r.Owning) : NoLeak s' where
  owned := by
    obtain ⟨others, hold, hnew⟩ :=
      Holdings.exchange ReqOrHandler.buffers s.variants (Finset.mem_range.mpr hv) x
    rw [hvariants, hnext, variantBuffers, hnew]
    exact howned others hold
  pooled := hpooled
  owning w := by
    rw [hvariants]
    by_cases heq : w = v
    · rwa [heq, Function.update_self]
    · rw [Function.update_of_ne heq]
      exact h.owning w
  unmade w hw := by
    rw [hnext] at hw
    rw [hvariants, Function.update_of_ne (hv.trans_le hw).ne']
    exact h.unmade w hw

theorem NoLeak.received (uring : IoUring Cookie) (variant : VarId) (done : RecvDone A) :
    NoLeak (s.received uring variant done) := by
  unfold Executor.received
  cases hvariant : s.variants variant with
  | monostate => exact h.frame uring s.pc
  | handler _ => exact h.frame uring s.pc
  | request r =>
      have hr : r.Owning := by
        have howning := h.owning variant
        rwa [hvariant] at howning
      have hiovlen : (r.received done).iovlen = r.iovlen := by cases done <;> rfl
      have hbuffers : (r.received done).buffers = r.buffers := by
        simp only [Request.buffers, Request.iov_received]
      refine h.exchange (h.lt_nextVariant (by rw [hvariant]; rintro ⟨⟩)) rfl rfl ?_
        (fun others hold => ?_) h.pooled
      · exact ⟨by rw [Request.iov_received]; exact hr.base, hiovlen.trans hr.iovlen⟩
      · rw [hvariant] at hold
        rw [ReqOrHandler.buffers, hbuffers, Heap.allocated_write, h.owned, hold]
        rfl

/-- The reply is the handler's own from the time it is entered. -/
theorem NoLeak.enter {variant : VarId} {handler : Handler A}
    (hhandler : s.variants variant = .handler handler) (hready : handler.pc = .ready)
    (hslot : s.uring.HasSlot) : NoLeak (s.enter variant handler) := by
  have hlt : variant < s.nextVariant := h.lt_nextVariant (by rw [hhandler]; rintro ⟨⟩)
  have howning := h.owning variant
  rw [hhandler] at howning
  obtain ⟨howned, hreply, hpooled⟩ :=
    allocated_handle h.owned h.pooled (rfl : handler.handle s.requests s.heap = _)
  rw [enter_of_slot hslot]
  refine h.exchange hlt rfl rfl ⟨howning.1, fun reply hpc => ?_⟩ (fun others hold => ?_) hpooled
  · obtain rfl := HandlerPc.yielded.inj hpc
    exact hreply
  · have hbuffers : (s.variants variant).buffers = handler.request.buffers := by
      rw [hhandler, ReqOrHandler.buffers, Handler.buffers, hready]
      exact add_zero _
    rw [hold, hbuffers] at howned
    rw [ReqOrHandler.buffers, Handler.buffers, HandlerPc.buffers, howned]
    ac_rfl

/-- The reply goes from the stack of the handler into the pool. -/
theorem NoLeak.resume {cqe : Cqe Cookie} {handler : Handler A} {reply : Request A}
    (hhandler : s.variants cqe.userData.variant = .handler handler)
    (hyielded : handler.pc = .yielded reply) : NoLeak (s.pollReturned cqe) := by
  have hlt := h.lt_nextVariant (v := cqe.userData.variant) (by rw [hhandler]; rintro ⟨⟩)
  have howning := h.owning cqe.userData.variant
  rw [hhandler] at howning
  simp only [pollReturned, resumeHandler, hhandler, hyielded]
  refine h.exchange hlt rfl rfl ⟨howning.1, fun _ hpc => by cases hpc⟩ (fun others hold => ?_) ?_
  · have hbuffers : (s.variants cqe.userData.variant).buffers
        = handler.request.buffers + reply.buffers := by
      rw [hhandler, ReqOrHandler.buffers, Handler.buffers, hyielded]
      rfl
    rw [h.owned, hold, hbuffers, poolBuffers_put]
    simp only [ReqOrHandler.buffers, Handler.buffers, HandlerPc.buffers, add_zero]
    ac_rfl
  · exact List.forall_mem_append.mpr
      ⟨h.pooled, List.forall_mem_singleton.mpr (howning.2 reply hyielded)⟩

/-- The request that was received into goes to the handler, and the variant gets another one. The
handler that had the variant before has finished. -/
theorem NoLeak.startHandler {cqe : Cqe Cookie} {req : Request A}
    (howns : Owns s receiver suspended) (hpc : s.pc = .polling)
    (hcookie : cqe.userData.variant = receiver) (hreq : s.variants receiver = .request req) :
    NoLeak (s.pollReturned cqe) := by
  obtain ⟨hne, hnewLt, hreceiverLt⟩ := howns.taken_ne_receiver hpc rfl
  obtain ⟨_, _, hle⟩ := howns.takeVariant hpc rfl
  have hdone := howns.finished_of_taken hpc rfl
  have hreqOwning := h.owning receiver
  rw [hreq] at hreqOwning
  rw [howns.pollReturned_receive hpc hcookie hreq]
  generalize hhandler : newHandler s cqe req = handler
  have hx : (ReqOrHandler.handler handler).buffers = req.buffers := by
    rw [← hhandler]
    exact add_zero _
  obtain ⟨others, hbefore, hafter⟩ := howns.exchange_receive hpc rfl hreq hx
  generalize s.reqOrHandlerPool.get newReqOrHandler s.nextVariant = new
    at hne hnewLt hreceiverLt hle hdone hbefore hafter ⊢
  have howned := h.owned
  rw [← variantBuffers_of_le hle h.unmade, hbefore, add_left_comm] at howned
  obtain ⟨hgot, hgotOwning, hpooled⟩ :=
    allocated_get (allocated_destroy (h.owning new.1) hdone howned) h.pooled rfl
  refine ⟨?_, hpooled, fun v => ?_, fun v hv => ?_⟩
  · dsimp only
    rw [hgot, hafter, add_left_comm]
  · dsimp only
    by_cases hv₀ : v = receiver
    · rw [hv₀, Function.update_self]
      exact hgotOwning
    rw [Function.update_of_ne hv₀]
    by_cases hv₁ : v = new.1
    · rw [hv₁, Function.update_self, ← hhandler]
      exact ⟨hreqOwning, fun _ heq => by cases heq⟩
    · rw [Function.update_of_ne hv₁]
      exact h.owning v
  · dsimp only at hv ⊢
    rw [Function.update_of_ne (hreceiverLt.trans_le hv).ne',
      Function.update_of_ne (hnewLt.trans_le hv).ne']
    exact h.unmade v (hle.trans hv)

end Steps

end Executor

end Hnet.Netring
