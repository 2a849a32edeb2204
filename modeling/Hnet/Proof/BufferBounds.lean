import Hnet.Holdings
import Hnet.Proof.SlotBound

/-!
# The buffers of `dispatch_loop`

The pool of requests feeds the receives, which take the length of a request as the size of its
buffer, and the replies, whose length is set to what is sent. A reply goes back into the pool with
the length it was sent with. So the buffers stay within bounds exactly as long as no handler is
entered with more than half a buffer received, and none puts back a reply that does not fill one.
-/

namespace Hnet.Netring

open Lts

variable {A : Type}

/-! ### What the buffers should satisfy -/

/-- The length of the request is the size its buffer was allocated with, the full 500 bytes. -/
def Request.FullLength (heap : Heap) (r : Request A) : Prop :=
  r.iov.len = 500 ∧ heap.size r.iov.base = some r.iov.len

namespace Executor

/-- The variant is handed to `recvmsg`, now or in an operation that is outstanding. -/
def Receives (s : Executor A) (variant : VarId) : Prop :=
  (∃ handler, s.pc = .arming variant handler) ∨ (⟨variant, .recv⟩ : Cookie) ∈ s.uring.outstanding

structure BuffersInBounds (s : Executor A) : Prop where
  pooled : ∀ r ∈ s.requests.objects, r.FullLength s.heap
  received : ∀ variant r, s.Receives variant → s.variants variant = .request r →
    r.FullLength s.heap
  accesses : ∀ a ∈ s.accesses, a.Inside

/-- The handler that the loop enters next. -/
def entered (s : Executor A) : Option (Handler A) :=
  match s.pc with
  | .entering variant =>
      match s.variants variant with
      | .handler h => some h
      | _ => none
  | _ => none

/-- The handler of the send whose completion the loop finds next. -/
def resumed (s : Executor A) : Option (Handler A) :=
  s.uring.peek.bind fun cqe =>
    match s.variants cqe.userData.variant with
    | .handler h => some h
    | _ => none

/-- A handler is entered with at most half a buffer received, and the completion of a send finds
one that has received exactly half a buffer. -/
def FitsReply (s : Executor A) : Event A → Prop
  | .enter => ∀ h ∈ s.entered, sizeT h.lastCqe.res ≤ 250
  | .poll => ∀ h ∈ s.resumed, sizeT h.lastCqe.res = 250
  | _ => True

instance (s : Executor A) : ∀ e, Decidable (FitsReply s e)
  | .enter => inferInstanceAs (Decidable (∀ h ∈ s.entered, sizeT h.lastCqe.res ≤ 250))
  | .poll => inferInstanceAs (Decidable (∀ h ∈ s.resumed, sizeT h.lastCqe.res = 250))
  | .consume | .recvDone _ _ | .sendDone _ _ | .pollThrows | .recvmsg => isTrue trivial

theorem entered_eq {s : Executor A} {variant : VarId} {h : Handler A}
    (hpc : s.pc = .entering variant) (hhandler : s.variants variant = .handler h) :
    s.entered = some h := by
  simp only [entered, hpc, hhandler]

theorem resumed_eq {s : Executor A} {cqe : Cqe Cookie} {h : Handler A}
    (hpeek : s.uring.peek = some cqe)
    (hhandler : s.variants cqe.userData.variant = .handler h) : s.resumed = some h := by
  simp only [resumed, hpeek, Option.bind_some, hhandler]

end Executor

/-! ### Buffers that are owned once and allocated -/

/-- No buffer has two owners, and each is an allocation of 500 bytes. -/
structure Backed (heap : Heap) (owned : Multiset BufId) : Prop where
  nodup : owned.Nodup
  size : ∀ b ∈ owned, heap.size (some b) = some 500

section Backed

variable {heap : Heap} {owned owned' : Multiset BufId}

theorem Backed.mono (h : Backed heap owned) (hle : owned' ≤ owned) : Backed heap owned' where
  nodup := Multiset.nodup_of_le hle h.nodup
  size b hb := h.size b (Multiset.mem_of_le hle hb)

theorem Backed.malloc (h : Backed heap owned) :
    Backed (heap.malloc 500).2 ((heap.malloc 500).1 ::ₘ owned) where
  nodup := Multiset.nodup_cons.mpr ⟨fun hmem => (Heap.size_lt (h.size _ hmem)).false, h.nodup⟩
  size b hb := by
    rcases Multiset.mem_cons.mp hb with rfl | hb
    · exact Heap.size_malloc_self heap 500
    · exact Heap.size_malloc 500 (h.size b hb)

theorem Backed.free {b : BufId} (h : Backed heap (b ::ₘ owned)) :
    Backed (heap.free (some b)) owned where
  nodup := (Multiset.nodup_cons.mp h.nodup).2
  size c hc := by
    have hne : some b ≠ some c := by
      rintro heq
      exact (Multiset.nodup_cons.mp h.nodup).1 (Option.some.inj heq ▸ hc)
    rw [Heap.size_free hne]
    exact h.size c (Multiset.mem_cons_of_mem hc)

theorem Backed.write (h : Backed heap owned) (base : Option BufId) (off : Nat) (src : Bytes) :
    Backed (heap.write base off src) owned where
  nodup := h.nodup
  size b hb := (heap.size_write base off src (some b)).trans (h.size b hb)

end Backed

/-! ### The owners -/

def Request.buffers (r : Request A) : Multiset BufId :=
  match r.iov.base with
  | some b => {b}
  | none => 0

def HandlerPc.buffers : HandlerPc A → Multiset BufId
  | .yielded reply => reply.buffers
  | _ => 0

def Handler.buffers (h : Handler A) : Multiset BufId := h.request.buffers + h.pc.buffers

def ReqOrHandler.buffers : ReqOrHandler A → Multiset BufId
  | .monostate => 0
  | .request r => r.buffers
  | .handler h => h.buffers

def poolBuffers (pool : ObjectPoolLite (Request A)) : Multiset BufId :=
  (pool.objects : Multiset (Request A)).bind Request.buffers

/-- The request has its buffer, with the length it was allocated with. -/
def Request.Whole (r : Request A) : Prop := ∃ b, r.iov = { base := some b, len := 500 }

/-- A suspended handler has copied what it received into its reply twice. -/
def ReqOrHandler.Whole : ReqOrHandler A → Prop
  | .monostate => True
  | .request r => r.Whole
  | .handler h => h.request.Whole ∧ ∀ reply, h.pc = .yielded reply →
      sizeT h.lastCqe.res ≤ 250
        ∧ ∃ b, reply.iov = { base := some b, len := sizeT h.lastCqe.res * 2 }

section Owners

variable {heap : Heap} {owned : Multiset BufId} {pool : ObjectPoolLite (Request A)}

theorem Request.buffers_of_base {r : Request A} {b : BufId} (h : r.iov.base = some b) :
    r.buffers = {b} := by
  rw [Request.buffers, h]

theorem poolBuffers_put (r : Request A) :
    poolBuffers (pool.put r) = r.buffers + poolBuffers pool := by
  rw [poolBuffers, Executor.coe_objects_put, Multiset.cons_bind]
  rfl

theorem Backed.destroyRequest {r : Request A} (h : Backed heap (r.buffers + owned)) :
    Backed (r.destroy heap) owned := by
  unfold Request.destroy
  split
  · exact h.mono (Multiset.le_add_left _ _)
  · cases hbase : r.iov.base with
    | none => exact h.mono (Multiset.le_add_left _ _)
    | some b =>
        rw [Request.buffers_of_base hbase, Multiset.singleton_add] at h
        exact h.free

theorem Backed.destroy {x : ReqOrHandler A} (h : Backed heap (x.buffers + owned)) :
    Backed (x.destroy heap) owned := by
  cases x with
  | monostate => exact h.mono (Multiset.le_add_left _ _)
  | request r => exact h.destroyRequest
  | handler handler =>
      rw [ReqOrHandler.buffers, Handler.buffers, add_assoc] at h
      exact h.destroyRequest.mono (Multiset.le_add_left _ _)

theorem Backed.get {got : Request A × ObjectPoolLite (Request A) × Heap}
    (h : Backed heap (poolBuffers pool + owned)) (hwhole : ∀ r ∈ pool.objects, r.Whole)
    (hgot : pool.get newRequest heap = got) :
    Backed got.2.2 (got.1.buffers + (poolBuffers got.2.1 + owned))
      ∧ got.1.Whole ∧ ∀ r ∈ got.2.1.objects, r.Whole := by
  rcases pool.get_cases newRequest heap with ⟨rest, object, hobjects, hget⟩ | ⟨_, hget⟩
  · obtain rfl := hgot.symm.trans hget
    have hput : pool = ObjectPoolLite.put ⟨rest⟩ object := by
      rw [ObjectPoolLite.put, ← hobjects]
    rw [hput, ObjectPoolLite.objects_put] at hwhole
    rw [hput, poolBuffers_put, add_assoc] at h
    refine ⟨h, hwhole object (List.mem_append_right _ (List.mem_singleton_self _)), fun r hr => ?_⟩
    exact hwhole r (List.mem_append_left _ hr)
  · obtain rfl := hgot.symm.trans hget
    refine ⟨?_, ⟨_, rfl⟩, hwhole⟩
    exact h.malloc

/-- The handler up to its `sendmsg`, with `b` the buffer of what it received. -/
theorem Backed.handle {h : Handler A} {handled : Request A × ObjectPoolLite (Request A) × Heap ×
      List Access} {b : BufId} (hbacked : Backed heap (poolBuffers pool + owned))
    (hwhole : ∀ r ∈ pool.objects, r.Whole) (hbase : h.request.iov.base = some b) (hb : b ∈ owned)
    (hhandled : h.handle pool heap = handled) :
    Backed handled.2.2.1 (handled.1.buffers + (poolBuffers handled.2.1 + owned))
      ∧ (∃ c, handled.1.iov = { base := some c, len := sizeT h.lastCqe.res * 2 % 2 ^ 64 })
      ∧ (∀ r ∈ handled.2.1.objects, r.Whole)
      ∧ ((∀ a ∈ handled.2.2.2, a.Inside) ↔ sizeT h.lastCqe.res ≤ 250) := by
  subst hhandled
  obtain ⟨hgot, ⟨c, hc⟩, hrest⟩ := hbacked.get hwhole rfl
  unfold Handler.handle
  generalize pool.get newRequest heap = got at hgot hc hrest ⊢
  have hbuffers : got.1.buffers = {c} := Request.buffers_of_base (by rw [hc])
  have hreq : got.2.2.size (some b) = some 500 :=
    hgot.size b (Multiset.mem_add.mpr (Or.inr (Multiset.mem_add.mpr (Or.inr hb))))
  have hreply : got.2.2.size (some c) = some 500 :=
    hgot.size c (Multiset.mem_add.mpr (Or.inl (hbuffers ▸ Multiset.mem_singleton_self c)))
  refine ⟨?_, ⟨c, by simp only [hc]⟩, hrest, ?_⟩
  · exact (hgot.write _ _ _).write _ _ _
  · generalize sizeT h.lastCqe.res = size
    simp only [List.forall_mem_cons, List.not_mem_nil, IsEmpty.forall_iff, implies_true, and_true,
      Access.Inside, hbase, hc, Heap.size_write, hreq, hreply, Option.some.injEq, exists_eq_left']
    omega

end Owners

namespace Executor

variable {s s' : Executor A}

/-! ### What each step does to the buffers -/

def variantBuffers (variants : VarId → ReqOrHandler A) (n : VarId) : Multiset BufId :=
  Holdings.total ReqOrHandler.buffers variants (Finset.range n)

theorem mem_variantBuffers {variants : VarId → ReqOrHandler A} {n v : VarId} {b : BufId}
    (hv : v < n) (hb : b ∈ (variants v).buffers) : b ∈ variantBuffers variants n :=
  Holdings.mem_total.mpr ⟨v, Finset.mem_range.mpr hv, hb⟩

/-- The variants that have not been made yet own nothing. -/
theorem variantBuffers_of_le {variants : VarId → ReqOrHandler A} {n m : VarId} (hle : n ≤ m)
    (hunmade : ∀ v, n ≤ v → variants v = .monostate) :
    variantBuffers variants m = variantBuffers variants n := by
  apply Holdings.total_of_subset (Finset.range_subset_range.mpr hle)
  intro v _ hv
  rw [hunmade v (not_lt.mp fun hlt => hv (Finset.mem_range.mpr hlt))]
  rfl

structure Buffers (s : Executor A) : Prop where
  backed : Backed s.heap (poolBuffers s.requests + variantBuffers s.variants s.nextVariant)
  pooled : ∀ r ∈ s.requests.objects, r.Whole
  whole : ∀ v, (s.variants v).Whole
  unmade : ∀ v, s.nextVariant ≤ v → s.variants v = .monostate
  accesses : ∀ a ∈ s.accesses, a.Inside

theorem Buffers.lt_nextVariant {v : VarId} (h : Buffers s) (hv : s.variants v ≠ .monostate) :
    v < s.nextVariant := by
  by_contra hle
  exact hv (h.unmade v (not_lt.mp hle))

theorem buffers_init (capacity : Nat) (fits : 8 + capacity < 2 ^ 64) :
    Buffers (init capacity fits : Executor A) where
  backed := by
    have hempty : Backed Heap.empty 0 :=
      ⟨Multiset.nodup_zero, fun b hb => absurd hb (Multiset.notMem_zero b)⟩
    exact hempty.malloc
  pooled r hr := by cases hr
  whole v := by
    by_cases heq : v = 0
    · subst heq
      exact ⟨0, rfl⟩
    · simp only [init, started, newReqOrHandler, Function.update_of_ne heq]
      trivial
  unmade v hv := by
    have hne : v ≠ 0 := Nat.ne_of_gt hv
    simp only [init, started, newReqOrHandler, Function.update_of_ne hne]
  accesses a ha := by cases ha

section Steps

variable {receiver : VarId} (h : Buffers s)

include h

theorem Buffers.frame (uring : IoUring Cookie) (pc : Pc) :
    Buffers { s with uring := uring, pc := pc } where
  backed := h.backed
  pooled := h.pooled
  whole := h.whole
  unmade := h.unmade
  accesses := h.accesses

/-- A step that exchanges one variant. -/
theorem Buffers.exchange {v : VarId} {x : ReqOrHandler A} (hv : v < s.nextVariant)
    (hvariants : s'.variants = Function.update s.variants v x)
    (hnext : s'.nextVariant = s.nextVariant) (hx : x.Whole)
    (hbacked : ∀ others,
      variantBuffers s.variants s.nextVariant = (s.variants v).buffers + others →
        Backed s'.heap (poolBuffers s'.requests + (x.buffers + others)))
    (hpooled : ∀ r ∈ s'.requests.objects, r.Whole) (haccesses : ∀ a ∈ s'.accesses, a.Inside) :
    Buffers s' where
  backed := by
    obtain ⟨others, hold, hnew⟩ :=
      Holdings.exchange ReqOrHandler.buffers s.variants (Finset.mem_range.mpr hv) x
    rw [hvariants, hnext, variantBuffers, hnew]
    exact hbacked others hold
  pooled := hpooled
  whole w := by
    rw [hvariants]
    by_cases heq : w = v
    · rwa [heq, Function.update_self]
    · rw [Function.update_of_ne heq]
      exact h.whole w
  unmade w hw := by
    rw [hnext] at hw
    rw [hvariants, Function.update_of_ne (hv.trans_le hw).ne']
    exact h.unmade w hw
  accesses := haccesses

theorem Buffers.received (uring : IoUring Cookie) (variant : VarId) (done : RecvDone A) :
    Buffers (s.received uring variant done) := by
  unfold Executor.received
  cases hvariant : s.variants variant with
  | monostate => exact h.frame uring s.pc
  | handler _ => exact h.frame uring s.pc
  | request r =>
      have hwhole := h.whole variant
      rw [hvariant] at hwhole
      refine h.exchange (h.lt_nextVariant (by rw [hvariant]; exact nofun)) rfl rfl ?_
        (fun others hold => ?_) h.pooled h.accesses
      · simpa only [ReqOrHandler.Whole, Request.Whole, Request.iov_received] using hwhole
      · have hbuffers : (r.received done).buffers = r.buffers := by
          simp only [Request.buffers, Request.iov_received]
        have hbacked := h.backed.write r.iov.base 0 (done.payload r.iov.len)
        rw [hold, hvariant] at hbacked
        rwa [ReqOrHandler.buffers, hbuffers]

/-- A handler not yet entered has the buffer of what was received, and no other. -/
theorem Buffers.ready {variant : VarId} {handler : Handler A}
    (hhandler : s.variants variant = .handler handler) (hready : handler.pc = .ready) :
    ∃ b, handler.request.iov = { base := some b, len := 500 }
      ∧ (s.variants variant).buffers = handler.request.buffers
      ∧ b ∈ variantBuffers s.variants s.nextVariant := by
  have hlt : variant < s.nextVariant := h.lt_nextVariant (by rw [hhandler]; exact nofun)
  have hwhole := h.whole variant
  rw [hhandler] at hwhole
  obtain ⟨⟨b, hb⟩, _⟩ := hwhole
  have hbuffers : (s.variants variant).buffers = handler.request.buffers := by
    rw [hhandler, ReqOrHandler.buffers, Handler.buffers, hready]
    exact add_zero _
  refine ⟨b, hb, hbuffers, mem_variantBuffers hlt ?_⟩
  rw [hbuffers, Request.buffers_of_base (b := b) (by rw [hb])]
  exact Multiset.mem_singleton_self b

/-- The handler is entered, and its reply is its own from then on. -/
theorem Buffers.enter {variant : VarId} {handler : Handler A}
    (hhandler : s.variants variant = .handler handler) (hready : handler.pc = .ready)
    (hfits : sizeT handler.lastCqe.res ≤ 250) (hslot : s.uring.HasSlot) :
    Buffers (s.enter variant handler) := by
  have hlt : variant < s.nextVariant := h.lt_nextVariant (by rw [hhandler]; exact nofun)
  obtain ⟨b, hb, hbuffers, hmem⟩ := h.ready hhandler hready
  obtain ⟨hbacked, ⟨c, hc⟩, hpooled, hinside⟩ :=
    h.backed.handle h.pooled (by rw [hb]) hmem (rfl : handler.handle s.requests s.heap = _)
  have hmod : sizeT handler.lastCqe.res * 2 % 2 ^ 64 = sizeT handler.lastCqe.res * 2 :=
    Nat.mod_eq_of_lt (by omega)
  rw [enter_of_slot hslot]
  refine h.exchange hlt rfl rfl ⟨⟨b, hb⟩, fun reply hreply => ?_⟩ (fun others hold => ?_) hpooled ?_
  · obtain rfl := HandlerPc.yielded.inj hreply
    exact ⟨hfits, c, by rw [hc, hmod]⟩
  · rw [hold, hbuffers, add_left_comm, ← add_assoc (Request.buffers _),
      add_comm (Request.buffers _)] at hbacked
    exact hbacked
  · exact List.forall_mem_append.mpr ⟨h.accesses, hinside.mpr hfits⟩

/-- A handler that has received half a buffer puts a whole reply into the pool. -/
theorem Buffers.resume {cqe : Cqe Cookie} {handler : Handler A} {reply : Request A}
    (hhandler : s.variants cqe.userData.variant = .handler handler)
    (hyielded : handler.pc = .yielded reply) (hfull : sizeT handler.lastCqe.res = 250) :
    Buffers (s.pollReturned cqe) := by
  have hlt := h.lt_nextVariant (v := cqe.userData.variant) (by rw [hhandler]; exact nofun)
  have hwhole := h.whole cqe.userData.variant
  rw [hhandler] at hwhole
  obtain ⟨hreq, hreply⟩ := hwhole
  obtain ⟨_, b, hb⟩ := hreply reply hyielded
  rw [hfull] at hb
  simp only [pollReturned, resumeHandler, hhandler, hyielded]
  refine h.exchange hlt rfl rfl ⟨hreq, fun _ hpc => by cases hpc⟩ (fun others hold => ?_) ?_
    h.accesses
  · have hbuffers : (s.variants cqe.userData.variant).buffers
        = handler.request.buffers + reply.buffers := by
      rw [hhandler, ReqOrHandler.buffers, Handler.buffers, hyielded]
      rfl
    have hbacked := h.backed
    rw [hold, hbuffers, add_comm (Request.buffers _), add_assoc (Request.buffers _), add_left_comm,
      ← add_assoc (Request.buffers _), ← poolBuffers_put] at hbacked
    rw [ReqOrHandler.buffers, Handler.buffers]
    simpa only [HandlerPc.buffers, add_zero] using hbacked
  · exact List.forall_mem_append.mpr ⟨h.pooled, List.forall_mem_singleton.mpr ⟨b, hb⟩⟩

/-- The request that was received into goes to the handler, and the variant gets another one. The
buffer that goes is that of the handler which had the variant before. -/
theorem Buffers.startHandler {cqe : Cqe Cookie} {req : Request A}
    {suspended : Multiset (VarId × Nat)} (howns : Owns s receiver suspended)
    (hpc : s.pc = .polling) (hcookie : cqe.userData.variant = receiver)
    (hreq : s.variants receiver = .request req) : Buffers (s.pollReturned cqe) := by
  obtain ⟨hne, hnewLt, hreceiverLt⟩ := howns.taken_ne_receiver hpc rfl
  obtain ⟨_, _, hle⟩ := howns.takeVariant hpc rfl
  have hreqWhole := h.whole receiver
  rw [hreq] at hreqWhole
  simp only [pollReturned, Executor.startHandler, hcookie, hreq]
  generalize s.reqOrHandlerPool.get newReqOrHandler s.nextVariant = new
    at hne hnewLt hreceiverLt hle ⊢
  obtain ⟨x, hx⟩ : ∃ x : ReqOrHandler A, x = .handler
      { request := req, stack := (s.stackPool.get newStack s.nextStack).1, cookie := new.1
        lastCqe := cqe, pc := .ready, number := s.handlers } := ⟨_, rfl⟩
  have hxBuffers : x.buffers = req.buffers := by
    rw [hx]
    exact add_zero _
  have hxWhole : x.Whole := by
    rw [hx]
    exact ⟨hreqWhole, fun _ hpc => by cases hpc⟩
  simp only [← hx, Function.update_of_ne hne.symm, Function.update_self,
    ReqOrHandler.destroy_request, Request.destroy_movedFrom]
  rw [Function.update_comm hne.symm, Function.update_idem]
  obtain ⟨others, hbefore, hemplaced⟩ :=
    Holdings.exchange ReqOrHandler.buffers s.variants (Finset.mem_range.mpr hnewLt) x
  have hbacked := h.backed
  rw [← variantBuffers_of_le hle h.unmade, variantBuffers, hbefore, add_left_comm] at hbacked
  obtain ⟨hgot, hgotWhole, hpooled⟩ := hbacked.destroy.get h.pooled rfl
  generalize s.requests.get newRequest _ = got at hgot hgotWhole hpooled ⊢
  obtain ⟨others', hmiddle, hfinal⟩ :=
    Holdings.exchange ReqOrHandler.buffers (Function.update s.variants new.1 x)
      (Finset.mem_range.mpr hreceiverLt) (.request got.1)
  -- the buffer of the request is in the handler now, so the receiver is exchanged beside it
  have hsame : others' = others := by
    rw [hemplaced, Function.update_of_ne hne.symm, hreq, hxBuffers] at hmiddle
    exact (add_left_cancel hmiddle).symm
  have hwhole : ∀ v, (Function.update (Function.update s.variants new.1 x) receiver
      (.request got.1) v).Whole := by
    intro v
    by_cases hv₀ : v = receiver
    · rw [hv₀, Function.update_self]
      exact hgotWhole
    rw [Function.update_of_ne hv₀]
    by_cases hv₁ : v = new.1
    · rwa [hv₁, Function.update_self]
    · rw [Function.update_of_ne hv₁]
      exact h.whole v
  have hunmade : ∀ v, new.2.2 ≤ v → Function.update (Function.update s.variants new.1 x) receiver
      (.request got.1) v = .monostate := by
    intro v hv
    rw [Function.update_of_ne (hreceiverLt.trans_le hv).ne',
      Function.update_of_ne (hnewLt.trans_le hv).ne']
    exact h.unmade v (hle.trans hv)
  refine ⟨?_, hpooled, hwhole, hunmade, h.accesses⟩
  rw [variantBuffers, hfinal, hsame]
  rwa [add_left_comm] at hgot

end Steps

/-! ### Runs -/

theorem Buffers.fullLength {r : Request A} (h : Buffers s) (hr : r.Whole)
    (hmem : ∀ b ∈ r.buffers,
      b ∈ poolBuffers s.requests + variantBuffers s.variants s.nextVariant) :
    r.FullLength s.heap := by
  obtain ⟨b, hb⟩ := hr
  have hsize := h.backed.size b (hmem b ?_)
  · rw [Request.FullLength, hb]
    exact ⟨rfl, hsize⟩
  · rw [Request.buffers_of_base (b := b) (by rw [hb])]
    exact Multiset.mem_singleton_self b

theorem Buffers.buffersInBounds (h : Buffers s) : BuffersInBounds s where
  pooled r hr := by
    refine h.fullLength (h.pooled r hr) fun b hb => Multiset.mem_add.mpr (Or.inl ?_)
    exact Multiset.mem_bind.mpr ⟨r, hr, hb⟩
  received variant r _ hvariant := by
    have hwhole := h.whole variant
    rw [hvariant] at hwhole
    refine h.fullLength hwhole fun b hb => Multiset.mem_add.mpr (Or.inr ?_)
    refine mem_variantBuffers (h.lt_nextVariant (by rw [hvariant]; exact nofun)) ?_
    rwa [hvariant]
  accesses := h.accesses

/-- The queue has room, and the buffers have one owner each. -/
structure Bounded (s : Executor A) : Prop where
  slots : Slots s 0
  buffers : Buffers s

theorem Bounded.ready {variant : VarId} (h : Bounded s) (hpc : s.pc = .entering variant) :
    s.uring.HasSlot ∧ ∀ handler, s.variants variant = .handler handler → handler.pc = .ready := by
  constructor
  · have hle := (h.slots.entering variant hpc).1
    rw [IoUring.hasSlot_iff, h.slots.entries]
    omega
  · intro handler hhandler
    obtain ⟨_, howns⟩ := h.slots.owns (by rw [hpc]; exact nofun)
    obtain ⟨_, hready, _, hstate⟩ := howns.ready variant
      (by rw [hpc]; exact Multiset.mem_singleton_self variant)
    rwa [ReqOrHandler.handler.inj (hhandler.symm.trans hready)]

theorem step_bounded {e : Event A} (h : Bounded s) (hok : FitsReply s e)
    (hstep : s.step e = some s') : Bounded s' := by
  refine ⟨step_slots h.slots hstep, ?_⟩
  rcases step_cases hstep with ⟨_, uring, _, rfl⟩ | ⟨_, uring, variant, done, _, rfl⟩ |
    ⟨rfl, hpc, cqe, hpeek, rfl⟩ | ⟨_, rfl⟩ | ⟨variant, handler, hpc, rfl⟩ |
    ⟨rfl, variant, handler, hpc, hhandler, rfl⟩
  · exact h.buffers.frame uring s.pc
  · exact h.buffers.received uring variant done
  · obtain ⟨_, howns⟩ := h.slots.owns (by rw [hpc]; exact nofun)
    rcases howns.polled hpc hpeek with ⟨hcookie, req, hreq⟩ |
      ⟨_, _, _, handler, reply, hhandler, _, hreply⟩
    · rw [hcookie] at hreq
      exact h.buffers.startHandler howns hpc (by rw [hcookie]) hreq
    · exact h.buffers.resume hhandler hreply (hok handler (resumed_eq hpeek hhandler))
  · exact h.buffers.frame s.uring .threw
  · unfold recvmsg
    split
    · exact h.buffers.frame s.uring .nullSqe
    · exact h.buffers.frame _ _
  · obtain ⟨hslot, hready⟩ := h.ready hpc
    have hfits := hok handler (entered_eq hpc hhandler)
    exact h.buffers.enter hhandler (hready handler hhandler) hfits hslot

/-- A reply that does not fill its buffer goes into the pool with the length it was sent with. -/
theorem Bounded.resume_not_buffersInBounds {cqe : Cqe Cookie} {handler : Handler A}
    (h : Bounded s) (hpc : s.pc = .polling) (hpeek : s.uring.peek = some cqe)
    (hhandler : s.variants cqe.userData.variant = .handler handler)
    (hshort : sizeT handler.lastCqe.res ≠ 250) : ¬ BuffersInBounds (s.pollReturned cqe) := by
  intro hbounds
  obtain ⟨_, howns⟩ := h.slots.owns (by rw [hpc]; exact nofun)
  rcases howns.polled hpc hpeek with ⟨_, req, hreq⟩ | ⟨_, _, _, _, reply, hfound, _, hreply⟩
  · cases hhandler.symm.trans hreq
  · obtain rfl := ReqOrHandler.handler.inj (hhandler.symm.trans hfound)
    have hwhole := h.buffers.whole cqe.userData.variant
    rw [hhandler] at hwhole
    obtain ⟨_, b, hb⟩ := hwhole.2 reply hreply
    have hpooled := hbounds.pooled reply
    simp only [pollReturned, resumeHandler, hhandler, hreply, ObjectPoolLite.objects_put] at hpooled
    obtain ⟨hlength, _⟩ := hpooled (List.mem_append_right _ (List.mem_singleton_self _))
    rw [hb] at hlength
    dsimp only at hlength
    omega

/-- A reply that does not fit into its buffer is written beyond its end. -/
theorem Bounded.enter_not_buffersInBounds {variant : VarId} {handler : Handler A} (h : Bounded s)
    (hpc : s.pc = .entering variant) (hhandler : s.variants variant = .handler handler)
    (hlong : ¬ sizeT handler.lastCqe.res ≤ 250) :
    ¬ BuffersInBounds (s.enter variant handler) := by
  intro hbounds
  obtain ⟨hslot, hready⟩ := h.ready hpc
  obtain ⟨b, hb, _, hmem⟩ := h.buffers.ready hhandler (hready handler hhandler)
  obtain ⟨_, _, _, hinside⟩ := h.buffers.backed.handle h.buffers.pooled (by rw [hb]) hmem
    (rfl : handler.handle s.requests s.heap = _)
  rw [enter_of_slot hslot] at hbounds
  exact hlong (hinside.mp (List.forall_mem_append.mp hbounds.accesses).2)

theorem step_not_buffersInBounds {e : Event A} (h : Bounded s) (hbad : ¬ FitsReply s e)
    (hstep : s.step e = some s') : ¬ BuffersInBounds s' := by
  cases e with
  | consume | recvDone _ _ | sendDone _ _ | pollThrows | recvmsg => exact absurd trivial hbad
  | poll =>
      simp only [step] at hstep
      split at hstep
      · rename_i hpc
        obtain ⟨cqe, hpeek, rfl⟩ := Option.map_eq_some_iff.mp hstep
        cases hvariant : s.variants cqe.userData.variant with
        | monostate | request _ =>
            refine absurd (fun h hh => ?_) hbad
            simp only [resumed, hpeek, Option.bind_some, hvariant] at hh
            cases hh
        | handler handler =>
            refine h.resume_not_buffersInBounds hpc hpeek hvariant fun hfull => hbad ?_
            intro other hother
            obtain rfl := Option.some.inj ((resumed_eq hpeek hvariant).symm.trans hother)
            exact hfull
      · cases hstep
  | enter =>
      simp only [step] at hstep
      split at hstep
      · rename_i variant hpc
        split at hstep
        · rename_i handler hhandler
          obtain rfl := Option.some.inj hstep
          refine h.enter_not_buffersInBounds hpc hhandler fun hfits => hbad ?_
          intro other hother
          obtain rfl := Option.some.inj ((entered_eq hpc hhandler).symm.trans hother)
          exact hfits
        · cases hstep
      · cases hstep

/-- **The buffers of `dispatch_loop` stay within bounds** exactly in the runs in which every handler
is entered with at most half a buffer received, and every one whose send completes has received
exactly half a buffer. -/
theorem buffersInBounds_throughout_iff (capacity : Nat) (fits : 8 + capacity < 2 ^ 64)
    (es : List (Event A)) :
    Throughout step BuffersInBounds (init capacity fits) es ↔
      Along step FitsReply (init capacity fits) es :=
  throughout_iff_along es ⟨slots_init capacity fits, buffers_init capacity fits⟩
    (fun _ h => h.buffers.buffersInBounds)
    (fun _ _ _ h hok hstep => step_bounded h hok hstep)
    fun _ _ _ h hbad hstep => step_not_buffersInBounds h hbad hstep

/-- A request of `n` bytes and the completion of its reply. -/
def oneReply (n : Nat) : List (Event Nat) :=
  [.recvmsg, .consume, .recvDone 0 (.datagram 7 (List.replicate n 0)), .poll, .recvmsg, .enter,
    .consume, .consume, .sendDone 1 (2 * n), .poll]

theorem buffersInBounds_fullReply :
    Throughout step BuffersInBounds (init 8 (by decide)) (oneReply 250) :=
  (buffersInBounds_throughout_iff 8 (by decide) (oneReply 250)).mpr (by decide +kernel)

/-- A reply of two bytes leaves a request in the pool that offers the next receive two of its 500
bytes. -/
theorem not_buffersInBounds_oneReply :
    ¬ Throughout step BuffersInBounds (init 8 (by decide)) (oneReply 1) := by
  intro h
  have hrun : (run step (init 8 (by decide)) (oneReply 1)).map
      (fun s => s.requests.objects.map fun r => r.iov.len) = some [2] := by decide
  obtain ⟨s, hs, hpool⟩ := Option.map_eq_some_iff.mp hrun
  have hmem : 2 ∈ s.requests.objects.map fun r => r.iov.len := by
    rw [hpool]
    exact List.mem_singleton_self 2
  obtain ⟨r, hr, hlength⟩ := List.mem_map.mp hmem
  have hfull := ((h.last hs).pooled r hr).1
  omega

end Executor

end Hnet.Netring
