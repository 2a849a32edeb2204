import Hnet.Proof.HeapContents
import Hnet.Proof.NoLeak

/-!
# Each datagram is answered with its own bytes

The handlers of `dispatch_loop` share three pools and the heap, and any number of them wait for
their sends while the loop goes on. The buffer of a reply belongs to its handler from the time it is
written until the send completes, and the loop enters its handlers in the order of the receives. So
what the kernel sends is what was received, for each receive once.
-/

namespace Hnet.Netring

open Lts

variable {A : Type}

def Op.handler : Op → Option Nat
  | .recv => none
  | .send handler => some handler

/-- What a variant holds, when the kernel has completed these receives. -/
def ReqOrHandler.Describes (heap : Heap) (arrivals : List (Arrival A)) : ReqOrHandler A → Prop
  | .monostate => True
  | .request r => r.Sized
  | .handler h =>
      (h.pc = .ready → h.request.Sized ∧ ∃ a, arrivals[h.number]? = some a
        ∧ h.lastCqe.res = a.res ∧ h.request.Holds heap a) ∧
      ∀ reply, h.pc = .yielded reply → reply.Sized ∧ ∃ a, arrivals[h.number]? = some a
        ∧ reply.Answers heap a

theorem ReqOrHandler.Describes.kept {heap heap' : Heap} {arrivals : List (Arrival A)}
    {x : ReqOrHandler A} (h : x.Describes heap arrivals) (more : List (Arrival A))
    (hkept : ∀ b ∈ x.buffers, heap'.live b = heap.live b) :
    x.Describes heap' (arrivals ++ more) := by
  have hlater : ∀ {n : Nat} {a : Arrival A}, arrivals[n]? = some a →
      (arrivals ++ more)[n]? = some a := by
    intro n a ha
    rw [List.getElem?_append_left (List.getElem?_eq_some_iff.mp ha).1]
    exact ha
  cases x with
  | monostate => trivial
  | request r => exact h
  | handler handler =>
      refine ⟨fun hready => ?_, fun reply hreply => ?_⟩
      · obtain ⟨hsized, a, ha, hres, hholds⟩ := h.1 hready
        refine ⟨hsized, a, hlater ha, hres, hholds.kept fun b hb => hkept b ?_⟩
        exact Multiset.mem_add.mpr (Or.inl hb)
      · obtain ⟨hsized, a, ha, hanswers⟩ := h.2 reply hreply
        refine ⟨hsized, a, hlater ha, hanswers.kept fun b hb => hkept b ?_⟩
        refine Multiset.mem_add.mpr (Or.inr ?_)
        rw [hreply]
        exact hb

namespace Executor

variable {s s' : Executor A} {receiver : VarId}

/-! ### The receives of a run -/

/-- The receive that the kernel completes in a step. -/
def arrival (s : Executor A) : Event A → Option (Arrival A)
  | .recvDone i done => (s.uring.inKernel[i]?).map fun sqe =>
      { done := done, offered := s.offered sqe.userData.variant }
  | _ => none

/-- A handler is entered when its receive has not failed and has filled at most half of a buffer. -/
def ReceivesFit (s : Executor A) : Event A → Prop
  | .enter => ∀ h ∈ s.entered, 0 ≤ h.lastCqe.res ∧ h.lastCqe.res ≤ 250
  | _ => True

instance (s : Executor A) : ∀ e, Decidable (ReceivesFit s e)
  | .enter =>
      inferInstanceAs (Decidable (∀ h ∈ s.entered, 0 ≤ h.lastCqe.res ∧ h.lastCqe.res ≤ 250))
  | .consume | .recvDone _ _ | .sendDone _ _ | .poll | .pollThrows | .recvmsg => isTrue trivial

/-- The numbers of the handlers that have submitted a send, in the order in which they have. -/
def replied (s : Executor A) : List Nat := s.uring.sqes.filterMap fun sqe => sqe.userData.op.handler

/-! ### Receives and handlers are counted alike -/

/-- The handlers are numbered like the receives, and each of them that has been entered has
submitted one send. -/
structure Counts (s : Executor A) (arrivals : List (Arrival A)) : Prop where
  kinds : ∀ sqe ∈ s.uring.held, sqe.opcode = .recvmsg ↔ sqe.userData.op = .recv
  fresh : (∀ c ∈ s.uring.cq, c.userData.op ≠ .recv) → arrivals.length = s.handlers
  posted : ∀ c ∈ s.uring.cq, c.userData.op = .recv → arrivals.length = s.handlers + 1
    ∧ ∃ a, arrivals[s.handlers]? = some a ∧ c.res = a.res
  replied : s.replied = List.range (s.handlers - Multiset.card s.pc.starting)
  starting : ∀ v ∈ s.pc.starting, ∀ h, s.variants v = .handler h → h.number + 1 = s.handlers

section Received

variable (uring : IoUring Cookie) (variant : VarId) (done : RecvDone A)

@[simp]
theorem handlers_received : (s.received uring variant done).handlers = s.handlers := by
  unfold received
  split <;> rfl

theorem variants_received_of_ne {v : VarId} (hne : v ≠ variant) :
    (s.received uring variant done).variants v = s.variants v := by
  unfold received
  split
  · exact Function.update_of_ne hne _ _
  · rfl

end Received

/-! There is one receive at a time. -/

section Receive

variable {suspended : Multiset (VarId × Nat)} (h : Owns s receiver suspended)

include h

theorem Owns.variant_recv {c : Cookie} (hc : c ∈ s.uring.outstanding) (hop : c.op = .recv) :
    c = ⟨receiver, .recv⟩ := by
  rw [h.outstanding, Multiset.mem_add] at hc
  rcases hc with hc | hc
  · split at hc
    · exact Multiset.mem_singleton.mp hc
    · exact absurd hc (Multiset.notMem_zero c)
  · obtain ⟨p, _, rfl⟩ := Multiset.mem_map.mp hc
    cases hop

theorem Owns.countP_recv_le : s.uring.outstanding.countP (fun c => c.op = .recv) ≤ 1 := by
  have hsends : (suspended.map sendCookie).countP (fun c => c.op = .recv) = 0 := by
    refine Multiset.countP_eq_zero.mpr fun c hc hop => ?_
    obtain ⟨p, _, rfl⟩ := Multiset.mem_map.mp hc
    cases hop
  rw [h.outstanding, Multiset.countP_add, hsends, Nat.add_zero]
  split
  · exact Multiset.countP_le_card _ _
  · exact Nat.zero_le 1

/-- While the receive is with the kernel, its completion is not there yet. -/
theorem Owns.not_posted {sqe : Sqe Cookie} (hsqe : sqe ∈ s.uring.held)
    (hop : sqe.userData.op = .recv) : ∀ c ∈ s.uring.cq, c.userData.op ≠ .recv := by
  intro c hc hrecv
  have hcount := h.countP_recv_le
  have hheld : 0 < Multiset.countP (fun c : Cookie => c.op = .recv)
      (s.uring.held.map Sqe.userData : List Cookie) :=
    Multiset.countP_pos.mpr ⟨_, Multiset.mem_coe.mpr (List.mem_map_of_mem hsqe), hop⟩
  have hposted : 0 < Multiset.countP (fun c : Cookie => c.op = .recv)
      (s.uring.cq.map Cqe.userData : List Cookie) :=
    Multiset.countP_pos.mpr ⟨_, Multiset.mem_coe.mpr (List.mem_map_of_mem hc), hrecv⟩
  rw [IoUring.outstanding, Multiset.countP_add] at hcount
  omega

/-- Behind the completion of the receive there is no other one. -/
theorem Owns.not_posted_advance {cqe : Cqe Cookie} (hpeek : s.uring.peek = some cqe)
    (hop : cqe.userData.op = .recv) :
    ∀ c ∈ (s.uring.advance 1).cq, c.userData.op ≠ .recv := by
  intro c hc hrecv
  have hcount := h.countP_recv_le
  have hposted : 0 < (s.uring.advance 1).outstanding.countP (fun c => c.op = .recv) := by
    refine Multiset.countP_pos.mpr ⟨c.userData, Multiset.mem_add.mpr (Or.inr ?_), hrecv⟩
    exact Multiset.mem_coe.mpr (List.mem_map_of_mem hc)
  rw [IoUring.outstanding_of_peek hpeek,
    Multiset.countP_cons_of_pos (p := fun c : Cookie => c.op = .recv) _ hop] at hcount
  omega

end Receive

section Counting

variable {arrivals : List (Arrival A)}

theorem counts_init (capacity : Nat) (fits : 8 + capacity < 2 ^ 64) :
    Counts (init capacity fits : Executor A) [] where
  kinds sqe hsqe := by cases hsqe
  fresh _ := rfl
  posted c hc := by cases hc
  replied := rfl
  starting v hv := absurd hv (Multiset.notMem_zero v)

section Steps

variable (h : Counts s arrivals)

include h

theorem Counts.consume {uring : IoUring Cookie} (hconsume : s.uring.consume = some uring) :
    Counts { s with uring := uring } arrivals := by
  have hkernel : s.uring.kernel .consume = some uring := hconsume
  obtain ⟨_, hsqes, _, hhead⟩ := IoUring.kernel_frame hkernel
  have hcq : uring.cq = s.uring.cq := by
    obtain ⟨posted, hcqes, hposted⟩ := IoUring.kernel_cqes hkernel
    cases posted with
    | nil => rw [IoUring.cq, IoUring.cq, hcqes, hhead, List.append_nil]
    | cons c _ =>
        obtain ⟨_, heq⟩ := hposted c List.mem_cons_self
        cases heq
  refine
    { kinds := fun sqe hsqe => h.kinds sqe (IoUring.mem_held_of_kernel hkernel hsqe)
      fresh := fun hnone => h.fresh (hcq ▸ hnone)
      posted := fun c hc => h.posted c (hcq ▸ hc)
      replied := ?_
      starting := h.starting }
  rw [← h.replied, Executor.replied, Executor.replied, hsqes]

/-- A send completes. -/
theorem Counts.sendDone {i : Nat} {res : Int} {sqe : Sqe Cookie} {uring : IoUring Cookie}
    (hsqe : s.uring.inKernel[i]? = some sqe) (hopcode : sqe.opcode = .sendmsg)
    (hcomplete : s.uring.complete i res = some uring) :
    Counts { s with uring := uring } arrivals := by
  have hkernel : s.uring.kernel (.complete i res) = some uring := hcomplete
  have hmem : sqe ∈ s.uring.held := List.mem_append_right _ (List.mem_of_getElem? hsqe)
  obtain ⟨_, hfound, hcq⟩ := IoUring.complete_cases hcomplete
  obtain rfl := Option.some.inj (hsqe.symm.trans hfound)
  have hop : sqe.userData.op ≠ .recv := by
    rw [Ne, ← h.kinds sqe hmem, hopcode]
    rintro ⟨⟩
  refine
    { kinds := fun sqe hsqe => h.kinds sqe (IoUring.mem_held_of_kernel hkernel hsqe)
      fresh := fun hnone => h.fresh fun c hc => hnone c ?_
      posted := fun c hc hrecv => h.posted c ?_ hrecv
      replied := ?_
      starting := h.starting }
  · exact hcq ▸ List.mem_append_left _ hc
  · rw [show ({ s with uring := uring } : Executor A).uring.cq = _ from hcq, List.mem_append,
      List.mem_singleton] at hc
    refine hc.resolve_right ?_
    rintro rfl
    exact hop hrecv
  · rw [← h.replied, Executor.replied, Executor.replied, (IoUring.kernel_frame hkernel).2.1]

/-- The receive completes. -/
theorem Counts.recvDone {suspended : Multiset (VarId × Nat)} {i : Nat} {done : RecvDone A}
    {sqe : Sqe Cookie} {uring : IoUring Cookie} (howns : Owns s receiver suspended)
    (hsqe : s.uring.inKernel[i]? = some sqe) (hcookie : sqe.userData = ⟨receiver, .recv⟩)
    (hlength : arrivals.length = s.handlers)
    (hcomplete : s.uring.complete i (done.res (s.offered receiver)) = some uring) :
    Counts (s.received uring receiver done)
      (arrivals ++ [{ done := done, offered := s.offered receiver }]) := by
  have hkernel : s.uring.kernel (.complete i (done.res (s.offered receiver))) = some uring :=
    hcomplete
  have hmem : sqe ∈ s.uring.held := List.mem_append_right _ (List.mem_of_getElem? hsqe)
  obtain ⟨_, hfound, hcq⟩ := IoUring.complete_cases hcomplete
  obtain rfl := Option.some.inj (hsqe.symm.trans hfound)
  rw [hcookie] at hcq
  refine
    { kinds := fun sqe hsqe => h.kinds sqe ?_
      fresh := fun hnone => ?_
      posted := fun c hc hrecv => ?_
      replied := ?_
      starting := fun v hv handler hhandler => ?_ }
  · rw [uring_received] at hsqe
    exact IoUring.mem_held_of_kernel hkernel hsqe
  · rw [uring_received, hcq] at hnone
    exact absurd rfl (hnone _ (List.mem_append_right _ (List.mem_singleton_self _)))
  · rw [uring_received, hcq, List.mem_append, List.mem_singleton] at hc
    rcases hc with hc | rfl
    · exact absurd hrecv (howns.not_posted hmem (by rw [hcookie]) c hc)
    · rw [List.length_append, hlength, handlers_received, ← hlength]
      exact ⟨rfl, _, List.getElem?_concat_length, rfl⟩
  · rw [handlers_received, pc_received, ← h.replied, Executor.replied, Executor.replied,
      uring_received, (IoUring.kernel_frame hkernel).2.1]
  · rw [pc_received] at hv
    rw [variants_received_of_ne _ _ _ (howns.starting_apart hv).1.symm] at hhandler
    rw [handlers_received]
    exact h.starting v hv handler hhandler

/-- The loop finds the receive completed, and numbers a handler like it. -/
theorem Counts.startHandler {suspended : Multiset (VarId × Nat)} {cqe : Cqe Cookie}
    {req : Request A} (howns : Owns s receiver suspended) (hpc : s.pc = .polling)
    (hpeek : s.uring.peek = some cqe) (hcookie : cqe.userData = ⟨receiver, .recv⟩)
    (hreq : s.variants receiver = .request req) : Counts (s.pollReturned cqe) arrivals := by
  obtain ⟨hne, _⟩ := howns.taken_ne_receiver hpc rfl
  have hop : cqe.userData.op = .recv := by rw [hcookie]
  have hmem : cqe ∈ s.uring.cq := by
    rw [IoUring.cons_of_peek hpeek]
    exact List.mem_cons_self
  have hreplied := h.replied
  rw [hpc, Pc.starting_polling, Multiset.card_zero, Nat.sub_zero] at hreplied
  simp only [pollReturned, Executor.startHandler, hcookie, hreq]
  refine
    { kinds := h.kinds
      fresh := fun _ => (h.posted cqe hmem hop).1
      posted := fun c hc hrecv => absurd hrecv (howns.not_posted_advance hpeek hop c hc)
      replied := hreplied
      starting := fun v hv handler hhandler => ?_ }
  obtain rfl := Multiset.mem_singleton.mp hv
  simp only [Function.update_of_ne hne, Function.update_self] at hhandler
  rw [← ReqOrHandler.handler.inj hhandler]

/-- The loop finds a send completed. -/
theorem Counts.resume {cqe : Cqe Cookie} {handler : Handler A} {reply : Request A}
    (hpc : s.pc = .polling) (hpeek : s.uring.peek = some cqe) (hop : cqe.userData.op ≠ .recv)
    (hhandler : s.variants cqe.userData.variant = .handler handler)
    (hreply : handler.pc = .yielded reply) : Counts (s.pollReturned cqe) arrivals := by
  have hcq := IoUring.cons_of_peek hpeek
  have hreplied := h.replied
  rw [hpc] at hreplied
  simp only [pollReturned, resumeHandler, hhandler, hreply]
  refine
    { kinds := h.kinds
      fresh := fun hnone => h.fresh fun c hc => ?_
      posted := fun c hc => h.posted c (hcq ▸ List.mem_cons_of_mem _ hc)
      replied := hreplied
      starting := fun v hv => absurd hv (Multiset.notMem_zero v) }
  rcases List.mem_cons.mp (hcq ▸ hc) with rfl | hc
  · exact hop
  · exact hnone c hc

theorem Counts.armReceive {variant : VarId} {pc : Pc} (hslot : s.uring.HasSlot)
    (hstarting : pc.starting = s.pc.starting) :
    Counts
      { s with
        uring := (s.uring.queue (cookieSqe .recvmsg ⟨variant, .recv⟩) hslot).submit, pc := pc }
      arrivals := by
  refine
    { kinds := fun sqe hsqe => ?_
      fresh := h.fresh
      posted := h.posted
      replied := ?_
      starting := fun v hv => h.starting v (hstarting ▸ hv) }
  · rcases (IoUring.mem_held_queue hslot).mp hsqe with rfl | hsqe
    · exact ⟨fun _ => rfl, fun _ => rfl⟩
    · exact h.kinds sqe hsqe
  · rw [hstarting, ← h.replied]
    exact List.filterMap_append.trans (List.append_nil _)

theorem Counts.recvmsg {variant : VarId} {handler : Option VarId} (hslot : s.uring.HasSlot)
    (hpc : s.pc = .arming variant handler) : Counts (s.recvmsg variant handler) arrivals := by
  rw [recvmsg_of_slot hslot]
  cases handler with
  | none => exact h.armReceive hslot (by rw [hpc]; rfl)
  | some v => exact h.armReceive hslot (by rw [hpc]; rfl)

theorem Counts.enter {variant : VarId} {handler : Handler A} (hslot : s.uring.HasSlot)
    (hpc : s.pc = .entering variant) (hhandler : s.variants variant = .handler handler) :
    Counts (s.enter variant handler) arrivals := by
  have hnumber := h.starting variant
    (by rw [hpc]; exact Multiset.mem_singleton_self variant) handler hhandler
  have hreplied := h.replied
  rw [hpc, Pc.starting_entering, Multiset.card_singleton, ← hnumber, Nat.add_sub_cancel] at hreplied
  rw [enter_of_slot hslot]
  refine
    { kinds := fun sqe hsqe => ?_
      fresh := h.fresh
      posted := h.posted
      replied := ?_
      starting := fun v hv => absurd hv (Multiset.notMem_zero v) }
  · rcases (IoUring.mem_held_queue hslot).mp hsqe with rfl | hsqe
    · exact ⟨by rintro ⟨⟩, by rintro ⟨⟩⟩
    · exact h.kinds sqe hsqe
  · rw [Pc.starting_polling, Multiset.card_zero, Nat.sub_zero]
    calc
      _ = s.replied ++ [handler.number] := List.filterMap_append
      _ = List.range (handler.number + 1) := by rw [hreplied, List.range_succ]
      _ = List.range s.handlers := by rw [hnumber]

end Steps

end Counting

/-! ### Requests and replies keep their bytes -/

/-- The buffers have one owner each, and what was received and what is sent is in them. -/
structure Contents (s : Executor A) (receiver : VarId) (arrivals : List (Arrival A)) : Prop where
  backed : Backed s.heap (poolBuffers s.requests + variantBuffers s.variants s.nextVariant)
  pooled : ∀ r ∈ s.requests.objects, r.Sized
  described : ∀ v, (s.variants v).Describes s.heap arrivals
  /-- a receive that the loop has not found completed yet -/
  waiting : ∀ a r, arrivals[s.handlers]? = some a → s.variants receiver = .request r →
    r.Holds s.heap a

section Contents

variable {arrivals : List (Arrival A)}

theorem contents_init (capacity : Nat) (fits : 8 + capacity < 2 ^ 64) :
    Contents (init capacity fits : Executor A) 0 [] where
  backed := (buffers_init capacity fits).backed
  pooled r hr := by cases hr
  described v := by
    by_cases heq : v = 0
    · subst heq
      exact Request.sized_newRequest Heap.empty
    · simp only [init, started, newReqOrHandler, Function.update_of_ne heq]
      trivial
  waiting a r ha := by cases ha

variable {suspended : Multiset (VarId × Nat)}

theorem Owns.lt_nextVariant {v : VarId} (h : Owns s receiver suspended)
    (hv : s.variants v ≠ .monostate) : v < s.nextVariant := by
  by_contra hle
  exact hv (h.unmade v (not_lt.mp hle))

/-- When the buffers of the others are kept, so are those of another variant. -/
theorem Owns.kept {v w : VarId} {others : Multiset BufId} {heap : Heap} {n : VarId}
    (howns : Owns s receiver suspended) (hle : s.nextVariant ≤ n)
    (hothers : variantBuffers s.variants n = (s.variants v).buffers + others) (hv : v < n)
    (hne : w ≠ v) (hkept : ∀ b ∈ others, heap.live b = s.heap.live b) :
    ∀ b ∈ (s.variants w).buffers, heap.live b = s.heap.live b := by
  intro b hb
  refine hkept b (Holdings.mem_others hothers (Finset.mem_range.mpr hv) ?_ hne hb)
  refine Finset.mem_range.mpr ((howns.lt_nextVariant fun hnone => ?_).trans_le hle)
  rw [hnone] at hb
  exact Multiset.notMem_zero b hb

section Steps

variable (h : Contents s receiver arrivals) (howns : Owns s receiver suspended)

include h

theorem Contents.frame (uring : IoUring Cookie) (pc : Pc) :
    Contents { s with uring := uring, pc := pc } receiver arrivals where
  backed := h.backed
  pooled := h.pooled
  described := h.described
  waiting := h.waiting

include howns

/-- A step that exchanges one variant. -/
theorem Contents.exchange {v : VarId} {x : ReqOrHandler A} (more : List (Arrival A))
    (hv : s.variants v ≠ .monostate) (hvariants : s'.variants = Function.update s.variants v x)
    (hnext : s'.nextVariant = s.nextVariant)
    (hbacked : ∀ others,
      variantBuffers s.variants s.nextVariant = (s.variants v).buffers + others →
        Backed s'.heap (poolBuffers s'.requests + (x.buffers + others))
          ∧ ∀ b ∈ others, s'.heap.live b = s.heap.live b)
    (hpooled : ∀ r ∈ s'.requests.objects, r.Sized) (hx : x.Describes s'.heap (arrivals ++ more))
    (hwaiting : (∀ w, w ≠ v → ∀ b ∈ (s.variants w).buffers, s'.heap.live b = s.heap.live b) →
      ∀ a r, (arrivals ++ more)[s'.handlers]? = some a →
        Function.update s.variants v x receiver = .request r → r.Holds s'.heap a) :
    Contents s' receiver (arrivals ++ more) := by
  have hlt := howns.lt_nextVariant hv
  obtain ⟨others, hold, hnew⟩ :=
    Holdings.exchange ReqOrHandler.buffers s.variants (Finset.mem_range.mpr hlt) x
  obtain ⟨hbuffers, hothers⟩ := hbacked others hold
  have hkept : ∀ w, w ≠ v → ∀ b ∈ (s.variants w).buffers, s'.heap.live b = s.heap.live b :=
    fun w hne => howns.kept le_rfl hold hlt hne hothers
  refine
    { backed := ?_
      pooled := hpooled
      described := fun w => ?_
      waiting := fun a r ha hr => hwaiting hkept a r ha (hvariants ▸ hr) }
  · rw [hvariants, hnext, variantBuffers, hnew]
    exact hbuffers
  · rw [hvariants]
    by_cases heq : w = v
    · rwa [heq, Function.update_self]
    · rw [Function.update_of_ne heq]
      exact (h.described w).kept more (hkept w heq)

/-- The kernel fills the buffer of the receiver. -/
theorem Contents.received (uring : IoUring Cookie) (done : RecvDone A)
    (hlength : arrivals.length = s.handlers) :
    Contents (s.received uring receiver done) receiver
      (arrivals ++ [{ done := done, offered := s.offered receiver }]) := by
  obtain ⟨r, hr⟩ := howns.request
  have hsized : r.Sized := by
    have hdescribed := h.described receiver
    rwa [hr] at hdescribed
  obtain ⟨b, hb⟩ := hsized.base
  have hoffered : s.offered receiver = r.iov.len := by simp only [offered, hr]
  rw [hoffered]
  simp only [Executor.received, hr]
  refine h.exchange howns _ (by rw [hr]; rintro ⟨⟩) rfl rfl (fun others hold => ?_) h.pooled ?_
    fun _ a r' ha hr' => ?_
  · have hbuffers : (r.received done).buffers = r.buffers := by
      simp only [Request.buffers, Request.iov_received]
    have hbacked := h.backed
    rw [hold, hr, ReqOrHandler.buffers] at hbacked
    refine ⟨?_, fun c hc => Heap.live_write ?_ 0⟩
    · rw [ReqOrHandler.buffers, hbuffers]
      exact hbacked.write _ _ _
    · rw [add_left_comm] at hbacked
      exact hbacked.base_ne (Multiset.mem_add.mpr (Or.inr hc))
  · cases done <;> exact ⟨hsized.base, hsized.len, hsized.iovlen, hsized.namelen⟩
  · rw [Function.update_self] at hr'
    obtain rfl := ReqOrHandler.request.inj hr'
    obtain rfl : a = { done := done, offered := r.iov.len } := by
      rw [← hlength, List.getElem?_concat_length] at ha
      exact (Option.some.inj ha).symm
    have hsize : s.heap.size (some b) = some 500 := by
      have hbacked := h.backed
      obtain ⟨others, hold, _⟩ := Holdings.exchange ReqOrHandler.buffers s.variants
        (Finset.mem_range.mpr (howns.lt_nextVariant (v := receiver) (by rw [hr]; rintro ⟨⟩)))
        .monostate
      rw [variantBuffers, hold, hr, add_left_comm] at hbacked
      exact hb ▸ hbacked.size_of_sized hsized
    refine ⟨?_, fun src payload hdone => ?_⟩
    · rw [Request.iov_received, hb]
      exact Heap.begins_write hsize ((done.length_payload_le r.iov.len).trans hsized.len)
    · dsimp only at hdone
      rw [hdone]
      rfl

/-- A handler whose send has completed puts its reply into the pool. -/
theorem Contents.resume {cqe : Cqe Cookie} {handler : Handler A} {reply : Request A}
    (hhandler : s.variants cqe.userData.variant = .handler handler)
    (hyielded : handler.pc = .yielded reply) :
    Contents (s.pollReturned cqe) receiver arrivals := by
  obtain ⟨hsized, _⟩ := (hhandler ▸ h.described cqe.userData.variant).2 reply hyielded
  simp only [pollReturned, resumeHandler, hhandler, hyielded]
  rw [← List.append_nil arrivals]
  refine h.exchange howns [] (by rw [hhandler]; rintro ⟨⟩) rfl rfl (fun others hold => ?_) ?_
    ⟨by rintro ⟨⟩, by rintro _ ⟨⟩⟩ fun _ a r ha hr => ?_
  · have hbuffers : (s.variants cqe.userData.variant).buffers
        = handler.request.buffers + reply.buffers := by
      rw [hhandler, ReqOrHandler.buffers, Handler.buffers, hyielded]
      rfl
    have hbacked := h.backed
    rw [hold, hbuffers, add_comm (Request.buffers _), add_assoc (Request.buffers _), add_left_comm,
      ← add_assoc (Request.buffers _), ← poolBuffers_put] at hbacked
    rw [ReqOrHandler.buffers, Handler.buffers]
    exact ⟨by simpa only [HandlerPc.buffers, add_zero] using hbacked, fun _ _ => rfl⟩
  · exact List.forall_mem_append.mpr ⟨h.pooled, List.forall_mem_singleton.mpr hsized⟩
  · rw [List.append_nil] at ha
    rw [Function.update_apply] at hr
    split at hr
    · cases hr
    · exact h.waiting a r ha hr

/-- The handler is entered, and its reply is made. -/
theorem Contents.enter {variant : VarId} {handler : Handler A}
    (hhandler : s.variants variant = .handler handler) (hready : handler.pc = .ready)
    (hnonneg : 0 ≤ handler.lastCqe.res) (hfits : handler.lastCqe.res ≤ 250)
    (hslot : s.uring.HasSlot) : Contents (s.enter variant handler) receiver arrivals := by
  obtain ⟨hsized, a, ha, hres, hholds⟩ := (hhandler ▸ h.described variant).1 hready
  have hlt := howns.lt_nextVariant (v := variant) (by rw [hhandler]; rintro ⟨⟩)
  have hbuffers : (s.variants variant).buffers = handler.request.buffers := by
    rw [hhandler, ReqOrHandler.buffers, Handler.buffers, hready]
    exact add_zero _
  obtain ⟨hbacked, hreply, hpooled, hkept, hanswers⟩ :=
    h.backed.handleSized h.pooled hsized (fun b hb => mem_variantBuffers hlt (hbuffers ▸ hb)) hholds
      hres (hres ▸ hnonneg) (hres ▸ hfits) (rfl : handler.handle s.requests s.heap = _)
  rw [enter_of_slot hslot, ← List.append_nil arrivals]
  refine h.exchange howns [] (by rw [hhandler]; rintro ⟨⟩) rfl rfl (fun others hold => ?_) hpooled
    ⟨by rintro ⟨⟩, fun reply heq => ?_⟩ fun hothers b r hb hr => ?_
  · rw [hold, hbuffers, add_left_comm, ← add_assoc (Request.buffers _),
      add_comm (Request.buffers _)] at hbacked
    refine ⟨hbacked, fun b hb => hkept b ?_⟩
    rw [hold]
    exact Multiset.mem_add.mpr (Or.inr hb)
  · obtain rfl := HandlerPc.yielded.inj heq
    rw [List.append_nil]
    exact ⟨hreply, a, ha, hanswers⟩
  · rw [List.append_nil] at hb
    rw [Function.update_apply] at hr
    split at hr
    · cases hr
    · rename_i hne
      refine (h.waiting b r hb hr).kept ?_
      have hreceiver := hothers receiver hne
      rwa [hr] at hreceiver

/-- The request that was received into goes to a new handler, and the receiver gets another one. -/
theorem Contents.startHandler {cqe : Cqe Cookie} {req : Request A} {a : Arrival A}
    (hpc : s.pc = .polling) (hcookie : cqe.userData.variant = receiver)
    (hreq : s.variants receiver = .request req) (hlength : arrivals.length = s.handlers + 1)
    (ha : arrivals[s.handlers]? = some a) (hres : cqe.res = a.res) :
    Contents (s.pollReturned cqe) receiver arrivals := by
  obtain ⟨hne, hnewLt, _⟩ := howns.taken_ne_receiver hpc rfl
  obtain ⟨_, _, hle⟩ := howns.takeVariant hpc rfl
  have hreqSized : req.Sized := by
    have hdescribed := h.described receiver
    rwa [hreq] at hdescribed
  rw [howns.pollReturned_receive hpc hcookie hreq]
  generalize hhandler : newHandler s cqe req = handler
  have hx : (ReqOrHandler.handler handler).buffers = req.buffers := by
    rw [← hhandler]
    exact add_zero _
  obtain ⟨others, hbefore, hafter⟩ := howns.exchange_receive hpc rfl hreq hx
  generalize s.reqOrHandlerPool.get newReqOrHandler s.nextVariant = new
    at hne hnewLt hle hbefore hafter ⊢
  have hbacked := h.backed
  rw [← variantBuffers_of_le hle howns.unmade, hbefore, add_left_comm] at hbacked
  have hdestroyed : ∀ b ∈ others,
      ((s.variants new.1).destroy s.heap).live b = s.heap.live b := fun b hb =>
    hbacked.live_destroy (Multiset.mem_add.mpr (Or.inr hb))
  obtain ⟨hgot, hgotSized, hpooled, hkept⟩ := hbacked.destroy.getSized h.pooled rfl
  dsimp only
  generalize s.requests.get newRequest _ = got at hgot hgotSized hpooled hkept ⊢
  have hothers : ∀ w, w ≠ new.1 → ∀ b ∈ (s.variants w).buffers,
      got.2.2.live b = s.heap.live b := fun w hw =>
    howns.kept hle hbefore hnewLt hw fun b hb => (hkept b hb).trans (hdestroyed b hb)
  refine
    { backed := ?_
      pooled := hpooled
      described := fun v => ?_
      waiting := fun b r hb _ => ?_ }
  · rw [hafter, add_left_comm]
    exact hgot
  · dsimp only
    by_cases hv₀ : v = receiver
    · rw [hv₀, Function.update_self]
      exact hgotSized
    rw [Function.update_of_ne hv₀]
    by_cases hv₁ : v = new.1
    · rw [hv₁, Function.update_self, ← hhandler]
      refine ⟨fun _ => ⟨hreqSized, a, ha, hres, (h.waiting a req ha hreq).kept ?_⟩, by rintro _ ⟨⟩⟩
      have hreceiver := hothers receiver hne.symm
      rwa [hreq] at hreceiver
    · rw [Function.update_of_ne hv₁, ← List.append_nil arrivals]
      exact (h.described v).kept [] (hothers v hv₁)
  · have hlt : s.handlers + 1 < arrivals.length := (List.getElem?_eq_some_iff.mp hb).1
    omega

end Steps

end Contents

/-! ### Runs -/

/-- What the loop has done with the receives so far. -/
structure RepliesIntact (s : Executor A) (arrivals : List (Arrival A)) : Prop where
  /-- every completed receive the loop has got was answered, once and in order -/
  replied : s.pc = .polling → s.replied = List.range s.handlers
  /-- at most one completed receive is waiting for the loop -/
  arrived : s.pc = .polling → arrivals.length = s.handlers ∨ arrivals.length = s.handlers + 1
  /-- a message that the kernel has to send is the reply to its receive -/
  intact : s.pc ≠ .threw → ∀ v n, (⟨v, .send n⟩ : Cookie) ∈ s.uring.outstanding →
    ∃ h reply a, s.variants v = .handler h ∧ h.pc = .yielded reply ∧ arrivals[n]? = some a
      ∧ reply.Answers s.heap a

structure Serves (arrivals : List (Arrival A)) (s : Executor A) : Prop where
  slots : Slots s 0
  counts : Counts s arrivals
  contents : Contents s 0 arrivals

theorem Serves.intact {arrivals : List (Arrival A)} (h : Serves arrivals s) :
    RepliesIntact s arrivals where
  replied hpc := by
    have hreplied := h.counts.replied
    rwa [hpc] at hreplied
  arrived _ := by
    by_cases hnone : ∀ c ∈ s.uring.cq, c.userData.op ≠ .recv
    · exact Or.inl (h.counts.fresh hnone)
    · push Not at hnone
      obtain ⟨c, hc, hrecv⟩ := hnone
      exact Or.inr (h.counts.posted c hc hrecv).1
  intact hpc v n hmem := by
    obtain ⟨suspended, howns⟩ := h.slots.owns hpc
    rw [howns.outstanding, Multiset.mem_add] at hmem
    rcases hmem with hmem | hmem
    · split at hmem
      · cases Multiset.mem_singleton.mp hmem
      · exact absurd hmem (Multiset.notMem_zero _)
    · obtain ⟨p, hp, heq⟩ := Multiset.mem_map.mp hmem
      obtain ⟨rfl, hn⟩ := Cookie.mk.inj heq
      obtain rfl := Op.send.inj hn
      obtain ⟨handler, hhandler, hnumber, _, reply, hreply⟩ := howns.yielded p hp
      obtain ⟨_, a, ha, hanswers⟩ := (hhandler ▸ h.contents.described p.1).2 reply hreply
      exact ⟨handler, reply, a, hhandler, hreply, hnumber ▸ ha, hanswers⟩

theorem step_threw {e : Event A} (h : s.pc = .threw) (hstep : s.step e = some s') :
    s'.pc = .threw := by
  rcases step_cases hstep with ⟨_, _, _, rfl⟩ | ⟨_, _, _, _, _, rfl⟩ | ⟨_, hpc, _⟩ | ⟨hpc, _⟩ |
    ⟨_, _, hpc, _⟩ | ⟨_, _, _, hpc, _⟩
  · exact h
  · rwa [pc_received]
  all_goals cases h.symm.trans hpc

theorem append_arrival_of_none {arrivals : List (Arrival A)} {e : Event A}
    (h : s.arrival e = none) : arrivals ++ (s.arrival e).toList = arrivals := by
  rw [h, Option.toList_none, List.append_nil]

theorem arrival_recvDone {i : Nat} {done : RecvDone A} {sqe : Sqe Cookie}
    (hsqe : s.uring.inKernel[i]? = some sqe) : s.arrival (.recvDone i done)
      = some { done := done, offered := s.offered sqe.userData.variant } := by
  rw [arrival, hsqe, Option.map_some]

theorem step_serves {arrivals : List (Arrival A)} {e : Event A} (h : Serves arrivals s)
    (hthrew : s.pc ≠ .threw) (hok : ReceivesFit s e) (hstep : s.step e = some s') :
    s'.pc = .threw ∨ Serves (arrivals ++ (s.arrival e).toList) s' := by
  obtain ⟨suspended, howns⟩ := h.slots.owns hthrew
  have hslots := step_slots h.slots hstep
  cases e with
  | consume =>
      obtain ⟨uring, huring, rfl⟩ := Option.map_eq_some_iff.mp hstep
      rw [append_arrival_of_none rfl]
      exact Or.inr ⟨hslots, h.counts.consume huring, h.contents.frame uring s.pc⟩
  | recvDone i done =>
      simp only [step] at hstep
      split at hstep
      · rename_i sqe hsqe
        split at hstep
        · rename_i hopcode
          obtain ⟨uring, huring, rfl⟩ := Option.map_eq_some_iff.mp hstep
          have hmem : sqe ∈ s.uring.held := List.mem_append_right _ (List.mem_of_getElem? hsqe)
          have hop := (h.counts.kinds sqe hmem).mp hopcode
          have hcookie : sqe.userData = ⟨0, .recv⟩ := by
            refine howns.variant_recv (Multiset.mem_add.mpr (Or.inl ?_)) hop
            exact Multiset.mem_coe.mpr (List.mem_map_of_mem hmem)
          have hlength := h.counts.fresh (howns.not_posted hmem hop)
          rw [arrival_recvDone hsqe, Option.toList_some]
          rw [hcookie] at huring hslots ⊢
          exact Or.inr ⟨hslots, h.counts.recvDone howns hsqe hcookie hlength huring,
            h.contents.received howns uring done hlength⟩
        · cases hstep
      · cases hstep
  | sendDone i res =>
      simp only [step] at hstep
      split at hstep
      · rename_i sqe hsqe
        split at hstep
        · rename_i hopcode
          obtain ⟨uring, huring, rfl⟩ := Option.map_eq_some_iff.mp hstep
          rw [append_arrival_of_none rfl]
          exact Or.inr ⟨hslots, h.counts.sendDone hsqe hopcode huring,
            h.contents.frame uring s.pc⟩
        · cases hstep
      · cases hstep
  | poll =>
      simp only [step] at hstep
      split at hstep
      · rename_i hpc
        obtain ⟨cqe, hpeek, rfl⟩ := Option.map_eq_some_iff.mp hstep
        rw [append_arrival_of_none rfl]
        right
        rcases howns.polled hpc hpeek with ⟨hcookie, req, hreq⟩ |
          ⟨p, _, hcookie, handler, reply, hhandler, _, hreply⟩
        · rw [hcookie] at hreq
          have hcq : cqe ∈ s.uring.cq := IoUring.cons_of_peek hpeek ▸ List.mem_cons_self
          obtain ⟨hlength, a, ha, hres⟩ := h.counts.posted cqe hcq (by rw [hcookie])
          exact ⟨hslots, h.counts.startHandler howns hpc hpeek hcookie hreq,
            h.contents.startHandler howns hpc (by rw [hcookie]) hreq hlength ha hres⟩
        · exact ⟨hslots,
            h.counts.resume hpc hpeek (by rw [hcookie]; rintro ⟨⟩) hhandler hreply,
            h.contents.resume howns hhandler hreply⟩
      · cases hstep
  | pollThrows =>
      simp only [step] at hstep
      split at hstep
      · obtain rfl := Option.some.inj hstep
        exact Or.inl rfl
      · cases hstep
  | recvmsg =>
      simp only [step] at hstep
      split at hstep
      · rename_i variant handler hpc
        obtain rfl := Option.some.inj hstep
        rw [append_arrival_of_none rfl]
        have hslot := h.slots.hasSlot_arming hpc
        refine Or.inr ⟨hslots, h.counts.recvmsg hslot hpc, ?_⟩
        rw [recvmsg_of_slot hslot]
        exact h.contents.frame _ _
      · cases hstep
  | enter =>
      simp only [step] at hstep
      split at hstep
      · rename_i variant hpc
        split at hstep
        · rename_i handler hhandler
          obtain rfl := Option.some.inj hstep
          rw [append_arrival_of_none rfl]
          have hslot := h.slots.hasSlot_entering hpc
          obtain ⟨_, hfound, _, hready⟩ := howns.ready variant
            (by rw [hpc]; exact Multiset.mem_singleton_self variant)
          obtain rfl := ReqOrHandler.handler.inj (hhandler.symm.trans hfound)
          obtain ⟨hnonneg, hfits⟩ := hok handler (entered_eq hpc hhandler)
          exact Or.inr ⟨hslots, h.counts.enter hslot hpc hhandler,
            h.contents.enter howns hhandler hready hnonneg hfits hslot⟩
        · cases hstep
      · cases hstep

/-- **Each datagram is answered with its own bytes.** In every run whose handlers are entered with
at most half a buffer received, whatever the kernel completes and in whatever order, the loop has
submitted one send for each receive it has found completed, in their order. As long as a send is in
flight, its message goes to the sender of its receive and consists of what was received, twice. -/
theorem repliesIntact (capacity : Nat) (fits : 8 + capacity < 2 ^ 64) {es : List (Event A)}
    {s : Executor A} (h : Along step ReceivesFit (init capacity fits) es)
    (hrun : run step (init capacity fits) es = some s) :
    RepliesIntact s (trace step arrival (init capacity fits) es) := by
  have hserves : s.pc = .threw ∨ Serves ([] ++ trace step arrival (init capacity fits) es) s := by
    refine h.traced (J := fun arrivals s => s.pc = .threw ∨ Serves arrivals s) (Or.inr ?_)
      (fun arrivals s e s' hserves hok hstep => ?_) hrun
    · exact ⟨slots_init capacity fits, counts_init capacity fits, contents_init capacity fits⟩
    · by_cases hthrew : s.pc = .threw
      · exact Or.inl (step_threw hthrew hstep)
      · exact step_serves (hserves.resolve_left hthrew) hthrew hok hstep
  rw [List.nil_append] at hserves
  rcases hserves with hthrew | hserves
  · exact ⟨fun hpc => (nomatch hthrew.symm.trans hpc), fun hpc => (nomatch hthrew.symm.trans hpc),
      fun hpc => absurd hthrew hpc⟩
  · exact hserves.intact

/-- Two requests are being answered, and the reply to the second is sent first. -/
def crossedReplies : List (Event Nat) :=
  [.recvmsg, .consume, .recvDone 0 (.datagram 7 [1, 2]), .poll, .recvmsg, .enter,
    .consume, .consume, .recvDone 0 (.datagram 8 [3]), .poll, .recvmsg, .enter,
    .consume, .consume, .sendDone 2 2]

theorem repliesIntact_crossedReplies : ∃ s,
    run step (init 8 (by decide)) crossedReplies = some s ∧
      RepliesIntact s
        [{ done := .datagram 7 [1, 2], offered := 500 },
          { done := .datagram 8 [3], offered := 500 }] := by
  have hsome : (run step (init 8 (by decide)) crossedReplies).isSome := by decide
  obtain ⟨s, hrun⟩ := Option.isSome_iff_exists.mp hsome
  have htrace : trace step arrival (init 8 (by decide)) crossedReplies
      = [{ done := .datagram 7 [1, 2], offered := 500 },
        { done := .datagram 8 [3], offered := 500 }] := rfl
  exact ⟨s, hrun, htrace ▸ repliesIntact 8 (by decide) (by decide +kernel) hrun⟩

end Executor

end Hnet.Netring
