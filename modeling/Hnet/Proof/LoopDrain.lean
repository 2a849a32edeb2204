import Hnet.Proof.MemoryBound
import Hnet.Proof.RepliesIntact

/-!
# `dispatch_loop` gets every reply out

As long as every receive is one that a handler can answer, the loop and the kernel can finish what
they have begun: every receive that has completed gets its handler, every handler sends its reply
and exits, and the loop is left with its one receive in the kernel. A step on the way uses up some
of the work that is left. The receive that is armed for each handler is a part of that work, but
nothing is, once it waits in the kernel.
-/

namespace Hnet.Netring

open Lts

variable {A : Type}

/-! ### The work that is left -/

namespace Op

def opcode : Op → Opcode
  | .recv => .recvmsg
  | .send _ => .sendmsg

/-- The steps in front of an operation that the kernel works on. A receive may stay there. -/
def startedWork : Op → Nat
  | .recv => 0
  | .send _ => 2

/-- Those in front of one that has been posted. Behind a receive there is a whole handler. -/
def postedWork : Op → Nat
  | .recv => 9
  | .send _ => 1

@[simp]
theorem startedWork_send (n : Nat) : startedWork (.send n) = 2 := rfl

@[simp]
theorem postedWork_send (n : Nat) : postedWork (.send n) = 1 := rfl

theorem startedWork_le (op : Op) : op.startedWork ≤ 2 := by
  cases op <;> simp [startedWork]

end Op

def Pc.work : Pc → Nat
  | .arming _ (some _) => 8
  | .arming _ none | .entering _ => 4
  | .polling | .threw | .panicked | .nullSqe | .lost => 0

namespace Executor

variable {s s' : Executor A} {receiver : VarId} {suspended : Multiset (VarId × Nat)}

def ringWork (uring : IoUring Cookie) : Nat :=
  3 * uring.queued.length
    + (uring.inKernel.map fun sqe => sqe.userData.op.startedWork).sum
    + (uring.cq.map fun cqe => cqe.userData.op.postedWork).sum

def work (s : Executor A) : Nat := ringWork s.uring + s.pc.work

section Ring

variable {r r' : IoUring Cookie}

theorem ringWork_consume (h : r.kernel .consume = some r') : ringWork r' < ringWork r := by
  rcases IoUring.kernel_cases h with ⟨sqe, hqueued, _, _, hkernel, _, hcq⟩ |
    ⟨_, _, _, hhead, _⟩
  · have hle := sqe.userData.op.startedWork_le
    simp only [ringWork, hqueued, hkernel, hcq, List.map_append, List.sum_append, List.map_cons,
      List.map_nil, List.sum_cons, List.sum_nil, List.length_cons]
    omega
  · simp only [IoUring.kernel, IoUring.consume] at h
    split at h
    · obtain rfl := Option.some.inj h
      exact absurd hhead (Nat.succ_ne_self _)
    · cases h

/-- A send that completes has only its handler left to go on. -/
theorem ringWork_complete {i n : Nat} {res : Int} {sqe : Sqe Cookie}
    (hsqe : r.inKernel[i]? = some sqe) (hop : sqe.userData.op = .send n)
    (h : r.kernel (.complete i res) = some r') : ringWork r' < ringWork r := by
  obtain ⟨hlt, hget⟩ := List.getElem?_eq_some_iff.mp hsqe
  simp only [IoUring.kernel, IoUring.complete, dif_pos hlt] at h
  obtain rfl := Option.some.inj h
  have hsum := ((List.getElem_cons_eraseIdx_perm hlt).map
    fun sqe => sqe.userData.op.startedWork).sum_eq
  rw [List.map_cons, List.sum_cons, hget, hop, Op.startedWork_send] at hsum
  simp only [ringWork, IoUring.queued, IoUring.cq, List.drop_append_of_le_length r.cqHead_le,
    List.map_append, List.sum_append, List.map_cons, List.map_nil, List.sum_cons, List.sum_nil,
    hget, hop, Op.postedWork_send]
  omega

theorem ringWork_queue {sqe : Sqe Cookie} (hslot : r.HasSlot) :
    ringWork (r.queue sqe hslot).submit = ringWork r + 3 := by
  have hqueued : (r.queue sqe hslot).submit.queued.length = r.queued.length + 1 := by
    change (r.queue sqe hslot).queued.length = _
    rw [IoUring.queued_queue hslot, List.length_append, List.length_singleton]
  rw [ringWork, ringWork, hqueued]
  change 3 * (r.queued.length + 1) + (r.inKernel.map _).sum + (r.cq.map _).sum = _
  omega

theorem ringWork_peek {cqe : Cqe Cookie} (hpeek : r.peek = some cqe) :
    ringWork (r.advance 1) + cqe.userData.op.postedWork = ringWork r := by
  rw [ringWork, ringWork, IoUring.cons_of_peek hpeek, List.map_cons, List.sum_cons]
  change 3 * r.queued.length + (r.inKernel.map _).sum + _ + _ = _
  omega

end Ring

/-! ### Steps that finish what has begun -/

/-- The step begins nothing new, and nothing fails in it. -/
def Finishes : Event A → Prop
  | .recvDone _ _ | .pollThrows => False
  | .sendDone _ res => 0 ≤ res
  | .consume | .poll | .recvmsg | .enter => True

/-- The loop is in `poll_cookie` without a handler, and its receive is with the kernel. -/
structure AtRest (s : Executor A) : Prop where
  pc : s.pc = .polling
  finished : s.inProgress = 0
  queued : s.uring.queued = []
  posted : s.uring.cq = []
  receiving : ∃ variant, s.uring.inKernel.map Sqe.userData = [⟨variant, .recv⟩]

/-- What the operations are is in their cookies, and each is published at once. -/
structure Marked (s : Executor A) : Prop where
  slots : Slots s 0
  opcode : ∀ sqe ∈ s.uring.held, sqe.opcode = sqe.userData.op.opcode
  published : s.uring.ktail = s.uring.sqes.length
  room : 2 ≤ s.uring.capacity

theorem marked_init (capacity : Nat) (fits : 8 + capacity < 2 ^ 64) (hroom : 2 ≤ capacity) :
    Marked (init capacity fits : Executor A) where
  slots := slots_init capacity fits
  opcode sqe hsqe := by cases hsqe
  published := rfl
  room := hroom

theorem Marked.kernel {k : KernelEvent} (h : Marked s) (hslots : Slots s' 0)
    (hkernel : s.uring.kernel k = some s'.uring) : Marked s' := by
  obtain ⟨_, hsqes, htail, _⟩ := IoUring.kernel_frame hkernel
  refine ⟨hslots, fun sqe hsqe => h.opcode sqe (IoUring.mem_held_of_kernel hkernel hsqe), ?_, ?_⟩
  · rw [htail, hsqes]
    exact h.published
  · rw [IoUring.kernel_capacity hkernel]
    exact h.room

theorem Marked.queue (h : Marked s) (cookie : Cookie) (hslots : Slots s' 0)
    (hslot : s.uring.HasSlot)
    (huring : s'.uring = (s.uring.queue (cookieSqe cookie.op.opcode cookie) hslot).submit) :
    Marked s' := by
  refine ⟨hslots, fun sqe hsqe => ?_, ?_, ?_⟩
  · rw [huring, IoUring.held_submit] at hsqe
    rcases (IoUring.mem_held_queue hslot).mp hsqe with rfl | hsqe
    · rfl
    · exact h.opcode sqe hsqe
  · rw [huring]
    rfl
  · rw [huring]
    exact h.room

theorem step_marked {e : Event A} (h : Marked s) (hstep : s.step e = some s') : Marked s' := by
  have hslots := step_slots h.slots hstep
  rcases step_cases hstep with ⟨_, uring, hkernel, rfl⟩ | ⟨_, uring, variant, done, hkernel, rfl⟩ |
    ⟨_, _, cqe, _, rfl⟩ | ⟨_, rfl⟩ | ⟨variant, handler, hpc, rfl⟩ |
    ⟨_, variant, handler, hpc, _, rfl⟩
  · exact h.kernel hslots hkernel
  · exact h.kernel hslots (by rw [uring_received]; exact hkernel)
  · refine ⟨hslots, ?_, ?_, ?_⟩ <;> rw [uring_pollReturned]
    · exact h.opcode
    · exact h.published
    · exact h.room
  · exact ⟨hslots, h.opcode, h.published, h.room⟩
  · have hslot := h.slots.hasSlot_arming hpc
    exact h.queue ⟨variant, .recv⟩ hslots hslot (by rw [recvmsg_of_slot hslot]; rfl)
  · have hslot := h.slots.hasSlot_entering hpc
    exact h.queue ⟨handler.cookie, .send handler.number⟩ hslots hslot
      (by rw [enter_of_slot hslot]; rfl)

/-! ### There is always a step on the way -/

/-- A step of the loop or the kernel that finishes something. -/
def Progress (s : Executor A) : Prop :=
  ∃ e s', Finishes e ∧ s.step e = some s' ∧ s'.pc ≠ .threw ∧ s'.work < s.work

section Progress

variable (h : Marked s)

include h

theorem Marked.progress_arming {variant : VarId} {handler : Option VarId}
    (hpc : s.pc = .arming variant handler) : s.Progress := by
  have hslot := h.slots.hasSlot_arming hpc
  have hstep : s.step .recvmsg = some (s.recvmsg variant handler) := by
    simp only [step, hpc]
  refine ⟨.recvmsg, _, trivial, hstep, ?_, ?_⟩
  · rw [recvmsg_of_slot hslot]
    cases handler <;> rintro ⟨⟩
  · rw [recvmsg_of_slot hslot, work, work, ringWork_queue, hpc]
    cases handler <;> simp [Pc.work]

theorem Marked.progress_entering {variant : VarId} (howns : Owns s receiver suspended)
    (hpc : s.pc = .entering variant) : s.Progress := by
  have hslot := h.slots.hasSlot_entering hpc
  obtain ⟨handler, hhandler, _⟩ := howns.ready variant
    (by rw [hpc]; exact Multiset.mem_singleton_self variant)
  have hstep : s.step .enter = some (s.enter variant handler) := by
    simp only [step, hpc, hhandler]
  refine ⟨.enter, _, trivial, hstep, ?_, ?_⟩
  · rw [enter_of_slot hslot]
    rintro ⟨⟩
  · rw [enter_of_slot hslot, work, work, ringWork_queue, hpc]
    simp [Pc.work]

omit h in
theorem Owns.progress_posted (howns : Owns s receiver suspended) (hpc : s.pc = .polling)
    (hposted : s.uring.cq ≠ []) : s.Progress := by
  obtain ⟨cqe, rest, hcq⟩ := List.exists_cons_of_ne_nil hposted
  have hpeek : s.uring.peek = some cqe := by
    rw [IoUring.peek, hcq, List.head?_cons]
  have hwork := ringWork_peek hpeek
  have hstep : s.step .poll = some (s.pollReturned cqe) := by
    simp only [step, hpc, hpeek, Option.map_some]
  refine ⟨.poll, _, trivial, hstep, ?_⟩
  rw [work, work, uring_pollReturned, hpc]
  rcases howns.polled hpc hpeek with ⟨hcookie, req, hreq⟩ |
    ⟨p, _, hcookie, handler, reply, hhandler, _, hreply⟩
  · rw [pc_pollReturned_of_request hreq]
    rw [hcookie, Op.postedWork] at hwork
    exact ⟨by rintro ⟨⟩, by simp only [Pc.work]; omega⟩
  · rw [pc_pollReturned_of_yielded hhandler hreply]
    rw [hcookie, sendCookie, Op.postedWork_send] at hwork
    exact ⟨by rintro ⟨⟩, by omega⟩

theorem Marked.progress_sending {sqe : Sqe Cookie} (hlive : s.pc ≠ .threw)
    (hsqe : sqe ∈ s.uring.inKernel) (hop : sqe.userData.op ≠ .recv) : s.Progress := by
  obtain ⟨i, hi⟩ := List.getElem?_of_mem hsqe
  obtain ⟨n, hn⟩ : ∃ n, sqe.userData.op = .send n := by
    cases hcase : sqe.userData.op with
    | recv => exact absurd hcase hop
    | send n => exact ⟨n, rfl⟩
  have hopcode : sqe.opcode = .sendmsg := by
    rw [h.opcode sqe (List.mem_append_right _ hsqe), hn]
    rfl
  obtain ⟨uring, huring⟩ :=
    IoUring.complete_enabled (List.getElem?_eq_some_iff.mp hi).1 0
  have hstep : s.step (.sendDone i 0) = some { s with uring := uring } := by
    change s.uring.complete i 0 = some uring at huring
    simp only [step, hi, hopcode, if_true, huring, Option.map_some]
  exact ⟨.sendDone i 0, _, le_rfl, hstep, hlive,
    Nat.add_lt_add_right (ringWork_complete hi hn huring) _⟩

theorem Marked.progress_queued (hlive : s.pc ≠ .threw) (hqueued : s.uring.queued ≠ [])
    (hroom : s.uring.inKernel.length + s.uring.cq.length < s.uring.capacity) : s.Progress := by
  have hpublished : s.uring.khead < s.uring.ktail := by
    rw [h.published]
    have hpos := List.length_pos_of_ne_nil hqueued
    rw [IoUring.queued, List.length_drop] at hpos
    omega
  obtain ⟨uring, huring⟩ := IoUring.consume_enabled hpublished hroom
  have hstep : s.step .consume = some { s with uring := uring } := by
    change s.uring.consume = some uring at huring
    simp only [step, huring, Option.map_some]
  exact ⟨.consume, _, trivial, hstep, hlive, Nat.add_lt_add_right (ringWork_consume huring) _⟩

end Progress

/-- There is one receive. -/
theorem Owns.length_inKernel_le (h : Owns s receiver suspended) (hpc : s.pc = .polling)
    (hrecv : ∀ sqe ∈ s.uring.inKernel, sqe.userData.op = .recv) :
    s.uring.inKernel.length ≤ 1 := by
  have hle : ((s.uring.inKernel.map Sqe.userData : List Cookie) : Multiset Cookie)
      ≤ s.uring.outstanding := by
    rw [IoUring.outstanding, IoUring.held, List.map_append, ← Multiset.coe_add]
    exact (Multiset.le_add_left _ _).trans (Multiset.le_add_right _ _)
  have hall : ∀ c ∈ ((s.uring.inKernel.map Sqe.userData : List Cookie) : Multiset Cookie),
      c.op = .recv := by
    intro c hc
    obtain ⟨sqe, hsqe, rfl⟩ := List.mem_map.mp (Multiset.mem_coe.mp hc)
    exact hrecv sqe hsqe
  have hfilter := Multiset.filter_le_filter (fun c : Cookie => c.op = .recv) hle
  rw [h.filter_recv hpc, Multiset.filter_eq_self.mpr hall] at hfilter
  simpa using Multiset.card_le_card hfilter

theorem Owns.atRest (h : Owns s receiver suspended) (hpc : s.pc = .polling)
    (hposted : s.uring.cq = []) (hqueued : s.uring.queued = [])
    (hrecv : ∀ sqe ∈ s.uring.inKernel, sqe.userData.op = .recv) : s.AtRest := by
  have houtstanding := h.outstanding_polling hpc
  rw [IoUring.outstanding, IoUring.held, hqueued, hposted, List.nil_append, List.map_nil,
    Multiset.coe_nil, add_zero] at houtstanding
  have hnone : suspended = 0 := by
    refine Multiset.eq_zero_of_forall_notMem fun p hp => ?_
    have hmem : sendCookie p ∈ s.uring.inKernel.map Sqe.userData := by
      rw [← Multiset.mem_coe, houtstanding]
      exact Multiset.mem_cons_of_mem (Multiset.mem_map_of_mem sendCookie hp)
    obtain ⟨sqe, hsqe, heq⟩ := List.mem_map.mp hmem
    have hop := hrecv sqe hsqe
    rw [heq] at hop
    cases hop
  refine ⟨hpc, ?_, hqueued, hposted, receiver, ?_⟩
  · rw [h.inProgress_eq, hpc, hnone]
    rfl
  · rw [hnone] at houtstanding
    exact Multiset.coe_eq_singleton.mp houtstanding

theorem Marked.progress (h : Marked s) (hlive : s.pc ≠ .threw) (hbusy : ¬ s.AtRest) :
    s.Progress := by
  obtain ⟨suspended, howns⟩ := h.slots.owns hlive
  rcases howns.pc with hpc | ⟨handler, hpc⟩ | ⟨v, hpc⟩
  · by_cases hposted : s.uring.cq = []
    · by_cases hrecv : ∀ sqe ∈ s.uring.inKernel, sqe.userData.op = .recv
      · by_cases hqueued : s.uring.queued = []
        · exact absurd (howns.atRest hpc hposted hqueued hrecv) hbusy
        · have hle := howns.length_inKernel_le hpc hrecv
          have hroom := h.room
          refine h.progress_queued hlive hqueued ?_
          rw [hposted, List.length_nil]
          omega
      · push Not at hrecv
        obtain ⟨sqe, hsqe, hop⟩ := hrecv
        exact h.progress_sending hlive hsqe hop
    · exact howns.progress_posted hpc hposted
  · exact h.progress_arming hpc
  · exact h.progress_entering howns hpc

/-! ### Receives that can be answered -/

/-- It has not failed, and has filled at most half of a buffer. -/
def Short (a : Arrival A) : Prop := 0 ≤ a.res ∧ a.res ≤ 250

instance (a : Arrival A) : Decidable (Short a) :=
  inferInstanceAs (Decidable (0 ≤ a.res ∧ a.res ≤ 250))

/-- The kernel completes a receive with what a handler can answer. -/
def ArrivesShort (s : Executor A) (e : Event A) : Prop := ∀ a ∈ s.arrival e, Short a

instance (s : Executor A) (e : Event A) : Decidable (ArrivesShort s e) :=
  inferInstanceAs (Decidable (∀ a ∈ s.arrival e, Short a))

/-- The loop serves the receives so far, all of which can be answered. -/
def ServesShort (s : Executor A) : Prop :=
  ∃ arrivals : List (Arrival A), Serves arrivals s ∧ ∀ a ∈ arrivals, Short a

theorem ServesShort.receivesFit (h : ServesShort s) (hlive : s.pc ≠ .threw) (e : Event A) :
    ReceivesFit s e := by
  cases e with
  | enter =>
      intro handler hentered
      obtain ⟨arrivals, hserves, hshort⟩ := h
      obtain ⟨suspended, howns⟩ := hserves.slots.owns hlive
      rcases howns.pc with hpc | ⟨waiting, hpc⟩ | ⟨variant, hpc⟩
      · simp only [entered, hpc] at hentered
        cases hentered
      · simp only [entered, hpc] at hentered
        cases hentered
      · obtain ⟨h, hhandler, _, hready⟩ := howns.ready variant
          (by rw [hpc]; exact Multiset.mem_singleton_self variant)
        rw [entered_eq hpc hhandler] at hentered
        obtain rfl := Option.some.inj hentered
        -- what its receive has brought is among the arrivals
        have hdescribed := hserves.contents.described variant
        rw [hhandler] at hdescribed
        obtain ⟨_, a, ha, hres, _⟩ := hdescribed.1 hready
        rw [hres]
        exact hshort a (List.mem_of_getElem? ha)
  | consume | recvDone _ _ | sendDone _ _ | poll | pollThrows | recvmsg => trivial

theorem step_servesShort {e : Event A} (h : ServesShort s) (hlive : s.pc ≠ .threw)
    (hok : ArrivesShort s e) (hstep : s.step e = some s') :
    s'.pc = .threw ∨ ServesShort s' := by
  have hfit := h.receivesFit hlive e
  obtain ⟨arrivals, hserves, hshort⟩ := h
  refine (step_serves hserves hlive hfit hstep).imp_right fun hserves' => ⟨_, hserves', ?_⟩
  exact List.forall_mem_append.mpr ⟨hshort, fun a ha => hok a (Option.mem_toList.mp ha)⟩

theorem Finishes.arrivesShort {e : Event A} (h : Finishes e) : ArrivesShort s e := by
  cases e with
  | recvDone i done => exact absurd h id
  | consume | sendDone _ _ | poll | pollThrows | recvmsg | enter =>
      intro a ha
      cases ha

/-- **`dispatch_loop` gets every reply out.** After every run whose receives can be answered and in
which `poll_cookie` has not thrown, the loop and the kernel can go on, without another receive and
without a failure, until every handler has finished, nothing is queued or posted and the receive is
with the kernel. Each handler on the way is entered with a receive that can be answered. -/
theorem comesToRest_loop (capacity : Nat) (fits : 8 + capacity < 2 ^ 64) (hroom : 2 ≤ capacity)
    {es : List (Event A)} {s : Executor A}
    (hshort : Along step ArrivesShort (init capacity fits) es)
    (hrun : run step (init capacity fits) es = some s) (hlive : s.pc ≠ .threw) :
    ∃ es' s', Along step (fun s e => Finishes e ∧ ReceivesFit s e) s es' ∧ run step s es' = some s'
      ∧ s'.AtRest := by
  have hserves : Throughout step (fun s => Marked s ∧ (s.pc = .threw ∨ ServesShort s))
      (init capacity fits : Executor A) es := by
    refine hshort.throughout ⟨marked_init capacity fits hroom, Or.inr ⟨[], ?_, by rintro _ ⟨⟩⟩⟩ ?_
    · exact ⟨slots_init capacity fits, counts_init capacity fits, contents_init capacity fits⟩
    · rintro s e s' ⟨hmarked, hserves⟩ hok hstep
      refine ⟨step_marked hmarked hstep, ?_⟩
      by_cases hthrew : s.pc = .threw
      · exact Or.inl (step_threw hthrew hstep)
      · exact step_servesShort (hserves.resolve_left hthrew) hthrew hok hstep
  obtain ⟨hmarked, hstate⟩ := hserves.last hrun
  refine drains (P := fun s => Marked s ∧ s.pc ≠ .threw ∧ ServesShort s) work
    (fun s h hbusy => ?_) ⟨hmarked, hlive, hstate.resolve_left hlive⟩
  obtain ⟨hmarked, hlive, hshort⟩ := h
  obtain ⟨e, s', hok, hstep, hlive', hlt⟩ := hmarked.progress hlive hbusy
  have hserves' := step_servesShort hshort hlive hok.arrivesShort hstep
  refine ⟨[e], s', fun _ _ => ⟨⟨hok, hshort.receivesFit hlive e⟩, trivial⟩, ?_,
    ⟨step_marked hmarked hstep, hlive', hserves'.resolve_left hlive'⟩, hlt⟩
  rw [run_cons, hstep]
  rfl

/-- The loop is about to enter the handler of a second request, and the first one waits for its
send. -/
theorem comesToRest_twoRequests : ∃ s,
    run step (init 8 (by decide)) (twoRequests.take 11) = some s ∧ s.inProgress = 2 ∧
      ∃ es' s', Along step (fun s e => Finishes e ∧ ReceivesFit s e) s es'
        ∧ run step s es' = some s' ∧ s'.AtRest := by
  have hbusy : (run step (init 8 (by decide)) (twoRequests.take 11)).map
      (fun s => (s.pc, s.inProgress)) = some (.entering 2, 2) := by decide +kernel
  obtain ⟨s, hrun, hs⟩ := Option.map_eq_some_iff.mp hbusy
  obtain ⟨hpc, hcount⟩ := Prod.mk.inj hs
  exact ⟨s, hrun, hcount, comesToRest_loop 8 (by decide) (by decide) (by decide +kernel) hrun
    (by rw [hpc]; rintro ⟨⟩)⟩

end Executor

end Hnet.Netring
