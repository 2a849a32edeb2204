import Hnet.Holdings
import Hnet.Proof.NoLostWakeup
import Hnet.Proof.SlotSharing

/-!
# The fibers can always be brought to rest

On a ring with more slots than fibers every call that has begun can be finished: whatever has
happened so far, some steps of the kernel, of the poller and of the fibers lead to a state in which
all fibers are idle and nothing is pending. The one way to get stuck is a `TryPoll` that sleeps in
`io_uring_wait_cqe` while the kernel has nothing to post.

Each of those steps uses up some of the work that is left: a request is queued, consumed, posted and
dispatched, and its fiber goes on behind it.
-/

namespace Hnet

/-! ### The work that is left -/

namespace IoUring

variable {U : Type} {r r' : IoUring U}

/-- The steps that the requests have in front of them. -/
def work (r : IoUring U) : Nat :=
  4 * r.queued.length + 3 * r.inKernel.length + 2 * r.cq.length

theorem work_kernel {e : KernelEvent} (h : r.kernel e = some r') : r'.work + 1 = r.work := by
  rcases kernel_cases h with ⟨sqe, hqueued, _, _, hkernel, _, hcq⟩ |
    ⟨sqe, res, hperm, _, hqueued, _, hcq⟩
  · rw [work, work, hqueued, hkernel, hcq, List.length_append, List.length_singleton,
      List.length_cons]
    omega
  · rw [work, work, hqueued, hcq, ← hperm.length_eq, List.length_append, List.length_singleton,
      List.length_cons]
    omega

theorem work_queue {sqe : Sqe U} (hslot : r.HasSlot) :
    (r.queue sqe hslot).work = r.work + 4 := by
  have hqueued : (r.queue sqe hslot).queued.length = r.queued.length + 1 := by
    rw [queued_queue hslot, List.length_append, List.length_singleton]
  rw [work, work, hqueued]
  change 4 * (r.queued.length + 1) + 3 * r.inKernel.length + 2 * r.cq.length = _
  omega

theorem work_advance (n : Nat) :
    (r.advance n).work + 2 * (r.cq.take n).length = r.work := by
  have hcq : (r.advance n).cq.length + (r.cq.take n).length = r.cq.length := by
    rw [cq_advance, List.length_take, List.length_drop]
    omega
  rw [work, work]
  change 4 * r.queued.length + 3 * r.inKernel.length + 2 * (r.advance n).cq.length + _ = _
  omega

theorem room_of_card_outstanding (hpublished : r.khead < r.ktail)
    (hroom : Multiset.card r.outstanding ≤ r.capacity) :
    r.inKernel.length + r.cq.length < r.capacity := by
  have htail := r.ktail_le
  simp only [outstanding, held, queued, Multiset.card_add, Multiset.coe_card, List.length_map,
    List.length_append, List.length_drop] at hroom
  omega

end IoUring

theorem Ring.Moves.capacity {U : Type} {r r' : Ring U} (h : r.Moves r') :
    r'.ring.capacity = r.ring.capacity := by
  cases h with
  | stays | starves | flushes | pollsMany => rfl
  | queues htry =>
      obtain ⟨_, hring, _⟩ := Ring.trySubmit_ring htry
      rw [hring]
      rfl
  | polls hpoll =>
      rw [(Ring.poll_ring hpoll).2.1]
      rfl

/-- The steps that a call has in front of it, with those of the requests it will queue. -/
def Pc.work : Pc → Nat
  | .idle => 0
  | .getting (.op _) _ => 16
  | .getting _ _ => 10
  | .submitting _ => 4
  | .submitted _ => 3
  | .suspended _ | .woken _ => 2

theorem Stage.work_next (stage : Stage) (starved : Bool) :
    stage.next.work + 6 ≤ (Pc.getting stage starved).work := by
  cases stage <;> simp [Stage.next, Pc.work]

theorem Pc.work_starved (stage : Stage) (starved : Bool) :
    (Pc.getting stage true).work = (Pc.getting stage starved).work := by
  cases stage <;> rfl

namespace Runtime

open Lts

variable {ι : Type} [DecidableEq ι] {s s' : Runtime ι}

section Work

variable [Fintype ι]

def work (s : Runtime ι) : Nat :=
  Holdings.total Pc.work s.pc Finset.univ + s.loop.ring.ring.work + s.loop.pc.pending.length
    + s.running.toList.length

theorem total_work_update (pcs : ι → Pc) (f : ι) (pc : Pc) :
    Holdings.total Pc.work (Function.update pcs f pc) Finset.univ + (pcs f).work
      = Holdings.total Pc.work pcs Finset.univ + pc.work := by
  obtain ⟨others, hbefore, hafter⟩ := Holdings.exchange Pc.work pcs (Finset.mem_univ f) pc
  omega

end Work

/-! ### Stuck, at rest, and on the way there -/

/-- The poller sleeps in `io_uring_wait_cqe`, and the kernel has nothing to post. -/
structure Blocked (s : Runtime ι) : Prop where
  waiting : ∃ held, s.loop.pc = .waiting held
  published : ¬ s.loop.ring.ring.khead < s.loop.ring.ring.ktail
  inKernel : s.loop.ring.ring.inKernel = []
  posted : s.loop.ring.ring.cq = []

structure AtRest (s : Runtime ι) : Prop where
  idle : ∀ f, s.pc f = .idle
  running : s.running = none
  poller : s.loop.pc = .ready
  pending : s.loop.hasPending = false

/-- The conditions under which no wakeup is lost. -/
def Sound (s : Runtime ι) (e : Event ι) : Prop :=
  s.NothingLost e ∧ s.CountPasses e ∧ s.SparesEnocqe e

instance (s : Runtime ι) (e : Event ι) : Decidable (s.Sound e) :=
  inferInstanceAs (Decidable (_ ∧ _ ∧ _))

/-- It begins no call, and is not the failure of an `io_uring_wait_cqe`. -/
def Event.finishing : Event ι → Bool
  | .call _ _ _ | .poll .pollThrows => false
  | _ => true

def Finishes (s : Runtime ι) (e : Event ι) : Prop := e.finishing = true ∧ s.Sound e

/-- What holds in every state of a run under these conditions. -/
structure Settled [Fintype ι] (s : Runtime ι) : Prop where
  wait : s.WaitInv
  heard : s.Heard
  room : s.RoomInv
  owned : s.SlotsOwned
  counts : s.loop.ring.CountsPending
  capacity : 2 * Fintype.card ι ≤ s.loop.ring.ring.capacity

/-- Some steps lead on to where less work is left. -/
def Progress [Fintype ι] (s : Runtime ι) : Prop :=
  ∃ es s', Along step Finishes s es ∧ run step s es = some s' ∧ ¬ s'.Blocked ∧ s'.work < s.work

section Progress

variable [Fintype ι]

theorem progress_of_step {e : Event ι} (hok : s.Finishes e) (h : s.step e = some s')
    (hfree : ¬ s'.Blocked) (hlt : s'.work < s.work) : s.Progress := by
  refine ⟨[e], s', fun _ _ => ⟨hok, trivial⟩, ?_, hfree, hlt⟩
  rw [run_cons, h]
  rfl

omit [DecidableEq ι] [Fintype ι] in
theorem not_blocked_of_pc (h : ∀ held, s.loop.pc ≠ .waiting held) : ¬ s.Blocked :=
  fun hblocked => hblocked.waiting.elim h

omit [DecidableEq ι] [Fintype ι] in
theorem Scheduled.running_eq_none (h : s.Scheduled) (hpc : s.loop.pc ≠ .ready) :
    s.running = none := by
  by_contra hsome
  obtain ⟨f, hf⟩ := Option.ne_none_iff_exists'.mp hsome
  exact hpc (h.running f hf).1

/-! The kernel -/

theorem progress_kernel {e : KernelEvent} {ring : IoUring (Ptr ι)}
    (hspares : s.SparesEnocqe (.kernel e)) (hkernel : s.loop.ring.ring.kernel e = some ring) :
    s.Progress := by
  have hstep : s.step (.kernel e)
      = some { s with loop := { s.loop with ring := { s.loop.ring with ring := ring } } } := by
    simp only [step, EventLoop.step, Ring.kernel, hkernel, Option.map_some]
  have hok : s.Finishes (.kernel e) := ⟨rfl, trivial, trivial, hspares⟩
  refine progress_of_step hok hstep (fun hblocked => ?_) ?_
  · rcases IoUring.kernel_cases hkernel with ⟨sqe, _, _, _, hinKernel, _⟩ |
      ⟨sqe, res, _, _, _, _, hcq⟩
    · have hnone := hblocked.inKernel
      rw [hinKernel] at hnone
      simp at hnone
    · have hnone := hblocked.posted
      rw [hcq] at hnone
      simp at hnone
  · have hwork := IoUring.work_kernel hkernel
    simp only [work]
    omega

theorem progress_inKernel (h : s.loop.ring.ring.inKernel ≠ []) : s.Progress := by
  obtain ⟨ring, hkernel⟩ := IoUring.complete_enabled (List.length_pos_of_ne_nil h) 0
  have hspares : (0 : Int) ≠ -ENOCQE := by decide
  exact progress_kernel (e := .complete 0 0) hspares hkernel

omit [DecidableEq ι] in
/-- Each fiber has at most two requests outstanding. -/
theorem CallInv.card_outstanding_le (h : s.CallInv) :
    Multiset.card s.loop.ring.ring.outstanding ≤ 2 * Fintype.card ι := by
  have hle : s.loop.ring.ring.outstanding ≤ s.loop.undispatched := Multiset.le_add_right _ _
  have hinj : ∀ p ∈ s.loop.undispatched, ∀ q ∈ s.loop.undispatched,
      (p.fiber, decide (p.obj = .timeoutResSetter))
        = (q.fiber, decide (q.obj = .timeoutResSetter)) → p = q := by
    intro p hp q hq heq
    obtain ⟨hfiber, hkind⟩ := Prod.mk.inj heq
    obtain ⟨hpCall, hpObj⟩ := h.live p hp
    obtain ⟨hqCall, hqObj⟩ := h.live q hq
    rw [← hfiber] at hqCall hqObj
    have hobj : p.obj = q.obj := by
      have hpQueued := Pc.mem_queued_of_live hpObj
      have hqQueued := Pc.mem_queued_of_live hqObj
      rcases (s.pc p.fiber).queued_cases with hcases | hcases | hcases | hcases <;>
        rw [hcases] at hpQueued hqQueued <;> simp at hpQueued hqQueued
      · rw [hpQueued, hqQueued]
      · rw [hpQueued, hqQueued]
      · rcases hpQueued with hpEq | hpEq <;> rcases hqQueued with hqEq | hqEq <;>
          simp [hpEq, hqEq] at hkind ⊢
    cases p
    cases q
    simp_all
  have hcard := Finset.card_le_univ (α := ι × Bool) ⟨_, h.nodup.map_on hinj⟩
  rw [Finset.card_mk, Multiset.card_map, Fintype.card_prod, Fintype.card_bool] at hcard
  calc
    Multiset.card s.loop.ring.ring.outstanding ≤ Multiset.card s.loop.undispatched :=
      Multiset.card_le_card hle
    _ ≤ 2 * Fintype.card ι := by omega

theorem Settled.progress_published (h : s.Settled)
    (hpublished : s.loop.ring.ring.khead < s.loop.ring.ring.ktail) : s.Progress := by
  have hroom := h.wait.wake.calls.card_outstanding_le.trans h.capacity
  obtain ⟨ring, hkernel⟩ := IoUring.consume_enabled hpublished
    (IoUring.room_of_card_outstanding hpublished hroom)
  exact progress_kernel (e := .consume) trivial hkernel

/-! The poller -/

theorem Settled.progress_dispatch (h : s.Settled) {cqe : Cqe (Ptr ι)} {rest : List (Cqe (Ptr ι))}
    (hpc : s.loop.pc = .dispatching cqe rest) : s.Progress := by
  have hrunning := h.room.sched.running_eq_none (by rw [hpc]; rintro ⟨⟩)
  have hstep : s.step .dispatch = some (s.dispatchNext cqe rest) := by
    simp only [step, hrunning, hpc]
  have hnext : (s.dispatchNext cqe rest).loop.pc = .dispatchAll rest := by
    rw [dispatchNext_loop]
    rfl
  have hok : s.Finishes (.dispatch) := ⟨rfl, trivial, trivial, trivial⟩
  refine progress_of_step hok hstep (not_blocked_of_pc ?_) ?_
  · rw [hnext]
    cases rest <;> rintro _ ⟨⟩
  · have hpcs : Holdings.total Pc.work (s.dispatchNext cqe rest).pc Finset.univ
        = Holdings.total Pc.work s.pc Finset.univ := by
      rcases dispatchNext_pc s cqe rest with heq | ⟨f, timed, hf, _, heq⟩
      · rw [heq]
      · have htotal := total_work_update s.pc f (.woken timed)
        rw [hf] at htotal
        rw [heq]
        exact Nat.add_right_cancel htotal
    rw [work, work, hpcs, dispatchNext_ring, (dispatchNext_frame s cqe rest).2.2, hnext, hpc,
      PollerPc.pending_dispatchAll, PollerPc.pending_dispatching, List.length_cons]
    omega

theorem Settled.progress_pollReturns (h : s.Settled) {held : Option (Cqe (Ptr ι))}
    (hpc : s.loop.pc = .waiting held) (hposted : s.loop.ring.ring.cq ≠ []) : s.Progress := by
  have hrunning := h.room.sched.running_eq_none (by rw [hpc]; rintro ⟨⟩)
  obtain ⟨cqe, hpeek⟩ : ∃ cqe, s.loop.ring.ring.peek = some cqe :=
    ⟨_, List.head?_eq_some_head hposted⟩
  have hstep : s.step (.poll .pollReturns)
      = some { s with
          loop := s.loop.pollReturns cqe
            { s.loop.ring with
              ring := s.loop.ring.ring.advance 1
              pendingCount := s.loop.ring.pendingCount - 1 } } := by
    simp only [step, if_pos hrunning, PollEvent.toEvent, EventLoop.step, hpc, Ring.poll, hpeek,
      Option.map_some]
  have hok : s.Finishes (.poll .pollReturns) := ⟨rfl, trivial, trivial, trivial⟩
  refine progress_of_step hok hstep (not_blocked_of_pc (by rintro _ ⟨⟩)) ?_
  have hwork := s.loop.ring.ring.work_advance 1
  have hone : (s.loop.ring.ring.cq.take 1).length = 1 := by
    rw [IoUring.cons_of_peek hpeek]
    rfl
  rw [hone] at hwork
  simp only [work, EventLoop.pollReturns, hpc, PollerPc.pending_dispatching,
    PollerPc.pending_waiting, List.length_singleton, List.length_nil]
  omega

theorem progress_tryPollMany (hrunning : s.running = none) (hpc : s.loop.pc = .ready)
    (hposted : s.loop.ring.ring.cq ≠ []) : s.Progress := by
  have hstep : s.step (.poll .tryPollMany) = some { s with loop := s.loop.tryPollMany } := by
    simp only [step, if_pos hrunning, PollEvent.toEvent, EventLoop.step, hpc, Option.map_some]
  have hok : s.Finishes (.poll .tryPollMany) := ⟨rfl, trivial, trivial, trivial⟩
  refine progress_of_step hok hstep (not_blocked_of_pc ?_) ?_
  · simp only [EventLoop.tryPollMany]
    cases s.loop.ring.tryPollMany.1 <;> rintro _ ⟨⟩
  · have hwork := s.loop.ring.ring.work_advance Ring.maxPollMany
    have hpos : 0 < (s.loop.ring.ring.cq.take Ring.maxPollMany).length := by
      rw [List.length_take]
      exact Nat.lt_min.mpr ⟨by decide, List.length_pos_of_ne_nil hposted⟩
    simp only [work, EventLoop.tryPollMany, Ring.tryPollMany, PollerPc.pending_dispatchAll, hpc,
      PollerPc.pending_ready, List.length_nil]
    omega

/-! The fibers -/

theorem work_get {f : ι} {stage : Stage} {starved : Bool}
    (hgetting : s.pc f = .getting stage starved) (hslot : s.loop.ring.ring.HasSlot) :
    (s.get f stage starved).work + 2 ≤ s.work := by
  rcases get_cases s f stage starved with ⟨ring, hslot, _, hring, heq⟩ | ⟨hfull, _⟩
  · have htotal := total_work_update s.pc f stage.next
    have hnext := stage.work_next starved
    rw [hgetting] at htotal
    rw [heq]
    simp only [work, hring, IoUring.work_queue]
    omega
  · exact absurd hslot hfull

theorem work_finish {f : ι} {timed : Bool} (hwoken : s.pc f = .woken timed) :
    (s.finish f timed).work + 2 = s.work := by
  have htotal := total_work_update s.pc f .idle
  rw [hwoken] at htotal
  simp only [Pc.work] at htotal
  simp only [finish, work]
  omega

section Running

variable {f : ι} (hsched : s.Scheduled) (hrunning : s.running = some f)

include hsched hrunning

omit [DecidableEq ι] [Fintype ι] in
/-- While a fiber runs, the poller is idle, so it does not sleep after the fiber's step either. -/
theorem Scheduled.not_blocked_of_loop (hloop : s'.loop.pc = s.loop.pc) : ¬ s'.Blocked := by
  refine not_blocked_of_pc fun held => ?_
  rw [hloop, (hsched.running f hrunning).1]
  rintro ⟨⟩

theorem progress_park (hidle : s.pc f = .idle) : s.Progress := by
  have hstep : s.step (.park f) = some { s with running := none } := by
    simp only [step, if_pos (And.intro hrunning hidle)]
  have hok : s.Finishes (.park f) := ⟨rfl, trivial, trivial, trivial⟩
  refine progress_of_step hok hstep (hsched.not_blocked_of_loop hrunning rfl) ?_
  simp only [work, hrunning, Option.toList_some, Option.toList_none, List.length_singleton,
    List.length_nil]
  omega

theorem progress_get {stage : Stage} {starved : Bool} (hgetting : s.pc f = .getting stage starved) :
    s.Progress := by
  have hstep : s.step (.get f) = some (s.get f stage starved) := by
    simp only [step, if_pos hrunning, hgetting]
  have hok : s.Finishes (.get f) := ⟨rfl, trivial, trivial, trivial⟩
  have hloop : (s.get f stage starved).loop.pc = s.loop.pc := by
    rcases get_cases s f stage starved with ⟨_, _, _, _, heq⟩ | ⟨_, heq⟩ <;> rw [heq]
  refine progress_of_step hok hstep (hsched.not_blocked_of_loop hrunning hloop) ?_
  rcases get_cases s f stage starved with ⟨_, hslot, _⟩ | ⟨_, heq⟩
  · have := work_get hgetting hslot
    omega
  · -- the fiber gives way, and that is all
    have htotal := total_work_update s.pc f (.getting stage true)
    rw [hgetting, Pc.work_starved stage starved] at htotal
    rw [heq]
    simp only [work, hrunning, Ring.starve_ring, Option.toList_some, Option.toList_none,
      List.length_singleton, List.length_nil]
    omega

theorem progress_flush {timed : Bool} (hsubmitting : s.pc f = .submitting timed) :
    s.Progress := by
  have hstep : s.step (.flush f) = some (s.flush f timed) := by
    simp only [step, if_pos hrunning, hsubmitting]
  have hok : s.Finishes (.flush f) := ⟨rfl, trivial, trivial, trivial⟩
  refine progress_of_step hok hstep (hsched.not_blocked_of_loop hrunning rfl) ?_
  have htotal := total_work_update s.pc f (.submitted timed)
  have hsame : s.loop.ring.ring.submit.work = s.loop.ring.ring.work := rfl
  rw [hsubmitting] at htotal
  simp only [Pc.work] at htotal
  simp only [work, flush, Ring.flush_ring, hsame]
  omega

theorem progress_count {timed : Bool} (hsubmitted : s.pc f = .submitted timed)
    (hconsumed : ¬ s.loop.ring.ring.khead < s.loop.ring.ring.ktail) : s.Progress := by
  have hnone : s.loop.ring.ring.unconsumed = 0 := by
    rw [IoUring.unconsumed]
    omega
  have hstep : s.step (.count f none) = some (s.count f timed (s.submitRet none)) := by
    simp only [step, if_pos hrunning, hsubmitted]
  have hpasses : s.CountPasses (.count f none) := fun _ => ⟨rfl, by rw [hnone]; rintro ⟨⟩⟩
  have hok : s.Finishes (.count f none) := ⟨rfl, trivial, hpasses, trivial⟩
  have hret : s.submitRet none = 0 := by rw [submitRet, hnone]; rfl
  rcases count_cases s f timed (s.submitRet none) with ⟨_, hbad, _⟩ | ⟨_, heq⟩
  · exact absurd (Or.inr hret) hbad
  · rw [heq] at hstep
    refine progress_of_step hok hstep (hsched.not_blocked_of_loop hrunning rfl) ?_
    have htotal := total_work_update s.pc f (.suspended timed)
    rw [hsubmitted] at htotal
    simp only [Pc.work] at htotal
    simp only [work, hrunning, Option.toList_some, Option.toList_none, List.length_singleton,
      List.length_nil]
    omega

theorem progress_finish {timed : Bool} (hwoken : s.pc f = .woken timed) : s.Progress := by
  have hstep : s.step (.finish f) = some (s.finish f timed) := by
    simp only [step, if_pos hrunning, hwoken]
  have hok : s.Finishes (.finish f) := ⟨rfl, trivial, trivial, trivial⟩
  refine progress_of_step hok hstep (hsched.not_blocked_of_loop hrunning rfl) ?_
  have := work_finish hwoken
  omega

end Running

/-- The scheduler switches to a fiber, which takes one step. -/
theorem progress_of_resume {f : ι} {e : Event ι} (hrunning : s.running = none)
    (hready : s.loop.pc = .ready) (hrunnable : (s.pc f).runnable = true)
    (hok : Finishes { s with running := some f } e)
    (h : step { s with running := some f } e = some s') (hloop : s'.loop.pc = s.loop.pc)
    (hlt : s'.work + 2 ≤ work { s with running := some f }) : s.Progress := by
  have hresume : s.step (.resume f) = some { s with running := some f } := by
    simp only [step, hrunning, hready, hrunnable]
  have hwork : work { s with running := some f } = s.work + 1 := by
    simp only [work, hrunning, Option.toList_some, Option.toList_none, List.length_singleton,
      List.length_nil, Nat.add_zero]
  refine ⟨[.resume f, e], s', fun next hnext => ?_, ?_, not_blocked_of_pc ?_, by omega⟩
  · obtain rfl := Option.some.inj (hresume.symm.trans hnext)
    exact ⟨⟨rfl, trivial, trivial, trivial⟩, fun _ _ => ⟨hok, trivial⟩⟩
  · rw [run_cons, hresume, Option.bind_some, run_cons, h]
    rfl
  · rw [hloop, hready]
    rintro _ ⟨⟩

theorem progress_resume_woken {f : ι} {timed : Bool} (hrunning : s.running = none)
    (hready : s.loop.pc = .ready) (hwoken : s.pc f = .woken timed) : s.Progress := by
  have hok : Finishes { s with running := some f } (.finish f) := ⟨rfl, trivial, trivial, trivial⟩
  have hwork := work_finish (s := { s with running := some f }) hwoken
  refine progress_of_resume hrunning hready (by rw [hwoken]; rfl) hok ?_ ?_ hwork.le
  · simp only [step, hwoken, if_true]
  · rfl

theorem progress_resume_getting {f : ι} {stage : Stage} {starved : Bool}
    (hrunning : s.running = none) (hready : s.loop.pc = .ready)
    (hgetting : s.pc f = .getting stage starved) (hslot : s.loop.ring.ring.HasSlot) :
    s.Progress := by
  have hok : Finishes { s with running := some f } (.get f) := ⟨rfl, trivial, trivial, trivial⟩
  have hwork := work_get (s := { s with running := some f }) hgetting hslot
  refine progress_of_resume hrunning hready (by rw [hgetting]; rfl) hok ?_ ?_ hwork
  · simp only [step, hgetting, if_true]
  · rcases get_cases { s with running := some f } f stage starved with ⟨_, _, _, _, heq⟩ |
      ⟨_, heq⟩ <;> rw [heq]

/-! ### Every state -/

/-- No fiber runs, the poller is idle, and nothing is on its way: all fibers are idle. -/
theorem Settled.atRest (h : s.Settled) (hrunning : s.running = none) (hready : s.loop.pc = .ready)
    (hwoken : ∀ f timed, s.pc f ≠ .woken timed)
    (hgetting : ∀ f stage starved, s.pc f ≠ .getting stage starved)
    (hposted : s.loop.ring.ring.cq = []) (hinKernel : s.loop.ring.ring.inKernel = [])
    (hconsumed : ¬ s.loop.ring.ring.khead < s.loop.ring.ring.ktail) : s.AtRest := by
  have hbusy : ∀ f, (s.pc f).busy = false := by
    intro f
    by_contra hbusy
    have hself := h.room.sched.busy f (Bool.not_eq_false _ ▸ hbusy)
    rw [hrunning] at hself
    cases hself
  have hqueued : s.loop.ring.ring.queued = [] := by
    have hsame : s.loop.ring.ring.khead = s.loop.ring.ring.ktail :=
      le_antisymm s.loop.ring.ring.khead_le (not_lt.mp hconsumed)
    have hunpublished : s.loop.ring.ring.queued = s.unpublishedSqes := by
      rw [IoUring.queued, hsame, unpublishedSqes]
    rw [hunpublished]
    refine List.eq_nil_iff_forall_not_mem.mpr fun x hx => ?_
    rcases (h.owned x hx).2 with ⟨timed, hpc⟩ | ⟨_, starved, hpc⟩
    · have hawake := hbusy x.userData.fiber
      rw [hpc] at hawake
      cases hawake
    · exact hgetting _ _ _ hpc
  have hpending : s.loop.hasPending = false :=
    h.counts.hasPending_eq_false_iff.mpr ⟨hqueued, hinKernel, hposted⟩
  have hnone : s.loop.undispatched = 0 := by
    rw [EventLoop.undispatched_of_ready hready]
    exact IoUring.outstanding_eq_zero_iff.mpr ⟨hqueued, hinKernel, hposted⟩
  refine ⟨fun f => ?_, hrunning, hready, hpending⟩
  have hawake := hbusy f
  cases hpc : s.pc f with
  | idle => rfl
  | getting stage starved => exact absurd hpc (hgetting f stage starved)
  | submitting timed | submitted timed =>
      rw [hpc] at hawake
      cases hawake
  | suspended timed =>
      obtain ⟨obj, _, hmem⟩ := h.wait.suspended hpc
      rw [hnone] at hmem
      exact absurd hmem (Multiset.notMem_zero _)
  | woken timed => exact absurd hpc (hwoken f timed)

theorem Settled.progress (h : s.Settled) (hfree : ¬ s.Blocked) (hrest : ¬ s.AtRest) :
    s.Progress := by
  have hsched := h.room.sched
  cases hpc : s.loop.pc with
  | dispatching cqe rest => exact h.progress_dispatch hpc
  | waiting held =>
      by_cases hposted : s.loop.ring.ring.cq = []
      · by_cases hinKernel : s.loop.ring.ring.inKernel = []
        · refine h.progress_published ?_
          by_contra hpublished
          exact hfree ⟨⟨held, hpc⟩, hpublished, hinKernel, hposted⟩
        · exact progress_inKernel hinKernel
      · exact h.progress_pollReturns hpc hposted
  | ready =>
      cases hrunning : s.running with
      | some f =>
          have hrunnable := (hsched.running f hrunning).2
          cases hf : s.pc f with
          | idle => exact progress_park hsched hrunning hf
          | getting stage starved => exact progress_get hsched hrunning hf
          | submitting timed => exact progress_flush hsched hrunning hf
          | submitted timed =>
              by_cases hpublished : s.loop.ring.ring.khead < s.loop.ring.ring.ktail
              · exact h.progress_published hpublished
              · exact progress_count hsched hrunning hf hpublished
          | suspended timed =>
              rw [hf] at hrunnable
              cases hrunnable
          | woken timed => exact progress_finish hsched hrunning hf
      | none =>
          by_cases hwoken : ∃ f timed, s.pc f = .woken timed
          · obtain ⟨f, timed, hf⟩ := hwoken
            exact progress_resume_woken hrunning hpc hf
          by_cases hpublished : s.loop.ring.ring.khead < s.loop.ring.ring.ktail
          · exact h.progress_published hpublished
          by_cases hgetting : ∃ f stage starved, s.pc f = .getting stage starved
          · obtain ⟨f, stage, starved, hf⟩ := hgetting
            by_cases hslot : s.loop.ring.ring.HasSlot
            · exact progress_resume_getting hrunning hpc hf hslot
            · -- all slots are taken, and not all of them are unpublished
              rcases h.room.room with ⟨g, timed, hg⟩ | hroom
              · have hself := hsched.busy g (by rw [hg]; rfl)
                rw [hrunning] at hself
                cases hself
              · have hfull := Nat.le_of_not_lt hslot
                rw [IoUring.unpublished] at hroom
                exact absurd (by omega) hpublished
          by_cases hposted : s.loop.ring.ring.cq = []
          · by_cases hinKernel : s.loop.ring.ring.inKernel = []
            · push Not at hwoken hgetting
              exact absurd
                (h.atRest hrunning hpc hwoken hgetting hposted hinKernel hpublished) hrest
            · exact progress_inKernel hinKernel
          · exact progress_tryPollMany hrunning hpc hposted

end Progress

/-! ### Runs -/

/-- Only the failure of the `io_uring_wait_cqe` or a new call could follow. -/
theorem Blocked.not_finishing {e : Event ι} (h : s.Blocked) (hsched : s.Scheduled)
    (hstep : s.step e = some s') : e.finishing = false := by
  obtain ⟨held, hpc⟩ := h.waiting
  have hrunning := hsched.running_eq_none (by rw [hpc]; rintro ⟨⟩)
  have hnone : ∀ {f}, ¬ s.running = some f := fun heq => by
    rw [hrunning] at heq
    cases heq
  cases e with
  | kernel e =>
      obtain ⟨ring, hring, _⟩ := step_kernel hstep
      rcases IoUring.kernel_cases (Ring.kernel_ring hring).1 with ⟨_, _, hpublished, _⟩ |
        ⟨sqe, _, hperm, _⟩
      · exact absurd hpublished h.published
      · rw [h.inKernel] at hperm
        cases hperm.length_eq
  | poll e =>
      obtain ⟨_, loop, hloop, _⟩ := step_poll hstep
      cases e with
      | tryPoll => cases hpc.symm.trans (EventLoop.step_tryPoll hloop).1
      | pollReturns =>
          obtain ⟨_, cqe, ring, _, hpoll, _⟩ := EventLoop.step_pollReturns hloop
          have hmem := Ring.mem_cq_of_poll hpoll
          rw [h.posted] at hmem
          cases hmem
      | pollThrows => rfl
      | tryPollMany => cases hpc.symm.trans (EventLoop.step_tryPollMany hloop).1
  | dispatch =>
      obtain ⟨cqe, rest, _, hother, _⟩ := step_dispatch hstep
      cases hpc.symm.trans hother
  | resume f => cases hpc.symm.trans (step_resume hstep).2.1
  | park f => exact absurd (step_park hstep).1 hnone
  | call f req timed => rfl
  | get f =>
      obtain ⟨_, _, hself, _⟩ := step_get hstep
      exact absurd hself hnone
  | flush f =>
      obtain ⟨_, hself, _⟩ := step_flush hstep
      exact absurd hself hnone
  | count f err =>
      obtain ⟨_, hself, _⟩ := step_count hstep
      exact absurd hself hnone
  | finish f =>
      obtain ⟨_, hself, _⟩ := step_finish hstep
      exact absurd hself hnone

section Runs

variable [Fintype ι] {entries capacity : Nat} {fits : entries + capacity < 2 ^ 64}
  {maxAttempts : UInt64}

theorem settled_throughout (hentries : Fintype.card ι < entries)
    (hcapacity : 2 * Fintype.card ι ≤ capacity) {es : List (Event ι)}
    (h : Along step Sound (init entries capacity fits maxAttempts) es) :
    Throughout step (Settled (ι := ι)) (init entries capacity fits maxAttempts) es := by
  have hwait := waitInv_throughout entries capacity fits maxAttempts es
    (h.imp fun _ _ hok => hok.1) (h.imp fun _ _ hok => hok.2.1) (h.imp fun _ _ hok => hok.2.2)
  have hslots : Throughout step (fun s : Runtime ι => s.RoomInv ∧ s.SlotsOwned
      ∧ s.loop.ring.ring.entries = entries) (init entries capacity fits maxAttempts) es := by
    refine hwait.along.throughout ⟨⟨hwait.first.1.wake.calls.sched, Or.inr ?_⟩,
      fun x hx => (by cases hx), rfl⟩ fun s e s' ⟨hroom, howned, hsame⟩ ⟨hinv, _⟩ hstep => ?_
    · exact (Nat.zero_le _).trans_lt hentries
    · have hleaves := leavesRoom_of_card hinv.wake.calls howned (hsame ▸ hentries) hstep
      refine ⟨step_roomInv ?_ hroom hleaves hstep, step_slotsOwned howned hstep,
        (step_entries hstep).trans hsame⟩
      rw [hsame]
      exact (Nat.zero_le _).trans_lt hentries
  have hmemory : Throughout step (fun s : Runtime ι => s.loop.ring.ring.capacity = capacity)
      (init entries capacity fits maxAttempts) es := by
    refine throughout_of_loop (P := fun loop => loop.ring.ring.capacity = capacity) entries capacity
      fits maxAttempts es fun ds => throughout_of_invariant ds rfl fun s e s' hsame hstep => ?_
    rcases EventLoop.step_ring hstep with ⟨_, _, hkernel⟩ | hmoves
    · exact (IoUring.kernel_capacity (Ring.kernel_ring hkernel).1).trans hsame
    · exact hmoves.capacity.trans hsame
  have hcounts := pendingExact_fibers (ι := ι) entries capacity fits maxAttempts es
  refine (((hwait.and hslots).and hmemory).and hcounts).imp fun s hs => ?_
  obtain ⟨⟨⟨⟨hinv, hheard⟩, hroom, howned, _⟩, hsame⟩, hcount⟩ := hs
  exact ⟨hinv, hheard, hroom, howned, hcount, hsame ▸ hcapacity⟩

/-- **The fibers can be brought to rest exactly unless the poller is blocked.** On a ring with more
slots than fibers, after every run under the conditions for the wakeups, some steps that begin no
call, and are not the failure of an `io_uring_wait_cqe`, lead to a state in which every fiber has
left its call and nothing is pending, unless the poller sleeps in `io_uring_wait_cqe` and the kernel
has nothing to post. -/
theorem comesToRest_iff (hentries : Fintype.card ι < entries)
    (hcapacity : 2 * Fintype.card ι ≤ capacity) {es : List (Event ι)}
    (h : Along step Sound (init entries capacity fits maxAttempts) es) {s : Runtime ι}
    (hrun : run step (init entries capacity fits maxAttempts) es = some s) :
    (∃ es' s', Along step Finishes s es' ∧ run step s es' = some s' ∧ s'.AtRest) ↔
      ¬ s.Blocked := by
  have hsettled := (settled_throughout hentries hcapacity h).last hrun
  constructor
  · rintro ⟨es', s', halong, hrun', hrest⟩ hblocked
    cases es' with
    | nil =>
        obtain rfl := Option.some.inj hrun'
        obtain ⟨held, hpc⟩ := hblocked.waiting
        cases hpc.symm.trans hrest.poller
    | cons e rest =>
        obtain ⟨middle, hstep, _⟩ := Option.bind_eq_some_iff.mp hrun'
        have hfinishing := (halong middle hstep).1.1
        rw [hblocked.not_finishing hsettled.room.sched hstep] at hfinishing
        cases hfinishing
  · intro hfree
    refine drains (P := fun s => (∃ es,
      Along step Sound (init entries capacity fits maxAttempts) es
        ∧ run step (init entries capacity fits maxAttempts) es = some s) ∧ ¬ s.Blocked) work
      (fun s hs hrest => ?_) ⟨⟨es, h, hrun⟩, hfree⟩
    obtain ⟨⟨before, hsound, hbefore⟩, hfree⟩ := hs
    have hsettled := (settled_throughout hentries hcapacity hsound).last hbefore
    obtain ⟨more, s', halong, hmore, hfree', hlt⟩ := hsettled.progress hfree hrest
    refine ⟨more, s', halong, hmore, ⟨⟨before ++ more, ?_, ?_⟩, hfree'⟩, hlt⟩
    · exact hsound.append hbefore (halong.imp fun _ _ hok => hok.2)
    · rw [run_append, hbefore]
      exact hmore

end Runs

/-- A fiber sleeps in a timed call, and another one is in the middle of one. -/
theorem comesToRest_waitingRun : ∃ s,
    run step (init 4 8 (by decide) 1000000) (waitingRun (0 : Fin 2) 1) = some s ∧
      ∃ es' s', Along step Finishes s es' ∧ run step s es' = some s' ∧ s'.AtRest := by
  have hready : (run step (init 4 8 (by decide) 1000000) (waitingRun (0 : Fin 2) 1)).map
      (fun s => s.running) = some (some 1) := by decide
  obtain ⟨s, hrun, hrunning⟩ := Option.map_eq_some_iff.mp hready
  have hsound : Along step Sound (init 4 8 (by decide) 1000000) (waitingRun (0 : Fin 2) 1) := by
    decide
  have hsched := ((settled_throughout (by decide) (by decide) hsound).last hrun).room.sched
  have hfree : ¬ s.Blocked := not_blocked_of_pc fun held hpc => by
    cases (hsched.running 1 hrunning).1.symm.trans hpc
  exact ⟨s, hrun, (comesToRest_iff (by decide) (by decide) hsound hrun).mpr hfree⟩

end Runtime

end Hnet
