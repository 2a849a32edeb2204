import Hnet.Proof.PollerRuns
import Hnet.RingSubmit

/-!
# The scheduler and the poller under `ring_submit`

What the proofs about `ring_submit` share. A fiber that has not given way is the running one, and
the poller is idle while a fiber runs. The requests still to be dispatched are those outstanding at
the ring and those the running call of the poller has consumed and not dispatched; only a `TryPoll`
that blocks with a CQE in hand loses one. Seen from the ring, the fibers and the scheduler are a
ring with a poller, so what holds in every run of that holds here.
-/

namespace Hnet

open Lts

/-! ### What is still to be dispatched -/

namespace EventLoop

variable {U ι : Type} {s s' : EventLoop U ι}

/-- The requests handed to a builder and neither dispatched nor lost, by their `user_data`. -/
def undispatched (s : EventLoop U ι) : Multiset U :=
  s.ring.ring.outstanding + (s.pc.pending.map Cqe.userData : List U)

theorem undispatched_of_ready (hpc : s.pc = .ready) : s.undispatched = s.ring.ring.outstanding := by
  simp only [undispatched, hpc, PollerPc.pending_ready, List.map_nil, Multiset.coe_nil, add_zero]

theorem undispatched_of_waiting {held : Option (Cqe U)} (hpc : s.pc = .waiting held) :
    s.undispatched = s.ring.ring.outstanding := by
  simp only [undispatched, hpc, PollerPc.pending_waiting, List.map_nil, Multiset.coe_nil, add_zero]

theorem tryPoll_ring_cases (r : Ring U) :
    (r.tryPoll = (none, r) ∧ r.ring.cq = []) ∨
    (∃ cqe, r.tryPoll.1 = some cqe ∧ r.tryPoll.2.ring = r.ring.advance 1
      ∧ r.ring.outstanding = cqe.userData ::ₘ (r.ring.advance 1).outstanding) := by
  unfold Ring.tryPoll
  cases hpeek : r.ring.peek with
  | none => exact Or.inl ⟨rfl, List.head?_eq_none_iff.mp hpeek⟩
  | some cqe => exact Or.inr ⟨cqe, rfl, rfl, IoUring.outstanding_of_peek hpeek⟩

/-- A call of `TryPoll` keeps what is still to be dispatched, but for the CQE it may block with. -/
theorem undispatched_tryPoll (hpc : s.pc = .ready) :
    s.tryPoll.undispatched ≤ s.undispatched ∧
      (s.LimitFindsNothing .tryPoll → s.tryPoll.undispatched = s.undispatched) := by
  rw [undispatched_of_ready hpc]
  have hring := (tryPoll_frame s).1
  rcases tryPoll_ring_cases s.ring with ⟨hnone, _⟩ | ⟨cqe, hfound, hadvance, hcons⟩
  · have hsame : s.tryPoll.undispatched = s.ring.ring.outstanding := by
      rcases tryPoll_cases s with ⟨_, hwait⟩ | ⟨_, _, hfound, _⟩ | ⟨_, _, hready⟩
      · rw [undispatched_of_waiting hwait, hring, hnone]
      · rw [hnone] at hfound; cases hfound
      · rw [undispatched_of_ready (hready.trans hpc), hring, hnone]
    exact ⟨hsame.le, fun _ => hsame⟩
  · rcases tryPoll_cases s with ⟨hlimit, hwait⟩ | ⟨cqe', _, hfound', hdispatch⟩ | ⟨_, hnone, _⟩
    · refine ⟨?_, fun hok => ?_⟩
      · rw [undispatched_of_waiting hwait, hring, hadvance, hcons]
        exact Multiset.le_cons_self _ _
      · rw [tryPoll_eq_none_iff.mpr (hok hlimit)] at hfound
        cases hfound
    · obtain rfl : cqe = cqe' := Option.some.inj (hfound.symm.trans hfound')
      have hsame : s.tryPoll.undispatched = s.ring.ring.outstanding := by
        rw [undispatched, hdispatch, hring, hadvance, hcons, PollerPc.pending_dispatching,
          List.map_cons, List.map_nil, Multiset.coe_singleton, ← Multiset.singleton_add]
        exact add_comm _ _
      exact ⟨hsame.le, fun _ => hsame⟩
    · rw [hnone] at hfound; cases hfound

theorem undispatched_pollReturns {held : Option (Cqe U)} {cqe : Cqe U} {ring : Ring U}
    (hpc : s.pc = .waiting held) (hpoll : s.ring.poll = some (cqe, ring)) :
    (s.pollReturns cqe ring).undispatched = s.undispatched := by
  obtain ⟨hpeek, hring, _⟩ := Ring.poll_ring hpoll
  rw [undispatched_of_waiting hpc, IoUring.outstanding_of_peek hpeek, undispatched]
  simp only [pollReturns, hring, PollerPc.pending_dispatching, List.map_cons, List.map_nil,
    Multiset.coe_singleton, ← Multiset.singleton_add]
  exact add_comm _ _

theorem undispatched_tryPollMany (hpc : s.pc = .ready) :
    s.tryPollMany.undispatched = s.undispatched := by
  rw [undispatched_of_ready hpc, IoUring.outstanding_advance Ring.maxPollMany, undispatched]
  simp only [tryPollMany, PollerPc.pending_dispatchAll, Ring.tryPollMany]
  exact add_comm _ _

theorem undispatched_dispatchNext [DecidableEq U] {cqe : Cqe U} {rest : List (Cqe U)}
    (hpc : s.pc = .dispatching cqe rest) :
    s.undispatched = cqe.userData ::ₘ (s.dispatchNext cqe rest).undispatched := by
  simp only [undispatched, dispatchNext, PollerPc.pending_dispatchAll, hpc,
    PollerPc.pending_dispatching, List.map_cons, ← Multiset.cons_coe, Multiset.add_cons]

theorem undispatched_kernel {e : KernelEvent} {ring : Ring U} (h : s.ring.kernel e = some ring) :
    ({ s with ring := ring } : EventLoop U ι).undispatched = s.undispatched := by
  simp only [undispatched, IoUring.outstanding_kernel (Ring.kernel_ring h).1]

theorem mem_undispatched_of_held {e : Sqe U} (h : e ∈ s.ring.ring.held) :
    e.userData ∈ s.undispatched := by
  simp only [undispatched, IoUring.outstanding, Multiset.mem_add, Multiset.mem_coe]
  exact Or.inl (Or.inl (List.mem_map_of_mem h))

end EventLoop

/-! ### The poller's steps, seen from the fibers -/

def Pc.asleep : Pc → Bool
  | .suspended _ | .woken _ => true
  | _ => false

theorem Pc.asleep_of_busy {pc : Pc} (h : pc.busy = true) : pc.asleep = false := by
  cases pc with
  | suspended timed => cases h
  | woken timed => cases h
  | _ => rfl

theorem Pc.wake_eq_of_ne_suspended {pc : Pc} (h : ∀ timed, pc ≠ .suspended timed) :
    pc.wake = pc := by
  cases pc with
  | suspended timed => exact absurd rfl (h timed)
  | _ => rfl

namespace Runtime

variable {ι : Type} [DecidableEq ι] {s s' : Runtime ι}

/-- What the steps of the kernel and of the poller leave alone, and what they do to the requests
still to be dispatched. -/
structure LoopFrame (s s' : Runtime ι) : Prop where
  pc : s'.pc = s.pc
  calls : s'.calls = s.calls
  running : s'.running = s.running
  left : s'.left = s.left
  wakes : s'.wakes = s.wakes
  setters : s'.loop.setters = s.loop.setters
  dispatched : s'.loop.dispatched = s.loop.dispatched
  entries : s'.loop.ring.ring.entries = s.loop.ring.ring.entries
  sqes : s'.loop.ring.ring.sqes = s.loop.ring.ring.sqes
  ktail : s'.loop.ring.ring.ktail = s.loop.ring.ring.ktail
  held : ∀ e, e ∈ s'.loop.ring.ring.held → e ∈ s.loop.ring.ring.held
  undispatched : s'.loop.undispatched ≤ s.loop.undispatched

/-- `e` is not a `TryPoll` that blocks with a CQE in hand. -/
def NothingLost (s : Runtime ι) : Event ι → Prop
  | .poll e => s.loop.LimitFindsNothing e.toEvent
  | _ => True

theorem loopFrame_kernel {e : KernelEvent} (h : s.step (.kernel e) = some s') :
    LoopFrame s s' ∧ s'.loop.undispatched = s.loop.undispatched ∧ s'.loop.pc = s.loop.pc := by
  obtain ⟨ring, hring, rfl⟩ := step_kernel h
  have hkernel := (Ring.kernel_ring hring).1
  obtain ⟨hentries, hsqes, hktail, _⟩ := IoUring.kernel_frame hkernel
  have hsame := EventLoop.undispatched_kernel (ι := ι) hring
  exact ⟨⟨rfl, rfl, rfl, rfl, rfl, rfl, rfl, hentries, hsqes, hktail,
    fun _ => IoUring.mem_held_of_kernel hkernel, hsame.le⟩, hsame, rfl⟩

/-- The poller's steps only advance the completion queue. -/
theorem loop_step_poll {loop loop' : EventLoop (Ptr ι) ι} {e : PollEvent}
    (h : loop.step e.toEvent = some loop') :
    (∃ n, loop'.ring.ring = loop.ring.ring.advance n) ∧ loop'.setters = loop.setters
      ∧ loop'.dispatched = loop.dispatched ∧ loop'.undispatched ≤ loop.undispatched
      ∧ (loop.LimitFindsNothing e.toEvent → loop'.undispatched = loop.undispatched) := by
  cases e with
  | tryPoll =>
      obtain ⟨hpc, rfl⟩ := EventLoop.step_tryPoll h
      obtain ⟨hring, hsetters, _, hdispatched, _⟩ := EventLoop.tryPoll_frame loop
      obtain ⟨hle, heq⟩ := EventLoop.undispatched_tryPoll hpc
      refine ⟨?_, hsetters, hdispatched, hle, heq⟩
      rcases EventLoop.tryPoll_ring_cases loop.ring with ⟨hnone, _⟩ | ⟨_, _, hadvance, _⟩
      · exact ⟨0, by rw [hring, hnone]; rfl⟩
      · exact ⟨1, by rw [hring, hadvance]⟩
  | pollReturns =>
      obtain ⟨held, cqe, ring, hpc, hpoll, rfl⟩ := EventLoop.step_pollReturns h
      have hsame := EventLoop.undispatched_pollReturns hpc hpoll
      exact ⟨⟨1, (Ring.poll_ring hpoll).2.1⟩, rfl, rfl, hsame.le, fun _ => hsame⟩
  | pollThrows =>
      obtain ⟨held, hpc, rfl⟩ := EventLoop.step_pollThrows h
      have hsame := EventLoop.undispatched_of_waiting hpc
      exact ⟨⟨0, rfl⟩, rfl, rfl, hsame.ge.trans' (EventLoop.undispatched_of_ready rfl).le,
        fun _ => (EventLoop.undispatched_of_ready rfl).trans hsame.symm⟩
  | tryPollMany =>
      obtain ⟨hpc, rfl⟩ := EventLoop.step_tryPollMany h
      have hsame := EventLoop.undispatched_tryPollMany hpc
      exact ⟨⟨Ring.maxPollMany, rfl⟩, rfl, rfl, hsame.le, fun _ => hsame⟩

theorem loopFrame_poll {e : PollEvent} (h : s.step (.poll e) = some s') :
    LoopFrame s s' ∧ s.running = none ∧
      (s.NothingLost (.poll e) → s'.loop.undispatched = s.loop.undispatched) := by
  obtain ⟨hrunning, loop, hloop, rfl⟩ := step_poll h
  obtain ⟨⟨n, hadvance⟩, hsetters, hdispatched, hle, hsame⟩ := loop_step_poll hloop
  refine ⟨⟨rfl, rfl, rfl, rfl, rfl, hsetters, hdispatched, ?_, ?_, ?_, ?_, hle⟩, hrunning,
    fun hok => ?_⟩
  · rw [hadvance]; rfl
  · rw [hadvance]; rfl
  · rw [hadvance]; rfl
  · intro e he
    rwa [hadvance, IoUring.held_advance] at he
  · exact hsame hok

/-! ### Who runs -/

/-- A fiber that has not given way since its last step is the running one, which is not suspended;
the poller has no call of its own running meanwhile. -/
structure Scheduled (s : Runtime ι) : Prop where
  busy : ∀ f, (s.pc f).busy = true → s.running = some f
  running : ∀ f, s.running = some f → s.loop.pc = .ready ∧ (s.pc f).runnable = true

omit [DecidableEq ι] in
theorem scheduled_init (entries capacity : Nat) (fits : entries + capacity < 2 ^ 64)
    (maxAttempts : UInt64) : (init entries capacity fits maxAttempts : Runtime ι).Scheduled :=
  ⟨fun _ hbusy => (nomatch hbusy), fun _ hrunning => (nomatch hrunning)⟩

theorem scheduled_of_update {f : ι} {pc : Pc} (hsched : s.Scheduled) (hrunning : s.running = some f)
    (hpc : s'.pc = Function.update s.pc f pc) (hrunning' : s'.running = some f)
    (hrunnable : pc.runnable = true) (hloop : s'.loop.pc = s.loop.pc) : s'.Scheduled := by
  refine ⟨fun g hbusy => ?_, fun g hg => ?_⟩
  · by_cases heq : g = f
    · rw [heq, hrunning']
    · rw [hpc, Function.update_of_ne heq] at hbusy
      exact absurd (Option.some.inj ((hsched.busy g hbusy).symm.trans hrunning)) heq
  · obtain rfl : f = g := Option.some.inj (hrunning'.symm.trans hg)
    rw [hpc, Function.update_self, hloop]
    exact ⟨(hsched.running f hrunning).1, hrunnable⟩

theorem scheduled_of_yield {f : ι} {pc : Pc} (hsched : s.Scheduled) (hrunning : s.running = some f)
    (hpc : s'.pc = Function.update s.pc f pc) (hrunning' : s'.running = none)
    (hbusy : pc.busy = false) : s'.Scheduled := by
  refine ⟨fun g hg => ?_, fun g hg => by rw [hrunning'] at hg; cases hg⟩
  by_cases heq : g = f
  · rw [heq, hpc, Function.update_self, hbusy] at hg
    cases hg
  · rw [hpc, Function.update_of_ne heq] at hg
    exact absurd (Option.some.inj ((hsched.busy g hg).symm.trans hrunning)) heq

omit [DecidableEq ι] in
theorem scheduled_of_none (hsched : s.Scheduled) (hrunning : s.running = none)
    (hpc : ∀ f, (s'.pc f).busy = true → (s.pc f).busy = true) (hrunning' : s'.running = none) :
    s'.Scheduled := by
  refine ⟨fun f hbusy => ?_, fun f hf => by rw [hrunning'] at hf; cases hf⟩
  have hf := hsched.busy f (hpc f hbusy)
  rw [hrunning] at hf
  cases hf

theorem dispatchNext_cases (s : Runtime ι) (cqe : Cqe (Ptr ι)) (rest : List (Cqe (Ptr ι))) :
    ((dispatch s.loop.setters cqe).2 = none
      ∧ s.dispatchNext cqe rest = { s with loop := s.loop.dispatchNext cqe rest }) ∨
    (∃ f, (dispatch s.loop.setters cqe).2 = some f
      ∧ s.dispatchNext cqe rest = { s with
          loop := s.loop.dispatchNext cqe rest
          pc := Function.update s.pc f (s.pc f).wake
          wakes := s.wakes ++ [(f, cqe.userData.call)] }) := by
  unfold dispatchNext
  cases hwake : (dispatch s.loop.setters cqe).2 with
  | none => exact Or.inl ⟨rfl, rfl⟩
  | some f => exact Or.inr ⟨f, rfl, rfl⟩

theorem dispatchNext_loop (s : Runtime ι) (cqe : Cqe (Ptr ι)) (rest : List (Cqe (Ptr ι))) :
    (s.dispatchNext cqe rest).loop = s.loop.dispatchNext cqe rest := by
  rcases dispatchNext_cases s cqe rest with ⟨_, heq⟩ | ⟨f, _, heq⟩ <;> rw [heq]

theorem dispatchNext_ring (s : Runtime ι) (cqe : Cqe (Ptr ι)) (rest : List (Cqe (Ptr ι))) :
    (s.dispatchNext cqe rest).loop.ring = s.loop.ring := by
  rw [dispatchNext_loop]
  rfl

theorem dispatchNext_frame (s : Runtime ι) (cqe : Cqe (Ptr ι)) (rest : List (Cqe (Ptr ι))) :
    (s.dispatchNext cqe rest).calls = s.calls ∧ (s.dispatchNext cqe rest).left = s.left
      ∧ (s.dispatchNext cqe rest).running = s.running := by
  rcases dispatchNext_cases s cqe rest with ⟨_, heq⟩ | ⟨f, _, heq⟩ <;> rw [heq] <;>
    exact ⟨rfl, rfl, rfl⟩

/-- The two things `dispatch` can do to the fibers: it wakes a suspended one or moves none. -/
theorem dispatchNext_pc (s : Runtime ι) (cqe : Cqe (Ptr ι)) (rest : List (Cqe (Ptr ι))) :
    (s.dispatchNext cqe rest).pc = s.pc ∨
    ∃ f timed, s.pc f = .suspended timed ∧ (dispatch s.loop.setters cqe).2 = some f
      ∧ (s.dispatchNext cqe rest).pc = Function.update s.pc f (.woken timed) := by
  rcases dispatchNext_cases s cqe rest with ⟨_, heq⟩ | ⟨f, hwake, heq⟩ <;> rw [heq]
  · exact Or.inl rfl
  · by_cases hpc : ∃ timed, s.pc f = .suspended timed
    · obtain ⟨timed, hpc⟩ := hpc
      refine Or.inr ⟨f, timed, hpc, hwake, ?_⟩
      change Function.update s.pc f (s.pc f).wake = _
      rw [hpc]
      rfl
    · left
      change Function.update s.pc f (s.pc f).wake = _
      rw [Pc.wake_eq_of_ne_suspended fun timed heq => hpc ⟨timed, heq⟩, Function.update_eq_self]

/-- A fiber that is not in `Suspend`, before or after, is not moved by `dispatch`. -/
theorem dispatchNext_pc_iff {cqe : Cqe (Ptr ι)} {rest : List (Cqe (Ptr ι))} {f : ι} {pc : Pc}
    (hawake : pc.asleep = false) : (s.dispatchNext cqe rest).pc f = pc ↔ s.pc f = pc := by
  rcases dispatchNext_pc s cqe rest with hpc | ⟨g, timed, hg, _, hpc⟩
  · rw [hpc]
  · by_cases hfg : f = g
    · rw [hpc, hfg, Function.update_self, hg]
      refine iff_of_false (fun heq => ?_) fun heq => ?_
      · rw [← heq] at hawake
        cases hawake
      · rw [← heq] at hawake
        cases hawake
    · rw [hpc, Function.update_of_ne hfg]

theorem step_scheduled {e : Event ι} (hsched : s.Scheduled) (h : s.step e = some s') :
    s'.Scheduled := by
  cases e with
  | kernel e =>
      obtain ⟨hframe, _, hpc⟩ := loopFrame_kernel h
      refine ⟨fun f hbusy => ?_, fun f hf => ?_⟩
      · rw [hframe.running]
        exact hsched.busy f (hframe.pc ▸ hbusy)
      · rw [hframe.running] at hf
        rw [hframe.pc, hpc]
        exact hsched.running f hf
  | poll e =>
      obtain ⟨hframe, hrunning, _⟩ := loopFrame_poll h
      exact scheduled_of_none hsched hrunning (fun f hbusy => hframe.pc ▸ hbusy)
        (hframe.running.trans hrunning)
  | dispatch =>
      obtain ⟨cqe, rest, hrunning, _, rfl⟩ := step_dispatch h
      refine scheduled_of_none hsched hrunning (fun f hbusy => ?_)
        ((dispatchNext_frame s cqe rest).2.2.trans hrunning)
      rwa [(dispatchNext_pc_iff (Pc.asleep_of_busy hbusy)).mp rfl]
  | resume f =>
      obtain ⟨hrunning, hready, hrunnable, rfl⟩ := step_resume h
      refine ⟨fun g hbusy => ?_, fun g hg => ?_⟩
      · have hg := hsched.busy g hbusy
        rw [hrunning] at hg
        cases hg
      · obtain rfl := Option.some.inj hg
        exact ⟨hready, hrunnable⟩
  | park f =>
      obtain ⟨hrunning, hidle, rfl⟩ := step_park h
      exact scheduled_of_yield hsched hrunning (Function.update_eq_self_iff.mpr hidle.symm).symm rfl
        rfl
  | call f req timed =>
      obtain ⟨hrunning, _, rfl⟩ := step_call h
      exact scheduled_of_update hsched hrunning rfl hrunning rfl rfl
  | get f =>
      obtain ⟨stage, starved, hrunning, _, rfl⟩ := step_get h
      rcases get_cases s f stage starved with ⟨ring, _, _, _, heq⟩ | ⟨_, heq⟩
      · rw [heq]
        refine scheduled_of_update hsched hrunning rfl hrunning ?_ rfl
        cases stage <;> rfl
      · rw [heq]
        exact scheduled_of_yield hsched hrunning rfl rfl rfl
  | flush f =>
      obtain ⟨timed, hrunning, _, rfl⟩ := step_flush h
      exact scheduled_of_update hsched hrunning rfl hrunning rfl rfl
  | count f err =>
      obtain ⟨timed, hrunning, _, rfl⟩ := step_count h
      rcases count_cases s f timed (s.submitRet err) with ⟨_, _, heq⟩ | ⟨_, heq⟩
      · rw [heq]
        exact scheduled_of_update hsched hrunning rfl hrunning rfl rfl
      · rw [heq]
        exact scheduled_of_yield hsched hrunning rfl rfl rfl
  | finish f =>
      obtain ⟨timed, hrunning, _, rfl⟩ := step_finish h
      exact scheduled_of_update hsched hrunning rfl hrunning rfl rfl

/-! ### The ring's view -/

/-- Seen from the ring, a step of the fibers is one step of a ring with a poller, or none. -/
theorem loop_step {e : Event ι} (hsched : s.Scheduled) (h : s.step e = some s') :
    s'.loop = s.loop ∨ ∃ d, s.loop.step d = some s'.loop ∧ ∀ k, d = .kernel k → e = .kernel k := by
  cases e with
  | kernel e =>
      obtain ⟨loop, hloop, rfl⟩ := Option.map_eq_some_iff.mp h
      exact Or.inr ⟨.kernel e, hloop, fun k hk => by cases hk; rfl⟩
  | poll e =>
      obtain ⟨_, loop, hloop, rfl⟩ := step_poll h
      exact Or.inr ⟨e.toEvent, hloop, fun k hk => by cases e <;> cases hk⟩
  | dispatch =>
      obtain ⟨cqe, rest, _, hpc, rfl⟩ := step_dispatch h
      refine Or.inr ⟨.dispatch, ?_, fun k hk => by cases hk⟩
      rw [EventLoop.step_dispatch_of_dispatching hpc]
      rcases dispatchNext_cases s cqe rest with ⟨_, heq⟩ | ⟨f, _, heq⟩ <;> rw [heq]
  | resume f =>
      obtain ⟨_, _, _, rfl⟩ := step_resume h
      exact Or.inl rfl
  | park f =>
      obtain ⟨_, _, rfl⟩ := step_park h
      exact Or.inl rfl
  | call f req timed =>
      obtain ⟨_, _, rfl⟩ := step_call h
      exact Or.inl rfl
  | get f =>
      obtain ⟨stage, starved, hrunning, _, rfl⟩ := step_get h
      refine Or.inr ⟨.submit (stage.sqe f (s.calls f)) starved, ?_, fun k hk => by cases hk⟩
      rw [EventLoop.step_submit_of_ready (hsched.running f hrunning).1]
      rcases get_cases s f stage starved with ⟨ring, _, htry, _, heq⟩ | ⟨hfull, heq⟩
      · rw [heq, htry]; rfl
      · rw [heq, Ring.trySubmit_eq_none_iff.mpr hfull]; rfl
  | flush f =>
      obtain ⟨timed, hrunning, _, rfl⟩ := step_flush h
      exact Or.inr ⟨.flush, EventLoop.step_flush_of_ready (hsched.running f hrunning).1,
        fun k hk => by cases hk⟩
  | count f err =>
      obtain ⟨timed, _, _, rfl⟩ := step_count h
      left
      rcases count_cases s f timed (s.submitRet err) with ⟨_, _, heq⟩ | ⟨_, heq⟩ <;> rw [heq]
  | finish f =>
      obtain ⟨timed, _, _, rfl⟩ := step_finish h
      exact Or.inl rfl

theorem simulates_loop : Simulates (step (ι := ι)) (fun s _ => s.Scheduled) EventLoop.step
    (fun _ _ => True) loop := by
  intro s e s' hsched h
  rcases loop_step hsched h with heq | ⟨d, hstep, _⟩
  · exact Or.inl heq
  · exact Or.inr ⟨d, trivial, hstep⟩

theorem scheduled_throughout (entries capacity : Nat) (fits : entries + capacity < 2 ^ 64)
    (maxAttempts : UInt64) (es : List (Event ι)) :
    Throughout step Scheduled (init entries capacity fits maxAttempts) es :=
  throughout_of_invariant es (scheduled_init entries capacity fits maxAttempts)
    fun _ _ _ hsched hstep => step_scheduled hsched hstep

/-- Every run of the fibers keeps what every run of a ring with a poller keeps. -/
theorem throughout_of_loop {P : EventLoop (Ptr ι) ι → Prop} (entries capacity : Nat)
    (fits : entries + capacity < 2 ^ 64) (maxAttempts : UInt64) (es : List (Event ι))
    (hP : ∀ ds, Throughout EventLoop.step P
      (EventLoop.init entries capacity fits maxAttempts freshSetters) ds) :
    Throughout step (fun s => P s.loop) (init entries capacity fits maxAttempts) es :=
  simulates_loop.throughout (scheduled_throughout entries capacity fits maxAttempts es).along
    fun ds _ => hP ds

theorem pendingExact_fibers (entries capacity : Nat) (fits : entries + capacity < 2 ^ 64)
    (maxAttempts : UInt64) (es : List (Event ι)) :
    Throughout step (fun s => s.loop.ring.CountsPending)
      (init entries capacity fits maxAttempts : Runtime ι) es :=
  throughout_of_loop entries capacity fits maxAttempts es fun ds =>
    throughout_of_invariant ds (Ring.countsPending_init entries capacity fits)
      fun _ _ _ hcount hstep => EventLoop.step_countsPending hcount hstep

end Runtime

end Hnet
