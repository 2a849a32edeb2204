import Hnet.Proof.Calls
import Mathlib.Data.Fintype.Basic

/-!
# Does every pointer the kernel holds lead to a live stack frame?

The setters, the timespec and the buffers of a call live on the stack of its fiber. A call that
suspends is left after its last CQE has been dispatched, so nothing of it is outstanding then. The
other way out is the count check of the timed call, between its second `io_uring_submit` and
`Suspend`: both SQEs are queued at that point, and the CQE of the second one cannot have been
consumed, since the fiber has not given way in between.
-/

namespace Hnet.Runtime

open Lts

variable {ι : Type} [DecidableEq ι] {s s' : Runtime ι}

/-- The call this address lies in has begun and has not been left. -/
def Alive (s : Runtime ι) (p : Ptr ι) : Prop := p.call = s.calls p.fiber ∧ s.pc p.fiber ≠ .idle

/-- The promise of `ring_submit` to its callers. No call that has been left has an SQE in the
submission queue or in the kernel, or a CQE that has not been consumed; every `user_data` that is
outstanding or about to be dispatched names a setter of a call that has not been left, and every
SQE works on memory of such a call: a LINK_TIMEOUT on its timespec, the others on its request. -/
structure StackSafe (s : Runtime ι) : Prop where
  left : ∀ l ∈ s.left, ∀ p ∈ s.loop.ring.ring.outstanding, ¬ (p.fiber = l.fiber ∧ p.call = l.call)
  setter : ∀ p ∈ s.loop.undispatched, s.Alive p ∧
    (p.obj = .resSetter ∨ p.obj = .opResSetter ∨ p.obj = .timeoutResSetter)
  memory : ∀ x ∈ s.loop.ring.ring.held, s.Alive x.addr ∧
    x.addr.obj = if x.userData.obj = .timeoutResSetter then .kernelTs else .request

omit [DecidableEq ι] in
theorem mem_undispatched_of_outstanding {p : Ptr ι} (hp : p ∈ s.loop.ring.ring.outstanding) :
    p ∈ s.loop.undispatched :=
  Multiset.mem_add.mpr (Or.inl hp)

omit [DecidableEq ι] in
theorem CallInv.stackSafe (hinv : s.CallInv) : s.StackSafe := by
  have halive : ∀ p ∈ s.loop.undispatched, s.Alive p := fun p hp => by
    obtain ⟨hcall, hobj⟩ := hinv.live p hp
    exact ⟨hcall, fun hidle => by rw [hidle] at hobj; cases hobj⟩
  refine ⟨fun l hl p hp hsame => ?_, fun p hp => ⟨halive p hp, ?_⟩, fun x hx => ?_⟩
  · obtain ⟨hcall, hpc⟩ := halive p (mem_undispatched_of_outstanding hp)
    have hl := hinv.left l hl
    rw [← hsame.1, ← hsame.2] at hl
    rcases hl with hlt | ⟨_, hidle⟩
    · omega
    · exact hpc hidle
  · exact Pc.setter_of_mem_queued (Pc.mem_queued_of_live (hinv.live p hp).2)
  · have hlive := halive x.userData (EventLoop.mem_undispatched_of_held hx)
    obtain ⟨stage, f, call, rfl⟩ := hinv.built x hx
    cases stage <;> exact ⟨hlive, rfl⟩

/-- A failing count check leaves a call whose LINK_TIMEOUT is outstanding. -/
theorem not_stackSafe_of_throws {e : Event ι} (hinv : s.CallInv) (hbad : ¬ s.CountPasses e)
    (h : s.step e = some s') : ¬ s'.StackSafe := by
  obtain ⟨f, err, rfl, hpc, hret⟩ : ∃ f err, e = .count f err ∧ s.pc f = .submitted true ∧
      ¬ (err.isNone = true ∧ s.loop.ring.ring.unconsumed ≠ 1) := by
    cases e with
    | count f err => exact ⟨f, err, rfl, Classical.not_imp.mp hbad⟩
    | _ => exact absurd trivial hbad
  obtain ⟨timed, hrunning, hpc', rfl⟩ := step_count h
  obtain rfl : timed = true := (Pc.submitted.inj (hpc.symm.trans hpc')).symm
  rcases count_cases s f true (s.submitRet err) with ⟨_, _, heq⟩ | ⟨hpasses, _⟩
  · rw [heq]
    intro hsafe
    have hlast := hinv.last f true (Or.inr hpc)
    rw [EventLoop.undispatched_of_ready (hinv.sched.running f hrunning).1] at hlast
    exact hsafe.left _ (List.mem_append_right _ (List.mem_singleton_self _)) _ hlast ⟨rfl, rfl⟩
  · have hreturns := Classical.not_not.mp fun hnot => hpasses ⟨rfl, hnot⟩
    exact absurd ((submitRet_passes_iff s err).mp hreturns) hret

/-- **Every outstanding pointer leads to a live stack frame exactly when** the count check of each
timed call passes. -/
theorem stackSafe_throughout_iff (entries capacity : Nat) (fits : entries + capacity < 2 ^ 64)
    (maxAttempts : UInt64) (es : List (Event ι)) :
    Throughout step StackSafe (init entries capacity fits maxAttempts : Runtime ι) es ↔
      Along step CountPasses (init entries capacity fits maxAttempts) es :=
  throughout_iff_along es (callInv_init entries capacity fits maxAttempts)
    (fun _ hinv => hinv.stackSafe) (fun _ _ _ hinv hok hstep => step_callInv hinv hok hstep)
    fun _ _ _ hinv hbad hstep => not_stackSafe_of_throws hinv hbad hstep

/-- A timed call that is over before its timeout. -/
def settledRun {κ : Type} (f : κ) : List (Event κ) :=
  let recv : Request := ⟨.recvmsg, true, true⟩
  [.resume f, .call f recv true, .get f, .get f, .flush f, .count f none, .kernel .consume,
    .kernel .consume, .kernel (.complete 0 5), .kernel (.complete 0 (-ENOENT)),
    .poll .tryPollMany, .dispatch, .dispatch, .resume f, .finish f]

theorem stackSafe_settledRun :
    (run step (init 8 8 (by decide) 1000000) (settledRun (0 : Fin 1))).map (fun s => s.left)
        = some [⟨0, 1, true, .returned 5⟩] ∧
      Throughout step StackSafe (init 8 8 (by decide) 1000000) (settledRun (0 : Fin 1)) :=
  ⟨by decide, (stackSafe_throughout_iff 8 8 (by decide) 1000000 (settledRun 0)).mpr (by decide)⟩

/-- The kernel consumes the operation of a timed call between the two things its second
`io_uring_submit` does, publishing the queue and counting what is left of it. -/
def raceRun {κ : Type} (f : κ) : List (Event κ) :=
  let recv : Request := ⟨.recvmsg, true, true⟩
  [.resume f, .call f recv true, .get f, .get f, .flush f, .kernel .consume, .count f none]

/-- The call throws. Its LINK_TIMEOUT is in the submission queue and its operation in the kernel. -/
theorem raceRun_left :
    (run step (init 8 8 (by decide) 1000000) (raceRun (0 : Fin 1))).map (fun s => (s.left,
        s.loop.ring.ring.queued.map Sqe.userData, s.loop.ring.ring.inKernel.map Sqe.userData))
      = some ([⟨0, 1, true, .threw (-1)⟩], [⟨0, 1, .timeoutResSetter⟩],
        [⟨0, 1, .opResSetter⟩]) := by
  decide

theorem not_stackSafe_raceRun :
    ¬ Throughout step StackSafe (init 8 8 (by decide) 1000000) (raceRun (0 : Fin 1)) := by
  intro h
  obtain ⟨s, hrun, hleft⟩ := Option.map_eq_some_iff.mp raceRun_left
  simp only [Prod.mk.injEq] at hleft
  obtain ⟨hleft, hqueued, _⟩ := hleft
  refine (h.last hrun).left ⟨0, 1, true, .threw (-1)⟩
    (by rw [hleft]; exact List.mem_singleton_self _) ⟨0, 1, .timeoutResSetter⟩ ?_ ⟨rfl, rfl⟩
  simp only [IoUring.outstanding, IoUring.held, List.map_append, hqueued]
  simp

end Hnet.Runtime
