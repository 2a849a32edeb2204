import Hnet.Proof.BlockingCalls

/-!
# What `HasPending` tells the scheduler

A fiber in `Suspend` has a CQE still to come, and `HasPending` is true exactly while some fiber
waits for one. So a scheduler that goes on as long as there is a runnable fiber or a pending
completion leaves no fiber behind. What this takes is that each setter a fiber has queued is still
to be heard of or has been dispatched, which a `TryPoll` that blocks with a CQE in hand breaks.
-/

namespace Hnet.Runtime

open Lts

variable {ι : Type} [DecidableEq ι] {s s' : Runtime ι}

instance (s : Runtime ι) : ∀ e, Decidable (s.NothingLost e)
  | .poll e => inferInstanceAs (Decidable (s.loop.LimitFindsNothing e.toEvent))
  | .kernel _ | .dispatch | .resume _ | .park _ | .call _ _ _ | .get _ | .flush _ | .count _ _
  | .finish _ => isTrue trivial

structure WaitInv (s : Runtime ι) : Prop where
  wake : s.WakeInv
  covered : ∀ f, ∀ obj ∈ (s.pc f).queued, ⟨f, s.calls f, obj⟩ ∈ s.loop.undispatched ∨
    ⟨f, s.calls f, obj⟩ ∈ s.loop.dispatched.map Cqe.userData
  asleep : ∀ f timed, s.pc f = .suspended timed →
    ¬ Completed s.loop.dispatched f (s.calls f)

/-! ### Every step -/

theorem waitInv_of_same (hinv : s.WaitInv) (hwake : s'.WakeInv) (hpc : s'.pc = s.pc)
    (hcalls : s'.calls = s.calls) (hdispatched : s'.loop.dispatched = s.loop.dispatched)
    (hsame : s'.loop.undispatched = s.loop.undispatched) : s'.WaitInv where
  wake := hwake
  covered := by
    rw [hpc, hcalls, hdispatched, hsame]
    exact hinv.covered
  asleep := by
    rw [hpc, hcalls, hdispatched]
    exact hinv.asleep

/-- A step of one fiber that dispatches nothing. -/
theorem waitInv_of_fiber {f : ι} (hinv : s.WaitInv) (hwake : s'.WakeInv)
    (hpc : ∀ g, g ≠ f → s'.pc g = s.pc g) (hcalls : ∀ g, g ≠ f → s'.calls g = s.calls g)
    (hdispatched : s'.loop.dispatched = s.loop.dispatched)
    (hkept : ∀ p ∈ s.loop.undispatched, p ∈ s'.loop.undispatched)
    (hcovered : ∀ obj ∈ (s'.pc f).queued, ⟨f, s'.calls f, obj⟩ ∈ s'.loop.undispatched ∨
      ⟨f, s'.calls f, obj⟩ ∈ s.loop.dispatched.map Cqe.userData)
    (hasleep : ∀ timed, s'.pc f = .suspended timed →
      ¬ Completed s.loop.dispatched f (s'.calls f)) : s'.WaitInv where
  wake := hwake
  covered g obj hobj := by
    rw [hdispatched]
    by_cases hg : g = f
    · rw [hg] at hobj ⊢
      exact hcovered obj hobj
    · rw [hpc g hg] at hobj
      rw [hcalls g hg]
      exact (hinv.covered g obj hobj).imp_left (hkept _)
  asleep g timed hsuspended := by
    rw [hdispatched]
    by_cases hg : g = f
    · rw [hg] at hsuspended ⊢
      exact hasleep timed hsuspended
    · rw [hpc g hg] at hsuspended
      rw [hcalls g hg]
      exact hinv.asleep g timed hsuspended

omit [DecidableEq ι] in
/-- A setter that is waited for completes no call. -/
theorem CallInv.not_completed (hinv : s.CallInv) (hheard : s.Heard) {f : ι} {obj : StackObj}
    (hmem : ⟨f, s.calls f, obj⟩ ∈ s.loop.undispatched) :
    ¬ Completed s.loop.dispatched f (s.calls f) := by
  intro hdone
  have hobj := Pc.mem_queued_of_live (hinv.live _ hmem).2
  have hdispatched := mem_of_completed (fun p hp => hinv.queued_of_dispatched hheard hp) hobj hdone
  exact (hheard.set_iff _).mpr hdispatched (hinv.unset _ hmem)

theorem waitInv_dispatches {cqe : Cqe (Ptr ι)} {rest : List (Cqe (Ptr ι))} (hinv : s.WaitInv)
    (hheard : s.Heard) (hpc : s.loop.pc = .dispatching cqe rest)
    (hcons : s.loop.undispatched
      = cqe.userData ::ₘ (s.dispatchNext cqe rest).loop.undispatched)
    (hwake : (s.dispatchNext cqe rest).WakeInv) : (s.dispatchNext cqe rest).WaitInv := by
  have hfront := hinv.wake.calls.inFront hheard hpc
  obtain ⟨hcalls, _, _⟩ := dispatchNext_frame s cqe rest
  obtain ⟨hdispatched, _⟩ := dispatchNext_history s cqe rest
  refine ⟨hwake, fun f obj hobj => ?_, fun f timed hsuspended => ?_⟩
  · have hqueued : obj ∈ (s.pc f).queued := by
      rcases dispatchNext_pc s cqe rest with hpcs | ⟨g, timed, hg, _, hpcs⟩
      · rwa [hpcs] at hobj
      · by_cases hfg : f = g
        · rw [hpcs, hfg, Function.update_self] at hobj
          rw [hfg, hg]
          exact hobj
        · rwa [hpcs, Function.update_of_ne hfg] at hobj
    rw [hcalls, hdispatched, List.map_append, List.map_singleton]
    rcases hinv.covered f obj hqueued with hmem | hmem
    · rcases Multiset.mem_cons.mp (hcons ▸ hmem) with heq | hmem
      · rw [heq]
        exact Or.inr (List.mem_append_right _ (List.mem_singleton_self _))
      · exact Or.inl hmem
    · exact Or.inr (List.mem_append_left _ hmem)
  · rw [hcalls, hdispatched]
    have hold : s.pc f = .suspended timed := by
      rcases dispatchNext_pc s cqe rest with hpcs | ⟨g, timed', _, _, hpcs⟩
      · rwa [hpcs] at hsuspended
      · by_cases hfg : f = g
        · rw [hpcs, hfg, Function.update_self] at hsuspended
          cases hsuspended
        · rwa [hpcs, Function.update_of_ne hfg] at hsuspended
    by_cases heq : (f, s.calls f) = (cqe.userData.fiber, cqe.userData.call)
    · -- the CQE is one of this call; had it completed the call, the fiber would have been woken
      obtain ⟨rfl, hcall⟩ := Prod.mk.inj heq
      intro hdone
      rw [hcall] at hdone
      have hreturns := (hfront.dispatch_eq_some_iff hinv.wake.calls hheard).mpr ⟨rfl, hdone⟩
      rcases dispatchNext_cases s cqe rest with ⟨hnone, _⟩ | ⟨g, hsome, hnext⟩
      · rw [hnone] at hreturns
        cases hreturns
      · obtain rfl := Option.some.inj (hsome.symm.trans hreturns)
        have hwoken : (s.dispatchNext cqe rest).pc cqe.userData.fiber = .woken timed := by
          rw [hnext]
          exact (Function.update_self _ _ _).trans (congrArg Pc.wake hold)
        rw [hwoken] at hsuspended
        cases hsuspended
    · rw [completed_concat_of_ne heq]
      exact hinv.asleep f timed hold

theorem step_waitInv {e : Event ι} (hinv : s.WaitInv) (hheard : s.Heard) (hok : s.CountPasses e)
    (hlost : s.NothingLost e) (h : s.step e = some s') : s'.WaitInv := by
  have hwake := step_wakeInv hinv.wake hheard hok h
  cases callStep_of_step h with
  | outside hpc hcalls _ _ _ hdispatched _ _ _ hsame =>
      exact waitInv_of_same hinv hwake hpc hcalls hdispatched (hsame (Or.inl hlost))
  | begins f req timed hidle hs' =>
      subst hs'
      have hgetting : (s.call f req timed).pc f
          = .getting (if timed then .op req else .plain req) false := Function.update_self _ _ _
      refine waitInv_of_fiber hinv hwake (fun g hg => Function.update_of_ne hg _ _)
        (fun g hg => Function.update_of_ne hg _ _) rfl (fun _ hp => hp) (fun obj hobj => ?_)
        fun timed' hsuspended => ?_
      · rw [hgetting] at hobj
        cases timed <;> cases hobj
      · rw [hgetting] at hsuspended
        cases hsuspended
  | moves f pc hmoves hpc hcalls _ _ _ hdispatched _ _ hsame =>
      have hself : s'.pc f = pc := by rw [hpc, Function.update_self]
      refine waitInv_of_fiber hinv hwake (fun g hg => by rw [hpc, Function.update_of_ne hg])
        (fun g _ => congrFun hcalls g) hdispatched (fun p hp => hsame ▸ hp) (fun obj hobj => ?_)
        fun timed hsuspended => ?_
      · rw [hself, hmoves.queued] at hobj
        rw [hcalls, hsame]
        exact hinv.covered f obj hobj
      · rw [hself] at hsuspended
        have hsubmitted : s.pc f = .submitted timed := by
          generalize s.pc f = old at hmoves
          subst hsuspended
          cases hmoves
          rfl
        rw [hcalls]
        exact hinv.wake.calls.not_completed hheard
          (hinv.wake.calls.last f timed (Or.inr hsubmitted))
  | queues f stage starved hgetting hpc hcalls _ _ _ hdispatched _ _ hcons =>
      have hself : s'.pc f = stage.next := by rw [hpc, Function.update_self]
      refine waitInv_of_fiber hinv hwake (fun g hg => by rw [hpc, Function.update_of_ne hg])
        (fun g _ => congrFun hcalls g) hdispatched
        (fun p hp => hcons ▸ Multiset.mem_cons_of_mem hp) (fun obj hobj => ?_)
        fun timed hsuspended => ?_
      · rw [hself, stage.queued_next starved, List.mem_append] at hobj
        rw [hcalls, hcons]
        rcases hobj with hobj | hobj
        · rw [← hgetting] at hobj
          exact (hinv.covered f obj hobj).imp_left Multiset.mem_cons_of_mem
        · rw [List.mem_singleton.mp hobj]
          exact Or.inl (Multiset.mem_cons_self _ _)
      · rw [hself] at hsuspended
        cases stage <;> cases hsuspended
  | throws f code _ _ hfails _ => exact absurd hok hfails
  | finishes f timed hwoken hs' =>
      subst hs'
      have hidle : (s.finish f timed).pc f = .idle := Function.update_self _ _ _
      refine waitInv_of_fiber hinv hwake (fun g hg => Function.update_of_ne hg _ _)
        (fun _ _ => rfl) rfl (fun _ hp => hp) (fun obj hobj => ?_) fun timed' hsuspended => ?_
      · rw [hidle] at hobj
        cases hobj
      · rw [hidle] at hsuspended
        cases hsuspended
  | dispatches cqe rest _ hpc hcons hs' =>
      subst hs'
      exact waitInv_dispatches hinv hheard hpc hcons hwake

/-! ### What follows from it -/

theorem WaitInv.suspended (hinv : s.WaitInv) {f : ι} {timed : Bool}
    (hpc : s.pc f = .suspended timed) :
    ∃ obj ∈ callSetters timed, ⟨f, s.calls f, obj⟩ ∈ s.loop.undispatched := by
  by_contra hnone
  have hheard : ∀ obj ∈ callSetters timed,
      ⟨f, s.calls f, obj⟩ ∈ s.loop.dispatched.map Cqe.userData := by
    intro obj hobj
    refine (hinv.covered f obj ?_).resolve_left fun hmem => hnone ⟨obj, hobj, hmem⟩
    rw [hpc]
    exact hobj
  refine hinv.asleep f timed hpc ?_
  cases timed with
  | false => exact Or.inl (hheard _ List.mem_cons_self)
  | true =>
      exact Or.inr ⟨hheard _ List.mem_cons_self,
        hheard _ (List.mem_cons_of_mem _ (List.mem_singleton_self _))⟩

theorem waitInv_throughout (entries capacity : Nat) (fits : entries + capacity < 2 ^ 64)
    (maxAttempts : UInt64) (es : List (Event ι))
    (hlost : Along step NothingLost (init entries capacity fits maxAttempts) es)
    (hcount : Along step CountPasses (init entries capacity fits maxAttempts) es)
    (hkernel : Along step SparesEnocqe (init entries capacity fits maxAttempts) es) :
    Throughout step (fun s : Runtime ι => s.WaitInv ∧ s.Heard)
      (init entries capacity fits maxAttempts) es := by
  have hwake := wakeInv_throughout entries capacity fits maxAttempts es hcount hkernel
  have hinit : (init entries capacity fits maxAttempts : Runtime ι).WaitInv :=
    ⟨hwake.first.1, fun _ _ hobj => (by cases hobj), fun _ _ hpc => (by cases hpc)⟩
  have hinv := ((hlost.and hcount).and hwake.along).throughout hinit
    fun s e s' hs ⟨⟨hlost, hok⟩, hheard⟩ hstep => step_waitInv hs hheard.2 hok hlost hstep
  exact (hinv.and hwake).imp fun s h => ⟨h.1, h.2.2⟩

end Hnet.Runtime
