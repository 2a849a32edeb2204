import Hnet.Proof.Calls
import Mathlib.Data.Fintype.Basic

/-!
# When does `dispatch` return a fiber?

`dispatch` asks the setter of the CQE: a plain call is woken by its only CQE, a timed one when both
of its setters have lost the sentinel `-ENOCQE`. As long as the kernel never reports that value and
no count check fails, a setter has lost it exactly when its CQE has been dispatched. So the fiber is
returned once, with the last CQE of its call, and by then it is suspended in that call.
-/

namespace Hnet.Runtime

open Lts

variable {ι : Type} [DecidableEq ι] {s s' : Runtime ι}

/-- All CQEs of a call are among these: the only one of a plain call, both of a timed one. -/
def Completed (cqes : List (Cqe (Ptr ι))) (f : ι) (call : Nat) : Prop :=
  ⟨f, call, .resSetter⟩ ∈ cqes.map Cqe.userData ∨
    (⟨f, call, .opResSetter⟩ ∈ cqes.map Cqe.userData ∧
      ⟨f, call, .timeoutResSetter⟩ ∈ cqes.map Cqe.userData)

instance (cqes : List (Cqe (Ptr ι))) (f : ι) (call : Nat) : Decidable (Completed cqes f call) :=
  inferInstanceAs (Decidable (_ ∨ _))

/-- The kernel has posted exactly one CQE for this setter, with this result. -/
def OwnResult (s : Runtime ι) (p : Ptr ι) (res : Int) : Prop :=
  s.loop.ring.ring.cqes.filter (fun c => c.userData = p) = [⟨p, res⟩]

def SparesEnocqe (_ : Runtime ι) : Event ι → Prop
  | .kernel (.complete _ res) => res ≠ -ENOCQE
  | _ => True

instance (s : Runtime ι) : ∀ e, Decidable (s.SparesEnocqe e)
  | .kernel (.complete _ res) => inferInstanceAs (Decidable (res ≠ -ENOCQE))
  | .kernel .consume | .poll _ | .dispatch | .resume _ | .park _ | .call _ _ _ | .get _ | .flush _
  | .count _ _ | .finish _ => isTrue trivial

/-- The promise of `dispatch`, `Suspend` and the setters. -/
structure WakesRight (s : Runtime ι) : Prop where
  /-- the next `dispatch` returns a fiber exactly when it has got the last CQE of the call -/
  returns : ∀ cqe rest, s.loop.pc = .dispatching cqe rest → ∀ f,
    (dispatch s.loop.setters cqe).2 = some f ↔ cqe.userData.fiber = f ∧
      Completed (s.loop.dispatched ++ [cqe]) f cqe.userData.call
  /-- and that fiber is suspended in that very call -/
  asleep : ∀ cqe rest f, s.loop.pc = .dispatching cqe rest →
    (dispatch s.loop.setters cqe).2 = some f →
      cqe.userData.call = s.calls f ∧ ∃ timed, s.pc f = .suspended timed
  /-- the fiber of a call has been returned once if all its CQEs have been dispatched, never
  before -/
  once : ∀ f call, s.wakes.count (f, call) = if Completed s.loop.dispatched f call then 1 else 0
  /-- a fiber resumes with each setter of its call set by its own CQE -/
  resumes : ∀ f timed, s.pc f = .woken timed → ∀ obj ∈ callSetters timed,
    s.OwnResult ⟨f, s.calls f, obj⟩ (s.res f obj)
  /-- a plain call returns what the kernel gave for its SQE -/
  plain : ∀ l ∈ s.left, l.timed = false →
    ∃ res, s.OwnResult ⟨l.fiber, l.call, .resSetter⟩ res ∧ l.outcome = .returned res
  timed : ∀ l ∈ s.left, l.timed = true →
    ∃ op timeout, s.OwnResult ⟨l.fiber, l.call, .opResSetter⟩ op ∧
      s.OwnResult ⟨l.fiber, l.call, .timeoutResSetter⟩ timeout ∧
      l.outcome = timedOutcome op timeout
  noPanic : ∀ l ∈ s.left, l.outcome ≠ .panicked

/-! ### What the setters say -/

/-- A setter has lost the sentinel exactly when its CQE has been dispatched, and holds what the
kernel posted for it. -/
structure Heard (s : Runtime ι) : Prop where
  set_iff : ∀ p, (s.loop.setters p).res ≠ -ENOCQE ↔ p ∈ s.loop.dispatched.map Cqe.userData
  posted : ∀ p ∈ s.loop.dispatched.map Cqe.userData,
    ⟨p, (s.loop.setters p).res⟩ ∈ s.loop.ring.ring.cqes
  pending : ∀ c ∈ s.loop.pc.pending, c.res ≠ -ENOCQE

theorem heard_of_delivered (hdel : EventLoop.Delivered freshSetters s.loop)
    (hspared : ∀ c ∈ s.loop.ring.ring.cqes, c.res ≠ -ENOCQE) : s.Heard := by
  have hcases : ∀ p, (p ∉ s.loop.dispatched.map Cqe.userData
      ∧ (s.loop.setters p).res = -ENOCQE) ∨
      ⟨p, (s.loop.setters p).res⟩ ∈ s.loop.dispatched := fun p => by
    rw [hdel.result p]
    exact resAfter_cases s.loop.dispatched p (-ENOCQE)
  refine ⟨fun p => ?_, fun p hp => ?_, fun c hc => hspared c (hdel.pending c hc)⟩
  · rcases hcases p with ⟨hnot, hres⟩ | hmem
    · exact iff_of_false (fun hne => hne hres) hnot
    · exact iff_of_true (hspared _ (hdel.dispatched _ hmem)) (List.mem_map_of_mem hmem)
  · rcases hcases p with ⟨hnot, _⟩ | hmem
    · exact absurd hp hnot
    · exact hdel.dispatched _ hmem

theorem heard_throughout (entries capacity : Nat) (fits : entries + capacity < 2 ^ 64)
    (maxAttempts : UInt64) (es : List (Event ι))
    (hkernel : Along step SparesEnocqe (init entries capacity fits maxAttempts) es) :
    Throughout step Heard (init entries capacity fits maxAttempts) es := by
  have hspared : Throughout step
      (fun s : Runtime ι => ∀ c ∈ s.loop.ring.ring.cqes, c.res ≠ -ENOCQE)
      (init entries capacity fits maxAttempts) es := by
    have hscheduled := (scheduled_throughout entries capacity fits maxAttempts es).along
    refine (hkernel.and hscheduled).throughout
      (fun c hc => by cases hc) fun s e s' hspared ⟨hok, hsched⟩ hstep c hc => ?_
    rcases loop_step hsched hstep with heq | ⟨d, hloop, hkernel⟩
    · rw [heq] at hc
      exact hspared c hc
    · obtain ⟨posted, hcqes, hres⟩ := EventLoop.step_cqes hloop
      rw [hcqes] at hc
      rcases List.mem_append.mp hc with hc | hc
      · exact hspared c hc
      · obtain ⟨i, rfl⟩ := hres c hc
        rw [hkernel _ rfl] at hok
        exact hok
  have hdel := throughout_of_loop (ι := ι) entries capacity fits maxAttempts es
    (EventLoop.delivered_throughout entries capacity fits maxAttempts freshSetters)
  exact (hdel.and hspared).imp fun s h => heard_of_delivered h.1 h.2

/-! ### The last CQE of a call -/

omit [DecidableEq ι] in
/-- A setter of the current call that has been queued is one its fiber's place accounts for. -/
theorem mem_queued_of_not_notQueued {f : ι} {obj : StackObj} (hbusy : s.pc f ≠ .idle)
    (h : ¬ s.NotQueued ⟨f, s.calls f, obj⟩) : obj ∈ (s.pc f).queued := by
  by_contra hnot
  exact h (Or.inr ⟨rfl, hbusy, hnot⟩)

omit [DecidableEq ι] in
/-- If the current call is completed by CQEs of setters that have been queued, each setter it has
queued has its CQE among them. -/
theorem mem_of_completed {cqes : List (Cqe (Ptr ι))} {f : ι} {obj : StackObj}
    (hqueued : ∀ p ∈ cqes.map Cqe.userData, ¬ s.NotQueued p) (hobj : obj ∈ (s.pc f).queued)
    (hdone : Completed cqes f (s.calls f)) : ⟨f, s.calls f, obj⟩ ∈ cqes.map Cqe.userData := by
  have hbusy : s.pc f ≠ .idle := fun hidle => by
    rw [hidle] at hobj
    cases hobj
  rcases hdone with hplain | ⟨hop, htimeout⟩
  · rwa [Pc.eq_resSetter (mem_queued_of_not_notQueued hbusy (hqueued _ hplain)) hobj]
  · rcases Pc.eq_of_timeoutResSetter (mem_queued_of_not_notQueued hbusy (hqueued _ htimeout)) hobj
      with rfl | rfl
    · exact hop
    · exact htimeout

omit [DecidableEq ι] in
theorem CallInv.queued_of_dispatched (hinv : s.CallInv) (hheard : s.Heard) {p : Ptr ι}
    (hp : p ∈ s.loop.dispatched.map Cqe.userData) : ¬ s.NotQueued p :=
  fun hnot => (hheard.set_iff p).mpr hp (hinv.fresh p hnot).1

/-! ### The CQE about to be dispatched -/

/-- What is known of a CQE in front of `dispatch`: its call is the current one of its fiber and has
queued its setter. -/
structure InFront (s : Runtime ι) (cqe : Cqe (Ptr ι)) : Prop where
  call : cqe.userData.call = s.calls cqe.userData.fiber
  live : cqe.userData.obj ∈ (s.pc cqe.userData.fiber).live
  unset : (s.loop.setters cqe.userData).res = -ENOCQE
  res : cqe.res ≠ -ENOCQE
  queued : ∀ p ∈ (s.loop.dispatched ++ [cqe]).map Cqe.userData, ¬ s.NotQueued p

omit [DecidableEq ι] in
theorem CallInv.inFront (hinv : s.CallInv) (hheard : s.Heard) {cqe : Cqe (Ptr ι)}
    {rest : List (Cqe (Ptr ι))} (hpc : s.loop.pc = .dispatching cqe rest) : s.InFront cqe := by
  have hpending : cqe ∈ s.loop.pc.pending := by
    rw [hpc]
    exact List.mem_cons_self
  have hmem : cqe.userData ∈ s.loop.undispatched :=
    Multiset.mem_add.mpr (Or.inr (Multiset.mem_coe.mpr (List.mem_map_of_mem hpending)))
  refine ⟨(hinv.live _ hmem).1, (hinv.live _ hmem).2, hinv.unset _ hmem,
    hheard.pending cqe hpending, fun p hp => ?_⟩
  rw [List.map_append, List.mem_append, List.map_singleton, List.mem_singleton] at hp
  rcases hp with hp | rfl
  · exact hinv.queued_of_dispatched hheard hp
  · exact fun hnot => hinv.notMem_of_notQueued hnot hmem

section Dispatch

variable {cqe : Cqe (Ptr ι)} {f : ι}

omit [DecidableEq ι] in
theorem InFront.not_completed (hfront : s.InFront cqe) (hheard : s.Heard) :
    ¬ Completed s.loop.dispatched cqe.userData.fiber cqe.userData.call := by
  intro hdone
  rw [hfront.call] at hdone
  have hmem := mem_of_completed
    (fun p hp => hfront.queued p (by rw [List.map_append]; exact List.mem_append_left _ hp))
    (Pc.mem_queued_of_live hfront.live) hdone
  rw [← hfront.call] at hmem
  exact (hheard.set_iff _).mpr hmem hfront.unset

/-- `dispatch` returns its fiber exactly when it completes the call. -/
theorem InFront.dispatch_eq_some_iff (hfront : s.InFront cqe) (hinv : s.CallInv)
    (hheard : s.Heard) : (dispatch s.loop.setters cqe).2 = some f ↔ cqe.userData.fiber = f ∧
      Completed (s.loop.dispatched ++ [cqe]) f cqe.userData.call := by
  have hset : ∀ p, (s.loop.setters.store cqe p).res ≠ -ENOCQE ↔
      p ∈ (s.loop.dispatched ++ [cqe]).map Cqe.userData := fun p => by
    rw [Setters.store_res, List.map_append, List.mem_append, List.map_singleton,
      List.mem_singleton]
    by_cases heq : cqe.userData = p
    · rw [if_pos heq]
      exact iff_of_true hfront.res (Or.inr heq.symm)
    · rw [if_neg heq, hheard.set_iff p]
      exact (or_iff_left (Ne.symm heq)).symm
  have hbusy : s.pc cqe.userData.fiber ≠ .idle := fun hidle => by
    have hlive := hfront.live
    rw [hidle] at hlive
    cases hlive
  rw [hinv.dispatch_eq_some_iff]
  refine and_congr_right fun hfiber => ?_
  subst hfiber
  rw [checkBothSet, Bool.and_eq_true, bne_iff_ne, bne_iff_ne, hset, hset]
  refine ⟨Or.imp_left fun hplain => ?_, fun hdone => hdone.imp_left fun hplain => ?_⟩
  · rw [← hplain, List.map_append]
    exact List.mem_append_right _ (List.mem_singleton_self _)
  · rw [hfront.call] at hplain
    exact Pc.eq_resSetter (mem_queued_of_not_notQueued hbusy (hfront.queued _ hplain))
      (Pc.mem_queued_of_live hfront.live)

omit [DecidableEq ι] in
theorem InFront.suspended (hfront : s.InFront cqe) (hsched : s.Scheduled)
    (hrunning : s.running = none)
    (hdone : Completed (s.loop.dispatched ++ [cqe]) cqe.userData.fiber cqe.userData.call) :
    ∃ timed, s.pc cqe.userData.fiber = .suspended timed := by
  have hidle : (s.pc cqe.userData.fiber).busy = false := by
    by_contra hbusy
    have hself := hsched.busy _ (Bool.not_eq_false _ ▸ hbusy)
    rw [hrunning] at hself
    cases hself
  have hlive := hfront.live
  rw [hfront.call] at hdone
  cases hpc : s.pc cqe.userData.fiber with
  | idle => rw [hpc] at hlive; cases hlive
  | getting stage starved =>
      -- in front of the slot of the LINK_TIMEOUT, whose CQE is missing
      have hbusy : s.pc cqe.userData.fiber ≠ .idle := fun heq => by rw [hpc] at heq; cases heq
      have hobj : ∀ obj, ⟨cqe.userData.fiber, s.calls cqe.userData.fiber, obj⟩ ∈
          (s.loop.dispatched ++ [cqe]).map Cqe.userData → obj = .opResSetter := fun obj h => by
        have hqueued := mem_queued_of_not_notQueued hbusy (hfront.queued _ h)
        rw [hpc] at hqueued
        cases stage with
        | timeout => exact List.mem_singleton.mp hqueued
        | _ => cases hqueued
      rcases hdone with hplain | ⟨_, htimeout⟩
      · cases hobj _ hplain
      · cases hobj _ htimeout
  | submitting timed => rw [hpc] at hidle; cases hidle
  | submitted timed => rw [hpc] at hidle; cases hidle
  | suspended timed => exact ⟨timed, rfl⟩
  | woken timed => rw [hpc] at hlive; cases hlive

end Dispatch

/-! ### The invariant -/

/-- The call returned what its fiber made of the CQEs posted for its setters. -/
def Explained (s : Runtime ι) (l : Left ι) : Prop :=
  match l.timed with
  | false => ∃ res, ⟨⟨l.fiber, l.call, .resSetter⟩, res⟩ ∈ s.loop.ring.ring.cqes ∧
      l.outcome = .returned res
  | true => ∃ op timeout, ⟨⟨l.fiber, l.call, .opResSetter⟩, op⟩ ∈ s.loop.ring.ring.cqes ∧
      ⟨⟨l.fiber, l.call, .timeoutResSetter⟩, timeout⟩ ∈ s.loop.ring.ring.cqes ∧
      l.outcome = timedOutcome op timeout

structure WakeInv (s : Runtime ι) : Prop where
  calls : s.CallInv
  once : ∀ f call, s.wakes.count (f, call) = if Completed s.loop.dispatched f call then 1 else 0
  woken : ∀ f timed, s.pc f = .woken timed → ∀ obj ∈ callSetters timed,
    ⟨f, s.calls f, obj⟩ ∈ s.loop.dispatched.map Cqe.userData
  left : ∀ l ∈ s.left, s.Explained l

omit [DecidableEq ι] in
theorem Explained.mono {l : Left ι}
    (hposted : ∀ c ∈ s.loop.ring.ring.cqes, c ∈ s'.loop.ring.ring.cqes) (h : s.Explained l) :
    s'.Explained l := by
  rw [Explained] at h ⊢
  cases hl : l.timed with
  | false =>
      rw [hl] at h
      obtain ⟨res, hmem, hres⟩ := h
      exact ⟨res, hposted _ hmem, hres⟩
  | true =>
      rw [hl] at h
      obtain ⟨op, timeout, hop, htimeout, hres⟩ := h
      exact ⟨op, timeout, hposted _ hop, hposted _ htimeout, hres⟩

theorem step_posted {e : Event ι} (hsched : s.Scheduled) (h : s.step e = some s') :
    ∀ c ∈ s.loop.ring.ring.cqes, c ∈ s'.loop.ring.ring.cqes := by
  intro c hc
  rcases loop_step hsched h with heq | ⟨d, hloop, _⟩
  · rwa [heq]
  · obtain ⟨posted, hcqes, _⟩ := EventLoop.step_cqes hloop
    rw [hcqes]
    exact List.mem_append_left _ hc

omit [DecidableEq ι] in
theorem completed_concat_of_ne {cqes : List (Cqe (Ptr ι))} {cqe : Cqe (Ptr ι)} {f : ι} {call : Nat}
    (hne : (f, call) ≠ (cqe.userData.fiber, cqe.userData.call)) :
    Completed (cqes ++ [cqe]) f call ↔ Completed cqes f call := by
  have hmem : ∀ obj, ⟨f, call, obj⟩ ∈ (cqes ++ [cqe]).map Cqe.userData ↔
      ⟨f, call, obj⟩ ∈ cqes.map Cqe.userData := fun obj => by
    rw [List.map_append, List.mem_append, List.map_singleton, List.mem_singleton]
    exact or_iff_left fun heq => hne (by rw [← heq])
  rw [Completed, Completed, hmem, hmem, hmem]

theorem wakeInv_of_frame (hinv : s.WakeInv) (hcalls : s'.CallInv) (hwakes : s'.wakes = s.wakes)
    (hdispatched : s'.loop.dispatched = s.loop.dispatched)
    (hposted : ∀ c ∈ s.loop.ring.ring.cqes, c ∈ s'.loop.ring.ring.cqes)
    (hwoken : ∀ f timed, s'.pc f = .woken timed →
      s.pc f = .woken timed ∧ s'.calls f = s.calls f)
    (hleft : ∀ l ∈ s'.left, l ∈ s.left ∨ s'.Explained l) : s'.WakeInv where
  calls := hcalls
  once := by
    rw [hwakes, hdispatched]
    exact hinv.once
  woken f timed hf := by
    obtain ⟨hf, hcalls⟩ := hwoken f timed hf
    rw [hdispatched, hcalls]
    exact hinv.woken f timed hf
  left l hl := (hleft l hl).elim (fun hl => (hinv.left l hl).mono hposted) id

theorem woken_of_update {f g : ι} {pc : Pc} {timed : Bool} (hpc : s'.pc = Function.update s.pc f pc)
    (hcalls : ∀ g, g ≠ f → s'.calls g = s.calls g) (hne : pc ≠ .woken timed)
    (hg : s'.pc g = .woken timed) : s.pc g = .woken timed ∧ s'.calls g = s.calls g := by
  by_cases hgf : g = f
  · rw [hpc, hgf, Function.update_self] at hg
    exact absurd hg hne
  · rw [hpc, Function.update_of_ne hgf] at hg
    exact ⟨hg, hcalls g hgf⟩

theorem explained_finish {f : ι} {timed : Bool} (hinv : s.WakeInv) (hheard : s.Heard)
    (hwoken : s.pc f = .woken timed) :
    (s.finish f timed).Explained ⟨f, s.calls f, timed,
      if timed then timedOutcome (s.res f .opResSetter) (s.res f .timeoutResSetter)
      else plainOutcome (s.res f .resSetter)⟩ := by
  have hset := hinv.woken f timed hwoken
  cases timed with
  | false =>
      have hmem := hset .resSetter (List.mem_singleton_self _)
      refine ⟨s.res f .resSetter, hheard.posted _ hmem, ?_⟩
      exact if_neg ((hheard.set_iff _).mpr hmem)
  | true =>
      exact ⟨_, _, hheard.posted _ (hset .opResSetter List.mem_cons_self),
        hheard.posted _
          (hset .timeoutResSetter (List.mem_cons_of_mem _ (List.mem_singleton_self _))),
        rfl⟩

theorem dispatchNext_history (s : Runtime ι) (cqe : Cqe (Ptr ι)) (rest : List (Cqe (Ptr ι))) :
    (s.dispatchNext cqe rest).loop.dispatched = s.loop.dispatched ++ [cqe] ∧
      (s.dispatchNext cqe rest).wakes = s.wakes ++
        ((dispatch s.loop.setters cqe).2.map fun f => (f, cqe.userData.call)).toList := by
  rcases dispatchNext_cases s cqe rest with ⟨hwake, heq⟩ | ⟨f, hwake, heq⟩ <;> rw [heq, hwake]
  · exact ⟨rfl, (List.append_nil _).symm⟩
  · exact ⟨rfl, rfl⟩

theorem wakeInv_dispatches {cqe : Cqe (Ptr ι)} {rest : List (Cqe (Ptr ι))} (hinv : s.WakeInv)
    (hheard : s.Heard) (hpc : s.loop.pc = .dispatching cqe rest)
    (hcalls : (s.dispatchNext cqe rest).CallInv)
    (hposted : ∀ c ∈ s.loop.ring.ring.cqes, c ∈ (s.dispatchNext cqe rest).loop.ring.ring.cqes) :
    (s.dispatchNext cqe rest).WakeInv := by
  have hfront := hinv.calls.inFront hheard hpc
  obtain ⟨hsame, hleft, _⟩ := dispatchNext_frame s cqe rest
  obtain ⟨hdispatched, hwakes⟩ := dispatchNext_history s cqe rest
  refine ⟨hcalls, fun f call => ?_, fun f timed hf => ?_, fun l hl => ?_⟩
  · rw [hwakes, hdispatched, List.count_append, hinv.once]
    by_cases heq : (f, call) = (cqe.userData.fiber, cqe.userData.call)
    · obtain ⟨rfl, rfl⟩ := Prod.mk.inj heq
      rw [if_neg (hfront.not_completed hheard), Nat.zero_add]
      have hiff := hfront.dispatch_eq_some_iff hinv.calls hheard (f := cqe.userData.fiber)
      by_cases hdone : Completed (s.loop.dispatched ++ [cqe]) cqe.userData.fiber cqe.userData.call
      · rw [if_pos hdone, hiff.mpr ⟨rfl, hdone⟩]
        exact List.count_singleton_self
      · rw [if_neg hdone]
        cases hwake : (dispatch s.loop.setters cqe).2 with
        | none => rfl
        | some g =>
            obtain ⟨rfl, hdone'⟩ :=
              (hfront.dispatch_eq_some_iff hinv.calls hheard).mp hwake
            exact absurd hdone' hdone
    · rw [if_congr (completed_concat_of_ne heq) rfl rfl]
      have hnone : List.count (f, call)
          ((dispatch s.loop.setters cqe).2.map fun f => (f, cqe.userData.call)).toList = 0 := by
        cases hwake : (dispatch s.loop.setters cqe).2 with
        | none => rfl
        | some g =>
            obtain ⟨rfl, _⟩ := (hfront.dispatch_eq_some_iff hinv.calls hheard).mp hwake
            exact List.count_eq_zero.mpr fun hmem => heq (List.mem_singleton.mp hmem)
      rw [hnone, Nat.add_zero]
  · rw [hsame, hdispatched]
    intro obj hobj
    have hold : s.pc f = .woken timed → ⟨f, s.calls f, obj⟩ ∈
        (s.loop.dispatched ++ [cqe]).map Cqe.userData := fun hf => by
      rw [List.map_append]
      exact List.mem_append_left _ (hinv.woken f timed hf obj hobj)
    rcases dispatchNext_pc s cqe rest with hpcs | ⟨g, timed', hg, hwake, hpcs⟩
    · exact hold (hpcs ▸ hf)
    · rw [hpcs] at hf
      by_cases hfg : f = g
      · subst hfg
        rw [Function.update_self] at hf
        obtain rfl := Pc.woken.inj hf
        obtain ⟨hfiber, hdone⟩ := (hfront.dispatch_eq_some_iff hinv.calls hheard).mp hwake
        rw [hfront.call, hfiber] at hdone
        exact mem_of_completed hfront.queued (by rw [hg]; exact hobj) hdone
      · rw [Function.update_of_ne hfg] at hf
        exact hold hf
  · exact (hinv.left l (hleft ▸ hl)).mono hposted

theorem step_wakeInv {e : Event ι} (hinv : s.WakeInv) (hheard : s.Heard) (hok : s.CountPasses e)
    (h : s.step e = some s') : s'.WakeInv := by
  have hcalls := step_callInv hinv.calls hok h
  have hposted := step_posted hinv.calls.sched h
  cases callStep_of_step h with
  | outside hpc hcallsEq hleft hwakes _ hdispatched _ _ _ _ =>
      refine wakeInv_of_frame hinv hcalls hwakes hdispatched hposted (fun f timed hf => ?_)
        fun l hl => Or.inl (hleft ▸ hl)
      exact ⟨hpc ▸ hf, congrFun hcallsEq f⟩
  | begins f req timed hidle hs' =>
      subst hs'
      exact wakeInv_of_frame hinv hcalls rfl rfl hposted
        (fun _ _ => woken_of_update rfl (fun g hg => Function.update_of_ne hg _ _)
          fun heq => by cases heq)
        fun l hl => Or.inl hl
  | moves f pc hmoves hpc hcallsEq hleft hwakes _ hdispatched _ _ _ =>
      exact wakeInv_of_frame hinv hcalls hwakes hdispatched hposted
        (fun _ _ => woken_of_update hpc (fun g _ => congrFun hcallsEq g)
          fun heq => hmoves.ne_woken _ heq)
        fun l hl => Or.inl (hleft ▸ hl)
  | queues f stage starved hgetting hpc hcallsEq hleft hwakes _ hdispatched _ _ _ =>
      exact wakeInv_of_frame hinv hcalls hwakes hdispatched hposted
        (fun _ _ => woken_of_update hpc (fun g _ => congrFun hcallsEq g)
          fun heq => by cases stage <;> cases heq)
        fun l hl => Or.inl (hleft ▸ hl)
  | throws f code _ _ hfails _ => exact absurd hok hfails
  | finishes f timed hwoken hs' =>
      subst hs'
      refine wakeInv_of_frame hinv hcalls rfl rfl hposted
        (fun _ _ => woken_of_update rfl (fun _ _ => rfl) fun heq => by cases heq) fun l hl => ?_
      rcases List.mem_append.mp hl with hl | hl
      · exact Or.inl hl
      · rw [List.mem_singleton.mp hl]
        exact Or.inr (explained_finish hinv hheard hwoken)
  | dispatches cqe rest _ hpc _ hs' =>
      subst hs'
      exact wakeInv_dispatches hinv hheard hpc hcalls hposted

/-! ### What follows from it -/

theorem CallInv.ownResult (hinv : s.CallInv) {p : Ptr ι} {res : Int}
    (h : ⟨p, res⟩ ∈ s.loop.ring.ring.cqes) : s.OwnResult p res := by
  have hnodup := IoUring.nodup_cqes hinv.once
  have honly : ∀ c ∈ s.loop.ring.ring.cqes, decide (c.userData = p) = decide (c = ⟨p, res⟩) := by
    intro c hc
    refine decide_eq_decide.mpr ⟨fun heq => ?_, fun heq => by rw [heq]⟩
    exact List.inj_on_of_nodup_map hnodup hc h heq
  rw [OwnResult, List.filter_congr honly, List.filter_eq,
    List.count_eq_one_of_mem hnodup.of_map h]
  rfl

theorem timedOutcome_ne_panicked (op timeout : Int) : timedOutcome op timeout ≠ .panicked := by
  unfold timedOutcome
  split_ifs <;> exact fun heq => by cases heq

theorem WakeInv.wakesRight (hinv : s.WakeInv) (hheard : s.Heard) : s.WakesRight := by
  have hplain : ∀ l ∈ s.left, l.timed = false →
      ∃ res, s.OwnResult ⟨l.fiber, l.call, .resSetter⟩ res ∧ l.outcome = .returned res := by
    intro l hl htimed
    have h := hinv.left l hl
    rw [Explained, htimed] at h
    exact h.imp fun res h => ⟨hinv.calls.ownResult h.1, h.2⟩
  have htimed : ∀ l ∈ s.left, l.timed = true →
      ∃ op timeout, s.OwnResult ⟨l.fiber, l.call, .opResSetter⟩ op ∧
        s.OwnResult ⟨l.fiber, l.call, .timeoutResSetter⟩ timeout ∧
        l.outcome = timedOutcome op timeout := by
    intro l hl htimed
    have h := hinv.left l hl
    rw [Explained, htimed] at h
    obtain ⟨op, timeout, hop, htimeout, hres⟩ := h
    exact ⟨op, timeout, hinv.calls.ownResult hop, hinv.calls.ownResult htimeout, hres⟩
  refine ⟨?_, ?_, hinv.once, ?_, hplain, htimed, ?_⟩
  · intro cqe rest hpc f
    exact (hinv.calls.inFront hheard hpc).dispatch_eq_some_iff hinv.calls hheard
  · intro cqe rest f hpc hwake
    have hfront := hinv.calls.inFront hheard hpc
    obtain ⟨rfl, hdone⟩ := (hfront.dispatch_eq_some_iff hinv.calls hheard).mp hwake
    have hrunning : s.running = none := by
      by_contra hsome
      obtain ⟨g, hg⟩ := Option.ne_none_iff_exists'.mp hsome
      have hready := (hinv.calls.sched.running g hg).1
      rw [hpc] at hready
      cases hready
    exact ⟨hfront.call, hfront.suspended hinv.calls.sched hrunning hdone⟩
  · intro f timed hf obj hobj
    exact hinv.calls.ownResult (hheard.posted _ (hinv.woken f timed hf obj hobj))
  · intro l hl
    cases hl' : l.timed with
    | false =>
        obtain ⟨res, _, hres⟩ := hplain l hl hl'
        rw [hres]
        exact fun heq => by cases heq
    | true =>
        obtain ⟨op, timeout, _, _, hres⟩ := htimed l hl hl'
        rw [hres]
        exact timedOutcome_ne_panicked op timeout

/-- **Each fiber is woken once, with the last CQE of its call**, in every run in which the count
checks pass and the kernel does not report `-ENOCQE`. -/
theorem wakesRight_throughout (entries capacity : Nat) (fits : entries + capacity < 2 ^ 64)
    (maxAttempts : UInt64) (es : List (Event ι))
    (hcount : Along step CountPasses (init entries capacity fits maxAttempts) es)
    (hkernel : Along step SparesEnocqe (init entries capacity fits maxAttempts) es) :
    Throughout step WakesRight (init entries capacity fits maxAttempts) es := by
  have hheard := heard_throughout entries capacity fits maxAttempts es hkernel
  have hinit : (init entries capacity fits maxAttempts : Runtime ι).WakeInv :=
    ⟨callInv_init entries capacity fits maxAttempts, fun _ _ => rfl,
      fun _ _ hf => (by cases hf), fun l hl => (by cases hl)⟩
  have hinv := (hcount.and hheard.along).throughout hinit
    fun s e s' hs ⟨hok, hheard⟩ hstep => step_wakeInv hs hheard hok hstep
  exact (hinv.and hheard).imp fun s h => h.1.wakesRight h.2

/-- The operation of fiber `g` completes and is dispatched while the fiber still waits for the slot
of its LINK_TIMEOUT, on a ring of two slots that it shares with two plain calls. -/
def overtakenRun {κ : Type} (f g h : κ) : List (Event κ) :=
  let recv : Request := ⟨.recvmsg, true, true⟩
  [.resume f, .call f recv false, .get f, .flush f, .count f none,
    .resume g, .call g recv true, .get g, .get g, .kernel .consume,
    .resume h, .call h recv false, .get h, .flush h, .count h none,
    .kernel .consume, .kernel .consume, .kernel (.complete 1 5), .poll .tryPoll, .dispatch,
    .resume g, .get g, .flush g, .kernel .consume, .count g none,
    .kernel (.complete 2 (-ENOENT)), .kernel (.complete 0 7), .poll .tryPollMany, .dispatch,
    .dispatch, .resume g, .finish g, .park g, .resume f, .finish f]

theorem wakesRight_overtakenRun :
    (run step (init 2 8 (by decide) 1000000) (overtakenRun (0 : Fin 3) 1 2)).map
        (fun s => (s.left, s.wakes))
        = some ([⟨1, 1, true, .returned 5⟩, ⟨0, 1, false, .returned 7⟩], [(1, 1), (0, 1)]) ∧
      Throughout step WakesRight (init 2 8 (by decide) 1000000) (overtakenRun (0 : Fin 3) 1 2) :=
  ⟨by decide,
    wakesRight_throughout 2 8 (by decide) 1000000 (overtakenRun 0 1 2) (by decide) (by decide)⟩

end Hnet.Runtime
