import Hnet.Blocking
import Hnet.Proof.Wakeup

/-!
# `ring_submit` is a blocking call

Seen from the code that calls it, `ring_submit` asks the kernel and returns its answer. A call is
answered at the moment the kernel posts the last CQE of its SQEs. All that lies between that and the
return, the completion queue, the batches of the poller, the setters and the scheduler, changes
neither the answer nor the order in which a fiber gets its answers.
-/

namespace Hnet

open Lts

/-- The call a fiber is in, `true` for the timed one. -/
def Pc.question : Pc → Option Bool
  | .idle => none
  | .getting (.plain _) _ => some false
  | .getting _ _ => some true
  | .submitting timed | .submitted timed | .suspended timed | .woken timed => some timed

theorem Pc.Moves.question {pc pc' : Pc} (h : pc.Moves pc') : pc'.question = pc.question := by
  cases h with
  | starves stage starved => cases stage <;> rfl
  | submits timed => rfl
  | suspends timed => rfl

theorem Stage.question_next (stage : Stage) (starved : Bool) :
    stage.next.question = (Pc.getting stage starved).question := by
  cases stage <;> rfl

theorem Pc.callSetter_of_mem_queued {pc : Pc} {obj : StackObj} (h : obj ∈ pc.queued) :
    ∃ timed, pc.question = some timed ∧ obj ∈ callSetters timed := by
  cases pc with
  | idle => cases h
  | getting stage starved =>
      cases stage with
      | timeout =>
          refine ⟨true, rfl, ?_⟩
          rw [List.mem_singleton.mp h]
          exact List.mem_cons_self
      | plain req => cases h
      | op req => cases h
  | submitting timed => exact ⟨timed, rfl, h⟩
  | submitted timed => exact ⟨timed, rfl, h⟩
  | suspended timed => exact ⟨timed, rfl, h⟩
  | woken timed => exact ⟨timed, rfl, h⟩

namespace Runtime

variable {ι : Type} [DecidableEq ι] {s s' : Runtime ι}

def posted (s : Runtime ι) (p : Ptr ι) : Option Int := s.loop.ring.ring.posted p

/-- What the kernel has answered to a call, once it has posted all CQEs of it. -/
def answer (s : Runtime ι) (f : ι) (call : Nat) : Bool → Option Outcome
  | false => (s.posted ⟨f, call, .resSetter⟩).map .returned
  | true =>
      (s.posted ⟨f, call, .opResSetter⟩).bind fun op =>
        (s.posted ⟨f, call, .timeoutResSetter⟩).map (timedOutcome op)

/-- A fiber as the code that calls `ring_submit` sees it. -/
def blockingCall (s : Runtime ι) (f : ι) : BlockingCall Bool Outcome :=
  match (s.pc f).question with
  | none => .idle
  | some timed =>
      match s.answer f (s.calls f) timed with
      | none => .asked timed
      | some outcome => .answered timed outcome

def blocking (s : Runtime ι) : Blocking ι Bool Outcome where
  calls := s.blockingCall
  returned := s.left.map fun l => (l.fiber, l.outcome)

/-- What a step is for the callers: only the kernel's last CQE for a call answers it. -/
def blockingEvent (s : Runtime ι) : Event ι → Option (Blocking.Event ι Bool Outcome)
  | .call f _ timed => some (.ask f timed)
  | .kernel (.complete i res) =>
      match s.loop.ring.ring.inKernel[i]?, s.step (.kernel (.complete i res)) with
      | some sqe, some s' =>
          match s'.blockingCall sqe.userData.fiber with
          | .answered _ outcome => some (.answer sqe.userData.fiber outcome)
          | _ => none
      | _, _ => none
  | .finish f => some (.ret f)
  | .kernel .consume | .poll _ | .dispatch | .resume _ | .park _ | .get _ | .flush _
  | .count _ _ => none

/-! ### Answers -/

theorem answer_eq_none_of_mem {f : ι} {call : Nat} {timed : Bool} {obj : StackObj}
    (hobj : obj ∈ callSetters timed) (hnone : s.posted ⟨f, call, obj⟩ = none) :
    s.answer f call timed = none := by
  cases timed with
  | false =>
      rw [List.mem_singleton.mp hobj] at hnone
      rw [answer, hnone]
      rfl
  | true =>
      rcases List.mem_cons.mp hobj with hop | htimeout
      · rw [hop] at hnone
        rw [answer, hnone]
        rfl
      · rw [List.mem_singleton.mp htimeout] at hnone
        rw [answer, hnone]
        exact Option.bind_fun_none _

theorem answer_congr {f : ι} {call : Nat}
    (h : ∀ obj, s'.posted ⟨f, call, obj⟩ = s.posted ⟨f, call, obj⟩) (timed : Bool) :
    s'.answer f call timed = s.answer f call timed := by
  cases timed with
  | false => rw [answer, answer, h]
  | true => rw [answer, answer, h, h]

theorem blockingCall_congr {f : ι} (hquestion : (s'.pc f).question = (s.pc f).question)
    (hcalls : s'.calls f = s.calls f)
    (hposted : ∀ obj, s'.posted ⟨f, s.calls f, obj⟩ = s.posted ⟨f, s.calls f, obj⟩) :
    s'.blockingCall f = s.blockingCall f := by
  rw [blockingCall, blockingCall, hquestion, hcalls]
  cases (s.pc f).question with
  | none => rfl
  | some timed => simp only [answer_congr hposted timed]

theorem blocking_congr (hquestion : ∀ f, (s'.pc f).question = (s.pc f).question)
    (hcalls : s'.calls = s.calls) (hposted : ∀ p, s'.posted p = s.posted p)
    (hleft : s'.left = s.left) : s'.blocking = s.blocking := by
  rw [blocking, blocking, hleft]
  congr 1
  funext f
  exact blockingCall_congr (hquestion f) (congrFun hcalls f) fun obj => hposted _

theorem blockingCall_of_none {f : ι} {timed : Bool} (hquestion : (s.pc f).question = some timed)
    (hanswer : s.answer f (s.calls f) timed = none) : s.blockingCall f = .asked timed := by
  simp only [blockingCall, hquestion, hanswer]

theorem blockingCall_of_some {f : ι} {timed : Bool} {outcome : Outcome}
    (hquestion : (s.pc f).question = some timed)
    (hanswer : s.answer f (s.calls f) timed = some outcome) :
    s.blockingCall f = .answered timed outcome := by
  simp only [blockingCall, hquestion, hanswer]

omit [DecidableEq ι] in
/-- Nothing has been posted for a call that has not begun. -/
theorem CallInv.notMem_cqes (hinv : s.CallInv) {p : Ptr ι} (hp : s.NotQueued p) :
    p ∉ s.loop.ring.ring.cqes.map Cqe.userData :=
  fun hmem => (hinv.fresh p hp).2 (IoUring.mem_sqes_of_mem_cqes hmem)

/-! ### The steps in which nothing is posted -/

theorem cqes_of_step {e : Event ι} (hsched : s.Scheduled) (h : s.step e = some s')
    (hne : ∀ i res, e ≠ .kernel (.complete i res)) :
    s'.loop.ring.ring.cqes = s.loop.ring.ring.cqes := by
  rcases loop_step hsched h with heq | ⟨d, hloop, hkernel⟩
  · rw [heq]
  · obtain ⟨posted, hcqes, hposted⟩ := EventLoop.step_cqes hloop
    cases posted with
    | nil => rw [hcqes, List.append_nil]
    | cons c rest =>
        obtain ⟨i, hd⟩ := hposted c List.mem_cons_self
        exact absurd (hkernel _ hd) (hne i c.res)

theorem posted_of_cqes (h : s'.loop.ring.ring.cqes = s.loop.ring.ring.cqes) (p : Ptr ι) :
    s'.posted p = s.posted p := by
  rw [posted, posted, IoUring.posted, IoUring.posted, h]

theorem question_of_update {f : ι} {pc : Pc} (hpc : s'.pc = Function.update s.pc f pc)
    (hsame : pc.question = (s.pc f).question) (g : ι) :
    (s'.pc g).question = (s.pc g).question := by
  rw [hpc]
  by_cases heq : g = f
  · rw [heq, Function.update_self, hsame]
  · rw [Function.update_of_ne heq]

theorem question_dispatchNext (s : Runtime ι) (cqe : Cqe (Ptr ι)) (rest : List (Cqe (Ptr ι)))
    (g : ι) : ((s.dispatchNext cqe rest).pc g).question = (s.pc g).question := by
  rcases dispatchNext_pc s cqe rest with hpc | ⟨f, timed, hf, _, hpc⟩
  · rw [hpc]
  · refine question_of_update hpc ?_ g
    rw [hf]
    rfl

/-! ### The simulation -/

/-- As long as a request has not completed, its call waits. -/
theorem CallInv.asked (hinv : s.CallInv) {sqe : Sqe (Ptr ι)}
    (hheld : sqe ∈ s.loop.ring.ring.held) : ∃ timed,
      (s.pc sqe.userData.fiber).question = some timed ∧
        s.blockingCall sqe.userData.fiber = .asked timed := by
  obtain ⟨hcall, hlive⟩ := hinv.live _ (EventLoop.mem_undispatched_of_held hheld)
  obtain ⟨timed, hquestion, hobj⟩ := Pc.callSetter_of_mem_queued (Pc.mem_queued_of_live hlive)
  refine ⟨timed, hquestion, blockingCall_of_none hquestion (answer_eq_none_of_mem hobj ?_)⟩
  rw [← hcall]
  exact IoUring.posted_eq_none_iff.mpr (IoUring.notMem_cqes_of_mem_held hinv.once hheld)

theorem blocking_complete {i : Nat} {res : Int} (hinv : s.CallInv)
    (h : s.step (.kernel (.complete i res)) = some s') :
    run Blocking.step s.blocking (s.blockingEvent (.kernel (.complete i res))).toList
      = some s'.blocking := by
  obtain ⟨ring, hring, hs'⟩ := step_kernel h
  obtain ⟨sqe, hget, hmem, hcqes⟩ := IoUring.complete_of_kernel (Ring.kernel_ring hring).1
  -- the call that the CQE belongs to waits, and no other call changes
  obtain ⟨timed, hquestion, hasked⟩ := hinv.asked (List.mem_append_right _ hmem)
  have hpc : s'.pc = s.pc := by rw [hs']
  have hcalls : s'.calls = s.calls := by rw [hs']
  have hleft : s'.left = s.left := by rw [hs']
  have hposted : ∀ p, s'.posted p
      = (s.posted p).or (if sqe.userData = p then some res else none) := by
    intro p
    rw [hs']
    exact IoUring.posted_concat hcqes p
  have hothers : ∀ g, g ≠ sqe.userData.fiber → s'.blockingCall g = s.blockingCall g := by
    intro g hg
    refine blockingCall_congr (by rw [hpc]) (by rw [hcalls]) fun obj => ?_
    have hne : sqe.userData ≠ ⟨g, s.calls g, obj⟩ := fun heq => hg (congrArg Ptr.fiber heq).symm
    rw [hposted, if_neg hne, Option.or_none]
  have hreturned : s'.blocking.returned = s.blocking.returned := by
    rw [blocking, blocking, hleft]
  simp only [blockingEvent, hget, h]
  cases hanswer : s'.answer sqe.userData.fiber (s'.calls sqe.userData.fiber) timed with
  | none =>
      have hstill := blockingCall_of_none (s := s') (by rw [hpc]; exact hquestion) hanswer
      have hsame : s'.blocking = s.blocking := by
        refine Blocking.mk.injEq .. |>.mpr ⟨funext fun g => ?_, hreturned⟩
        by_cases hg : g = sqe.userData.fiber
        · rw [hg, hstill, hasked]
        · exact hothers g hg
      rw [hstill, hsame]
      rfl
  | some outcome =>
      have hnow := blockingCall_of_some (s := s') (by rw [hpc]; exact hquestion) hanswer
      rw [hnow]
      have hstep := Blocking.step_answer_of_asked (s := s.blocking) outcome hasked
      rw [Option.toList_some, run_cons, hstep, Option.bind_some, run_nil]
      refine congrArg some (Blocking.mk.injEq .. |>.mpr ⟨funext fun g => ?_, hreturned.symm⟩)
      by_cases hg : g = sqe.userData.fiber
      · rw [hg, Function.update_self, hnow]
      · rw [Function.update_of_ne hg]
        exact (hothers g hg).symm

theorem blocking_call {f : ι} {req : Request} {timed : Bool} (hinv : s.CallInv)
    (hidle : s.pc f = .idle) :
    s.blocking.step (.ask f timed) = some (s.call f req timed).blocking := by
  have hfree : s.blocking.calls f = .idle := by
    simp only [blocking, blockingCall, hidle, Pc.question]
  rw [Blocking.step_ask_of_idle timed hfree]
  refine congrArg some (Blocking.mk.injEq .. |>.mpr ⟨funext fun g => ?_, rfl⟩)
  by_cases hg : g = f
  · subst hg
    have hnew : (s.call g req timed).pc g
        = .getting (if timed then .op req else .plain req) false := Function.update_self _ _ _
    have hnumber : (s.call g req timed).calls g = s.calls g + 1 := Function.update_self _ _ _
    have hfresh : ∀ obj, s.posted ⟨g, s.calls g + 1, obj⟩ = none := fun obj =>
      IoUring.posted_eq_none_iff.mpr (hinv.notMem_cqes (Or.inl (Nat.lt_succ_self _)))
    have hobj : lastSetter timed ∈ callSetters timed := by cases timed <;> decide
    rw [Function.update_self]
    refine (blockingCall_of_none ?_ (answer_eq_none_of_mem hobj ?_)).symm
    · rw [hnew]
      cases timed <;> rfl
    · rw [hnumber]
      exact hfresh _
  · have hpc : (s.call f req timed).pc g = s.pc g := Function.update_of_ne hg _ _
    have hcalls : (s.call f req timed).calls g = s.calls g := Function.update_of_ne hg _ _
    rw [Function.update_of_ne hg]
    exact (blockingCall_congr (congrArg Pc.question hpc) hcalls fun _ => rfl).symm

theorem blocking_finish {f : ι} {timed : Bool} (hinv : s.WakeInv) (hheard : s.Heard)
    (hwoken : s.pc f = .woken timed) :
    s.blocking.step (.ret f) = some (s.finish f timed).blocking := by
  have hnodup := IoUring.nodup_cqes hinv.calls.once
  have hset : ∀ obj ∈ callSetters timed,
      s.posted ⟨f, s.calls f, obj⟩ = some (s.res f obj) ∧ s.res f obj ≠ -ENOCQE := by
    intro obj hobj
    have hmem := hinv.woken f timed hwoken obj hobj
    exact ⟨IoUring.posted_of_mem hnodup (hheard.posted _ hmem), (hheard.set_iff _).mpr hmem⟩
  have hquestion : (s.pc f).question = some timed := by
    rw [hwoken]
    rfl
  have hanswer : s.answer f (s.calls f) timed = some
      (if timed then timedOutcome (s.res f .opResSetter) (s.res f .timeoutResSetter)
        else plainOutcome (s.res f .resSetter)) := by
    cases timed with
    | false =>
        obtain ⟨hposted, hne⟩ := hset .resSetter List.mem_cons_self
        rw [answer, hposted]
        exact congrArg some (if_neg hne).symm
    | true =>
        have htimeout := (hset .timeoutResSetter
          (List.mem_cons_of_mem _ (List.mem_singleton_self _))).1
        rw [answer, (hset .opResSetter List.mem_cons_self).1, htimeout]
        rfl
  rw [Blocking.step_ret_of_answered (blockingCall_of_some hquestion hanswer)]
  refine congrArg some (Blocking.mk.injEq .. |>.mpr ⟨funext fun g => ?_, ?_⟩)
  · by_cases hg : g = f
    · subst hg
      have hidle : (s.finish g timed).pc g = .idle := Function.update_self _ _ _
      simp only [Function.update_self, blocking, blockingCall, hidle, Pc.question]
    · have hpc : (s.finish f timed).pc g = s.pc g := Function.update_of_ne hg _ _
      rw [Function.update_of_ne hg]
      exact (blockingCall_congr (congrArg Pc.question hpc) rfl fun _ => rfl).symm
  · simp only [blocking, finish, List.map_append, List.map_cons, List.map_nil]

theorem tracks_blocking : Tracks (step (ι := ι))
    (fun s e => (s.WakeInv ∧ s.Heard) ∧ s.CountPasses e) Blocking.step blockingEvent blocking := by
  intro s e s' ⟨⟨hinv, hheard⟩, hok⟩ h
  have hquiet : (∀ i res, e ≠ .kernel (.complete i res)) →
      (∀ f, (s'.pc f).question = (s.pc f).question) → s'.calls = s.calls → s'.left = s.left →
        run Blocking.step s.blocking [] = some s'.blocking := by
    intro hne hquestion hcalls hleft
    have hcqes := cqes_of_step hinv.calls.sched h hne
    rw [run_nil, blocking_congr hquestion hcalls (posted_of_cqes hcqes) hleft]
  cases e with
  | kernel k =>
      cases k with
      | consume =>
          obtain ⟨hframe, _⟩ := loopFrame_kernel h
          exact hquiet (fun _ _ heq => by cases heq) (fun f => by rw [hframe.pc]) hframe.calls
            hframe.left
      | complete i res => exact blocking_complete hinv.calls h
  | poll k =>
      obtain ⟨hframe, _⟩ := loopFrame_poll h
      exact hquiet (fun _ _ heq => by cases heq) (fun f => by rw [hframe.pc]) hframe.calls
        hframe.left
  | dispatch =>
      obtain ⟨cqe, rest, _, _, rfl⟩ := step_dispatch h
      obtain ⟨hcalls, hleft, _⟩ := dispatchNext_frame s cqe rest
      exact hquiet (fun _ _ heq => by cases heq) (question_dispatchNext s cqe rest) hcalls hleft
  | resume f =>
      obtain ⟨_, _, _, rfl⟩ := step_resume h
      exact hquiet (fun _ _ heq => by cases heq) (fun _ => rfl) rfl rfl
  | park f =>
      obtain ⟨_, _, rfl⟩ := step_park h
      exact hquiet (fun _ _ heq => by cases heq) (fun _ => rfl) rfl rfl
  | call f req timed =>
      obtain ⟨_, hidle, rfl⟩ := step_call h
      exact (Option.bind_eq_some_iff.mpr ⟨_, blocking_call hinv.calls hidle, rfl⟩)
  | get f =>
      obtain ⟨stage, starved, _, hgetting, hs'⟩ := step_get h
      rcases get_cases s f stage starved with ⟨ring, _, _, _, heq⟩ | ⟨_, heq⟩
      · rw [heq] at hs'
        subst hs'
        refine hquiet (fun _ _ heq => by cases heq) (question_of_update rfl ?_) rfl rfl
        rw [hgetting]
        exact stage.question_next starved
      · rw [heq] at hs'
        subst hs'
        refine hquiet (fun _ _ heq => by cases heq) (question_of_update rfl ?_) rfl rfl
        rw [hgetting]
        cases stage <;> rfl
  | flush f =>
      obtain ⟨timed, _, hpc, rfl⟩ := step_flush h
      refine hquiet (fun _ _ heq => by cases heq) (question_of_update rfl ?_) rfl rfl
      rw [hpc]
      rfl
  | count f err =>
      obtain ⟨timed, _, hpc, hs'⟩ := step_count h
      rcases count_cases s f timed (s.submitRet err) with ⟨rfl, hbad, _⟩ | ⟨_, heq⟩
      · exact absurd ((submitRet_passes_iff s err).mpr (hok hpc)) hbad
      · rw [heq] at hs'
        subst hs'
        refine hquiet (fun _ _ heq => by cases heq) (question_of_update rfl ?_) rfl rfl
        rw [hpc]
        rfl
  | finish f =>
      obtain ⟨timed, _, hpc, rfl⟩ := step_finish h
      exact (Option.bind_eq_some_iff.mpr ⟨_, blocking_finish hinv hheard hpc, rfl⟩)

/-! ### Runs -/

theorem wakeInv_throughout (entries capacity : Nat) (fits : entries + capacity < 2 ^ 64)
    (maxAttempts : UInt64) (es : List (Event ι))
    (hcount : Along step CountPasses (init entries capacity fits maxAttempts) es)
    (hkernel : Along step SparesEnocqe (init entries capacity fits maxAttempts) es) :
    Throughout step (fun s : Runtime ι => s.WakeInv ∧ s.Heard)
      (init entries capacity fits maxAttempts) es := by
  have hheard := heard_throughout entries capacity fits maxAttempts es hkernel
  have hinit : (init entries capacity fits maxAttempts : Runtime ι).WakeInv :=
    ⟨callInv_init entries capacity fits maxAttempts, fun _ _ => rfl,
      fun _ _ hf => (by cases hf), fun l hl => (by cases hl)⟩
  have hinv := (hcount.and hheard.along).throughout hinit
    fun s e s' hs ⟨hok, hheard⟩ hstep => step_wakeInv hs hheard hok hstep
  exact hinv.and hheard

/-- **`ring_submit` is a blocking call** in every run in which the count checks pass and the kernel
does not report `-ENOCQE`: the callers ask, are answered and return as a machine of blocking calls
has it, and what a fiber gets back are the answers to its calls, each once and in order. -/
theorem refines_blocking (entries capacity : Nat) (fits : entries + capacity < 2 ^ 64)
    (maxAttempts : UInt64) (es : List (Event ι))
    (hcount : Along step CountPasses (init entries capacity fits maxAttempts) es)
    (hkernel : Along step SparesEnocqe (init entries capacity fits maxAttempts) es)
    {s : Runtime ι} (hrun : run step (init entries capacity fits maxAttempts) es = some s) :
    run Blocking.step Blocking.init
        (trace step blockingEvent (init entries capacity fits maxAttempts) es) = some s.blocking ∧
      ∀ f, Blocking.takenBy f (s.left.map fun l => (l.fiber, l.outcome))
          ++ (s.blockingCall f).toList
        = (trace step blockingEvent (init entries capacity fits maxAttempts) es).filterMap
            (Blocking.Event.answerTo f) := by
  have hinv := (wakeInv_throughout entries capacity fits maxAttempts es hcount hkernel).along
  have htrace := tracks_blocking.run_trace (hinv.and hcount) hrun
  refine ⟨htrace, fun f => ?_⟩
  have hgiven := Blocking.run_given htrace f
  rwa [show (init entries capacity fits maxAttempts : Runtime ι).blocking.given f = [] from rfl,
    List.nil_append] at hgiven

/-- The operation of fiber 1 is answered only once its LINK_TIMEOUT has completed too. -/
theorem refines_blocking_overtakenRun :
    ∃ s, run step (init 2 8 (by decide) 1000000) (overtakenRun (0 : Fin 3) 1 2) = some s ∧
      run Blocking.step Blocking.init [.ask 0 false, .ask 1 true, .ask 2 false,
        .answer 1 (.returned 5), .answer 0 (.returned 7), .ret 1, .ret 0] = some s.blocking := by
  have hsome : (run step (init 2 8 (by decide) 1000000)
      (overtakenRun (0 : Fin 3) 1 2)).isSome = true := by decide
  obtain ⟨s, hrun⟩ := Option.isSome_iff_exists.mp hsome
  have htrace : trace step blockingEvent (init 2 8 (by decide) 1000000)
      (overtakenRun (0 : Fin 3) 1 2) = [.ask 0 false, .ask 1 true, .ask 2 false,
        .answer 1 (.returned 5), .answer 0 (.returned 7), .ret 1, .ret 0] := by
    decide +kernel
  have hrefines := refines_blocking 2 8 (by decide) 1000000 (overtakenRun 0 1 2) (by decide)
    (by decide) hrun
  rw [htrace] at hrefines
  exact ⟨s, hrun, hrefines.1⟩

end Runtime

end Hnet
