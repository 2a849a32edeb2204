import Hnet.Proof.FiberRuns

/-!
# A fiber and its operation

All that a step of the ring, the poller and the scheduler can mean to the fibers is one of two
things: the operation that a fiber has asked for ends, or the fiber goes on with what it ended with.
In between the two it is pending.
-/

namespace Hnet

open Lts

namespace Fibers

variable {ι σ D : Type} [DecidableEq ι] {program : FiberProgram σ D} {s s' : Fibers ι σ D} {f : ι}

/-- What the operation of a fiber has ended with, until the fiber leaves its call. -/
def pending (s : Fibers ι σ D) (f : ι) : Option D :=
  (s.runtime.pc f).question.bind fun timed =>
    (s.runtime.posted ⟨f, s.runtime.calls f, requestSetter timed⟩).bind fun _ =>
      s.memory ⟨f, s.runtime.calls f, .request⟩

theorem pending_congr (hquestion : (s'.runtime.pc f).question = (s.runtime.pc f).question)
    (hcalls : s'.runtime.calls f = s.runtime.calls f)
    (hposted : ∀ timed, s'.runtime.posted ⟨f, s.runtime.calls f, requestSetter timed⟩
      = s.runtime.posted ⟨f, s.runtime.calls f, requestSetter timed⟩)
    (hmemory : s'.memory ⟨f, s.runtime.calls f, .request⟩
      = s.memory ⟨f, s.runtime.calls f, .request⟩) : s'.pending f = s.pending f := by
  rw [pending, pending, hquestion, hcalls, hmemory]
  exact congrArg _ (funext fun timed => by rw [hposted])

theorem pending_of_idle (h : (s.runtime.pc f).question = none) : s.pending f = none := by
  rw [pending, h]
  rfl

theorem pending_of_posted {timed : Bool} {op : Int}
    (hquestion : (s.runtime.pc f).question = some timed)
    (hposted : s.runtime.posted ⟨f, s.runtime.calls f, requestSetter timed⟩ = some op) :
    s.pending f = s.memory ⟨f, s.runtime.calls f, .request⟩ := by
  rw [pending, hquestion, Option.bind_some, hposted, Option.bind_some]

theorem pending_of_not_posted {timed : Bool}
    (hquestion : (s.runtime.pc f).question = some timed)
    (hposted : s.runtime.posted ⟨f, s.runtime.calls f, requestSetter timed⟩ = none) :
    s.pending f = none := by
  rw [pending, hquestion, Option.bind_some, hposted]
  rfl

/-- What a step can be for the fibers. -/
inductive OpStep (program : FiberProgram σ D) (s : Fibers ι σ D) (e : Event ι D)
    (s' : Fibers ι σ D) : Prop where
  | ends (i : Nat) (d : D) (sqe : Sqe (Ptr ι)) (req : Request) (timed : Bool) (he : e = .ends i d)
      (hget : s.runtime.loop.ring.ring.inKernel[i]? = some sqe)
      (hasks : program.asks (s.programs sqe.addr.fiber) = some (req, timed))
      (hopcode : program.opcode d = req.opcode) (hfree : s.pending sqe.addr.fiber = none)
      (hpending : s'.pending = Function.update s.pending sqe.addr.fiber (some d))
      (hprograms : s'.programs = s.programs)
  | quiet (he : ∀ i d, e ≠ .ends i d) (hpending : s'.pending = s.pending)
      (hprograms : s'.programs = s.programs)
  | goesOn (f : ι) (d : D) (outcome : Outcome) (he : ∀ i d, e ≠ .ends i d)
      (hfits : program.Fits (s.programs f) (outcome, some d)) (hhas : s.pending f = some d)
      (hpending : s'.pending = Function.update s.pending f none)
      (hprograms : s'.programs = Function.update s.programs f
        (program.resume (s.programs f) outcome (some d)))

theorem opStep_ends {i : Nat} {d : D} (hs : s.Sound program)
    (h : step program s (.ends i d) = some s') : OpStep program s (.ends i d) s' := by
  have hcalls := hs.wake.calls
  obtain ⟨e', hevent, hstep, hs'⟩ := step_runtime h
  obtain ⟨sqe, hget, hobj, hopcode, rfl⟩ := runtimeEvent_ends hevent
  obtain ⟨hframe, _⟩ := Runtime.loopFrame_kernel hstep
  obtain ⟨ring, hring, hruntime⟩ := Runtime.step_kernel hstep
  obtain ⟨sqe', hget', hmem, hcqes⟩ := IoUring.complete_of_kernel (Ring.kernel_ring hring).1
  obtain rfl := Option.some.inj (hget.symm.trans hget')
  have hheld : sqe ∈ s.runtime.loop.ring.ring.held := List.mem_append_right _ hmem
  have haddr := hcalls.addr_eq hheld hobj
  have hfiber : sqe.addr.fiber = sqe.userData.fiber := by rw [haddr]
  obtain ⟨timed, hquestion, hcall, _⟩ := hcalls.call_of_held hheld
  have huser := hcalls.userData_eq hheld hobj hquestion
  rw [hcall] at haddr
  obtain ⟨req, hasking⟩ := hs.consistent _ timed hquestion
  have hnew : s.runtime.posted sqe.userData = none :=
    IoUring.posted_eq_none_iff.mpr (IoUring.notMem_cqes_of_mem_held hcalls.once hheld)
  have hposted : ∀ p, s'.runtime.posted p
      = (s.runtime.posted p).or (if sqe.userData = p then some (program.res d) else none) := by
    intro p
    rw [hruntime]
    exact IoUring.posted_concat hcqes p
  rw [goOn_of_same _ hframe.left] at hs'
  have hmemory : s'.memory = Function.update s.memory sqe.addr (some d) := by
    rw [hs']
    simp only [written, hget]
  refine .ends i d sqe req timed rfl hget (hfiber ▸ hasking.asks)
    (hopcode.trans (hasking.opcode sqe hheld haddr)) ?_ (funext fun g => ?_) (by rw [hs'])
  · rw [hfiber]
    exact pending_of_not_posted hquestion (huser ▸ hnew)
  · by_cases hg : g = sqe.addr.fiber
    · rw [hg, Function.update_self, hfiber]
      have hdone : s'.runtime.posted
          ⟨sqe.userData.fiber, s'.runtime.calls sqe.userData.fiber, requestSetter timed⟩
          = some (program.res d) := by
        rw [hframe.calls, ← huser, hposted, hnew, if_pos rfl]
        rfl
      rw [pending_of_posted (by rw [hframe.pc]; exact hquestion) hdone, hmemory, hframe.calls,
        ← haddr, Function.update_self]
    · rw [Function.update_of_ne hg]
      refine pending_congr (by rw [hframe.pc]) (by rw [hframe.calls]) (fun timed => ?_) ?_
      · have hne : sqe.userData ≠ ⟨g, s.runtime.calls g, requestSetter timed⟩ := fun heq =>
          hg (hfiber.trans (congrArg Ptr.fiber heq)).symm
        rw [hposted, if_neg hne, Option.or_none]
      · rw [hmemory, Function.update_of_ne fun heq => hg (congrArg Ptr.fiber heq)]

theorem opStep_call {f : ι} (hs : s.Sound program) (h : step program s (.call f) = some s') :
    OpStep program s (.call f) s' := by
  have hcalls := hs.wake.calls
  obtain ⟨e', hevent, hstep, hs'⟩ := step_runtime h
  obtain ⟨req, timed, _, rfl⟩ := runtimeEvent_call hevent
  obtain ⟨_, hidle, hruntime⟩ := Runtime.step_call hstep
  have hleft : s'.runtime.left = s.runtime.left := by rw [hruntime]; rfl
  rw [goOn_of_same _ hleft] at hs'
  have hmemory : s'.memory = s.memory := by rw [hs']; rfl
  have hposted : ∀ p, s'.runtime.posted p = s.runtime.posted p := fun p => by rw [hruntime]; rfl
  refine .quiet (fun i d heq => by cases heq) (funext fun g => ?_) (by rw [hs'])
  by_cases hg : g = f
  · subst hg
    have hpc : s'.runtime.pc g = .getting (if timed then .op req else .plain req) false :=
      (congrFun (congrArg Runtime.pc hruntime) g).trans (Function.update_self _ _ _)
    have hnumber : s'.runtime.calls g = s.runtime.calls g + 1 :=
      (congrFun (congrArg Runtime.calls hruntime) g).trans (Function.update_self _ _ _)
    have hquestion : (s'.runtime.pc g).question = some timed := by
      rw [hpc]
      cases timed <;> rfl
    rw [pending_of_idle (s := s) (by rw [hidle]; rfl)]
    refine pending_of_not_posted hquestion ?_
    rw [hnumber, hposted]
    exact IoUring.posted_eq_none_iff.mpr (hcalls.notMem_cqes (Or.inl (Nat.lt_succ_self _)))
  · have hpc : s'.runtime.pc g = s.runtime.pc g :=
      (congrFun (congrArg Runtime.pc hruntime) g).trans (Function.update_of_ne hg _ _)
    have hnumber : s'.runtime.calls g = s.runtime.calls g :=
      (congrFun (congrArg Runtime.calls hruntime) g).trans (Function.update_of_ne hg _ _)
    exact pending_congr (by rw [hpc]) hnumber (fun timed => hposted _) (by rw [hmemory])

/-- A LINK_TIMEOUT ends. -/
theorem opStep_timeout {i : Nat} {res : Int} (hs : s.Sound program)
    (h : step program s (.runtime (.kernel (.complete i res))) = some s') :
    OpStep program s (.runtime (.kernel (.complete i res))) s' := by
  obtain ⟨e', hevent, hstep, hs'⟩ := step_runtime h
  obtain ⟨⟨sqe, hget, hobj⟩, rfl⟩ := runtimeEvent_runtime hevent
  obtain ⟨hframe, _⟩ := Runtime.loopFrame_kernel hstep
  obtain ⟨ring, hring, hruntime⟩ := Runtime.step_kernel hstep
  obtain ⟨sqe', hget', hmem, hcqes⟩ := IoUring.complete_of_kernel (Ring.kernel_ring hring).1
  obtain rfl : sqe = sqe' := Option.some.inj ((Option.mem_def.mp hget).symm.trans hget')
  rw [goOn_of_same _ hframe.left] at hs'
  refine .quiet (fun i d heq => by cases heq) (funext fun g => ?_) (by rw [hs'])
  refine pending_congr (by rw [hframe.pc]) (by rw [hframe.calls]) (fun timed => ?_)
    (by rw [hs']; rfl)
  have hposted : s'.runtime.posted ⟨g, s.runtime.calls g, requestSetter timed⟩
      = (s.runtime.posted ⟨g, s.runtime.calls g, requestSetter timed⟩).or
        (if sqe.userData = ⟨g, s.runtime.calls g, requestSetter timed⟩ then some res else
          none) := by
    rw [hruntime]
    exact IoUring.posted_concat hcqes _
  have hne : sqe.userData ≠ ⟨g, s.runtime.calls g, requestSetter timed⟩ := fun heq => by
    have hrequest := hs.wake.calls.request_of_setter (List.mem_append_right _ hmem) heq
    cases hobj.symm.trans hrequest
  rw [hposted, if_neg hne, Option.or_none]

/-- The fiber leaves its call with the answer to it. -/
theorem opStep_finishes {e : Runtime.Event ι} {f : ι} {timed : Bool} (hs : s.Sound program)
    (hheard : s.runtime.Heard) (hwoken : s.runtime.pc f = .woken timed)
    (hruntime : s'.runtime = s.runtime.finish f timed)
    (h : step program s (.runtime e) = some s') : OpStep program s (.runtime e) s' := by
  obtain ⟨_, _, _, hs'⟩ := step_runtime h
  have hblocking := Runtime.blocking_finish hs.wake hheard hwoken
  rw [← hruntime] at hblocking
  obtain ⟨question, outcome, hanswered, hnext⟩ := Blocking.step_ret hblocking
  have hleft := congrArg Runtime.left hruntime
  rw [goOn_of_left _ hleft, Runtime.outcome_of_left hleft (congrArg Blocking.returned hnext)] at hs'
  obtain ⟨hquestion, hanswer⟩ := Runtime.blockingCall_answered hanswered
  obtain ⟨req, hasking⟩ := hs.consistent f question hquestion
  -- the answer is the result of the operation
  obtain ⟨op, hop, hended⟩ : ∃ op,
      s.runtime.posted ⟨f, s.runtime.calls f, requestSetter question⟩ = some op
        ∧ ∀ d, program.res d = op → program.Ended d outcome question := by
    cases question with
    | false =>
        obtain ⟨op, hop, rfl⟩ := Option.map_eq_some_iff.mp hanswer
        exact ⟨op, hop, fun d hd => congrArg Outcome.returned hd.symm⟩
    | true =>
        obtain ⟨op, hop, hboth⟩ := Option.bind_eq_some_iff.mp hanswer
        obtain ⟨timeout, _, rfl⟩ := Option.map_eq_some_iff.mp hboth
        exact ⟨op, hop, fun d hd => ⟨timeout, by rw [hd]⟩⟩
  obtain ⟨d, hd, hopcode, hres⟩ := hasking.memory _ (IoUring.mem_of_posted hop) rfl
  have hhas : s.pending f = some d := (pending_of_posted hquestion hop).trans hd
  have hmemory : s'.memory = s.memory := by rw [hs']; rfl
  refine .goesOn f d outcome (fun i d heq => by cases heq)
    ⟨req, question, d, hasking.asks, rfl, hopcode, hended d hres⟩ hhas (funext fun g => ?_) ?_
  · by_cases hg : g = f
    · rw [hg, Function.update_self]
      have hidle : s'.runtime.pc f = .idle :=
        (congrFun (congrArg Runtime.pc hruntime) f).trans (Function.update_self _ _ _)
      exact pending_of_idle (by rw [hidle]; rfl)
    · have hpc : s'.runtime.pc g = s.runtime.pc g :=
        (congrFun (congrArg Runtime.pc hruntime) g).trans (Function.update_of_ne hg _ _)
      rw [Function.update_of_ne hg]
      exact pending_congr (by rw [hpc]) (by rw [hruntime]; rfl) (fun timed => by rw [hruntime]; rfl)
        (by rw [hmemory])
  · rw [hs']
    exact congrArg (fun found => Function.update s.programs f
      (program.resume (s.programs f) outcome found)) hd

/-- A step in which the fibers stay in their calls. -/
theorem opStep_inside {e : Runtime.Event ι} (hs : s.Sound program)
    (hne : ∀ i res, e ≠ .kernel (.complete i res))
    (hleft : s'.runtime.left = s.runtime.left)
    (hquestion : ∀ g, (s'.runtime.pc g).question = (s.runtime.pc g).question)
    (h : step program s (.runtime e) = some s') : OpStep program s (.runtime e) s' := by
  obtain ⟨e', hevent, hstep, hs'⟩ := step_runtime h
  obtain ⟨hother, rfl⟩ := runtimeEvent_runtime hevent
  have hcqes := Runtime.cqes_of_step hs.wake.calls.sched hstep hne
  have hnumber : s'.runtime.calls = s.runtime.calls :=
    Runtime.calls_of_step hstep fun f req timed heq => by rw [heq] at hother; exact hother
  rw [goOn_of_same _ hleft] at hs'
  refine .quiet (fun i d heq => by cases heq) (funext fun g => ?_) (by rw [hs'])
  exact pending_congr (hquestion g) (by rw [hnumber]) (fun timed => Runtime.posted_of_cqes hcqes _)
    (by rw [hs']; rfl)

theorem opStep_of_step {e : Event ι D} (hs : s.Sound program) (hheard : s.runtime.Heard)
    (hok : s.CountPasses program e) (h : step program s e = some s') :
    OpStep program s e s' := by
  cases e with
  | ends i d => exact opStep_ends hs h
  | call f => exact opStep_call hs h
  | runtime e =>
      by_cases hcomplete : ∃ i res, e = .kernel (.complete i res)
      · obtain ⟨i, res, rfl⟩ := hcomplete
        exact opStep_timeout hs h
      · have hne : ∀ i res, e ≠ .kernel (.complete i res) := fun i res heq =>
          hcomplete ⟨i, res, heq⟩
        obtain ⟨e', hevent, hstep, _⟩ := step_runtime h
        have hpasses := hok e' hevent
        obtain ⟨hother, rfl⟩ := runtimeEvent_runtime hevent
        cases Runtime.callStep_of_step hstep with
        | outside hpc _ hleft _ _ _ _ _ _ _ =>
            exact opStep_inside hs hne hleft (fun g => by rw [hpc]) h
        | begins f req timed _ hruntime =>
            have hcalls := Runtime.calls_of_step hstep fun f req timed heq => by
              rw [heq] at hother
              exact hother
            have hnew : s'.runtime.calls f = s.runtime.calls f + 1 :=
              (congrFun (congrArg Runtime.calls hruntime) f).trans (Function.update_self _ _ _)
            exact absurd (hnew.symm.trans (congrFun hcalls f)) (Nat.succ_ne_self _)
        | moves f pc hmoves hpc _ hleft _ _ _ _ _ _ =>
            exact opStep_inside hs hne hleft (Runtime.question_of_update hpc hmoves.question) h
        | queues f stage starved hgetting hpc _ hleft _ _ _ _ _ _ =>
            refine opStep_inside hs hne hleft (Runtime.question_of_update hpc ?_) h
            rw [hgetting]
            exact stage.question_next starved
        | throws f code _ _ hfails _ => exact absurd hpasses hfails
        | finishes f timed hwoken hruntime =>
            exact opStep_finishes hs hheard hwoken hruntime h
        | dispatches cqe rest _ _ _ hruntime =>
            refine opStep_inside hs hne ?_ (fun g => ?_) h
            · rw [hruntime]
              exact (Runtime.dispatchNext_frame s.runtime cqe rest).2.1
            · rw [hruntime]
              exact Runtime.question_dispatchNext s.runtime cqe rest g

end Fibers

end Hnet
