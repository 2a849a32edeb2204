import Hnet.Callers
import Hnet.Fibers
import Hnet.Proof.BlockingCalls
import Hnet.Proof.Lifetime

/-!
# Programs over `ring_submit` are programs over blocking calls

Whatever programs the fibers run, the ring, the poller and the scheduler below them can be
forgotten. A program asks, is answered with the outcome of its call and with what the kernel has
left in the memory of its request, and goes on; and the two belong together, since they come from
the operation that it asked for.
-/

namespace Hnet

open Lts

/-- The setter that goes with the request of a call. -/
def requestSetter (timed : Bool) : StackObj := if timed then .opResSetter else .resSetter

namespace Runtime

variable {ι : Type} [DecidableEq ι] {s s' : Runtime ι}

theorem calls_of_step {e : Event ι} (h : s.step e = some s')
    (hne : ∀ f req timed, e ≠ .call f req timed) : s'.calls = s.calls := by
  cases e with
  | call f req timed => exact absurd rfl (hne f req timed)
  | kernel e => exact (loopFrame_kernel h).1.calls
  | poll e => exact (loopFrame_poll h).1.calls
  | dispatch =>
      obtain ⟨cqe, rest, _, _, rfl⟩ := step_dispatch h
      exact (dispatchNext_frame s cqe rest).1
  | resume f =>
      obtain ⟨_, _, _, rfl⟩ := step_resume h
      rfl
  | park f =>
      obtain ⟨_, _, rfl⟩ := step_park h
      rfl
  | get f =>
      obtain ⟨stage, starved, _, _, rfl⟩ := step_get h
      rcases get_cases s f stage starved with ⟨_, _, _, _, heq⟩ | ⟨_, heq⟩ <;> rw [heq]
  | flush f =>
      obtain ⟨timed, _, _, rfl⟩ := step_flush h
      rfl
  | count f err =>
      obtain ⟨timed, _, _, rfl⟩ := step_count h
      rcases count_cases s f timed (s.submitRet err) with ⟨_, _, heq⟩ | ⟨_, heq⟩ <;> rw [heq]
  | finish f =>
      obtain ⟨timed, _, _, rfl⟩ := step_finish h
      rfl

theorem left_of_step {e : Event ι} (h : s.step e = some s') :
    s'.left = s.left ∨ ∃ l, s'.left = s.left ++ [l] := by
  cases callStep_of_step h with
  | outside _ _ hleft => exact Or.inl hleft
  | begins f req timed _ hs' => exact Or.inl (by rw [hs']; rfl)
  | moves f pc _ _ _ hleft => exact Or.inl hleft
  | queues f stage starved _ _ _ hleft => exact Or.inl hleft
  | throws f code _ _ _ hs' => exact Or.inr ⟨_, congrArg left hs'⟩
  | finishes f timed _ hs' => exact Or.inr ⟨_, congrArg left hs'⟩
  | dispatches cqe rest _ _ _ hs' =>
      rw [hs']
      exact Or.inl (dispatchNext_frame s cqe rest).2.1

omit [DecidableEq ι] in
theorem CallInv.addr_eq (hinv : s.CallInv) {sqe : Sqe (Ptr ι)}
    (hheld : sqe ∈ s.loop.ring.ring.held) (hobj : sqe.addr.obj = .request) :
    sqe.addr = ⟨sqe.userData.fiber, sqe.userData.call, .request⟩ := by
  obtain ⟨stage, f, call, rfl⟩ := hinv.built sqe hheld
  cases stage with
  | timeout => cases hobj
  | plain req => rfl
  | op req => rfl

omit [DecidableEq ι] in
/-- The call that a request belongs to is the one its fiber is in. -/
theorem CallInv.call_of_held (hinv : s.CallInv) {sqe : Sqe (Ptr ι)}
    (hheld : sqe ∈ s.loop.ring.ring.held) : ∃ timed,
      (s.pc sqe.userData.fiber).question = some timed
        ∧ sqe.userData.call = s.calls sqe.userData.fiber
        ∧ sqe.userData.obj ∈ callSetters timed := by
  obtain ⟨hcall, hlive⟩ := hinv.live _ (EventLoop.mem_undispatched_of_held hheld)
  obtain ⟨timed, hquestion, hsetter⟩ := Pc.callSetter_of_mem_queued (Pc.mem_queued_of_live hlive)
  exact ⟨timed, hquestion, hcall, hsetter⟩

omit [DecidableEq ι] in
/-- A request is posted for its own setter. -/
theorem CallInv.userData_eq (hinv : s.CallInv) {sqe : Sqe (Ptr ι)}
    (hheld : sqe ∈ s.loop.ring.ring.held) (hobj : sqe.addr.obj = .request) {timed : Bool}
    (hquestion : (s.pc sqe.userData.fiber).question = some timed) :
    sqe.userData = ⟨sqe.userData.fiber, s.calls sqe.userData.fiber, requestSetter timed⟩ := by
  obtain ⟨timed', hquestion', hcall, hsetter⟩ := hinv.call_of_held hheld
  obtain rfl := Option.some.inj (hquestion.symm.trans hquestion')
  obtain ⟨stage, f, call, rfl⟩ := hinv.built sqe hheld
  rw [← hcall]
  cases stage with
  | timeout => cases hobj
  | plain req => cases timed <;> simp [Stage.sqe, callSetters, requestSetter] at hsetter ⊢
  | op req => cases timed <;> simp [Stage.sqe, callSetters, requestSetter] at hsetter ⊢

omit [DecidableEq ι] in
theorem CallInv.request_of_setter (hinv : s.CallInv) {sqe : Sqe (Ptr ι)}
    (hheld : sqe ∈ s.loop.ring.ring.held) {f : ι} {call : Nat} {timed : Bool}
    (hsetter : sqe.userData = ⟨f, call, requestSetter timed⟩) : sqe.addr.obj = .request := by
  obtain ⟨stage, g, k, rfl⟩ := hinv.built sqe hheld
  cases stage with
  | timeout => cases timed <;> simp [Stage.sqe, requestSetter] at hsetter
  | plain req => rfl
  | op req => rfl

theorem blockingCall_answered {f : ι} {timed : Bool} {outcome : Outcome}
    (h : s.blockingCall f = .answered timed outcome) :
    (s.pc f).question = some timed ∧ s.answer f (s.calls f) timed = some outcome := by
  simp only [blockingCall] at h
  split at h
  · cases h
  · rename_i timed' hquestion
    split at h
    · cases h
    · rename_i outcome' hanswer
      obtain ⟨rfl, rfl⟩ := BlockingCall.answered.inj h
      exact ⟨hquestion, hanswer⟩

/-- The outcome that the setters gave is the answer. -/
theorem outcome_of_left {l : Left ι} {f : ι} {outcome : Outcome} (hleft : s'.left = s.left ++ [l])
    (hreturned : s'.blocking.returned = s.blocking.returned ++ [(f, outcome)]) :
    l.outcome = outcome := by
  simp only [blocking, hleft, List.map_append, List.map_cons, List.map_nil] at hreturned
  have hlast := List.append_cancel_left hreturned
  exact (Prod.mk.inj (List.head_eq_of_cons_eq hlast)).2

/-! ### Which steps the callers see -/

theorem blockingEvent_ask {e : Event ι} {f : ι} {timed : Bool}
    (h : s.blockingEvent e = some (.ask f timed)) : ∃ req, e = .call f req timed := by
  unfold blockingEvent at h
  split at h
  · obtain ⟨rfl, rfl⟩ := Blocking.Event.ask.inj (Option.some.inj h)
    exact ⟨_, rfl⟩
  · split at h
    · split at h <;> cases h
    · cases h
  all_goals cases h

theorem blockingEvent_answer {e : Event ι} {f : ι} {outcome : Outcome}
    (h : s.blockingEvent e = some (.answer f outcome)) :
    ∃ i res sqe, e = .kernel (.complete i res) ∧ s.loop.ring.ring.inKernel[i]? = some sqe
      ∧ sqe.userData.fiber = f := by
  unfold blockingEvent at h
  split at h
  · cases h
  · rename_i i res
    split at h
    · rename_i sqe s' hget _
      split at h
      · obtain ⟨rfl, _⟩ := Blocking.Event.answer.inj (Option.some.inj h)
        exact ⟨i, res, sqe, rfl, hget, rfl⟩
      · cases h
    · cases h
  all_goals cases h

theorem blockingEvent_ret {e : Event ι} {f : ι} (h : s.blockingEvent e = some (.ret f)) :
    e = .finish f := by
  unfold blockingEvent at h
  split at h
  · cases h
  · split at h
    · split at h <;> cases h
    · cases h
  · obtain rfl := Blocking.Event.ret.inj (Option.some.inj h)
    rfl
  all_goals cases h

end Runtime

namespace Fibers

variable {ι σ D : Type} {program : FiberProgram σ D}

/-! ### Requests and the memory they name -/

/-- A fiber is in the call its program asks for. Its request carries the opcode of that call, and
once it has been answered, its memory holds what goes with the result. -/
structure Asking (program : FiberProgram σ D) (s : Fibers ι σ D) (f : ι) (req : Request)
    (timed : Bool) : Prop where
  asks : program.asks (s.programs f) = some (req, timed)
  stage : ∀ stage starved, s.runtime.pc f = .getting stage starved →
    stage = .timeout ∨ stage = if timed then .op req else .plain req
  opcode : ∀ sqe ∈ s.runtime.loop.ring.ring.held,
    sqe.addr = ⟨f, s.runtime.calls f, .request⟩ → sqe.opcode = req.opcode
  memory : ∀ c ∈ s.runtime.loop.ring.ring.cqes,
    c.userData = ⟨f, s.runtime.calls f, requestSetter timed⟩ →
      ∃ d, s.memory ⟨f, s.runtime.calls f, .request⟩ = some d ∧ program.opcode d = req.opcode
        ∧ program.res d = c.res

def Consistent (program : FiberProgram σ D) (s : Fibers ι σ D) : Prop :=
  ∀ f timed, (s.runtime.pc f).question = some timed → ∃ req, s.Asking program f req timed

variable {s s' : Fibers ι σ D} {f : ι} {req : Request} {timed : Bool}

theorem Asking.frame (h : s.Asking program f req timed) (hprograms : s'.programs f = s.programs f)
    (hcalls : s'.runtime.calls f = s.runtime.calls f)
    (hstage : ∀ stage starved, s'.runtime.pc f = .getting stage starved →
      stage = .timeout ∨ ∃ starved, s.runtime.pc f = .getting stage starved)
    (hheld : ∀ sqe ∈ s'.runtime.loop.ring.ring.held,
      sqe.addr = ⟨f, s.runtime.calls f, .request⟩ →
        sqe ∈ s.runtime.loop.ring.ring.held ∨ sqe.opcode = req.opcode)
    (hposted : ∀ c ∈ s'.runtime.loop.ring.ring.cqes,
      c.userData = ⟨f, s.runtime.calls f, requestSetter timed⟩ →
        c ∈ s.runtime.loop.ring.ring.cqes)
    (hmemory : s'.memory ⟨f, s.runtime.calls f, .request⟩
      = s.memory ⟨f, s.runtime.calls f, .request⟩) : s'.Asking program f req timed where
  asks := hprograms ▸ h.asks
  stage stage starved hpc := by
    rcases hstage stage starved hpc with htimeout | ⟨starved', hpc'⟩
    · exact Or.inl htimeout
    · exact h.stage stage starved' hpc'
  opcode sqe hsqe haddr := by
    rw [hcalls] at haddr
    rcases hheld sqe hsqe haddr with hold | hsame
    · exact h.opcode sqe hold haddr
    · exact hsame
  memory c hc huser := by
    rw [hcalls] at huser
    rw [hcalls, hmemory]
    exact h.memory c (hposted c hc huser) huser

variable [DecidableEq ι]

theorem consistent_init (entries capacity : Nat) (fits : entries + capacity < 2 ^ 64)
    (maxAttempts : UInt64) (programs : ι → σ) :
    (init entries capacity fits maxAttempts programs : Fibers ι σ D).Consistent program :=
  fun _ _ hquestion => by cases hquestion

/-- The kernel ends an operation: what it leaves behind goes with the CQE it posts. -/
theorem consistent_ends {i : Nat} {d : D} (hcalls : s.runtime.CallInv)
    (hinv : s.Consistent program) (h : step program s (.ends i d) = some s') :
    s'.Consistent program := by
  obtain ⟨e', hevent, hstep, hs'⟩ := step_runtime h
  obtain ⟨sqe, hget, hobj, hopcode, rfl⟩ := runtimeEvent_ends hevent
  obtain ⟨hframe, _⟩ := Runtime.loopFrame_kernel hstep
  obtain ⟨ring, hring, hruntime⟩ := Runtime.step_kernel hstep
  obtain ⟨sqe', hget', hmem, hcqes⟩ := IoUring.complete_of_kernel (Ring.kernel_ring hring).1
  obtain rfl := Option.some.inj (hget.symm.trans hget')
  have hheld : sqe ∈ s.runtime.loop.ring.ring.held := List.mem_append_right _ hmem
  rw [goOn_of_same _ hframe.left] at hs'
  have hprograms : s'.programs = s.programs := by rw [hs']
  have hmemory : s'.memory = Function.update s.memory sqe.addr (some d) := by
    rw [hs']
    simp only [written, hget]
  have hcqes' : s'.runtime.loop.ring.ring.cqes
      = s.runtime.loop.ring.ring.cqes ++ [⟨sqe.userData, program.res d⟩] := by
    rw [hruntime]
    exact hcqes
  intro f timed hquestion
  rw [hframe.pc] at hquestion
  obtain ⟨req, hasking⟩ := hinv f timed hquestion
  refine ⟨req, ?_⟩
  by_cases hf : sqe.userData.fiber = f
  · subst hf
    have huser := hcalls.userData_eq hheld hobj hquestion
    have haddr := hcalls.addr_eq hheld hobj
    rw [congrArg Ptr.call huser] at haddr
    have hnew : s.runtime.loop.ring.ring.posted sqe.userData = none :=
      IoUring.posted_eq_none_iff.mpr (IoUring.notMem_cqes_of_mem_held hcalls.once hheld)
    refine
      { asks := by rw [hprograms]; exact hasking.asks
        stage := by rw [hframe.pc]; exact hasking.stage
        opcode := fun x hx => by
          rw [hframe.calls]
          exact hasking.opcode x (hframe.held x hx)
        memory := fun c hc hc' => ?_ }
    rw [hframe.calls] at hc' ⊢
    rw [hcqes', List.mem_append, List.mem_singleton] at hc
    rcases hc with hold | rfl
    · rw [← huser] at hc'
      exact absurd (hc' ▸ List.mem_map_of_mem hold) (IoUring.posted_eq_none_iff.mp hnew)
    · refine ⟨d, ?_, hopcode.trans (hasking.opcode sqe hheld haddr), rfl⟩
      rw [hmemory, ← haddr, Function.update_self]
  · have haddr : sqe.addr.fiber ≠ f := by
      rwa [hcalls.addr_eq hheld hobj]
    refine hasking.frame (by rw [hprograms]) (by rw [hframe.calls])
      (fun stage starved hpc => Or.inr ⟨starved, by rwa [hframe.pc] at hpc⟩)
      (fun x hx _ => Or.inl (hframe.held x hx)) (fun c hc huser => ?_) ?_
    · rw [hcqes', List.mem_append, List.mem_singleton] at hc
      rcases hc with hold | rfl
      · exact hold
      · exact absurd (congrArg Ptr.fiber huser) hf
    · rw [hmemory, Function.update_of_ne fun heq => haddr (congrArg Ptr.fiber heq).symm]

theorem consistent_call {f : ι} (hcalls : s.runtime.CallInv) (hinv : s.Consistent program)
    (h : step program s (.call f) = some s') : s'.Consistent program := by
  obtain ⟨e', hevent, hstep, hs'⟩ := step_runtime h
  obtain ⟨req, timed, hasks, rfl⟩ := runtimeEvent_call hevent
  obtain ⟨_, hidle, hruntime⟩ := Runtime.step_call hstep
  have hleft : s'.runtime.left = s.runtime.left := by rw [hruntime]; rfl
  rw [goOn_of_same _ hleft] at hs'
  have hprograms : s'.programs = s.programs := by rw [hs']
  have hmemory : s'.memory = s.memory := by rw [hs']; rfl
  have hloop : s'.runtime.loop = s.runtime.loop := by rw [hruntime]; rfl
  intro g timed' hquestion
  by_cases hg : g = f
  · subst hg
    have hpc : s'.runtime.pc g = .getting (if timed then .op req else .plain req) false :=
      (congrFun (congrArg Runtime.pc hruntime) g).trans (Function.update_self _ _ _)
    have hnumber : s'.runtime.calls g = s.runtime.calls g + 1 :=
      (congrFun (congrArg Runtime.calls hruntime) g).trans (Function.update_self _ _ _)
    obtain rfl : timed' = timed := by
      rw [hpc] at hquestion
      cases timed <;> exact (Option.some.inj hquestion).symm
    refine ⟨req, by rw [hprograms]; exact hasks, fun stage starved hstage => ?_,
      fun x hx haddr => ?_, fun c hc huser => ?_⟩
    · exact Or.inr (Pc.getting.inj (hstage.symm.trans hpc)).1
    · rw [hloop] at hx
      rw [hnumber] at haddr
      have halive := ((hcalls.stackSafe.memory x hx).1).1
      rw [haddr] at halive
      exact absurd halive (Nat.succ_ne_self _)
    · rw [hloop] at hc
      rw [hnumber] at huser
      have hfresh := hcalls.notMem_cqes (p := ⟨g, s.runtime.calls g + 1, requestSetter timed'⟩)
        (Or.inl (Nat.lt_succ_self _))
      exact absurd (huser ▸ List.mem_map_of_mem hc) hfresh
  · have hpc : s'.runtime.pc g = s.runtime.pc g :=
      (congrFun (congrArg Runtime.pc hruntime) g).trans (Function.update_of_ne hg _ _)
    have hnumber : s'.runtime.calls g = s.runtime.calls g :=
      (congrFun (congrArg Runtime.calls hruntime) g).trans (Function.update_of_ne hg _ _)
    rw [hpc] at hquestion
    obtain ⟨req', hasking⟩ := hinv g timed' hquestion
    refine ⟨req', hasking.frame (by rw [hprograms]) hnumber
      (fun stage starved hstage => Or.inr ⟨starved, hpc ▸ hstage⟩) (fun x hx _ => Or.inl ?_)
      (fun c hc _ => ?_) (by rw [hmemory])⟩
    · rwa [hloop] at hx
    · rwa [hloop] at hc

/-- A LINK_TIMEOUT ends: it has no request. -/
theorem consistent_timeout {i : Nat} {res : Int} (hcalls : s.runtime.CallInv)
    (hinv : s.Consistent program)
    (h : step program s (.runtime (.kernel (.complete i res))) = some s') :
    s'.Consistent program := by
  obtain ⟨e', hevent, hstep, hs'⟩ := step_runtime h
  obtain ⟨⟨sqe, hget, hobj⟩, rfl⟩ := runtimeEvent_runtime hevent
  obtain ⟨hframe, _⟩ := Runtime.loopFrame_kernel hstep
  obtain ⟨ring, hring, hruntime⟩ := Runtime.step_kernel hstep
  obtain ⟨sqe', hget', hmem, hcqes⟩ := IoUring.complete_of_kernel (Ring.kernel_ring hring).1
  obtain rfl : sqe = sqe' := Option.some.inj ((Option.mem_def.mp hget).symm.trans hget')
  rw [goOn_of_same _ hframe.left] at hs'
  intro f timed hquestion
  rw [hframe.pc] at hquestion
  obtain ⟨req, hasking⟩ := hinv f timed hquestion
  refine ⟨req, hasking.frame (by rw [hs']) (by rw [hframe.calls])
    (fun stage starved hpc => Or.inr ⟨starved, by rwa [hframe.pc] at hpc⟩)
    (fun x hx _ => Or.inl (hframe.held x hx)) (fun c hc huser => ?_) (by rw [hs']; rfl)⟩
  have hcqes' : s'.runtime.loop.ring.ring.cqes
      = s.runtime.loop.ring.ring.cqes ++ [⟨sqe.userData, res⟩] := by
    rw [hruntime]
    exact hcqes
  rw [hcqes', List.mem_append, List.mem_singleton] at hc
  rcases hc with hold | rfl
  · exact hold
  · have hrequest := hcalls.request_of_setter (List.mem_append_right _ hmem) huser
    cases hobj.symm.trans hrequest

/-- The other steps leave the memory as it is. -/
theorem consistent_other {e : Runtime.Event ι} (hcalls : s.runtime.CallInv)
    (hinv : s.Consistent program) (hok : s.runtime.CountPasses e)
    (hne : ∀ i res, e ≠ .kernel (.complete i res))
    (h : step program s (.runtime e) = some s') : s'.Consistent program := by
  obtain ⟨e', hevent, hstep, hs'⟩ := step_runtime h
  obtain ⟨hother, rfl⟩ := runtimeEvent_runtime hevent
  have hcqes := Runtime.cqes_of_step hcalls.sched hstep hne
  have hnumber : s'.runtime.calls = s.runtime.calls :=
    Runtime.calls_of_step hstep fun f req timed heq => by rw [heq] at hother; exact hother
  have hmemory : s'.memory = s.memory := by
    rw [hs']
    unfold goOn
    split <;> rfl
  -- a fiber that is in the same stage of the same call, and whose program has not gone on
  have hkeeps : ∀ g, s'.programs g = s.programs g →
      (s'.runtime.pc g).question = (s.runtime.pc g).question →
      (∀ stage starved, s'.runtime.pc g = .getting stage starved →
        stage = .timeout ∨ ∃ starved, s.runtime.pc g = .getting stage starved) →
      (∀ x ∈ s'.runtime.loop.ring.ring.held, x ∈ s.runtime.loop.ring.ring.held ∨
        ∃ f stage starved, s.runtime.pc f = .getting stage starved
          ∧ x = stage.sqe f (s.runtime.calls f)) →
      ∀ timed, (s'.runtime.pc g).question = some timed →
        ∃ req, s'.Asking program g req timed := by
    intro g hprogram hsame hstage hheld timed hquestion
    obtain ⟨req, hasking⟩ := hinv g timed (hsame ▸ hquestion)
    refine ⟨req, hasking.frame hprogram (congrFun hnumber g) hstage (fun x hx haddr => ?_)
      (fun c hc _ => by rwa [hcqes] at hc) (by rw [hmemory])⟩
    rcases hheld x hx with hold | ⟨f, stage, starved, hpc, rfl⟩
    · exact Or.inl hold
    · obtain rfl : f = g := by cases stage <;> exact congrArg Ptr.fiber haddr
      refine Or.inr ?_
      rcases hasking.stage stage starved hpc with rfl | rfl
      · cases congrArg Ptr.obj haddr
      · cases timed <;> rfl
  intro g timed hquestion
  cases Runtime.callStep_of_step hstep with
  | outside hpc hcallsEq hleft _ _ _ _ hheld _ _ =>
      rw [goOn_of_same _ hleft] at hs'
      exact hkeeps g (by rw [hs']) (by rw [hpc])
        (fun stage starved hstage => Or.inr ⟨starved, by rwa [hpc] at hstage⟩)
        (fun x hx => Or.inl (hheld x hx)) timed hquestion
  | begins f req timed' _ hruntime =>
      have hnew : s'.runtime.calls f = s.runtime.calls f + 1 :=
        (congrFun (congrArg Runtime.calls hruntime) f).trans (Function.update_self _ _ _)
      exact absurd (hnew.symm.trans (congrFun hnumber f)) (Nat.succ_ne_self _)
  | moves f pc hmoves hpc _ hleft _ _ _ _ hheld _ =>
      rw [goOn_of_same _ hleft] at hs'
      refine hkeeps g (by rw [hs']) (Runtime.question_of_update hpc hmoves.question g)
        (fun stage starved hstage => Or.inr ?_) (fun x hx => Or.inl (hheld ▸ hx)) timed hquestion
      rw [hpc] at hstage
      by_cases hg : g = f
      · rw [hg, Function.update_self] at hstage
        rw [hg]
        generalize s.runtime.pc f = old at hmoves ⊢
        cases hmoves with
        | starves stage' starved' =>
            obtain ⟨rfl, _⟩ := Pc.getting.inj hstage
            exact ⟨starved', rfl⟩
        | submits timed => cases hstage
        | suspends timed => cases hstage
      · rw [Function.update_of_ne hg] at hstage
        exact ⟨starved, hstage⟩
  | queues f stage starved hgetting hpc _ hleft _ _ _ _ hheld _ =>
      rw [goOn_of_same _ hleft] at hs'
      refine hkeeps g (by rw [hs']) (Runtime.question_of_update hpc ?_ g)
        (fun stage' starved' hstage => ?_) (fun x hx => ?_) timed hquestion
      · rw [hgetting]
        exact stage.question_next starved
      · rw [hpc] at hstage
        by_cases hg : g = f
        · rw [hg, Function.update_self] at hstage
          refine Or.inl ?_
          cases stage <;> cases hstage
          rfl
        · rw [Function.update_of_ne hg] at hstage
          exact Or.inr ⟨starved', hstage⟩
      · exact (hheld x hx).symm.imp_right fun heq => ⟨f, stage, starved, hgetting, heq⟩
  | throws f code hpc hrunning hfails _ => exact absurd hok hfails
  | finishes f timed' hwoken hruntime =>
      have hleft := congrArg Runtime.left hruntime
      rw [goOn_of_left _ hleft] at hs'
      have hpc : s'.runtime.pc = Function.update s.runtime.pc f .idle :=
        congrArg Runtime.pc hruntime
      have hloop : s'.runtime.loop = s.runtime.loop := by rw [hruntime]; rfl
      by_cases hg : g = f
      · rw [hpc, hg, Function.update_self] at hquestion
        cases hquestion
      · have hsame : s'.runtime.pc g = s.runtime.pc g := by
          rw [hpc, Function.update_of_ne hg]
        refine hkeeps g ?_ (by rw [hsame])
          (fun stage starved hstage => Or.inr ⟨starved, hsame ▸ hstage⟩)
          (fun x hx => Or.inl (by rwa [hloop] at hx)) timed hquestion
        rw [hs']
        exact Function.update_of_ne hg _ _
  | dispatches cqe rest _ _ _ hruntime =>
      have hleft : s'.runtime.left = s.runtime.left := by
        rw [hruntime]
        exact (Runtime.dispatchNext_frame s.runtime cqe rest).2.1
      rw [goOn_of_same _ hleft] at hs'
      refine hkeeps g (by rw [hs']) ?_ (fun stage starved hstage => Or.inr ⟨starved, ?_⟩)
        (fun x hx => Or.inl ?_) timed hquestion
      · rw [hruntime]
        exact Runtime.question_dispatchNext s.runtime cqe rest g
      · rw [hruntime] at hstage
        rcases Runtime.dispatchNext_pc s.runtime cqe rest with hpc | ⟨f, timed', _, _, hpc⟩
        · rwa [hpc] at hstage
        · rw [hpc] at hstage
          by_cases hg : g = f
          · rw [hg, Function.update_self] at hstage
            cases hstage
          · rwa [Function.update_of_ne hg] at hstage
      · rwa [hruntime, Runtime.dispatchNext_ring] at hx

/-- The timed calls go on after their second `io_uring_submit`. -/
def CountPasses (program : FiberProgram σ D) (s : Fibers ι σ D) (e : Event ι D) : Prop :=
  ∀ e' ∈ s.runtimeEvent program e, s.runtime.CountPasses e'

omit [DecidableEq ι] in
/-- No operation ends with the sentinel of the setters. -/
def SparesEnocqe (program : FiberProgram σ D) (s : Fibers ι σ D) (e : Event ι D) : Prop :=
  ∀ e' ∈ s.runtimeEvent program e, s.runtime.SparesEnocqe e'

instance (s : Fibers ι σ D) (e : Event ι D) : Decidable (s.CountPasses program e) :=
  inferInstanceAs (Decidable (∀ e' ∈ s.runtimeEvent program e, s.runtime.CountPasses e'))

instance (s : Fibers ι σ D) (e : Event ι D) : Decidable (s.SparesEnocqe program e) :=
  inferInstanceAs (Decidable (∀ e' ∈ s.runtimeEvent program e, s.runtime.SparesEnocqe e'))

theorem step_consistent {e : Event ι D} (hcalls : s.runtime.CallInv)
    (hinv : s.Consistent program) (hok : s.CountPasses program e)
    (h : step program s e = some s') : s'.Consistent program := by
  cases e with
  | ends i d => exact consistent_ends hcalls hinv h
  | call f => exact consistent_call hcalls hinv h
  | runtime e =>
      obtain ⟨e', hevent, _⟩ := step_runtime h
      have hpasses := hok e' hevent
      obtain ⟨_, rfl⟩ := runtimeEvent_runtime hevent
      by_cases hcomplete : ∃ i res, e' = .kernel (.complete i res)
      · obtain ⟨i, res, rfl⟩ := hcomplete
        exact consistent_timeout hcalls hinv h
      · exact consistent_other hcalls hinv hpasses (fun i res heq => hcomplete ⟨i, res, heq⟩) h

/-! ### What the programs see -/

end Fibers

/-- A call whose operation ended with `d` can be left so. -/
def FiberProgram.Ended {σ D : Type} (program : FiberProgram σ D) (d : D) (outcome : Outcome) :
    Bool → Prop
  | false => outcome = .returned (program.res d)
  | true => ∃ timeout, outcome = timedOutcome (program.res d) timeout

/-- What a program can find when it goes on: it is about the operation that the program asked
for. -/
def FiberProgram.Fits {σ D : Type} (program : FiberProgram σ D) (p : σ)
    (found : Outcome × Option D) : Prop :=
  ∃ req timed d, program.asks p = some (req, timed) ∧ found.2 = some d
    ∧ program.opcode d = req.opcode ∧ program.Ended d found.1 timed

/-- It makes no timed calls. -/
def FiberProgram.Plain {σ D : Type} (program : FiberProgram σ D) : Prop :=
  ∀ p req timed, program.asks p = some (req, timed) → timed = false

def FiberProgram.caller {σ D : Type} (program : FiberProgram σ D) :
    Caller σ Bool (Outcome × Option D) where
  asks p := (program.asks p).map Prod.snd
  resume p found := program.resume p found.1 found.2

namespace Fibers

variable {ι σ D : Type} [DecidableEq ι] {program : FiberProgram σ D} {s s' : Fibers ι σ D} {f : ι}

/-- The fibers over the machine of blocking calls. An answer is the outcome of the call and what is
in the memory of its request. -/
def callers (s : Fibers ι σ D) : Callers ι σ Bool (Outcome × Option D) where
  blocking :=
    { calls := fun f => (s.runtime.blockingCall f).map fun outcome =>
        (outcome, s.memory ⟨f, s.runtime.calls f, .request⟩)
      returned := s.returned }
  programs := s.programs

/-- What a step is for the programs. -/
def label (program : FiberProgram σ D) (s : Fibers ι σ D) (e : Event ι D) :
    Option (Blocking.Event ι Bool (Outcome × Option D)) :=
  (s.runtimeEvent program e).bind fun e' => (s.runtime.blockingEvent e').map fun
    | .ask f timed => .ask f timed
    | .answer f outcome => .answer f (outcome, s.written e ⟨f, s.runtime.calls f, .request⟩)
    | .ret f => .ret f

theorem callers_call_congr (hcall : s'.runtime.blockingCall f = s.runtime.blockingCall f)
    (hmemory : (∃ timed outcome, s.runtime.blockingCall f = .answered timed outcome) →
      s'.memory ⟨f, s'.runtime.calls f, .request⟩ = s.memory ⟨f, s.runtime.calls f, .request⟩) :
    s'.callers.blocking.calls f = s.callers.blocking.calls f := by
  simp only [callers, hcall]
  cases hstate : s.runtime.blockingCall f with
  | answered timed outcome => simp only [BlockingCall.map, hmemory ⟨timed, outcome, hstate⟩]
  | _ => rfl

/-- The memory of a call that has been answered stays as it is. -/
theorem written_of_answered {e : Event ι D} {e' : Runtime.Event ι} (hcalls : s.runtime.CallInv)
    (hevent : s.runtimeEvent program e = some e')
    (hanswered : ∃ timed outcome, s.runtime.blockingCall f = .answered timed outcome) :
    s.written e ⟨f, s.runtime.calls f, .request⟩ = s.memory ⟨f, s.runtime.calls f, .request⟩ := by
  cases e with
  | ends i d =>
      obtain ⟨sqe, hget, hobj, _⟩ := runtimeEvent_ends hevent
      have hheld : sqe ∈ s.runtime.loop.ring.ring.held :=
        List.mem_append_right _ (List.mem_of_getElem? hget)
      obtain ⟨timed, _, hasked⟩ := hcalls.asked hheld
      simp only [written, hget]
      refine Function.update_of_ne (fun heq => ?_) _ _
      rw [hcalls.addr_eq hheld hobj] at heq
      obtain ⟨timed', outcome, hstate⟩ := hanswered
      have hfiber : f = sqe.userData.fiber := congrArg Ptr.fiber heq
      rw [hfiber, hasked] at hstate
      cases hstate
  | call f => rfl
  | runtime e => rfl

/-- A step that no caller sees. -/
theorem callers_of_none {e : Event ι D} {e' : Runtime.Event ι} (hcalls : s.runtime.CallInv)
    (hevent : s.runtimeEvent program e = some e') (hstep : s.runtime.step e' = some s'.runtime)
    (hs' : s' = s.goOn program s'.runtime (s.written e))
    (hnone : s.runtime.blockingEvent e' = none)
    (hblocking : s'.runtime.blocking = s.runtime.blocking) : s'.callers = s.callers := by
  have hleft : s'.runtime.left = s.runtime.left := by
    rcases Runtime.left_of_step hstep with hsame | ⟨l, hmore⟩
    · exact hsame
    · have hlength := congrArg (fun b => b.returned.length) hblocking
      simp only [Runtime.blocking, hmore, List.length_map, List.length_append,
        List.length_singleton] at hlength
      omega
  have hnumber : s'.runtime.calls = s.runtime.calls :=
    Runtime.calls_of_step hstep fun f req timed heq => by
      rw [heq] at hnone
      cases hnone
  rw [goOn_of_same _ hleft] at hs'
  have hsame : s'.callers.blocking.calls = s.callers.blocking.calls := by
    funext g
    refine callers_call_congr (congrFun (congrArg Blocking.calls hblocking) g) fun hanswered => ?_
    rw [hnumber, ← written_of_answered hcalls hevent hanswered, hs']
  have hreturned : s'.returned = s.returned := by rw [hs']
  have hprograms : s'.programs = s.programs := by rw [hs']
  simp only [callers, Callers.mk.injEq, Blocking.mk.injEq] at hsame ⊢
  exact ⟨⟨hsame, hreturned⟩, hprograms⟩

theorem callers_ask {e : Event ι D} {e' : Runtime.Event ι} {timed : Bool}
    (hevent : s.runtimeEvent program e = some e') (hstep : s.runtime.step e' = some s'.runtime)
    (hs' : s' = s.goOn program s'.runtime (s.written e))
    (hseen : s.runtime.blockingEvent e' = some (.ask f timed))
    (hblocking : s.runtime.blocking.step (.ask f timed) = some s'.runtime.blocking) :
    Callers.step program.caller s.callers (.ask f timed) = some s'.callers := by
  obtain ⟨req, rfl⟩ := Runtime.blockingEvent_ask hseen
  obtain ⟨hasks, hmemory⟩ : program.asks (s.programs f) = some (req, timed)
      ∧ s.written e = s.memory := by
    cases e with
    | ends i d =>
        obtain ⟨_, _, _, _, heq⟩ := runtimeEvent_ends hevent
        cases heq
    | call g =>
        obtain ⟨req', timed', hasks, heq⟩ := runtimeEvent_call hevent
        obtain ⟨rfl, rfl, rfl⟩ := Runtime.Event.call.inj heq
        exact ⟨hasks, rfl⟩
    | runtime e =>
        obtain ⟨hother, rfl⟩ := runtimeEvent_runtime hevent
        exact absurd hother id
  obtain ⟨_, _, hruntime⟩ := Runtime.step_call hstep
  have hleft : s'.runtime.left = s.runtime.left := by rw [hruntime]; rfl
  rw [goOn_of_same _ hleft, hmemory] at hs'
  obtain ⟨hidle, hnext⟩ := Blocking.step_ask hblocking
  have hfree : s.callers.blocking.calls f = .idle := congrArg (BlockingCall.map _) hidle
  have hcaller : program.caller.asks (s.callers.programs f) = some timed :=
    congrArg (Option.map Prod.snd) hasks
  rw [Callers.step_ask_of_asks hcaller (Blocking.step_ask_of_idle timed hfree)]
  have hcalls : Function.update s.callers.blocking.calls f (.asked timed)
      = s'.callers.blocking.calls := by
    have hviews := congrArg Blocking.calls hnext
    funext g
    by_cases hg : g = f
    · subst hg
      have hview : s'.runtime.blockingCall g = .asked timed :=
        (congrFun hviews g).trans (Function.update_self _ _ _)
      rw [Function.update_self]
      simp only [callers, hview, BlockingCall.map]
    · have hview : s'.runtime.blockingCall g = s.runtime.blockingCall g :=
        (congrFun hviews g).trans (Function.update_of_ne hg _ _)
      have hnumber : s'.runtime.calls g = s.runtime.calls g :=
        (congrFun (congrArg Runtime.calls hruntime) g).trans (Function.update_of_ne hg _ _)
      rw [Function.update_of_ne hg]
      refine (callers_call_congr hview fun _ => ?_).symm
      rw [hnumber, hs']
  have hreturned : s'.returned = s.returned := by rw [hs']
  have hprograms : s'.programs = s.programs := by rw [hs']
  rw [hcalls]
  simp only [callers, hreturned, hprograms]

theorem callers_answer {e : Event ι D} {e' : Runtime.Event ι} {outcome : Outcome}
    (hcalls : s.runtime.CallInv) (hevent : s.runtimeEvent program e = some e')
    (hstep : s.runtime.step e' = some s'.runtime)
    (hs' : s' = s.goOn program s'.runtime (s.written e))
    (hseen : s.runtime.blockingEvent e' = some (.answer f outcome))
    (hblocking : s.runtime.blocking.step (.answer f outcome) = some s'.runtime.blocking) :
    Callers.step program.caller s.callers
        (.answer f (outcome, s.written e ⟨f, s.runtime.calls f, .request⟩)) = some s'.callers := by
  obtain ⟨i, res, sqe, rfl, _, _⟩ := Runtime.blockingEvent_answer hseen
  obtain ⟨hframe, _⟩ := Runtime.loopFrame_kernel hstep
  rw [goOn_of_same _ hframe.left] at hs'
  obtain ⟨timed, hasked, hnext⟩ := Blocking.step_answer hblocking
  have hwaits : s.callers.blocking.calls f = .asked timed := congrArg (BlockingCall.map _) hasked
  rw [Callers.step, Blocking.step_answer_of_asked _ hwaits, Option.map_some]
  have hcallers : Function.update s.callers.blocking.calls f
      (.answered timed (outcome, s.written e ⟨f, s.runtime.calls f, .request⟩))
      = s'.callers.blocking.calls := by
    have hviews := congrArg Blocking.calls hnext
    funext g
    by_cases hg : g = f
    · subst hg
      have hview : s'.runtime.blockingCall g = .answered timed outcome :=
        (congrFun hviews g).trans (Function.update_self _ _ _)
      have hmemory : s'.memory = s.written e := by rw [hs']
      rw [Function.update_self]
      simp only [callers, hview, BlockingCall.map, hmemory, hframe.calls]
    · have hview : s'.runtime.blockingCall g = s.runtime.blockingCall g :=
        (congrFun hviews g).trans (Function.update_of_ne hg _ _)
      rw [Function.update_of_ne hg]
      refine (callers_call_congr hview fun hanswered => ?_).symm
      rw [hframe.calls, ← written_of_answered hcalls hevent hanswered, hs']
  have hreturned : s'.returned = s.returned := by rw [hs']
  have hprograms : s'.programs = s.programs := by rw [hs']
  rw [hcallers]
  simp only [callers, hreturned, hprograms]

theorem callers_ret {e : Event ι D} {e' : Runtime.Event ι}
    (hevent : s.runtimeEvent program e = some e') (hstep : s.runtime.step e' = some s'.runtime)
    (hs' : s' = s.goOn program s'.runtime (s.written e))
    (hseen : s.runtime.blockingEvent e' = some (.ret f))
    (hblocking : s.runtime.blocking.step (.ret f) = some s'.runtime.blocking) :
    Callers.step program.caller s.callers (.ret f) = some s'.callers := by
  obtain rfl := Runtime.blockingEvent_ret hseen
  have hmemory : s.written e = s.memory := by
    cases e with
    | ends i d =>
        obtain ⟨_, _, _, _, heq⟩ := runtimeEvent_ends hevent
        cases heq
    | call g => rfl
    | runtime e => rfl
  obtain ⟨timed, _, _, hruntime⟩ := Runtime.step_finish hstep
  obtain ⟨question, outcome, hanswered, hnext⟩ := Blocking.step_ret hblocking
  have hleft := congrArg Runtime.left hruntime
  rw [goOn_of_left _ hleft, hmemory] at hs'
  rw [Runtime.outcome_of_left hleft (congrArg Blocking.returned hnext)] at hs'
  have hhas : s.callers.blocking.calls f
      = .answered question (outcome, s.memory ⟨f, s.runtime.calls f, .request⟩) :=
    congrArg (BlockingCall.map _) hanswered
  rw [Callers.step_ret_of_answered hhas (Blocking.step_ret_of_answered hhas)]
  have hcallers : Function.update s.callers.blocking.calls f .idle = s'.callers.blocking.calls := by
    have hviews := congrArg Blocking.calls hnext
    funext g
    by_cases hg : g = f
    · subst hg
      have hview : s'.runtime.blockingCall g = .idle :=
        (congrFun hviews g).trans (Function.update_self _ _ _)
      rw [Function.update_self]
      simp only [callers, hview, BlockingCall.map]
    · have hview : s'.runtime.blockingCall g = s.runtime.blockingCall g :=
        (congrFun hviews g).trans (Function.update_of_ne hg _ _)
      have hnumber : s'.runtime.calls = s.runtime.calls := by rw [hruntime]; rfl
      rw [Function.update_of_ne hg]
      refine (callers_call_congr hview fun _ => ?_).symm
      rw [hnumber, hs']
  have hreturned : s'.returned
      = s.returned ++ [(f, outcome, s.memory ⟨f, s.runtime.calls f, .request⟩)] := by rw [hs']
  have hprograms : s'.programs = Function.update s.programs f
      (program.resume (s.programs f) outcome (s.memory ⟨f, s.runtime.calls f, .request⟩)) := by
    rw [hs']
  rw [hcallers]
  simp only [callers, hreturned, hprograms, FiberProgram.caller]

theorem tracks_callers : Tracks (step program)
    (fun s e => (s.runtime.WakeInv ∧ s.runtime.Heard) ∧ s.CountPasses program e)
    (Callers.step program.caller) (label program) (callers (ι := ι)) := by
  intro s e s' ⟨hinv, hpasses⟩ h
  obtain ⟨e', hevent, hstep, hs'⟩ := step_runtime h
  have htracks := Runtime.tracks_blocking s.runtime e' s'.runtime
    ⟨hinv, hpasses e' hevent⟩ hstep
  rw [label, hevent, Option.bind_some]
  cases hseen : s.runtime.blockingEvent e' with
  | none =>
      rw [hseen] at htracks
      have hblocking : s'.runtime.blocking = s.runtime.blocking := (Option.some.inj htracks).symm
      exact congrArg some
        (callers_of_none hinv.1.calls hevent hstep hs' hseen hblocking).symm
  | some seen =>
      rw [hseen] at htracks
      have hblocking : s.runtime.blocking.step seen = some s'.runtime.blocking := by
        simpa using htracks
      cases seen with
      | ask f timed =>
          exact Option.bind_eq_some_iff.mpr
            ⟨_, callers_ask hevent hstep hs' hseen hblocking, rfl⟩
      | answer f outcome =>
          exact Option.bind_eq_some_iff.mpr
            ⟨_, callers_answer hinv.1.calls hevent hstep hs' hseen hblocking, rfl⟩
      | ret f =>
          exact Option.bind_eq_some_iff.mpr
            ⟨_, callers_ret hevent hstep hs' hseen hblocking, rfl⟩

theorem label_answer {e : Event ι D} {found : Outcome × Option D}
    (h : s.label program e = some (.answer f found)) : ∃ e' outcome,
      s.runtimeEvent program e = some e'
        ∧ s.runtime.blockingEvent e' = some (.answer f outcome)
        ∧ found = (outcome, s.written e ⟨f, s.runtime.calls f, .request⟩) := by
  obtain ⟨e', hevent, hmap⟩ := Option.bind_eq_some_iff.mp h
  obtain ⟨seen, hseen, heq⟩ := Option.map_eq_some_iff.mp hmap
  cases seen with
  | ask g timed => cases heq
  | answer g outcome =>
      obtain ⟨rfl, rfl⟩ := Blocking.Event.answer.inj heq
      exact ⟨e', outcome, hevent, hseen, rfl⟩
  | ret g => cases heq

/-- What is answered to a program goes with what it asked for. -/
theorem answersFit_label {e : Event ι D} {seen : Blocking.Event ι Bool (Outcome × Option D)}
    (hinv : s.runtime.WakeInv ∧ s.runtime.Heard) (hconsistent : s.Consistent program)
    (hpasses : s.CountPasses program e) (h : step program s e = some s')
    (hlabel : s.label program e = some seen) :
    Callers.AnswersFit program.Fits s.callers seen := by
  cases seen with
  | ask f timed => trivial
  | ret f => trivial
  | answer f found =>
      obtain ⟨e', outcome, hevent, hseen, rfl⟩ := label_answer hlabel
      have hconsistent' := step_consistent hinv.1.calls hconsistent hpasses h
      obtain ⟨e'', hevent', hstep, hs'⟩ := step_runtime h
      obtain rfl := Option.some.inj (hevent.symm.trans hevent')
      have htracks := Runtime.tracks_blocking s.runtime e' s'.runtime
        ⟨hinv, hpasses e' hevent⟩ hstep
      rw [hseen] at htracks
      obtain ⟨timed, _, hnext⟩ := Blocking.step_answer (by simpa using htracks)
      have hanswered : s'.runtime.blockingCall f = .answered timed outcome :=
        (congrFun (congrArg Blocking.calls hnext) f).trans (Function.update_self _ _ _)
      obtain ⟨hquestion, hanswer⟩ := Runtime.blockingCall_answered hanswered
      obtain ⟨req, hasking⟩ := hconsistent' f timed hquestion
      obtain ⟨i, res, sqe, rfl, _, _⟩ := Runtime.blockingEvent_answer hseen
      obtain ⟨hframe, _⟩ := Runtime.loopFrame_kernel hstep
      rw [goOn_of_same _ hframe.left] at hs'
      have hmemory : s'.memory = s.written e := by rw [hs']
      have hprograms : s'.programs = s.programs := by rw [hs']
      have hleft : ∀ op, s'.runtime.posted ⟨f, s'.runtime.calls f, requestSetter timed⟩ = some op →
          (∀ d, program.res d = op → program.Ended d outcome timed) →
            program.Fits (s.programs f)
              (outcome, s.written e ⟨f, s.runtime.calls f, .request⟩) := by
        intro op hop hended
        obtain ⟨d, hd, hopcode, hres⟩ := hasking.memory _ (IoUring.mem_of_posted hop) rfl
        rw [hmemory, hframe.calls] at hd
        exact ⟨req, timed, d, hprograms ▸ hasking.asks, hd, hopcode, hended d hres⟩
      cases timed with
      | false =>
          obtain ⟨op, hop, rfl⟩ := Option.map_eq_some_iff.mp hanswer
          exact hleft op hop fun d hd => congrArg Outcome.returned hd.symm
      | true =>
          obtain ⟨op, hop, hboth⟩ := Option.bind_eq_some_iff.mp hanswer
          obtain ⟨timeout, _, rfl⟩ := Option.map_eq_some_iff.mp hboth
          exact hleft op hop fun d hd => ⟨timeout, by rw [hd]⟩

/-! ### Runs -/

section Runs

variable {entries capacity : Nat} {fits : entries + capacity < 2 ^ 64} {maxAttempts : UInt64}
  {programs : ι → σ} {es : List (Event ι D)}

theorem heard_throughout
    (hkernel : Along (step program) (SparesEnocqe program)
      (init entries capacity fits maxAttempts programs) es) :
    Throughout (step program) (fun s => s.runtime.Heard)
      (init entries capacity fits maxAttempts programs) es := by
  have hsim : Simulates (step program) (SparesEnocqe program) Runtime.step Runtime.SparesEnocqe
      (runtime (ι := ι)) := by
    intro s e s' hok h
    obtain ⟨e', hevent, hstep, _⟩ := step_runtime h
    exact Or.inr ⟨e', hok e' hevent, hstep⟩
  exact hsim.throughout hkernel fun ds hds =>
    Runtime.heard_throughout entries capacity fits maxAttempts ds hds

/-- What holds in every state of a run of fibers. -/
structure Sound (program : FiberProgram σ D) (s : Fibers ι σ D) : Prop where
  wake : s.runtime.WakeInv
  consistent : s.Consistent program

theorem sound_init :
    (init entries capacity fits maxAttempts programs : Fibers ι σ D).Sound program where
  wake := ⟨Runtime.callInv_init entries capacity fits maxAttempts, fun _ _ => rfl,
    fun _ _ hf => (by cases hf), fun l hl => (by cases hl)⟩
  consistent := consistent_init entries capacity fits maxAttempts programs

theorem step_sound {e : Event ι D} (hinv : s.Sound program) (hheard : s.runtime.Heard)
    (hok : s.CountPasses program e) (h : step program s e = some s') : s'.Sound program := by
  obtain ⟨e', hevent, hstep, _⟩ := step_runtime h
  exact ⟨Runtime.step_wakeInv hinv.wake hheard (hok e' hevent) hstep,
    step_consistent hinv.wake.calls hinv.consistent hok h⟩

theorem sound_throughout
    (hcount : Along (step program) (CountPasses program)
      (init entries capacity fits maxAttempts programs) es)
    (hkernel : Along (step program) (SparesEnocqe program)
      (init entries capacity fits maxAttempts programs) es) :
    Throughout (step program) (fun s => s.Sound program ∧ s.runtime.Heard)
      (init entries capacity fits maxAttempts programs) es := by
  have hheard := heard_throughout hkernel
  have hsound := (hcount.and hheard.along).throughout sound_init
    fun s e s' hs ⟨hok, hheard⟩ hstep => step_sound hs hheard hok hstep
  exact hsound.and hheard

/-- **Programs over `ring_submit` are programs over blocking calls**, in every run in which the
count checks pass and the kernel does not report `-ENOCQE`. Each answer is about the operation its
program asked for. -/
theorem refines_callers
    (hcount : Along (step program) (CountPasses program)
      (init entries capacity fits maxAttempts programs) es)
    (hkernel : Along (step program) (SparesEnocqe program)
      (init entries capacity fits maxAttempts programs) es) {s : Fibers ι σ D}
    (hrun : run (step program) (init entries capacity fits maxAttempts programs) es = some s) :
    run (Callers.step program.caller) (Callers.init programs)
        (trace (step program) (label program)
          (init entries capacity fits maxAttempts programs) es) = some s.callers ∧
      Along (Callers.step program.caller) (Callers.AnswersFit program.Fits)
        (Callers.init programs) (trace (step program) (label program)
          (init entries capacity fits maxAttempts programs) es) := by
  have hall := (sound_throughout hcount hkernel).along.and hcount
  have htracks : Tracks (step program)
      (fun s e => (s.Sound program ∧ s.runtime.Heard) ∧ s.CountPasses program e)
      (Callers.step program.caller) (label program) (callers (ι := ι)) :=
    fun s e s' hok => tracks_callers s e s' ⟨⟨hok.1.1.wake, hok.1.2⟩, hok.2⟩
  refine ⟨htracks.run_trace hall hrun, htracks.along_trace (fun s e s' hok h seen hseen => ?_)
    hall hrun⟩
  exact answersFit_label ⟨hok.1.1.wake, hok.1.2⟩ hok.1.1.consistent hok.2 h hseen

/-- One timed receive; `D` is its result. -/
def receiveOnce : FiberProgram (Option (Outcome × Option Int)) Int where
  asks p := if p = none then some (⟨.recvmsg, true, false⟩, true) else none
  resume _ outcome found := some (outcome, found)
  opcode _ := .recvmsg
  res d := d

/-- The datagram comes before the timeout. -/
def receivedInTime : List (Event (Fin 1) Int) :=
  let f : Fin 1 := Fin.last 0
  [.runtime (.resume f), .call f, .runtime (.get f), .runtime (.get f), .runtime (.flush f),
    .runtime (.count f none), .runtime (.kernel .consume), .runtime (.kernel .consume), .ends f 5,
    .runtime (.kernel (.complete 0 (-ECANCELED))), .runtime (.poll .tryPollMany),
    .runtime .dispatch, .runtime .dispatch, .runtime (.resume f), .runtime (.finish f)]

theorem refines_callers_receivedInTime : ∃ s : Fibers (Fin 1) (Option (Outcome × Option Int)) Int,
    run (step receiveOnce) (init 8 8 (by decide) 1000000 fun _ => none) receivedInTime = some s ∧
    run (Callers.step receiveOnce.caller) (Callers.init fun _ => none)
      [.ask 0 true, .answer 0 (.returned 5, some 5), .ret 0] = some s.callers := by
  have hdefined : (run (step receiveOnce) (init 8 8 (by decide) 1000000
      fun _ : Fin 1 => none) receivedInTime).isSome := by decide +kernel
  obtain ⟨s, hrun⟩ := Option.isSome_iff_exists.mp hdefined
  have htrace : trace (step receiveOnce) (label receiveOnce) (init 8 8 (by decide) 1000000
      fun _ : Fin 1 => none) receivedInTime
      = [.ask 0 true, .answer 0 (.returned 5, some 5), .ret 0] := by decide +kernel
  have hcallers := (refines_callers (by decide +kernel) (by decide +kernel) hrun).1
  exact ⟨s, hrun, by rwa [htrace] at hcallers⟩

end Runs

/-! ### Programs without timed calls -/

/-- The operations of a fiber that have ended, in a step. -/
def endedFor (f : ι) (s : Fibers ι σ D) : Event ι D → Option D
  | .ends i d =>
      match s.runtime.loop.ring.ring.inKernel[i]? with
      | some sqe => if sqe.userData.fiber = f then some d else none
      | none => none
  | .call _ | .runtime _ => none

section Plain

theorem Sound.plain (hplain : program.Plain) (hs : s.Sound program) {f : ι} {timed : Bool}
    (hquestion : (s.runtime.pc f).question = some timed) : timed = false := by
  obtain ⟨req, hasking⟩ := hs.consistent f timed hquestion
  exact hplain _ req timed hasking.asks

theorem Sound.request (hplain : program.Plain) (hs : s.Sound program) {sqe : Sqe (Ptr ι)}
    (hheld : sqe ∈ s.runtime.loop.ring.ring.held) : sqe.addr.obj = .request := by
  obtain ⟨timed, hquestion, _, hsetter⟩ := hs.wake.calls.call_of_held hheld
  obtain rfl := hs.plain hplain hquestion
  have huser : sqe.userData
      = ⟨sqe.userData.fiber, sqe.userData.call, requestSetter false⟩ := by
    rw [requestSetter, ← List.mem_singleton.mp hsetter]
    rfl
  exact hs.wake.calls.request_of_setter hheld huser

theorem Sound.countPasses (hplain : program.Plain) (hs : s.Sound program) (e : Event ι D) :
    s.CountPasses program e := by
  intro e' _
  cases e' with
  | count f err =>
      intro hpc
      have hquestion : (s.runtime.pc f).question = some true := by rw [hpc]; rfl
      cases hs.plain hplain hquestion
  | _ => trivial

/-- The end of an operation is the answer to its call. -/
theorem answerTo_label (hplain : program.Plain) (hs : s.Sound program) (f : ι) {e : Event ι D}
    (h : step program s e = some s') :
    (s.label program e).bind (Blocking.Event.answerTo f)
      = (s.endedFor f e).map fun d => (.returned (program.res d), some d) := by
  obtain ⟨e', hevent, hstep, hs'⟩ := step_runtime h
  have hcalls := hs.wake.calls
  cases e with
  | ends i d =>
      obtain ⟨sqe, hget, hobj, _, rfl⟩ := runtimeEvent_ends hevent
      have hmem := List.mem_of_getElem? hget
      have hheld : sqe ∈ s.runtime.loop.ring.ring.held := List.mem_append_right _ hmem
      obtain ⟨timed, hquestion, _⟩ := hcalls.asked hheld
      obtain rfl := hs.plain hplain hquestion
      have huser := hcalls.userData_eq hheld hobj hquestion
      have haddr := hcalls.addr_eq hheld hobj
      rw [congrArg Ptr.call huser] at haddr
      obtain ⟨hframe, _⟩ := Runtime.loopFrame_kernel hstep
      obtain ⟨ring, hring, hruntime⟩ := Runtime.step_kernel hstep
      obtain ⟨sqe', hget', _, hcqes⟩ := IoUring.complete_of_kernel (Ring.kernel_ring hring).1
      obtain rfl := Option.some.inj (hget.symm.trans hget')
      have hposted : s'.runtime.posted sqe.userData = some (program.res d) := by
        rw [hruntime]
        refine (IoUring.posted_concat hcqes _).trans ?_
        rw [IoUring.posted_eq_none_iff.mpr (IoUring.notMem_cqes_of_mem_held hcalls.once hheld),
          if_pos rfl]
        rfl
      have hanswered : s'.runtime.blockingCall sqe.userData.fiber
          = .answered false (.returned (program.res d)) := by
        refine Runtime.blockingCall_of_some (by rw [hframe.pc]; exact hquestion) ?_
        rw [huser] at hposted
        rw [hframe.calls, Runtime.answer]
        exact congrArg (Option.map Outcome.returned) hposted
      have hseen : s.runtime.blockingEvent (.kernel (.complete i (program.res d)))
          = some (.answer sqe.userData.fiber (.returned (program.res d))) := by
        simp only [Runtime.blockingEvent, hget, hstep, hanswered]
      rw [label, hevent, Option.bind_some, hseen]
      simp only [Option.map_some, Option.bind_some, Blocking.Event.answerTo, endedFor, hget,
        written, haddr]
      by_cases hf : sqe.userData.fiber = f
      · subst hf
        simp
      · rw [if_neg hf, if_neg hf]
        rfl
  | call g =>
      obtain ⟨req, timed, _, rfl⟩ := runtimeEvent_call hevent
      rw [label, hevent]
      rfl
  | runtime e =>
      obtain ⟨hother, rfl⟩ := runtimeEvent_runtime hevent
      cases hlabel : s.label program (.runtime e') with
      | none => rfl
      | some seen =>
          cases seen with
          | ask g timed => rfl
          | ret g => rfl
          | answer g found =>
              obtain ⟨e'', outcome, hevent', hseen, _⟩ := label_answer hlabel
              obtain rfl := Option.some.inj (hevent.symm.trans hevent')
              obtain ⟨i, res, sqe, rfl, hget, _⟩ := Runtime.blockingEvent_answer hseen
              obtain ⟨sqe', hget', hobj⟩ := hother
              obtain rfl : sqe' = sqe := Option.some.inj ((Option.mem_def.mp hget').symm.trans hget)
              have hheld : sqe' ∈ s.runtime.loop.ring.ring.held :=
                List.mem_append_right _ (List.mem_of_getElem? hget)
              cases hobj.symm.trans (hs.request hplain hheld)

variable {entries capacity : Nat} {fits : entries + capacity < 2 ^ 64} {maxAttempts : UInt64}
  {programs : ι → σ} {es : List (Event ι D)}

theorem sound_of_plain (hplain : program.Plain)
    (hkernel : Along (step program) (SparesEnocqe program)
      (init entries capacity fits maxAttempts programs) es) :
    Throughout (step program) (fun s => s.Sound program ∧ s.runtime.Heard)
      (init entries capacity fits maxAttempts programs) es := by
  have hheard := heard_throughout hkernel
  have hsound := hheard.along.throughout sound_init
    fun s e s' hs hheard hstep => step_sound hs hheard (hs.countPasses hplain e) hstep
  exact hsound.and hheard

/-- **A fiber takes the ends of its own operations**, each once and in their order. `pstep` is how
its program goes on with one. -/
theorem takesOwn {pstep : σ → D → Option σ} (hplain : program.Plain)
    (hagree : ∀ p found, program.Fits p found →
      ∃ d, found.2 = some d ∧ pstep p d = some (program.resume p found.1 found.2))
    (hkernel : Along (step program) (SparesEnocqe program)
      (init entries capacity fits maxAttempts programs) es) {s : Fibers ι σ D}
    (hrun : run (step program) (init entries capacity fits maxAttempts programs) es = some s)
    (f : ι) : ∃ taken waiting,
      trace (step program) (endedFor f) (init entries capacity fits maxAttempts programs) es
          = taken ++ waiting
        ∧ waiting.length = (s.runtime.blockingCall f).toList.length
        ∧ run pstep (programs f) taken = some (s.programs f) := by
  have hsound := sound_of_plain hplain hkernel
  have hcount : Along (step program) (CountPasses program)
      (init entries capacity fits maxAttempts programs) es :=
    hsound.along.imp fun s e hs => hs.1.countPasses hplain e
  obtain ⟨hcallers, hfits⟩ := refines_callers hcount hkernel hrun
  have hfollows := Callers.follows_of_run hagree hfits hcallers
  have hgiven := Blocking.run_given (Callers.run_blocking hcallers) f
  have hended : trace (step program) (endedFor f) (init entries capacity fits maxAttempts programs)
      es = (s.callers.blocking.given f).filterMap Prod.snd := by
    have hnone : (Callers.init programs
        : Callers ι σ Bool (Outcome × Option D)).blocking.given f = [] := rfl
    rw [hgiven, hnone, List.nil_append, filterMap_trace, filterMap_trace]
    refine (trace_congr hsound.along (fun s e s' hs h => ?_) hrun).symm
    rw [answerTo_label hplain hs.1 f h]
    cases s.endedFor f e <;> rfl
  refine ⟨_, (s.callers.blocking.calls f).toList.filterMap Prod.snd, ?_, ?_, hfollows.taken f⟩
  · rw [hended, Blocking.given, List.filterMap_append]
  · simp only [callers]
    cases hstate : s.runtime.blockingCall f with
    | idle => rfl
    | asked timed => rfl
    | answered timed outcome =>
        have hanswered : s.callers.blocking.calls f
            = .answered timed (outcome, s.memory ⟨f, s.runtime.calls f, .request⟩) :=
          congrArg (BlockingCall.map _) hstate
        obtain ⟨_, _, d, _, hfound, _⟩ := hfollows.fits f timed _ hanswered
        rw [BlockingCall.map, BlockingCall.toList, List.filterMap_cons_some hfound]
        rfl

end Plain

end Fibers

end Hnet
