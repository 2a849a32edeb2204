import Hnet.Proof.Schedule

/-!
# The calls of `ring_submit` and the pointers they hand out

Every step is one of seven kinds as far as the calls are concerned: it happens outside of them, or
one call begins, moves on, queues an SQE, is left by its count check or by its end, or has a CQE
dispatched. From that follows what links a setter, its SQE and the place where its fiber stands, as
long as no count check fails: a CQE is still to come only for a setter of a call that has not been
left, each setter is queued once, and it holds `-ENOCQE` until its CQE has been dispatched.
-/

namespace Hnet

def Stage.setter : Stage → StackObj
  | .plain _ => .resSetter
  | .op _ => .opResSetter
  | .timeout => .timeoutResSetter

def callSetters (timed : Bool) : List StackObj :=
  if timed then [.opResSetter, .timeoutResSetter] else [.resSetter]

/-- The setters the current call has queued an SQE for. -/
def Pc.queued : Pc → List StackObj
  | .idle => []
  | .getting .timeout _ => [.opResSetter]
  | .getting _ _ => []
  | .submitting timed | .submitted timed | .suspended timed | .woken timed => callSetters timed

/-- Those of them whose CQE may be still to come. -/
def Pc.live : Pc → List StackObj
  | .woken _ => []
  | pc => pc.queued

/-- The setter of the SQE that is queued right before `io_uring_submit`. -/
def lastSetter (timed : Bool) : StackObj := if timed then .timeoutResSetter else .resSetter

/-- A step of a call that neither queues an SQE nor begins or ends the call. -/
inductive Pc.Moves : Pc → Pc → Prop where
  | starves (stage : Stage) (starved : Bool) : Moves (.getting stage starved) (.getting stage true)
  | submits (timed : Bool) : Moves (.submitting timed) (.submitted timed)
  | suspends (timed : Bool) : Moves (.submitted timed) (.suspended timed)

@[simp]
theorem Stage.sqe_userData {ι : Type} (stage : Stage) (fiber : ι) (call : Nat) :
    (stage.sqe fiber call).userData = ⟨fiber, call, stage.setter⟩ := by
  cases stage <;> rfl

theorem Stage.queued_next (stage : Stage) (starved : Bool) :
    stage.next.queued = (Pc.getting stage starved).queued ++ [stage.setter] := by
  cases stage <;> rfl

theorem Stage.live_next (stage : Stage) : stage.next.live = stage.next.queued := by
  cases stage <;> rfl

theorem Stage.setter_notMem_queued (stage : Stage) (starved : Bool) :
    stage.setter ∉ (Pc.getting stage starved).queued := by
  cases stage <;> simp [setter, Pc.queued]

theorem Pc.mem_queued_of_live {pc : Pc} {obj : StackObj} (h : obj ∈ pc.live) : obj ∈ pc.queued := by
  cases pc with
  | woken timed => cases h
  | _ => exact h

theorem Pc.queued_cases (pc : Pc) :
    pc.queued = [] ∨ pc.queued = [.resSetter] ∨ pc.queued = [.opResSetter] ∨
      pc.queued = [.opResSetter, .timeoutResSetter] := by
  have hcall : ∀ timed, callSetters timed = [] ∨ callSetters timed = [.resSetter] ∨
      callSetters timed = [.opResSetter] ∨
      callSetters timed = [.opResSetter, .timeoutResSetter] := by decide
  cases pc with
  | idle => exact Or.inl rfl
  | getting stage starved => cases stage <;> simp [queued]
  | submitting timed => exact hcall timed
  | submitted timed => exact hcall timed
  | suspended timed => exact hcall timed
  | woken timed => exact hcall timed

theorem Pc.setter_of_mem_queued {pc : Pc} {obj : StackObj} (h : obj ∈ pc.queued) :
    obj = .resSetter ∨ obj = .opResSetter ∨ obj = .timeoutResSetter := by
  rcases pc.queued_cases with hq | hq | hq | hq <;> rw [hq] at h <;> simp at h
  · exact Or.inl h
  · exact Or.inr (Or.inl h)
  · exact Or.inr h

/-- A plain call has one setter. -/
theorem Pc.eq_resSetter {pc : Pc} {obj : StackObj} (hplain : .resSetter ∈ pc.queued)
    (hobj : obj ∈ pc.queued) : obj = .resSetter := by
  rcases pc.queued_cases with hq | hq | hq | hq <;> rw [hq] at hplain hobj <;> simp_all

theorem Pc.eq_of_timeoutResSetter {pc : Pc} {obj : StackObj}
    (htimeout : .timeoutResSetter ∈ pc.queued) (hobj : obj ∈ pc.queued) :
    obj = .opResSetter ∨ obj = .timeoutResSetter := by
  rcases pc.queued_cases with hq | hq | hq | hq <;> rw [hq] at htimeout hobj <;> simp_all

theorem Pc.Moves.queued {pc pc' : Pc} (h : pc.Moves pc') : pc'.queued = pc.queued := by
  cases h with
  | starves stage starved => cases stage <;> rfl
  | submits timed => rfl
  | suspends timed => rfl

theorem Pc.Moves.live {pc pc' : Pc} (h : pc.Moves pc') : pc'.live = pc.live := by
  have hqueued := h.queued
  cases h <;> exact hqueued

theorem Pc.Moves.ne_idle {pc pc' : Pc} (h : pc.Moves pc') : pc ≠ .idle ∧ pc' ≠ .idle := by
  cases h <;> exact ⟨fun heq => (by cases heq), fun heq => (by cases heq)⟩

theorem Pc.Moves.ne_woken {pc pc' : Pc} (h : pc.Moves pc') (timed : Bool) : pc' ≠ .woken timed := by
  cases h <;> exact fun heq => by cases heq

namespace Runtime

open Lts

variable {ι : Type} [DecidableEq ι] {s s' : Runtime ι}

/-- The timed call goes on after its second `io_uring_submit`. -/
def CountPasses (s : Runtime ι) : Event ι → Prop
  | .count f err => s.pc f = .submitted true → err.isNone = true ∧ s.loop.ring.ring.unconsumed ≠ 1
  | _ => True

instance (s : Runtime ι) : ∀ e, Decidable (s.CountPasses e)
  | .count f err => inferInstanceAs (Decidable
      (s.pc f = .submitted true → err.isNone = true ∧ s.loop.ring.ring.unconsumed ≠ 1))
  | .kernel _ | .poll _ | .dispatch | .resume _ | .park _ | .call _ _ _ | .get _ | .flush _
  | .finish _ => isTrue trivial

omit [DecidableEq ι] in
theorem submitRet_passes_iff (s : Runtime ι) (err : Option Errno) :
    (2 ≤ s.submitRet err ∨ s.submitRet err = 0) ↔
      err.isNone = true ∧ s.loop.ring.ring.unconsumed ≠ 1 := by
  cases err with
  | none => simp only [submitRet, Option.isNone_none, true_and]; omega
  | some err =>
      have := err.pos
      simp only [submitRet, Option.isNone_some, Bool.false_eq_true, false_and, iff_false]
      omega

/-! ### The seven kinds of steps -/

inductive CallStep (s : Runtime ι) (e : Event ι) (s' : Runtime ι) : Prop where
  /-- the kernel, the poller short of `dispatch`, or the scheduler -/
  | outside (hpc : s'.pc = s.pc) (hcalls : s'.calls = s.calls) (hleft : s'.left = s.left)
      (hwakes : s'.wakes = s.wakes) (hsetters : s'.loop.setters = s.loop.setters)
      (hdispatched : s'.loop.dispatched = s.loop.dispatched)
      (hsqes : s'.loop.ring.ring.sqes = s.loop.ring.ring.sqes)
      (hheld : ∀ x, x ∈ s'.loop.ring.ring.held → x ∈ s.loop.ring.ring.held)
      (hle : s'.loop.undispatched ≤ s.loop.undispatched)
      (hsame : s.NothingLost e ∨ (∃ f, s.running = some f) →
        s'.loop.undispatched = s.loop.undispatched)
  | begins (f : ι) (req : Request) (timed : Bool) (hidle : s.pc f = .idle)
      (hs' : s' = s.call f req timed)
  | moves (f : ι) (pc : Pc) (hmoves : (s.pc f).Moves pc) (hpc : s'.pc = Function.update s.pc f pc)
      (hcalls : s'.calls = s.calls) (hleft : s'.left = s.left) (hwakes : s'.wakes = s.wakes)
      (hsetters : s'.loop.setters = s.loop.setters)
      (hdispatched : s'.loop.dispatched = s.loop.dispatched)
      (hsqes : s'.loop.ring.ring.sqes = s.loop.ring.ring.sqes)
      (hheld : s'.loop.ring.ring.held = s.loop.ring.ring.held)
      (hsame : s'.loop.undispatched = s.loop.undispatched)
  | queues (f : ι) (stage : Stage) (starved : Bool) (hgetting : s.pc f = .getting stage starved)
      (hpc : s'.pc = Function.update s.pc f stage.next) (hcalls : s'.calls = s.calls)
      (hleft : s'.left = s.left) (hwakes : s'.wakes = s.wakes)
      (hsetters : s'.loop.setters = s.loop.setters)
      (hdispatched : s'.loop.dispatched = s.loop.dispatched)
      (hsqes : s'.loop.ring.ring.sqes = s.loop.ring.ring.sqes ++ [stage.sqe f (s.calls f)])
      (hheld : ∀ x, x ∈ s'.loop.ring.ring.held →
        x = stage.sqe f (s.calls f) ∨ x ∈ s.loop.ring.ring.held)
      (hcons : s'.loop.undispatched = ⟨f, s.calls f, stage.setter⟩ ::ₘ s.loop.undispatched)
  /-- the timed call is left by its count check -/
  | throws (f : ι) (code : Int) (hpc : s.pc f = .submitted true) (hrunning : s.running = some f)
      (hfails : ¬ s.CountPasses e)
      (hs' : s' = { s with
        pc := Function.update s.pc f .idle
        left := s.left ++ [⟨f, s.calls f, true, .threw code⟩] })
  | finishes (f : ι) (timed : Bool) (hwoken : s.pc f = .woken timed) (hs' : s' = s.finish f timed)
  | dispatches (cqe : Cqe (Ptr ι)) (rest : List (Cqe (Ptr ι))) (hrunning : s.running = none)
      (hpc : s.loop.pc = .dispatching cqe rest)
      (hcons : s.loop.undispatched = cqe.userData ::ₘ s'.loop.undispatched)
      (hs' : s' = s.dispatchNext cqe rest)

theorem callStep_of_loop_eq {e : Event ι} (hloop : s'.loop = s.loop) (hpc : s'.pc = s.pc)
    (hcalls : s'.calls = s.calls) (hleft : s'.left = s.left) (hwakes : s'.wakes = s.wakes) :
    CallStep s e s' := by
  refine .outside hpc hcalls hleft hwakes ?_ ?_ ?_ ?_ ?_ ?_ <;> rw [hloop]
  · exact fun _ hx => hx
  · exact fun _ => rfl

theorem callStep_of_step {e : Event ι} (h : s.step e = some s') : CallStep s e s' := by
  cases e with
  | kernel e =>
      obtain ⟨hframe, hsame, _⟩ := loopFrame_kernel h
      exact .outside hframe.pc hframe.calls hframe.left hframe.wakes hframe.setters
        hframe.dispatched hframe.sqes hframe.held hframe.undispatched fun _ => hsame
  | poll e =>
      obtain ⟨hframe, hrunning, hsame⟩ := loopFrame_poll h
      refine .outside hframe.pc hframe.calls hframe.left hframe.wakes hframe.setters
        hframe.dispatched hframe.sqes hframe.held hframe.undispatched fun hok => ?_
      rcases hok with hok | ⟨f, hf⟩
      · exact hsame hok
      · rw [hrunning] at hf
        cases hf
  | dispatch =>
      obtain ⟨cqe, rest, hrunning, hpc, rfl⟩ := step_dispatch h
      refine .dispatches cqe rest hrunning hpc ?_ rfl
      rw [dispatchNext_loop]
      exact EventLoop.undispatched_dispatchNext hpc
  | resume f =>
      obtain ⟨_, _, _, rfl⟩ := step_resume h
      exact callStep_of_loop_eq rfl rfl rfl rfl rfl
  | park f =>
      obtain ⟨_, _, rfl⟩ := step_park h
      exact callStep_of_loop_eq rfl rfl rfl rfl rfl
  | call f req timed =>
      obtain ⟨_, hidle, rfl⟩ := step_call h
      exact .begins f req timed hidle rfl
  | get f =>
      obtain ⟨stage, starved, _, hgetting, rfl⟩ := step_get h
      rcases get_cases s f stage starved with ⟨ring, hslot, _, hring, heq⟩ | ⟨_, heq⟩
      · rw [heq]
        refine .queues f stage starved hgetting rfl rfl rfl rfl rfl rfl ?_ (fun x hx => ?_) ?_
        · exact congrArg IoUring.sqes hring
        · exact (IoUring.mem_held_queue hslot).mp (hring ▸ hx)
        · simp only [EventLoop.undispatched, hring, IoUring.outstanding_queue, Stage.sqe_userData,
            Multiset.cons_add]
      · rw [heq]
        exact .moves f _ (hgetting ▸ .starves stage starved) rfl rfl rfl rfl rfl rfl rfl rfl rfl
  | flush f =>
      obtain ⟨timed, _, hpc, rfl⟩ := step_flush h
      exact .moves f _ (hpc ▸ .submits timed) rfl rfl rfl rfl rfl rfl rfl rfl rfl
  | count f err =>
      obtain ⟨timed, hrunning, hpc, rfl⟩ := step_count h
      rcases count_cases s f timed (s.submitRet err) with ⟨rfl, hbad, heq⟩ | ⟨_, heq⟩
      · rw [heq]
        refine .throws f _ hpc hrunning (fun hok => hbad ?_) rfl
        exact (submitRet_passes_iff s err).mpr (hok hpc)
      · rw [heq]
        exact .moves f _ (hpc ▸ .suspends timed) rfl rfl rfl rfl rfl rfl rfl rfl rfl
  | finish f =>
      obtain ⟨timed, _, hpc, rfl⟩ := step_finish h
      exact .finishes f timed hpc rfl

/-! ### The invariant -/

/-- No SQE with this address has been queued: its call has not begun, or is the current one and has
not come to it. -/
def NotQueued (s : Runtime ι) (p : Ptr ι) : Prop :=
  s.calls p.fiber < p.call ∨
    (p.call = s.calls p.fiber ∧ s.pc p.fiber ≠ .idle ∧ p.obj ∉ (s.pc p.fiber).queued)

/-- What links the setters, their SQEs and the fibers. -/
structure CallInv (s : Runtime ι) : Prop where
  sched : s.Scheduled
  live : ∀ p ∈ s.loop.undispatched, p.call = s.calls p.fiber ∧ p.obj ∈ (s.pc p.fiber).live
  nodup : s.loop.undispatched.Nodup
  unset : ∀ p ∈ s.loop.undispatched, (s.loop.setters p).res = -ENOCQE
  fresh : ∀ p, s.NotQueued p →
    (s.loop.setters p).res = -ENOCQE ∧ p ∉ s.loop.ring.ring.sqes.map Sqe.userData
  once : (s.loop.ring.ring.sqes.map Sqe.userData).Nodup
  kept : ∀ p, (s.loop.setters p).fiber = p.fiber
    ∧ (s.loop.setters p).shouldWake = (freshSetters p).shouldWake
  last : ∀ f timed, s.pc f = .submitting timed ∨ s.pc f = .submitted timed →
    (⟨f, s.calls f, lastSetter timed⟩ : Ptr ι) ∈ s.loop.undispatched
  left : ∀ l ∈ s.left, l.call < s.calls l.fiber ∨
    (l.call = s.calls l.fiber ∧ s.pc l.fiber = .idle)
  built : ∀ x ∈ s.loop.ring.ring.held, ∃ (stage : Stage) (f : ι) (call : Nat),
    x = stage.sqe f call

omit [DecidableEq ι] in
theorem callInv_init (entries capacity : Nat) (fits : entries + capacity < 2 ^ 64)
    (maxAttempts : UInt64) : (init entries capacity fits maxAttempts : Runtime ι).CallInv where
  sched := scheduled_init entries capacity fits maxAttempts
  live p hp := by cases hp
  nodup := Multiset.nodup_zero
  unset p hp := by cases hp
  fresh p _ := ⟨rfl, by simp [init, EventLoop.init, Ring.init, IoUring.init]⟩
  once := List.nodup_nil
  kept p := ⟨rfl, rfl⟩
  last f timed hpc := by rcases hpc with hpc | hpc <;> cases hpc
  left l hl := by cases hl
  built x hx := by cases hx

omit [DecidableEq ι] in
/-- A setter whose SQE has not been queued is not waited for. -/
theorem CallInv.notMem_of_notQueued (hinv : s.CallInv) {p : Ptr ι} (hp : s.NotQueued p) :
    p ∉ s.loop.undispatched := by
  intro hmem
  obtain ⟨hcall, hobj⟩ := hinv.live p hmem
  rcases hp with hlt | ⟨_, _, hnot⟩
  · omega
  · exact hnot (Pc.mem_queued_of_live hobj)

omit [DecidableEq ι] in
theorem notQueued_congr {p : Ptr ι} (hcalls : s'.calls p.fiber = s.calls p.fiber)
    (hpc : s'.pc p.fiber = s.pc p.fiber) : s'.NotQueued p ↔ s.NotQueued p := by
  rw [NotQueued, NotQueued, hcalls, hpc]

omit [DecidableEq ι] in
theorem callInv_outside (hinv : s.CallInv) (hsched : s'.Scheduled) (hpc : s'.pc = s.pc)
    (hcalls : s'.calls = s.calls) (hleft : s'.left = s.left)
    (hsetters : s'.loop.setters = s.loop.setters)
    (hsqes : s'.loop.ring.ring.sqes = s.loop.ring.ring.sqes)
    (hheld : ∀ x, x ∈ s'.loop.ring.ring.held → x ∈ s.loop.ring.ring.held)
    (hle : s'.loop.undispatched ≤ s.loop.undispatched)
    (hsame : (∃ f, s.running = some f) → s'.loop.undispatched = s.loop.undispatched) :
    s'.CallInv where
  sched := hsched
  live p hp := by
    rw [hcalls, hpc]
    exact hinv.live p (Multiset.mem_of_le hle hp)
  nodup := Multiset.nodup_of_le hle hinv.nodup
  unset p hp := by
    rw [hsetters]
    exact hinv.unset p (Multiset.mem_of_le hle hp)
  fresh p hp := by
    rw [hsetters, hsqes]
    exact hinv.fresh p ((notQueued_congr (congrFun hcalls _) (congrFun hpc _)).mp hp)
  once := by
    rw [hsqes]
    exact hinv.once
  kept := by
    rw [hsetters]
    exact hinv.kept
  last f timed hf := by
    rw [hpc] at hf
    have hbusy : (s.pc f).busy = true := by rcases hf with hf | hf <;> rw [hf] <;> rfl
    rw [hcalls, hsame ⟨f, hinv.sched.busy f hbusy⟩]
    exact hinv.last f timed hf
  left := by
    rw [hleft, hcalls, hpc]
    exact hinv.left
  built x hx := hinv.built x (hheld x hx)

theorem callInv_moves {f : ι} {pc : Pc} (hinv : s.CallInv) (hsched : s'.Scheduled)
    (hmoves : (s.pc f).Moves pc) (hpc : s'.pc = Function.update s.pc f pc)
    (hcalls : s'.calls = s.calls) (hleft : s'.left = s.left)
    (hsetters : s'.loop.setters = s.loop.setters)
    (hsqes : s'.loop.ring.ring.sqes = s.loop.ring.ring.sqes)
    (hheld : s'.loop.ring.ring.held = s.loop.ring.ring.held)
    (hsame : s'.loop.undispatched = s.loop.undispatched) : s'.CallInv := by
  have hlive : ∀ g, (s'.pc g).live = (s.pc g).live := fun g => by
    by_cases hg : g = f
    · rw [hpc, hg, Function.update_self, hmoves.live]
    · rw [hpc, Function.update_of_ne hg]
  have hfresh : ∀ p, s'.NotQueued p → s.NotQueued p := fun p hp => by
    by_cases hg : p.fiber = f
    · rw [NotQueued, hcalls, hpc, hg, Function.update_self, hmoves.queued] at hp
      rw [NotQueued, hg]
      exact hp.imp_right fun ⟨hcall, _, hobj⟩ => ⟨hcall, hmoves.ne_idle.1, hobj⟩
    · exact (notQueued_congr (congrFun hcalls _)
        (by rw [hpc, Function.update_of_ne hg])).mp hp
  refine ⟨hsched, ?_, ?_, ?_, ?_, ?_, ?_, ?_, ?_, ?_⟩
  · intro p hp
    rw [hcalls, hlive]
    exact hinv.live p (hsame ▸ hp)
  · exact hsame ▸ hinv.nodup
  · rw [hsame, hsetters]
    exact hinv.unset
  · rw [hsetters, hsqes]
    exact fun p hp => hinv.fresh p (hfresh p hp)
  · exact hsqes ▸ hinv.once
  · exact hsetters ▸ hinv.kept
  · intro g timed hg
    rw [hcalls, hsame]
    refine hinv.last g timed ?_
    by_cases hgf : g = f
    · rw [hpc, hgf, Function.update_self] at hg
      rw [hgf]
      generalize s.pc f = old at hmoves
      rcases hg with rfl | rfl <;> cases hmoves
      exact Or.inl rfl
    · rwa [hpc, Function.update_of_ne hgf] at hg
  · intro l hl
    rw [hcalls]
    refine (hinv.left l (hleft ▸ hl)).imp_right fun ⟨hcall, hidle⟩ => ⟨hcall, ?_⟩
    have hne : l.fiber ≠ f := fun heq => hmoves.ne_idle.1 (heq ▸ hidle)
    rw [hpc, Function.update_of_ne hne, hidle]
  · exact hheld ▸ hinv.built

/-- A fiber that waits for no CQE begins or ends a call. -/
theorem callInv_quiet {f : ι} (hinv : s.CallInv) (hsched : s'.Scheduled) (hloop : s'.loop = s.loop)
    (hquiet : (s.pc f).live = []) (hpc : ∀ g, g ≠ f → s'.pc g = s.pc g)
    (hcalls : ∀ g, g ≠ f → s'.calls g = s.calls g)
    (hfresh : ∀ p : Ptr ι, p.fiber = f → s'.NotQueued p → s.NotQueued p)
    (hnot : ∀ timed, s'.pc f ≠ .submitting timed ∧ s'.pc f ≠ .submitted timed)
    (hleft : ∀ l ∈ s'.left, l.call < s'.calls l.fiber ∨
      (l.call = s'.calls l.fiber ∧ s'.pc l.fiber = .idle)) : s'.CallInv := by
  refine ⟨hsched, ?_, ?_, ?_, ?_, ?_, ?_, ?_, hleft, ?_⟩ <;> rw [hloop]
  · intro p hp
    have hne : p.fiber ≠ f := fun heq => by
      have hobj := (hinv.live p hp).2
      rw [heq, hquiet] at hobj
      cases hobj
    rw [hcalls _ hne, hpc _ hne]
    exact hinv.live p hp
  · exact hinv.nodup
  · exact hinv.unset
  · intro p hp
    by_cases hg : p.fiber = f
    · exact hinv.fresh p (hfresh p hg hp)
    · exact hinv.fresh p ((notQueued_congr (hcalls _ hg) (hpc _ hg)).mp hp)
  · exact hinv.once
  · exact hinv.kept
  · intro g timed hg
    have hne : g ≠ f := fun heq => by
      rw [heq] at hg
      exact hg.elim (hnot timed).1 (hnot timed).2
    rw [hpc g hne] at hg
    rw [hcalls g hne]
    exact hinv.last g timed hg
  · exact hinv.built

theorem callInv_queues {f : ι} {stage : Stage} {starved : Bool} (hinv : s.CallInv)
    (hsched : s'.Scheduled) (hgetting : s.pc f = .getting stage starved)
    (hpc : s'.pc = Function.update s.pc f stage.next) (hcalls : s'.calls = s.calls)
    (hleft : s'.left = s.left) (hsetters : s'.loop.setters = s.loop.setters)
    (hsqes : s'.loop.ring.ring.sqes = s.loop.ring.ring.sqes ++ [stage.sqe f (s.calls f)])
    (hheld : ∀ x, x ∈ s'.loop.ring.ring.held →
      x = stage.sqe f (s.calls f) ∨ x ∈ s.loop.ring.ring.held)
    (hcons : s'.loop.undispatched = ⟨f, s.calls f, stage.setter⟩ ::ₘ s.loop.undispatched) :
    s'.CallInv := by
  have hself : s'.pc f = stage.next := by rw [hpc, Function.update_self]
  have hother : ∀ g, g ≠ f → s'.pc g = s.pc g := fun g hg => by rw [hpc, Function.update_of_ne hg]
  have hnew : s.NotQueued ⟨f, s.calls f, stage.setter⟩ := by
    refine Or.inr ⟨rfl, ?_, ?_⟩ <;> rw [hgetting]
    · exact fun heq => by cases heq
    · exact stage.setter_notMem_queued starved
  have hfresh : ∀ p, s'.NotQueued p → s.NotQueued p ∧ p ≠ ⟨f, s.calls f, stage.setter⟩ := by
    intro p hp
    by_cases hg : p.fiber = f
    · rw [NotQueued, hcalls, hg, hself, stage.queued_next starved, List.mem_append, not_or] at hp
      rw [NotQueued, hg, hgetting]
      rcases hp with hlt | ⟨hcall, _, hobj, hlast⟩
      · exact ⟨Or.inl hlt, fun heq => absurd hlt (by rw [heq]; exact lt_irrefl _)⟩
      · refine ⟨Or.inr ⟨hcall, fun heq => (by cases heq), hobj⟩, fun heq => hlast ?_⟩
        rw [heq]
        exact List.mem_singleton_self _
    · exact ⟨(notQueued_congr (congrFun hcalls _) (hother _ hg)).mp hp,
        fun heq => hg (congrArg Ptr.fiber heq)⟩
  refine ⟨hsched, ?_, ?_, ?_, ?_, ?_, ?_, ?_, ?_, ?_⟩
  · intro p hp
    rw [hcalls]
    rcases Multiset.mem_cons.mp (hcons ▸ hp) with rfl | hp
    · refine ⟨rfl, ?_⟩
      rw [hself, stage.live_next, stage.queued_next starved]
      exact List.mem_append_right _ (List.mem_singleton_self _)
    · obtain ⟨hcall, hobj⟩ := hinv.live p hp
      refine ⟨hcall, ?_⟩
      by_cases hg : p.fiber = f
      · rw [hg, hgetting] at hobj
        rw [hg, hself, stage.live_next, stage.queued_next starved]
        exact List.mem_append_left _ (Pc.mem_queued_of_live hobj)
      · rwa [hother _ hg]
  · rw [hcons, Multiset.nodup_cons]
    exact ⟨hinv.notMem_of_notQueued hnew, hinv.nodup⟩
  · intro p hp
    rw [hsetters]
    rcases Multiset.mem_cons.mp (hcons ▸ hp) with rfl | hp
    · exact (hinv.fresh _ hnew).1
    · exact hinv.unset p hp
  · intro p hp
    obtain ⟨hp, hne⟩ := hfresh p hp
    obtain ⟨hres, hmem⟩ := hinv.fresh p hp
    refine ⟨hsetters ▸ hres, ?_⟩
    rw [hsqes, List.map_append, List.mem_append, not_or]
    refine ⟨hmem, fun heq => hne ?_⟩
    rwa [List.map_singleton, List.mem_singleton, Stage.sqe_userData] at heq
  · rw [hsqes, List.map_append, List.map_singleton, Stage.sqe_userData]
    exact hinv.once.append (List.nodup_singleton _)
      (List.disjoint_singleton.mpr (hinv.fresh _ hnew).2)
  · exact hsetters ▸ hinv.kept
  · intro g timed hg
    rw [hcalls, hcons]
    by_cases hgf : g = f
    · rw [hgf, hself] at hg
      have hlast : stage.setter = lastSetter timed := by
        cases stage with
        | plain req => rcases hg with hg | hg <;> cases hg; rfl
        | op req => rcases hg with hg | hg <;> cases hg
        | timeout => rcases hg with hg | hg <;> cases hg; rfl
      rw [hgf, hlast]
      exact Multiset.mem_cons_self _ _
    · rw [hother g hgf] at hg
      exact Multiset.mem_cons_of_mem (hinv.last g timed hg)
  · intro l hl
    rw [hcalls]
    refine (hinv.left l (hleft ▸ hl)).imp_right fun ⟨hcall, hidle⟩ => ⟨hcall, ?_⟩
    have hne : l.fiber ≠ f := fun heq => by
      rw [heq, hgetting] at hidle
      cases hidle
    rw [hother _ hne, hidle]
  · intro x hx
    rcases hheld x hx with rfl | hx
    · exact ⟨stage, f, s.calls f, rfl⟩
    · exact hinv.built x hx

theorem CallInv.dispatch_eq_some_iff (hinv : s.CallInv) {cqe : Cqe (Ptr ι)} {f : ι} :
    (dispatch s.loop.setters cqe).2 = some f ↔ cqe.userData.fiber = f ∧
      (cqe.userData.obj = .resSetter ∨ checkBothSet cqe.userData.fiber cqe.userData.call
        (fun u => (s.loop.setters.store cqe u).res) = true) := by
  obtain ⟨hfiber, hwake⟩ := hinv.kept cqe.userData
  simp only [dispatch, Setters.store_shouldWake, Setters.store_fiber, hfiber, hwake, freshSetters]
  by_cases hobj : cqe.userData.obj = .resSetter
  · simp [hobj]
  · simp [hobj, and_comm]

theorem CallInv.store_res_of_mem (hinv : s.CallInv) {cqe : Cqe (Ptr ι)} {U : Multiset (Ptr ι)}
    (hcons : s.loop.undispatched = cqe.userData ::ₘ U) {p : Ptr ι} (hp : p ∈ U) :
    cqe.userData ≠ p ∧ (s.loop.setters.store cqe p).res = -ENOCQE := by
  have hnodup := hinv.nodup
  rw [hcons, Multiset.nodup_cons] at hnodup
  have hne : cqe.userData ≠ p := fun heq => hnodup.1 (heq ▸ hp)
  refine ⟨hne, ?_⟩
  rw [Setters.store_res, if_neg hne]
  exact hinv.unset p (hcons ▸ Multiset.mem_cons_of_mem hp)

/-- Once `dispatch` has returned a suspended fiber, no CQE of its call is still to come. -/
theorem CallInv.notMem_of_woken (hinv : s.CallInv) {cqe : Cqe (Ptr ι)} {U : Multiset (Ptr ι)}
    (hcons : s.loop.undispatched = cqe.userData ::ₘ U) {f : ι} {timed : Bool}
    (hpc : s.pc f = .suspended timed) (hwake : (dispatch s.loop.setters cqe).2 = some f)
    {p : Ptr ι} (hp : p ∈ U) : p.fiber ≠ f := by
  rintro rfl
  obtain ⟨hfiber, hwake⟩ := hinv.dispatch_eq_some_iff.mp hwake
  obtain ⟨hcall, hobj⟩ := hinv.live p (hcons ▸ Multiset.mem_cons_of_mem hp)
  obtain ⟨hcall', hobj'⟩ := hinv.live cqe.userData (hcons ▸ Multiset.mem_cons_self _ _)
  obtain ⟨hne, hunset⟩ := hinv.store_res_of_mem hcons hp
  rw [hfiber] at hcall' hobj' hwake
  rw [hpc] at hobj hobj'
  have hsame : ∀ q : Ptr ι, q.fiber = p.fiber → q.call = s.calls p.fiber →
      q = ⟨p.fiber, s.calls p.fiber, q.obj⟩ := by
    rintro ⟨_, _, _⟩ rfl rfl
    rfl
  cases timed with
  | false =>
      -- a plain call has one setter
      have hboth : p.obj = cqe.userData.obj :=
        (List.mem_singleton.mp hobj).trans (List.mem_singleton.mp hobj').symm
      refine hne ?_
      rw [hsame _ hfiber hcall', hsame p rfl hcall, hboth]
  | true =>
      rcases hwake with hplain | hboth
      · rw [hplain] at hobj'
        cases hobj' with
        | tail _ h => cases h with
          | tail _ h => cases h
      · -- the other setter is set already, so its CQE has been dispatched
        simp only [checkBothSet, Bool.and_eq_true, bne_iff_ne, hcall'] at hboth
        rw [hsame p rfl hcall] at hunset
        rcases List.mem_cons.mp hobj with hop | htimeout
        · exact hboth.1 (hop ▸ hunset)
        · exact hboth.2 (List.mem_singleton.mp htimeout ▸ hunset)

theorem callInv_dispatches {cqe : Cqe (Ptr ι)} {rest : List (Cqe (Ptr ι))} (hinv : s.CallInv)
    (hsched : (s.dispatchNext cqe rest).Scheduled) (hrunning : s.running = none)
    (hcons : s.loop.undispatched
      = cqe.userData ::ₘ (s.dispatchNext cqe rest).loop.undispatched) :
    (s.dispatchNext cqe rest).CallInv := by
  obtain ⟨hcalls, hleft, hsame⟩ := dispatchNext_frame s cqe rest
  have hsetters : (s.dispatchNext cqe rest).loop.setters = s.loop.setters.store cqe := by
    rw [dispatchNext_loop]
    rfl
  have hring := dispatchNext_ring s cqe rest
  have hsub : ∀ p ∈ (s.dispatchNext cqe rest).loop.undispatched, p ∈ s.loop.undispatched :=
    fun p hp => hcons ▸ Multiset.mem_cons_of_mem hp
  -- what the setters and the queues say of a fiber is the same before and after it is woken
  have hqueued : ∀ g, ((s.dispatchNext cqe rest).pc g).queued = (s.pc g).queued
      ∧ ((s.dispatchNext cqe rest).pc g = .idle ↔ s.pc g = .idle) := by
    intro g
    rcases dispatchNext_pc s cqe rest with hpc | ⟨f, timed, hf, _, hpc⟩
    · rw [hpc]
      exact ⟨rfl, Iff.rfl⟩
    · by_cases hg : g = f
      · rw [hpc, hg, Function.update_self, hf]
        exact ⟨rfl, fun h => (by cases h), fun h => (by cases h)⟩
      · rw [hpc, Function.update_of_ne hg]
        exact ⟨rfl, Iff.rfl⟩
  have hfresh : ∀ p, (s.dispatchNext cqe rest).NotQueued p ↔ s.NotQueued p := fun p => by
    rw [NotQueued, NotQueued, hcalls, (hqueued _).1, ne_eq, (hqueued _).2]
  refine ⟨hsched, ?_, ?_, ?_, ?_, ?_, ?_, ?_, ?_, ?_⟩
  · intro p hp
    rw [hcalls]
    obtain ⟨hcall, hobj⟩ := hinv.live p (hsub p hp)
    refine ⟨hcall, ?_⟩
    rcases dispatchNext_pc s cqe rest with hpc | ⟨f, timed, hf, hwake, hpc⟩
    · rwa [hpc]
    · rwa [hpc, Function.update_of_ne (hinv.notMem_of_woken hcons hf hwake hp)]
  · exact (Multiset.nodup_cons.mp (hcons ▸ hinv.nodup)).2
  · intro p hp
    rw [hsetters]
    exact (hinv.store_res_of_mem hcons hp).2
  · intro p hp
    have hp := (hfresh p).mp hp
    have hne : cqe.userData ≠ p := fun heq =>
      hinv.notMem_of_notQueued hp (by rw [hcons, heq]; exact Multiset.mem_cons_self _ _)
    rw [hsetters, hring, Setters.store_res, if_neg hne]
    exact hinv.fresh p hp
  · exact hring ▸ hinv.once
  · intro p
    rw [hsetters, Setters.store_fiber, Setters.store_shouldWake]
    exact hinv.kept p
  · intro g timed hg
    -- a fiber in front of or in `io_uring_submit` runs, and the poller does not
    have hbusy : ((s.dispatchNext cqe rest).pc g).busy = true := by
      rcases hg with hg | hg <;> rw [hg] <;> rfl
    have hg' := hsched.busy g hbusy
    rw [hsame, hrunning] at hg'
    cases hg'
  · intro l hl
    rw [hcalls, (hqueued _).2]
    exact hinv.left l (hleft ▸ hl)
  · exact hring ▸ hinv.built

theorem step_callInv {e : Event ι} (hinv : s.CallInv) (hok : s.CountPasses e)
    (h : s.step e = some s') : s'.CallInv := by
  have hsched := step_scheduled hinv.sched h
  cases callStep_of_step h with
  | outside hpc hcalls hleft _ hsetters _ hsqes hheld hle hsame =>
      exact callInv_outside hinv hsched hpc hcalls hleft hsetters hsqes hheld hle
        fun hrunning => hsame (Or.inr hrunning)
  | begins f req timed hidle hs' =>
      subst hs'
      have hself : (s.call f req timed).calls f = s.calls f + 1 := Function.update_self _ _ _
      have hgetting : (s.call f req timed).pc f
          = .getting (if timed then .op req else .plain req) false := Function.update_self _ _ _
      refine callInv_quiet hinv hsched rfl (by rw [hidle]; rfl)
        (fun g hg => Function.update_of_ne hg _ _) (fun g hg => Function.update_of_ne hg _ _)
        (fun p hp hnot => ?_) (fun timed' => ?_) fun l hl => ?_
      · left
        rw [NotQueued, hp, hself] at hnot
        rw [hp]
        omega
      · rw [hgetting]
        exact ⟨fun heq => (by cases heq), fun heq => (by cases heq)⟩
      · have hl := hinv.left l hl
        by_cases hg : l.fiber = f
        · left
          rw [hg] at hl ⊢
          omega
        · rwa [show (s.call f req timed).calls l.fiber = s.calls l.fiber from
            Function.update_of_ne hg _ _, show (s.call f req timed).pc l.fiber = s.pc l.fiber from
            Function.update_of_ne hg _ _]
  | moves f pc hmoves hpc hcalls hleft _ hsetters _ hsqes hheld hsame =>
      exact callInv_moves hinv hsched hmoves hpc hcalls hleft hsetters hsqes hheld hsame
  | queues f stage starved hgetting hpc hcalls hleft _ hsetters _ hsqes hheld hcons =>
      exact callInv_queues hinv hsched hgetting hpc hcalls hleft hsetters hsqes hheld hcons
  | throws f code _ _ hfails _ => exact absurd hok hfails
  | finishes f timed hwoken hs' =>
      subst hs'
      have hidle : (s.finish f timed).pc f = .idle := Function.update_self _ _ _
      refine callInv_quiet hinv hsched rfl (by rw [hwoken]; rfl)
        (fun g hg => Function.update_of_ne hg _ _) (fun _ _ => rfl) (fun p hp hnot => ?_)
        (fun timed' => ?_) fun l hl => ?_
      · rw [NotQueued, hp, hidle] at hnot
        rw [NotQueued, hp]
        exact hnot.imp_right fun hcur => absurd rfl hcur.2.1
      · rw [hidle]
        exact ⟨fun heq => (by cases heq), fun heq => (by cases heq)⟩
      · rcases List.mem_append.mp hl with hl | hl
        · refine (hinv.left l hl).imp_right fun ⟨hcall, hpc⟩ => ⟨hcall, ?_⟩
          by_cases hg : l.fiber = f
          · rw [hg, hidle]
          · exact (Function.update_of_ne hg _ _).trans hpc
        · obtain rfl := List.mem_singleton.mp hl
          exact Or.inr ⟨rfl, hidle⟩
  | dispatches cqe rest hrunning _ hcons hs' =>
      subst hs'
      exact callInv_dispatches hinv hsched hrunning hcons

end Runtime

end Hnet
