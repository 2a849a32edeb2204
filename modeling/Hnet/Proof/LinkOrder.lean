import Hnet.Proof.Schedule
import Mathlib.Data.Fintype.Basic

/-!
# Is a timed operation published together with its timeout?

The two SQEs of a timed `ring_submit` are queued by two calls of `Ring::submit`. A fiber that finds
the queue full at the second one yields with its flagged SQE at the end of the queue. As long as no
other fiber is handed a slot in that time, the flagged SQE stays at the end, whoever runs; once
another SQE is behind it, every later `io_uring_submit` publishes the two out of order.
-/

namespace Hnet.Runtime

open Lts

variable {ι : Type} [DecidableEq ι] {s s' : Runtime ι}

/-- `e` is the LINK_TIMEOUT SQE of the call that queued `flagged`. -/
def TimeoutOf (flagged e : Sqe (Ptr ι)) : Prop :=
  e.opcode = .linkTimeout ∧
    e.userData = ⟨flagged.userData.fiber, flagged.userData.call, .timeoutResSetter⟩

/-- In the sequence of published SQEs each one flagged with `IOSQE_IO_LINK` is immediately followed
by the LINK_TIMEOUT SQE of the same call; in particular none is published before that one is queued
right behind it. -/
def LinkedPublished (s : Runtime ι) : Prop :=
  ∀ i flagged, s.loop.ring.ring.published[i]? = some flagged → flagged.ioLink = true →
    ∃ e, s.loop.ring.ring.published[i + 1]? = some e ∧ TimeoutOf flagged e

/-- No fiber is handed a slot while a timed call of another one has yet to get the slot of its
LINK_TIMEOUT. -/
def NobodyCutsIn (s : Runtime ι) : Event ι → Prop
  | .get f => s.loop.ring.ring.HasSlot →
      ∀ g, g ≠ f → ∀ starved, s.pc g ≠ .getting .timeout starved
  | _ => True

instance [Fintype ι] (s : Runtime ι) : ∀ e, Decidable (s.NobodyCutsIn e)
  | .get f => inferInstanceAs (Decidable (s.loop.ring.ring.HasSlot →
      ∀ g, g ≠ f → ∀ starved, s.pc g ≠ .getting .timeout starved))
  | .kernel _ | .poll _ | .dispatch | .resume _ | .park _ | .call _ _ _ | .flush _ | .count _ _
  | .finish _ => isTrue trivial

/-- The call that queued `flagged` has yet to get the slot of its LINK_TIMEOUT. -/
def AwaitsTimeout (s : Runtime ι) (flagged : Sqe (Ptr ι)) : Prop :=
  flagged.userData.call = s.calls flagged.userData.fiber ∧
    ∃ starved, s.pc flagged.userData.fiber = .getting .timeout starved

/-- Every flagged SQE has its LINK_TIMEOUT right behind it or is the last one, its call still
waiting for a slot; and it is not the last one when a fiber is about to call `io_uring_submit`. -/
structure LinkInv (s : Runtime ι) : Prop where
  sched : s.Scheduled
  paired : ∀ i flagged, s.loop.ring.ring.sqes[i]? = some flagged → flagged.ioLink = true →
    (∃ e, s.loop.ring.ring.sqes[i + 1]? = some e ∧ TimeoutOf flagged e) ∨
    (i + 1 = s.loop.ring.ring.sqes.length ∧ s.AwaitsTimeout flagged)
  last : ∀ f timed, s.pc f = .submitting timed →
    ∀ e, s.loop.ring.ring.sqes.getLast? = some e → e.ioLink = false
  published : s.LinkedPublished

omit [DecidableEq ι] in
theorem linkInv_init (entries capacity : Nat) (fits : entries + capacity < 2 ^ 64)
    (maxAttempts : UInt64) : (init entries capacity fits maxAttempts : Runtime ι).LinkInv where
  sched := scheduled_init entries capacity fits maxAttempts
  paired i flagged hi := by simp [init, EventLoop.init, Ring.init, IoUring.init] at hi
  last f timed hpc := by cases hpc
  published i flagged hi := by
    simp [init, EventLoop.init, Ring.init, IoUring.init, IoUring.published] at hi

omit [DecidableEq ι] in
/-- A step that leaves the submission queue alone, starts no submission and keeps every fiber that
waits for the slot of its LINK_TIMEOUT waiting. -/
theorem linkInv_of_frame (hinv : s.LinkInv) (hsched : s'.Scheduled)
    (hsqes : s'.loop.ring.ring.sqes = s.loop.ring.ring.sqes)
    (hktail : s'.loop.ring.ring.ktail = s.loop.ring.ring.ktail)
    (hwait : ∀ f starved, s.pc f = .getting .timeout starved →
      (∃ starved', s'.pc f = .getting .timeout starved') ∧ s'.calls f = s.calls f)
    (hsubmit : ∀ f timed, s'.pc f = .submitting timed → s.pc f = .submitting timed) :
    s'.LinkInv where
  sched := hsched
  paired i flagged hi hlink := by
    rw [hsqes] at hi ⊢
    refine (hinv.paired i flagged hi hlink).imp_right fun ⟨hlen, hcall, starved, hpc⟩ => ?_
    obtain ⟨hpc', hcalls⟩ := hwait _ starved hpc
    exact ⟨hlen, hcall.trans hcalls.symm, hpc'⟩
  last f timed hpc := by
    rw [hsqes]
    exact hinv.last f timed (hsubmit f timed hpc)
  published := by
    have hpublished : s'.loop.ring.ring.published = s.loop.ring.ring.published := by
      rw [IoUring.published, IoUring.published, hsqes, hktail]
    rw [LinkedPublished, hpublished]
    exact hinv.published

/-- The running fiber moves on from a place where it did not wait for a LINK_TIMEOUT slot, not to
`io_uring_submit`. -/
theorem linkInv_of_update {f : ι} {pc : Pc} (hinv : s.LinkInv) (hsched : s'.Scheduled)
    (hsqes : s'.loop.ring.ring.sqes = s.loop.ring.ring.sqes)
    (hktail : s'.loop.ring.ring.ktail = s.loop.ring.ring.ktail)
    (hpc : s'.pc = Function.update s.pc f pc) (hcalls : ∀ g, g ≠ f → s'.calls g = s.calls g)
    (hold : ∀ starved, s.pc f ≠ .getting .timeout starved)
    (hnew : ∀ timed, pc ≠ .submitting timed) : s'.LinkInv := by
  refine linkInv_of_frame hinv hsched hsqes hktail (fun g starved hg => ?_) fun g timed hg => ?_
  · have hne : g ≠ f := fun heq => hold starved (heq ▸ hg)
    rw [hpc, Function.update_of_ne hne]
    exact ⟨⟨starved, hg⟩, hcalls g hne⟩
  · by_cases heq : g = f
    · rw [hpc, heq, Function.update_self] at hg
      exact absurd hg (hnew timed)
    · rwa [hpc, Function.update_of_ne heq] at hg

theorem linkInv_get {f : ι} {stage : Stage} {starved : Bool} {hslot : s.loop.ring.ring.HasSlot}
    (hinv : s.LinkInv) (hsched : s'.Scheduled) (hrunning : s.running = some f)
    (hgetting : s.pc f = .getting stage starved)
    (halone : ∀ g, g ≠ f → ∀ starved, s.pc g ≠ .getting .timeout starved)
    (hring : s'.loop.ring.ring = s.loop.ring.ring.queue (stage.sqe f (s.calls f)) hslot)
    (hpcs : s'.pc = Function.update s.pc f stage.next) (hcalls : s'.calls = s.calls) :
    s'.LinkInv := by
  have hsqes : s'.loop.ring.ring.sqes
      = s.loop.ring.ring.sqes ++ [stage.sqe f (s.calls f)] := by rw [hring]; rfl
  have hktail : s'.loop.ring.ring.ktail = s.loop.ring.ring.ktail := by rw [hring]; rfl
  have hpc : s'.pc f = stage.next := by rw [hpcs, Function.update_self]
  refine ⟨hsched, fun i flagged hi hlink => ?_, fun g timed hg e he => ?_, ?_⟩
  · rw [hsqes] at hi ⊢
    rcases Nat.lt_trichotomy i s.loop.ring.ring.sqes.length with hlt | heq | hgt
    · rw [List.getElem?_append_left hlt] at hi
      left
      rcases hinv.paired i flagged hi hlink with ⟨e, he, htimeout⟩ | ⟨hlen, hcall, starved', hwait⟩
      · have hlt' := (List.getElem?_eq_some_iff.mp he).1
        exact ⟨e, by rw [List.getElem?_append_left hlt', he], htimeout⟩
      · -- the SQE at the end belongs to the fiber that gets the slot, and it asks for its timeout
        have hfiber : flagged.userData.fiber = f := by
          by_contra hne
          exact halone _ hne starved' hwait
        rw [hfiber, hgetting] at hwait
        obtain ⟨rfl, _⟩ := Pc.getting.inj hwait
        refine ⟨_, by rw [hlen, List.getElem?_concat_length], rfl, ?_⟩
        rw [hcall, hfiber]
        rfl
    · rw [heq, List.getElem?_concat_length] at hi
      obtain rfl := Option.some.inj hi
      right
      cases stage with
      | plain req => cases hlink
      | op req => exact ⟨by rw [heq, List.length_append]; rfl, by rw [hcalls]; rfl, false, hpc⟩
      | timeout => cases hlink
    · rw [List.getElem?_eq_none (by rw [List.length_append]; exact hgt)] at hi
      cases hi
  · rw [hsqes, List.getLast?_concat] at he
    obtain rfl := Option.some.inj he
    have hgf : g = f := by
      by_contra hne
      rw [hpcs, Function.update_of_ne hne] at hg
      have hbusy := hinv.sched.busy g (by rw [hg]; rfl)
      exact hne (Option.some.inj (hbusy.symm.trans hrunning))
    rw [hgf, hpc] at hg
    cases stage with
    | plain req => rfl
    | op req => cases hg
    | timeout => rfl
  · have hpublished : s'.loop.ring.ring.published = s.loop.ring.ring.published := by
      rw [IoUring.published, IoUring.published, hsqes, hktail,
        List.take_append_of_le_length s.loop.ring.ring.ktail_le]
    rw [LinkedPublished, hpublished]
    exact hinv.published

omit [DecidableEq ι] in
theorem linkedPublished_flush {f : ι} {timed : Bool} (hinv : s.LinkInv)
    (hpc : s.pc f = .submitting timed) (hs' : s'.loop.ring.ring = s.loop.ring.ring.submit) :
    s'.LinkedPublished := by
  have hpublished : s'.loop.ring.ring.published = s.loop.ring.ring.sqes := by
    rw [hs']
    exact List.take_length
  rw [LinkedPublished, hpublished]
  intro i flagged hi hlink
  rcases hinv.paired i flagged hi hlink with hpaired | ⟨hlen, _⟩
  · exact hpaired
  · have hlast : s.loop.ring.ring.sqes.getLast? = some flagged := by
      rw [List.getLast?_eq_getElem?, ← hlen]
      exact hi
    rw [hinv.last f timed hpc flagged hlast] at hlink
    cases hlink

theorem step_linkInv {e : Event ι} (hinv : s.LinkInv) (hok : s.NobodyCutsIn e)
    (h : s.step e = some s') : s'.LinkInv := by
  have hsched := step_scheduled hinv.sched h
  cases e with
  | kernel e =>
      obtain ⟨hframe, _, _⟩ := loopFrame_kernel h
      exact linkInv_of_frame hinv hsched hframe.sqes hframe.ktail
        (fun f starved hf => by rw [hframe.pc, hframe.calls]; exact ⟨⟨starved, hf⟩, rfl⟩)
        fun f timed hf => hframe.pc ▸ hf
  | poll e =>
      obtain ⟨hframe, _, _⟩ := loopFrame_poll h
      exact linkInv_of_frame hinv hsched hframe.sqes hframe.ktail
        (fun f starved hf => by rw [hframe.pc, hframe.calls]; exact ⟨⟨starved, hf⟩, rfl⟩)
        fun f timed hf => hframe.pc ▸ hf
  | dispatch =>
      obtain ⟨cqe, rest, _, _, rfl⟩ := step_dispatch h
      have hring := dispatchNext_ring s cqe rest
      exact linkInv_of_frame hinv hsched (by rw [hring]) (by rw [hring])
        (fun f starved hf => ⟨⟨starved, (dispatchNext_pc_iff rfl).mpr hf⟩,
          congrFun (dispatchNext_frame s cqe rest).1 f⟩)
        fun f timed hf => (dispatchNext_pc_iff rfl).mp hf
  | resume f =>
      obtain ⟨_, _, _, rfl⟩ := step_resume h
      exact linkInv_of_frame hinv hsched rfl rfl (fun g starved hg => ⟨⟨starved, hg⟩, rfl⟩)
        fun g timed hg => hg
  | park f =>
      obtain ⟨_, _, rfl⟩ := step_park h
      exact linkInv_of_frame hinv hsched rfl rfl (fun g starved hg => ⟨⟨starved, hg⟩, rfl⟩)
        fun g timed hg => hg
  | call f req timed =>
      obtain ⟨_, hidle, rfl⟩ := step_call h
      exact linkInv_of_update hinv hsched rfl rfl rfl (fun g hg => Function.update_of_ne hg _ _)
        (fun _ hf => by rw [hidle] at hf; cases hf) fun _ hpc => by cases hpc
  | get f =>
      obtain ⟨stage, starved, hrunning, hgetting, rfl⟩ := step_get h
      rcases get_cases s f stage starved with ⟨ring, hslot, _, hring, heq⟩ | ⟨_, heq⟩
      · rw [heq] at hsched ⊢
        exact linkInv_get hinv hsched hrunning hgetting (hok hslot) hring rfl rfl
      · rw [heq] at hsched ⊢
        refine linkInv_of_frame hinv hsched rfl rfl (fun g starved' hg => ⟨?_, rfl⟩)
          fun g timed hg => ?_
        · change ∃ b, Function.update s.pc f (.getting stage true) g = .getting .timeout b
          by_cases hgf : g = f
          · rw [hgf, hgetting] at hg
            obtain ⟨rfl, _⟩ := Pc.getting.inj hg
            exact ⟨true, by rw [hgf, Function.update_self]⟩
          · exact ⟨starved', by rwa [Function.update_of_ne hgf]⟩
        · change Function.update s.pc f (.getting stage true) g = _ at hg
          by_cases hgf : g = f
          · rw [hgf, Function.update_self] at hg
            cases hg
          · rwa [Function.update_of_ne hgf] at hg
  | flush f =>
      obtain ⟨timed, hrunning, hpc, rfl⟩ := step_flush h
      have hpublished : (s.flush f timed).LinkedPublished := linkedPublished_flush hinv hpc rfl
      refine ⟨hsched, fun i flagged hi hlink => ?_, fun g timed' hg => ?_, hpublished⟩
      · refine (hinv.paired i flagged hi hlink).imp_right fun ⟨hlen, hcall, starved, hwait⟩ => ?_
        have hne : flagged.userData.fiber ≠ f := by
          intro heq
          rw [heq, hpc] at hwait
          cases hwait
        exact ⟨hlen, hcall, starved, (Function.update_of_ne hne _ _).trans hwait⟩
      · change Function.update s.pc f (.submitted timed) g = _ at hg
        by_cases hgf : g = f
        · rw [hgf, Function.update_self] at hg
          cases hg
        · rw [Function.update_of_ne hgf] at hg
          exact hinv.last g timed' hg
  | count f err =>
      obtain ⟨timed, _, hpc, rfl⟩ := step_count h
      have hold : ∀ starved, s.pc f ≠ .getting .timeout starved := fun _ hf => by
        rw [hpc] at hf
        cases hf
      rcases count_cases s f timed (s.submitRet err) with ⟨_, _, heq⟩ | ⟨_, heq⟩
      · rw [heq] at hsched ⊢
        exact linkInv_of_update hinv hsched rfl rfl rfl (fun _ _ => rfl) hold
          fun _ hpc => by cases hpc
      · rw [heq] at hsched ⊢
        exact linkInv_of_update hinv hsched rfl rfl rfl (fun _ _ => rfl) hold
          fun _ hpc => by cases hpc
  | finish f =>
      obtain ⟨timed, _, hpc, rfl⟩ := step_finish h
      exact linkInv_of_update hinv hsched rfl rfl rfl (fun _ _ => rfl)
        (fun _ hf => by rw [hpc] at hf; cases hf) fun _ hpc => by cases hpc

/-- **A timed operation is published together with its timeout** in every run in which no fiber is
handed a slot while a timed call of another one waits for the slot of its LINK_TIMEOUT. -/
theorem linkedPublished_throughout (entries capacity : Nat) (fits : entries + capacity < 2 ^ 64)
    (maxAttempts : UInt64) (es : List (Event ι))
    (halone : Along step NobodyCutsIn (init entries capacity fits maxAttempts) es) :
    Throughout step LinkedPublished (init entries capacity fits maxAttempts) es :=
  (halone.throughout (linkInv_init entries capacity fits maxAttempts)
    fun _ _ _ hinv hok hstep => step_linkInv hinv hok hstep).imp fun _ hinv => hinv.published

/-- On a ring of two slots a plain call is consumed, and a timed call then gets both slots. -/
def linkedRun {κ : Type} (f g : κ) : List (Event κ) :=
  let recv : Request := ⟨.recvmsg, true, false⟩
  [.resume f, .call f recv false, .get f, .flush f, .count f none, .kernel .consume,
    .resume g, .call g recv true, .get g, .get g, .flush g]

theorem linkedPublished_linkedRun :
    (run step (init 2 8 (by decide) 1000000) (linkedRun (0 : Fin 2) 1)).isSome = true ∧
      Throughout step LinkedPublished (init 2 8 (by decide) 1000000) (linkedRun (0 : Fin 2) 1) :=
  ⟨by decide, linkedPublished_throughout 2 8 (by decide) 1000000 (linkedRun 0 1) (by decide)⟩

/-- A plain call fills the first of two slots; a timed call gets the second one for its operation
and yields; the kernel consumes the first and another plain call takes it and submits. -/
def cutInRun {κ : Type} (f g h : κ) : List (Event κ) :=
  let recv : Request := ⟨.recvmsg, true, false⟩
  [.resume f, .call f recv false, .get f, .flush f, .count f none,
    .resume g, .call g recv true, .get g, .get g, .kernel .consume,
    .resume h, .call h recv false, .get h, .flush h]

theorem cutInRun_published :
    (run step (init 2 8 (by decide) 1000000) (cutInRun (0 : Fin 3) 1 2)).map
        (fun s => s.loop.ring.ring.published.map fun e => (e.userData, e.ioLink))
      = some [(⟨0, 1, .resSetter⟩, false), (⟨1, 1, .opResSetter⟩, true),
          (⟨2, 1, .resSetter⟩, false)] := by
  decide

/-- The flagged SQE is published with an SQE of another fiber right behind it. -/
theorem not_linkedPublished_cutInRun :
    ¬ Throughout step LinkedPublished (init 2 8 (by decide) 1000000)
      (cutInRun (0 : Fin 3) 1 2) := by
  intro h
  obtain ⟨s, hrun, hpublished⟩ := Option.map_eq_some_iff.mp cutInRun_published
  have hflagged : (s.loop.ring.ring.published.map fun e => (e.userData, e.ioLink))[1]?
      = some (⟨1, 1, .opResSetter⟩, true) := by rw [hpublished]; rfl
  have hbehind : (s.loop.ring.ring.published.map fun e => (e.userData, e.ioLink))[2]?
      = some (⟨2, 1, .resSetter⟩, false) := by rw [hpublished]; rfl
  rw [List.getElem?_map] at hflagged hbehind
  obtain ⟨flagged, hone, hlink⟩ := Option.map_eq_some_iff.mp hflagged
  obtain ⟨e, htwo, _, hdata⟩ := h.last hrun 1 flagged hone (congrArg Prod.snd hlink)
  rw [htwo] at hbehind
  have hobj : e.userData.obj = .resSetter :=
    congrArg (fun p => p.1.obj) (Option.some.inj hbehind)
  rw [hdata] at hobj
  cases hobj

end Hnet.Runtime
