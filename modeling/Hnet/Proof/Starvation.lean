import Hnet.Proof.Schedule
import Mathlib.Data.Fintype.Basic
import Mathlib.Tactic.FinCases

/-!
# Can the starvation loop of `Ring::submit` get stuck?

A timed call holds the unpublished slot of its operation while it waits for a second one. If it was
handed the only slot that did not hold an unpublished SQE, every slot is now held by a call that
waits for one more, and nobody is left to call `io_uring_submit`. In every other case some slot is
free or published, or somebody is on the way to `io_uring_submit`.
-/

namespace Hnet

/-- The slots handed out and not yet published. -/
def IoUring.unpublished {U : Type} (r : IoUring U) : Nat := r.sqes.length - r.ktail

/-- The fiber is in front of `io_uring_get_sqe` for the operation of a timed call. -/
def Pc.asksForOp : Pc → Bool
  | .getting (.op _) _ => true
  | _ => false

namespace Runtime

open Lts

variable {ι : Type} [DecidableEq ι] {s s' : Runtime ι}

/-- The fiber has found the queue full and loops in `Ring::submit`. -/
def Waiting (s : Runtime ι) (f : ι) : Prop := ∃ stage, s.pc f = .getting stage true

/-- The fiber does not wait for a slot, and an `io_uring_submit` of its current call is still ahead
of it. -/
def SubmitAhead (s : Runtime ι) (f : ι) : Prop :=
  (∃ stage, s.pc f = .getting stage false) ∨ ∃ timed, s.pc f = .submitting timed

/-- While a fiber loops in `Ring::submit`, a slot is free, or a taken one has been published, or
another fiber is on its way to `io_uring_submit`. -/
def NotStuck (s : Runtime ι) : Prop :=
  (∃ f, s.Waiting f) →
    s.loop.ring.ring.HasSlot ∨ s.loop.ring.ring.khead < s.loop.ring.ring.ktail ∨
      ∃ g, s.SubmitAhead g

/-- No timed call is handed, for its operation, the only slot of the queue that does not hold an
unpublished SQE. -/
def LeavesRoom (s : Runtime ι) : Event ι → Prop
  | .get f => (s.pc f).asksForOp = true → s.loop.ring.ring.HasSlot →
      s.loop.ring.ring.unpublished + 1 < s.loop.ring.ring.entries
  | _ => True

instance (s : Runtime ι) : ∀ e, Decidable (s.LeavesRoom e)
  | .get f => inferInstanceAs (Decidable ((s.pc f).asksForOp = true → s.loop.ring.ring.HasSlot →
      s.loop.ring.ring.unpublished + 1 < s.loop.ring.ring.entries))
  | .kernel _ | .poll _ | .dispatch | .resume _ | .park _ | .call _ _ _ | .flush _ | .count _ _
  | .finish _ => isTrue trivial

/-- Not all slots hold unpublished SQEs, unless a fiber is about to publish them. -/
structure RoomInv (s : Runtime ι) : Prop where
  sched : s.Scheduled
  room : (∃ f timed, s.pc f = .submitting timed) ∨
    s.loop.ring.ring.unpublished < s.loop.ring.ring.entries

omit [DecidableEq ι] in
theorem RoomInv.notStuck (hinv : s.RoomInv) : s.NotStuck := by
  intro _
  rcases hinv.room with ⟨f, timed, hpc⟩ | hroom
  · exact Or.inr (Or.inr ⟨f, Or.inr ⟨timed, hpc⟩⟩)
  · by_cases hslot : s.loop.ring.ring.HasSlot
    · exact Or.inl hslot
    · -- all slots are taken, so one of those not unpublished is published
      have hfull : s.loop.ring.ring.khead + s.loop.ring.ring.entries
          ≤ s.loop.ring.ring.sqes.length := Nat.le_of_not_lt hslot
      have hpub := s.loop.ring.ring.ktail_le
      rw [IoUring.unpublished] at hroom
      exact Or.inr (Or.inl (by omega))

omit [DecidableEq ι] in
/-- A step that leaves the submission queue alone and keeps every fiber at `io_uring_submit`
there. -/
theorem roomInv_of_frame (hinv : s.RoomInv) (hsched : s'.Scheduled)
    (hentries : s'.loop.ring.ring.entries = s.loop.ring.ring.entries)
    (hsqes : s'.loop.ring.ring.sqes = s.loop.ring.ring.sqes)
    (hktail : s'.loop.ring.ring.ktail = s.loop.ring.ring.ktail)
    (hsubmit : ∀ f timed, s.pc f = .submitting timed → s'.pc f = .submitting timed) :
    s'.RoomInv where
  sched := hsched
  room := by
    rw [IoUring.unpublished, hentries, hsqes, hktail]
    exact hinv.room.imp_left fun ⟨f, timed, hpc⟩ => ⟨f, timed, hsubmit f timed hpc⟩

theorem roomInv_of_update {f : ι} {pc : Pc} (hinv : s.RoomInv) (hsched : s'.Scheduled)
    (hring : s'.loop.ring.ring = s.loop.ring.ring) (hpc : s'.pc = Function.update s.pc f pc)
    (hold : ∀ timed, s.pc f ≠ .submitting timed) : s'.RoomInv := by
  refine roomInv_of_frame hinv hsched (by rw [hring]) (by rw [hring]) (by rw [hring])
    fun g timed hg => ?_
  have hne : g ≠ f := fun heq => hold timed (heq ▸ hg)
  rwa [hpc, Function.update_of_ne hne]

theorem step_roomInv {e : Event ι} (hpos : 0 < s.loop.ring.ring.entries) (hinv : s.RoomInv)
    (hok : s.LeavesRoom e) (h : s.step e = some s') : s'.RoomInv := by
  have hsched := step_scheduled hinv.sched h
  cases e with
  | kernel e =>
      obtain ⟨hframe, _, _⟩ := loopFrame_kernel h
      exact roomInv_of_frame hinv hsched hframe.entries hframe.sqes hframe.ktail
        fun f timed hf => by rwa [hframe.pc]
  | poll e =>
      obtain ⟨hframe, _, _⟩ := loopFrame_poll h
      exact roomInv_of_frame hinv hsched hframe.entries hframe.sqes hframe.ktail
        fun f timed hf => by rwa [hframe.pc]
  | dispatch =>
      obtain ⟨cqe, rest, _, _, rfl⟩ := step_dispatch h
      have hring := dispatchNext_ring s cqe rest
      exact roomInv_of_frame hinv hsched (by rw [hring]) (by rw [hring]) (by rw [hring])
        fun f timed hf => (dispatchNext_pc_iff rfl).mpr hf
  | resume f =>
      obtain ⟨_, _, _, rfl⟩ := step_resume h
      exact roomInv_of_frame hinv hsched rfl rfl rfl fun g timed hg => hg
  | park f =>
      obtain ⟨_, _, rfl⟩ := step_park h
      exact roomInv_of_frame hinv hsched rfl rfl rfl fun g timed hg => hg
  | call f req timed =>
      obtain ⟨_, hidle, rfl⟩ := step_call h
      exact roomInv_of_update hinv hsched rfl rfl fun _ hf => by rw [hidle] at hf; cases hf
  | get f =>
      obtain ⟨stage, starved, _, hgetting, rfl⟩ := step_get h
      rcases get_cases s f stage starved with ⟨ring, hslot, _, hring, heq⟩ | ⟨_, heq⟩
      · rw [heq] at hsched ⊢
        refine ⟨hsched, ?_⟩
        have hpc : Function.update s.pc f stage.next f = stage.next := Function.update_self _ _ _
        cases stage with
        | plain req => exact Or.inl ⟨f, false, hpc⟩
        | timeout => exact Or.inl ⟨f, true, hpc⟩
        | op req =>
            right
            have hroom := hok (by rw [hgetting]; rfl) hslot
            have hpub := s.loop.ring.ring.ktail_le
            simp only [hring, IoUring.unpublished, IoUring.queue, List.length_append,
              List.length_singleton] at hroom ⊢
            omega
      · rw [heq] at hsched ⊢
        exact roomInv_of_update hinv hsched rfl rfl fun _ hf => by rw [hgetting] at hf; cases hf
  | flush f =>
      obtain ⟨timed, _, _, rfl⟩ := step_flush h
      refine ⟨hsched, Or.inr ?_⟩
      have hzero : (s.flush f timed).loop.ring.ring.unpublished = 0 := Nat.sub_self _
      rw [hzero]
      exact hpos
  | count f err =>
      obtain ⟨timed, _, hpc, rfl⟩ := step_count h
      have hold : ∀ timed, s.pc f ≠ .submitting timed := fun _ hf => by rw [hpc] at hf; cases hf
      rcases count_cases s f timed (s.submitRet err) with ⟨_, _, heq⟩ | ⟨_, heq⟩
      · rw [heq] at hsched ⊢
        exact roomInv_of_update hinv hsched rfl rfl hold
      · rw [heq] at hsched ⊢
        exact roomInv_of_update hinv hsched rfl rfl hold
  | finish f =>
      obtain ⟨timed, _, hpc, rfl⟩ := step_finish h
      exact roomInv_of_update hinv hsched rfl rfl fun _ hf => by rw [hpc] at hf; cases hf

/-! ### The size of the queue does not change -/

theorem step_entries {e : Event ι} (h : s.step e = some s') :
    s'.loop.ring.ring.entries = s.loop.ring.ring.entries := by
  cases e with
  | kernel e => exact (loopFrame_kernel h).1.entries
  | poll e => exact (loopFrame_poll h).1.entries
  | dispatch =>
      obtain ⟨cqe, rest, _, _, rfl⟩ := step_dispatch h
      rw [dispatchNext_ring]
  | resume f =>
      obtain ⟨_, _, _, rfl⟩ := step_resume h
      rfl
  | park f =>
      obtain ⟨_, _, rfl⟩ := step_park h
      rfl
  | call f req timed =>
      obtain ⟨_, _, rfl⟩ := step_call h
      rfl
  | get f =>
      obtain ⟨stage, starved, _, _, rfl⟩ := step_get h
      rcases get_cases s f stage starved with ⟨ring, hslot, _, hring, heq⟩ | ⟨_, heq⟩
      · rw [heq, hring]
        rfl
      · rw [heq]
        rfl
  | flush f =>
      obtain ⟨timed, _, _, rfl⟩ := step_flush h
      rfl
  | count f err =>
      obtain ⟨timed, _, _, rfl⟩ := step_count h
      rcases count_cases s f timed (s.submitRet err) with ⟨_, _, heq⟩ | ⟨_, heq⟩ <;> rw [heq]
  | finish f =>
      obtain ⟨timed, _, _, rfl⟩ := step_finish h
      rfl

/-! ### Runs -/

/-- **The starvation loop does not get stuck** in any run in which no timed call is handed, for its
operation, the only slot that does not hold an unpublished SQE. -/
theorem notStuck_throughout (entries capacity : Nat) (fits : entries + capacity < 2 ^ 64)
    (hentries : 2 ≤ entries) (maxAttempts : UInt64) (es : List (Event ι))
    (hroom : Along step LeavesRoom (init entries capacity fits maxAttempts) es) :
    Throughout step NotStuck (init entries capacity fits maxAttempts) es := by
  have hinit : (init entries capacity fits maxAttempts : Runtime ι).RoomInv :=
    ⟨scheduled_init entries capacity fits maxAttempts, Or.inr (show 0 < entries by omega)⟩
  have hinv : Throughout step
      (fun s : Runtime ι => s.RoomInv ∧ s.loop.ring.ring.entries = entries)
      (init entries capacity fits maxAttempts) es := by
    refine hroom.throughout ⟨hinit, rfl⟩ fun s e s' hs hok hstep => ?_
    refine ⟨step_roomInv ?_ hs.1 hok hstep, (step_entries hstep).trans hs.2⟩
    rw [hs.2]
    omega
  exact hinv.imp fun _ hs => hs.1.notStuck

/-- On a ring of two slots a timed call gets both, and another fiber finds the queue full. -/
def waitingRun {κ : Type} (f g : κ) : List (Event κ) :=
  let recv : Request := ⟨.recvmsg, true, false⟩
  [.resume f, .call f recv true, .get f, .get f, .flush f, .count f none,
    .resume g, .call g recv true, .get g]

theorem notStuck_waitingRun :
    (run step (init 2 8 (by decide) 1000000) (waitingRun (0 : Fin 2) 1)).map (fun s => s.pc 1)
        = some (.getting (.op ⟨.recvmsg, true, false⟩) true) ∧
      Throughout step NotStuck (init 2 8 (by decide) 1000000) (waitingRun (0 : Fin 2) 1) :=
  ⟨by decide, notStuck_throughout 2 8 (by decide) (by decide) 1000000 (waitingRun 0 1) (by decide)⟩

/-- A plain call fills the first of two slots; a timed call gets the second one for its operation
and yields; the kernel consumes the first and another timed call gets it for its operation. -/
def stuckRun {κ : Type} (f g h : κ) : List (Event κ) :=
  let recv : Request := ⟨.recvmsg, true, false⟩
  [.resume f, .call f recv false, .get f, .flush f, .count f none,
    .resume g, .call g recv true, .get g, .get g, .kernel .consume,
    .resume h, .call h recv true, .get h, .get h]

/-- Every slot now holds the unpublished operation of a call that waits for one more. -/
theorem stuckRun_slots :
    (run step (init 2 8 (by decide) 1000000) (stuckRun (0 : Fin 3) 1 2)).map
        (fun s => (decide s.loop.ring.ring.HasSlot, s.loop.ring.ring.khead,
          s.loop.ring.ring.ktail, s.pc 0, s.pc 1, s.pc 2))
      = some (false, 1, 1, .suspended false, .getting .timeout true, .getting .timeout true) := by
  decide

theorem not_notStuck_stuckRun :
    ¬ Throughout step NotStuck (init 2 8 (by decide) 1000000) (stuckRun (0 : Fin 3) 1 2) := by
  intro h
  obtain ⟨s, hrun, hslots⟩ := Option.map_eq_some_iff.mp stuckRun_slots
  simp only [Prod.mk.injEq, decide_eq_false_iff_not] at hslots
  obtain ⟨hfull, hhead, htail, hzero, hone, htwo⟩ := hslots
  rcases h.last hrun ⟨1, .timeout, hone⟩ with hslot | hpublished | ⟨g, hahead⟩
  · exact hfull hslot
  · omega
  · fin_cases g <;> rcases hahead with ⟨stage, hpc⟩ | ⟨timed, hpc⟩ <;> simp_all

end Runtime

end Hnet
