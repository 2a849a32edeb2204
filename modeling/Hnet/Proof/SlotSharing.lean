import Hnet.Proof.Calls
import Hnet.Proof.Starvation
import Mathlib.Data.Fintype.Card

/-!
# A ring with more slots than fibers

A slot that has been handed out and not been published belongs to a call that is on its way to
`io_uring_submit`. A call that waits there for another slot has one such slot at most, and only one
call is past that wait. So on a ring with more slots than fibers no timed call is handed the last
slot for its operation, whatever the fibers do.
-/

namespace Hnet.Runtime

open Lts

variable {ι : Type} [DecidableEq ι] {s s' : Runtime ι}

/-- The SQEs handed out and not yet published. -/
def unpublishedSqes (s : Runtime ι) : List (Sqe (Ptr ι)) :=
  s.loop.ring.ring.sqes.drop s.loop.ring.ring.ktail

/-- The SQE is of a call that has its `io_uring_submit` still in front of it. -/
def OwnsSlot (s : Runtime ι) (x : Sqe (Ptr ι)) : Prop :=
  x.userData.call = s.calls x.userData.fiber ∧
    ((∃ timed, s.pc x.userData.fiber = .submitting timed) ∨
      (x.userData.obj = .opResSetter ∧
        ∃ starved, s.pc x.userData.fiber = .getting .timeout starved))

def SlotsOwned (s : Runtime ι) : Prop := ∀ x ∈ s.unpublishedSqes, s.OwnsSlot x

/-! ### Every step -/

omit [DecidableEq ι] in
theorem slotsOwned_of_frame (howned : s.SlotsOwned)
    (hsqes : s'.loop.ring.ring.sqes = s.loop.ring.ring.sqes)
    (hktail : s'.loop.ring.ring.ktail = s.loop.ring.ring.ktail)
    (hkept : ∀ x, s.OwnsSlot x → s'.OwnsSlot x) : s'.SlotsOwned := by
  intro x hx
  rw [unpublishedSqes, hsqes, hktail] at hx
  exact hkept x (howned x hx)

omit [DecidableEq ι] in
/-- The calls that own a slot stay where they are. -/
theorem ownsSlot_of_pc {x : Sqe (Ptr ι)} (h : s.OwnsSlot x) (hcalls : s'.calls = s.calls)
    (hpc : ∀ f, (s.pc f).asleep = false → s'.pc f = s.pc f) : s'.OwnsSlot x := by
  obtain ⟨hcall, hpcs⟩ := h
  rw [OwnsSlot, hcalls]
  refine ⟨hcall, hpcs.imp (fun ⟨timed, hsubmitting⟩ => ⟨timed, ?_⟩)
    fun ⟨hobj, starved, hgetting⟩ => ⟨hobj, starved, ?_⟩⟩
  · rw [hpc _ (by rw [hsubmitting]; rfl), hsubmitting]
  · rw [hpc _ (by rw [hgetting]; rfl), hgetting]

/-- A step of a fiber that owns no slot. -/
theorem ownsSlot_of_update {x : Sqe (Ptr ι)} {f : ι} {pc : Pc} (h : s.OwnsSlot x)
    (hpc : s'.pc = Function.update s.pc f pc) (hcalls : ∀ g, g ≠ f → s'.calls g = s.calls g)
    (hnone : ∀ timed starved, s.pc f ≠ .submitting timed ∧ s.pc f ≠ .getting .timeout starved) :
    s'.OwnsSlot x := by
  have hne : x.userData.fiber ≠ f := by
    intro heq
    rcases h.2 with ⟨timed, hsubmitting⟩ | ⟨_, starved, hgetting⟩
    · exact (hnone timed false).1 (heq ▸ hsubmitting)
    · exact (hnone false starved).2 (heq ▸ hgetting)
  rw [OwnsSlot, hcalls _ hne, hpc, Function.update_of_ne hne]
  exact h

theorem slotsOwned_get {f : ι} {stage : Stage} {starved : Bool} (howned : s.SlotsOwned)
    (hgetting : s.pc f = .getting stage starved) : (s.get f stage starved).SlotsOwned := by
  have hcases : ∀ x, s.OwnsSlot x → x.userData.fiber = f →
      stage = .timeout ∧ x.userData.obj = .opResSetter := by
    rintro x ⟨_, hpcs⟩ rfl
    rw [hgetting] at hpcs
    rcases hpcs with ⟨_, hpc⟩ | ⟨hobj, _, hpc⟩
    · cases hpc
    · exact ⟨(Pc.getting.inj hpc).1, hobj⟩
  rcases get_cases s f stage starved with ⟨ring, hslot, _, hring, heq⟩ | ⟨_, heq⟩
  · rw [heq]
    intro x hx
    have hmem : x ∈ s.unpublishedSqes ∨ x = stage.sqe f (s.calls f) := by
      have hsplit : ring.ring.sqes.drop ring.ring.ktail
          = s.unpublishedSqes ++ [stage.sqe f (s.calls f)] := by
        rw [hring]
        exact List.drop_append_of_le_length s.loop.ring.ring.ktail_le
      exact (List.mem_append.mp (hsplit ▸ hx)).imp_right List.mem_singleton.mp
    rcases hmem with hmem | rfl
    · have hold := howned x hmem
      by_cases hf : x.userData.fiber = f
      · obtain ⟨rfl, _⟩ := hcases x hold hf
        refine ⟨hold.1, Or.inl ⟨true, ?_⟩⟩
        rw [hf]
        exact Function.update_self _ _ _
      · obtain ⟨hcall, hpcs⟩ := hold
        refine ⟨hcall, ?_⟩
        dsimp only
        rwa [Function.update_of_ne hf]
    · rw [OwnsSlot, Stage.sqe_userData]
      refine ⟨rfl, ?_⟩
      dsimp only
      rw [Function.update_self]
      cases stage with
      | plain req => exact Or.inl ⟨false, rfl⟩
      | op req => exact Or.inr ⟨rfl, false, rfl⟩
      | timeout => exact Or.inl ⟨true, rfl⟩
  · rw [heq]
    refine slotsOwned_of_frame howned rfl rfl fun x hold => ?_
    by_cases hf : x.userData.fiber = f
    · obtain ⟨rfl, hobj⟩ := hcases x hold hf
      refine ⟨hold.1, Or.inr ⟨hobj, true, ?_⟩⟩
      rw [hf]
      exact Function.update_self _ _ _
    · obtain ⟨hcall, hpcs⟩ := hold
      refine ⟨hcall, ?_⟩
      dsimp only
      rwa [Function.update_of_ne hf]

theorem step_slotsOwned {e : Event ι} (howned : s.SlotsOwned) (h : s.step e = some s') :
    s'.SlotsOwned := by
  cases e with
  | kernel e =>
      obtain ⟨hframe, _, _⟩ := loopFrame_kernel h
      exact slotsOwned_of_frame howned hframe.sqes hframe.ktail fun x hx =>
        ownsSlot_of_pc hx hframe.calls fun f _ => by rw [hframe.pc]
  | poll e =>
      obtain ⟨hframe, _, _⟩ := loopFrame_poll h
      exact slotsOwned_of_frame howned hframe.sqes hframe.ktail fun x hx =>
        ownsSlot_of_pc hx hframe.calls fun f _ => by rw [hframe.pc]
  | dispatch =>
      obtain ⟨cqe, rest, _, _, rfl⟩ := step_dispatch h
      have hring := dispatchNext_ring s cqe rest
      exact slotsOwned_of_frame howned (by rw [hring]) (by rw [hring]) fun x hx =>
        ownsSlot_of_pc hx (dispatchNext_frame s cqe rest).1 fun f hawake =>
          (dispatchNext_pc_iff hawake).mpr rfl
  | resume f =>
      obtain ⟨_, _, _, rfl⟩ := step_resume h
      exact slotsOwned_of_frame howned rfl rfl fun _ hx => hx
  | park f =>
      obtain ⟨_, _, rfl⟩ := step_park h
      exact slotsOwned_of_frame howned rfl rfl fun _ hx => hx
  | call f req timed =>
      obtain ⟨_, hidle, rfl⟩ := step_call h
      refine slotsOwned_of_frame howned rfl rfl fun x hx =>
        ownsSlot_of_update hx rfl (fun g hg => Function.update_of_ne hg _ _) fun _ _ => ?_
      rw [hidle]
      exact ⟨nofun, nofun⟩
  | get f =>
      obtain ⟨stage, starved, _, hgetting, rfl⟩ := step_get h
      exact slotsOwned_get howned hgetting
  | flush f =>
      obtain ⟨timed, _, _, rfl⟩ := step_flush h
      intro x hx
      have hnone : (s.flush f timed).unpublishedSqes = [] := List.drop_length
      rw [hnone] at hx
      cases hx
  | count f err =>
      obtain ⟨timed, _, hpc, rfl⟩ := step_count h
      have hnone : ∀ timed starved,
          s.pc f ≠ .submitting timed ∧ s.pc f ≠ .getting .timeout starved := by
        rw [hpc]
        exact fun _ _ => ⟨nofun, nofun⟩
      rcases count_cases s f timed (s.submitRet err) with ⟨_, _, heq⟩ | ⟨_, heq⟩ <;> rw [heq]
      · exact slotsOwned_of_frame howned rfl rfl fun x hx =>
          ownsSlot_of_update hx rfl (fun _ _ => rfl) hnone
      · exact slotsOwned_of_frame howned rfl rfl fun x hx =>
          ownsSlot_of_update hx rfl (fun _ _ => rfl) hnone
  | finish f =>
      obtain ⟨timed, _, hpc, rfl⟩ := step_finish h
      refine slotsOwned_of_frame howned rfl rfl fun x hx =>
        ownsSlot_of_update hx rfl (fun _ _ => rfl) fun _ _ => ?_
      rw [hpc]
      exact ⟨nofun, nofun⟩

/-! ### No timed call is handed the last slot -/

omit [DecidableEq ι] in
/-- While a fiber asks for the slot of its operation, each unpublished slot belongs to another
fiber. -/
theorem unpublished_lt_card [Fintype ι] {f : ι} {req : Request} {starved : Bool}
    (hinv : s.CallInv) (howned : s.SlotsOwned) (hrunning : s.running = some f)
    (hgetting : s.pc f = .getting (.op req) starved) :
    s.loop.ring.ring.unpublished < Fintype.card ι := by
  have hwaits : ∀ x ∈ s.unpublishedSqes, x.userData.call = s.calls x.userData.fiber
      ∧ x.userData.obj = .opResSetter ∧ x.userData.fiber ≠ f := by
    intro x hx
    obtain ⟨hcall, ⟨timed, hsubmitting⟩ | ⟨hobj, starved, hpc⟩⟩ := howned x hx
    · have hself := hinv.sched.busy x.userData.fiber (by rw [hsubmitting]; rfl)
      obtain rfl := Option.some.inj (hrunning.symm.trans hself)
      cases hgetting.symm.trans hsubmitting
    · refine ⟨hcall, hobj, fun heq => ?_⟩
      rw [heq, hgetting] at hpc
      cases hpc
  have hnodup : (s.unpublishedSqes.map Sqe.userData).Nodup :=
    hinv.once.sublist ((List.drop_sublist _ _).map _)
  have hfibers : ((s.unpublishedSqes.map Sqe.userData).map Ptr.fiber).Nodup := by
    refine List.Nodup.map_on (fun p hp q hq heq => ?_) hnodup
    obtain ⟨x, hx, rfl⟩ := List.mem_map.mp hp
    obtain ⟨y, hy, rfl⟩ := List.mem_map.mp hq
    obtain ⟨hxCall, hxObj, _⟩ := hwaits x hx
    obtain ⟨hyCall, hyObj, _⟩ := hwaits y hy
    rw [heq, ← hyCall] at hxCall
    generalize x.userData = p at heq hxCall hxObj ⊢
    generalize y.userData = q at heq hxCall hyObj ⊢
    cases p
    cases q
    simp_all
  have hothers : f ∉ (s.unpublishedSqes.map Sqe.userData).map Ptr.fiber := by
    intro hmem
    obtain ⟨p, hp, rfl⟩ := List.mem_map.mp hmem
    obtain ⟨x, hx, rfl⟩ := List.mem_map.mp hp
    exact (hwaits x hx).2.2 rfl
  have hle := (List.nodup_cons.mpr ⟨hothers, hfibers⟩).length_le_card
  rw [List.length_cons, List.length_map, List.length_map, unpublishedSqes, List.length_drop] at hle
  exact hle

theorem leavesRoom_of_card [Fintype ι] {e : Event ι} (hinv : s.CallInv) (howned : s.SlotsOwned)
    (hentries : Fintype.card ι < s.loop.ring.ring.entries) (h : s.step e = some s') :
    s.LeavesRoom e := by
  cases e with
  | get f =>
      obtain ⟨stage, starved, hrunning, hgetting, _⟩ := step_get h
      intro hasks _
      rw [hgetting] at hasks
      cases stage with
      | op req =>
          have hlt := unpublished_lt_card hinv howned hrunning hgetting
          omega
      | plain req => cases hasks
      | timeout => cases hasks
  | kernel _ | poll _ | dispatch | resume _ | park _ | call _ _ _ | flush _ | count _ _
  | finish _ => trivial

end Hnet.Runtime
