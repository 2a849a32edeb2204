import Hnet.Proof.Tagging
import Mathlib.Data.Multiset.ZeroCons

/-!
# What the handles of `EitherPtr2` destroy

The destructor of a handle calls `destroy`, which does nothing, so no object is ever destroyed. A
run is right only as long as none of its handles has gone out of scope.
-/

namespace Hnet

open Lts

namespace EitherPtr2

variable {Ty : Type} {types : List Ty}

/-- The destructor that has to run for the object behind a handle. -/
def owed (p : EitherPtr2 types) : Destruction := { index := p.getIndex, address := p.getAligned }

/-- A handle owes the destructor of the object that it was made for. -/
theorem owed_construct (htypes : types.length ≤ 32) {N : Fin types.length} {raw : UIntPtr}
    {p : EitherPtr2 types} (h : construct N raw = some p) :
    owed p = { index := N, address := raw } := by
  unfold construct at h
  split at h
  · rename_i haligned
    cases h
    have hrecovers := recovers_construct htypes N haligned
    rw [owed, hrecovers.index]
    exact congrArg (Destruction.mk N) hrecovers.pointer
  · cases h

namespace Handles

/-- Each object whose handle is gone has been destroyed once, as the type in its tag, and no other
object has. -/
def DestroyedOnce (s : Handles types) : Prop :=
  (s.destroyed : Multiset Destruction) = (s.gone.map owed : List Destruction)

/-- Nothing has been destroyed, and nothing should have been. -/
structure Untouched (s : Handles types) : Prop where
  gone : s.gone = []
  destroyed : s.destroyed = []

theorem Untouched.destroyedOnce {s : Handles types} (h : Untouched s) : DestroyedOnce s := by
  rw [DestroyedOnce, h.gone, h.destroyed]
  rfl

theorem step_cases {s s' : Handles types} {e : Event types} (h : step s e = some s') :
    (∃ N raw p, e = .construct N raw ∧
      s' = { s with inScope := s.inScope ++ [p], allocated := raw :: s.allocated }) ∨
    (∃ i p, e = .leave i ∧ s' = s.leave i p) := by
  cases e with
  | construct N raw =>
      simp only [step] at h
      split at h
      · cases h
      · obtain ⟨p, _, rfl⟩ := Option.map_eq_some_iff.mp h
        exact .inl ⟨N, raw, p, rfl, rfl⟩
  | leave i =>
      obtain ⟨p, _, rfl⟩ := Option.map_eq_some_iff.mp h
      exact .inr ⟨i, p, rfl, rfl⟩

/-- The step does not end the scope of a handle. -/
def KeepsScope (_s : Handles types) (e : Event types) : Prop := ∀ i, e ≠ .leave i

theorem Untouched.step {s s' : Handles types} {e : Event types} (h : Untouched s)
    (hkeeps : KeepsScope s e) (hstep : step s e = some s') : Untouched s' := by
  obtain ⟨N, raw, p, -, rfl⟩ | ⟨i, p, rfl, -⟩ := step_cases hstep
  · exact ⟨h.gone, h.destroyed⟩
  · exact absurd rfl (hkeeps i)

theorem not_destroyedOnce_leave {s : Handles types} (h : Untouched s) (i : Nat)
    (p : EitherPtr2 types) : ¬ DestroyedOnce (s.leave i p) := by
  intro honce
  have hcard := congrArg Multiset.card honce
  simp only [leave, destroy, h.gone, h.destroyed] at hcard
  cases hcard

theorem Untouched.not_destroyedOnce {s s' : Handles types} {e : Event types} (h : Untouched s)
    (hleaves : ¬ KeepsScope s e) (hstep : Handles.step s e = some s') : ¬ DestroyedOnce s' := by
  obtain ⟨N, raw, p, rfl, -⟩ | ⟨i, p, rfl, rfl⟩ := step_cases hstep
  · exact absurd (fun i heq => by cases heq) hleaves
  · exact not_destroyedOnce_leave h i p

/-- **The objects are destroyed as they should be exactly when no handle goes out of scope.** -/
theorem destroyedOnce_throughout (es : List (Event types)) :
    Throughout step DestroyedOnce init es ↔ Along step KeepsScope init es := by
  have hinit : Untouched (init : Handles types) := ⟨rfl, rfl⟩
  exact throughout_iff_along es hinit (fun _ h => h.destroyedOnce)
    (fun _ _ _ h hkeeps hstep => h.step hkeeps hstep)
    (fun _ _ _ h hleaves hstep => h.not_destroyedOnce hleaves hstep)

/-- The run of `TEST(EitherPtr2, Destroy)`. -/
theorem not_destroyedOnce_one :
    ¬ Throughout step DestroyedOnce (init : Handles ["Destroyable", "Destroyable"])
      [.construct 1 16, .leave 0] := by
  intro hthroughout
  have hrun : run step (init : Handles ["Destroyable", "Destroyable"])
      [.construct 1 16, .leave 0]
      = some { inScope := [], gone := [{ ptr := 17 }], allocated := [16], destroyed := [] } := by
    decide
  exact absurd (congrArg Multiset.card (hthroughout.last hrun)) (by decide)

end Handles

end EitherPtr2

end Hnet
