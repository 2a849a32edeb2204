import Hnet.Five.Xrange
import Mathlib.Tactic.Linarith

/-!
# What a loop over an `xrange` visits

`end()` returns the same iterator as `begin()`, so a loop over a range visits nothing. That is
right exactly when there is nothing to visit.
-/

namespace Hnet

/-- `x` lies before `stop` in the direction of `step`. -/
def Before (stop step x : Int) : Prop := if 0 < step then x < stop else stop < x

instance (stop step x : Int) : Decidable (Before stop step x) := by
  unfold Before
  infer_instance

/-- The terms `start`, `start + step`, `start + 2 * step`, … that lie before `stop`, in order. -/
structure Terms (start stop step : Int) (visited : List Int) : Prop where
  inOrder : ∀ k (h : k < visited.length), visited.get ⟨k, h⟩ = start + k * step
  exactly : ∀ k : Nat, k < visited.length ↔ Before stop step (start + k * step)

/-- The loop over `xrange(start, stop, step)` ends and has visited just these terms. -/
def VisitsTerms (start stop step : Int64) : Prop :=
  ∃ tests visited, rangeFor (xrangeBy start stop step) visit tests [] = .done visited ∧
    Terms start.toInt stop.toInt step.toInt (visited.map Int64.toInt)

theorem not_before_add {start stop step : Int} (h : ¬ Before stop step start) (k : Nat) :
    ¬ Before stop step (start + k * step) := by
  have hk : (0 : Int) ≤ k := Int.natCast_nonneg k
  unfold Before at h ⊢
  split at h
  · rename_i hpos
    have hspan : 0 ≤ (k : Int) * step := mul_nonneg hk hpos.le
    rw [if_pos hpos]
    omega
  · rename_i hneg
    have hspan : (k : Int) * step ≤ 0 := mul_nonpos_of_nonneg_of_nonpos hk (not_lt.mp hneg)
    rw [if_neg hneg]
    omega

theorem terms_nil_iff {start stop step : Int} :
    Terms start stop step [] ↔ ¬ Before stop step start := by
  constructor
  · intro hterms hbefore
    have hzero := (hterms.exactly 0).mpr
    rw [Nat.cast_zero, zero_mul, add_zero] at hzero
    exact absurd (hzero hbefore) (Nat.not_lt_zero 0)
  · intro hnot
    constructor
    · intro k hk
      exact absurd hk (Nat.not_lt_zero k)
    · intro k
      constructor
      · intro hk
        exact absurd hk (Nat.not_lt_zero k)
      · intro hbefore
        exact absurd hbefore (not_before_add hnot k)

/-- **A loop over a range visits its terms exactly when it has none.** -/
theorem visitsTerms_iff {start stop step : Int64} {r : Xrange}
    (hfits : xrangeBy start stop step = .ok r) :
    VisitsTerms start stop step ↔ ¬ Before stop.toInt step.toInt start.toInt := by
  rw [VisitsTerms, hfits]
  constructor
  · rintro ⟨tests, visited, hdone, hterms⟩
    rw [rangeFor_done hdone] at hterms
    exact terms_nil_iff.mp hterms
  · intro hnot
    exact ⟨1, [], rangeFor_ok visit 0 [], terms_nil_iff.mpr hnot⟩

theorem visitsTerms_empty : VisitsTerms 5 5 1 :=
  (visitsTerms_iff (show xrangeBy 5 5 1 = .ok ⟨5, 5, 1⟩ by decide)).mpr (by decide)

/-- The loop of `TEST(Xrange, Basic)`, which passes because its body never runs. -/
theorem not_visitsTerms_ten : ¬ VisitsTerms 0 10 1 := by
  rintro ⟨tests, visited, hdone, hterms⟩
  rw [rangeFor_done hdone] at hterms
  exact terms_nil_iff.mp hterms (by decide)

end Hnet
