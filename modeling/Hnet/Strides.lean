import Mathlib.Tactic.Linarith

/-!
# Strides

How many multiples of a stride stay below a distance, as a rounded quotient, and where the quotients
of neighbouring numbers differ.
-/

namespace Hnet

/-- Of the multiples `0 * stride`, `1 * stride`, … just the first `k` are below `distance`. -/
def CountsBelow (distance stride : Int) (k : Nat) : Prop :=
  ∀ j : Nat, j * stride < distance ↔ j < k

section CountsBelow

variable {distance stride : Int} {k : Nat}

theorem countsBelow_of_pos (hstride : 0 < stride) (hdistance : 0 < distance) :
    CountsBelow distance stride k ↔ (k : Int) = (distance - 1) / stride + 1 := by
  have hlast : 0 ≤ (distance - 1) / stride := Int.ediv_nonneg (by omega) hstride.le
  have hbelow : ∀ j : Nat, j * stride < distance ↔ (j : Int) < (distance - 1) / stride + 1 := by
    intro j
    have hle : j ≤ (distance - 1) / stride ↔ j * stride ≤ distance - 1 :=
      Int.le_ediv_iff_mul_le hstride
    omega
  constructor
  · intro hcounts
    have hk := (hbelow k).symm.trans (hcounts k)
    have hlt := (hbelow ((distance - 1) / stride + 1).toNat).symm.trans (hcounts _)
    omega
  · intro hk j
    rw [hbelow j, ← hk]
    exact Int.ofNat_lt

theorem countsBelow_of_nonpos (hstride : 0 < stride) (hdistance : distance ≤ 0) :
    CountsBelow distance stride k ↔ k = 0 := by
  have hnone : ∀ j : Nat, ¬ j * stride < distance := by
    intro j
    have hspan : 0 ≤ j * stride := mul_nonneg (Int.natCast_nonneg j) hstride.le
    omega
  constructor
  · intro hcounts
    by_contra hk
    exact hnone 0 ((hcounts 0).mpr (Nat.pos_of_ne_zero hk))
  · intro hk j
    rw [hk]
    exact iff_of_false (hnone j) (Nat.not_lt_zero j)

end CountsBelow

/-- The quotients of two neighbours differ just where the larger one is a multiple. -/
theorem add_one_ediv_eq_iff {a stride : Int} (hstride : 0 < stride) :
    (a + 1) / stride = a / stride ↔ ¬ stride ∣ a + 1 := by
  have hdiv := Int.mul_ediv_add_emod a stride
  have hmod := Int.emod_nonneg a hstride.ne'
  have hlt := Int.emod_lt_of_pos a hstride
  rw [Int.ediv_eq_iff_of_pos hstride, mul_comm]
  constructor
  · rintro ⟨-, hbelow⟩ ⟨c, hc⟩
    have hle : c < a / stride + 1 := by
      refine lt_of_mul_lt_mul_left ?_ hstride.le
      rw [← hc, mul_add, mul_one]
      exact hbelow
    have hgt : a / stride < c := by
      refine lt_of_mul_lt_mul_left ?_ hstride.le
      omega
    omega
  · intro hnot
    refine ⟨by omega, ?_⟩
    by_contra hge
    exact hnot ⟨a / stride + 1, by rw [mul_add, mul_one]; omega⟩

theorem neighbours_ediv_eq_iff {a stride : Int} (hstride : 0 < stride) :
    (a + 1) / stride = (a - 1) / stride ↔ ¬ stride ∣ a ∧ ¬ stride ∣ a + 1 := by
  have hbelow := add_one_ediv_eq_iff (a := a - 1) hstride
  have habove := add_one_ediv_eq_iff (a := a) hstride
  have hmono := Int.ediv_le_ediv hstride (show a - 1 ≤ a by omega)
  have hmono' := Int.ediv_le_ediv hstride (show a ≤ a + 1 by omega)
  rw [sub_add_cancel] at hbelow
  rw [← hbelow, ← habove]
  omega

theorem tdiv_eq_one_iff {a stride : Int} (hstride : 0 < stride) :
    a.tdiv stride = 1 ↔ stride ≤ a ∧ a < 2 * stride := by
  by_cases ha : 0 ≤ a
  · rw [Int.tdiv_eq_ediv_of_nonneg ha, Int.ediv_eq_iff_of_pos hstride]
    omega
  · have hpos : 0 ≤ (-a).tdiv stride := Int.tdiv_nonneg (by omega) hstride.le
    rw [Int.neg_tdiv] at hpos
    omega

end Hnet
