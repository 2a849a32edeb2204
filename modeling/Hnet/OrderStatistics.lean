import Mathlib.Algebra.Order.BigOperators.Group.List
import Mathlib.Algebra.Order.Ring.Int
import Mathlib.Data.List.GetD
import Mathlib.Data.List.Sort

/-!
# Order statistics

The values at some ranks of a sorted list grow with the ranks and split it there, and the integer
mean of a list lies between its bounds. A sorted list of numbers is its negative ones
followed by the others, which tells how its running sum goes: first down, then up.
-/

namespace OrderStatistics

section Ranks

variable {α : Type*} {r : α → α → Prop} {l : List α}

theorem rel_getD [Std.Refl r] (hsorted : l.Pairwise r) {i j : Nat} (hle : i ≤ j)
    (hj : j < l.length) (d : α) : r (l.getD i d) (l.getD j d) := by
  have hi : i < l.length := hle.trans_lt hj
  rw [List.getD_eq_getElem l d hi, List.getD_eq_getElem l d hj]
  rcases hle.eq_or_lt with rfl | hlt
  · exact Std.Refl.refl _
  · exact List.pairwise_iff_getElem.mp hsorted i j hi hj hlt

theorem rel_first_last [Std.Refl r] (hsorted : l.Pairwise r) {x : α} (hx : x ∈ l) (d : α) :
    r (l.getD 0 d) x ∧ r x (l.getD (l.length - 1) d) := by
  obtain ⟨i, hi, rfl⟩ := List.getElem_of_mem hx
  rw [← List.getD_eq_getElem l d hi]
  exact ⟨rel_getD hsorted (Nat.zero_le i) hi d,
    rel_getD hsorted (Nat.le_sub_one_of_lt hi) (by omega) d⟩

/-- **Values at growing ranks grow.** -/
theorem pairwise_getD [Std.Refl r] (hsorted : l.Pairwise r) {ranks : List Nat}
    (hranks : ranks.Pairwise (· ≤ ·)) (hlt : ∀ i ∈ ranks, i < l.length) (d : α) :
    (ranks.map fun i => l.getD i d).Pairwise r := by
  apply List.pairwise_map.mpr
  apply hranks.imp_of_mem
  intro i j _ hj hle
  exact rel_getD hsorted hle (hlt j hj) d

theorem getD_mem {i : Nat} (hi : i < l.length) (d : α) : l.getD i d ∈ l := by
  rw [List.getD_eq_getElem l d hi]
  exact List.getElem_mem hi

theorem getElem?_eq_getD {i : Nat} (hi : i < l.length) (d : α) : l[i]? = some (l.getD i d) := by
  rw [List.getElem?_eq_getElem hi, List.getD_eq_getElem l d hi]

end Ranks

section Counting

variable {α : Type*} {f : α → Int} {l : List α} {i : Nat}

/-- At most `i` elements of a sorted list are less than the one at rank `i`. -/
theorem countP_lt_getD (hsorted : l.Pairwise fun a b => f a ≤ f b) (hi : i < l.length) (d : α) :
    l.countP (fun a => f a < f (l.getD i d)) ≤ i := by
  have hbehind : (l.drop i).countP (fun a => f a < f (l.getD i d)) = 0 := by
    apply List.countP_eq_zero.mpr
    intro a ha hlt
    obtain ⟨j, hj, rfl⟩ := List.getElem_of_mem ha
    rw [List.length_drop] at hj
    have hle := List.pairwise_iff_getElem.mp hsorted
    rw [List.getElem_drop, List.getD_eq_getElem l d hi, decide_eq_true_eq] at hlt
    rcases Nat.eq_zero_or_pos j with rfl | hpos
    · exact lt_irrefl _ hlt
    · exact absurd hlt (not_lt.mpr (hle i (i + j) hi (by omega) (by omega)))
  calc l.countP (fun a => f a < f (l.getD i d))
      = (l.take i).countP (fun a => f a < f (l.getD i d))
          + (l.drop i).countP (fun a => f a < f (l.getD i d)) := by
        rw [← List.countP_append, List.take_append_drop]
    _ ≤ (l.take i).length + 0 := by
        rw [hbehind]
        exact Nat.add_le_add_right List.countP_le_length 0
    _ ≤ i := List.length_take_le i l

/-- More than `i` of them are not greater. -/
theorem lt_countP_le_getD (hsorted : l.Pairwise fun a b => f a ≤ f b) (hi : i < l.length) (d : α) :
    i < l.countP (fun a => f a ≤ f (l.getD i d)) := by
  have hfront : ∀ a ∈ l.take (i + 1), decide (f a ≤ f (l.getD i d)) = true := by
    intro a ha
    obtain ⟨j, hj, rfl⟩ := List.getElem_of_mem ha
    rw [List.length_take] at hj
    rw [List.getElem_take, List.getD_eq_getElem l d hi, decide_eq_true_eq]
    rcases Nat.lt_or_ge j i with hlt | hge
    · exact List.pairwise_iff_getElem.mp hsorted j i (by omega) hi hlt
    · obtain rfl : j = i := by omega
      exact le_rfl
  calc i < (l.take (i + 1)).length := by rw [List.length_take]; omega
    _ = (l.take (i + 1)).countP (fun a => f a ≤ f (l.getD i d)) :=
        (List.countP_eq_length.mpr hfront).symm
    _ ≤ l.countP (fun a => f a ≤ f (l.getD i d)) :=
        (List.take_sublist (i + 1) l).countP_le

end Counting

section Sums

variable {l : List Int} {low high : Int}

theorem mul_length_le_sum (h : ∀ x ∈ l, low ≤ x) : l.length * low ≤ l.sum := by
  have hsum := List.card_nsmul_le_sum l low h
  rwa [nsmul_eq_mul] at hsum

theorem sum_le_mul_length (h : ∀ x ∈ l, x ≤ high) : l.sum ≤ l.length * high := by
  have hsum := List.sum_le_card_nsmul l high h
  rwa [nsmul_eq_mul] at hsum

/-- **The integer mean lies between the bounds.** -/
theorem mean_mem (hne : l ≠ []) (hlow : ∀ x ∈ l, low ≤ x) (hhigh : ∀ x ∈ l, x ≤ high) :
    low ≤ l.sum / l.length ∧ l.sum / l.length ≤ high := by
  have hpos : (0 : Int) < l.length := Int.natCast_pos.mpr (List.length_pos_iff.mpr hne)
  constructor
  · rw [Int.le_ediv_iff_mul_le hpos, mul_comm]
    exact mul_length_le_sum hlow
  · rw [← Int.lt_add_one_iff, Int.ediv_lt_iff_lt_mul hpos, add_mul, mul_comm, one_mul]
    exact (sum_le_mul_length hhigh).trans_lt (lt_add_of_pos_right _ hpos)

/-- The negative numbers of a sorted list come first. -/
theorem filter_append_filter {α : Type*} {f : α → Int} {l : List α}
    (hsorted : l.Pairwise fun a b => f a ≤ f b) :
    l.filter (fun a => f a < 0) ++ l.filter (fun a => ¬ f a < 0) = l := by
  induction l with
  | nil => rfl
  | cons a l ih =>
      obtain ⟨hle, hrest⟩ := List.pairwise_cons.mp hsorted
      by_cases hneg : f a < 0
      · rw [List.filter_cons_of_pos (by simpa using hneg),
          List.filter_cons_of_neg (by simpa using hneg), List.cons_append, ih hrest]
      · have hnone : l.filter (fun b => f b < 0) = [] := by
          apply List.filter_eq_nil_iff.mpr
          intro b hb hlt
          exact hneg ((hle b hb).trans_lt (of_decide_eq_true hlt))
        have hall := ih hrest
        rw [hnone, List.nil_append] at hall
        rw [List.filter_cons_of_neg (by simpa using hneg), hnone,
          List.filter_cons_of_pos (by simpa using hneg), hall, List.nil_append]

end Sums

end OrderStatistics
