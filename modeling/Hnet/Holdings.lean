import Mathlib.Algebra.BigOperators.Fin
import Mathlib.Algebra.Order.BigOperators.Group.Finset

/-!
# What the members of a family hold together

Each member of a finite family holds something that can be added up, such as a multiset of
resources. A step of a system exchanges what one member holds, so the sum is split there: the others
hold the same before and after.
-/

namespace Holdings

variable {α β M ρ : Type*}

def total [AddCommMonoid M] (held : β → M) (members : α → β) (t : Finset α) : M :=
  ∑ a ∈ t, held (members a)

/-- **The exchange rule.** When one member is replaced, the others keep what they hold. -/
theorem exchange [AddCommMonoid M] [DecidableEq α] (held : β → M) (members : α → β) {t : Finset α}
    {a : α} (ha : a ∈ t) (x : β) : ∃ others,
      total held members t = held (members a) + others
        ∧ total held (Function.update members a x) t = held x + others := by
  refine ⟨∑ b ∈ t.erase a, held (members b), (Finset.add_sum_erase _ _ ha).symm, ?_⟩
  rw [total, ← Finset.add_sum_erase _ _ ha, Function.update_self]
  congr 1
  apply Finset.sum_congr rfl
  intro b hb
  rw [Function.update_of_ne (Finset.ne_of_mem_erase hb)]

/-- Members that hold nothing can be left out. -/
theorem total_of_subset [AddCommMonoid M] {held : β → M} {members : α → β} {t t' : Finset α}
    (hsubset : t ⊆ t') (hnone : ∀ a ∈ t', a ∉ t → held (members a) = 0) :
    total held members t' = total held members t :=
  (Finset.sum_subset hsubset hnone).symm

theorem total_const {l : Nat} (held : β → Nat) (members : Fin l → β) {k : Nat}
    (h : ∀ a, held (members a) = k) : total held members Finset.univ = l * k := by
  rw [total, Finset.sum_congr rfl fun a _ => h a, Finset.sum_const, Finset.card_univ,
    Fintype.card_fin, smul_eq_mul]

theorem le_total (held : β → Nat) (members : α → β) {t : Finset α} {a : α} (ha : a ∈ t) :
    held (members a) ≤ total held members t :=
  Finset.single_le_sum (f := fun a => held (members a)) (fun _ _ => Nat.zero_le _) ha

theorem mem_total {held : β → Multiset ρ} {members : α → β} {t : Finset α} {r : ρ} :
    r ∈ total held members t ↔ ∃ a ∈ t, r ∈ held (members a) := Multiset.mem_sum

/-- What another member holds is with the others. -/
theorem mem_others {held : β → Multiset ρ} {members : α → β} {t : Finset α} {a b : α}
    {others : Multiset ρ} {r : ρ} (htotal : total held members t = held (members a) + others)
    (ha : a ∈ t) (hb : b ∈ t) (hne : b ≠ a) (hr : r ∈ held (members b)) : r ∈ others := by
  classical
  rw [total, ← Finset.add_sum_erase _ _ ha] at htotal
  rw [← add_left_cancel htotal]
  exact Multiset.mem_sum.mpr ⟨b, Finset.mem_erase.mpr ⟨hne, hb⟩, hr⟩

end Holdings
