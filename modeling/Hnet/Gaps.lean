import Mathlib.Algebra.BigOperators.Group.List.Basic
import Mathlib.Tactic.Abel

/-!
# Gaps between readings

The gaps between consecutive readings add up to the last reading less the first, and so do the gaps
of two kinds together when each gap is of one of them.
-/

namespace Gaps

variable {G κ : Type*} [AddCommGroup G] [DecidableEq κ]

def gaps : List G → List G
  | a :: b :: rest => (b - a) :: gaps (b :: rest)
  | _ => []

/-- The gaps that are labelled with the kind `k`. -/
def ofKind (k : κ) (gs : List G) (ks : List κ) : List G :=
  ((gs.zip ks).filter fun p => p.2 = k).map Prod.fst

omit [DecidableEq κ] in
theorem gaps_concat (a : G) (rest : List G) (x : G) :
    gaps (a :: (rest ++ [x]))
      = gaps (a :: rest) ++ [x - (a :: rest).getLast (List.cons_ne_nil a rest)] := by
  induction rest generalizing a with
  | nil => rfl
  | cons b rest ih =>
      rw [List.cons_append, gaps, ih b, gaps, List.cons_append, List.getLast_cons_cons]

omit [DecidableEq κ] in
/-- **Gaps telescope.** -/
theorem sum_gaps (a : G) (rest : List G) :
    (gaps (a :: rest)).sum = (a :: rest).getLast (List.cons_ne_nil a rest) - a := by
  induction rest generalizing a with
  | nil => exact (sub_self a).symm
  | cons b rest ih =>
      rw [gaps, List.sum_cons, ih b, List.getLast_cons_cons]
      abel

omit [DecidableEq κ] in
theorem sum_gaps_of_ends {l : List G} {first last : G} (hfirst : l.head? = some first)
    (hlast : l.getLast? = some last) : (gaps l).sum = last - first := by
  cases l with
  | nil => cases hfirst
  | cons a rest =>
      rw [List.getLast?_eq_some_getLast (List.cons_ne_nil a rest)] at hlast
      obtain rfl := Option.some.inj hfirst
      rw [sum_gaps, Option.some.inj hlast]

omit [AddCommGroup G] in
theorem ofKind_concat (k k' : κ) {gs : List G} {ks : List κ} (hlen : gs.length = ks.length)
    (g : G) :
    ofKind k (gs ++ [g]) (ks ++ [k']) = ofKind k gs ks ++ if k' = k then [g] else [] := by
  rw [ofKind, List.zip_append hlen, List.filter_append, List.map_append, ofKind]
  by_cases heq : k' = k
  · simp [heq]
  · simp [heq]

omit [AddCommGroup G] in
theorem length_ofKind (k : κ) {gs : List G} {ks : List κ} (hlen : gs.length = ks.length) :
    (ofKind k gs ks).length = ks.count k := by
  induction ks generalizing gs with
  | nil => simp [ofKind]
  | cons k' ks ih =>
      cases gs with
      | nil => cases hlen
      | cons g gs =>
          have hrest := ih (Nat.succ.inj hlen)
          rw [ofKind, List.length_map] at hrest ⊢
          by_cases heq : k' = k
          · simp [heq, hrest]
          · simp [heq, hrest]

theorem count_add_count {k k' : κ} (hne : k ≠ k') {ks : List κ}
    (hkinds : ∀ x ∈ ks, x = k ∨ x = k') : ks.count k + ks.count k' = ks.length := by
  induction ks with
  | nil => rfl
  | cons x ks ih =>
      have hrest := ih fun y hy => hkinds y (List.mem_cons_of_mem x hy)
      rw [List.length_cons, ← hrest]
      rcases hkinds x List.mem_cons_self with rfl | rfl
      · rw [List.count_cons_self, List.count_cons_of_ne hne, Nat.add_right_comm]
      · rw [List.count_cons_self, List.count_cons_of_ne hne.symm, Nat.add_assoc]

theorem sum_ofKind {k k' : κ} (hne : k ≠ k') {gs : List G} {ks : List κ}
    (hlen : gs.length = ks.length) (hkinds : ∀ x ∈ ks, x = k ∨ x = k') :
    (ofKind k gs ks).sum + (ofKind k' gs ks).sum = gs.sum := by
  induction ks generalizing gs with
  | nil =>
      obtain rfl := List.length_eq_zero_iff.mp hlen
      simp [ofKind]
  | cons x ks ih =>
      cases gs with
      | nil => cases hlen
      | cons g gs =>
          have hrest := ih (Nat.succ.inj hlen) fun y hy => hkinds y (List.mem_cons_of_mem x hy)
          rw [List.sum_cons, ← hrest]
          rcases hkinds x List.mem_cons_self with rfl | rfl
          · simp [ofKind, hne, add_assoc]
          · simp [ofKind, hne.symm, add_left_comm]

/-- **The gaps of two kinds telescope together.** -/
theorem sum_ofKind_gaps {k k' : κ} (hne : k ≠ k') (a : G) {rest : List G} {ks : List κ}
    (hlen : (gaps (a :: rest)).length = ks.length) (hkinds : ∀ x ∈ ks, x = k ∨ x = k') :
    (ofKind k (gaps (a :: rest)) ks).sum + (ofKind k' (gaps (a :: rest)) ks).sum
      = (a :: rest).getLast (List.cons_ne_nil a rest) - a := by
  rw [sum_ofKind hne hlen hkinds, sum_gaps]

omit [DecidableEq κ] in
theorem length_gaps (a : G) (rest : List G) : (gaps (a :: rest)).length = rest.length := by
  induction rest generalizing a with
  | nil => rfl
  | cons b rest ih => rw [gaps, List.length_cons, ih b, List.length_cons]

end Gaps
