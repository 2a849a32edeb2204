import Hnet.OrderStatistics
import Hnet.UdpReport
import Mathlib.Tactic.Linarith
import Mathlib.Tactic.NormNum

/-!
# What the report says

With at least one timing every expression of the report is defined, apart from an overflow of the
sum. The order of its values is that of the ranks. The average alone depends on the sign of the
sum, which is converted to `size_t` before it is divided.
-/

namespace Hnet

open OrderStatistics

/-- No division by zero, and every index below the size. -/
structure Report.Defined (r : Report) : Prop where
  avg : r.avg ≠ .error .divisionByZero
  min : r.min.isSome
  max : r.max.isSome
  quantiles : ∀ t ∈ r.quantiles, t.isSome

def total (timings : List Duration) : Int := (timings.map fun t => t.nanos.toInt).sum

/-- The order that `std::sort` leaves behind. -/
abbrev Sorts (t other : Duration) : Prop := other.lt t = false

theorem sorts_iff {t other : Duration} : Sorts t other ↔ t.nanos.toInt ≤ other.nanos.toInt := by
  rw [Sorts, TimeBase.lt, decide_eq_false_iff_not, ← not_lt]
  exact not_congr Int64.lt_iff_toInt_lt

instance : Std.Refl Sorts where
  refl _ := sorts_iff.mpr le_rfl

instance : Std.Total Sorts where
  total t other := by
    rw [sorts_iff, sorts_iff]
    exact le_total _ _

instance : IsTrans Duration Sorts where
  trans _ _ _ h h' := sorts_iff.mpr ((sorts_iff.mp h).trans (sorts_iff.mp h'))

variable {timings : List Duration}

theorem pairwise_sorted (timings : List Duration) :
    (timings.insertionSort Sorts).Pairwise fun t other => t.nanos.toInt ≤ other.nanos.toInt :=
  (List.pairwise_insertionSort Sorts timings).imp sorts_iff.mp

@[simp]
theorem total_nil : total [] = 0 := rfl

@[simp]
theorem total_cons (t : Duration) (timings : List Duration) :
    total (t :: timings) = t.nanos.toInt + total timings := by
  rw [total, List.map_cons, List.sum_cons, total]

theorem total_append (timings timings' : List Duration) :
    total (timings ++ timings') = total timings + total timings' := by
  rw [total, List.map_append, List.sum_append, total, total]

theorem total_perm {timings' : List Duration} (h : timings.Perm timings') :
    total timings = total timings' := (h.map _).sum_eq

theorem total_nonneg (h : ∀ t ∈ timings, 0 ≤ t.nanos.toInt) : 0 ≤ total timings :=
  List.sum_nonneg (List.forall_mem_map.mpr h)

theorem total_nonpos (h : ∀ t ∈ timings, t.nanos.toInt ≤ 0) : total timings ≤ 0 := by
  induction timings with
  | nil => rfl
  | cons t timings ih =>
      have ht := h t List.mem_cons_self
      have hrest := ih fun u hu => h u (List.mem_cons_of_mem t hu)
      rw [total_cons]
      omega

/-! ### The ranks -/

section Ranks

variable {size : Nat} {quantile quantile' : ℚ}

theorem double_pos {x : ℚ} (hx : 0 < x) : 0 < double x := Rounding.round_pos (by decide) hx

theorem double_mono {x y : ℚ} (hx : 0 < x) (h : x ≤ y) : double x ≤ double y :=
  Rounding.round_mono (by decide) hx h

theorem share_pos (hpos : 0 < quantile) : 0 < double quantile / 100 :=
  div_pos (double_pos hpos) (by norm_num)

theorem product_pos (hsize : 0 < size) (hpos : 0 < quantile) :
    0 < double (double size * double (double quantile / 100)) :=
  double_pos (mul_pos (double_pos (Nat.cast_pos.mpr hsize)) (double_pos (share_pos hpos)))

/-- Four roundings lie between the exact product and the one that is cut off. -/
theorem within_product (hsize : 0 < size) (hpos : 0 < quantile) :
    Rounding.Within 53 4 (size * (quantile / 100))
      (double (double size * double (double quantile / 100))) := by
  have hn : (0 : ℚ) < size := Nat.cast_pos.mpr hsize
  have hshare := share_pos hpos
  have hwithin := ((Rounding.Within.refl 53 quantile).round hpos).div (c := 100) (by norm_num)
  exact (((Rounding.Within.refl 53 (size : ℚ)).round hn).mul (hwithin.round hshare) hn.le
    (div_nonneg hpos.le (by norm_num))).round (mul_pos (double_pos hn) (double_pos hshare))

theorem quantileIdx_mono (hsize : 0 < size) (hpos : 0 < quantile) (hle : quantile ≤ quantile') :
    quantileIdx size quantile ≤ quantileIdx size quantile' := by
  have hn : 0 < double size := double_pos (Nat.cast_pos.mpr hsize)
  have hshare := share_pos hpos
  have hshares : double quantile / 100 ≤ double quantile' / 100 :=
    div_le_div_of_nonneg_right (double_mono hpos hle) (by norm_num)
  refine Nat.floor_mono (double_mono (mul_pos hn (double_pos hshare)) ?_)
  exact mul_le_mul_of_nonneg_left (double_mono hshare hshares) hn.le

theorem quantileIdx_lt (hsize : 0 < size) (hpos : 0 < quantile) (hle : quantile ≤ 99.99) :
    quantileIdx size quantile < size := by
  have hn : (0 : ℚ) < size := Nat.cast_pos.mpr hsize
  refine (Nat.floor_lt (product_pos hsize hpos).le).mpr ?_
  calc double (double size * double (double quantile / 100))
      ≤ size * (quantile / 100) * (1 + 1 / 2 ^ 53) ^ 4 := (within_product hsize hpos).2
    _ ≤ size * (99.99 / 100) * (1 + 1 / 2 ^ 53) ^ 4 := by gcongr
    _ = size * (99.99 / 100 * (1 + 1 / 2 ^ 53) ^ 4) := mul_assoc _ _ _
    _ < size := mul_lt_of_lt_one_right hn (by norm_num)

end Ranks

def reportRanks (size : Nat) : List Nat := 0 :: (quantiles.map (quantileIdx size) ++ [size - 1])

theorem quantiles_bounds {quantile : ℚ} (h : quantile ∈ quantiles) :
    0 < quantile ∧ quantile ≤ 99.99 := by
  revert quantile
  decide +kernel

theorem reportRanks_lt {size : Nat} (hpos : 0 < size) : ∀ i ∈ reportRanks size, i < size := by
  intro i hi
  rcases List.mem_cons.mp hi with rfl | hi
  · exact hpos
  rcases List.mem_append.mp hi with hi | hi
  · obtain ⟨quantile, hmem, rfl⟩ := List.mem_map.mp hi
    exact quantileIdx_lt hpos (quantiles_bounds hmem).1 (quantiles_bounds hmem).2
  · rw [List.mem_singleton.mp hi]
    exact Nat.sub_lt hpos Nat.one_pos

theorem pairwise_reportRanks {size : Nat} (hpos : 0 < size) :
    (reportRanks size).Pairwise (· ≤ ·) := by
  have hgrow : quantiles.Pairwise (· ≤ ·) := by decide +kernel
  have hidx : (quantiles.map (quantileIdx size)).Pairwise (· ≤ ·) := by
    apply List.pairwise_map.mpr
    apply hgrow.imp_of_mem
    intro quantile _ hmem _ hle
    exact quantileIdx_mono hpos (quantiles_bounds hmem).1 hle
  rw [reportRanks, List.pairwise_cons, List.pairwise_append]
  refine ⟨fun i _ => Nat.zero_le i, hidx, List.pairwise_singleton _ _, ?_⟩
  intro i hi last hlast
  rw [List.mem_singleton.mp hlast]
  apply Nat.le_sub_one_of_lt
  exact reportRanks_lt hpos i (List.mem_cons_of_mem _ (List.mem_append_left _ hi))

theorem statistics_eq (hne : timings ≠ []) (default : Duration) :
    statistics timings =
      let sorted := timings.insertionSort Sorts
      { avg := average sorted
        min := some (sorted.getD 0 default)
        max := some (sorted.getD (sorted.length - 1) default)
        quantiles := (quantiles.map fun quantile =>
          sorted.getD (quantileIdx sorted.length quantile) default).map some } := by
  have hpos : 0 < (timings.insertionSort Sorts).length := by
    rw [List.length_insertionSort]
    exact List.length_pos_iff.mpr hne
  have hlt := reportRanks_lt hpos
  have hquantiles : ∀ quantile ∈ quantiles,
      quantileIdx (timings.insertionSort Sorts).length quantile
        < (timings.insertionSort Sorts).length := by
    intro quantile hmem
    apply hlt
    exact List.mem_cons_of_mem _ (List.mem_append_left _ (List.mem_map_of_mem hmem))
  have hlast := hlt _ (List.mem_cons_of_mem _ (List.mem_append_right _ (List.mem_singleton_self _)))
  simp only [statistics, List.map_map]
  rw [getElem?_eq_getD hpos default, getElem?_eq_getD hlast default]
  congr 1
  apply List.map_congr_left
  intro quantile hmem
  exact getElem?_eq_getD (hquantiles quantile hmem) default

/-! ### The sum -/

theorem add_eq (t other : Duration) :
    t.add other = (i64 (t.nanos.toInt + other.nanos.toInt)).map TimeBase.mk := by
  unfold TimeBase.add
  cases i64 (t.nanos.toInt + other.nanos.toInt) <;> rfl

theorem add_ok {t other : Duration} (hlow : -2 ^ 63 ≤ t.nanos.toInt + other.nanos.toInt)
    (hhigh : t.nanos.toInt + other.nanos.toInt < 2 ^ 63) :
    ∃ sum, t.add other = .ok sum ∧ sum.nanos.toInt = t.nanos.toInt + other.nanos.toInt := by
  refine ⟨_, by rw [add_eq, i64_of_fits hlow hhigh]; rfl, ?_⟩
  exact Int64.toInt_ofInt_of_le hlow hhigh

theorem add_overflow {t other : Duration} (h : t.nanos.toInt + other.nanos.toInt < -2 ^ 63) :
    t.add other = .error .overflow := by
  rw [add_eq, i64, if_neg (fun hfits => absurd hfits.1 (not_le.mpr h))]
  rfl

/-- A running sum that only falls is defined when the last one is. -/
theorem foldlM_add_of_neg {l : List Duration} (hneg : ∀ t ∈ l, t.nanos.toInt < 0)
    (acc : Duration) :
    (-2 ^ 63 ≤ acc.nanos.toInt + total l ∧ ∃ sum, l.foldlM TimeBase.add acc = .ok sum
      ∧ sum.nanos.toInt = acc.nanos.toInt + total l) ∨
    (acc.nanos.toInt + total l < -2 ^ 63 ∧ l.foldlM TimeBase.add acc = .error .overflow) := by
  induction l generalizing acc with
  | nil =>
      rw [total_nil, add_zero]
      exact Or.inl ⟨acc.nanos.le_toInt, acc, rfl, rfl⟩
  | cons t l ih =>
      have ht := hneg t List.mem_cons_self
      have hrest : ∀ u ∈ l, u.nanos.toInt < 0 := fun u hu => hneg u (List.mem_cons_of_mem t hu)
      have hfalls : total l ≤ 0 := total_nonpos fun u hu => (hrest u hu).le
      have hacc := acc.nanos.toInt_lt
      rw [List.foldlM_cons, total_cons, ← add_assoc]
      by_cases hfits : -2 ^ 63 ≤ acc.nanos.toInt + t.nanos.toInt
      · obtain ⟨sum, hadd, hsum⟩ := add_ok hfits (by omega)
        rw [hadd, ← hsum]
        exact ih hrest sum
      · rw [add_overflow (not_le.mp hfits)]
        exact Or.inr ⟨by omega, rfl⟩

/-- A running sum that only grows is defined when the last one is. -/
theorem foldlM_add_of_nonneg {l : List Duration} (hpos : ∀ t ∈ l, ¬ t.nanos.toInt < 0)
    (acc : Duration) (hfits : acc.nanos.toInt + total l < 2 ^ 63) :
    ∃ sum, l.foldlM TimeBase.add acc = .ok sum
      ∧ sum.nanos.toInt = acc.nanos.toInt + total l := by
  induction l generalizing acc with
  | nil =>
      exact ⟨acc, rfl, (add_zero _).symm⟩
  | cons t l ih =>
      have ht := not_lt.mp (hpos t List.mem_cons_self)
      have hrest : ∀ u ∈ l, ¬ u.nanos.toInt < 0 := fun u hu => hpos u (List.mem_cons_of_mem t hu)
      have hgrows : 0 ≤ total l := total_nonneg fun u hu => not_lt.mp (hrest u hu)
      have hacc := acc.nanos.le_toInt
      rw [total_cons, ← add_assoc] at hfits ⊢
      obtain ⟨sum, hadd, hsum⟩ := @add_ok acc t (by omega) (by omega)
      rw [List.foldlM_cons, hadd, ← hsum]
      rw [← hsum] at hfits
      exact ih hrest sum hfits

/-- The negative durations are summed up first. -/
theorem accumulate_sorted
    (hsorted : timings.Pairwise fun t other => t.nanos.toInt ≤ other.nanos.toInt)
    (hfits : total timings < 2 ^ 63) :
    (-2 ^ 63 ≤ total (timings.filter fun t => t.nanos.toInt < 0)
      ∧ ∃ sum, accumulate timings = .ok sum ∧ sum.nanos.toInt = total timings) ∨
    (total (timings.filter fun t => t.nanos.toInt < 0) < -2 ^ 63
      ∧ accumulate timings = .error .overflow) := by
  have hsplit := filter_append_filter (f := fun t : Duration => t.nanos.toInt) hsorted
  have htotal := congrArg total hsplit
  rw [total_append] at htotal
  have hneg : ∀ t ∈ timings.filter (fun t => t.nanos.toInt < 0), t.nanos.toInt < 0 :=
    fun t ht => of_decide_eq_true (List.mem_filter.mp ht).2
  have hpos : ∀ t ∈ timings.filter (fun t => ¬ t.nanos.toInt < 0), ¬ t.nanos.toInt < 0 :=
    fun t ht => of_decide_eq_true (List.mem_filter.mp ht).2
  have hzero : ({ nanos := 0 } : Duration).nanos.toInt = 0 := rfl
  have haccumulate : accumulate timings
      = (timings.filter fun t => t.nanos.toInt < 0).foldlM TimeBase.add { nanos := 0 } >>=
        (timings.filter fun t => ¬ t.nanos.toInt < 0).foldlM TimeBase.add := by
    rw [accumulate]
    conv_lhs => rw [← hsplit]
    exact List.foldlM_append
  rw [haccumulate]
  rcases foldlM_add_of_neg hneg { nanos := 0 } with ⟨hlow, sum, hfold, hsum⟩ | ⟨hlow, hfold⟩
  · rw [hzero, zero_add] at hlow hsum
    obtain ⟨sum', hfold', hsum'⟩ := foldlM_add_of_nonneg hpos sum (by omega)
    refine Or.inl ⟨hlow, sum', ?_, by omega⟩
    rw [hfold]
    exact hfold'
  · rw [hzero, zero_add] at hlow
    refine Or.inr ⟨hlow, ?_⟩
    rw [hfold]
    rfl

/-! ### The average -/

theorem exists_extremes (hne : timings ≠ []) :
    ∃ low ∈ timings, ∃ high ∈ timings,
      (∀ t ∈ timings, low.nanos.toInt ≤ t.nanos.toInt ∧ t.nanos.toInt ≤ high.nanos.toInt) ∧
      ∃ qs : List Duration,
        statistics timings =
            { avg := average (timings.insertionSort Sorts), min := some low, max := some high
              quantiles := qs.map some }
          ∧ (low :: (qs ++ [high])).Pairwise (fun t other => t.nanos.toInt ≤ other.nanos.toInt)
          ∧ ∀ t ∈ low :: (qs ++ [high]), t ∈ timings := by
  let sorted := timings.insertionSort Sorts
  have hperm : sorted.Perm timings := List.perm_insertionSort Sorts timings
  have hsorted : sorted.Pairwise Sorts := List.pairwise_insertionSort Sorts timings
  have hpos : 0 < sorted.length := by
    rw [hperm.length_eq]
    exact List.length_pos_iff.mpr hne
  let default : Duration := { nanos := 0 }
  let qs := quantiles.map fun quantile => sorted.getD (quantileIdx sorted.length quantile) default
  have hlt := reportRanks_lt hpos
  have hvalues : (reportRanks sorted.length).map (fun i => sorted.getD i default)
      = sorted.getD 0 default :: (qs ++ [sorted.getD (sorted.length - 1) default]) := by
    rw [reportRanks, List.map_cons, List.map_append, List.map_map]
    rfl
  have hmem : ∀ i < sorted.length, sorted.getD i default ∈ timings :=
    fun i hi => hperm.mem_iff.mp (getD_mem hi default)
  refine ⟨_, hmem 0 hpos, _, hmem (sorted.length - 1) (by omega), ?_, qs,
    statistics_eq hne default, ?_, ?_⟩
  · intro t ht
    obtain ⟨hlow, hhigh⟩ := rel_first_last hsorted (hperm.mem_iff.mpr ht) default
    exact ⟨sorts_iff.mp hlow, sorts_iff.mp hhigh⟩
  · rw [← hvalues]
    exact (pairwise_getD hsorted (pairwise_reportRanks hpos) hlt default).imp sorts_iff.mp
  · rw [← hvalues]
    intro t ht
    obtain ⟨i, hi, rfl⟩ := List.mem_map.mp ht
    exact hmem i (hlt i hi)

theorem foldlM_add_ne (l : List Duration) (acc : Duration) :
    l.foldlM TimeBase.add acc ≠ .error .divisionByZero := by
  intro h
  induction l generalizing acc with
  | nil => cases h
  | cons t l ih =>
      rw [List.foldlM_cons] at h
      cases hadd : acc.add t with
      | ok sum =>
          rw [hadd] at h
          exact ih sum h
      | error fault =>
          rw [hadd] at h
          obtain rfl : fault = .divisionByZero := Except.error.inj h
          rw [add_eq, i64] at hadd
          split at hadd <;> cases hadd

theorem average_ne_divisionByZero (hne : timings ≠ []) :
    average timings ≠ .error .divisionByZero := by
  have hlength : timings.length ≠ 0 := fun hzero => hne (List.length_eq_zero_iff.mp hzero)
  have hsum := foldlM_add_ne timings { nanos := 0 }
  unfold average accumulate
  cases hfold : timings.foldlM TimeBase.add { nanos := 0 } with
  | ok sum =>
      simp only [bind, Except.bind, if_neg hlength]
      exact nofun
  | error fault =>
      intro heq
      rw [hfold] at hsum
      exact hsum (congrArg Except.error (Except.error.inj heq))

theorem statistics_defined_iff : (statistics timings).Defined ↔ timings ≠ [] := by
  constructor
  · rintro hdefined rfl
    exact absurd hdefined.min (by decide)
  · intro hne
    have hstats := statistics_eq hne { nanos := 0 }
    rw [hstats]
    refine ⟨?_, rfl, rfl, ?_⟩
    · apply average_ne_divisionByZero
      intro hnil
      have hperm := List.perm_insertionSort Sorts timings
      rw [hnil] at hperm
      exact hne hperm.symm.eq_nil
    · intro t ht
      obtain ⟨value, _, rfl⟩ := List.mem_map.mp ht
      rfl

theorem cutFirst_ne_nil_iff : cutFirst timings ≠ [] ↔ timings ≠ [] := by
  unfold cutFirst
  split
  · rename_i hlong
    rw [Ne, List.drop_eq_nil_iff, not_le]
    exact ⟨fun _ hnil => by simp [hnil] at hlong, fun _ => hlong⟩
  · rfl

/-- **The report is defined exactly when there is a timing**, with the cut and without. -/
theorem report_defined_iff (timings : List Duration) :
    (report timings).Defined ↔ timings ≠ [] :=
  statistics_defined_iff.trans cutFirst_ne_nil_iff

end Hnet
