import Hnet.Proof.Statistics

/-!
# What the reported quantiles mean

A reported quantile splits the timings in its proportion, whatever the timings are and in whatever
order the fibers have pushed them. The rank is a product of doubles, which may fall below an integer
that the exact product reaches, so the split is one of a share at most and a share at least.
-/

namespace Hnet

open OrderStatistics

variable {timings : List Duration}

/-- At most this share of the timings, in percent, are less than `t`, and at least it are not
greater. -/
def SplitsAt (timings : List Duration) (quantile : ℚ) (t : Duration) : Prop :=
  timings.countP (fun u => u.nanos.toInt < t.nanos.toInt) * 100 ≤ timings.length * quantile ∧
    timings.length * quantile ≤ timings.countP (fun u => u.nanos.toInt ≤ t.nanos.toInt) * 100

theorem quantiles_hundredths {quantile : ℚ} (h : quantile ∈ quantiles) :
    quantile = ⌊quantile * 100⌋₊ / 100 := by
  revert quantile
  decide +kernel

/-- Up to `2 ^ 37` timings the error of the product is less than one of the units in which the exact
one is an integer. -/
theorem abs_product_sub_lt {size : Nat} {quantile : ℚ} (hsize : 0 < size) (hle : size ≤ 2 ^ 37)
    (hpos : 0 < quantile) (hbelow : quantile ≤ 99.99) :
    |double (double size * double (double quantile / 100)) - size * (quantile / 100)|
      < 1 / 10000 := by
  have hn : (0 : ℚ) < size := Nat.cast_pos.mpr hsize
  obtain ⟨hlow, hhigh⟩ := within_product hsize hpos
  set exact := (size : ℚ) * (quantile / 100)
  set product := double (double size * double (double quantile / 100))
  have hsmall : exact ≤ 2 ^ 37 := by
    calc exact ≤ size * 1 := mul_le_mul_of_nonneg_left (by linarith) hn.le
      _ ≤ 2 ^ 37 := by
          rw [mul_one]
          exact_mod_cast hle
  have hup : product - exact < 1 / 10000 := by
    calc product - exact ≤ exact * ((1 + 1 / 2 ^ 53) ^ 4 - 1) := by linarith
      _ ≤ 2 ^ 37 * ((1 + 1 / 2 ^ 53) ^ 4 - 1) :=
          mul_le_mul_of_nonneg_right hsmall (by norm_num)
      _ < 1 / 10000 := by norm_num
  have hdown : exact - product < 1 / 10000 := by
    calc exact - product ≤ exact * (1 - (1 - 1 / 2 ^ 53) ^ 4) := by linarith
      _ ≤ 2 ^ 37 * (1 - (1 - 1 / 2 ^ 53) ^ 4) :=
          mul_le_mul_of_nonneg_right hsmall (by norm_num)
      _ < 1 / 10000 := by norm_num
  exact abs_lt.mpr ⟨by linarith, hup⟩

/-- The index is the floor of the exact product or, when that is an integer, perhaps one less. -/
theorem quantileIdx_bounds {size : Nat} {quantile : ℚ} (hsize : 0 < size) (hle : size ≤ 2 ^ 37)
    (hmem : quantile ∈ quantiles) :
    (quantileIdx size quantile : ℚ) * 100 ≤ size * quantile ∧
      size * quantile ≤ (quantileIdx size quantile + 1) * 100 := by
  obtain ⟨hpos, hbelow⟩ := quantiles_bounds hmem
  obtain ⟨k, hk⟩ : ∃ k : Nat, quantile = k / 100 := ⟨_, quantiles_hundredths hmem⟩
  have hexact : (size : ℚ) * (quantile / 100) = ((size * k : Nat) : ℚ) / (10000 : Nat) := by
    rw [hk]
    push_cast
    ring
  have hnear := abs_product_sub_lt hsize hle hpos hbelow
  rw [hexact] at hnear
  obtain ⟨hlow, hhigh⟩ := Rounding.floor_of_near (product_pos hsize hpos).le (by decide) hnear
  have hscaled : (size : ℚ) * quantile * 100 = ((size * k : Nat) : ℚ) := by
    rw [hk]
    push_cast
    ring
  have hlow' : ((quantileIdx size quantile * 10000 : Nat) : ℚ) ≤ (size * k : Nat) :=
    Nat.cast_le.mpr hlow
  have hhigh' : ((size * k : Nat) : ℚ) ≤ ((quantileIdx size quantile + 1) * 10000 : Nat) :=
    Nat.cast_le.mpr hhigh
  rw [← hscaled] at hlow' hhigh'
  push_cast at hlow' hhigh'
  exact ⟨by linarith, by linarith⟩

/-- Ninety-nine and ninety-nine hundredths of a percent of `10000` as `double`s are less than
`9999`. -/
example : quantileIdx 10000 99.99 = 9998 := by decide +kernel

theorem SplitsAt.of_perm {timings' : List Duration} (hperm : timings.Perm timings')
    {quantile : ℚ} {t : Duration} (h : SplitsAt timings quantile t) :
    SplitsAt timings' quantile t := by
  rw [SplitsAt, ← hperm.countP_eq, ← hperm.countP_eq, ← hperm.length_eq]
  exact h

theorem splitsAt_statistics (hne : timings ≠ []) (hsize : timings.length ≤ 2 ^ 37) :
    List.Forall₂ (fun quantile t => ∃ u ∈ timings, t = some u ∧ SplitsAt timings quantile u)
      quantiles (statistics timings).quantiles := by
  have hperm : (timings.insertionSort Sorts).Perm timings := List.perm_insertionSort Sorts timings
  have hpos : 0 < (timings.insertionSort Sorts).length := by
    rw [hperm.length_eq]
    exact List.length_pos_iff.mpr hne
  rw [statistics_eq hne { nanos := 0 }]
  simp only [List.forall₂_map_right_iff]
  apply List.forall₂_same.mpr
  intro quantile hmem
  have hrank := quantileIdx_lt hpos (quantiles_bounds hmem).1 (quantiles_bounds hmem).2
  obtain ⟨hlow, hhigh⟩ := quantileIdx_bounds hpos (hperm.length_eq ▸ hsize) hmem
  have hlt := countP_lt_getD (pairwise_sorted timings) hrank { nanos := 0 }
  have hle := lt_countP_le_getD (pairwise_sorted timings) hrank { nanos := 0 }
  refine ⟨_, hperm.mem_iff.mp (getD_mem hrank _), rfl, SplitsAt.of_perm hperm ⟨?_, ?_⟩⟩
  · refine le_trans ?_ hlow
    gcongr
  · refine hhigh.trans ?_
    gcongr
    exact_mod_cast Nat.succ_le_of_lt hle

/-- **Every reported quantile splits the timings that are kept in its proportion**, in the reports
of both clients, if no more than `2 ^ 37` are kept. -/
theorem reports_split (hne : timings ≠ []) (hsize : (cutFirst timings).length ≤ 2 ^ 37) :
    List.Forall₂ (fun quantile t => ∃ u ∈ cutFirst timings, t = some u
        ∧ SplitsAt (cutFirst timings) quantile u) quantiles (report timings).quantiles ∧
      (cliReport timings).quantiles = (report timings).quantiles :=
  ⟨splitsAt_statistics (cutFirst_ne_nil_iff.mpr hne) hsize, rfl⟩

theorem reports_split_four :
    List.Forall₂ (fun quantile t => ∃ u ∈ cutFirst [⟨30⟩, ⟨10⟩, ⟨40⟩, ⟨20⟩], t = some u
        ∧ SplitsAt (cutFirst [⟨30⟩, ⟨10⟩, ⟨40⟩, ⟨20⟩]) quantile u)
      quantiles (report [⟨30⟩, ⟨10⟩, ⟨40⟩, ⟨20⟩]).quantiles ∧
      (report [⟨30⟩, ⟨10⟩, ⟨40⟩, ⟨20⟩]).quantiles
        = [some ⟨30⟩, some ⟨40⟩, some ⟨40⟩, some ⟨40⟩, some ⟨40⟩, some ⟨40⟩] :=
  ⟨(reports_split (by decide) (by decide)).1, by decide +kernel⟩

end Hnet
