import Hnet.Proof.RangeLoop
import Hnet.Strides

/-!
# Where an `xrange` ends

`calc_real_stop` rounds the number of strides up with a division that truncates. Its `- 1` is made
for a positive step and a range that is not empty. Elsewhere the result is off by a stride or more,
save for a few distances.
-/

namespace Hnet

/-! ### The rounded number of strides -/

/-- The number of strides that `calc_real_stop` adds to `start`. -/
def strideTerms (start stop step : Int) : Int := (stop - start - 1).tdiv step + 1

/-- The number of terms before `stop` is the rounded number of strides. -/
def TermsCounted (start stop step : Int) : Prop :=
  ∃ k : Nat, (k : Int) = strideTerms start stop step ∧
    ∀ j : Nat, Before stop step (start + j * step) ↔ j < k

/-- The ranges of a positive step that `calc_real_stop` is made for, and the empty ones on which
the quotient happens to be `-1`. -/
def UpExact (start stop step : Int) : Prop :=
  start < stop ∨ step ≤ start - stop + 1 ∧ start - stop + 1 < 2 * step

/-- For a negative step the `- 1` points the wrong way: it does no harm unless the distance, or the
number after it, is a multiple of the stride. -/
def DownExact (start stop step : Int) : Prop :=
  stop < start ∧ ¬ -step ∣ start - stop ∧ ¬ -step ∣ start - stop + 1 ∨
    -step ≤ stop - start - 1 ∧ stop - start - 1 < 2 * -step

section Terms

variable {start stop step : Int}

theorem termsCounted_up (hstep : 0 < step) :
    TermsCounted start stop step ↔ UpExact start stop step := by
  have hbefore : ∀ k : Nat, (∀ j : Nat, Before stop step (start + j * step) ↔ j < k) ↔
      CountsBelow (stop - start) step k := by
    intro k
    refine forall_congr' fun j => iff_congr ?_ Iff.rfl
    rw [Before, if_pos hstep]
    omega
  simp only [TermsCounted, hbefore, strideTerms, UpExact]
  by_cases hnonempty : start < stop
  · have hlast : 0 ≤ stop - start - 1 := by omega
    have hquot : 0 ≤ (stop - start - 1) / step := Int.ediv_nonneg hlast hstep.le
    simp only [countsBelow_of_pos hstep (show 0 < stop - start by omega),
      Int.tdiv_eq_ediv_of_nonneg hlast, hnonempty, true_or, iff_true, and_self]
    exact ⟨((stop - start - 1) / step + 1).toNat, by omega⟩
  · have hneg : (stop - start - 1).tdiv step = -((start - stop + 1) / step) := by
      rw [show stop - start - 1 = -(start - stop + 1) by omega, Int.neg_tdiv,
        Int.tdiv_eq_ediv_of_nonneg (by omega)]
    simp only [countsBelow_of_nonpos hstep (show stop - start ≤ 0 by omega), hneg, hnonempty,
      false_or]
    have hone := Int.ediv_eq_iff_of_pos (x := start - stop + 1) (y := 1) hstep
    constructor
    · rintro ⟨k, hk, hzero⟩
      omega
    · intro hrange
      exact ⟨0, by omega, rfl⟩

theorem termsCounted_down (hstep : step < 0) :
    TermsCounted start stop step ↔ DownExact start stop step := by
  have hstride : 0 < -step := by omega
  have hbefore : ∀ k : Nat, (∀ j : Nat, Before stop step (start + j * step) ↔ j < k) ↔
      CountsBelow (start - stop) (-step) k := by
    intro k
    refine forall_congr' fun j => iff_congr ?_ Iff.rfl
    rw [Before, if_neg (by omega), mul_neg]
    omega
  simp only [TermsCounted, hbefore, strideTerms, DownExact]
  by_cases hnonempty : stop < start
  · have hquot : (stop - start - 1).tdiv step = (start - stop + 1) / -step := by
      rw [show stop - start - 1 = -(start - stop + 1) by omega, ← Int.neg_tdiv_neg, neg_neg,
        Int.tdiv_eq_ediv_of_nonneg (by omega)]
    have hlast : 0 ≤ (start - stop - 1) / -step := Int.ediv_nonneg (by omega) hstride.le
    have heither := neighbours_ediv_eq_iff (a := start - stop) hstride
    simp only [countsBelow_of_pos hstride (show 0 < start - stop by omega), hquot, hnonempty,
      true_and]
    rw [or_iff_left (by omega), ← heither]
    constructor
    · rintro ⟨k, hk, hcount⟩
      omega
    · intro hsame
      exact ⟨((start - stop - 1) / -step + 1).toNat, by omega, by omega⟩
  · have hquot : (stop - start - 1).tdiv step = -(stop - start - 1).tdiv (-step) := by
      rw [Int.tdiv_neg, neg_neg]
    simp only [countsBelow_of_nonpos hstride (show start - stop ≤ 0 by omega), hquot, hnonempty,
      false_and, false_or]
    have hone := tdiv_eq_one_iff (a := stop - start - 1) hstride
    constructor
    · rintro ⟨k, hk, hzero⟩
      omega
    · intro hrange
      exact ⟨0, by omega, rfl⟩

end Terms

/-! ### The code -/

namespace Xrange

variable {start stop step : Int64}

theorem calcRealStop_toInt {r : Int64} (h : calcRealStop start stop step = .ok r) :
    r.toInt = start.toInt + strideTerms start.toInt stop.toInt step.toInt * step.toInt := by
  obtain ⟨distance, hdistance, h⟩ := bind_eq_ok h
  obtain ⟨last, hlast, h⟩ := bind_eq_ok h
  obtain ⟨strides, hstrides, h⟩ := bind_eq_ok h
  obtain ⟨terms, hterms, h⟩ := bind_eq_ok h
  obtain ⟨span, hspan, h⟩ := bind_eq_ok h
  have hquot : strides.toInt = last.toInt.tdiv step.toInt := by
    unfold i64Div at hstrides
    split at hstrides
    · cases hstrides
    · exact toInt_of_i64 hstrides
  rw [toInt_of_i64 h, toInt_of_i64 hspan, toInt_of_i64 hterms, hquot, toInt_of_i64 hlast,
    toInt_of_i64 hdistance, strideTerms]

theorem calcRealStop_ok (hstep : step ≠ 0)
    (hfits : calcRealStop start stop step ≠ .error .overflow) :
    ∃ r, calcRealStop start stop step = .ok r := by
  have hne : step.toInt ≠ 0 := fun h => hstep (Int64.toInt_inj.mp h)
  have htotal : OkOrOverflow (calcRealStop start stop step) :=
    okOrOverflow_bind (okOrOverflow_i64 _) fun _ =>
      okOrOverflow_bind (okOrOverflow_i64 _) fun _ =>
        okOrOverflow_bind (okOrOverflow_i64Div _ hne) fun _ =>
          okOrOverflow_bind (okOrOverflow_i64 _) fun _ =>
            okOrOverflow_bind (okOrOverflow_i64 _) fun _ => okOrOverflow_i64 _
  exact htotal.resolve_right hfits

theorem calcRealStop_zero_ne_ok (r : Int64) : calcRealStop start stop 0 ≠ .ok r := by
  intro h
  obtain ⟨distance, -, h⟩ := bind_eq_ok h
  obtain ⟨last, -, h⟩ := bind_eq_ok h
  obtain ⟨strides, hstrides, -⟩ := bind_eq_ok h
  rw [Int64.toInt_zero, i64Div_zero] at hstrides
  cases hstrides

theorem calcRealStop_zero_ne_assertion : calcRealStop start stop 0 ≠ .error .assertion := by
  intro h
  obtain h | ⟨distance, -, h⟩ := bind_eq_error h
  · exact i64_ne_assertion _ h
  obtain h | ⟨last, -, h⟩ := bind_eq_error h
  · exact i64_ne_assertion _ h
  rw [Int64.toInt_zero, i64Div_zero] at h
  cases h

/-- The division comes before the assertion on the step, which is never reached. -/
theorem new_zero_ne_assertion : new start stop 0 ≠ .error .assertion := by
  intro h
  obtain h | ⟨r, h, -⟩ := bind_eq_error h
  · exact calcRealStop_zero_ne_assertion h
  · exact calcRealStop_zero_ne_ok r h

end Xrange

/-- What `calc_real_stop` and the constructor are for: stepping from `start` meets the stop after
just the terms before it, and a step of zero is caught by the assertion. -/
structure RealStop (start stop step : Int64) : Prop where
  met : step ≠ 0 → ∃ (k : Nat) (r : Int64), Xrange.calcRealStop start stop step = .ok r ∧
    r.toInt = start.toInt + k * step.toInt ∧
    ∀ j : Nat, Before stop.toInt step.toInt (start.toInt + j * step.toInt) ↔ j < k
  asserted : step = 0 → Xrange.new start stop step = .error .assertion

/-- The ranges on which the rounding comes out right. -/
def RoundsRight (start stop step : Int) : Prop :=
  0 < step ∧ UpExact start stop step ∨ step < 0 ∧ DownExact start stop step

theorem termsCounted_iff {start stop step : Int} (hstep : step ≠ 0) :
    TermsCounted start stop step ↔ RoundsRight start stop step := by
  obtain hneg | hpos := lt_or_gt_of_ne hstep
  · rw [termsCounted_down hneg, RoundsRight]
    simp only [hneg, hneg.not_gt, false_and, true_and, false_or]
  · rw [termsCounted_up hpos, RoundsRight]
    simp only [hpos, hpos.not_gt, false_and, true_and, or_false]

/-- **The real stop is where the terms end exactly when the rounding comes out right.** -/
theorem realStop_iff {start stop step : Int64}
    (hfits : step ≠ 0 → Xrange.calcRealStop start stop step ≠ .error .overflow) :
    RealStop start stop step ↔ RoundsRight start.toInt stop.toInt step.toInt := by
  by_cases hstep : step = 0
  · have hzero : step.toInt = 0 := by rw [hstep, Int64.toInt_zero]
    refine iff_of_false ?_ ?_
    · intro hreal
      have hassert := hreal.asserted hstep
      rw [hstep] at hassert
      exact Xrange.new_zero_ne_assertion hassert
    · rw [RoundsRight, hzero]
      omega
  · have hne : step.toInt ≠ 0 := fun h => hstep (Int64.toInt_inj.mp h)
    obtain ⟨r, hr⟩ := Xrange.calcRealStop_ok hstep (hfits hstep)
    have htoInt := Xrange.calcRealStop_toInt hr
    rw [← termsCounted_iff hne]
    constructor
    · intro hreal
      obtain ⟨k, r', hr', hmet, hcount⟩ := hreal.met hstep
      refine ⟨k, ?_, hcount⟩
      rw [hr] at hr'
      cases hr'
      rw [htoInt] at hmet
      exact (mul_right_cancel₀ hne (add_left_cancel hmet)).symm
    · rintro ⟨k, hk, hcount⟩
      refine ⟨fun _ => ⟨k, r, hr, ?_, hcount⟩, fun h => absurd h hstep⟩
      rw [htoInt, hk]

theorem realStop_ten : RealStop 0 10 3 :=
  (realStop_iff (by decide)).mpr (.inl ⟨by decide, .inl (by decide)⟩)

/-- From `10` there is no term before `1`, but the result is `1`, nine strides behind. -/
theorem not_realStop_backwards : ¬ RealStop 10 1 1 := by
  intro hreal
  obtain ⟨k, r, hr, hmet, hcount⟩ := hreal.met (by decide)
  have hone : Xrange.calcRealStop 10 1 1 = .ok 1 := by decide
  rw [hone] at hr
  cases hr
  have hten : Int64.toInt 10 = 10 := by decide
  have hstep : Int64.toInt 1 = 1 := by decide
  rw [hten, hstep] at hmet
  omega

end Hnet
