import Hnet.Five.Time
import Mathlib.Algebra.Order.Ring.Int
import Mathlib.Data.Int.Order.Basic

/-!
# What a duration is turned into

Division and remainder truncate toward zero, so the two members of a timespec always add up to the
duration, but the second is negative for a negative duration of no whole number of seconds. Printing
divides only what is above the threshold of its unit, and rounds down there.
-/

namespace Hnet

/-! ### Timespecs -/

/-- The timespec is one that the kernel accepts, is `x` nanoseconds, and is read back as that. -/
structure TimespecExact (x : Int64) (ts : Timespec) : Prop where
  valid : 0 ≤ ts.tvNsec.toInt ∧ ts.tvNsec.toInt < 1000000000
  exact : ts.tvSec.toInt * 1000000000 + ts.tvNsec.toInt = x.toInt
  back : TimeBase.ofTimespec ts = .ok { nanos := x }

namespace TimeBase

variable (x : Int64)

theorem toInt_tvSec : (asTimespec ⟨x⟩).tvSec.toInt = x.toInt.tdiv 1000000000 :=
  Int64.toInt_div_of_ne_right x 1000000000 (by decide)

theorem toInt_tvNsec : (asTimespec ⟨x⟩).tvNsec.toInt = x.toInt.tmod 1000000000 :=
  Int64.toInt_mod x 1000000000

theorem asTimespec_exact :
    (asTimespec ⟨x⟩).tvSec.toInt * 1000000000 + (asTimespec ⟨x⟩).tvNsec.toInt = x.toInt := by
  rw [toInt_tvSec, toInt_tvNsec]
  exact Int.tdiv_mul_add_tmod x.toInt 1000000000

/-- The seconds are no farther from zero than the duration, so nothing overflows on the way back. -/
theorem ofTimespec_asTimespec : ofTimespec (asTimespec ⟨x⟩) = .ok ⟨x⟩ := by
  have hlow := x.le_toInt
  have hhigh := x.toInt_lt
  have hsum := asTimespec_exact x
  have hnsec : (asTimespec ⟨x⟩).tvNsec.toInt = x.toInt.tmod 1000000000 := toInt_tvNsec x
  have hsecs : -2 ^ 63 ≤ (asTimespec ⟨x⟩).tvSec.toInt * 1000000000
      ∧ (asTimespec ⟨x⟩).tvSec.toInt * 1000000000 < 2 ^ 63 := by
    have hsecond : (0 : Int) ≤ 1000000000 := by decide
    rcases Int.le_total 0 x.toInt with hpos | hneg
    · have hrem := Int.tmod_nonneg 1000000000 hpos
      have hquot := Int.tdiv_nonneg hpos hsecond
      rw [← toInt_tvSec] at hquot
      omega
    · have hrem := Int.tmod_nonneg 1000000000 (Int.neg_nonneg.mpr hneg)
      have hquot := Int.tdiv_nonneg (Int.neg_nonneg.mpr hneg) hsecond
      rw [Int.neg_tmod] at hrem
      rw [Int.neg_tdiv, ← toInt_tvSec] at hquot
      omega
  have hback := Int64.toInt_ofInt_of_le hsecs.1 hsecs.2
  rw [ofTimespec, i64_of_fits hsecs.1 hsecs.2]
  simp only [Except.bind, bind, hback, hsum, i64_toInt]
  rfl

end TimeBase

theorem tmod_nonneg_iff (x : Int) : 0 ≤ x.tmod 1000000000 ↔ 0 ≤ x ∨ 1000000000 ∣ x := by
  rcases Int.le_total 0 x with hpos | hneg
  · exact ⟨fun _ => Or.inl hpos, fun _ => Int.tmod_nonneg 1000000000 hpos⟩
  · have hrem := Int.tmod_nonneg 1000000000 (Int.neg_nonneg.mpr hneg)
    rw [Int.neg_tmod] at hrem
    constructor
    · intro h
      exact Or.inr (Int.dvd_of_tmod_eq_zero (le_antisymm (by omega) h))
    · rintro (hpos | hdvd)
      · exact Int.tmod_nonneg 1000000000 hpos
      · exact (Int.tmod_eq_zero_of_dvd hdvd).ge

theorem timespecExact_iff_valid (x : Int64) :
    TimespecExact x (TimeBase.asTimespec ⟨x⟩) ↔ 0 ≤ x.toInt ∨ 1000000000 ∣ x.toInt := by
  rw [← tmod_nonneg_iff, ← TimeBase.toInt_tvNsec]
  constructor
  · intro h
    exact h.valid.1
  · intro h
    refine ⟨⟨h, ?_⟩, TimeBase.asTimespec_exact x, TimeBase.ofTimespec_asTimespec x⟩
    rw [TimeBase.toInt_tvNsec]
    exact Int.tmod_lt_of_pos x.toInt (by decide)

/-- **A duration is a valid timespec exactly when it is not negative or a whole number of
seconds.** -/
theorem timespecExact_iff (x : Int64) :
    (TimespecExact x (TimeBase.asTimespec ⟨x⟩) ∧ TimespecExact x (TimeBase.asKernelTimespec ⟨x⟩)) ↔
      0 ≤ x.toInt ∨ 1000000000 ∣ x.toInt := by
  have hsame : TimeBase.asKernelTimespec ⟨x⟩ = TimeBase.asTimespec ⟨x⟩ := rfl
  rw [hsame, and_self]
  exact timespecExact_iff_valid x

/-- A timed receive of -1 ns. -/
theorem not_timespecExact_minusOne :
    ¬ (TimespecExact (-1) (TimeBase.asTimespec ⟨-1⟩)
      ∧ TimespecExact (-1) (TimeBase.asKernelTimespec ⟨-1⟩)) := by
  rintro ⟨_, hkernel⟩
  exact absurd hkernel.valid.1 (by decide)

/-! ### Printed durations -/

/-- The duration a printed one stands for. -/
def Printed.nanos (p : Printed) : Option Int := (unitNanos p.unit).map fun u => p.value.toInt * u

/-- `p` shows `x` nanoseconds rounded down to its unit of `u` nanoseconds. -/
structure Shows (p : Printed) (u x : Int) : Prop where
  unit : unitNanos p.unit = some u
  below : p.value.toInt * u ≤ x
  above : x < (p.value.toInt + 1) * u
  error : u ≠ 1 → 2 * u ≤ x
  short : u ≠ 1000000000 → p.value.toInt ≤ 2000

def unitOf (x : Int) : Int :=
  if 2000000000 < x then 1000000000
  else if 2000000 < x then 1000000
  else if 2000 < x then 1000
  else 1

def roundedDown (x : Int) : Int := x.tdiv (unitOf x) * unitOf x

theorem unitOf_cases (x : Int) :
    (x ≤ 2000 ∧ unitOf x = 1) ∨ (2000 < x ∧ x ≤ 2000000 ∧ unitOf x = 1000) ∨
    (2000000 < x ∧ x ≤ 2000000000 ∧ unitOf x = 1000000) ∨
    (2000000000 < x ∧ unitOf x = 1000000000) := by
  unfold unitOf
  split_ifs <;> omega

theorem scaleAndUnit_eq (x : Int64) :
    (scaleAndUnit x).1.toInt = unitOf x.toInt
      ∧ unitNanos (scaleAndUnit x).2 = some (unitOf x.toInt) := by
  have h₁ : (2000 : Int64) < x ↔ 2000 < x.toInt := Int64.lt_iff_toInt_lt
  have h₂ : (2000000 : Int64) < x ↔ 2000000 < x.toInt := Int64.lt_iff_toInt_lt
  have h₃ : (2000000000 : Int64) < x ↔ 2000000000 < x.toInt := Int64.lt_iff_toInt_lt
  simp only [scaleAndUnit, unitOf, h₁, h₂, h₃]
  rcases unitOf_cases x.toInt with ⟨hle, _⟩ | ⟨hlow, hle, _⟩ | ⟨hlow, hle, _⟩ | ⟨hlow, _⟩
  · rw [if_neg (by omega), if_neg (by omega), if_neg (by omega), if_neg (by omega),
      if_neg (by omega), if_neg (by omega)]
    exact ⟨rfl, rfl⟩
  · rw [if_neg (by omega), if_neg (by omega), if_pos hlow, if_neg (by omega), if_neg (by omega),
      if_pos hlow]
    exact ⟨rfl, rfl⟩
  · rw [if_neg (by omega), if_pos hlow, if_pos (by omega), if_neg (by omega), if_pos hlow]
    exact ⟨rfl, rfl⟩
  · rw [if_pos hlow, if_pos (by omega), if_pos (by omega), if_pos hlow]
    exact ⟨rfl, rfl⟩

theorem unitNanos_print (x : Int64) :
    unitNanos (Duration.print ⟨x⟩).unit = some (unitOf x.toInt) := (scaleAndUnit_eq x).2

theorem value_print (x : Int64) :
    (Duration.print ⟨x⟩).value.toInt = x.toInt.tdiv (unitOf x.toInt) := by
  have hscale := (scaleAndUnit_eq x).1
  have hne : (scaleAndUnit x).1 ≠ -1 := by
    intro heq
    have hminus : ((-1 : Int64)).toInt = -1 := by decide
    rw [heq, hminus] at hscale
    rcases unitOf_cases x.toInt with ⟨_, h⟩ | ⟨_, _, h⟩ | ⟨_, _, h⟩ | ⟨_, h⟩ <;> omega
  rw [← hscale]
  exact Int64.toInt_div_of_ne_right x _ hne

theorem nanos_print (x : Int64) :
    (Duration.print ⟨x⟩).nanos = some (roundedDown x.toInt) := by
  rw [Printed.nanos, unitNanos_print, Option.map_some, value_print, roundedDown]

theorem print_shows {x : Int64} (h : 0 ≤ x.toInt) :
    Shows (Duration.print ⟨x⟩) (unitOf x.toInt) x.toInt := by
  have hvalue := value_print x
  rw [Int.tdiv_eq_ediv_of_nonneg h] at hvalue
  have hnanos := unitNanos_print x
  rcases unitOf_cases x.toInt with ⟨_, hunit⟩ | ⟨_, _, hunit⟩ | ⟨_, _, hunit⟩ | ⟨_, hunit⟩
  all_goals
    rw [hunit] at hvalue hnanos ⊢
    exact ⟨hnanos, by omega, by omega, by omega, by omega⟩

/-- Rounding is down to a multiple of the unit that is no less than twice the unit. -/
theorem roundedDown_bounds (x : Int) :
    roundedDown x ≤ x ∧ (unitOf x = 1 → roundedDown x = x)
      ∧ (unitOf x ≠ 1 → 2 * unitOf x ≤ roundedDown x) := by
  rcases unitOf_cases x with ⟨_, hunit⟩ | ⟨_, _, hunit⟩ | ⟨_, _, hunit⟩ | ⟨_, hunit⟩
  · rw [roundedDown, hunit, Int.tdiv_one]
    omega
  all_goals
    rw [roundedDown, hunit, Int.tdiv_eq_ediv_of_nonneg (by omega)]
    omega

theorem roundedDown_mono {x y : Int} (h : x ≤ y) : roundedDown x ≤ roundedDown y := by
  obtain ⟨hle, _, _⟩ := roundedDown_bounds x
  obtain ⟨_, hexact, htwo⟩ := roundedDown_bounds y
  by_cases hsame : unitOf x = unitOf y
  · by_cases hone : unitOf y = 1
    · rw [hexact hone]
      exact hle.trans h
    · have hpos : 0 ≤ x := by
        rcases unitOf_cases x with ⟨_, _⟩ | ⟨_, _, _⟩ | ⟨_, _, _⟩ | ⟨_, _⟩ <;> omega
      have hunit : 0 < unitOf y := by
        rcases unitOf_cases y with ⟨_, _⟩ | ⟨_, _, _⟩ | ⟨_, _, _⟩ | ⟨_, _⟩ <;> omega
      rw [roundedDown, roundedDown, hsame, Int.tdiv_eq_ediv_of_nonneg hpos,
        Int.tdiv_eq_ediv_of_nonneg (hpos.trans h)]
      exact mul_le_mul_of_nonneg_right (Int.ediv_le_ediv hunit h) hunit.le
  · -- `x` is below the threshold of the unit of `y`, which is twice that unit
    have hthreshold : x ≤ 2 * unitOf y ∧ unitOf y ≠ 1 := by
      rcases unitOf_cases x with ⟨_, _⟩ | ⟨_, _, _⟩ | ⟨_, _, _⟩ | ⟨_, _⟩ <;>
        rcases unitOf_cases y with ⟨_, _⟩ | ⟨_, _, _⟩ | ⟨_, _, _⟩ | ⟨_, _⟩ <;> omega
    exact hle.trans (hthreshold.1.trans (htwo hthreshold.2))

/-- **A printed duration is off by less than half of it, and the order of durations is kept.** -/
theorem print_accurate :
    (∀ x : Int64, 0 ≤ x.toInt → ∃ u, Shows (Duration.print ⟨x⟩) u x.toInt) ∧
      ∀ x y : Int64, x.toInt ≤ y.toInt → ∃ v w, (Duration.print ⟨x⟩).nanos = some v
        ∧ (Duration.print ⟨y⟩).nanos = some w ∧ v ≤ w := by
  constructor
  · intro x hpos
    exact ⟨unitOf x.toInt, print_shows hpos⟩
  · intro x y hle
    exact ⟨_, _, nanos_print x, nanos_print y, roundedDown_mono hle⟩

example : (Duration.print ⟨2000001⟩).text = "2ms" := by decide

theorem print_accurate_twoThousand :
    (∃ u, Shows (Duration.print ⟨2000⟩) u 2000) ∧ ∃ v w, (Duration.print ⟨2000⟩).nanos = some v
      ∧ (Duration.print ⟨2001⟩).nanos = some w ∧ v ≤ w :=
  ⟨print_accurate.1 2000 (by decide), print_accurate.2 2000 2001 (by decide)⟩

end Hnet
