import Hnet.Five.Linux
import Mathlib.Data.Nat.Bitwise
import Mathlib.Tactic.ByContra

/-!
# The CPUs of a mask

The loop of `set_affinity` is bounded by the size of the mask in bytes, so it sees the lowest eight
bits. The CPU set is right exactly when no other bit is set.
-/

namespace Hnet

/-- The set passed to the kernel, whatever the kernel does with it, has the CPUs of the mask and no
others. -/
def PassesMask (mask : UInt64) : Prop :=
  ∃ cpus : CpuSet,
    (∀ sched, setAffinity sched mask = sched 0 sizeofCpuSet cpus)
      ∧ (∀ i < 64, cpus.has i = mask.toNat.testBit i) ∧ ∀ i, 64 ≤ i → cpus.has i = false

theorem eq_affinityCpus {mask : UInt64} {cpus : CpuSet}
    (h : ∀ sched, setAffinity sched mask = sched 0 sizeofCpuSet cpus) :
    cpus = affinityCpus mask := by
  have htold := h fun _ _ passed => if passed = cpus then 1 else 0
  rw [setAffinity, if_pos rfl] at htold
  by_contra hne
  rw [if_neg (Ne.symm hne)] at htold
  exact absurd htold (by decide)

namespace CpuSet

variable {cpuset : CpuSet} {i k : Nat}

theorem has_set (hi : i < 1024) : (cpuset.set i).has k = (cpuset.has k || decide (k = i)) := by
  have hone : (1#1024 <<< i).getLsbD k = decide (k = i) := by
    rw [BitVec.getLsbD_shiftLeft]
    by_cases heq : k = i
    · subst heq
      simp [hi]
    · by_cases hlt : k < i
      · simp [hlt, heq]
      · have hne : k - i ≠ 0 := by omega
        simp [heq, BitVec.getLsbD_one, hne]
  rw [has, set, BitVec.getLsbD_or, hone]
  rfl

theorem has_foldl_set {p : Nat → Prop} [DecidablePred p] (is : List Nat) (his : ∀ i ∈ is, i < 1024)
    (cpuset : CpuSet) :
    (is.foldl (fun cpuset i => if p i then cpuset.set i else cpuset) cpuset).has k
      = (cpuset.has k || decide (k ∈ is ∧ p k)) := by
  induction is generalizing cpuset with
  | nil => simp
  | cons i is ih =>
      have hrest : ∀ j ∈ is, j < 1024 := fun j hj => his j (List.mem_cons_of_mem i hj)
      rw [List.foldl_cons, ih hrest]
      by_cases hp : p i
      · rw [if_pos hp, has_set (his i List.mem_cons_self)]
        by_cases heq : k = i
        · simp [heq, hp]
        · simp [heq]
      · rw [if_neg hp]
        by_cases heq : k = i
        · simp [heq, hp]
        · simp [heq]

end CpuSet

/-- The test of the loop reads one bit. -/
theorem and_shiftLeft_ne_zero (mask : UInt64) {i : Nat} (hi : i < 64) :
    mask &&& ((1 : UInt64) <<< UInt64.ofNat i) ≠ 0 ↔ mask.toNat.testBit i = true := by
  have hofNat : (UInt64.ofNat i).toNat = i := UInt64.toNat_ofNat_of_lt' (show i < 2 ^ 64 by omega)
  have hpow : ((1 : UInt64) <<< UInt64.ofNat i).toNat = 2 ^ i := by
    rw [UInt64.toNat_shiftLeft, hofNat, Nat.mod_eq_of_lt hi, UInt64.toNat_one, Nat.one_shiftLeft]
    exact Nat.mod_eq_of_lt (Nat.pow_lt_pow_right (by decide) hi)
  rw [Ne, ← UInt64.toNat_inj, UInt64.toNat_and, hpow, UInt64.toNat_zero, Nat.and_two_pow]
  cases mask.toNat.testBit i with
  | false => simp
  | true => simp

theorem has_affinityCpus (mask : UInt64) (k : Nat) :
    (affinityCpus mask).has k = (decide (k < 8) && mask.toNat.testBit k) := by
  have hcpus : ∀ i ∈ List.range sizeofU64, i < 1024 := by decide
  rw [affinityCpus, CpuSet.has_foldl_set _ hcpus]
  have hempty : CpuSet.has 0 k = false := BitVec.getLsbD_zero
  rw [hempty, Bool.false_or]
  by_cases hk : k < 8
  · have hbit := and_shiftLeft_ne_zero mask (show k < 64 by omega)
    simp only [List.mem_range, sizeofU64, hk, true_and, hbit, decide_true, Bool.true_and,
      Bool.decide_eq_true]
  · simp only [List.mem_range, sizeofU64, hk, false_and, decide_false, Bool.false_and]

/-- **`set_affinity` passes the mask exactly when it names none of the CPUs from 8 on.** -/
theorem passesMask_iff (mask : UInt64) : PassesMask mask ↔ mask.toNat < 256 := by
  rw [show 256 = 2 ^ 8 by decide]
  constructor
  · rintro ⟨cpus, hpassed, hlow, _⟩
    obtain rfl := eq_affinityCpus hpassed
    apply Nat.lt_pow_two_of_testBit
    intro i hi
    by_cases hlt : i < 64
    · rw [← hlow i hlt, has_affinityCpus, decide_eq_false (not_lt.mpr hi), Bool.false_and]
    · apply Nat.testBit_lt_two_pow
      exact mask.toNat_lt.trans_le (Nat.pow_le_pow_right (by decide) (not_lt.mp hlt))
  · intro hlt
    have hhigh : ∀ i, 8 ≤ i → mask.toNat.testBit i = false := by
      intro i hi
      apply Nat.testBit_lt_two_pow
      exact hlt.trans_le (Nat.pow_le_pow_right (by decide) hi)
    refine ⟨affinityCpus mask, fun _ => rfl, ?_, ?_⟩
    · intro i _
      rw [has_affinityCpus]
      by_cases hi : i < 8
      · rw [decide_eq_true hi, Bool.true_and]
      · rw [decide_eq_false hi, Bool.false_and, hhigh i (not_lt.mp hi)]
    · intro i hi
      rw [has_affinityCpus, decide_eq_false (by omega), Bool.false_and]

/-- The ninth CPU alone. -/
theorem not_passesMask_ninth : ¬ PassesMask 256 := by
  rintro ⟨cpus, hpassed, hlow, _⟩
  obtain rfl := eq_affinityCpus hpassed
  have hninth := hlow 8 (by decide)
  rw [has_affinityCpus] at hninth
  exact absurd hninth (by decide)

end Hnet
