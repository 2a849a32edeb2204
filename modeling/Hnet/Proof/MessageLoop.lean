import Hnet.ClientProgram
import Mathlib.Algebra.Order.Ring.Int
import Mathlib.Tactic.Linarith

/-!
# When the message gets built

The loop adds the configured string until the message is long enough. An empty string adds nothing,
and a negative `data_len` is a `size_t` that no string reaches.
-/

namespace Hnet

/-- The loop ends with the least number of copies, one at least, that are `dataLen` bytes long. -/
def BuildsLeast (maxSize : Nat) (configured : Bytes) (dataLen : Int64) : Prop :=
  ∃ tests k, buildMessage maxSize configured dataLen tests = .done (copies k configured) ∧ 1 ≤ k
    ∧ dataLen.toInt ≤ (k * configured.length : Nat)
    ∧ ∀ j : Nat, 1 ≤ j → dataLen.toInt ≤ (j * configured.length : Nat) → k ≤ j

variable {maxSize : Nat} {configured data : Bytes} {bound : UInt64}

theorem buildMessage_eq (dataLen : Int64) (tests : Nat) :
    buildMessage maxSize configured dataLen tests
      = buildFrom maxSize configured dataLen.toUInt64 tests (copies 1 configured) := by
  rw [buildMessage, copies_one]

/-- `m` more copies are added while the message is too short. -/
theorem buildFrom_copies {k m : Nat} (hshort : ∀ j < m, (k + j) * configured.length < bound.toNat)
    (hfits : ∀ j < m, (k + j + 1) * configured.length ≤ maxSize)
    (hlong : bound.toNat ≤ (k + m) * configured.length) :
    buildFrom maxSize configured bound (m + 1) (copies k configured)
      = .done (copies (k + m) configured) := by
  induction m generalizing k with
  | zero =>
      have hnot : ¬ (copies k configured).length < bound.toNat := by
        rw [length_copies]
        exact not_lt.mpr hlong
      rw [buildFrom, if_neg hnot]
      rfl
  | succ m ih =>
      have hlt : (copies k configured).length < bound.toNat := by
        rw [length_copies]
        exact hshort 0 (Nat.succ_pos m)
      have hroom : (copies k configured).length + configured.length ≤ maxSize := by
        rw [length_copies, ← Nat.succ_mul]
        exact hfits 0 (Nat.succ_pos m)
      rw [buildFrom, if_pos hlt, if_pos hroom, copies_append, ih, Nat.add_right_comm, Nat.add_assoc]
      · intro j hj
        rw [Nat.add_right_comm, Nat.add_assoc]
        exact hshort (j + 1) (Nat.succ_lt_succ hj)
      · intro j hj
        rw [Nat.add_right_comm k 1 j, Nat.add_assoc k j 1]
        exact hfits (j + 1) (Nat.succ_lt_succ hj)
      · rw [Nat.add_right_comm, Nat.add_assoc]
        exact hlong

/-- A bound that no string reaches is not reached. -/
theorem buildFrom_unreachable (hbound : maxSize < bound.toNat) (hdata : data.length ≤ maxSize)
    (tests : Nat) (result : Bytes) :
    buildFrom maxSize configured bound tests data ≠ .done result := by
  induction tests generalizing data with
  | zero => exact nofun
  | succ tests ih =>
      rw [buildFrom, if_pos (hdata.trans_lt hbound)]
      split
      · rename_i hroom
        apply ih
        rwa [List.length_append]
      · exact nofun

theorem buildFrom_empty (hbound : 0 < bound.toNat) (tests : Nat) (result : Bytes) :
    buildFrom maxSize [] bound tests [] ≠ .done result := by
  induction tests with
  | zero => exact nofun
  | succ tests ih =>
      rw [buildFrom, if_pos (show ([] : Bytes).length < bound.toNat from hbound)]
      split
      · exact ih
      · exact nofun

/-- A loop that is done has had room for every string on the way. -/
theorem fits_of_buildFrom {k tests : Nat} {result : Bytes}
    (h : buildFrom maxSize configured bound tests (copies k configured) = .done result) :
    ∀ j, k ≤ j → j * configured.length < bound.toNat → (j + 1) * configured.length ≤ maxSize := by
  induction tests generalizing k with
  | zero => cases h
  | succ tests ih =>
      intro j hkj hshort
      have hlt : (copies k configured).length < bound.toNat := by
        rw [length_copies]
        exact (Nat.mul_le_mul_right _ hkj).trans_lt hshort
      rw [buildFrom, if_pos hlt] at h
      split at h
      · rename_i hroom
        rw [length_copies, ← Nat.succ_mul] at hroom
        rw [copies_append] at h
        rcases hkj.eq_or_lt with rfl | hlt
        · exact hroom
        · exact ih h j hlt hshort
      · cases h

theorem toNat_toUInt64_of_nonneg {x : Int64} (hpos : 0 ≤ x.toInt) :
    (x.toUInt64.toNat : Int) = x.toInt := by
  have hlt := x.toInt_lt
  rw [toNat_toUInt64]
  omega

theorem nonneg_of_done (hmax : maxSize < 2 ^ 63) (hconfigured : configured.length ≤ maxSize)
    {dataLen : Int64} {tests : Nat} {result : Bytes}
    (hdone : buildMessage maxSize configured dataLen tests = .done result) :
    0 ≤ dataLen.toInt := by
  by_contra hneg
  have hcast := toNat_toUInt64 dataLen
  have hlow := dataLen.le_toInt
  exact buildFrom_unreachable (by omega) hconfigured tests result hdone

theorem exists_long_enough (hgrows : configured ≠ [] ∨ bound.toNat = 0) :
    ∃ m, bound.toNat ≤ (1 + m) * configured.length := by
  rcases hgrows with hne | hzero
  · have hpos := List.length_pos_iff.mpr hne
    exact ⟨bound.toNat, by nlinarith⟩
  · exact ⟨0, by omega⟩

/-- **The message gets built exactly when `data_len` is not negative, there is something to add if
anything has to be added, and every string on the way fits.** -/
theorem buildsLeast_iff (hmax : maxSize < 2 ^ 63) (hconfigured : configured.length ≤ maxSize)
    (dataLen : Int64) :
    BuildsLeast maxSize configured dataLen ↔
      0 ≤ dataLen.toInt ∧ (configured ≠ [] ∨ dataLen.toInt = 0) ∧
        ∀ k : Nat, (k * configured.length : Nat) < dataLen.toInt →
          (k + 1) * configured.length ≤ maxSize := by
  constructor
  · rintro ⟨tests, k, hdone, _, _, _⟩
    have hnonneg := nonneg_of_done hmax hconfigured hdone
    have hcast := toNat_toUInt64_of_nonneg hnonneg
    refine ⟨hnonneg, ?_, ?_⟩
    · by_contra hnone
      obtain ⟨hempty, hne⟩ := not_or.mp hnone
      rw [not_not.mp hempty] at hdone
      exact buildFrom_empty (by omega) tests _ hdone
    · intro k hshort
      rcases Nat.eq_zero_or_pos k with rfl | hpos
      · rwa [Nat.zero_add, Nat.one_mul]
      · rw [buildMessage_eq] at hdone
        exact fits_of_buildFrom hdone k hpos (by omega)
  · rintro ⟨hnonneg, hgrows, hfits⟩
    have hcast := toNat_toUInt64_of_nonneg hnonneg
    have hexists : ∃ m, dataLen.toUInt64.toNat ≤ (1 + m) * configured.length :=
      exists_long_enough (hgrows.imp_right fun hzero => by omega)
    -- the loop stops at the first of them
    have hlong := Nat.find_spec hexists
    have hshort : ∀ j < Nat.find hexists, (1 + j) * configured.length < dataLen.toUInt64.toNat :=
      fun j hj => not_le.mp (Nat.find_min hexists hj)
    refine ⟨Nat.find hexists + 1, 1 + Nat.find hexists, ?_, Nat.le_add_right _ _, by omega, ?_⟩
    · rw [buildMessage_eq]
      refine buildFrom_copies hshort ?_ hlong
      intro j hj
      have hlt := hshort j hj
      exact hfits (1 + j) (by omega)
    · intro j hj hlongEnough
      have hmin := Nat.find_min' hexists (m := j - 1) (by
        rw [Nat.add_sub_cancel' hj]
        omega)
      omega

theorem buildsLeast_twice : BuildsLeast 4611686018427387903 [97, 98] 3 := by
  refine (buildsLeast_iff (by decide) (by decide) 3).mpr ⟨by decide, Or.inl (by decide), ?_⟩
  intro k hshort
  have hthree : (3 : Int64).toInt = 3 := rfl
  rw [hthree, List.length_cons, List.length_singleton] at hshort
  rw [List.length_cons, List.length_singleton]
  omega

/-- Nothing added to nothing is never a byte long. -/
theorem not_buildsLeast_empty : ¬ BuildsLeast 4611686018427387903 [] 1 := by
  rintro ⟨tests, k, hdone, _⟩
  exact buildFrom_empty (by decide) tests _ hdone

end Hnet
