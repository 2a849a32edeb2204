import Mathlib.Algebra.Group.Nat.Defs
import Mathlib.Data.Nat.Bits

/-!
# Tagged words

A word of which a mask sets some bits apart for a tag. The rest of it is the aligned part.
-/

namespace Hnet

namespace TaggedWord

variable {w : Nat}

def aligned (mask x : BitVec w) : BitVec w := x &&& ~~~mask

/-- The word `x` with the tag `t` in place of its own. -/
def setTag (mask x t : BitVec w) : BitVec w := x &&& ~~~mask ||| t &&& mask

theorem aligned_setTag (mask x t : BitVec w) : aligned mask (setTag mask x t) = aligned mask x := by
  ext i hi
  simp only [aligned, setTag, BitVec.getElem_and, BitVec.getElem_or, BitVec.getElem_not]
  cases mask[i] <;> simp

theorem setTag_and (mask x t : BitVec w) : setTag mask x t &&& mask = t &&& mask := by
  ext i hi
  simp only [setTag, BitVec.getElem_and, BitVec.getElem_or, BitVec.getElem_not]
  cases mask[i] <;> simp

/-- The tag and the aligned part make up the word. -/
theorem aligned_or_and (mask x : BitVec w) : aligned mask x ||| x &&& mask = x := by
  ext i hi
  simp only [aligned, BitVec.getElem_and, BitVec.getElem_or, BitVec.getElem_not]
  cases mask[i] <;> simp

theorem aligned_of_and_eq_zero {mask x : BitVec w} (h : x &&& mask = 0#w) :
    aligned mask x = x := by
  have hjoin := aligned_or_and mask x
  rwa [h, BitVec.or_zero] at hjoin

/-! ### The low bits as the tag -/

def lowMask (w b : Nat) : BitVec w := (1#w <<< b) - 1#w

theorem toNat_lowMask {b : Nat} (hb : b < w) : (lowMask w b).toNat = 2 ^ b - 1 := by
  have hone : 1 % 2 ^ w = 1 := Nat.mod_eq_of_lt (Nat.one_lt_two_pow (by omega))
  have hlt : 2 ^ b < 2 ^ w := Nat.pow_lt_pow_right (by decide) hb
  have hpos : 1 ≤ 2 ^ b := Nat.one_le_two_pow
  have hshift : (1#w <<< b).toNat = 2 ^ b := by
    rw [BitVec.toNat_shiftLeft, BitVec.toNat_ofNat, hone, Nat.shiftLeft_eq, one_mul,
      Nat.mod_eq_of_lt hlt]
  have hle : 1#w ≤ 1#w <<< b := by
    rw [BitVec.le_def, hshift, BitVec.toNat_ofNat, hone]
    exact hpos
  rw [lowMask, BitVec.toNat_sub_of_le hle, hshift, BitVec.toNat_ofNat, hone]

theorem toNat_and_lowMask {b : Nat} (hb : b < w) (x : BitVec w) :
    (x &&& lowMask w b).toNat = x.toNat % 2 ^ b := by
  rw [BitVec.toNat_and, toNat_lowMask hb, Nat.and_two_pow_sub_one_eq_mod]

/-- A multiple of `2 ^ b` has no bit under the mask. -/
theorem aligned_of_dvd {b : Nat} (hb : b < w) {x : BitVec w} (h : x.toNat % 2 ^ b = 0) :
    aligned (lowMask w b) x = x := by
  refine aligned_of_and_eq_zero (BitVec.eq_of_toNat_eq ?_)
  rw [toNat_and_lowMask hb, h]
  rfl

end TaggedWord

end Hnet
