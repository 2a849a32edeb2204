import Mathlib.Algebra.Group.Nat.Defs

/-!
# Numbers in memory

A number of a fixed width as the bytes that a little-endian machine keeps for it, and the swap of
them that such a machine makes for the network.
-/

namespace ByteOrder

/-- The `width` bytes kept for `x`, the least significant one first. -/
def bytesOf : (width : ℕ) → ℕ → List UInt8
  | 0, _ => []
  | width + 1, x => UInt8.ofNat x :: bytesOf width (x / 256)

/-- The number read from these bytes. -/
def ofBytes : List UInt8 → ℕ
  | [] => 0
  | byte :: bytes => byte.toNat + 256 * ofBytes bytes

/-- The number whose bytes are those of `x` in the opposite order. -/
def swap (width x : ℕ) : ℕ := ofBytes (bytesOf width x).reverse

@[simp]
theorem length_bytesOf (width x : ℕ) : (bytesOf width x).length = width := by
  induction width generalizing x with
  | zero => rfl
  | succ width ih => rw [bytesOf, List.length_cons, ih]

theorem ofBytes_lt (bytes : List UInt8) : ofBytes bytes < 256 ^ bytes.length := by
  induction bytes with
  | nil => exact Nat.one_pos
  | cons byte bytes ih =>
      have hbyte := byte.toNat_lt
      rw [ofBytes, List.length_cons, Nat.pow_succ]
      omega

theorem ofBytes_bytesOf {width x : ℕ} (hx : x < 256 ^ width) : ofBytes (bytesOf width x) = x := by
  induction width generalizing x with
  | zero => exact (Nat.lt_one_iff.mp hx).symm
  | succ width ih =>
      have hrest : x / 256 < 256 ^ width := by
        rw [Nat.pow_succ, Nat.mul_comm] at hx
        exact Nat.div_lt_of_lt_mul hx
      rw [bytesOf, ofBytes, ih hrest, UInt8.toNat_ofNat']
      exact Nat.mod_add_div x 256

theorem bytesOf_ofBytes (bytes : List UInt8) : bytesOf bytes.length (ofBytes bytes) = bytes := by
  induction bytes with
  | nil => rfl
  | cons byte bytes ih =>
      have hbyte := byte.toNat_lt
      have hhead : UInt8.ofNat (byte.toNat + 256 * ofBytes bytes) = byte := by
        apply UInt8.toNat_inj.mp
        rw [UInt8.toNat_ofNat']
        omega
      have htail : (byte.toNat + 256 * ofBytes bytes) / 256 = ofBytes bytes := by omega
      rw [List.length_cons, ofBytes, bytesOf, hhead, htail, ih]

theorem swap_lt (width x : ℕ) : swap width x < 256 ^ width := by
  have hlt := ofBytes_lt (bytesOf width x).reverse
  rwa [List.length_reverse, length_bytesOf] at hlt

theorem bytesOf_swap (width x : ℕ) : bytesOf width (swap width x) = (bytesOf width x).reverse := by
  have hback := bytesOf_ofBytes (bytesOf width x).reverse
  rwa [List.length_reverse, length_bytesOf] at hback

/-- **Swapping twice gives the number back.** -/
theorem swap_swap {width x : ℕ} (hx : x < 256 ^ width) : swap width (swap width x) = x := by
  rw [swap, bytesOf_swap, List.reverse_reverse, ofBytes_bytesOf hx]

end ByteOrder
