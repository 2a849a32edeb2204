import Mathlib.Data.Int.Log
import Mathlib.Data.Rat.Floor
import Mathlib.Tactic.FieldSimp
import Mathlib.Tactic.Linarith
import Mathlib.Tactic.Positivity

/-!
# Rounding to significant bits

A positive rational number rounded to `p` significant bits, to nearest with ties to even, and no
bound on its exponent. The rounding respects the order and is off by at most the fraction `2 ^ -p`
of the number, and such errors multiply when roundings follow on each other.
-/

namespace Rounding

/-- The integer nearest to `x`, and the even one of two. -/
def nearestEven (x : ℚ) : ℤ :=
  if x - ⌊x⌋ < 1 / 2 ∨ x - ⌊x⌋ = 1 / 2 ∧ ⌊x⌋ % 2 = 0 then ⌊x⌋ else ⌊x⌋ + 1

theorem abs_nearestEven_sub_le (x : ℚ) : |nearestEven x - x| ≤ 1 / 2 := by
  have hlow := Int.floor_le x
  have hhigh := Int.lt_floor_add_one x
  unfold nearestEven
  split
  · rename_i hbelow
    have hhalf : x - ⌊x⌋ ≤ 1 / 2 := hbelow.elim le_of_lt fun htie => htie.1.le
    exact abs_le.mpr ⟨by linarith, by linarith⟩
  · rename_i habove
    have hhalf : 1 / 2 ≤ x - ⌊x⌋ := not_lt.mp (not_or.mp habove).1
    rw [Int.cast_add, Int.cast_one]
    exact abs_le.mpr ⟨by linarith, by linarith⟩

theorem nearestEven_intCast (n : ℤ) : nearestEven n = n := by
  rw [nearestEven, Int.floor_intCast, sub_self]
  exact if_pos (Or.inl one_half_pos)

/-- Two numbers that are rounded to different integers have the half between them. -/
theorem nearestEven_mono {x y : ℚ} (h : x ≤ y) : nearestEven x ≤ nearestEven y := by
  by_contra hlt
  have hgap : (nearestEven y : ℚ) + 1 ≤ nearestEven x := by
    exact_mod_cast Int.add_one_le_of_lt (not_le.mp hlt)
  have hx := (abs_le.mp (abs_nearestEven_sub_le x)).2
  have hy := (abs_le.mp (abs_nearestEven_sub_le y)).1
  obtain rfl : x = y := le_antisymm h (by linarith)
  exact hlt le_rfl

theorem le_nearestEven {n : ℤ} {x : ℚ} (h : n ≤ x) : n ≤ nearestEven x := by
  have hmono := nearestEven_mono h
  rwa [nearestEven_intCast] at hmono

theorem nearestEven_le {n : ℤ} {x : ℚ} (h : x ≤ n) : nearestEven x ≤ n := by
  have hmono := nearestEven_mono h
  rwa [nearestEven_intCast] at hmono

/-- Less than a `d`-th away from the fraction `m / d`, the number has the floor of the fraction or,
when that is an integer, perhaps the one below. -/
theorem floor_of_near {x : ℚ} {m d : ℕ} (hx : 0 ≤ x) (hd : 0 < d) (h : |x - m / d| < 1 / d) :
    ⌊x⌋₊ * d ≤ m ∧ m ≤ (⌊x⌋₊ + 1) * d := by
  have hpos : (0 : ℚ) < d := Nat.cast_pos.mpr hd
  obtain ⟨hlow, hhigh⟩ := abs_lt.mp h
  have hbelow : (m : ℚ) < x * d + 1 := by
    have hlt := (div_lt_iff₀ hpos).mp (show m / d < x + 1 / d by linarith)
    rwa [add_mul, one_div_mul_cancel hpos.ne'] at hlt
  have habove : x * d < m + 1 :=
    (lt_div_iff₀ hpos).mp (show x < (m + 1) / d by rw [add_div]; linarith)
  constructor
  · apply Nat.lt_succ_iff.mp
    apply (Nat.cast_lt (α := ℚ)).mp
    calc ((⌊x⌋₊ * d : ℕ) : ℚ) = ⌊x⌋₊ * d := Nat.cast_mul _ _
      _ ≤ x * d := mul_le_mul_of_nonneg_right (Nat.floor_le hx) hpos.le
      _ < ((m + 1 : ℕ) : ℚ) := by rwa [Nat.cast_add_one]
  · apply Nat.lt_succ_iff.mp
    apply (Nat.cast_lt (α := ℚ)).mp
    calc (m : ℚ) < x * d + 1 := hbelow
      _ ≤ (⌊x⌋₊ + 1) * d + 1 := by
          have hle := mul_le_mul_of_nonneg_right (Nat.lt_floor_add_one x).le hpos.le
          linarith
      _ = (((⌊x⌋₊ + 1) * d + 1 : ℕ) : ℚ) := by
          push_cast
          ring

/-- What the last of the `p` significant bits of `x` stands for. -/
def ulp (p : ℕ) (x : ℚ) : ℚ := 2 ^ (Int.log 2 x + 1 - p)

/-- `x` rounded to `p` significant bits. -/
def round (p : ℕ) (x : ℚ) : ℚ := nearestEven (x / ulp p x) * ulp p x

section Ulp

variable {x : ℚ}

theorem ulp_pos (p : ℕ) (x : ℚ) : 0 < ulp p x := zpow_pos two_pos _

theorem ulp_mul_two_pow (p : ℕ) (x : ℚ) : ulp p x * 2 ^ p = 2 ^ (Int.log 2 x + 1) := by
  rw [ulp, ← zpow_natCast, ← zpow_add₀ two_ne_zero, sub_add_cancel]

theorem lt_ulp_mul (p : ℕ) (x : ℚ) : x < ulp p x * 2 ^ p := by
  rw [ulp_mul_two_pow]
  exact_mod_cast Int.lt_zpow_succ_log_self one_lt_two x

theorem ulp_mul_le (p : ℕ) (hx : 0 < x) : ulp p x * 2 ^ p ≤ 2 * x := by
  have hlog : (2 : ℚ) ^ Int.log 2 x ≤ x := by
    exact_mod_cast Int.zpow_log_le_self one_lt_two hx
  rw [ulp_mul_two_pow, zpow_add_one₀ two_ne_zero]
  linarith

end Ulp

section Round

variable {p : ℕ} {x y : ℚ}

/-- **The relative error.** -/
theorem abs_round_sub_le (p : ℕ) (hx : 0 < x) : |round p x - x| ≤ x / 2 ^ p := by
  have hulp := ulp_pos p x
  have hsplit : round p x - x = (nearestEven (x / ulp p x) - x / ulp p x) * ulp p x := by
    rw [round, sub_mul, div_mul_cancel₀ _ hulp.ne']
  calc |round p x - x|
      = |nearestEven (x / ulp p x) - x / ulp p x| * ulp p x := by
        rw [hsplit, abs_mul, abs_of_pos hulp]
    _ ≤ 1 / 2 * ulp p x :=
        mul_le_mul_of_nonneg_right (abs_nearestEven_sub_le _) hulp.le
    _ ≤ x / 2 ^ p := by
        rw [le_div_iff₀ (by positivity)]
        have hle := ulp_mul_le p hx
        linarith

theorem round_le (p : ℕ) (hx : 0 < x) : round p x ≤ x * (1 + 1 / 2 ^ p) := by
  have hle := (abs_le.mp (abs_round_sub_le p hx)).2
  rw [mul_add, mul_one, mul_one_div]
  linarith

theorem le_round (p : ℕ) (hx : 0 < x) : x * (1 - 1 / 2 ^ p) ≤ round p x := by
  have hle := (abs_le.mp (abs_round_sub_le p hx)).1
  rw [mul_sub, mul_one, mul_one_div]
  linarith

theorem round_pos (hp : 0 < p) (hx : 0 < x) : 0 < round p x := by
  refine lt_of_lt_of_le (mul_pos hx ?_) (le_round p hx)
  rw [sub_pos, div_lt_one (by positivity)]
  exact one_lt_pow₀ one_lt_two hp.ne'

theorem round_le_two_zpow (p : ℕ) (x : ℚ) : round p x ≤ 2 ^ (Int.log 2 x + 1) := by
  have hle : x / ulp p x ≤ ((2 ^ p : ℤ) : ℚ) := by
    rw [div_le_iff₀ (ulp_pos p x), mul_comm]
    exact_mod_cast (lt_ulp_mul p x).le
  rw [← ulp_mul_two_pow p, round, mul_comm (ulp p x)]
  refine mul_le_mul_of_nonneg_right ?_ (ulp_pos p x).le
  exact_mod_cast nearestEven_le hle

theorem two_zpow_le_round (hp : 0 < p) (hx : 0 < x) : 2 ^ Int.log 2 x ≤ round p x := by
  have hpow : (2 : ℚ) ^ Int.log 2 x = ((2 ^ (p - 1) : ℤ) : ℚ) * ulp p x := by
    push_cast
    rw [ulp, ← zpow_natCast, ← zpow_add₀ two_ne_zero, Nat.cast_sub hp]
    congr 1
    push_cast
    ring
  have hle : ((2 ^ (p - 1) : ℤ) : ℚ) ≤ x / ulp p x := by
    rw [le_div_iff₀ (ulp_pos p x), ← hpow]
    exact_mod_cast Int.zpow_log_le_self one_lt_two hx
  rw [hpow, round]
  refine mul_le_mul_of_nonneg_right ?_ (ulp_pos p x).le
  exact_mod_cast le_nearestEven hle

/-- **Rounding respects the order.** With the same exponent the significands are compared, with
different ones there is a power of two between the numbers. -/
theorem round_mono (hp : 0 < p) (hx : 0 < x) (h : x ≤ y) : round p x ≤ round p y := by
  rcases (Int.log_mono_right (b := 2) hx h).eq_or_lt with heq | hlt
  · have hulp : ulp p y = ulp p x := by rw [ulp, ulp, heq]
    rw [round, round, hulp]
    refine mul_le_mul_of_nonneg_right ?_ (ulp_pos p x).le
    exact_mod_cast nearestEven_mono (div_le_div_of_nonneg_right h (ulp_pos p x).le)
  · calc round p x ≤ 2 ^ (Int.log 2 x + 1) := round_le_two_zpow p x
      _ ≤ 2 ^ Int.log 2 y := zpow_le_zpow_right₀ one_le_two (Int.add_one_le_of_lt hlt)
      _ ≤ round p y := two_zpow_le_round hp (hx.trans_le h)

end Round

/-- `y` is `x` after at most `k` relative errors of a rounding. -/
def Within (p k : ℕ) (x y : ℚ) : Prop :=
  x * (1 - 1 / 2 ^ p) ^ k ≤ y ∧ y ≤ x * (1 + 1 / 2 ^ p) ^ k

namespace Within

variable {p k l : ℕ} {x x' y y' : ℚ}

theorem refl (p : ℕ) (x : ℚ) : Within p 0 x x := by
  rw [Within, pow_zero, pow_zero, mul_one]
  exact ⟨le_rfl, le_rfl⟩

theorem down_nonneg (p : ℕ) : (0 : ℚ) ≤ 1 - 1 / 2 ^ p := by
  rw [sub_nonneg, div_le_one (by positivity)]
  exact one_le_pow₀ one_le_two

theorem round (h : Within p k x y) (hy : 0 < y) : Within p (k + 1) x (Rounding.round p y) := by
  constructor
  · calc x * (1 - 1 / 2 ^ p) ^ (k + 1) = x * (1 - 1 / 2 ^ p) ^ k * (1 - 1 / 2 ^ p) := by ring
      _ ≤ y * (1 - 1 / 2 ^ p) := mul_le_mul_of_nonneg_right h.1 (down_nonneg p)
      _ ≤ Rounding.round p y := le_round p hy
  · calc Rounding.round p y ≤ y * (1 + 1 / 2 ^ p) := round_le p hy
      _ ≤ x * (1 + 1 / 2 ^ p) ^ k * (1 + 1 / 2 ^ p) :=
          mul_le_mul_of_nonneg_right h.2 (by positivity)
      _ = x * (1 + 1 / 2 ^ p) ^ (k + 1) := by ring

theorem mul (h : Within p k x y) (h' : Within p l x' y') (hx : 0 ≤ x) (hx' : 0 ≤ x') :
    Within p (k + l) (x * x') (y * y') := by
  have hdown := down_nonneg p
  have hlow : 0 ≤ x * (1 - 1 / 2 ^ p) ^ k := by positivity
  have hlow' : 0 ≤ x' * (1 - 1 / 2 ^ p) ^ l := by positivity
  constructor
  · calc x * x' * (1 - 1 / 2 ^ p) ^ (k + l)
        = x * (1 - 1 / 2 ^ p) ^ k * (x' * (1 - 1 / 2 ^ p) ^ l) := by ring
      _ ≤ y * y' := mul_le_mul h.1 h'.1 hlow' (hlow.trans h.1)
  · calc y * y' ≤ x * (1 + 1 / 2 ^ p) ^ k * (x' * (1 + 1 / 2 ^ p) ^ l) :=
          mul_le_mul h.2 h'.2 (hlow'.trans h'.1) (by positivity)
      _ = x * x' * (1 + 1 / 2 ^ p) ^ (k + l) := by ring

theorem div (h : Within p k x y) {c : ℚ} (hc : 0 ≤ c) : Within p k (x / c) (y / c) := by
  rw [Within, div_mul_eq_mul_div, div_mul_eq_mul_div]
  exact ⟨div_le_div_of_nonneg_right h.1 hc, div_le_div_of_nonneg_right h.2 hc⟩

end Within

end Rounding
