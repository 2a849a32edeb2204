import Hnet.Memory
import Mathlib.Algebra.Group.Nat.Defs

/-!
# Decimal text

How the C library prints an unsigned number and reads one back. A text is in a piece of memory and
goes on up to a byte that ends it; reading past the memory has no result.
-/

namespace Hnet

/-- What `std::to_string` and `%zu` put out for a number. -/
def decimal (n : Nat) : Bytes := (Nat.toDigits 10 n).map fun c => UInt8.ofNat c.toNat

/-- `isspace` -/
def isSpace (c : UInt8) : Bool := c = 32 || 9 ≤ c && c ≤ 13

/-- `isdigit` -/
def isDigit (c : UInt8) : Bool := 48 ≤ c && c ≤ 57

/-- The digits in front, added to the number read so far. -/
def scanDigits : Nat → Bytes → Option Nat
  | _, [] => none
  | acc, c :: cs => if isDigit c then scanDigits (10 * acc + (c.toNat - 48)) cs else some acc

def ULLONG_MAX : UInt64 := 18446744073709551615

/-- A number out of range is `ULLONG_MAX`, and a minus sign negates modulo `2 ^ 64`. -/
def ullong (negative : Bool) (value : Nat) : UInt64 :=
  if ULLONG_MAX.toNat < value then ULLONG_MAX
  else if negative then - UInt64.ofNat value
  else UInt64.ofNat value

/-- `strtoull(bytes, nullptr, 10)` -/
def strtoull (bytes : Bytes) : Option UInt64 :=
  match bytes.dropWhile isSpace with
  | [] => none
  | c :: cs =>
      if c = 45 then (scanDigits 0 cs).map (ullong true)
      else if c = 43 then (scanDigits 0 cs).map (ullong false)
      else (scanDigits 0 (c :: cs)).map (ullong false)

section Lemmas

variable {n k : Nat}

theorem decimal_ne_nil (n : Nat) : decimal n ≠ [] := by
  simp [decimal]

theorem length_decimal_le_iff (hk : 0 < k) : (decimal n).length ≤ k ↔ n < 10 ^ k := by
  rw [decimal, List.length_map]
  exact Nat.length_toDigits_le_iff (by decide) hk

theorem isDigit_iff {c : UInt8} : isDigit c ↔ 48 ≤ c.toNat ∧ c.toNat ≤ 57 := by
  rw [isDigit, Bool.and_eq_true, decide_eq_true_iff, decide_eq_true_iff, UInt8.le_iff_toNat_le,
    UInt8.le_iff_toNat_le]
  rfl

theorem isDigit_ofNat {c : Char} (hc : c.isDigit) :
    isDigit (UInt8.ofNat c.toNat) ∧ (UInt8.ofNat c.toNat).toNat = c.toNat := by
  have hrange : 48 ≤ c.toNat ∧ c.toNat ≤ 57 := Char.isDigit_iff_toNat.mp hc
  have hvalue : (UInt8.ofNat c.toNat).toNat = c.toNat := by
    rw [UInt8.toNat_ofNat']
    exact Nat.mod_eq_of_lt (by omega)
  exact ⟨isDigit_iff.mpr (by rwa [hvalue]), hvalue⟩

/-- A digit is neither a space nor a sign. -/
theorem isSpace_of_isDigit {c : UInt8} (hc : isDigit c) :
    isSpace c = false ∧ c ≠ 45 ∧ c ≠ 43 := by
  have hrange := isDigit_iff.mp hc
  refine ⟨?_, ?_, ?_⟩
  · have hne : c ≠ 32 := fun h => by
      rw [h] at hrange
      exact absurd hrange.1 (by decide)
    have hnle : ¬ c ≤ 13 := fun h => by
      have := UInt8.le_iff_toNat_le.mp h
      have hval : (13 : UInt8).toNat = 13 := rfl
      omega
    rw [isSpace, decide_eq_false hne, decide_eq_false hnle, Bool.and_false, Bool.or_false]
  · rintro rfl
    exact absurd hrange.1 (by decide)
  · rintro rfl
    exact absurd hrange.1 (by decide)

theorem isDigit_of_mem_decimal {c : UInt8} (hc : c ∈ decimal n) : isDigit c := by
  obtain ⟨d, hd, rfl⟩ := List.mem_map.mp hc
  exact (isDigit_ofNat (Nat.isDigit_of_mem_toDigits (by decide) (by decide) hd)).1

/-- The digits of a text and a byte behind them that is none. -/
theorem scanDigits_append {cs : List Char} (hcs : ∀ c ∈ cs, c.isDigit) {stop : UInt8}
    (hstop : isDigit stop = false) (rest : Bytes) (acc : Nat) :
    scanDigits acc (cs.map (fun c => UInt8.ofNat c.toNat) ++ stop :: rest)
      = some (Nat.ofDigitChars 10 cs acc) := by
  induction cs generalizing acc with
  | nil => simp only [List.map_nil, List.nil_append, scanDigits, hstop, Nat.ofDigitChars_nil]; rfl
  | cons c cs ih =>
      obtain ⟨hdigit, hvalue⟩ := isDigit_ofNat (hcs c List.mem_cons_self)
      rw [List.map_cons, List.cons_append, scanDigits, if_pos hdigit, hvalue,
        Nat.ofDigitChars_cons]
      exact ih (fun d hd => hcs d (List.mem_cons_of_mem c hd)) _

theorem scanDigits_decimal {stop : UInt8} (hstop : isDigit stop = false) (rest : Bytes) :
    scanDigits 0 (decimal n ++ stop :: rest) = some n := by
  have hdigits : ∀ c ∈ Nat.toDigits 10 n, c.isDigit :=
    fun c hc => Nat.isDigit_of_mem_toDigits (by decide) (by decide) hc
  rw [decimal, scanDigits_append hdigits hstop, Nat.ofDigitChars_ten_toDigits]

/-- A number that is printed and ended by a byte that is no digit is read back. -/
theorem strtoull_decimal {stop : UInt8} (hstop : isDigit stop = false) (rest : Bytes)
    (n : UInt64) : strtoull (decimal n.toNat ++ stop :: rest) = some n := by
  obtain ⟨c, cs, hcons⟩ := List.exists_cons_of_ne_nil (decimal_ne_nil n.toNat)
  have hdigit : isDigit c := isDigit_of_mem_decimal (hcons ▸ List.mem_cons_self)
  obtain ⟨hspace, hminus, hplus⟩ := isSpace_of_isDigit hdigit
  have hscan := scanDigits_decimal (n := n.toNat) hstop rest
  have hskip : (decimal n.toNat ++ stop :: rest).dropWhile isSpace = c :: (cs ++ stop :: rest) := by
    rw [hcons, List.cons_append, List.dropWhile_cons_of_neg (by rw [hspace]; decide)]
  rw [hcons, List.cons_append] at hscan
  have hrange : ¬ ULLONG_MAX.toNat < n.toNat := Nat.not_lt.mpr (Nat.le_of_lt_succ n.toNat_lt)
  rw [strtoull, hskip]
  simp only [if_neg hminus, if_neg hplus, hscan, Option.map_some, ullong, if_neg hrange,
    Bool.false_eq_true, if_false, UInt64.ofNat_toNat]

end Lemmas

end Hnet
