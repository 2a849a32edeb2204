import Hnet.Proto

/-!
# What comes back from `serialize`

A string is lost, as `serialize` returns an empty buffer for each. A number comes back when its
digits and the terminator fit in the twenty bytes; the longest numbers of a `size_t` have twenty
digits.
-/

namespace Hnet

/-- What there are specialisations for. -/
inductive ProtoValue where
  | text (s : Bytes)
  | number (n : UInt64)
  deriving DecidableEq, Repr

/-- The value is serialized within the buffer and comes back. -/
def RoundTrips (fresh : Buffer 20) : ProtoValue → Prop
  | .text s => deserializeString (serializeString s) = s
  | .number n => ∃ buf, serializeSize fresh n = some buf ∧ deserializeSize buf = some n

/-- The values for which the specialisations work. -/
def Fits : ProtoValue → Prop
  | .text s => s = []
  | .number n => n.toNat < 10 ^ 19

theorem length_text_le_iff (n : UInt64) :
    0 + (decimal n.toNat ++ [0]).length ≤ 20 ↔ n.toNat < 10 ^ 19 := by
  rw [← length_decimal_le_iff (by decide), List.length_append, List.length_singleton]
  omega

/-- The digits and the terminator stand in front of what the buffer held. -/
theorem serializeSize_of_fits (fresh : Buffer 20) {n : UInt64} (hn : n.toNat < 10 ^ 19) :
    ∃ buf rest, serializeSize fresh n = some buf ∧
      buf.data.bytes = decimal n.toNat ++ 0 :: rest := by
  have hlength := (length_text_le_iff n).mpr hn
  refine ⟨_, fresh.bytes.drop (0 + (decimal n.toNat ++ [0]).length), dif_pos hlength, ?_⟩
  rw [Buffer.bytes_write, List.take_zero, List.nil_append, List.append_assoc]
  rfl

/-- `sprintf` writes past the end. -/
theorem serializeSize_of_not_fits (fresh : Buffer 20) {n : UInt64} (hn : ¬ n.toNat < 10 ^ 19) :
    serializeSize fresh n = none :=
  dif_neg fun hlength => hn ((length_text_le_iff n).mp hlength)

/-- **Exactly the empty string and the numbers of at most nineteen digits come back.** -/
theorem roundTrips_iff (fresh : Buffer 20) (v : ProtoValue) : RoundTrips fresh v ↔ Fits v := by
  cases v with
  | text s => exact eq_comm
  | number n =>
      constructor
      · rintro ⟨buf, hbuf, -⟩
        show n.toNat < 10 ^ 19
        by_contra hn
        rw [serializeSize_of_not_fits fresh hn] at hbuf
        cases hbuf
      · intro hn
        obtain ⟨buf, rest, hbuf, hbytes⟩ := serializeSize_of_fits fresh hn
        refine ⟨buf, hbuf, ?_⟩
        rw [deserializeSize, hbytes]
        exact strtoull_decimal (by decide) rest n

/-- The string `"a"` comes back empty, and the largest number is written past the end. -/
theorem not_roundTrips : ¬ RoundTrips (Buffer.zero 20) (.text [97]) ∧
    ¬ RoundTrips (Buffer.zero 20) (.number 18446744073709551615) := by
  constructor
  · intro hempty
    cases hempty
  · rintro ⟨buf, hbuf, -⟩
    rw [serializeSize_of_not_fits _ (by decide)] at hbuf
    cases hbuf

end Hnet
