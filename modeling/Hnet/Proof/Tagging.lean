import Hnet.Five.BitPtr

/-!
# Tagging a pointer loses nothing

The alignment of the memory leaves just as many low bits free as the index of the type needs.
-/

namespace Hnet

namespace EitherPtr2

variable {Ty : Type} {types : List Ty}

theorem bitCount_lt (types : List Ty) : bitCount types < 64 :=
  Nat.lt_trans (log2_lt types.length) (by decide)

theorem alignment_eq (types : List Ty) : alignment types = 2 ^ bitCount types := by
  rw [alignment, Nat.shiftLeft_eq, one_mul]

theorem getAligned_setBits (p : EitherPtr2 types) (bits : UIntPtr) :
    (p.setBits bits).getAligned = p.getAligned :=
  TaggedWord.aligned_setTag (mask types) p.ptr bits

theorem toNat_getBits (p : EitherPtr2 types) :
    p.getBits.toNat = p.ptr.toNat % 2 ^ bitCount types :=
  TaggedWord.toNat_and_lowMask (bitCount_lt types) p.ptr

theorem getBits_setBits (p : EitherPtr2 types) (bits : UIntPtr) :
    (p.setBits bits).getBits.toNat = bits.toNat % 2 ^ bitCount types := by
  have htag : (p.setBits bits).getBits = bits &&& mask types :=
    TaggedWord.setTag_and (mask types) p.ptr bits
  rw [htag]
  exact TaggedWord.toNat_and_lowMask (bitCount_lt types) bits

theorem getAligned_foldl_setBits (p : EitherPtr2 types) (tags : List UIntPtr) :
    (tags.foldl setBits p).getAligned = p.getAligned := by
  induction tags generalizing p with
  | nil => rfl
  | cons bits tags ih => rw [List.foldl_cons, ih, getAligned_setBits]

/-- There is a tag for every index. -/
theorem index_lt (htypes : types.length ≤ 32) (N : Fin types.length) :
    (N : Nat) < 2 ^ bitCount types :=
  Nat.lt_of_lt_of_le N.isLt (le_two_pow_log2 htypes)

/-- The conversion of the tag to an `int` keeps it. -/
theorem getIndex_eq (p : EitherPtr2 types) : p.getIndex = p.getBits.toNat := by
  have hpow : 2 ^ bitCount types < 2 ^ 6 :=
    Nat.pow_lt_pow_right (by decide) (log2_lt types.length)
  have hlt : p.getBits.toNat < 2 ^ 6 := by
    rw [toNat_getBits]
    exact Nat.lt_trans (Nat.mod_lt _ (Nat.two_pow_pos _)) hpow
  have hwidth : (p.getBits.setWidth 32).toNat = p.getBits.toNat := by
    rw [BitVec.toNat_setWidth]
    exact Nat.mod_eq_of_lt (by omega)
  rw [getIndex, BitVec.toInt_eq_toNat_of_lt (by omega), hwidth]

/-- What a handle of `construct<N>` gives back, and so does one made from its raw pointer. -/
structure Recovers (N : Fin types.length) (raw : UIntPtr) (p : EitherPtr2 types) : Prop where
  index : p.getIndex = N
  pointer : p.get N = raw

theorem recovers_construct (htypes : types.length ≤ 32) (N : Fin types.length) {raw : UIntPtr}
    (haligned : raw.toNat % alignment types = 0) :
    Recovers N raw ((ofRaw raw).setBits (BitVec.ofNat 64 N)) := by
  have hN := index_lt htypes N
  constructor
  · have hword : (BitVec.ofNat 64 N).toNat = N := by
      rw [BitVec.toNat_ofNat]
      exact Nat.mod_eq_of_lt (by omega)
    calc ((ofRaw raw).setBits (BitVec.ofNat 64 N)).getIndex
        = ((ofRaw raw).setBits (BitVec.ofNat 64 N) : EitherPtr2 types).getBits.toNat :=
          getIndex_eq _
      _ = ((N : Nat) % 2 ^ bitCount types : Nat) := by rw [getBits_setBits, hword]
      _ = N := by rw [Nat.mod_eq_of_lt hN]
  · rw [alignment_eq] at haligned
    rw [get, getAligned_setBits]
    exact TaggedWord.aligned_of_dvd (bitCount_lt types) haligned

/-- That tagging loses neither the pointer nor the tag. -/
structure Lossless (types : List Ty) : Prop where
  constructed : ∀ (N : Fin types.length) (raw : UIntPtr), raw.toNat % alignment types = 0 →
    ∃ p : EitherPtr2 types, construct N raw = some p ∧ Recovers N raw p ∧
      Recovers N raw (ofRaw p.getRaw : EitherPtr2 types)
  aligned : ∀ (p : EitherPtr2 types) (tags : List UIntPtr),
    (tags.foldl setBits p).getAligned = p.getAligned
  bits : ∀ (p : EitherPtr2 types) (tags : List UIntPtr) (last : UIntPtr),
    ((tags ++ [last]).foldl setBits p).getBits.toNat = last.toNat % 2 ^ bitCount types

/-- **Tagging is lossless.** -/
theorem lossless (types : List Ty) (htypes : types.length ≤ 32) : Lossless types := by
  constructor
  · intro N raw haligned
    have hrecovers := recovers_construct htypes N haligned
    exact ⟨_, if_pos haligned, hrecovers, hrecovers⟩
  · intro p tags
    exact getAligned_foldl_setBits p tags
  · intro p tags last
    rw [List.foldl_append, List.foldl_cons, List.foldl_nil, getBits_setBits]

theorem lossless_two : Lossless ["S1", "S2"] := lossless ["S1", "S2"] (by decide)

end EitherPtr2

end Hnet
