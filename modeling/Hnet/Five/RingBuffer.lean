import Mathlib.Algebra.Group.Nat.Defs
import Mathlib.Data.List.Basic

/-!
# `five::RingBuffer`

The buffer of `five/ring_buffer.h`. Both indices only grow, and the source does not check them: an
access outside of the vector is `none`.
-/

namespace Hnet

/-- `buffer_`, `head_` and `tail_`, the last two `size_t`. A `std::vector` holds fewer than `2^63`
elements. -/
structure RingBuffer (T : Type) where
  buffer : List T
  head : UInt64
  tail : UInt64
  length_lt : buffer.length < 2 ^ 63

namespace RingBuffer

variable {T : Type}

/-- The constructor; the elements of the vector are value-initialised. -/
def new [Inhabited T] (maxSize : Nat) (h : maxSize < 2 ^ 63) : RingBuffer T where
  buffer := List.replicate maxSize default
  head := 0
  tail := 0
  length_lt := by rwa [List.length_replicate]

/-- `buffer_[head_++] = val` -/
def pushBackUnchecked (rb : RingBuffer T) (val : T) : Option (RingBuffer T) :=
  if rb.head.toNat < rb.buffer.length then
    some
      { rb with
        buffer := rb.buffer.set rb.head.toNat val
        head := rb.head + 1
        length_lt := by
          rw [List.length_set]
          exact rb.length_lt }
  else
    none

/-- `buffer_[tail_++]` -/
def popUnchecked (rb : RingBuffer T) : Option (T × RingBuffer T) :=
  rb.buffer[rb.tail.toNat]?.map fun val => (val, { rb with tail := rb.tail + 1 })

/-- `(buffer_.size() + head_ - tail_) % buffer_.size()` -/
def size (rb : RingBuffer T) : UInt64 :=
  (UInt64.ofNat rb.buffer.length + rb.head - rb.tail) % UInt64.ofNat rb.buffer.length

section Lemmas

variable {rb rb' : RingBuffer T} {val : T}

theorem pushBackUnchecked_some (h : rb.pushBackUnchecked val = some rb') :
    rb.head.toNat < rb.buffer.length ∧ rb'.buffer = rb.buffer.set rb.head.toNat val
      ∧ rb'.head = rb.head + 1 ∧ rb'.tail = rb.tail := by
  unfold pushBackUnchecked at h
  split at h
  · rename_i hlt
    obtain rfl := Option.some.inj h
    exact ⟨hlt, rfl, rfl, rfl⟩
  · cases h

theorem pushBackUnchecked_eq_none_iff :
    rb.pushBackUnchecked val = none ↔ rb.buffer.length ≤ rb.head.toNat := by
  unfold pushBackUnchecked
  split
  · rename_i hlt
    exact ⟨fun hnone => (by cases hnone), fun hle => absurd hlt (Nat.not_lt.mpr hle)⟩
  · rename_i hnot
    exact ⟨fun _ => Nat.not_lt.mp hnot, fun _ => rfl⟩

/-- What `size` computes while the indices are inside of the vector: a full buffer counts as an
empty one. -/
theorem toNat_size (htail : rb.tail.toNat ≤ rb.head.toNat)
    (hhead : rb.head.toNat ≤ rb.buffer.length) (hpos : 0 < rb.buffer.length) :
    rb.size.toNat = (rb.head.toNat - rb.tail.toNat) % rb.buffer.length := by
  have hlt := rb.length_lt
  have hlen : (UInt64.ofNat rb.buffer.length).toNat = rb.buffer.length :=
    UInt64.toNat_ofNat_of_lt' (show _ < 2 ^ 64 by omega)
  have hsum : (UInt64.ofNat rb.buffer.length + rb.head).toNat
      = rb.buffer.length + rb.head.toNat := by
    rw [UInt64.toNat_add, hlen]
    exact Nat.mod_eq_of_lt (by omega)
  have hdiff : (UInt64.ofNat rb.buffer.length + rb.head - rb.tail).toNat
      = rb.buffer.length + (rb.head.toNat - rb.tail.toNat) := by
    rw [UInt64.toNat_sub_of_le]
    · omega
    · rw [UInt64.le_iff_toNat_le, hsum]
      omega
  rw [size, UInt64.toNat_mod, hdiff, hlen, Nat.add_mod_left]

end Lemmas

end RingBuffer

/-! ### A buffer and what goes through it -/

/-- A buffer in use, `none` once an access was outside of the vector, with the values pushed and
those popped so far, both in order. -/
structure FifoRun (T : Type) where
  buffer : Option (RingBuffer T)
  pushed : List T
  popped : List T

namespace FifoRun

variable {T : Type}

def init [Inhabited T] (maxSize : Nat) (h : maxSize < 2 ^ 63) : FifoRun T where
  buffer := some (RingBuffer.new maxSize h)
  pushed := []
  popped := []

def stored (s : FifoRun T) : Nat := s.pushed.length - s.popped.length

inductive Event (T : Type) where
  | push (val : T)
  | pop

/-- The callers keep the number of stored elements between 0 and `maxSize`. -/
def step (maxSize : Nat) (s : FifoRun T) : Event T → Option (FifoRun T)
  | .push val =>
      s.buffer.bind fun rb =>
        if s.stored < maxSize then
          some { s with buffer := rb.pushBackUnchecked val, pushed := s.pushed ++ [val] }
        else
          none
  | .pop =>
      s.buffer.bind fun rb =>
        if 0 < s.stored then
          match rb.popUnchecked with
          | some (val, rb') => some { s with buffer := some rb', popped := s.popped ++ [val] }
          | none => some { s with buffer := none }
        else
          none

end FifoRun

end Hnet
