import Mathlib.Data.List.TakeDrop

/-!
# Buffers and views of them

A fixed piece of memory with reads and writes at an offset, and the views (`wheels::MutableMemView`
and `wheels::ConstMemView`) that the program passes around instead of copying.
-/

namespace Hnet

abbrev Bytes := List UInt8

def copies (k : Nat) (text : Bytes) : Bytes := (List.replicate k text).flatten

theorem length_copies (k : Nat) (text : Bytes) : (copies k text).length = k * text.length := by
  rw [copies, List.length_flatten, List.map_replicate, List.sum_replicate_nat]

theorem copies_one (text : Bytes) : copies 1 text = text := by
  rw [copies, List.replicate_one, List.flatten_singleton]

theorem copies_append (k : Nat) (text : Bytes) : copies k text ++ text = copies (k + 1) text := by
  rw [copies, copies, List.replicate_succ', List.flatten_append, List.flatten_singleton]

/-- A `char` array of `n` bytes. -/
structure Buffer (n : Nat) where
  bytes : Bytes
  length_eq : bytes.length = n

/-- A view of a buffer: where it begins and how many bytes it spans. The default-constructed view
is empty. -/
structure MemView where
  start : Nat
  size : Nat
  deriving DecidableEq, Repr

def MemView.empty : MemView := { start := 0, size := 0 }

/-- `wheels::MutViewOf` -/
def MemView.of (n : Nat) : MemView := { start := 0, size := n }

namespace Buffer

variable {n : Nat}

def zero (n : Nat) : Buffer n := { bytes := List.replicate n 0, length_eq := List.length_replicate }

/-- `memcpy(buf + off, src, |src|)` -/
def write (b : Buffer n) (off : Nat) (src : Bytes) (h : off + src.length ≤ n) : Buffer n where
  bytes := b.bytes.take off ++ src ++ b.bytes.drop (off + src.length)
  length_eq := by
    have := b.length_eq
    simp only [List.length_append, List.length_take, List.length_drop]
    omega

def read (b : Buffer n) (off len : Nat) : Bytes := (b.bytes.drop off).take len

def view (b : Buffer n) (v : MemView) : Bytes := b.read v.start v.size

section Lemmas

variable {b : Buffer n} {off len : Nat} {src : Bytes}

theorem length_read (h : off + len ≤ n) : (b.read off len).length = len := by
  have := b.length_eq
  simp only [read, List.length_take, List.length_drop]
  omega

theorem bytes_write (h : off + src.length ≤ n) :
    (b.write off src h).bytes = b.bytes.take off ++ src ++ b.bytes.drop (off + src.length) := rfl

theorem read_write_self (h : off + src.length ≤ n) (hlen : len = src.length) :
    (b.write off src h).read off len = src := by
  have hoff : (b.bytes.take off).length = off := by
    have := b.length_eq
    rw [List.length_take]
    omega
  rw [read, bytes_write, List.append_assoc, List.drop_left' hoff, List.take_left' hlen.symm]

theorem read_write_of_le (h : off + src.length ≤ n) {i : Nat} (hle : i + len ≤ off) :
    (b.write off src h).read i len = b.read i len := by
  have hlen := b.length_eq
  rw [read, bytes_write, read, List.append_assoc, List.drop_append_of_le_length (by simp; omega),
    List.take_append_of_le_length (by simp; omega), List.drop_take, List.take_take,
    Nat.min_eq_left (by omega)]

theorem read_add (i j : Nat) : b.read off (i + j) = b.read off i ++ b.read (off + i) j := by
  rw [read, read, read, List.take_add, List.drop_drop]

/-- Bytes written right behind the first `off` ones. -/
theorem read_write_behind (h : off + src.length ≤ n) (hlen : src.length = off) :
    (b.write off src h).read 0 (off * 2) = b.read 0 off ++ src := by
  rw [Nat.mul_two, read_add, Nat.zero_add, read_write_of_le h (by omega),
    read_write_self h hlen.symm]

end Lemmas

end Buffer

end Hnet
