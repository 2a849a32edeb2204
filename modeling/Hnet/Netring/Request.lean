import Hnet.Memory
import Hnet.Submitter
import Mathlib.Logic.Function.Basic

/-!
# `net::Request` of netring

The buffers that netring receives into and sends from, allocated with `malloc` and owned by the
`Request` that was given them (`netring/uf.h`). An access outside of an allocation is undefined in
the source. Here the bytes outside are dropped and the access is logged with the size of the
allocation, so that a run goes on behind it.
-/

namespace Hnet.Netring

/-! ### The heap -/

abbrev BufId := Nat

/-- The bytes of each allocation that has not been freed. -/
structure Heap where
  next : BufId
  live : BufId → Option Bytes
  fresh : ∀ b, next ≤ b → live b = none

namespace Heap

def empty : Heap where
  next := 0
  live _ := none
  fresh _ _ := rfl

/-- The size of an allocation, `none` for a null or dangling pointer. -/
def size (heap : Heap) (base : Option BufId) : Option Nat :=
  (base.bind heap.live).map List.length

def malloc (heap : Heap) (n : Nat) : BufId × Heap :=
  (heap.next,
    { next := heap.next + 1
      live := Function.update heap.live heap.next (some (List.replicate n 0))
      fresh := by
        intro b hb
        have hlt : heap.next < b := hb
        rw [Function.update_of_ne hlt.ne']
        exact heap.fresh b hlt.le })

/-- `free(nullptr)` does nothing. -/
def free (heap : Heap) (base : Option BufId) : Heap :=
  match base with
  | none => heap
  | some b =>
      { heap with
        live := Function.update heap.live b none
        fresh := by
          intro c hc
          by_cases heq : c = b
          · rw [heq, Function.update_self]
          · rw [Function.update_of_ne heq]
            exact heap.fresh c hc }

/-- The first `n` bytes of an allocation, as far as there are any. -/
def read (heap : Heap) (base : Option BufId) (n : Nat) : Bytes :=
  ((base.bind heap.live).getD []).take n

/-- `src` over the bytes from `off` on, as far as there are any. -/
def overwrite (bytes : Bytes) (off : Nat) (src : Bytes) : Bytes :=
  bytes.take off ++ (src.take (bytes.length - off) ++ bytes.drop (off + src.length))

theorem length_overwrite (bytes : Bytes) (off : Nat) (src : Bytes) :
    (overwrite bytes off src).length = bytes.length := by
  simp only [overwrite, List.length_append, List.length_take, List.length_drop]
  omega

def write (heap : Heap) (base : Option BufId) (off : Nat) (src : Bytes) : Heap :=
  match base with
  | none => heap
  | some b =>
      { heap with
        live := Function.update heap.live b ((heap.live b).map fun bytes => overwrite bytes off src)
        fresh := by
          intro c hc
          by_cases heq : c = b
          · rw [heq, Function.update_self, heap.fresh b (heq ▸ hc)]
            rfl
          · rw [Function.update_of_ne heq]
            exact heap.fresh c hc }

/-! The size of an allocation changes when it is freed, and not otherwise. -/

theorem size_lt {heap : Heap} {b n : Nat} (h : heap.size (some b) = some n) : b < heap.next := by
  by_contra hle
  rw [size, Option.bind_some, heap.fresh b (not_lt.mp hle)] at h
  cases h

theorem size_malloc_self (heap : Heap) (n : Nat) :
    (heap.malloc n).2.size (some (heap.malloc n).1) = some n := by
  simp [malloc, size]

theorem size_malloc {heap : Heap} {b m : Nat} (n : Nat) (h : heap.size (some b) = some m) :
    (heap.malloc n).2.size (some b) = some m := by
  have hne : b ≠ heap.next := (size_lt h).ne
  simp only [malloc, size, Option.bind_some, Function.update_of_ne hne]
  exact h

theorem size_free {heap : Heap} {b : BufId} {base : Option BufId} (h : base ≠ some b) :
    (heap.free base).size (some b) = heap.size (some b) := by
  cases base with
  | none => rfl
  | some c =>
      have hne : b ≠ c := fun heq => h (congrArg some heq.symm)
      simp only [free, size, Option.bind_some, Function.update_of_ne hne]

@[simp]
theorem size_write (heap : Heap) (base : Option BufId) (off : Nat) (src : Bytes)
    (base' : Option BufId) : (heap.write base off src).size base' = heap.size base' := by
  cases base with
  | none => rfl
  | some b =>
      cases base' with
      | none => rfl
      | some c =>
          by_cases heq : c = b
          · subst heq
            simp [write, size, Option.map_map, Function.comp_def, length_overwrite]
          · simp [write, size, Function.update_of_ne heq]

end Heap

inductive AccessKind where
  | read
  | write
  /-- by the kernel, of what was handed to `sendmsg` -/
  | send
  deriving DecidableEq, Repr

/-- An access to `len` bytes of a buffer from `off` on, with the size of the allocation at that
time. -/
structure Access where
  kind : AccessKind
  off : Nat
  len : Nat
  size : Option Nat
  deriving DecidableEq, Repr

def Access.Inside (a : Access) : Prop := ∃ n, a.size = some n ∧ a.off + a.len ≤ n

/-! ### `Request` -/

structure Iovec where
  base : Option BufId
  /-- a `size_t` -/
  len : Nat
  deriving DecidableEq, Repr

/-- `Request` with its `iov`, its `addr` and what it sets in its `hdr`; the pointers of the header
go to the `iov` and the `addr` of the same object. -/
structure Request (A : Type) where
  iov : Iovec
  iovlen : Nat
  namelen : Nat
  addr : Option A
  deriving DecidableEq, Repr

namespace Request

variable {A : Type}

/-- `Request(size_t iov_len)` -/
def new (iovLen : Nat) (heap : Heap) : Request A × Heap :=
  let allocated := heap.malloc iovLen
  ({ iov := { base := some allocated.1, len := iovLen }, iovlen := 1, namelen := 28, addr := none },
    allocated.2)

/-- What the move constructor leaves behind: `clear` after the pointer to the buffer has been
nulled. -/
def movedFrom (r : Request A) : Request A :=
  { r with
    iov := if r.iovlen = 0 then r.iov else { base := none, len := 0 }
    iovlen := 0
    namelen := 0 }

/-- `~Request` -/
def destroy (r : Request A) (heap : Heap) : Heap :=
  if r.iovlen = 0 then heap else heap.free r.iov.base

@[simp]
theorem destroy_movedFrom (r : Request A) (heap : Heap) : r.movedFrom.destroy heap = heap := rfl

/-- The kernel ends a receive into the request. -/
def received (r : Request A) (done : RecvDone A) : Request A :=
  match done with
  | .datagram src _ => { r with addr := some src }
  | .failed _ => r

@[simp]
theorem iov_received (r : Request A) (done : RecvDone A) : (r.received done).iov = r.iov := by
  cases done <;> rfl

end Request

end Hnet.Netring
