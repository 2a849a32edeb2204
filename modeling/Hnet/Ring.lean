import Hnet.IoUring

/-!
# `net::Ring`

The ring of `ring2/ring.cc`: an io_uring with a counter of the requests whose completion has not
been consumed. `Ring::submit` loops until `io_uring_get_sqe` returns a slot and yields in between,
so it is modelled by one pass of its loop, `trySubmit`; the fibers that run the loop come later.
-/

namespace Hnet

/-- The statistics of the starvation loop, both `size_t`. -/
structure Starvation where
  cycles : UInt64
  times : UInt64

structure Ring (U : Type) where
  ring : IoUring U
  /-- `pending_count_`, a `size_t` -/
  pendingCount : UInt64
  starvation : Starvation

namespace Ring

variable {U : Type}

def init (entries capacity : Nat) (fits : entries + capacity < 2 ^ 64) : Ring U where
  ring := IoUring.init entries capacity fits
  pendingCount := 0
  starvation := { cycles := 0, times := 0 }

/-- One pass of the loop of `Ring::submit` in which `io_uring_get_sqe` returned a slot: the
statistics, `builder(sqe)` and `pending_count_++`. `none` when it returned null. -/
def trySubmit (r : Ring U) (sqe : Sqe U) (starved : Bool) : Option (Ring U) :=
  if hslot : r.ring.HasSlot then
    some
      { ring := r.ring.queue sqe hslot
        pendingCount := r.pendingCount + 1
        starvation :=
          if starved then { r.starvation with times := r.starvation.times + 1 } else r.starvation }
  else
    none

/-- The pass in which it returned null, up to `tf::Yield`. -/
def starve (r : Ring U) : Ring U :=
  { r with starvation := { r.starvation with cycles := r.starvation.cycles + 1 } }

/-- The `io_uring_submit` that ends `Ring::submit` unless `next_is_timeout`. -/
def flush (r : Ring U) : Ring U := { r with ring := r.ring.submit }

def kernel (r : Ring U) (e : KernelEvent) : Option (Ring U) :=
  (r.ring.kernel e).map fun ring => { r with ring := ring }

/-- `Ring::poll`, `none` while `io_uring_wait_cqe` blocks. -/
def poll (r : Ring U) : Option (Cqe U × Ring U) :=
  match r.ring.peek with
  | none => none
  | some cqe => some (cqe,
      { r with ring := r.ring.advance 1, pendingCount := r.pendingCount - 1 })

def tryPoll (r : Ring U) : Option (Cqe U) × Ring U :=
  match r.ring.peek with
  | none => (none, r)
  | some cqe => (some cqe,
      { r with ring := r.ring.advance 1, pendingCount := r.pendingCount - 1 })

/-- The batch of `Ring::try_poll_many`. -/
def maxPollMany : Nat := 16

def tryPollMany (r : Ring U) : List (Cqe U) × Ring U :=
  let cqes := r.ring.cq.take maxPollMany
  (cqes,
    { r with
      ring := r.ring.advance maxPollMany
      pendingCount := r.pendingCount - UInt64.ofNat cqes.length })

def hasPending (r : Ring U) : Bool := 0 < r.pendingCount

/-- The counter is the number of requests handed to a builder whose CQE has not been consumed. -/
def CountsPending (r : Ring U) : Prop :=
  r.pendingCount.toNat = Multiset.card r.ring.outstanding

/-- What one step of the process does to a ring. A poll that finds nothing leaves it as it is. -/
inductive Moves (r : Ring U) : Ring U → Prop where
  | stays : Moves r r
  | starves : Moves r r.starve
  | queues {sqe : Sqe U} {starved : Bool} {r' : Ring U} (h : r.trySubmit sqe starved = some r') :
      Moves r r'
  | flushes : Moves r r.flush
  | polls {cqe : Cqe U} {r' : Ring U} (h : r.poll = some (cqe, r')) : Moves r r'
  | pollsMany : Moves r r.tryPollMany.2

section Lemmas

variable {r r' : Ring U}

@[simp]
theorem starve_ring (r : Ring U) : r.starve.ring = r.ring := rfl

@[simp]
theorem flush_ring (r : Ring U) : r.flush.ring = r.ring.submit := rfl

theorem trySubmit_ring {sqe : Sqe U} {starved : Bool} (h : r.trySubmit sqe starved = some r') :
    ∃ hslot, r'.ring = r.ring.queue sqe hslot ∧ r'.pendingCount = r.pendingCount + 1 := by
  unfold trySubmit at h
  split at h
  · rename_i hslot
    obtain rfl := Option.some.inj h
    exact ⟨hslot, rfl, rfl⟩
  · cases h

theorem trySubmit_eq_none_iff {sqe : Sqe U} {starved : Bool} :
    r.trySubmit sqe starved = none ↔ ¬ r.ring.HasSlot := by
  unfold trySubmit
  split <;> simp_all

theorem kernel_ring {e : KernelEvent} (h : r.kernel e = some r') :
    r.ring.kernel e = some r'.ring ∧ r'.pendingCount = r.pendingCount := by
  obtain ⟨ring, hring, rfl⟩ := Option.map_eq_some_iff.mp h
  exact ⟨hring, rfl⟩

theorem poll_ring {cqe : Cqe U} (h : r.poll = some (cqe, r')) :
    r.ring.peek = some cqe ∧ r'.ring = r.ring.advance 1
      ∧ r'.pendingCount = r.pendingCount - 1 := by
  unfold poll at h
  split at h
  · cases h
  · rename_i cqe' hpeek
    obtain ⟨rfl, rfl⟩ := Prod.mk.inj (Option.some.inj h)
    exact ⟨hpeek, rfl, rfl⟩

theorem tryPoll_eq (r : Ring U) :
    r.tryPoll = (r.poll.elim (none, r) fun found => (some found.1, found.2)) := by
  simp only [tryPoll, poll]
  cases r.ring.peek <;> rfl

theorem moves_tryPoll (r : Ring U) : r.Moves r.tryPoll.2 := by
  rw [tryPoll_eq]
  cases hpoll : r.poll with
  | none => exact .stays
  | some found => exact .polls hpoll

theorem moves_submit (r : Ring U) (sqe : Sqe U) (starved : Bool) :
    r.Moves ((r.trySubmit sqe starved).getD r.starve) := by
  cases htry : r.trySubmit sqe starved with
  | none => exact .starves
  | some r' => exact .queues htry

theorem Moves.cqes (h : r.Moves r') : r'.ring.cqes = r.ring.cqes := by
  cases h with
  | stays => rfl
  | starves => rfl
  | queues htry =>
      obtain ⟨_, hring, _⟩ := trySubmit_ring htry
      rw [hring]
      rfl
  | flushes => rfl
  | polls hpoll =>
      rw [(poll_ring hpoll).2.1]
      rfl
  | pollsMany => rfl

theorem mem_cq_of_poll {cqe : Cqe U} (h : r.poll = some (cqe, r')) : cqe ∈ r.ring.cq :=
  List.mem_of_mem_head? (poll_ring h).1

theorem mem_cq_of_tryPoll {cqe : Cqe U} (h : r.tryPoll.1 = some cqe) : cqe ∈ r.ring.cq := by
  rw [tryPoll_eq] at h
  cases hpoll : r.poll with
  | none =>
      rw [hpoll] at h
      cases h
  | some found =>
      rw [hpoll] at h
      obtain rfl := Option.some.inj h
      exact mem_cq_of_poll hpoll

/-! ### The counter -/

theorem countsPending_init (entries capacity : Nat) (fits : entries + capacity < 2 ^ 64) :
    (init entries capacity fits : Ring U).CountsPending := by
  simp [CountsPending, init, IoUring.card_outstanding, IoUring.init]

theorem CountsPending.trySubmit {sqe : Sqe U} {starved : Bool} (hcount : r.CountsPending)
    (h : r.trySubmit sqe starved = some r') : r'.CountsPending := by
  obtain ⟨hslot, hring, hpending⟩ := trySubmit_ring h
  have hcard : Multiset.card r'.ring.outstanding = Multiset.card r.ring.outstanding + 1 := by
    rw [hring, IoUring.outstanding_queue, Multiset.card_cons]
  have hbound := r'.ring.card_outstanding_lt
  have hone : (1 : UInt64).toNat = 1 := rfl
  unfold CountsPending at hcount ⊢
  calc
    r'.pendingCount.toNat = (r.pendingCount.toNat + (1 : UInt64).toNat) % 2 ^ 64 := by
      rw [hpending, UInt64.toNat_add]
    _ = (Multiset.card r.ring.outstanding + 1) % 2 ^ 64 := by rw [hcount, hone]
    _ = Multiset.card r.ring.outstanding + 1 := Nat.mod_eq_of_lt (by omega)
    _ = Multiset.card r'.ring.outstanding := hcard.symm

theorem CountsPending.kernel {e : KernelEvent} (hcount : r.CountsPending)
    (h : r.kernel e = some r') : r'.CountsPending := by
  obtain ⟨hring, hpending⟩ := kernel_ring h
  rw [CountsPending, hpending, IoUring.outstanding_kernel hring]
  exact hcount

/-- Consuming `n` CQEs and taking `n` from the counter keeps it exact: there is no borrow. -/
theorem CountsPending.advance {n : Nat} (hcount : r.CountsPending)
    (hring : r'.ring = r.ring.advance n)
    (hpending : r'.pendingCount = r.pendingCount - UInt64.ofNat (r.ring.cq.take n).length) :
    (r.ring.cq.take n).length ≤ r.pendingCount.toNat ∧ r'.CountsPending := by
  have hcard := congrArg Multiset.card (r.ring.outstanding_advance n)
  simp only [Multiset.card_add, Multiset.coe_card, List.length_map] at hcard
  have hbound := r.ring.card_outstanding_lt
  rw [CountsPending] at hcount
  have hle : (r.ring.cq.take n).length ≤ r.pendingCount.toNat := by omega
  have htoNat : (UInt64.ofNat (r.ring.cq.take n).length).toNat = (r.ring.cq.take n).length :=
    UInt64.toNat_ofNat_of_lt' (show _ < 2 ^ 64 by omega)
  refine ⟨hle, ?_⟩
  rw [CountsPending, hpending, UInt64.toNat_sub_of_le, htoNat, hring]
  · omega
  · rw [UInt64.le_iff_toNat_le, htoNat]
    exact hle

theorem CountsPending.poll {cqe : Cqe U} (hcount : r.CountsPending)
    (h : r.poll = some (cqe, r')) : 1 ≤ r.pendingCount.toNat ∧ r'.CountsPending := by
  obtain ⟨hpeek, hring, hpending⟩ := poll_ring h
  have hlen : (r.ring.cq.take 1).length = 1 := by
    rw [IoUring.cons_of_peek hpeek]
    rfl
  have hadvance := hcount.advance hring (by rw [hlen]; exact hpending)
  rwa [hlen] at hadvance

theorem CountsPending.tryPoll (hcount : r.CountsPending) :
    r.tryPoll.1.toList.length ≤ r.pendingCount.toNat ∧ r.tryPoll.2.CountsPending := by
  rw [tryPoll_eq]
  cases hpoll : r.poll with
  | none => exact ⟨Nat.zero_le _, hcount⟩
  | some found => exact hcount.poll hpoll

theorem CountsPending.tryPollMany (hcount : r.CountsPending) :
    r.tryPollMany.1.length ≤ r.pendingCount.toNat ∧ r.tryPollMany.2.CountsPending :=
  hcount.advance rfl rfl

theorem CountsPending.moves (hcount : r.CountsPending) (h : r.Moves r') : r'.CountsPending := by
  cases h with
  | stays => exact hcount
  | starves => exact hcount
  | queues htry => exact hcount.trySubmit htry
  | flushes => exact hcount
  | polls hpoll => exact (hcount.poll hpoll).2
  | pollsMany => exact hcount.tryPollMany.2

/-- `has_pending` is false exactly when no request is queued, in the kernel or waiting to be
consumed. -/
theorem CountsPending.hasPending_eq_false_iff (hcount : r.CountsPending) :
    r.hasPending = false ↔ r.ring.queued = [] ∧ r.ring.inKernel = [] ∧ r.ring.cq = [] := by
  rw [← IoUring.outstanding_eq_zero_iff, ← Multiset.card_eq_zero, ← hcount]
  simp only [hasPending, decide_eq_false_iff_not, UInt64.lt_iff_toNat_lt]
  exact Nat.not_lt.trans Nat.le_zero

end Lemmas

end Ring

end Hnet
