import Mathlib.Algebra.Order.Group.Multiset
import Mathlib.Data.List.Perm.Basic

/-!
# io_uring as the repository uses it

liburing and the kernel are not part of the repository. What the code relies on is that
`io_uring_get_sqe` hands out the slots of the submission queue in order and fails exactly when all
of them are taken and not yet consumed, that `io_uring_submit` publishes every slot handed out so
far, that the SQPOLL thread consumes published SQEs in that order, and that each SQE yields one CQE
carrying its `user_data`. Both queues are kept as the full history together with the counters that
liburing and the kernel advance, so that the slot `i` of the history is the slot `i % entries` of
the ring.
-/

namespace Hnet

inductive Opcode where
  | recvmsg
  | sendmsg
  | accept
  | linkTimeout
  deriving DecidableEq, Repr

/-- A submission queue entry, its flags as `IOSQE_IO_LINK`, `IOSQE_ASYNC` and
`IORING_RECVSEND_POLL_FIRST`. `U` is the type of the addresses the process hands to the kernel:
`addr` is the memory the operation works on, `userData` what its CQE carries back. -/
structure Sqe (U : Type) where
  opcode : Opcode
  ioLink : Bool
  async : Bool
  pollFirst : Bool
  addr : U
  userData : U
  deriving DecidableEq, Repr

/-- `UsefulCqe`, the part of a completion the repository reads. -/
structure Cqe (U : Type) where
  userData : U
  res : Int
  deriving DecidableEq, Repr

/-- The state of one io_uring. The kernel holds its requests and completions in memory, so there
are at most `capacity` of them, and a machine with 64-bit addresses has room for fewer than `2^64`
of them and of the slots together. -/
structure IoUring (U : Type) where
  entries : Nat
  capacity : Nat
  /-- Every SQE handed out and filled in so far, in the order of `io_uring_get_sqe`. -/
  sqes : List (Sqe U)
  /-- How many of them `io_uring_submit` has published. -/
  ktail : Nat
  /-- How many of them the kernel has consumed. -/
  khead : Nat
  /-- The consumed SQEs whose operation has not completed. -/
  inKernel : List (Sqe U)
  /-- Every CQE posted so far, in the order of posting. -/
  cqes : List (Cqe U)
  /-- How many of them the process has consumed. -/
  cqHead : Nat
  fits : entries + capacity < 2 ^ 64
  khead_le : khead ≤ ktail
  ktail_le : ktail ≤ sqes.length
  length_le : sqes.length ≤ khead + entries
  cqHead_le : cqHead ≤ cqes.length
  held_le : inKernel.length + (cqes.length - cqHead) ≤ capacity
  /-- One CQE per SQE: what was consumed is still in the kernel or has been posted. -/
  accounted : (((sqes.take khead).map Sqe.userData : List U) : Multiset U)
    = (inKernel.map Sqe.userData : List U) + (cqes.map Cqe.userData : List U)

/-- What the SQPOLL thread can do: consume the oldest published SQE, or complete one of the
operations it works on, the `i`-th, with the result `res`. -/
inductive KernelEvent where
  | consume
  | complete (i : Nat) (res : Int)
  deriving DecidableEq, Repr

namespace IoUring

variable {U : Type}

/-- `io_uring_queue_init_params` -/
def init (entries capacity : Nat) (fits : entries + capacity < 2 ^ 64) : IoUring U where
  entries := entries
  capacity := capacity
  sqes := []
  ktail := 0
  khead := 0
  inKernel := []
  cqes := []
  cqHead := 0
  fits := fits
  khead_le := le_rfl
  ktail_le := le_rfl
  length_le := by simp
  cqHead_le := le_rfl
  held_le := by simp
  accounted := by simp

/-- The SQEs handed out and not yet consumed by the kernel, published or not. -/
def queued (r : IoUring U) : List (Sqe U) := r.sqes.drop r.khead

/-- The SQEs published to the kernel so far, in its order of consumption. -/
def published (r : IoUring U) : List (Sqe U) := r.sqes.take r.ktail

/-- The CQEs posted and not yet consumed by the process. -/
def cq (r : IoUring U) : List (Cqe U) := r.cqes.drop r.cqHead

/-- `io_uring_get_sqe` returns a slot. -/
def HasSlot (r : IoUring U) : Prop := r.sqes.length < r.khead + r.entries

instance (r : IoUring U) : Decidable r.HasSlot := inferInstanceAs (Decidable (_ < _))

/-- The slot that `io_uring_get_sqe` returned is filled in. -/
def queue (r : IoUring U) (sqe : Sqe U) (hslot : r.HasSlot) : IoUring U :=
  { r with
    sqes := r.sqes ++ [sqe]
    ktail_le := by
      rw [List.length_append]
      exact r.ktail_le.trans (Nat.le_add_right _ _)
    length_le := by
      rw [List.length_append, List.length_singleton]
      exact hslot
    accounted := by
      have hle := r.khead_le.trans r.ktail_le
      rw [List.take_append_of_le_length hle]
      exact r.accounted }

/-- `io_uring_submit` publishes every slot handed out so far. -/
def submit (r : IoUring U) : IoUring U :=
  { r with
    ktail := r.sqes.length
    khead_le := r.khead_le.trans r.ktail_le
    ktail_le := le_rfl }

/-- The published SQEs the kernel has not consumed, which is what `io_uring_submit` returns with
SQPOLL. -/
def unconsumed (r : IoUring U) : Nat := r.ktail - r.khead

/-- The SQPOLL thread takes the oldest published SQE. -/
def consume (r : IoUring U) : Option (IoUring U) :=
  if h : r.khead < r.ktail ∧ r.inKernel.length + (r.cqes.length - r.cqHead) < r.capacity then
    some
      { r with
        khead := r.khead + 1
        inKernel := r.inKernel ++ [r.sqes.get ⟨r.khead, h.1.trans_le r.ktail_le⟩]
        khead_le := h.1
        length_le := by have := r.length_le; omega
        held_le := by simp; omega
        accounted := by
          have hlt := h.1.trans_le r.ktail_le
          have hacc := r.accounted
          rw [List.take_add_one, List.getElem?_eq_getElem hlt]
          simp only [Option.toList_some, List.map_append, List.map_cons, List.map_nil,
            ← Multiset.coe_add, hacc]
          exact add_right_comm _ _ _ }
  else
    none

/-- The kernel finishes the `i`-th operation it works on and posts its CQE. -/
def complete (r : IoUring U) (i : Nat) (res : Int) : Option (IoUring U) :=
  if h : i < r.inKernel.length then
    some
      { r with
        inKernel := r.inKernel.eraseIdx i
        cqes := r.cqes ++ [⟨r.inKernel[i].userData, res⟩]
        cqHead_le := by
          rw [List.length_append]
          exact r.cqHead_le.trans (Nat.le_add_right _ _)
        held_le := by
          have hheld := r.held_le
          have hhead := r.cqHead_le
          simp only [List.length_eraseIdx_of_lt h, List.length_append, List.length_singleton]
          omega
        accounted := by
          have hperm := (List.getElem_cons_eraseIdx_perm h).map Sqe.userData
          have hkernel := Multiset.coe_eq_coe.mpr hperm
          rw [List.map_cons, ← Multiset.cons_coe] at hkernel
          rw [r.accounted, ← hkernel]
          simp only [List.map_append, List.map_cons, List.map_nil, ← Multiset.coe_add,
            ← Multiset.singleton_add, Multiset.coe_singleton]
          rw [add_comm {r.inKernel[i].userData}, add_assoc,
            add_comm {r.inKernel[i].userData}] }
  else
    none

def kernel (r : IoUring U) : KernelEvent → Option (IoUring U)
  | .consume => r.consume
  | .complete i res => r.complete i res

/-- `io_uring_peek_cqe` -/
def peek (r : IoUring U) : Option (Cqe U) := r.cq.head?

/-- `io_uring_cq_advance`, `io_uring_cqe_seen` for `n = 1`: the `n` CQEs that were peeked, or as
many as there are, leave the completion queue. -/
def advance (r : IoUring U) (n : Nat) : IoUring U :=
  { r with
    cqHead := r.cqHead + (r.cq.take n).length
    cqHead_le := by
      have := r.cqHead_le
      simp only [cq, List.length_take, List.length_drop]
      omega
    held_le := by have := r.held_le; omega }

/-- The SQEs whose operation has not completed, queued ones first. -/
def held (r : IoUring U) : List (Sqe U) := r.queued ++ r.inKernel

/-- Every request handed to a builder whose CQE has not been consumed, by its `user_data`: in the
submission queue, in the kernel or in the completion queue. -/
def outstanding (r : IoUring U) : Multiset U :=
  (r.held.map Sqe.userData : List U) + (r.cq.map Cqe.userData : List U)

/-! ### What each operation does to the requests -/

section Lemmas

variable {r r' : IoUring U} {sqe : Sqe U}

theorem queued_queue (hslot : r.HasSlot) : (r.queue sqe hslot).queued = r.queued ++ [sqe] := by
  have hle := r.khead_le.trans r.ktail_le
  simp only [queued, queue]
  rw [List.drop_append_of_le_length hle]

theorem hasSlot_iff : r.HasSlot ↔ r.queued.length < r.entries := by
  have hkhead := r.khead_le.trans r.ktail_le
  simp only [HasSlot, queued, List.length_drop]
  omega

/-- With an SQE that is not queued any more, all SQEs before it have been consumed. -/
theorem length_queued_le_of_notMem {before after : List (Sqe U)}
    (hsqes : r.sqes = before ++ sqe :: after) (hpassed : sqe ∉ r.queued) :
    r.queued.length ≤ after.length := by
  rw [queued, hsqes] at hpassed ⊢
  rcases Nat.lt_or_ge before.length r.khead with hlt | hle
  · simp only [List.length_drop, List.length_append, List.length_cons]
    omega
  · rw [List.drop_append_of_le_length hle] at hpassed
    exact absurd (List.mem_append_right _ List.mem_cons_self) hpassed

theorem userData_mem_outstanding (hqueued : sqe ∈ r.queued) : sqe.userData ∈ r.outstanding := by
  refine Multiset.mem_add.mpr (Or.inl (Multiset.mem_coe.mpr ?_))
  exact List.mem_map_of_mem (List.mem_append_left _ hqueued)

theorem held_queue_perm (hslot : r.HasSlot) : (r.queue sqe hslot).held.Perm (sqe :: r.held) := by
  simp only [held, queued_queue]
  have hsplit : r.queued ++ [sqe] ++ (r.queue sqe hslot).inKernel
      = r.queued ++ sqe :: r.inKernel := by simp [queue]
  rw [hsplit]
  exact List.perm_middle

theorem mem_held_queue {e : Sqe U} (hslot : r.HasSlot) :
    e ∈ (r.queue sqe hslot).held ↔ e = sqe ∨ e ∈ r.held := by
  rw [(held_queue_perm hslot).mem_iff, List.mem_cons]

theorem outstanding_queue (hslot : r.HasSlot) :
    (r.queue sqe hslot).outstanding = sqe.userData ::ₘ r.outstanding := by
  have hperm : (r.queue sqe hslot).held.Perm (sqe :: r.held) := held_queue_perm hslot
  have hheld := Multiset.coe_eq_coe.mpr (hperm.map Sqe.userData)
  simp only [outstanding, hheld, List.map_cons, ← Multiset.cons_coe, Multiset.cons_add]
  rfl

@[simp]
theorem held_submit : r.submit.held = r.held := rfl

@[simp]
theorem outstanding_submit : r.submit.outstanding = r.outstanding := rfl

theorem kernel_cases {e : KernelEvent} (h : r.kernel e = some r') :
    (∃ sqe, r.queued = sqe :: r'.queued ∧ r.khead < r.ktail ∧ r'.khead = r.khead + 1
      ∧ r'.inKernel = r.inKernel ++ [sqe] ∧ r'.cqes = r.cqes ∧ r'.cq = r.cq) ∨
    (∃ sqe res, (sqe :: r'.inKernel).Perm r.inKernel ∧ r'.khead = r.khead
      ∧ r'.queued = r.queued ∧ r'.cqes = r.cqes ++ [⟨sqe.userData, res⟩]
      ∧ r'.cq = r.cq ++ [⟨sqe.userData, res⟩]) := by
  cases e with
  | consume =>
      left
      simp only [kernel, consume] at h
      split at h
      · rename_i hcan
        obtain rfl := Option.some.inj h
        refine ⟨_, ?_, hcan.1, rfl, rfl, rfl, rfl⟩
        exact List.drop_eq_getElem_cons (hcan.1.trans_le r.ktail_le)
      · cases h
  | complete i res =>
      right
      simp only [kernel, complete] at h
      split at h
      · rename_i hlt
        obtain rfl := Option.some.inj h
        refine ⟨r.inKernel[i], res, List.getElem_cons_eraseIdx_perm hlt, rfl, rfl, rfl, ?_⟩
        simp only [cq]
        rw [List.drop_append_of_le_length r.cqHead_le]
      · cases h

theorem complete_cases {i : Nat} {res : Int} (h : r.complete i res = some r') :
    ∃ sqe, r.inKernel[i]? = some sqe ∧ r'.cq = r.cq ++ [⟨sqe.userData, res⟩] := by
  simp only [complete] at h
  split at h
  · rename_i hlt
    obtain rfl := Option.some.inj h
    exact ⟨r.inKernel[i], List.getElem?_eq_getElem hlt, List.drop_append_of_le_length r.cqHead_le⟩
  · cases h

theorem kernel_frame {e : KernelEvent} (h : r.kernel e = some r') :
    r'.entries = r.entries ∧ r'.sqes = r.sqes ∧ r'.ktail = r.ktail ∧ r'.cqHead = r.cqHead := by
  cases e with
  | consume =>
      simp only [kernel, consume] at h
      split at h
      · obtain rfl := Option.some.inj h
        exact ⟨rfl, rfl, rfl, rfl⟩
      · cases h
  | complete i res =>
      simp only [kernel, complete] at h
      split at h
      · obtain rfl := Option.some.inj h
        exact ⟨rfl, rfl, rfl, rfl⟩
      · cases h

theorem kernel_capacity {e : KernelEvent} (h : r.kernel e = some r') :
    r'.capacity = r.capacity := by
  cases e with
  | consume =>
      simp only [kernel, consume] at h
      split at h
      · obtain rfl := Option.some.inj h
        rfl
      · cases h
  | complete i res =>
      simp only [kernel, complete] at h
      split at h
      · obtain rfl := Option.some.inj h
        rfl
      · cases h

theorem consume_enabled (hpublished : r.khead < r.ktail)
    (hroom : r.inKernel.length + r.cq.length < r.capacity) :
    ∃ r', r.kernel .consume = some r' := by
  rw [cq, List.length_drop] at hroom
  exact ⟨_, dif_pos ⟨hpublished, hroom⟩⟩

theorem complete_enabled {i : Nat} (h : i < r.inKernel.length) (res : Int) :
    ∃ r', r.kernel (.complete i res) = some r' := ⟨_, dif_pos h⟩

theorem length_queued_kernel_le {e : KernelEvent} (h : r.kernel e = some r') :
    r'.queued.length ≤ r.queued.length := by
  rcases kernel_cases h with ⟨sqe, hqueued, _⟩ | ⟨_, _, _, _, hqueued, _⟩
  · rw [hqueued]
    exact Nat.le_succ _
  · rw [hqueued]

theorem kernel_cqes {e : KernelEvent} (h : r.kernel e = some r') :
    ∃ posted, r'.cqes = r.cqes ++ posted ∧ ∀ c ∈ posted, ∃ i, e = .complete i c.res := by
  cases e with
  | consume =>
      simp only [kernel, consume] at h
      split at h
      · obtain rfl := Option.some.inj h
        exact ⟨[], (List.append_nil _).symm, fun c hc => by cases hc⟩
      · cases h
  | complete i res =>
      simp only [kernel, complete] at h
      split at h
      · obtain rfl := Option.some.inj h
        exact ⟨_, rfl, fun c hc => ⟨i, by rw [List.mem_singleton.mp hc]⟩⟩
      · cases h

/-- What tells the SQEs apart tells the CQEs apart. -/
theorem nodup_map_cqes {V : Type} {f : U → V} (h : (r.sqes.map fun e => f e.userData).Nodup) :
    (r.cqes.map fun c => f c.userData).Nodup := by
  have hconsumed : ((r.sqes.take r.khead).map fun e => f e.userData).Nodup :=
    h.sublist ((List.take_sublist _ _).map _)
  have hsum := congrArg (Multiset.map f) r.accounted
  simp only [Multiset.map_add, Multiset.map_coe, List.map_map] at hsum
  have hnodup := Multiset.coe_nodup.mpr hconsumed
  rw [show (fun e : Sqe U => f e.userData) = f ∘ Sqe.userData from rfl, hsum] at hnodup
  exact Multiset.coe_nodup.mp (Multiset.nodup_of_le (Multiset.le_add_left _ _) hnodup)

/-- When no two SQEs carry the same `user_data`, no two CQEs do. -/
theorem nodup_cqes (h : (r.sqes.map Sqe.userData).Nodup) : (r.cqes.map Cqe.userData).Nodup :=
  nodup_map_cqes (f := id) h

theorem mem_cqes_of_mem_cq {c : Cqe U} (h : c ∈ r.cq) : c ∈ r.cqes := List.mem_of_mem_drop h

theorem mem_held_of_kernel {e : KernelEvent} (h : r.kernel e = some r') {x : Sqe U}
    (hx : x ∈ r'.held) : x ∈ r.held := by
  rcases kernel_cases h with ⟨sqe, hqueued, _, _, hkernel, _, _⟩ |
    ⟨sqe, res, hperm, _, hqueued, _, _⟩
  · simp only [held, hqueued, hkernel, List.mem_append, List.mem_cons] at hx ⊢
    tauto
  · simp only [held, hqueued, List.mem_append] at hx ⊢
    exact hx.imp_right fun hmem => hperm.mem_iff.mp (List.mem_cons_of_mem _ hmem)

/-- The kernel moves requests along, it neither adds nor drops one. -/
theorem outstanding_kernel {e : KernelEvent} (h : r.kernel e = some r') :
    r'.outstanding = r.outstanding := by
  rcases kernel_cases h with ⟨sqe, hqueued, _, _, hkernel, _, hcq⟩ |
    ⟨sqe, res, hperm, _, hqueued, _, hcq⟩
  · have hheld : r'.held.Perm r.held := by
      simp only [held, hqueued, hkernel]
      have hsplit : r'.queued ++ (r.inKernel ++ [sqe]) = (r'.queued ++ r.inKernel) ++ [sqe] := by
        simp
      rw [hsplit]
      exact List.perm_append_singleton sqe _
    simp only [outstanding, hcq, Multiset.coe_eq_coe.mpr (hheld.map Sqe.userData)]
  · have hheld : (sqe :: r'.held).Perm r.held := by
      simp only [held, hqueued]
      exact List.perm_middle.symm.trans (hperm.append_left r.queued)
    have hheldCount := Multiset.coe_eq_coe.mpr (hheld.map Sqe.userData)
    have hcqCount : ((r'.cq.map Cqe.userData : List U) : Multiset U)
        = sqe.userData ::ₘ (r.cq.map Cqe.userData : List U) := by
      rw [hcq, Multiset.cons_coe, Multiset.coe_eq_coe, List.map_append]
      exact List.perm_append_singleton _ _
    calc
      r'.outstanding = (r'.held.map Sqe.userData : List U)
          + (sqe.userData ::ₘ (r.cq.map Cqe.userData : List U)) := by rw [outstanding, hcqCount]
      _ = ((sqe :: r'.held).map Sqe.userData : List U) + (r.cq.map Cqe.userData : List U) := by
        rw [List.map_cons, ← Multiset.cons_coe, Multiset.add_cons, Multiset.cons_add]
      _ = r.outstanding := by rw [hheldCount, outstanding]

theorem cq_advance (n : Nat) : (r.advance n).cq = r.cq.drop n := by
  simp only [cq, advance, List.length_take, List.length_drop, List.drop_drop]
  rcases Nat.le_total n (r.cqes.length - r.cqHead) with hle | hle
  · rw [Nat.min_eq_left hle]
  · rw [Nat.min_eq_right hle, List.drop_of_length_le (by have := r.cqHead_le; omega),
      List.drop_of_length_le (by omega)]

@[simp]
theorem held_advance (n : Nat) : (r.advance n).held = r.held := rfl

theorem outstanding_advance (n : Nat) :
    r.outstanding = ((r.cq.take n).map Cqe.userData : List U) + (r.advance n).outstanding := by
  have hsplit : (r.cq.map Cqe.userData)
      = (r.cq.take n).map Cqe.userData ++ (r.cq.drop n).map Cqe.userData := by
    rw [← List.map_append, List.take_append_drop]
  simp only [outstanding, held_advance, cq_advance, hsplit, ← Multiset.coe_add]
  exact add_left_comm _ _ _

theorem cons_of_peek {c : Cqe U} (h : r.peek = some c) : r.cq = c :: (r.advance 1).cq := by
  obtain ⟨rest, hrest⟩ := List.head?_eq_some_iff.mp h
  rw [cq_advance, hrest]
  rfl

theorem take_cqes_of_peek {c : Cqe U} (h : r.peek = some c) :
    r.cqes.take (r.cqHead + 1) = r.cqes.take r.cqHead ++ [c] := by
  have hcq : r.cqes.drop r.cqHead = c :: (r.advance 1).cq := cons_of_peek h
  rw [List.take_add, hcq]
  rfl

theorem cqHead_advance_of_peek {c : Cqe U} (h : r.peek = some c) :
    (r.advance 1).cqHead = r.cqHead + 1 := by
  have htaken : (r.cq.take 1).length = 1 := by
    rw [cons_of_peek h]
    rfl
  exact congrArg (r.cqHead + ·) htaken

/-- The oldest completion stays the oldest while the kernel posts others. -/
theorem peek_kernel {e : KernelEvent} {c : Cqe U} (h : r.kernel e = some r')
    (hpeek : r.peek = some c) : r'.peek = some c := by
  rcases kernel_cases h with ⟨_, _, _, _, _, _, hcq⟩ | ⟨sqe, res, _, _, _, _, hcq⟩
  · rw [peek, hcq]
    exact hpeek
  · rw [peek, hcq, cons_of_peek hpeek]
    rfl

/-- The completions taken so far stay as they are while the kernel posts others. -/
theorem take_cqes_kernel {e : KernelEvent} (h : r.kernel e = some r') :
    r'.cqes.take r'.cqHead = r.cqes.take r.cqHead := by
  obtain ⟨posted, hcqes, _⟩ := kernel_cqes h
  rw [hcqes, (kernel_frame h).2.2.2, List.take_append_of_le_length r.cqHead_le]

theorem outstanding_of_peek {c : Cqe U} (h : r.peek = some c) :
    r.outstanding = c.userData ::ₘ (r.advance 1).outstanding := by
  rw [outstanding_advance 1, cons_of_peek h]
  rfl

theorem userData_mem_of_peek {c : Cqe U} (h : r.peek = some c) : c.userData ∈ r.outstanding := by
  rw [outstanding_of_peek h]
  exact Multiset.mem_cons_self _ _

/-- The number of outstanding requests: those built, less the CQEs consumed. -/
theorem card_outstanding : Multiset.card r.outstanding = r.sqes.length - r.cqHead := by
  have hacc := congrArg Multiset.card r.accounted
  have hk := r.khead_le
  have ht := r.ktail_le
  have hc := r.cqHead_le
  simp only [Multiset.card_add, Multiset.coe_card, List.length_map, List.length_take] at hacc
  simp only [outstanding, held, queued, cq, Multiset.card_add, Multiset.coe_card, List.length_map,
    List.length_append, List.length_drop]
  omega

/-- The requests outstanding at one time fit in a `size_t`. -/
theorem card_outstanding_lt : Multiset.card r.outstanding < 2 ^ 64 := by
  have hfits := r.fits
  have hlen := r.length_le
  have hheld := r.held_le
  simp only [outstanding, held, queued, cq, Multiset.card_add, Multiset.coe_card, List.length_map,
    List.length_append, List.length_drop]
  omega

theorem outstanding_eq_zero_iff :
    r.outstanding = 0 ↔ r.queued = [] ∧ r.inKernel = [] ∧ r.cq = [] := by
  rw [← Multiset.card_eq_zero]
  simp only [outstanding, held, Multiset.card_add, Multiset.coe_card, List.length_map,
    List.length_append, Nat.add_eq_zero_iff, List.length_eq_zero_iff, and_assoc]

end Lemmas

/-! ### What has been posted for an address -/

section Posted

variable [DecidableEq U] {r r' : IoUring U}

/-- The result of the first CQE that carries this `user_data`. -/
def posted (r : IoUring U) (u : U) : Option Int :=
  (r.cqes.find? fun c => c.userData = u).map Cqe.res

theorem posted_eq_none_iff {u : U} : r.posted u = none ↔ u ∉ r.cqes.map Cqe.userData := by
  rw [posted, Option.map_eq_none_iff, List.find?_eq_none]
  simp only [decide_eq_true_eq, List.mem_map, not_exists, not_and]

theorem posted_of_mem (hnodup : (r.cqes.map Cqe.userData).Nodup) {c : Cqe U} (hc : c ∈ r.cqes) :
    r.posted c.userData = some c.res := by
  cases hfound : r.cqes.find? fun d => d.userData = c.userData with
  | none =>
      have hne := List.find?_eq_none.mp hfound c hc
      exact absurd (decide_eq_true rfl) hne
  | some d =>
      have hsame : d.userData = c.userData := by simpa using List.find?_some hfound
      have heq : d = c :=
        List.inj_on_of_nodup_map hnodup (List.mem_of_find?_eq_some hfound) hc hsame
      rw [posted, hfound, heq]
      rfl

theorem mem_of_posted {u : U} {res : Int} (h : r.posted u = some res) : ⟨u, res⟩ ∈ r.cqes := by
  obtain ⟨c, hfound, rfl⟩ := Option.map_eq_some_iff.mp h
  have hsame : c.userData = u := by simpa using List.find?_some hfound
  exact hsame ▸ List.mem_of_find?_eq_some hfound

theorem posted_concat {c : Cqe U} (h : r'.cqes = r.cqes ++ [c]) (u : U) :
    r'.posted u = (r.posted u).or (if c.userData = u then some c.res else none) := by
  rw [posted, h, List.find?_append, posted]
  cases hfound : r.cqes.find? fun d => d.userData = u with
  | none =>
      by_cases heq : c.userData = u
      · simp [heq]
      · simp [heq]
  | some d => rfl

omit [DecidableEq U] in
theorem mem_sqes_of_mem_cqes {u : U} (h : u ∈ r.cqes.map Cqe.userData) :
    u ∈ r.sqes.map Sqe.userData := by
  have hmem : u ∈ (((r.sqes.take r.khead).map Sqe.userData : List U) : Multiset U) := by
    rw [r.accounted]
    exact Multiset.mem_add.mpr (Or.inr (Multiset.mem_coe.mpr h))
  obtain ⟨sqe, hsqe, rfl⟩ := List.mem_map.mp (Multiset.mem_coe.mp hmem)
  exact List.mem_map_of_mem (List.mem_of_mem_take hsqe)

omit [DecidableEq U] in
/-- Nothing has been posted for an operation that has not completed. -/
theorem notMem_cqes_of_mem_held (hnodup : (r.sqes.map Sqe.userData).Nodup) {sqe : Sqe U}
    (h : sqe ∈ r.held) : sqe.userData ∉ r.cqes.map Cqe.userData := by
  rw [← List.take_append_drop r.khead r.sqes, List.map_append, List.nodup_append'] at hnodup
  obtain ⟨hconsumed, _, hdisjoint⟩ := hnodup
  have hsum := Multiset.coe_nodup.mpr hconsumed
  rw [r.accounted, Multiset.nodup_add] at hsum
  rcases List.mem_append.mp h with hqueued | hkernel
  · intro hposted
    have hbefore :
        sqe.userData ∈ (((r.sqes.take r.khead).map Sqe.userData : List U) : Multiset U) := by
      rw [r.accounted]
      exact Multiset.mem_add.mpr (Or.inr (Multiset.mem_coe.mpr hposted))
    exact hdisjoint (Multiset.mem_coe.mp hbefore) (List.mem_map_of_mem hqueued)
  · exact Multiset.disjoint_left.mp hsum.2.2 (Multiset.mem_coe.mpr (List.mem_map_of_mem hkernel))

omit [DecidableEq U] in
theorem complete_of_kernel {i : Nat} {res : Int} (h : r.kernel (.complete i res) = some r') :
    ∃ sqe, r.inKernel[i]? = some sqe ∧ sqe ∈ r.inKernel
      ∧ r'.cqes = r.cqes ++ [⟨sqe.userData, res⟩] := by
  simp only [kernel, complete] at h
  split at h
  · rename_i hlt
    obtain rfl := Option.some.inj h
    exact ⟨r.inKernel[i], List.getElem?_eq_getElem hlt, List.getElem_mem hlt, rfl⟩
  · cases h

end Posted

end IoUring

end Hnet
