import Hnet.Netring.Callbacks
import Mathlib.Data.Multiset.Range

/-!
# The contexts of the callbacks

A context is in the pool, with an operation in flight, or with the callback that runs. That holds as
long as an operation finds a context and a slot: nothing looks whether the pool is empty or
`io_uring_get_sqe` returned null.
-/

namespace Hnet.Netring

open Lts

namespace CallbackUring

variable {K : Type} {s s' : CallbackUring K}

/-- The completion whose callback runs. -/
def running (s : CallbackUring K) : List (Cqe OpContext) := s.pc.completion

/-- The operations whose callbacks have not begun. -/
def inFlight (s : CallbackUring K) : Multiset OpContext :=
  (s.uring.advance s.running.length).outstanding

/-- The completions that `poll` has come to, in order. -/
def polled (s : CallbackUring K) : List (Cqe OpContext) :=
  s.uring.cqes.take s.uring.cqHead ++ s.running

structure Partitioned (s : CallbackUring K) : Prop where
  contexts : (s.contextsPool : Multiset CtxId) + s.inFlight.map OpContext.ctx
    + (s.running.map fun cqe => cqe.userData.ctx : List CtxId) = Multiset.range 1000
  /-- each completion runs the callback given with its operation -/
  callbacks : s.ran.map some = s.polled.map fun cqe => s.given[cqe.userData.op]?
  once : (s.polled.map fun cqe => cqe.userData.op).Nodup
  not_empty : s.pc ≠ .emptyPool
  not_bad : s.pc ≠ .badCall

/-- What is kept. The context of a callback that runs is still with its completion. -/
structure Keeps (s : CallbackUring K) : Prop where
  contexts : (s.contextsPool : Multiset CtxId) + s.uring.outstanding.map OpContext.ctx
    = Multiset.range 1000
  ops : (s.uring.sqes.map fun e => e.userData.op) = List.range s.given.length
  held : ∀ u ∈ s.uring.outstanding, ∃ cb, s.cb u.ctx = some cb ∧ s.given[u.op]? = some cb
  peeked : ∀ cqe, s.pc = .running cqe → s.uring.peek = some cqe
  callbacks : s.ran.map some = s.polled.map fun cqe => s.given[cqe.userData.op]?
  live : s.pc.CanStart

theorem running_cases (h : s.pc.CanStart) :
    s.pc = .idle ∧ s.running = [] ∨ ∃ cqe, s.pc = .running cqe ∧ s.running = [cqe] := by
  unfold running
  cases hpc : s.pc with
  | idle => exact .inl ⟨rfl, rfl⟩
  | running cqe => exact .inr ⟨cqe, rfl, rfl⟩
  | emptyPool | nullSqe | badCall =>
      rw [hpc] at h
      exact h.elim

theorem Keeps.outstanding_eq (h : Keeps s) : s.uring.outstanding
    = s.inFlight + (s.running.map Cqe.userData : List OpContext) := by
  rw [inFlight, s.uring.outstanding_advance s.running.length, add_comm]
  obtain ⟨-, hrunning⟩ | ⟨cqe, hpc, hrunning⟩ := running_cases h.live
  · rw [hrunning]
    rfl
  · rw [hrunning, IoUring.cons_of_peek (h.peeked cqe hpc)]
    rfl

theorem Keeps.polled_eq (h : Keeps s) :
    s.polled = s.uring.cqes.take (s.uring.cqHead + s.running.length) := by
  rw [polled]
  obtain ⟨-, hrunning⟩ | ⟨cqe, hpc, hrunning⟩ := running_cases h.live
  · rw [hrunning, List.append_nil]
    rfl
  · rw [hrunning, ← IoUring.take_cqes_of_peek (h.peeked cqe hpc)]
    rfl

theorem Keeps.pc_ne (h : Keeps s) {pc : CallbackPc} (hstuck : ¬ pc.CanStart) : s.pc ≠ pc :=
  fun heq => hstuck (heq ▸ h.live)

theorem Keeps.partitioned (h : Keeps s) : Partitioned s where
  contexts := by
    have hcontexts := h.contexts
    rw [h.outstanding_eq, Multiset.map_add, Multiset.map_coe, List.map_map, ← add_assoc]
      at hcontexts
    exact hcontexts
  callbacks := h.callbacks
  once := by
    have hops : (s.uring.sqes.map fun e => e.userData.op).Nodup := h.ops ▸ List.nodup_range
    rw [h.polled_eq]
    exact (IoUring.nodup_map_cqes (f := OpContext.op) hops).sublist
      ((List.take_sublist _ _).map _)
  not_empty := h.pc_ne id
  not_bad := h.pc_ne id

/-! ### Each step -/

theorem keeps_init (capacity : Nat) (fits : 8 + capacity < 2 ^ 64) :
    Keeps (init capacity fits : CallbackUring K) where
  contexts := by
    have hnone : (init capacity fits : CallbackUring K).uring.outstanding = 0 := rfl
    rw [hnone, Multiset.map_zero, add_zero, init, Multiset.range]
  ops := rfl
  held u hu := absurd hu (Multiset.notMem_zero u)
  peeked cqe hpc := by cases hpc
  callbacks := rfl
  live := trivial

/-- The contexts of the operations are not in the pool and differ from each other. -/
theorem Keeps.nodup (h : Keeps s) :
    ((s.contextsPool : Multiset CtxId) + s.uring.outstanding.map OpContext.ctx).Nodup := by
  rw [h.contexts]
  exact Multiset.nodup_range 1000

/-- A context apart from those of the operations. -/
theorem ctx_ne_of_nodup_cons {ctx : CtxId} {pool : Multiset CtxId} {users : Multiset OpContext}
    (h : (ctx ::ₘ (pool + users.map OpContext.ctx)).Nodup) {u : OpContext} (hu : u ∈ users) :
    u.ctx ≠ ctx := by
  rintro rfl
  exact (Multiset.nodup_cons.mp h).1
    (Multiset.mem_add.mpr (.inr (Multiset.mem_map_of_mem OpContext.ctx hu)))

theorem Keeps.card_eq (h : Keeps s) :
    s.contextsPool.length + Multiset.card s.uring.outstanding = 1000 := by
  have hcard := congrArg Multiset.card h.contexts
  rwa [Multiset.card_add, Multiset.card_map, Multiset.coe_card, Multiset.card_range] at hcard

theorem Keeps.kernel {e : KernelEvent} {uring : IoUring OpContext} (h : Keeps s)
    (hkernel : s.uring.kernel e = some uring) : Keeps { s with uring := uring } where
  contexts := by
    rw [IoUring.outstanding_kernel hkernel]
    exact h.contexts
  ops := by
    rw [(IoUring.kernel_frame hkernel).2.1]
    exact h.ops
  held := by
    rw [IoUring.outstanding_kernel hkernel]
    exact h.held
  peeked cqe hpc := IoUring.peek_kernel hkernel (h.peeked cqe hpc)
  callbacks := by
    rw [polled, IoUring.take_cqes_kernel hkernel]
    exact h.callbacks
  live := h.live

/-- A callback given later changes nothing for the operations before. -/
theorem getElem?_given_append {given : List K} {op : Nat} {cb cb' : K}
    (h : given[op]? = some cb) : (given ++ [cb'])[op]? = some cb := by
  rw [List.getElem?_append_left (List.getElem?_eq_some_iff.mp h).1, h]

theorem Keeps.start_of_slot {opcode : Opcode} {cb : K} {ctx : CtxId} {rest : List CtxId}
    (h : Keeps s) (hpool : s.contextsPool = ctx :: rest) (hslot : s.uring.HasSlot) :
    Keeps (s.start opcode cb) := by
  have hnodup := h.nodup
  have hcontexts := h.contexts
  rw [hpool, ← Multiset.cons_coe, Multiset.cons_add] at hnodup hcontexts
  rw [CallbackUring.start_of_slot hpool hslot]
  refine
    { contexts := ?_
      ops := ?_
      held := fun u hu => ?_
      peeked := fun cqe hpc => h.peeked cqe hpc
      callbacks := ?_
      live := h.live }
  · rw [IoUring.outstanding_submit, IoUring.outstanding_queue, Multiset.map_cons,
      Multiset.add_cons]
    exact hcontexts
  · simp only [IoUring.submit, IoUring.queue, List.map_append, h.ops, List.length_append,
      List.length_singleton, List.range_succ]
    rfl
  · rw [IoUring.outstanding_submit, IoUring.outstanding_queue, Multiset.mem_cons] at hu
    rcases hu with rfl | hu
    · exact ⟨cb, Function.update_self .., List.getElem?_concat_length ..⟩
    · obtain ⟨cb', hcb, hgiven⟩ := h.held u hu
      exact ⟨cb', (Function.update_of_ne (ctx_ne_of_nodup_cons hnodup hu) _ _).trans hcb,
        getElem?_given_append hgiven⟩
  · refine h.callbacks.trans (List.map_congr_left fun cqe hcqe => ?_)
    have hsome : s.given[cqe.userData.op]? ∈ s.ran.map some := by
      rw [h.callbacks]
      exact List.mem_map_of_mem hcqe
    obtain ⟨cb', _, hcb'⟩ := List.mem_map.mp hsome
    rw [← hcb', getElem?_given_append hcb'.symm]

theorem Keeps.poll {cqe : Cqe OpContext} (h : Keeps s) (hpc : s.pc = .idle)
    (hpeek : s.uring.peek = some cqe) : Keeps (s.poll cqe) := by
  obtain ⟨cb, hcb, hgiven⟩ := h.held _ (IoUring.userData_mem_of_peek hpeek)
  have hidle : s.polled = s.uring.cqes.take s.uring.cqHead := by
    rw [polled, running, hpc]
    exact List.append_nil _
  rw [poll_of_cb hcb]
  refine
    { contexts := h.contexts
      ops := h.ops
      held := h.held
      peeked := fun cqe' hpc' => ?_
      callbacks := ?_
      live := trivial }
  · cases hpc'
    exact hpeek
  · have hcallbacks := h.callbacks
    have hlast : [cb].map some = [cqe].map fun cqe => s.given[cqe.userData.op]? := by
      rw [List.map_singleton, List.map_singleton, hgiven]
    rw [hidle] at hcallbacks
    rw [List.map_append, hcallbacks, hlast, ← List.map_append]
    rfl

theorem Keeps.returned {cqe : Cqe OpContext} (h : Keeps s) (hpc : s.pc = .running cqe) :
    Keeps (s.returned cqe) := by
  have hpeek := h.peeked cqe hpc
  have houtstanding := IoUring.outstanding_of_peek hpeek
  have hcontexts := h.contexts
  have hnodup := h.nodup
  rw [houtstanding, Multiset.map_cons, Multiset.add_cons] at hcontexts hnodup
  refine
    { contexts := ?_
      ops := h.ops
      held := fun u hu => ?_
      peeked := fun cqe' hpc' => by cases hpc'
      callbacks := ?_
      live := trivial }
  · have hback : ((s.contextsPool ++ [cqe.userData.ctx] : List CtxId) : Multiset CtxId)
        = cqe.userData.ctx ::ₘ (s.contextsPool : Multiset CtxId) :=
      Multiset.coe_eq_coe.mpr (List.perm_append_singleton _ _)
    rw [CallbackUring.returned, hback, Multiset.cons_add]
    exact hcontexts
  · have hbefore : u ∈ s.uring.outstanding := by
      rw [houtstanding]
      exact Multiset.mem_cons_of_mem hu
    obtain ⟨cb, hcb, hgiven⟩ := h.held u hbefore
    exact ⟨cb, (Function.update_of_ne (ctx_ne_of_nodup_cons hnodup hu) _ _).trans hcb, hgiven⟩
  · have hpolled : (s.returned cqe).polled = s.polled := by
      rw [h.polled_eq, polled, running, running, hpc]
      exact (List.append_nil _).trans
        (congrArg s.uring.cqes.take (IoUring.cqHead_advance_of_peek hpeek))
    rw [hpolled]
    exact h.callbacks

/-! ### Runs -/

/-- An operation that the step starts finds a context and a slot: fewer than a thousand operations
have not returned from their callbacks, and the submission queue is not full. -/
def HasRoom (s : CallbackUring K) (e : Event K) : Prop :=
  ∀ start, e.starts = some start → Multiset.card s.uring.outstanding < 1000 ∧ s.uring.HasSlot

instance (s : CallbackUring K) : ∀ e : Event K, Decidable (HasRoom s e)
  | .sendmsg _ | .recvmsg _ =>
      decidable_of_iff (Multiset.card s.uring.outstanding < 1000 ∧ s.uring.HasSlot)
        ⟨fun h _ _ => h, fun h => h _ rfl⟩
  | .kernel _ | .poll | .pollThrows | .returned => isTrue fun _ h => by cases h

theorem Keeps.step {e : Event K} (h : Keeps s) (hroom : HasRoom s e)
    (hstep : s.step e = some s') : Keeps s' := by
  rcases step_cases hstep with ⟨k, uring, -, hkernel, rfl⟩ | ⟨opcode, cb, hstarts, -, rfl⟩ |
    ⟨cqe, -, hpc, hpeek, rfl⟩ | ⟨-, rfl⟩ | ⟨cqe, -, hpc, rfl⟩
  · exact h.kernel hkernel
  · obtain ⟨hfewer, hslot⟩ := hroom _ hstarts
    have hcard := h.card_eq
    obtain ⟨ctx, rest, hpool⟩ := List.exists_cons_of_length_pos (l := s.contextsPool) (by omega)
    exact h.start_of_slot hpool hslot
  · exact h.poll hpc hpeek
  · exact h
  · exact h.returned hpc

theorem hasRoom_of_starts_eq_none {e : Event K} (h : e.starts = none) : HasRoom s e := by
  intro start hstart
  rw [h] at hstart
  cases hstart

theorem not_partitioned_emptyPool (h : s.contextsPool = []) (opcode : Opcode) (cb : K) :
    ¬ Partitioned (s.start opcode cb) := by
  intro hpartitioned
  rw [start_of_empty h] at hpartitioned
  exact hpartitioned.not_empty rfl

/-- The context that was taken for the SQE is nowhere. -/
theorem Keeps.not_partitioned_nullSqe {ctx : CtxId} {rest : List CtxId} (h : Keeps s)
    (hpool : s.contextsPool = ctx :: rest) (hfull : ¬ s.uring.HasSlot) (opcode : Opcode) (cb : K) :
    ¬ Partitioned (s.start opcode cb) := by
  intro hpartitioned
  have hcard := congrArg Multiset.card hpartitioned.contexts
  have hbefore := h.card_eq
  have hall : (s.uring.advance 0).outstanding = s.uring.outstanding := by
    rw [s.uring.outstanding_advance 0, List.take_zero]
    exact (zero_add _).symm
  rw [start_of_full hpool hfull] at hcard
  simp only [inFlight, running, CallbackPc.completion, List.length_nil, List.map_nil, hall,
    Multiset.card_add, Multiset.card_map, Multiset.coe_card, Multiset.card_range] at hcard
  rw [hpool, List.length_cons] at hbefore
  omega

theorem Keeps.not_partitioned {e : Event K} (h : Keeps s) (hnot : ¬ HasRoom s e)
    (hstep : s.step e = some s') : ¬ Partitioned s' := by
  rcases step_cases hstep with ⟨k, uring, rfl, -, -⟩ | ⟨opcode, cb, hstarts, -, rfl⟩ |
    ⟨cqe, rfl, -, -, -⟩ | ⟨rfl, -⟩ | ⟨cqe, rfl, -, -⟩
  · exact absurd (hasRoom_of_starts_eq_none rfl) hnot
  · cases hpool : s.contextsPool with
    | nil => exact not_partitioned_emptyPool hpool opcode cb
    | cons ctx rest =>
        refine h.not_partitioned_nullSqe hpool (fun hslot => hnot ?_) opcode cb
        have hcard := h.card_eq
        rw [hpool, List.length_cons] at hcard
        exact fun start hstart => ⟨by omega, hslot⟩
  · exact absurd (hasRoom_of_starts_eq_none rfl) hnot
  · exact absurd (hasRoom_of_starts_eq_none rfl) hnot
  · exact absurd (hasRoom_of_starts_eq_none rfl) hnot

/-- **The contexts are partitioned exactly as long as each operation finds a context and a
slot.** -/
theorem partitioned_throughout (capacity : Nat) (fits : 8 + capacity < 2 ^ 64)
    (es : List (Event K)) : Throughout step Partitioned (init capacity fits) es ↔
      Along step HasRoom (init capacity fits) es :=
  throughout_iff_along es (keeps_init capacity fits) (fun _ h => h.partitioned)
    (fun _ _ _ h hroom hstep => h.step hroom hstep)
    (fun _ _ _ h hnot hstep => h.not_partitioned hnot hstep)

/-- A receive whose callback sends. -/
theorem partitioned_throughout_reply : Throughout step Partitioned
    (init 16 (by decide) : CallbackUring String)
    [.recvmsg "onReceive", .kernel .consume, .kernel (.complete 0 5), .poll, .sendmsg "onSend",
      .returned, .kernel .consume, .kernel (.complete 0 5), .poll, .returned] :=
  (partitioned_throughout 16 (by decide) _).mpr (by decide +kernel)

/-! ### Too many receives -/

/-- A thousand contexts less `k`, which the kernel holds in receives. -/
structure Receiving (s : CallbackUring K) (k : Nat) : Prop where
  pc : s.pc = .idle
  pool : s.contextsPool.length + k = 1000
  entries : s.uring.entries = 8
  capacity : s.uring.capacity = 1000
  inKernel : s.uring.inKernel.length = k
  consumed : s.uring.khead = s.uring.sqes.length
  seen : s.uring.cqes.length = s.uring.cqHead

/-- `n` receives that the kernel takes, and one more. -/
def receives (cb : K) : Nat → List (Event K)
  | 0 => [.recvmsg cb]
  | n + 1 => .recvmsg cb :: .kernel .consume :: receives cb n

theorem Receiving.next {k : Nat} (h : Receiving s k) (hk : k < 1000) (cb : K) :
    ∃ uring, (s.recvmsg cb).uring.kernel .consume = some uring ∧
      Receiving { s.recvmsg cb with uring := uring } (k + 1) := by
  have hslot : s.uring.HasSlot := by
    rw [IoUring.HasSlot, h.entries, h.consumed]
    omega
  obtain ⟨ctx, rest, hpool⟩ :=
    List.exists_cons_of_length_pos (l := s.contextsPool) (by have := h.pool; omega)
  rw [recvmsg, start_of_slot hpool hslot]
  have hlength : (s.uring.sqes ++ [contextSqe .recvmsg ⟨ctx, s.given.length⟩]).length
      = s.uring.khead + 1 := by
    rw [List.length_append, List.length_singleton, h.consumed]
  have hheld : s.uring.inKernel.length + (s.uring.cqes.length - s.uring.cqHead)
      < s.uring.capacity := by
    rw [h.inKernel, h.seen, h.capacity]
    omega
  refine ⟨_, dif_pos ⟨Nat.lt_of_lt_of_eq (Nat.lt_succ_self _) hlength.symm, hheld⟩, ?_⟩
  exact
    { pc := h.pc
      pool := by
        have := h.pool
        rw [hpool, List.length_cons] at this
        show rest.length + (k + 1) = 1000
        omega
      entries := h.entries
      capacity := h.capacity
      inKernel := by
        rw [← h.inKernel]
        exact List.length_append
      consumed := hlength.symm
      seen := h.seen }

theorem Receiving.not_throughout {n k : Nat} (h : Receiving s k) (hn : k + n = 1000) (cb : K) :
    ¬ Throughout step Partitioned s (receives cb n) := by
  have hcan : s.pc.CanStart := by
    rw [h.pc]
    trivial
  induction n generalizing s k with
  | zero =>
      intro hthroughout
      have hpool : s.contextsPool = [] := List.eq_nil_of_length_eq_zero (by have := h.pool; omega)
      exact not_partitioned_emptyPool hpool .recvmsg cb (hthroughout.2 _ (if_pos hcan))
  | succ n ih =>
      intro hthroughout
      obtain ⟨uring, hconsume, hnext⟩ := h.next (by omega) cb
      have htaken := (hthroughout.2 _ (if_pos hcan)).2 { s.recvmsg cb with uring := uring }
        (Option.map_eq_some_iff.mpr ⟨uring, hconsume, rfl⟩)
      exact ih hnext (by omega) (by rw [hnext.pc]; trivial) htaken

theorem receiving_init : Receiving (init 1000 (by decide) : CallbackUring K) 0 where
  pc := rfl
  pool := by rw [init, List.length_range]
  entries := rfl
  capacity := rfl
  inKernel := rfl
  consumed := rfl
  seen := rfl

/-- **The thousand and first receive takes the front of an empty pool.** -/
theorem not_partitioned_receives : ¬ Throughout step Partitioned
    (init 1000 (by decide) : CallbackUring String) (receives "onReceive" 1000) :=
  receiving_init.not_throughout rfl "onReceive"

end CallbackUring

end Hnet.Netring
