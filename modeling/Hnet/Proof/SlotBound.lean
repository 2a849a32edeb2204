import Hnet.Proof.Cookies

/-!
# The submission queue of `dispatch_loop` is never full

`Uring::recvmsg` and `Uring::sendmsg` write to what `io_uring_get_sqe` returns without a test. No
bound on the operations in flight keeps a slot free for them, but the order of consumption does. The
loop goes on from `poll_cookie` to its next receive only when the last one has completed, so the
kernel has consumed that one and every SQE before it, and at most one SQE was put behind it.
-/

namespace Hnet.Netring

open Lts

variable {A : Type}

/-- The next thing the loop or a handler does is to ask for an SQE. -/
def Pc.Asks : Pc → Prop
  | .arming _ _ | .entering _ => True
  | _ => False

namespace Executor

variable {s s' : Executor A} {receiver : VarId}

structure NeverFull (s : Executor A) : Prop where
  room : s.pc.Asks → s.uring.queued.length < 8
  not_null : s.pc ≠ .nullSqe

structure Slots (s : Executor A) (receiver : VarId) : Prop where
  owned : Owned s receiver
  not_null : s.pc ≠ .nullSqe
  entries : s.uring.entries = 8
  /-- at most one SQE has been put behind the receive -/
  polling : s.pc = .polling → ∃ before after, after.length ≤ 1
    ∧ s.uring.sqes = before ++ cookieSqe .recvmsg ⟨receiver, .recv⟩ :: after
  arming : ∀ v handler, s.pc = .arming v handler → s.uring.queued.length ≤ 1
  entering : ∀ v, s.pc = .entering v → s.uring.queued.length ≤ 2
    ∧ ∃ before, s.uring.sqes = before ++ [cookieSqe .recvmsg ⟨receiver, .recv⟩]

theorem Slots.neverFull (h : Slots s receiver) : NeverFull s where
  room hasks := by
    cases hpc : s.pc with
    | arming v handler =>
        have := h.arming v handler hpc
        omega
    | entering v =>
        have := (h.entering v hpc).1
        omega
    | polling | threw | panicked | nullSqe | lost =>
        rw [hpc] at hasks
        exact hasks.elim
  not_null := h.not_null

theorem Slots.of_polling {before after : List (Sqe Cookie)} (hpc : s.pc = .polling)
    (howned : Owned s receiver) (hentries : s.uring.entries = 8)
    (hsqes : s.uring.sqes = before ++ cookieSqe .recvmsg ⟨receiver, .recv⟩ :: after)
    (hlength : after.length ≤ 1) : Slots s receiver where
  owned := howned
  not_null := by rw [hpc]; exact nofun
  entries := hentries
  polling _ := ⟨before, after, hlength, hsqes⟩
  arming := by rw [hpc]; exact nofun
  entering := by rw [hpc]; exact nofun

theorem Slots.of_arming {variant : VarId} {handler : Option VarId}
    (hpc : s.pc = .arming variant handler) (howned : Owned s receiver)
    (hentries : s.uring.entries = 8) (hle : s.uring.queued.length ≤ 1) : Slots s receiver where
  owned := howned
  not_null := by rw [hpc]; exact nofun
  entries := hentries
  polling := by rw [hpc]; exact nofun
  arming _ _ _ := hle
  entering := by rw [hpc]; exact nofun

theorem Slots.of_entering {variant : VarId} {before : List (Sqe Cookie)}
    (hpc : s.pc = .entering variant) (howned : Owned s receiver) (hentries : s.uring.entries = 8)
    (hle : s.uring.queued.length ≤ 2)
    (hsqes : s.uring.sqes = before ++ [cookieSqe .recvmsg ⟨receiver, .recv⟩]) :
    Slots s receiver where
  owned := howned
  not_null := by rw [hpc]; exact nofun
  entries := hentries
  polling := by rw [hpc]; exact nofun
  arming := by rw [hpc]; exact nofun
  entering _ _ := ⟨hle, before, hsqes⟩

theorem slots_init (capacity : Nat) (fits : 8 + capacity < 2 ^ 64) :
    Slots (init capacity fits : Executor A) 0 :=
  Slots.of_arming rfl (owned_init capacity fits) rfl (Nat.zero_le 1)

theorem Slots.owns (h : Slots s receiver) (hpc : s.pc ≠ .threw) :
    ∃ suspended, Owns s receiver suspended :=
  h.owned.resolve_left fun hstopped => hstopped.elim hpc h.not_null

theorem Slots.hasSlot_arming {variant : VarId} {handler : Option VarId} (h : Slots s receiver)
    (hpc : s.pc = .arming variant handler) : s.uring.HasSlot := by
  have hle := h.arming variant handler hpc
  rw [IoUring.hasSlot_iff, h.entries]
  omega

theorem Slots.hasSlot_entering {variant : VarId} (h : Slots s receiver)
    (hpc : s.pc = .entering variant) : s.uring.HasSlot := by
  have hle := (h.entering variant hpc).1
  rw [IoUring.hasSlot_iff, h.entries]
  omega

/-! ### Each step -/

theorem Slots.kernel {k : KernelEvent} (h : Slots s receiver) (howned : Owned s' receiver)
    (hkernel : s.uring.kernel k = some s'.uring) (hpc : s'.pc = s.pc) : Slots s' receiver := by
  obtain ⟨hentries, hsqes, _, _⟩ := IoUring.kernel_frame hkernel
  have hle := IoUring.length_queued_kernel_le hkernel
  refine
    { owned := howned
      not_null := hpc ▸ h.not_null
      entries := hentries.trans h.entries
      polling := fun hpolling => ?_
      arming := fun v handler harming => hle.trans (h.arming v handler (hpc ▸ harming))
      entering := fun v hentering => ?_ }
  · rw [hsqes]
    exact h.polling (hpc ▸ hpolling)
  · rw [hsqes]
    exact (h.entering v (hpc ▸ hentering)).imp_left hle.trans

/-- The receive has completed, so at most one SQE is left in the queue. -/
theorem Slots.length_queued_le_of_peek {cqe : Cqe Cookie} (h : Slots s receiver)
    (hpc : s.pc = .polling) (hpeek : s.uring.peek = some cqe)
    (hcookie : cqe.userData = ⟨receiver, .recv⟩) : s.uring.queued.length ≤ 1 := by
  obtain ⟨suspended, howns⟩ := h.owns (by rw [hpc]; exact nofun)
  obtain ⟨before, after, hlength, hsqes⟩ := h.polling hpc
  have houtstanding := IoUring.outstanding_of_peek hpeek
  rw [howns.outstanding_polling hpc, hcookie] at houtstanding
  have hsends := (Multiset.cons_inj_right _).mp houtstanding
  refine (IoUring.length_queued_le_of_notMem hsqes fun hqueued => ?_).trans hlength
  have hmem : (⟨receiver, .recv⟩ : Cookie) ∈ (s.uring.advance 1).outstanding :=
    IoUring.userData_mem_outstanding (r := s.uring.advance 1) hqueued
  rw [← hsends] at hmem
  obtain ⟨p, _, hp⟩ := Multiset.mem_map.mp hmem
  cases hp

theorem Slots.pollReturned {cqe : Cqe Cookie} (h : Slots s receiver) (hpc : s.pc = .polling)
    (hpeek : s.uring.peek = some cqe) (howned : Owned (s.pollReturned cqe) receiver) :
    Slots (s.pollReturned cqe) receiver := by
  obtain ⟨suspended, howns⟩ := h.owns (by rw [hpc]; exact nofun)
  rcases howns.polled hpc hpeek with ⟨hcookie, req, hreq⟩ |
    ⟨_, _, _, handler, reply, hhandler, _, hreply⟩
  · refine Slots.of_arming (pc_pollReturned_of_request hreq) howned ?_ ?_
    · rw [uring_pollReturned]
      exact h.entries
    · rw [uring_pollReturned]
      exact h.length_queued_le_of_peek hpc hpeek hcookie
  · obtain ⟨before, after, hlength, hsqes⟩ := h.polling hpc
    have hpolling := pc_pollReturned_of_yielded hhandler hreply
    have hsame : (s.pollReturned cqe).uring.sqes = s.uring.sqes := by
      rw [uring_pollReturned]
      rfl
    refine Slots.of_polling hpolling howned ?_ (hsame.trans hsqes) hlength
    rw [uring_pollReturned]
    exact h.entries

theorem Slots.recvmsg {variant : VarId} {handler : Option VarId} (h : Slots s receiver)
    (hpc : s.pc = .arming variant handler) (howned : Owned (s.recvmsg variant handler) receiver) :
    Slots (s.recvmsg variant handler) receiver := by
  obtain ⟨suspended, howns⟩ := h.owns (by rw [hpc]; exact nofun)
  have hle := h.arming variant handler hpc
  have hslot : s.uring.HasSlot := by
    rw [IoUring.hasSlot_iff, h.entries]
    omega
  obtain rfl := howns.variant_arming hpc
  cases handler with
  | none =>
      rw [recvmsg_of_slot hslot] at howned ⊢
      exact Slots.of_polling rfl howned h.entries rfl zero_le_one
  | some v =>
      rw [recvmsg_of_slot hslot] at howned ⊢
      refine Slots.of_entering rfl howned h.entries ?_ rfl
      have hqueued : (s.uring.queue (cookieSqe .recvmsg ⟨variant, .recv⟩) hslot).queued.length
          = s.uring.queued.length + 1 := by
        rw [IoUring.queued_queue hslot, List.length_append, List.length_singleton]
      exact hqueued.trans_le (Nat.succ_le_succ hle)

theorem Slots.enter {variant : VarId} {handler : Handler A} (h : Slots s receiver)
    (hpc : s.pc = .entering variant) (howned : Owned (s.enter variant handler) receiver) :
    Slots (s.enter variant handler) receiver := by
  obtain ⟨hle, before, hsqes⟩ := h.entering variant hpc
  have hslot : s.uring.HasSlot := by
    rw [IoUring.hasSlot_iff, h.entries]
    omega
  rw [enter_of_slot hslot] at howned ⊢
  have hsent : s.uring.sqes ++ [cookieSqe .sendmsg ⟨handler.cookie, .send handler.number⟩]
      = before ++ cookieSqe .recvmsg ⟨receiver, .recv⟩
        :: [cookieSqe .sendmsg ⟨handler.cookie, .send handler.number⟩] := by
    rw [hsqes, List.append_assoc]
    rfl
  exact Slots.of_polling rfl howned h.entries hsent (Nat.le_refl 1)

theorem step_slots {e : Event A} (h : Slots s receiver) (hstep : s.step e = some s') :
    Slots s' receiver := by
  have howned := step_owned h.owned hstep
  rcases step_cases hstep with ⟨_, _, hkernel, rfl⟩ | ⟨_, uring, variant, done, hkernel, rfl⟩ |
    ⟨_, hpc, cqe, hpeek, rfl⟩ | ⟨_, rfl⟩ | ⟨variant, handler, hpc, rfl⟩ |
    ⟨_, variant, handler, hpc, _, rfl⟩
  · exact h.kernel howned hkernel rfl
  · rw [← uring_received (s := s) uring variant done] at hkernel
    exact h.kernel howned hkernel (pc_received uring variant done)
  · exact h.pollReturned hpc hpeek howned
  · exact ⟨howned, nofun, h.entries, nofun, nofun, nofun⟩
  · exact h.recvmsg hpc howned
  · exact h.enter hpc howned

/-- **The submission queue of `dispatch_loop` is never full** when the loop or a handler asks for an
SQE, whatever the kernel completes and however far its thread lags behind. -/
theorem neverFull_throughout (capacity : Nat) (fits : 8 + capacity < 2 ^ 64)
    (es : List (Event A)) : Throughout step NeverFull (init capacity fits) es := by
  have hslots : Throughout step (fun s => Slots s 0) (init capacity fits : Executor A) es :=
    throughout_of_invariant es (slots_init capacity fits) fun _ _ _ h hstep => step_slots h hstep
  exact hslots.imp fun _ h => h.neverFull

/-- The handler asks for the third SQE while the kernel has consumed one. -/
def lateKernel : List (Event Nat) :=
  [.recvmsg, .consume, .recvDone 0 (.datagram 7 [1, 2]), .poll, .recvmsg, .enter]

theorem neverFull_lateKernel :
    (run step (init 8 (by decide)) lateKernel).map (fun s => (s.pc, s.uring.queued.length))
        = some (.polling, 2) ∧
      Throughout step NeverFull (init 8 (by decide)) lateKernel :=
  ⟨by decide, neverFull_throughout 8 (by decide) lateKernel⟩

end Executor

end Hnet.Netring
