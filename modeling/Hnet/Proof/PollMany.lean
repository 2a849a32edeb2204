import Hnet.Poller

/-!
# One `TryPollMany` and many `TryPoll`s

`TryPollMany` copies a batch of CQEs, advances the queue once and then dispatches, where `TryPoll`
does all three for one CQE at a time. `dispatch` touches neither the queue nor the counter, so both
come to the same: the setters after each CQE in turn, and the fibers these dispatches return.
-/

namespace Hnet

open Lts

namespace EventLoop

variable {U ι : Type} [DecidableEq U]

/-- The setters after the `dispatch` of each of these CQEs, and the fibers it returns. -/
def dispatchEach (setters : Setters U ι) : List (Cqe U) → Setters U ι × List (Option ι)
  | [] => (setters, [])
  | cqe :: rest =>
      let first := dispatch setters cqe
      let others := dispatchEach first.1 rest
      (others.1, first.2 :: others.2)

theorem length_dispatchEach (setters : Setters U ι) (cqes : List (Cqe U)) :
    (dispatchEach setters cqes).2.length = cqes.length := by
  induction cqes generalizing setters with
  | nil => rfl
  | cons cqe rest ih => exact congrArg (· + 1) (ih _)

/-- `k` successive calls of `TryPoll`, each of which finds a CQE, and the fibers they return. -/
def tryPolls : Nat → EventLoop U ι → Option (EventLoop U ι × List (Option ι))
  | 0, s => some (s, [])
  | k + 1, s =>
      (run step s [.tryPoll, .dispatch]).bind fun called =>
        (tryPolls k called).map fun rest => (rest.1, called.fibers ++ rest.2)

variable {s : EventLoop U ι}

/-- The dispatches of a call that has its CQEs. -/
theorem run_dispatches (cqes : List (Cqe U)) (hpc : s.pc = .dispatchAll cqes) :
    run step s (List.replicate cqes.length .dispatch) = some
      { s with
        setters := (dispatchEach s.setters cqes).1
        fibers := s.fibers ++ (dispatchEach s.setters cqes).2
        dispatched := s.dispatched ++ cqes
        pc := .ready } := by
  induction cqes generalizing s with
  | nil =>
      have hready : s.pc = .ready := hpc
      simp only [List.length_nil, List.replicate_zero, run_nil, dispatchEach, List.append_nil,
        ← hready]
  | cons cqe rest ih =>
      rw [List.length_cons, List.replicate_succ, run_cons, step_dispatch_of_dispatching hpc,
        Option.bind_some, ih rfl]
      simp only [dispatchNext, dispatchEach, List.append_assoc, List.singleton_append]

/-- A whole call of `TryPollMany`. -/
theorem run_tryPollMany (hready : s.pc = .ready) :
    ∃ batch, run step s (.tryPollMany :: List.replicate (s.ring.ring.cq.take 16).length .dispatch)
        = some batch
      ∧ batch.pc = .ready
      ∧ batch.fibers = (dispatchEach s.setters (s.ring.ring.cq.take 16)).2
      ∧ batch.setters = (dispatchEach s.setters (s.ring.ring.cq.take 16)).1
      ∧ batch.ring.pendingCount
        = s.ring.pendingCount - UInt64.ofNat (s.ring.ring.cq.take 16).length
      ∧ batch.ring.ring.cq = s.ring.ring.cq.drop 16 := by
  have hcall : s.step .tryPollMany = some s.tryPollMany := by
    simp only [step, hready]
  have hpc : s.tryPollMany.pc = .dispatchAll (s.ring.ring.cq.take 16) := rfl
  have hrun : run step s (.tryPollMany :: List.replicate (s.ring.ring.cq.take 16).length .dispatch)
      = run step s.tryPollMany (List.replicate (s.ring.ring.cq.take 16).length .dispatch) := by
    rw [run_cons, hcall, Option.bind_some]
  exact ⟨_, hrun.trans (run_dispatches _ hpc), rfl, List.nil_append _, rfl, rfl,
    IoUring.cq_advance 16⟩

/-- A whole call of `TryPoll` that finds a CQE before its attempts are used up. -/
theorem run_tryPoll {cqe : Cqe U} {rest : List (Cqe U)} (hready : s.pc = .ready)
    (hattempts : s.attempts.toNat + 1 < s.maxAttempts.toNat) (hcq : s.ring.ring.cq = cqe :: rest) :
    ∃ called, run step s [.tryPoll, .dispatch] = some called
      ∧ called.pc = .ready ∧ called.attempts = 0 ∧ called.maxAttempts = s.maxAttempts
      ∧ called.fibers = [(dispatch s.setters cqe).2]
      ∧ called.setters = (dispatch s.setters cqe).1
      ∧ called.ring.pendingCount = s.ring.pendingCount - 1
      ∧ called.ring.ring.cq = rest := by
  have hpeek : s.ring.ring.peek = some cqe := by
    rw [IoUring.peek, hcq]
    rfl
  have hring : s.ring.tryPoll = (some cqe,
      { s.ring with ring := s.ring.ring.advance 1, pendingCount := s.ring.pendingCount - 1 }) := by
    rw [Ring.tryPoll, hpeek]
  have hone : (1 : UInt64).toNat = 1 := rfl
  have hbusy : ¬ s.maxAttempts ≤ s.attempts + 1 := by
    have hlt := s.maxAttempts.toNat_lt
    rw [UInt64.le_iff_toNat_le, UInt64.toNat_add, hone, Nat.mod_eq_of_lt (by omega)]
    omega
  have hcall : s.step .tryPoll = some s.tryPoll := by
    simp only [step, hready]
  have hpc : s.tryPoll.pc = .dispatchAll [cqe] := by
    simp only [tryPoll, if_neg hbusy, hring]
    rfl
  have hrun : run step s [.tryPoll, .dispatch] = run step s.tryPoll [.dispatch] := by
    rw [run_cons, hcall, Option.bind_some]
  refine ⟨_, hrun.trans (run_dispatches [cqe] hpc), rfl, ?_, ?_, ?_, ?_, ?_, ?_⟩
  · simp only [tryPoll, if_neg hbusy, hring]
  · simp only [tryPoll, if_neg hbusy, hring]
  · simp only [tryPoll, if_neg hbusy, hring]
    rfl
  · rw [(tryPoll_frame s).2.1]
    rfl
  · show s.tryPoll.ring.pendingCount = _
    rw [(tryPoll_frame s).1, hring]
  · show s.tryPoll.ring.ring.cq = _
    rw [(tryPoll_frame s).1, hring]
    show (s.ring.ring.advance 1).cq = rest
    rw [IoUring.cq_advance, hcq]
    rfl

theorem ofNat_succ_sub (a : UInt64) (k : Nat) :
    a - 1 - UInt64.ofNat k = a - UInt64.ofNat (k + 1) := by
  have hone : UInt64.ofNat 1 = 1 := rfl
  rw [UInt64.ofNat_add, hone, UInt64.sub_eq_add_neg, UInt64.sub_eq_add_neg, UInt64.sub_eq_add_neg,
    UInt64.neg_add, UInt64.sub_eq_add_neg, UInt64.add_comm (-UInt64.ofNat k), UInt64.add_assoc]

/-- As many calls of `TryPoll` as there are CQEs among the first `k`. -/
theorem tryPolls_eq (k : Nat) (hready : s.pc = .ready)
    (hattempts : s.attempts.toNat + 1 < s.maxAttempts.toNat) (hk : k ≤ s.ring.ring.cq.length) :
    ∃ single, tryPolls k s = some (single, (dispatchEach s.setters (s.ring.ring.cq.take k)).2)
      ∧ single.setters = (dispatchEach s.setters (s.ring.ring.cq.take k)).1
      ∧ single.ring.pendingCount = s.ring.pendingCount - UInt64.ofNat k
      ∧ single.ring.ring.cq = s.ring.ring.cq.drop k := by
  induction k generalizing s with
  | zero =>
      refine ⟨s, rfl, rfl, ?_, rfl⟩
      exact (UInt64.sub_zero _).symm
  | succ k ih =>
      cases hcq : s.ring.ring.cq with
      | nil =>
          rw [hcq] at hk
          exact absurd hk (Nat.not_succ_le_zero k)
      | cons cqe rest =>
          obtain ⟨called, hrun, hpc, hzero, hmax, hfibers, hsetters, hpending, hrest⟩ :=
            run_tryPoll hready hattempts hcq
          have hagain : called.attempts.toNat + 1 < called.maxAttempts.toNat := by
            have hnone : (0 : UInt64).toNat = 0 := rfl
            rw [hzero, hmax, hnone]
            omega
          rw [hcq, List.length_cons] at hk
          obtain ⟨single, hpolls, hsetters', hpending', hcq'⟩ :=
            ih hpc hagain (by rw [hrest]; omega)
          rw [hrest, hsetters] at hpolls hsetters'
          rw [hrest] at hcq'
          refine ⟨single, ?_, hsetters', ?_, hcq'⟩
          · rw [tryPolls, hrun, Option.bind_some, hpolls, hfibers]
            rfl
          · rw [hpending', hpending, ofNat_succ_sub]

/-- **One `TryPollMany` does what as many `TryPoll`s do**, for the first 16 CQEs of the queue. -/
theorem tryPollMany_agrees (s : EventLoop U ι) (hready : s.pc = .ready)
    (hattempts : s.attempts.toNat + 1 < s.maxAttempts.toNat) (k : Nat)
    (hk : k = min s.ring.ring.cq.length 16) :
    ∃ batch single fibers,
      run step s (.tryPollMany :: List.replicate k .dispatch) = some batch
      ∧ tryPolls k s = some (single, fibers)
      ∧ batch.pc = .ready ∧ batch.fibers = fibers ∧ fibers.length = k
      ∧ batch.setters = single.setters
      ∧ batch.ring.pendingCount = single.ring.pendingCount
      ∧ batch.ring.ring.cq = s.ring.ring.cq.drop 16
      ∧ single.ring.ring.cq = s.ring.ring.cq.drop 16 := by
  have hle : k ≤ s.ring.ring.cq.length := hk.trans_le (Nat.min_le_left _ _)
  have hlen : (s.ring.ring.cq.take 16).length = k := by
    rw [List.length_take, hk, Nat.min_comm]
  have htake : s.ring.ring.cq.take k = s.ring.ring.cq.take 16 := by
    rw [hk, Nat.min_comm, ← List.take_take, List.take_length]
  have hdrop : s.ring.ring.cq.drop k = s.ring.ring.cq.drop 16 := by
    rw [hk]
    rcases Nat.le_total s.ring.ring.cq.length 16 with hshort | hlong
    · rw [Nat.min_eq_left hshort, List.drop_length, List.drop_of_length_le hshort]
    · rw [Nat.min_eq_right hlong]
  obtain ⟨batch, hbatch, hpc, hfibers, hsetters, hpending, hrest⟩ := run_tryPollMany hready
  obtain ⟨single, hsingle, hsetters', hpending', hrest'⟩ := tryPolls_eq k hready hattempts hle
  rw [hlen] at hbatch hpending
  rw [htake] at hsingle hsetters'
  rw [hdrop] at hrest'
  refine ⟨batch, single, _, hbatch, hsingle, hpc, hfibers, ?_, hsetters.trans hsetters'.symm,
    hpending.trans hpending'.symm, hrest, hrest'⟩
  rw [length_dispatchEach, hlen]

/-- Both CQEs of a timed operation in the queue, its setters at 0 and 1. -/
def pairWaiting : EventLoop Nat Unit :=
  let bothSet (res : Nat → Int) : Bool := res 0 != -1 && res 1 != -1
  let start : EventLoop Nat Unit := init 4 4 (by decide) 3 fun _ => ⟨(), -1, some bothSet⟩
  let events : List (Event Nat) :=
    [.submit ⟨.recvmsg, true, true, true, 0, 0⟩ false,
      .submit ⟨.linkTimeout, false, false, false, 1, 1⟩ false, .flush, .kernel .consume,
      .kernel .consume, .kernel (.complete 1 0), .kernel (.complete 0 5)]
  (run step start events).getD start

theorem tryPollMany_agrees_pairWaiting :
    ∃ batch single fibers,
      run step pairWaiting (.tryPollMany :: List.replicate 2 .dispatch) = some batch
      ∧ tryPolls 2 pairWaiting = some (single, fibers)
      ∧ batch.pc = .ready ∧ batch.fibers = fibers ∧ fibers.length = 2
      ∧ batch.setters = single.setters
      ∧ batch.ring.pendingCount = single.ring.pendingCount
      ∧ batch.ring.ring.cq = pairWaiting.ring.ring.cq.drop 16
      ∧ single.ring.ring.cq = pairWaiting.ring.ring.cq.drop 16 :=
  tryPollMany_agrees pairWaiting rfl (by decide) 2 (by decide)

end EventLoop

end Hnet
