import Hnet.Poller

/-!
# Runs of the poller

Two facts about every run of a ring with its poller. The counter `pending_count_` is exact in every
state, whoever polls. What the poller consumes it also dispatches, in order, unless a `TryPoll`
finds a CQE on the very call that uses up its attempts: it then blocks in `Ring::poll` and the
result of that overwrites the CQE found.
-/

namespace Hnet.EventLoop

open Lts

variable {U ι : Type} [DecidableEq U] {s s' : EventLoop U ι}

/-! ### The pending counter -/

theorem step_countsPending {e : Event U} (hcount : s.ring.CountsPending)
    (h : s.step e = some s') : s'.ring.CountsPending := by
  rcases step_ring h with ⟨_, _, hkernel⟩ | hmoves
  · exact hcount.kernel hkernel
  · exact hcount.moves hmoves

/-- What the counter promises in one state: it is the number of SQEs handed to a builder less the
CQEs consumed, each of the three polls takes no more from it than it holds, and `has_pending` is
false exactly when nothing is queued, in the kernel or in the completion queue. -/
structure PendingExact (s : EventLoop U ι) : Prop where
  count : s.ring.pendingCount.toNat = s.ring.ring.sqes.length - s.ring.ring.cqHead
  poll : ∀ cqe ring, s.ring.poll = some (cqe, ring) → 1 ≤ s.ring.pendingCount.toNat
  tryPoll : s.ring.tryPoll.1.toList.length ≤ s.ring.pendingCount.toNat
  tryPollMany : s.ring.tryPollMany.1.length ≤ s.ring.pendingCount.toNat
  hasPending : s.hasPending = false ↔
    s.ring.ring.queued = [] ∧ s.ring.ring.inKernel = [] ∧ s.ring.ring.cq = []

omit [DecidableEq U] in
theorem pendingExact_of_countsPending (hcount : s.ring.CountsPending) : s.PendingExact where
  count := hcount.trans IoUring.card_outstanding
  poll _ _ hpoll := (hcount.poll hpoll).1
  tryPoll := hcount.tryPoll.1
  tryPollMany := hcount.tryPollMany.1
  hasPending := hcount.hasPending_eq_false_iff

/-- **The pending counter is exact** in every state of every run of a ring, with or without its
poller. -/
theorem pendingExact_throughout (entries capacity : Nat) (fits : entries + capacity < 2 ^ 64)
    (maxAttempts : UInt64) (setters : Setters U ι) (es : List (Event U)) :
    Throughout step PendingExact (init entries capacity fits maxAttempts setters) es := by
  refine Throughout.imp (fun _ => pendingExact_of_countsPending) ?_
  exact throughout_of_invariant es (Ring.countsPending_init entries capacity fits)
    fun s e s' hcount hstep => step_countsPending hcount hstep

/-- One request from its submission to the dispatch of its completion. -/
def oneRequest (sqe : Sqe U) : List (Event U) :=
  [.submit sqe false, .flush, .kernel .consume, .kernel (.complete 0 5), .tryPoll, .dispatch]

theorem pendingExact_oneRequest :
    (run step (init 8 8 (by decide) 3 fun _ : Nat => ⟨(), -1, none⟩)
        (oneRequest ⟨.recvmsg, false, true, false, 0, 0⟩)).map (fun s => s.dispatched)
      = some [⟨0, 5⟩] ∧
      Throughout step PendingExact (init 8 8 (by decide) 3 fun _ : Nat => ⟨(), -1, none⟩)
        (oneRequest ⟨.recvmsg, false, true, false, 0, 0⟩) :=
  ⟨by decide, pendingExact_throughout 8 8 (by decide) 3 _ (oneRequest _)⟩

/-! ### Posted and dispatched -/

/-- No step takes back a CQE, and each one posted has the result of the completion. -/
theorem step_cqes {e : Event U} (h : s.step e = some s') :
    ∃ posted, s'.ring.ring.cqes = s.ring.ring.cqes ++ posted
      ∧ ∀ c ∈ posted, ∃ i, e = .kernel (.complete i c.res) := by
  rcases step_ring h with ⟨k, rfl, hkernel⟩ | hmoves
  · obtain ⟨posted, hposted, hres⟩ := IoUring.kernel_cqes (Ring.kernel_ring hkernel).1
    exact ⟨posted, hposted, fun c hc => (hres c hc).imp fun i hi => by rw [hi]⟩
  · exact ⟨[], by rw [hmoves.cqes, List.append_nil], fun c hc => by cases hc⟩

/-- What is dispatched was posted, and each setter holds the last result dispatched to it. -/
structure Delivered (setters₀ : Setters U ι) (s : EventLoop U ι) : Prop where
  pending : ∀ c ∈ s.pc.pending, c ∈ s.ring.ring.cqes
  dispatched : ∀ c ∈ s.dispatched, c ∈ s.ring.ring.cqes
  result : ∀ u, (s.setters u).res = resAfter s.dispatched u (setters₀ u).res

theorem delivered_of_pending {setters₀ : Setters U ι} (hdel : Delivered setters₀ s)
    (hposted : ∀ c ∈ s.ring.ring.cqes, c ∈ s'.ring.ring.cqes)
    (hpending : ∀ c ∈ s'.pc.pending, c ∈ s.ring.ring.cqes) (hsetters : s'.setters = s.setters)
    (hdispatched : s'.dispatched = s.dispatched) : Delivered setters₀ s' where
  pending c hc := hposted c (hpending c hc)
  dispatched c hc := hposted c (hdel.dispatched c (hdispatched ▸ hc))
  result := by rw [hsetters, hdispatched]; exact hdel.result

theorem step_delivered {setters₀ : Setters U ι} {e : Event U} (hdel : Delivered setters₀ s)
    (h : s.step e = some s') : Delivered setters₀ s' := by
  have hposted : ∀ c ∈ s.ring.ring.cqes, c ∈ s'.ring.ring.cqes := by
    obtain ⟨posted, hcqes, _⟩ := step_cqes h
    exact fun c hc => hcqes ▸ List.mem_append_left _ hc
  have hprocess : e.bypasses = true → Delivered setters₀ s' := by
    intro he
    obtain ⟨_, ring, _, rfl⟩ := step_bypasses h he
    exact delivered_of_pending hdel hposted hdel.pending rfl rfl
  cases e with
  | kernel e =>
      obtain ⟨ring, hring, rfl⟩ := step_kernel h
      exact delivered_of_pending hdel hposted hdel.pending rfl rfl
  | submit sqe starved => exact hprocess rfl
  | flush => exact hprocess rfl
  | ringPoll => exact hprocess rfl
  | ringTryPoll => exact hprocess rfl
  | ringTryPollMany => exact hprocess rfl
  | tryPoll =>
      obtain ⟨hready, rfl⟩ := step_tryPoll h
      obtain ⟨_, hsetters, _, hdispatched, _⟩ := tryPoll_frame s
      refine delivered_of_pending hdel hposted (fun c hc => ?_) hsetters hdispatched
      rcases tryPoll_cases s with ⟨_, hpc⟩ | ⟨cqe, _, hfound, hpc⟩ | ⟨_, _, hpc⟩ <;> rw [hpc] at hc
      · cases hc
      · obtain rfl := List.mem_singleton.mp hc
        exact IoUring.mem_cqes_of_mem_cq (Ring.mem_cq_of_tryPoll hfound)
      · rw [hready] at hc
        cases hc
  | pollReturns =>
      obtain ⟨_, cqe, ring, _, hpoll, rfl⟩ := step_pollReturns h
      refine delivered_of_pending hdel hposted (fun c hc => ?_) rfl rfl
      obtain rfl := List.mem_singleton.mp hc
      exact IoUring.mem_cqes_of_mem_cq (Ring.mem_cq_of_poll hpoll)
  | pollThrows =>
      obtain ⟨_, _, rfl⟩ := step_pollThrows h
      exact delivered_of_pending hdel hposted (fun c hc => by cases hc) rfl rfl
  | tryPollMany =>
      obtain ⟨_, rfl⟩ := step_tryPollMany h
      refine delivered_of_pending hdel hposted (fun c hc => ?_) rfl rfl
      simp only [tryPollMany, PollerPc.pending_dispatchAll] at hc
      exact IoUring.mem_cqes_of_mem_cq (List.mem_of_mem_take hc)
  | dispatch =>
      obtain ⟨cqe, rest, hpc, rfl⟩ := step_dispatch h
      have hpending := hdel.pending
      rw [hpc, PollerPc.pending_dispatching] at hpending
      refine ⟨fun c hc => ?_, fun c hc => ?_, fun u => ?_⟩
      · simp only [dispatchNext, PollerPc.pending_dispatchAll] at hc
        exact hpending c (List.mem_cons_of_mem _ hc)
      · rcases List.mem_append.mp hc with hc | hc
        · exact hdel.dispatched c hc
        · exact hpending c (List.mem_singleton.mp hc ▸ List.mem_cons_self)
      · simp only [dispatchNext, dispatch, Setters.store_res, hdel.result, resAfter,
          List.foldl_append, List.foldl_cons, List.foldl_nil]

theorem delivered_throughout (entries capacity : Nat) (fits : entries + capacity < 2 ^ 64)
    (maxAttempts : UInt64) (setters : Setters U ι) (es : List (Event U)) :
    Throughout step (Delivered setters) (init entries capacity fits maxAttempts setters) es :=
  throughout_of_invariant es
    ⟨fun c hc => (by cases hc), fun c hc => (by cases hc), fun _ => rfl⟩
    fun _ _ _ hdel hstep => step_delivered hdel hstep

/-! ### Consumed and dispatched -/

/-- What the poller promises in one state, given what the setters held at first: the CQEs it
consumed are those it dispatched, in the same order, followed by those the running call is about to
dispatch, and each setter holds the last result dispatched to it; the running or last `TryPoll`
consumed at most one CQE; it is in its blocking `Ring::poll` only if its own `try_poll` found
nothing, and then something is outstanding if something was when it was called. -/
structure PollSound (setters₀ : Setters U ι) (s : EventLoop U ι) : Prop where
  in_order : s.consumed = s.dispatched ++ s.pc.pending
  result : ∀ u, (s.setters u).res = resAfter s.dispatched u (setters₀ u).res
  taken_le : s.taken ≤ 1
  waits_empty : ∀ maybeCqe, s.pc = .waiting maybeCqe → maybeCqe = none ∧ s.taken = 0
  waits_outstanding : ∀ maybeCqe, s.pc = .waiting maybeCqe →
    0 < s.outstandingAtCall → 0 < Multiset.card s.ring.ring.outstanding

/-- A `TryPoll` that is about to use up its attempts is called on an empty completion queue. -/
def LimitFindsNothing (s : EventLoop U ι) : Event U → Prop
  | .tryPoll => s.maxAttempts ≤ s.attempts + 1 → s.ring.ring.cq = []
  | _ => True

instance (s : EventLoop U ι) : ∀ e, Decidable (s.LimitFindsNothing e)
  | .tryPoll => inferInstanceAs (Decidable (s.maxAttempts ≤ s.attempts + 1 → s.ring.ring.cq = []))
  | .kernel _ | .submit _ _ | .flush | .ringPoll | .ringTryPoll | .ringTryPollMany | .pollReturns
  | .pollThrows | .tryPollMany | .dispatch => isTrue trivial

omit [DecidableEq U] in
theorem tryPoll_eq_none_iff {r : Ring U} : r.tryPoll.1 = none ↔ r.ring.cq = [] := by
  simp only [Ring.tryPoll, IoUring.peek]
  cases r.ring.cq <;> simp

theorem pollSound_of_ready {setters₀ : Setters U ι} (hsound : PollSound setters₀ s)
    (hready : s'.pc = .ready) (hpc : s.pc.pending = []) (hsetters : s'.setters = s.setters)
    (hconsumed : s'.consumed = s.consumed) (hdispatched : s'.dispatched = s.dispatched)
    (htaken : s'.taken = s.taken) : PollSound setters₀ s' where
  in_order := by rw [hconsumed, hsound.in_order, hdispatched, hpc, hready]; rfl
  result := by rw [hsetters, hdispatched]; exact hsound.result
  taken_le := htaken ▸ hsound.taken_le
  waits_empty _ hwait := by rw [hready] at hwait; cases hwait
  waits_outstanding _ hwait := by rw [hready] at hwait; cases hwait

theorem pollSound_tryPoll {setters₀ : Setters U ι} (hsound : PollSound setters₀ s)
    (hready : s.pc = .ready) (hok : s.maxAttempts ≤ s.attempts + 1 → s.ring.ring.cq = []) :
    PollSound setters₀ s.tryPoll := by
  obtain ⟨hring, hsetters, hconsumed, hdispatched, htaken, hcall⟩ := tryPoll_frame s
  have hbefore : s.consumed = s.dispatched := by
    have horder := hsound.in_order
    rwa [hready, PollerPc.pending_ready, List.append_nil] at horder
  have hresult : ∀ u, (s.tryPoll.setters u).res
      = resAfter s.tryPoll.dispatched u (setters₀ u).res := by
    rw [hsetters, hdispatched]
    exact hsound.result
  have hle : s.tryPoll.taken ≤ 1 := by
    rw [htaken]
    cases s.ring.tryPoll.1 <;> simp
  rcases tryPoll_cases s with ⟨hlimit, hpc⟩ | ⟨cqe, hlt, hfound, hpc⟩ | ⟨hlt, hfound, hpc⟩
  · have hfound : s.ring.tryPoll.1 = none := tryPoll_eq_none_iff.mpr (hok hlimit)
    have hsame : s.ring.tryPoll.2 = s.ring := by
      simp only [Ring.tryPoll, IoUring.peek, hok hlimit, List.head?_nil]
    refine ⟨?_, hresult, hle, fun maybeCqe hwait => ?_, fun maybeCqe _ hpos => ?_⟩
    · rw [hconsumed, hdispatched, hpc, hbefore, hfound]
      rfl
    · rw [hpc, hfound] at hwait
      rw [htaken, hfound]
      exact ⟨(PollerPc.waiting.inj hwait).symm, rfl⟩
    · rw [hring, hsame]
      rwa [hcall] at hpos
  · refine ⟨?_, hresult, hle, fun _ hwait => ?_, fun _ hwait => ?_⟩
    · rw [hconsumed, hdispatched, hpc, hbefore, hfound]
      rfl
    · rw [hpc] at hwait; cases hwait
    · rw [hpc] at hwait; cases hwait
  · refine ⟨?_, hresult, hle, fun _ hwait => ?_, fun _ hwait => ?_⟩
    · rw [hconsumed, hdispatched, hpc, hready, hbefore, hfound]
      rfl
    · rw [hpc, hready] at hwait; cases hwait
    · rw [hpc, hready] at hwait; cases hwait

theorem pollSound_dispatchNext {setters₀ : Setters U ι} (hsound : PollSound setters₀ s)
    {cqe : Cqe U} {rest : List (Cqe U)} (hpc : s.pc = .dispatching cqe rest) :
    PollSound setters₀ (s.dispatchNext cqe rest) where
  in_order := by
    simp only [dispatchNext, hsound.in_order, hpc, PollerPc.pending_dispatchAll,
      PollerPc.pending_dispatching, List.append_assoc, List.singleton_append]
  result u := by
    simp only [dispatchNext, dispatch, Setters.store_res, hsound.result, resAfter,
      List.foldl_append, List.foldl_cons, List.foldl_nil]
  taken_le := hsound.taken_le
  waits_empty maybeCqe hwait := by
    cases rest <;> cases hwait
  waits_outstanding maybeCqe hwait := by
    cases rest <;> cases hwait

theorem step_pollSound {setters₀ : Setters U ι} {e : Event U} (hsound : PollSound setters₀ s)
    (hok : s.LimitFindsNothing e) (h : s.step e = some s') : PollSound setters₀ s' := by
  have hprocess : e.bypasses = true → PollSound setters₀ s' := by
    intro he
    obtain ⟨hready, ring, _, rfl⟩ := step_bypasses h he
    exact pollSound_of_ready hsound hready (by rw [hready]; rfl) rfl rfl rfl rfl
  cases e with
  | kernel e =>
      obtain ⟨ring, hring, rfl⟩ := step_kernel h
      refine ⟨hsound.in_order, hsound.result, hsound.taken_le, hsound.waits_empty, ?_⟩
      intro maybeCqe hwait hpos
      rw [IoUring.outstanding_kernel (Ring.kernel_ring hring).1]
      exact hsound.waits_outstanding maybeCqe hwait hpos
  | submit sqe starved => exact hprocess rfl
  | flush => exact hprocess rfl
  | ringPoll => exact hprocess rfl
  | ringTryPoll => exact hprocess rfl
  | ringTryPollMany => exact hprocess rfl
  | tryPoll =>
      obtain ⟨hready, rfl⟩ := step_tryPoll h
      exact pollSound_tryPoll hsound hready hok
  | pollReturns =>
      obtain ⟨held, cqe, ring, hpc, _, rfl⟩ := step_pollReturns h
      have hzero := (hsound.waits_empty held hpc).2
      refine ⟨?_, hsound.result, ?_, fun _ hwait => (nomatch hwait), fun _ hwait => (nomatch hwait)⟩
      · have horder := hsound.in_order
        rw [hpc, PollerPc.pending_waiting, List.append_nil] at horder
        simp only [pollReturns, PollerPc.pending_dispatching, horder]
      · simp only [pollReturns, hzero, Nat.zero_add, le_refl]
  | pollThrows =>
      obtain ⟨held, hpc, rfl⟩ := step_pollThrows h
      exact pollSound_of_ready hsound rfl (by rw [hpc]; rfl) rfl rfl rfl rfl
  | tryPollMany =>
      obtain ⟨hready, rfl⟩ := step_tryPollMany h
      have horder := hsound.in_order
      rw [hready, PollerPc.pending_ready, List.append_nil] at horder
      refine ⟨?_, hsound.result, hsound.taken_le, fun _ hwait => ?_, fun _ hwait => ?_⟩
      · simp only [tryPollMany, PollerPc.pending_dispatchAll, horder]
      · simp only [tryPollMany] at hwait
        cases hcqes : s.ring.tryPollMany.1 <;> rw [hcqes] at hwait <;> cases hwait
      · simp only [tryPollMany] at hwait
        cases hcqes : s.ring.tryPollMany.1 <;> rw [hcqes] at hwait <;> cases hwait
  | dispatch =>
      obtain ⟨cqe, rest, hpc, rfl⟩ := step_dispatch h
      exact pollSound_dispatchNext hsound hpc

/-- A `TryPoll` that does find a CQE on that call blocks with it in hand. -/
theorem not_pollSound_of_limit {setters₀ : Setters U ι} {e : Event U}
    (hbad : ¬ s.LimitFindsNothing e) (h : s.step e = some s') : ¬ PollSound setters₀ s' := by
  obtain ⟨rfl, hlimit, hcq⟩ : e = .tryPoll ∧ s.maxAttempts ≤ s.attempts + 1
      ∧ s.ring.ring.cq ≠ [] := by
    cases e with
    | tryPoll => exact ⟨rfl, Classical.not_imp.mp hbad⟩
    | _ => exact absurd trivial hbad
  obtain ⟨_, rfl⟩ := step_tryPoll h
  intro hsound
  rcases tryPoll_cases s with ⟨_, hpc⟩ | ⟨_, hlt, _⟩ | ⟨hlt, _⟩
  · exact hcq (tryPoll_eq_none_iff.mp (hsound.waits_empty _ hpc).1)
  · exact hlt hlimit
  · exact hlt hlimit

/-- **The poller loses nothing exactly when** no `TryPoll` of the run finds a CQE on the call that
uses up its attempts. -/
theorem pollSound_throughout_iff (entries capacity : Nat) (fits : entries + capacity < 2 ^ 64)
    (maxAttempts : UInt64) (setters : Setters U ι) (es : List (Event U)) :
    Throughout step (PollSound setters) (init entries capacity fits maxAttempts setters) es ↔
      Along step LimitFindsNothing (init entries capacity fits maxAttempts setters) es := by
  refine throughout_iff_along es ?_ (fun _ => id)
    (fun s e s' hsound hok hstep => step_pollSound hsound hok hstep)
    fun s e s' _ hbad hstep => not_pollSound_of_limit hbad hstep
  exact ⟨rfl, fun _ => rfl, Nat.zero_le 1, fun _ hwait => (nomatch hwait),
    fun _ hwait => (nomatch hwait)⟩

theorem pollSound_oneRequest :
    Throughout step (PollSound fun _ : Nat => ⟨(), -1, none⟩)
      (init 8 8 (by decide) 3 fun _ : Nat => ⟨(), -1, none⟩)
      (oneRequest ⟨.recvmsg, false, true, false, 0, 0⟩) :=
  (pollSound_throughout_iff 8 8 (by decide) 3 _ (oneRequest _)).mpr (by decide)

/-! ### A completion that arrives on the limit -/

def twoAttempts : EventLoop Nat Unit := init 8 8 (by decide) 2 fun _ => ⟨(), -1, none⟩

/-- The first `TryPoll` finds nothing. A completion arrives, the second one finds it, blocks, and
returns with the completion of another request. -/
def lostRun : List (Event Nat) :=
  let recv (userData : Nat) : Sqe Nat := ⟨.recvmsg, false, true, false, userData, userData⟩
  [.submit (recv 0) false, .flush, .kernel .consume, .tryPoll, .kernel (.complete 0 5),
    .submit (recv 1) false, .flush, .tryPoll, .kernel .consume, .kernel (.complete 0 7),
    .pollReturns, .dispatch]

/-- Both completions are consumed, by one `TryPoll`, and one of them is dispatched. -/
theorem lostRun_dispatched :
    (run step twoAttempts lostRun).map (fun s => (s.consumed, s.dispatched, s.taken))
      = some ([⟨0, 5⟩, ⟨1, 7⟩], [⟨1, 7⟩], 2) := by
  decide

theorem not_pollSound_lostRun :
    ¬ Throughout step (PollSound twoAttempts.setters) twoAttempts lostRun := by
  intro h
  obtain ⟨s, hrun, hlogs⟩ := Option.map_eq_some_iff.mp lostRun_dispatched
  have htaken : s.taken = 2 := congrArg (fun logs => logs.2.2) hlogs
  have hle := (h.last hrun).taken_le
  omega

end Hnet.EventLoop
