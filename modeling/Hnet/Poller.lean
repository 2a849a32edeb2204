import Hnet.Lts
import Hnet.Ring
import Mathlib.Logic.Function.Basic

/-!
# `net::RingPoller`

The poller of `ring2/poller.cc` over the ring it shares with the fibers. A `TryPoll` that has used
up its attempts blocks in `Ring::poll`, and `TryPollMany` dispatches a batch one by one, so a call
is several steps and the kernel posts completions between any two of them.
-/

namespace Hnet

/-- `UringResSetter`. `shouldWake` is a closure over the `res` fields of setters. -/
structure UringResSetter (U ι : Type) where
  fiber : ι
  res : Int
  shouldWake : Option ((U → Int) → Bool)

/-- The setters by their address, the `user_data` of the SQEs. -/
abbrev Setters (U ι : Type) := U → UringResSetter U ι

section Dispatch

variable {U ι : Type} [DecidableEq U]

/-- `setter->res = cqe.res` -/
def Setters.store (setters : Setters U ι) (cqe : Cqe U) : Setters U ι :=
  Function.update setters cqe.userData { setters cqe.userData with res := cqe.res }

/-- `dispatch` of `ring2/poller.cc`: the setters after it, and the fiber to wake or `nullptr`. -/
def dispatch (setters : Setters U ι) (cqe : Cqe U) : Setters U ι × Option ι :=
  let stored := setters.store cqe
  let setter := stored cqe.userData
  let wake := match setter.shouldWake with
    | none => true
    | some shouldWake => shouldWake fun u => (stored u).res
  (stored, if wake then some setter.fiber else none)

theorem Setters.store_res (setters : Setters U ι) (cqe : Cqe U) (u : U) :
    (setters.store cqe u).res = if cqe.userData = u then cqe.res else (setters u).res := by
  by_cases heq : u = cqe.userData
  · subst heq
    simp [store]
  · simp [store, heq, Ne.symm heq]

@[simp]
theorem Setters.store_fiber (setters : Setters U ι) (cqe : Cqe U) (u : U) :
    (setters.store cqe u).fiber = (setters u).fiber := by
  by_cases heq : u = cqe.userData
  · subst heq
    simp [store]
  · simp [store, heq]

@[simp]
theorem Setters.store_shouldWake (setters : Setters U ι) (cqe : Cqe U) (u : U) :
    (setters.store cqe u).shouldWake = (setters u).shouldWake := by
  by_cases heq : u = cqe.userData
  · subst heq
    simp [store]
  · simp [store, heq]

end Dispatch

/-- What a setter holds once `cqes` have been dispatched in that order. -/
def resAfter {U : Type} [DecidableEq U] (cqes : List (Cqe U)) (u : U) (res : Int) : Int :=
  cqes.foldl (fun res cqe => if cqe.userData = u then cqe.res else res) res

/-- A setter for which no CQE has been dispatched keeps its result; the others have that of one. -/
theorem resAfter_cases {U : Type} [DecidableEq U] (cqes : List (Cqe U)) (u : U) (res : Int) :
    (u ∉ cqes.map Cqe.userData ∧ resAfter cqes u res = res) ∨ ⟨u, resAfter cqes u res⟩ ∈ cqes := by
  induction cqes generalizing res with
  | nil => exact Or.inl ⟨List.not_mem_nil, rfl⟩
  | cons cqe cqes ih =>
      simp only [resAfter, List.foldl_cons, List.map_cons, List.mem_cons, not_or]
      by_cases heq : cqe.userData = u
      · rw [if_pos heq]
        rcases ih cqe.res with ⟨_, hres⟩ | hmem
        · refine Or.inr (Or.inl ?_)
          rw [resAfter] at hres
          rw [hres, ← heq]
        · exact Or.inr (Or.inr hmem)
      · rw [if_neg heq]
        exact (ih res).imp (fun h => ⟨⟨Ne.symm heq, h.1⟩, h.2⟩) Or.inr

inductive PollerPc (U : Type) where
  | ready
  /-- in the `Ring::poll` of `TryPoll`, which holds the `maybe_cqe` of its `try_poll` -/
  | waiting (maybeCqe : Option (Cqe U))
  /-- in front of the `dispatch` of the first of these CQEs -/
  | dispatching (cqe : Cqe U) (rest : List (Cqe U))

/-- The CQEs still to be dispatched by the call that is running. -/
def PollerPc.pending {U : Type} : PollerPc U → List (Cqe U)
  | .ready => []
  | .waiting _ => []
  | .dispatching cqe rest => cqe :: rest

def PollerPc.dispatchAll {U : Type} : List (Cqe U) → PollerPc U
  | [] => .ready
  | cqe :: rest => .dispatching cqe rest

@[simp]
theorem PollerPc.pending_ready {U : Type} : (PollerPc.ready : PollerPc U).pending = [] := rfl

@[simp]
theorem PollerPc.pending_waiting {U : Type} (maybeCqe : Option (Cqe U)) :
    (PollerPc.waiting maybeCqe).pending = [] := rfl

@[simp]
theorem PollerPc.pending_dispatching {U : Type} (cqe : Cqe U) (rest : List (Cqe U)) :
    (PollerPc.dispatching cqe rest).pending = cqe :: rest := rfl

@[simp]
theorem PollerPc.pending_dispatchAll {U : Type} (cqes : List (Cqe U)) :
    (PollerPc.dispatchAll cqes).pending = cqes := by
  cases cqes <;> rfl

/-- The ring, the setters and the poller. The last five fields are history: what the running or
last call has returned so far, the CQEs the poller consumed and those it dispatched, how many CQEs
the running or last `TryPoll` consumed, and how many requests were outstanding when it was
called. -/
structure EventLoop (U ι : Type) where
  ring : Ring U
  setters : Setters U ι
  /-- `attempts_`, a `size_t` -/
  attempts : UInt64
  /-- `max_attempts_`, a `size_t` -/
  maxAttempts : UInt64
  pc : PollerPc U
  fibers : List (Option ι)
  consumed : List (Cqe U)
  dispatched : List (Cqe U)
  taken : Nat
  outstandingAtCall : Nat

namespace EventLoop

variable {U ι : Type}

def init (entries capacity : Nat) (fits : entries + capacity < 2 ^ 64) (maxAttempts : UInt64)
    (setters : Setters U ι) : EventLoop U ι where
  ring := Ring.init entries capacity fits
  setters := setters
  attempts := 0
  maxAttempts := maxAttempts
  pc := .ready
  fibers := []
  consumed := []
  dispatched := []
  taken := 0
  outstandingAtCall := 0

/-- `RingPoller::TryPoll` up to its `Ring::poll`, its `dispatch` or its `return nullptr`. -/
def tryPoll (s : EventLoop U ι) : EventLoop U ι :=
  let maybeCqe := s.ring.tryPoll.1
  let called := { s with
    ring := s.ring.tryPoll.2
    attempts := s.attempts + 1
    fibers := []
    consumed := s.consumed ++ maybeCqe.toList
    taken := maybeCqe.toList.length
    outstandingAtCall := Multiset.card s.ring.ring.outstanding }
  if s.maxAttempts ≤ s.attempts + 1 then
    { called with pc := .waiting maybeCqe }
  else
    match maybeCqe with
    | some cqe => { called with attempts := 0, pc := .dispatching cqe [] }
    | none => { called with fibers := [none] }

/-- The `Ring::poll` of `TryPoll` returns: `maybe_cqe = ring_->poll()`. -/
def pollReturns (s : EventLoop U ι) (cqe : Cqe U) (ring : Ring U) : EventLoop U ι :=
  { s with
    ring := ring
    attempts := 0
    pc := .dispatching cqe []
    consumed := s.consumed ++ [cqe]
    taken := s.taken + 1 }

/-- `RingPoller::TryPollMany` up to its first `dispatch`. -/
def tryPollMany (s : EventLoop U ι) : EventLoop U ι :=
  { s with
    ring := s.ring.tryPollMany.2
    fibers := []
    consumed := s.consumed ++ s.ring.tryPollMany.1
    pc := .dispatchAll s.ring.tryPollMany.1 }

/-- The next `dispatch` of the call that is running. -/
def dispatchNext [DecidableEq U] (s : EventLoop U ι) (cqe : Cqe U) (rest : List (Cqe U)) :
    EventLoop U ι :=
  { s with
    setters := (dispatch s.setters cqe).1
    fibers := s.fibers ++ [(dispatch s.setters cqe).2]
    dispatched := s.dispatched ++ [cqe]
    pc := .dispatchAll rest }

/-- What can happen at a ring with a poller. A `SYSCALL_VERIFY` that fails in `try_poll` throws
before anything has changed, so it is not an event. -/
inductive Event (U : Type) where
  | kernel (e : KernelEvent)
  /-- one pass of the loop of `Ring::submit`, in whatever fiber -/
  | submit (sqe : Sqe U) (starved : Bool)
  /-- the `io_uring_submit` that ends `Ring::submit` unless `next_is_timeout` -/
  | flush
  /-- `Ring::poll`, `Ring::try_poll`, `Ring::try_poll_many` called without the poller -/
  | ringPoll
  | ringTryPoll
  | ringTryPollMany
  /-- `RingPoller::TryPoll` is called -/
  | tryPoll
  /-- its `Ring::poll` returns, or the `SYSCALL_VERIFY` in it throws -/
  | pollReturns
  | pollThrows
  /-- `RingPoller::TryPollMany` is called -/
  | tryPollMany
  /-- the running call passes its next CQE to `dispatch` -/
  | dispatch

/-- One step. The process has one thread: while a call of the poller runs, only the kernel works
beside it. -/
def step [DecidableEq U] (s : EventLoop U ι) : Event U → Option (EventLoop U ι)
  | .kernel e => (s.ring.kernel e).map fun ring => { s with ring := ring }
  | .submit sqe starved =>
      match s.pc with
      | .ready => some { s with ring := (s.ring.trySubmit sqe starved).getD s.ring.starve }
      | _ => none
  | .flush =>
      match s.pc with
      | .ready => some { s with ring := s.ring.flush }
      | _ => none
  | .ringPoll =>
      match s.pc with
      | .ready => s.ring.poll.map fun found => { s with ring := found.2 }
      | _ => none
  | .ringTryPoll =>
      match s.pc with
      | .ready => some { s with ring := s.ring.tryPoll.2 }
      | _ => none
  | .ringTryPollMany =>
      match s.pc with
      | .ready => some { s with ring := s.ring.tryPollMany.2 }
      | _ => none
  | .tryPoll =>
      match s.pc with
      | .ready => some s.tryPoll
      | _ => none
  | .pollReturns =>
      match s.pc with
      | .waiting _ => s.ring.poll.map fun found => s.pollReturns found.1 found.2
      | _ => none
  | .pollThrows =>
      match s.pc with
      | .waiting _ => some { s with pc := .ready }
      | _ => none
  | .tryPollMany =>
      match s.pc with
      | .ready => some s.tryPollMany
      | _ => none
  | .dispatch =>
      match s.pc with
      | .dispatching cqe rest => some (s.dispatchNext cqe rest)
      | _ => none

def hasPending (s : EventLoop U ι) : Bool := s.ring.hasPending

/-! ### What a step can do -/

theorem tryPoll_cases (s : EventLoop U ι) :
    (s.maxAttempts ≤ s.attempts + 1 ∧ s.tryPoll.pc = .waiting s.ring.tryPoll.1) ∨
    (∃ cqe, ¬ s.maxAttempts ≤ s.attempts + 1 ∧ s.ring.tryPoll.1 = some cqe
      ∧ s.tryPoll.pc = .dispatching cqe []) ∨
    (¬ s.maxAttempts ≤ s.attempts + 1 ∧ s.ring.tryPoll.1 = none ∧ s.tryPoll.pc = s.pc) := by
  unfold tryPoll
  split
  · exact Or.inl ⟨by assumption, rfl⟩
  · rename_i hlt
    cases hfound : s.ring.tryPoll.1 with
    | some cqe => exact Or.inr (Or.inl ⟨cqe, hlt, rfl, rfl⟩)
    | none => exact Or.inr (Or.inr ⟨hlt, rfl, rfl⟩)

theorem tryPoll_frame (s : EventLoop U ι) :
    s.tryPoll.ring = s.ring.tryPoll.2 ∧ s.tryPoll.setters = s.setters
      ∧ s.tryPoll.consumed = s.consumed ++ s.ring.tryPoll.1.toList
      ∧ s.tryPoll.dispatched = s.dispatched
      ∧ s.tryPoll.taken = s.ring.tryPoll.1.toList.length
      ∧ s.tryPoll.outstandingAtCall = Multiset.card s.ring.ring.outstanding := by
  unfold tryPoll
  split
  · exact ⟨rfl, rfl, rfl, rfl, rfl, rfl⟩
  · cases s.ring.tryPoll.1 <;> exact ⟨rfl, rfl, rfl, rfl, rfl, rfl⟩

section Cases

variable [DecidableEq U] {s s' : EventLoop U ι}

theorem step_kernel {e : KernelEvent} (h : s.step (.kernel e) = some s') :
    ∃ ring, s.ring.kernel e = some ring ∧ s' = { s with ring := ring } := by
  obtain ⟨ring, hring, rfl⟩ := Option.map_eq_some_iff.mp h
  exact ⟨ring, hring, rfl⟩

theorem step_pollReturns (h : s.step .pollReturns = some s') :
    ∃ held cqe ring, s.pc = .waiting held ∧ s.ring.poll = some (cqe, ring)
      ∧ s' = s.pollReturns cqe ring := by
  simp only [step] at h
  split at h
  · rename_i held hpc
    obtain ⟨⟨cqe, ring⟩, hpoll, rfl⟩ := Option.map_eq_some_iff.mp h
    exact ⟨held, cqe, ring, hpc, hpoll, rfl⟩
  · cases h

theorem step_pollThrows (h : s.step .pollThrows = some s') :
    ∃ held, s.pc = .waiting held ∧ s' = { s with pc := .ready } := by
  simp only [step] at h
  split at h
  · rename_i held hpc
    exact ⟨held, hpc, (Option.some.inj h).symm⟩
  · cases h

theorem step_tryPoll (h : s.step .tryPoll = some s') : s.pc = .ready ∧ s' = s.tryPoll := by
  simp only [step] at h
  split at h
  · rename_i hpc
    exact ⟨hpc, (Option.some.inj h).symm⟩
  · cases h

theorem step_tryPollMany (h : s.step .tryPollMany = some s') :
    s.pc = .ready ∧ s' = s.tryPollMany := by
  simp only [step] at h
  split at h
  · rename_i hpc
    exact ⟨hpc, (Option.some.inj h).symm⟩
  · cases h

theorem step_dispatch (h : s.step .dispatch = some s') :
    ∃ cqe rest, s.pc = .dispatching cqe rest ∧ s' = s.dispatchNext cqe rest := by
  simp only [step] at h
  split at h
  · rename_i cqe rest hpc
    exact ⟨cqe, rest, hpc, (Option.some.inj h).symm⟩
  · cases h

theorem step_submit_of_ready (hpc : s.pc = .ready) (sqe : Sqe U) (starved : Bool) :
    s.step (.submit sqe starved)
      = some { s with ring := (s.ring.trySubmit sqe starved).getD s.ring.starve } := by
  simp only [step]
  split
  · rfl
  · rename_i hne
    exact absurd hpc hne

theorem step_flush_of_ready (hpc : s.pc = .ready) :
    s.step .flush = some { s with ring := s.ring.flush } := by
  simp only [step]
  split
  · rfl
  · rename_i hne
    exact absurd hpc hne

theorem step_dispatch_of_dispatching {cqe : Cqe U} {rest : List (Cqe U)}
    (hpc : s.pc = .dispatching cqe rest) : s.step .dispatch = some (s.dispatchNext cqe rest) := by
  simp only [step]
  split
  · rename_i cqe' rest' hpc'
    obtain ⟨rfl, rfl⟩ := PollerPc.dispatching.inj (hpc.symm.trans hpc')
    rfl
  · rename_i hne
    exact absurd hpc (hne cqe rest)

/-- The steps of the process that do not involve the poller. -/
def Event.bypasses : Event U → Bool
  | .submit _ _ | .flush | .ringPoll | .ringTryPoll | .ringTryPollMany => true
  | _ => false

/-- They wait for the poller's call to end and change the ring only. -/
theorem step_bypasses {e : Event U} (h : s.step e = some s') (he : e.bypasses = true) :
    s.pc = .ready ∧ ∃ ring, s.ring.Moves ring ∧ s' = { s with ring := ring } := by
  cases e with
  | submit sqe starved =>
      simp only [step] at h
      split at h
      · rename_i hpc
        exact ⟨hpc, _, s.ring.moves_submit sqe starved, (Option.some.inj h).symm⟩
      · cases h
  | flush =>
      simp only [step] at h
      split at h
      · rename_i hpc
        exact ⟨hpc, _, .flushes, (Option.some.inj h).symm⟩
      · cases h
  | ringPoll =>
      simp only [step] at h
      split at h
      · rename_i hpc
        obtain ⟨found, hpoll, rfl⟩ := Option.map_eq_some_iff.mp h
        exact ⟨hpc, _, .polls hpoll, rfl⟩
      · cases h
  | ringTryPoll =>
      simp only [step] at h
      split at h
      · rename_i hpc
        exact ⟨hpc, _, s.ring.moves_tryPoll, (Option.some.inj h).symm⟩
      · cases h
  | ringTryPollMany =>
      simp only [step] at h
      split at h
      · rename_i hpc
        exact ⟨hpc, _, .pollsMany, (Option.some.inj h).symm⟩
      · cases h
  | _ => cases he

/-- A step changes the ring by one operation of the kernel or of the process. -/
theorem step_ring {e : Event U} (h : s.step e = some s') :
    (∃ k, e = .kernel k ∧ s.ring.kernel k = some s'.ring) ∨ s.ring.Moves s'.ring := by
  have hprocess : e.bypasses = true → s.ring.Moves s'.ring := by
    intro he
    obtain ⟨_, ring, hmoves, rfl⟩ := step_bypasses h he
    exact hmoves
  cases e with
  | kernel k =>
      obtain ⟨ring, hring, rfl⟩ := step_kernel h
      exact Or.inl ⟨k, rfl, hring⟩
  | submit sqe starved => exact Or.inr (hprocess rfl)
  | flush => exact Or.inr (hprocess rfl)
  | ringPoll => exact Or.inr (hprocess rfl)
  | ringTryPoll => exact Or.inr (hprocess rfl)
  | ringTryPollMany => exact Or.inr (hprocess rfl)
  | tryPoll =>
      obtain ⟨_, rfl⟩ := step_tryPoll h
      rw [(tryPoll_frame s).1]
      exact Or.inr s.ring.moves_tryPoll
  | pollReturns =>
      obtain ⟨_, cqe, ring, _, hpoll, rfl⟩ := step_pollReturns h
      exact Or.inr (.polls hpoll)
  | pollThrows =>
      obtain ⟨_, _, rfl⟩ := step_pollThrows h
      exact Or.inr .stays
  | tryPollMany =>
      obtain ⟨_, rfl⟩ := step_tryPollMany h
      exact Or.inr .pollsMany
  | dispatch =>
      obtain ⟨cqe, rest, _, rfl⟩ := step_dispatch h
      exact Or.inr .stays

end Cases

end EventLoop

end Hnet
