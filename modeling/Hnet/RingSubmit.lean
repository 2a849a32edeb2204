import Hnet.Lts
import Hnet.Poller

/-!
# `net::ring_submit`

Fibers that call the plain and the timed `ring_submit` of `ring2/submitter.cc` on one ring, under a
cooperative scheduler. A fiber gives way in two places only: at `tf::Yield` when
`io_uring_get_sqe` returned null, and at `Suspend`. So one fiber runs at a time, the poller is
called while none does, and the kernel works in between any two steps.

What a call keeps on its fiber's stack is named by the fiber, the number of the call and the
object. An address is therefore good exactly while the call it names has not been left.
-/

namespace Hnet

/-! ### Result codes -/

def ENOENT : Int := 2
def EINTR : Int := 4
def ETIME : Int := 62
def ECANCELED : Int := 125
/-- The two codes of `ring2/submitter.h`. -/
def ENOCQE : Int := 100512
def ESQE_TIMEOUT : Int := 100513

structure Errno where
  val : Nat
  pos : 0 < val

/-! ### The stack of a call -/

/-- What the kernel is given an address of. -/
inductive StackObj where
  /-- `res_setter` of a plain call -/
  | resSetter
  /-- `op_res_setter` and `timeout_res_setter` of a timed one -/
  | opResSetter
  | timeoutResSetter
  /-- `kernel_ts` of a timed call -/
  | kernelTs
  /-- the message header and buffer, or the address, in the frame that called `ring_submit` -/
  | request
  deriving DecidableEq, Repr

/-- An address on the stack of a call: the `call`-th `ring_submit` of `fiber`. -/
structure Ptr (ι : Type) where
  fiber : ι
  call : Nat
  obj : StackObj
  deriving DecidableEq, Repr

/-- `check_both_set` of a timed call. -/
def checkBothSet {ι : Type} (fiber : ι) (call : Nat) (res : Ptr ι → Int) : Bool :=
  res ⟨fiber, call, .opResSetter⟩ != -ENOCQE && res ⟨fiber, call, .timeoutResSetter⟩ != -ENOCQE

/-- The setters as their call constructs them. Each call has its own, so the store can hold them
from the start. -/
def freshSetters {ι : Type} : Setters (Ptr ι) ι := fun p =>
  { fiber := p.fiber
    res := -ENOCQE
    shouldWake := if p.obj = .resSetter then none else some (checkBothSet p.fiber p.call) }

/-- What `builder(sqe)` writes. -/
structure Request where
  opcode : Opcode
  async : Bool
  pollFirst : Bool
  deriving DecidableEq, Repr

/-- The three places that call `Ring::submit`. -/
inductive Stage where
  | plain (req : Request)
  | op (req : Request)
  | timeout
  deriving DecidableEq, Repr

/-- The SQE the builder passed to `Ring::submit` leaves in the slot. -/
def Stage.sqe {ι : Type} (fiber : ι) (call : Nat) : Stage → Sqe (Ptr ι)
  | .plain req =>
      { opcode := req.opcode, ioLink := false, async := req.async, pollFirst := req.pollFirst
        addr := ⟨fiber, call, .request⟩, userData := ⟨fiber, call, .resSetter⟩ }
  | .op req =>
      { opcode := req.opcode, ioLink := true, async := req.async, pollFirst := req.pollFirst
        addr := ⟨fiber, call, .request⟩, userData := ⟨fiber, call, .opResSetter⟩ }
  | .timeout =>
      { opcode := .linkTimeout, ioLink := false, async := false, pollFirst := false
        addr := ⟨fiber, call, .kernelTs⟩, userData := ⟨fiber, call, .timeoutResSetter⟩ }

inductive Pc where
  | idle
  /-- in the loop of `Ring::submit`, in front of `io_uring_get_sqe` -/
  | getting (stage : Stage) (starved : Bool)
  /-- in front of `io_uring_submit` -/
  | submitting (timed : Bool)
  /-- inside it, with the queue published and the return value to be read off -/
  | submitted (timed : Bool)
  | suspended (timed : Bool)
  /-- in `Suspend`, returned by the poller -/
  | woken (timed : Bool)
  deriving DecidableEq, Repr

/-- After the slot of a stage has been filled in: `next_is_timeout` skips `io_uring_submit`. -/
def Stage.next : Stage → Pc
  | .plain _ => .submitting false
  | .op _ => .getting .timeout false
  | .timeout => .submitting true

/-- A fiber the poller returned becomes runnable if it is suspended. -/
def Pc.wake : Pc → Pc
  | .suspended timed => .woken timed
  | pc => pc

/-- The scheduler resumes a suspended fiber only once the poller has returned it. -/
def Pc.runnable : Pc → Bool
  | .suspended _ => false
  | _ => true

/-- In the middle of a stage, not having given way in it. -/
def Pc.busy : Pc → Bool
  | .getting _ false => true
  | .submitting _ => true
  | .submitted _ => true
  | _ => false

/-- How a call is left: by `return`, by a failing `RES_VERIFY`, or by the `enocqe` panic. -/
inductive Outcome where
  | returned (res : Int)
  | threw (code : Int)
  | panicked
  deriving DecidableEq, Repr

/-- The plain `ring_submit` after `Suspend`. -/
def plainOutcome (res : Int) : Outcome :=
  if res = -ENOCQE then .panicked else .returned res

/-- The timed `ring_submit` after `Suspend`. -/
def timedOutcome (op timeout : Int) : Outcome :=
  if timeout = -ENOENT then
    .returned op
  else if ¬ ((timeout = -ECANCELED ∨ timeout = -ETIME) ∨ 0 ≤ op) then
    .threw (-timeout)
  else if timeout = -ECANCELED then
    .returned op
  else
    .returned (-ESQE_TIMEOUT)

structure Left (ι : Type) where
  fiber : ι
  call : Nat
  timed : Bool
  outcome : Outcome
  deriving DecidableEq, Repr

/-- The fibers over the ring and its poller. `left` and `wakes` are history: the calls left so far,
and for each fiber that `dispatch` returned, the call whose CQE it was. -/
structure Runtime (ι : Type) where
  loop : EventLoop (Ptr ι) ι
  pc : ι → Pc
  /-- How many calls of `ring_submit` each fiber has begun; the last one is the current one. -/
  calls : ι → Nat
  running : Option ι
  left : List (Left ι)
  wakes : List (ι × Nat)

namespace Runtime

variable {ι : Type} [DecidableEq ι]

def init (entries capacity : Nat) (fits : entries + capacity < 2 ^ 64) (maxAttempts : UInt64) :
    Runtime ι where
  loop := EventLoop.init entries capacity fits maxAttempts freshSetters
  pc := fun _ => .idle
  calls := fun _ => 0
  running := none
  left := []
  wakes := []

def call (s : Runtime ι) (f : ι) (req : Request) (timed : Bool) : Runtime ι :=
  { s with
    pc := Function.update s.pc f (.getting (if timed then .op req else .plain req) false)
    calls := Function.update s.calls f (s.calls f + 1) }

/-- One pass of the loop of `Ring::submit`. -/
def get (s : Runtime ι) (f : ι) (stage : Stage) (starved : Bool) : Runtime ι :=
  match s.loop.ring.trySubmit (stage.sqe f (s.calls f)) starved with
  | none =>
      { s with
        loop := { s.loop with ring := s.loop.ring.starve }
        pc := Function.update s.pc f (.getting stage true)
        running := none }
  | some ring =>
      { s with
        loop := { s.loop with ring := ring }
        pc := Function.update s.pc f stage.next }

def flush (s : Runtime ι) (f : ι) (timed : Bool) : Runtime ι :=
  { s with
    loop := { s.loop with ring := s.loop.ring.flush }
    pc := Function.update s.pc f (.submitted timed) }

/-- What `io_uring_submit` returns: a negative errno, or the number of published SQEs the kernel
has not consumed. -/
def submitRet (s : Runtime ι) : Option Errno → Int
  | some err => -err.val
  | none => s.loop.ring.ring.unconsumed

/-- `io_uring_submit` returns `ret`. The plain call ignores it, the timed one checks it. -/
def count (s : Runtime ι) (f : ι) (timed : Bool) (ret : Int) : Runtime ι :=
  if timed = true ∧ ¬ (2 ≤ ret ∨ ret = 0) then
    { s with
      pc := Function.update s.pc f .idle
      left := s.left ++ [⟨f, s.calls f, true, .threw (-ret)⟩] }
  else
    { s with
      pc := Function.update s.pc f (.suspended timed)
      running := none }

/-- The setter results of the current call of a fiber. -/
def res (s : Runtime ι) (f : ι) (obj : StackObj) : Int :=
  (s.loop.setters ⟨f, s.calls f, obj⟩).res

/-- `ring_submit` after `Suspend`. -/
def finish (s : Runtime ι) (f : ι) (timed : Bool) : Runtime ι :=
  { s with
    pc := Function.update s.pc f .idle
    left := s.left ++ [⟨f, s.calls f, timed,
      if timed then timedOutcome (s.res f .opResSetter) (s.res f .timeoutResSetter)
      else plainOutcome (s.res f .resSetter)⟩] }

def dispatchNext (s : Runtime ι) (cqe : Cqe (Ptr ι)) (rest : List (Cqe (Ptr ι))) : Runtime ι :=
  match (dispatch s.loop.setters cqe).2 with
  | none => { s with loop := s.loop.dispatchNext cqe rest }
  | some f =>
      { s with
        loop := s.loop.dispatchNext cqe rest
        pc := Function.update s.pc f (s.pc f).wake
        wakes := s.wakes ++ [(f, cqe.userData.call)] }

inductive PollEvent where
  | tryPoll
  | pollReturns
  | pollThrows
  | tryPollMany
  deriving DecidableEq, Repr

def PollEvent.toEvent : PollEvent → EventLoop.Event (Ptr ι)
  | .tryPoll => .tryPoll
  | .pollReturns => .pollReturns
  | .pollThrows => .pollThrows
  | .tryPollMany => .tryPollMany

inductive Event (ι : Type) where
  | kernel (e : KernelEvent)
  | poll (e : PollEvent)
  | dispatch
  /-- the scheduler switches to a fiber, or the fiber gives way outside `ring_submit` -/
  | resume (f : ι)
  | park (f : ι)
  /-- the running fiber takes its next step -/
  | call (f : ι) (req : Request) (timed : Bool)
  | get (f : ι)
  | flush (f : ι)
  | count (f : ι) (err : Option Errno)
  | finish (f : ι)

def step (s : Runtime ι) : Event ι → Option (Runtime ι)
  | .kernel e => (s.loop.step (.kernel e)).map fun loop => { s with loop := loop }
  | .poll e =>
      if s.running = none then
        (s.loop.step e.toEvent).map fun loop => { s with loop := loop }
      else
        none
  | .dispatch =>
      match s.running, s.loop.pc with
      | none, .dispatching cqe rest => some (s.dispatchNext cqe rest)
      | _, _ => none
  | .resume f =>
      match s.running, s.loop.pc, (s.pc f).runnable with
      | none, .ready, true => some { s with running := some f }
      | _, _, _ => none
  | .park f =>
      if s.running = some f ∧ s.pc f = .idle then some { s with running := none } else none
  | .call f req timed =>
      if s.running = some f ∧ s.pc f = .idle then some (s.call f req timed) else none
  | .get f =>
      if s.running = some f then
        match s.pc f with
        | .getting stage starved => some (s.get f stage starved)
        | _ => none
      else
        none
  | .flush f =>
      if s.running = some f then
        match s.pc f with
        | .submitting timed => some (s.flush f timed)
        | _ => none
      else
        none
  | .count f err =>
      if s.running = some f then
        match s.pc f with
        | .submitted timed => some (s.count f timed (s.submitRet err))
        | _ => none
      else
        none
  | .finish f =>
      if s.running = some f then
        match s.pc f with
        | .woken timed => some (s.finish f timed)
        | _ => none
      else
        none

/-! ### What a step can do -/

section Cases

variable {s s' : Runtime ι}

theorem step_kernel {e : KernelEvent} (h : s.step (.kernel e) = some s') :
    ∃ ring, s.loop.ring.kernel e = some ring
      ∧ s' = { s with loop := { s.loop with ring := ring } } := by
  obtain ⟨loop, hloop, rfl⟩ := Option.map_eq_some_iff.mp h
  obtain ⟨ring, hring, rfl⟩ := EventLoop.step_kernel hloop
  exact ⟨ring, hring, rfl⟩

theorem step_poll {e : PollEvent} (h : s.step (.poll e) = some s') :
    s.running = none ∧ ∃ loop, s.loop.step e.toEvent = some loop
      ∧ s' = { s with loop := loop } := by
  simp only [step] at h
  split at h
  · rename_i hrunning
    obtain ⟨loop, hloop, rfl⟩ := Option.map_eq_some_iff.mp h
    exact ⟨hrunning, loop, hloop, rfl⟩
  · cases h

theorem step_dispatch (h : s.step .dispatch = some s') :
    ∃ cqe rest, s.running = none ∧ s.loop.pc = .dispatching cqe rest
      ∧ s' = s.dispatchNext cqe rest := by
  simp only [step] at h
  split at h
  · rename_i cqe rest hrunning hpc
    exact ⟨cqe, rest, hrunning, hpc, (Option.some.inj h).symm⟩
  · cases h

theorem step_resume {f : ι} (h : s.step (.resume f) = some s') :
    s.running = none ∧ s.loop.pc = .ready ∧ (s.pc f).runnable = true
      ∧ s' = { s with running := some f } := by
  simp only [step] at h
  split at h
  · rename_i hrunning hpc hrunnable
    exact ⟨hrunning, hpc, hrunnable, (Option.some.inj h).symm⟩
  · cases h

theorem step_park {f : ι} (h : s.step (.park f) = some s') :
    s.running = some f ∧ s.pc f = .idle ∧ s' = { s with running := none } := by
  simp only [step] at h
  obtain ⟨hcan, heq⟩ := Lts.of_guarded h
  exact ⟨hcan.1, hcan.2, heq⟩

theorem step_call {f : ι} {req : Request} {timed : Bool}
    (h : s.step (.call f req timed) = some s') :
    s.running = some f ∧ s.pc f = .idle ∧ s' = s.call f req timed := by
  simp only [step] at h
  obtain ⟨hcan, heq⟩ := Lts.of_guarded h
  exact ⟨hcan.1, hcan.2, heq⟩

theorem step_get {f : ι} (h : s.step (.get f) = some s') :
    ∃ stage starved, s.running = some f ∧ s.pc f = .getting stage starved
      ∧ s' = s.get f stage starved := by
  simp only [step] at h
  split at h
  · rename_i hrunning
    split at h
    · rename_i stage starved hpc
      exact ⟨stage, starved, hrunning, hpc, (Option.some.inj h).symm⟩
    · cases h
  · cases h

theorem step_flush {f : ι} (h : s.step (.flush f) = some s') :
    ∃ timed, s.running = some f ∧ s.pc f = .submitting timed ∧ s' = s.flush f timed := by
  simp only [step] at h
  split at h
  · rename_i hrunning
    split at h
    · rename_i timed hpc
      exact ⟨timed, hrunning, hpc, (Option.some.inj h).symm⟩
    · cases h
  · cases h

theorem step_count {f : ι} {err : Option Errno} (h : s.step (.count f err) = some s') :
    ∃ timed, s.running = some f ∧ s.pc f = .submitted timed
      ∧ s' = s.count f timed (s.submitRet err) := by
  simp only [step] at h
  split at h
  · rename_i hrunning
    split at h
    · rename_i timed hpc
      exact ⟨timed, hrunning, hpc, (Option.some.inj h).symm⟩
    · cases h
  · cases h

theorem step_finish {f : ι} (h : s.step (.finish f) = some s') :
    ∃ timed, s.running = some f ∧ s.pc f = .woken timed ∧ s' = s.finish f timed := by
  simp only [step] at h
  split at h
  · rename_i hrunning
    split at h
    · rename_i timed hpc
      exact ⟨timed, hrunning, hpc, (Option.some.inj h).symm⟩
    · cases h
  · cases h

theorem get_cases (s : Runtime ι) (f : ι) (stage : Stage) (starved : Bool) :
    (∃ ring hslot, s.loop.ring.trySubmit (stage.sqe f (s.calls f)) starved = some ring
      ∧ ring.ring = s.loop.ring.ring.queue (stage.sqe f (s.calls f)) hslot
      ∧ s.get f stage starved = { s with
          loop := { s.loop with ring := ring }
          pc := Function.update s.pc f stage.next }) ∨
    (¬ s.loop.ring.ring.HasSlot
      ∧ s.get f stage starved = { s with
          loop := { s.loop with ring := s.loop.ring.starve }
          pc := Function.update s.pc f (.getting stage true)
          running := none }) := by
  unfold get
  cases htry : s.loop.ring.trySubmit (stage.sqe f (s.calls f)) starved with
  | none => exact Or.inr ⟨Ring.trySubmit_eq_none_iff.mp htry, rfl⟩
  | some ring =>
      obtain ⟨hslot, hring, _⟩ := Ring.trySubmit_ring htry
      exact Or.inl ⟨ring, hslot, rfl, hring, rfl⟩

theorem count_cases (s : Runtime ι) (f : ι) (timed : Bool) (ret : Int) :
    (timed = true ∧ ¬ (2 ≤ ret ∨ ret = 0) ∧ s.count f timed ret = { s with
        pc := Function.update s.pc f .idle
        left := s.left ++ [⟨f, s.calls f, true, .threw (-ret)⟩] }) ∨
    (¬ (timed = true ∧ ¬ (2 ≤ ret ∨ ret = 0)) ∧ s.count f timed ret = { s with
        pc := Function.update s.pc f (.suspended timed)
        running := none }) := by
  unfold count
  split
  · rename_i hbad
    exact Or.inl ⟨hbad.1, hbad.2, rfl⟩
  · rename_i hgood
    exact Or.inr ⟨hgood, rfl⟩

end Cases

end Runtime

end Hnet
