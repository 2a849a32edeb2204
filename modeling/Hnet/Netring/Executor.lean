import Hnet.Five.ObjectPool
import Hnet.IoUring
import Hnet.Lts
import Hnet.Netring.Request
import Mathlib.Algebra.Group.Int.Defs

/-!
# `Executor::dispatch_loop`

The loop of `netring/uf.h` with the `Handler` of `srv.cc`. One receive is armed at a time. Its
completion starts a handler on a stack of its own, which sends its reply and yields; the completion
of the send switches back into it. The cookie of an operation is a variant that holds the request of
a receive or the handler of a send, and goes back into a pool when its handler is done.

The process runs from one `poll_cookie` to the next without giving way, but the kernel works beside
it, so each call that asks for an SQE is a step.
-/

namespace Hnet.Netring

/-- A pointer to a `ReqOrHandler`. -/
abbrev VarId := Nat

/-- `sure::Stack`, `none` once it has been moved from. -/
abbrev Stack := Option Nat

/-- What an SQE is for: to receive, or to send the reply of a handler, by the number of the
handler. -/
inductive Op where
  | recv
  | send (handler : Nat)
  deriving DecidableEq, Repr

/-- The `user_data` of an SQE. The process puts in and reads the variant only. -/
structure Cookie where
  variant : VarId
  op : Op
  deriving DecidableEq, Repr

/-- Where the stack of a handler stands. -/
inductive HandlerPc (A : Type) where
  | ready
  /-- in `yield`, called by `handle` with its local `reply` -/
  | yielded (reply : Request A)
  /-- exited, `finished_` is set -/
  | finished
  deriving DecidableEq, Repr

structure Handler (A : Type) where
  request : Request A
  stack : Stack
  cookie : VarId
  lastCqe : Cqe Cookie
  pc : HandlerPc A
  number : Nat
  deriving DecidableEq, Repr

inductive ReqOrHandler (A : Type) where
  | monostate
  | request (r : Request A)
  | handler (h : Handler A)
  deriving DecidableEq, Repr

/-- `emplace` destroys what the variant held. -/
def ReqOrHandler.destroy {A : Type} (heap : Heap) : ReqOrHandler A → Heap
  | .monostate => heap
  | .request r => r.destroy heap
  | .handler h => h.request.destroy heap

@[simp]
theorem ReqOrHandler.destroy_request {A : Type} (heap : Heap) (r : Request A) :
    (ReqOrHandler.request r).destroy heap = r.destroy heap := rfl

inductive Pc where
  /-- in `poll_cookie` -/
  | polling
  /-- in front of `recvmsg` for the request in a variant, and then in front of a handler -/
  | arming (variant : VarId) (handler : Option VarId)
  /-- in front of the first switch into the handler in a variant -/
  | entering (variant : VarId)
  /-- `SYSCALL_VERIFY` threw in `poll_cookie` -/
  | threw
  /-- by the `WHEELS_PANIC("unreachable")` -/
  | panicked
  /-- `io_uring_get_sqe` returned null, and what it returned was written to -/
  | nullSqe
  /-- switched into a handler that has exited -/
  | lost
  deriving DecidableEq, Repr

/-- The state of `dispatch_loop`. The last two fields are history: the accesses of the handlers to
their buffers, and how many handlers there have been. -/
structure Executor (A : Type) where
  uring : IoUring Cookie
  variants : VarId → ReqOrHandler A
  nextVariant : VarId
  heap : Heap
  stackPool : ObjectPoolLite Stack
  nextStack : Nat
  reqOrHandlerPool : ObjectPoolLite VarId
  requests : ObjectPoolLite (Request A)
  pc : Pc
  accesses : List Access
  handlers : Nat

/-! ### The factories of the pools -/

def newStack (next : Nat) : Stack × Nat := (some next, next + 1)

def newReqOrHandler (next : VarId) : VarId × VarId := (next, next + 1)

def newRequest {A : Type} (heap : Heap) : Request A × Heap := Request.new 500 heap

def cookieSqe (opcode : Opcode) (cookie : Cookie) : Sqe Cookie :=
  { opcode := opcode, ioLink := false, async := false, pollFirst := false
    addr := cookie, userData := cookie }

/-- `Uring::recvmsg` and `Uring::sendmsg` with a cookie, `none` when the SQE they write to is
null. -/
def submit (uring : IoUring Cookie) (opcode : Opcode) (cookie : Cookie) : Option (IoUring Cookie) :=
  if hslot : uring.HasSlot then
    some (uring.queue (cookieSqe opcode cookie) hslot).submit
  else
    none

theorem submit_of_slot {uring : IoUring Cookie} {opcode : Opcode} {cookie : Cookie}
    (hslot : uring.HasSlot) :
    submit uring opcode cookie = some (uring.queue (cookieSqe opcode cookie) hslot).submit :=
  dif_pos hslot

theorem submit_of_full {uring : IoUring Cookie} {opcode : Opcode} {cookie : Cookie}
    (hfull : ¬ uring.HasSlot) : submit uring opcode cookie = none := dif_neg hfull

/-- A `res` as a `size_t`. -/
def sizeT (res : Int) : Nat := (res % 2 ^ 64).toNat

/-- `Handler::handle` up to its `sendmsg`: the reply, the pool, the heap, and its accesses. -/
def Handler.handle {A : Type} (h : Handler A) (requests : ObjectPoolLite (Request A))
    (heap : Heap) :
    Request A × ObjectPoolLite (Request A) × Heap × List Access :=
  let size := sizeT h.lastCqe.res
  let got := requests.get newRequest heap
  let req := h.request.iov.base
  let reply := got.1.iov.base
  let first := got.2.2.write reply 0 (got.2.2.read req size)
  let second := first.write reply size (first.read req size)
  let sent := size * 2 % 2 ^ 64
  ({ got.1 with iov := { base := reply, len := sent }, addr := h.request.addr },
    got.2.1,
    second,
    [{ kind := .read, off := 0, len := size, size := got.2.2.size req },
      { kind := .write, off := 0, len := size, size := got.2.2.size reply },
      { kind := .read, off := 0, len := size, size := first.size req },
      { kind := .write, off := size, len := size, size := first.size reply },
      { kind := .send, off := 0, len := sent, size := second.size reply }])

namespace Executor

variable {A : Type}

/-- The loop is in front of its first `recvmsg`, which is for `new ReqOrHandler(Request(500))`. -/
def started (uring : IoUring Cookie) (stackPool : ObjectPoolLite Stack × Nat)
    (reqOrHandlerPool : ObjectPoolLite VarId × VarId)
    (requests : ObjectPoolLite (Request A) × Heap) : Executor A :=
  let variant := newReqOrHandler reqOrHandlerPool.2
  let request := newRequest requests.2
  { uring := uring
    variants := Function.update (fun _ => .monostate) variant.1 (.request request.1)
    nextVariant := variant.2
    heap := request.2
    stackPool := stackPool.1
    nextStack := stackPool.2
    reqOrHandlerPool := reqOrHandlerPool.1
    requests := requests.1
    pc := .arming variant.1 none
    accesses := []
    handlers := 0 }

/-- The beginning of `dispatch_loop`: the three pools are asked for ten objects each. -/
def start (uring : IoUring Cookie) : Option (Executor A) :=
  match ObjectPoolLite.new 10 newStack 0, ObjectPoolLite.new 10 newReqOrHandler 0,
    ObjectPoolLite.new 10 newRequest Heap.empty with
  | .done stackPool, .done reqOrHandlerPool, .done requests =>
      some (started uring stackPool reqOrHandlerPool requests)
  | _, _, _ => none

/-- `Uring::Uring` asks for eight entries. -/
def init (capacity : Nat) (fits : 8 + capacity < 2 ^ 64) : Executor A :=
  started (IoUring.init 8 capacity fits) ({ objects := [] }, 0) ({ objects := [] }, 0)
    ({ objects := [] }, Heap.empty)

/-- The pools come out of their constructors empty. -/
theorem start_eq (capacity : Nat) (fits : 8 + capacity < 2 ^ 64) :
    start (IoUring.init 8 capacity fits) = some (init capacity fits : Executor A) := by
  have hrange : xrange (10 : UInt64).toInt64 = .ok { start := 0, stop := 10, step := 1 } := by
    decide
  rw [start, ObjectPoolLite.new_of_xrange hrange, ObjectPoolLite.new_of_xrange hrange,
    ObjectPoolLite.new_of_xrange hrange, init]

/-! ### The loop -/

/-- The completion of a receive, up to the `recvmsg` that arms the next one. -/
def startHandler (s : Executor A) (cqe : Cqe Cookie) (req : Request A) : Executor A :=
  let variant := cqe.userData.variant
  let new := s.reqOrHandlerPool.get newReqOrHandler s.nextVariant
  let stack := s.stackPool.get newStack s.nextStack
  let handler : Handler A :=
    { request := req, stack := stack.1, cookie := new.1, lastCqe := cqe, pc := .ready
      number := s.handlers }
  let heap := (s.variants new.1).destroy s.heap
  let moved := Function.update s.variants variant (.request req.movedFrom)
  let emplaced := Function.update moved new.1 (.handler handler)
  let request := s.requests.get newRequest heap
  { s with
    variants := Function.update emplaced variant (.request request.1)
    nextVariant := new.2.2
    heap := (emplaced variant).destroy request.2.2
    stackPool := stack.2.1
    nextStack := stack.2.2
    reqOrHandlerPool := new.2.1
    requests := request.2.1
    pc := .arming variant (some new.1)
    handlers := s.handlers + 1 }

/-- The completion of a send. The handler it switches into puts its reply into the pool and exits,
and its stack and its variant go back. -/
def resumeHandler (s : Executor A) (cqe : Cqe Cookie) (h : Handler A) : Executor A :=
  let variant := cqe.userData.variant
  let resumed : Handler A := { h with lastCqe := cqe }
  match h.pc with
  | .yielded reply =>
      { s with
        variants := Function.update s.variants variant
          (.handler { resumed with stack := none, pc := .finished })
        stackPool := s.stackPool.put h.stack
        reqOrHandlerPool := s.reqOrHandlerPool.put variant
        requests := s.requests.put reply
        pc := .polling }
  | .ready =>
      { s with
        variants := Function.update s.variants variant (.handler resumed), pc := .entering variant }
  | .finished =>
      { s with variants := Function.update s.variants variant (.handler resumed), pc := .lost }

/-- The loop from the return of `poll_cookie` to its next call that asks for an SQE or waits. -/
def pollReturned (s : Executor A) (cqe : Cqe Cookie) : Executor A :=
  let polled := { s with uring := s.uring.advance 1 }
  match s.variants cqe.userData.variant with
  | .request req => polled.startHandler cqe req
  | .handler h => polled.resumeHandler cqe h
  | .monostate => { polled with pc := .panicked }

def recvmsg (s : Executor A) (variant : VarId) (handler : Option VarId) : Executor A :=
  match submit s.uring .recvmsg { variant := variant, op := .recv } with
  | none => { s with pc := .nullSqe }
  | some uring =>
      { s with
        uring := uring
        pc := match handler with
          | none => .polling
          | some handler => .entering handler }

/-- The first switch into a handler, which runs up to its `yield`. -/
def enter (s : Executor A) (variant : VarId) (h : Handler A) : Executor A :=
  let handled := h.handle s.requests s.heap
  let ran : Executor A :=
    { s with
      requests := handled.2.1, heap := handled.2.2.1, accesses := s.accesses ++ handled.2.2.2 }
  match submit s.uring .sendmsg { variant := h.cookie, op := .send h.number } with
  | none => { ran with pc := .nullSqe }
  | some uring =>
      { ran with
        uring := uring
        variants := Function.update s.variants variant
          (.handler { h with pc := .yielded handled.1 })
        pc := .polling }

/-- The kernel ends the receive it has a variant for: it fills the buffer of the request and the
address. -/
def received (s : Executor A) (uring : IoUring Cookie) (variant : VarId) (done : RecvDone A) :
    Executor A :=
  match s.variants variant with
  | .request r =>
      { s with
        uring := uring
        heap := s.heap.write r.iov.base 0 (done.payload r.iov.len)
        variants := Function.update s.variants variant (.request (r.received done)) }
  | _ => { s with uring := uring }

/-- The length that the receive into a variant offers to the kernel. -/
def offered (s : Executor A) (variant : VarId) : Nat :=
  match s.variants variant with
  | .request r => r.iov.len
  | _ => 0

inductive Event (A : Type) where
  /-- the SQPOLL thread takes the oldest published SQE -/
  | consume
  /-- the kernel completes the `i`-th operation it works on, a receive or a send -/
  | recvDone (i : Nat) (done : RecvDone A)
  | sendDone (i : Nat) (res : Int)
  /-- `poll_cookie` returns, or throws -/
  | poll
  | pollThrows
  | recvmsg
  /-- the loop switches into the handler it has created -/
  | enter

def step (s : Executor A) : Event A → Option (Executor A)
  | .consume => s.uring.consume.map fun uring => { s with uring := uring }
  | .recvDone i done =>
      match s.uring.inKernel[i]? with
      | some sqe =>
          if sqe.opcode = .recvmsg then
            (s.uring.complete i (done.res (s.offered sqe.userData.variant))).map fun uring =>
              s.received uring sqe.userData.variant done
          else
            none
      | none => none
  | .sendDone i res =>
      match s.uring.inKernel[i]? with
      | some sqe =>
          if sqe.opcode = .sendmsg then
            (s.uring.complete i res).map fun uring => { s with uring := uring }
          else
            none
      | none => none
  | .poll =>
      match s.pc with
      | .polling => s.uring.peek.map s.pollReturned
      | _ => none
  | .pollThrows =>
      match s.pc with
      | .polling => some { s with pc := .threw }
      | _ => none
  | .recvmsg =>
      match s.pc with
      | .arming variant handler => some (s.recvmsg variant handler)
      | _ => none
  | .enter =>
      match s.pc with
      | .entering variant =>
          match s.variants variant with
          | .handler h => some (s.enter variant h)
          | _ => none
      | _ => none

/-! ### What a step can do -/

section Lemmas

variable {s s' : Executor A} {e : Event A}

@[simp]
theorem uring_pollReturned (cqe : Cqe Cookie) :
    (s.pollReturned cqe).uring = s.uring.advance 1 := by
  unfold pollReturned
  split
  · rfl
  · unfold resumeHandler
    split <;> rfl
  · rfl

theorem pc_pollReturned_of_request {cqe : Cqe Cookie} {req : Request A}
    (h : s.variants cqe.userData.variant = .request req) :
    (s.pollReturned cqe).pc = .arming cqe.userData.variant
      (some (s.reqOrHandlerPool.get newReqOrHandler s.nextVariant).1) := by
  simp only [pollReturned, h]
  rfl

theorem pc_pollReturned_of_yielded {cqe : Cqe Cookie} {handler : Handler A} {reply : Request A}
    (h : s.variants cqe.userData.variant = .handler handler) (hpc : handler.pc = .yielded reply) :
    (s.pollReturned cqe).pc = .polling := by
  simp only [pollReturned, resumeHandler, h, hpc]

theorem recvmsg_of_slot {variant : VarId} {handler : Option VarId} (hslot : s.uring.HasSlot) :
    s.recvmsg variant handler =
      { s with
        uring :=
          (s.uring.queue (cookieSqe .recvmsg { variant := variant, op := .recv }) hslot).submit
        pc := match handler with
          | none => .polling
          | some handler => .entering handler } := by
  simp only [recvmsg, submit_of_slot hslot]

theorem enter_of_slot {variant : VarId} {h : Handler A} (hslot : s.uring.HasSlot) :
    s.enter variant h =
      { s with
        uring := (s.uring.queue
          (cookieSqe .sendmsg { variant := h.cookie, op := .send h.number }) hslot).submit
        variants := Function.update s.variants variant
          (.handler { h with pc := .yielded (h.handle s.requests s.heap).1 })
        heap := (h.handle s.requests s.heap).2.2.1
        requests := (h.handle s.requests s.heap).2.1
        pc := .polling
        accesses := s.accesses ++ (h.handle s.requests s.heap).2.2.2 } := by
  simp only [enter, submit_of_slot hslot]

theorem step_cases (h : s.step e = some s') :
    (∃ k uring, s.uring.kernel k = some uring ∧ s' = { s with uring := uring }) ∨
    (∃ k uring variant done, s.uring.kernel k = some uring
      ∧ s' = s.received uring variant done) ∨
    (e = .poll ∧ s.pc = .polling ∧ ∃ cqe, s.uring.peek = some cqe ∧ s' = s.pollReturned cqe) ∨
    (s.pc = .polling ∧ s' = { s with pc := .threw }) ∨
    (∃ variant handler, s.pc = .arming variant handler ∧ s' = s.recvmsg variant handler) ∨
    (e = .enter ∧ ∃ variant h, s.pc = .entering variant ∧ s.variants variant = .handler h
      ∧ s' = s.enter variant h) := by
  cases e with
  | consume =>
      obtain ⟨uring, huring, rfl⟩ := Option.map_eq_some_iff.mp h
      exact Or.inl ⟨.consume, uring, huring, rfl⟩
  | recvDone i done =>
      simp only [step] at h
      split at h
      · split at h
        · obtain ⟨uring, huring, rfl⟩ := Option.map_eq_some_iff.mp h
          exact Or.inr (Or.inl ⟨.complete i _, uring, _, done, huring, rfl⟩)
        · cases h
      · cases h
  | sendDone i res =>
      simp only [step] at h
      split at h
      · split at h
        · obtain ⟨uring, huring, rfl⟩ := Option.map_eq_some_iff.mp h
          exact Or.inl ⟨.complete i res, uring, huring, rfl⟩
        · cases h
      · cases h
  | poll =>
      simp only [step] at h
      split at h
      · rename_i hpc
        obtain ⟨cqe, hpeek, rfl⟩ := Option.map_eq_some_iff.mp h
        exact Or.inr (Or.inr (Or.inl ⟨rfl, hpc, cqe, hpeek, rfl⟩))
      · cases h
  | pollThrows =>
      simp only [step] at h
      split at h
      · rename_i hpc
        exact Or.inr (Or.inr (Or.inr (Or.inl ⟨hpc, (Option.some.inj h).symm⟩)))
      · cases h
  | recvmsg =>
      simp only [step] at h
      split at h
      · rename_i hpc
        exact Or.inr (Or.inr (Or.inr (Or.inr (Or.inl ⟨_, _, hpc, (Option.some.inj h).symm⟩))))
      · cases h
  | enter =>
      simp only [step] at h
      split at h
      · rename_i variant hpc
        split at h
        · rename_i handler hhandler
          refine Or.inr (Or.inr (Or.inr (Or.inr (Or.inr
            ⟨rfl, variant, handler, hpc, hhandler, ?_⟩))))
          exact (Option.some.inj h).symm
        · cases h
      · cases h

end Lemmas

end Executor

end Hnet.Netring
