import Hnet.IoUring
import Hnet.Lts

/-!
# `net::Uring` with callbacks

The overloads of `sendmsg` and `recvmsg` in `netring/uring.cc` that take a callback, and `poll`. The
callback of an operation waits in a context from a pool, and its address is the `user_data` of the
operation.

A callback runs inside `poll`. It may start operations, and the kernel works beside it, so its
beginning and its end are steps of their own.
-/

namespace Hnet.Netring

/-- A `UContext*` -/
abbrev CtxId := Nat

/-- The `user_data` of an SQE. The process puts in and reads the context only; the number of the
operation is history. -/
structure OpContext where
  ctx : CtxId
  op : Nat
  deriving DecidableEq, Repr

inductive CallbackPc where
  /-- outside of `poll` -/
  | idle
  /-- in the callback of a completion -/
  | running (cqe : Cqe OpContext)
  /-- `front()` has been called on an empty pool -/
  | emptyPool
  /-- `io_uring_get_sqe` returned null, and what it returned was written to -/
  | nullSqe
  /-- an empty callback has been called -/
  | badCall
  deriving DecidableEq, Repr

/-- The completion whose callback runs. -/
def CallbackPc.completion : CallbackPc → List (Cqe OpContext)
  | .running cqe => [cqe]
  | _ => []

/-- The process is where it can call `sendmsg` or `recvmsg`. -/
def CallbackPc.CanStart : CallbackPc → Prop
  | .idle | .running _ => True
  | .emptyPool | .nullSqe | .badCall => False

instance : ∀ pc : CallbackPc, Decidable pc.CanStart
  | .idle | .running _ => isTrue trivial
  | .emptyPool | .nullSqe | .badCall => isFalse id

/-- `Uring`, for callbacks of the type `K`. The last two fields are history: the callbacks given
with the operations, and those that `poll` has run. -/
structure CallbackUring (K : Type) where
  uring : IoUring OpContext
  contextsPool : List CtxId
  cb : CtxId → Option K
  pc : CallbackPc
  given : List K
  ran : List K

def contextSqe (opcode : Opcode) (user : OpContext) : Sqe OpContext :=
  { opcode := opcode, ioLink := false, async := false, pollFirst := false
    addr := user, userData := user }

namespace CallbackUring

variable {K : Type}

/-- `Uring::Uring` asks for eight entries and makes a thousand contexts. -/
def init (capacity : Nat) (fits : 8 + capacity < 2 ^ 64) : CallbackUring K :=
  { uring := IoUring.init 8 capacity fits
    contextsPool := List.range 1000
    cb := fun _ => none
    pc := .idle
    given := []
    ran := [] }

/-- What `sendmsg` and `recvmsg` have in common. -/
def start (opcode : Opcode) (s : CallbackUring K) (cb : K) : CallbackUring K :=
  match s.contextsPool with
  | [] => { s with pc := .emptyPool }
  | ctx :: rest =>
      let taken :=
        { s with contextsPool := rest, cb := Function.update s.cb ctx (some cb)
                 given := s.given ++ [cb] }
      let user : OpContext := { ctx := ctx, op := s.given.length }
      if hslot : s.uring.HasSlot then
        { taken with uring := (s.uring.queue (contextSqe opcode user) hslot).submit }
      else
        { taken with pc := .nullSqe }

def sendmsg (s : CallbackUring K) (cb : K) : CallbackUring K := s.start .sendmsg cb

def recvmsg (s : CallbackUring K) (cb : K) : CallbackUring K := s.start .recvmsg cb

/-- `poll` up to the call of the callback. -/
def poll (s : CallbackUring K) (cqe : Cqe OpContext) : CallbackUring K :=
  match s.cb cqe.userData.ctx with
  | some cb => { s with pc := .running cqe, ran := s.ran ++ [cb] }
  | none => { s with pc := .badCall }

/-- `poll` after the callback. -/
def returned (s : CallbackUring K) (cqe : Cqe OpContext) : CallbackUring K :=
  { s with
    cb := Function.update s.cb cqe.userData.ctx none
    contextsPool := s.contextsPool ++ [cqe.userData.ctx]
    uring := s.uring.advance 1
    pc := .idle }

inductive Event (K : Type) where
  | kernel (e : KernelEvent)
  /-- from outside of `poll` or from a callback -/
  | sendmsg (cb : K)
  | recvmsg (cb : K)
  /-- `io_uring_wait_cqe` returns a completion, or fails, and `poll` throws -/
  | poll
  | pollThrows
  /-- the callback returns -/
  | returned

def step (s : CallbackUring K) : Event K → Option (CallbackUring K)
  | .kernel e => (s.uring.kernel e).map fun uring => { s with uring := uring }
  | .sendmsg cb => if s.pc.CanStart then some (s.sendmsg cb) else none
  | .recvmsg cb => if s.pc.CanStart then some (s.recvmsg cb) else none
  | .poll =>
      match s.pc with
      | .idle => s.uring.peek.map s.poll
      | _ => none
  | .pollThrows =>
      match s.pc with
      | .idle => some s
      | _ => none
  | .returned =>
      match s.pc with
      | .running cqe => some (s.returned cqe)
      | _ => none

/-! ### What a step can do -/

section Lemmas

variable {s s' : CallbackUring K} {e : Event K}

/-- The operation that an event starts, and its callback. -/
def Event.starts : Event K → Option (Opcode × K)
  | .sendmsg cb => some (.sendmsg, cb)
  | .recvmsg cb => some (.recvmsg, cb)
  | _ => none

theorem step_cases (h : s.step e = some s') :
    (∃ k uring, e = .kernel k ∧ s.uring.kernel k = some uring ∧ s' = { s with uring := uring }) ∨
    (∃ opcode cb, e.starts = some (opcode, cb) ∧ s.pc.CanStart ∧ s' = s.start opcode cb) ∨
    (∃ cqe, e = .poll ∧ s.pc = .idle ∧ s.uring.peek = some cqe ∧ s' = s.poll cqe) ∨
    (e = .pollThrows ∧ s' = s) ∨
    (∃ cqe, e = .returned ∧ s.pc = .running cqe ∧ s' = s.returned cqe) := by
  cases e with
  | kernel k =>
      obtain ⟨uring, hkernel, rfl⟩ := Option.map_eq_some_iff.mp h
      exact .inl ⟨k, uring, rfl, hkernel, rfl⟩
  | sendmsg cb =>
      obtain ⟨hcan, rfl⟩ := Lts.of_guarded h
      exact .inr (.inl ⟨.sendmsg, cb, rfl, hcan, rfl⟩)
  | recvmsg cb =>
      obtain ⟨hcan, rfl⟩ := Lts.of_guarded h
      exact .inr (.inl ⟨.recvmsg, cb, rfl, hcan, rfl⟩)
  | poll =>
      simp only [step] at h
      split at h
      · rename_i hpc
        obtain ⟨cqe, hpeek, rfl⟩ := Option.map_eq_some_iff.mp h
        exact .inr (.inr (.inl ⟨cqe, rfl, hpc, hpeek, rfl⟩))
      · cases h
  | pollThrows =>
      simp only [step] at h
      split at h
      · exact .inr (.inr (.inr (.inl ⟨rfl, (Option.some.inj h).symm⟩)))
      · cases h
  | returned =>
      simp only [step] at h
      split at h
      · rename_i cqe hpc
        exact .inr (.inr (.inr (.inr ⟨cqe, rfl, hpc, (Option.some.inj h).symm⟩)))
      · cases h

theorem start_of_slot {opcode : Opcode} {cb : K} {ctx : CtxId} {rest : List CtxId}
    (hpool : s.contextsPool = ctx :: rest) (hslot : s.uring.HasSlot) :
    s.start opcode cb =
      { s with
        uring := (s.uring.queue (contextSqe opcode ⟨ctx, s.given.length⟩) hslot).submit
        contextsPool := rest
        cb := Function.update s.cb ctx (some cb)
        given := s.given ++ [cb] } := by
  simp only [start, hpool, dif_pos hslot]

theorem start_of_full {opcode : Opcode} {cb : K} {ctx : CtxId} {rest : List CtxId}
    (hpool : s.contextsPool = ctx :: rest) (hfull : ¬ s.uring.HasSlot) :
    s.start opcode cb =
      { s with
        contextsPool := rest
        cb := Function.update s.cb ctx (some cb)
        pc := .nullSqe
        given := s.given ++ [cb] } := by
  simp only [start, hpool, dif_neg hfull]

theorem start_of_empty {opcode : Opcode} {cb : K} (hpool : s.contextsPool = []) :
    s.start opcode cb = { s with pc := .emptyPool } := by
  simp only [start, hpool]

theorem poll_of_cb {cqe : Cqe OpContext} {cb : K} (hcb : s.cb cqe.userData.ctx = some cb) :
    s.poll cqe = { s with pc := .running cqe, ran := s.ran ++ [cb] } := by
  simp only [poll, hcb]

end Lemmas

end CallbackUring

end Hnet.Netring
