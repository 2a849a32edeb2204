import Hnet.Memory
import Hnet.RingSubmit

/-!
# `net::Submitter`

The calls of `ring2/submitter.cc` that the UDP programs make, in terms of what `ring_submit` gives
back. The kernel fills in the buffer and the address of a receive before it posts the CQE.
-/

namespace Hnet

/-- `net::Addr`. The union of the three sockaddr types is `none` as long as nothing has been written
to it. -/
structure Addr (A : Type) where
  sockaddr : Option A
  addrlen : Nat
  deriving DecidableEq, Repr

/-- `Addr::Addr` initialises the length only, to `sizeof(struct sockaddr_in6)`. -/
def Addr.new {A : Type} : Addr A := { sockaddr := none, addrlen := 28 }

/-- How the kernel ends a receive of a datagram socket. -/
inductive RecvDone (A : Type) where
  | datagram (src : A) (payload : Bytes)
  | failed (err : Errno)

namespace RecvDone

variable {A : Type} {n : Nat}

/-- The datagram as it fits into `n` bytes; the rest is cut off. -/
def payload (n : Nat) : RecvDone A → Bytes
  | .datagram _ payload => payload.take n
  | .failed _ => []

theorem length_payload_le (n : Nat) (done : RecvDone A) : (done.payload n).length ≤ n := by
  cases done with
  | datagram src payload => exact List.length_take_le n payload
  | failed err => exact Nat.zero_le n

def res (n : Nat) : RecvDone A → Int
  | .datagram src payload => ((datagram src payload).payload n).length
  | .failed err => -err.val

def fill (done : RecvDone A) (buf : Buffer n) : Buffer n :=
  buf.write 0 (done.payload n) (by rw [Nat.zero_add]; exact done.length_payload_le n)

/-- The address the kernel leaves in `result.addr`. -/
def addr : RecvDone A → Addr A
  | .datagram src _ => { (Addr.new : Addr A) with sockaddr := some src }
  | .failed _ => Addr.new

end RecvDone

structure ReadView (A : Type) where
  ret : Int
  buf : MemView
  addr : Addr A
  deriving DecidableEq, Repr

structure WriteView (A : Type) where
  buf : MemView
  addr : Addr A
  deriving DecidableEq, Repr

/-- What both view overloads of `Submitter::recvmsg` make of the `res` of `ring_submit`. -/
def readView {A : Type} (buf : MemView) (addr : Addr A) (res : Int) : ReadView A where
  ret := res
  buf := if 0 ≤ res then { start := buf.start, size := res.toNat } else MemView.empty
  addr := addr

/-- `Submitter::recvmsg(fd, buf)` -/
def recvmsg {A : Type} {n : Nat} (done : RecvDone A) : ReadView A :=
  readView (MemView.of n) done.addr (done.res n)

/-- The view spans what was received, and nothing after a failed receive. -/
theorem recvmsg_size {A : Type} {n : Nat} (done : RecvDone A) :
    (recvmsg (n := n) done).buf.size = (done.payload n).length := by
  cases done with
  | datagram src payload => rfl
  | failed err =>
      have hneg : ¬ 0 ≤ (RecvDone.failed err : RecvDone A).res n := by
        have := err.pos
        simp only [RecvDone.res]
        omega
      simp only [recvmsg, readView, if_neg hneg]
      rfl

structure MsgHdr (A : Type) where
  rawRet : Int
  buf : Bytes
  addr : Addr A
  deriving DecidableEq, Repr

/-- `Submitter::recvmsg(fd)` once the kernel has filled `data` and the address. -/
def recvmsgHdr {A : Type} (data : Buffer 65000) (addr : Addr A) (res : Int) : MsgHdr A where
  rawRet := res
  buf := if 0 ≤ res then data.read 0 res.toNat else []
  addr := addr

/-- `Submitter::recvmsg(fd, buf, dur)`, `none` when the timed `ring_submit` throws. -/
def recvmsgDur {A : Type} (buf : MemView) (addr : Addr A) : Outcome → Option (ReadView A)
  | .returned res => some (readView buf addr res)
  | .threw _ | .panicked => none

/-- `Submitter::sendmsg` of a `MsgHdr` and of a `WriteView`: a negative `res` is thrown. -/
def sendmsg (res : Int) : Option Int := if res < 0 then none else some res

/-! ### The timed `ring_submit` from `Suspend` on -/

section TimedCall

variable {ι : Type} [DecidableEq ι]

/-- The two CQEs of a timed call in the order of their arrival. -/
def timedCqes (fiber : ι) (call : Nat) (opFirst : Bool) (op timeout : Int) :
    Cqe (Ptr ι) × Cqe (Ptr ι) :=
  let opCqe : Cqe (Ptr ι) := ⟨⟨fiber, call, .opResSetter⟩, op⟩
  let timeoutCqe : Cqe (Ptr ι) := ⟨⟨fiber, call, .timeoutResSetter⟩, timeout⟩
  if opFirst then (opCqe, timeoutCqe) else (timeoutCqe, opCqe)

/-- The setters of the call once both have been dispatched, and how the call ends: `none` when the
second `dispatch` does not return its fiber, which then stays suspended. -/
def timedCall (fiber : ι) (call : Nat) (opFirst : Bool) (op timeout : Int) : Option Outcome :=
  let cqes := timedCqes fiber call opFirst op timeout
  let first := dispatch freshSetters cqes.1
  let second := dispatch first.1 cqes.2
  second.2.map fun _ =>
    timedOutcome (second.1 ⟨fiber, call, .opResSetter⟩).res
      (second.1 ⟨fiber, call, .timeoutResSetter⟩).res

end TimedCall

end Hnet
