import Hnet.Submitter

/-!
# The UDP echo server

One fiber of the `udp` mode of `srv2.cc`. All fibers receive from one socket, each into a buffer of
its own, in which it also puts the reply together: the message once more behind itself.
-/

namespace Hnet

/-- Where a server fiber stands: in one of its two calls of the `Submitter`, or past them. -/
inductive ServerPc (A : Type) where
  | receiving
  | sending (ww : WriteView A)
  /-- `sendmsg` threw -/
  | threw
  /-- `WHEELS_VERIFY` aborted the process -/
  | aborted
  deriving DecidableEq, Repr

structure Server (A : Type) where
  buf : Buffer 65000
  pc : ServerPc A

/-- A datagram in flight. -/
structure Packet (A : Type) where
  src : A
  dst : A
  payload : Bytes
  deriving DecidableEq

namespace Server

variable {A : Type}

/-- The loop from the return of `recvmsg` to its call of `sendmsg`. -/
def recvReturned (s : Server A) (done : RecvDone A) : Server A :=
  let msg : ReadView A := recvmsg (n := 65000) done
  let buf := done.fill s.buf
  if h : msg.buf.size * 2 < 65000 then
    { buf := buf.write msg.buf.size (buf.read 0 msg.buf.size) (by
        rw [Buffer.length_read (by omega)]
        omega)
      pc := .sending { buf := { start := 0, size := msg.buf.size * 2 }, addr := msg.addr } }
  else
    { buf := buf, pc := .aborted }

/-- The loop from the return of `sendmsg` to its next call of `recvmsg`. -/
def sendReturned (s : Server A) (res : Int) : Server A :=
  match sendmsg res with
  | none => { s with pc := .threw }
  | some _ => { s with pc := .receiving }

/-- What a fiber in `sendmsg` has handed to the kernel: the bytes and the address. -/
def outgoing (s : Server A) : Option (Bytes × Addr A) :=
  match s.pc with
  | .sending ww => some (s.buf.view ww.buf, ww.addr)
  | _ => none

end Server

/-! ### A server fiber and the results of its calls -/

/-- A datagram handed to `sendmsg`, with the receive it follows. -/
structure Sent (A : Type) where
  after : RecvDone A
  bytes : Bytes
  addr : Addr A

/-- A server fiber with the history of its calls: how each receive ended, what was handed to
`sendmsg`, and what that returned. -/
structure ServerRun (A : Type) where
  server : Server A
  received : List (RecvDone A)
  sent : List (Sent A)
  results : List Int

namespace ServerRun

variable {A : Type}

/-- The fiber is in its first `recvmsg`, with whatever is in its buffer. -/
def init (buf : Buffer 65000) : ServerRun A where
  server := { buf := buf, pc := .receiving }
  received := []
  sent := []
  results := []

inductive Event (A : Type) where
  | recv (done : RecvDone A)
  | send (res : Int)

def step (s : ServerRun A) : Event A → Option (ServerRun A)
  | .recv done =>
      match s.server.pc with
      | .receiving =>
          let server := s.server.recvReturned done
          some
            { s with
              server := server
              received := s.received ++ [done]
              sent := s.sent ++ (server.outgoing.map fun out => ⟨done, out.1, out.2⟩).toList }
      | _ => none
  | .send res =>
      match s.server.pc with
      | .sending _ =>
          some { s with server := s.server.sendReturned res, results := s.results ++ [res] }
      | _ => none

theorem step_recv {s s' : ServerRun A} {done : RecvDone A} (h : s.step (.recv done) = some s') :
    s.server.pc = .receiving ∧ s' =
      { s with
        server := s.server.recvReturned done
        received := s.received ++ [done]
        sent := s.sent ++
          ((s.server.recvReturned done).outgoing.map fun out => ⟨done, out.1, out.2⟩).toList } := by
  simp only [step] at h
  split at h
  · rename_i hpc
    exact ⟨hpc, (Option.some.inj h).symm⟩
  · cases h

theorem step_send {s s' : ServerRun A} {res : Int} (h : s.step (.send res) = some s') :
    (∃ ww, s.server.pc = .sending ww) ∧ s' =
      { s with server := s.server.sendReturned res, results := s.results ++ [res] } := by
  simp only [step] at h
  split at h
  · rename_i ww hpc
    exact ⟨⟨ww, hpc⟩, (Option.some.inj h).symm⟩
  · cases h

end ServerRun

/-! ### What one pass of the loop does -/

namespace Server

variable {A : Type} {s : Server A} {done : RecvDone A}

/-- What fits twice into the buffer is sent twice, to the address that came with it. -/
theorem recvReturned_of_fits (h : (done.payload 65000).length * 2 < 65000) :
    (s.recvReturned done).outgoing = some (done.payload 65000 ++ done.payload 65000, done.addr)
      ∧ ∃ ww, (s.recvReturned done).pc = .sending ww := by
  have hsize : (recvmsg (n := 65000) done).buf.size = (done.payload 65000).length :=
    recvmsg_size done
  have hread : (done.fill s.buf).read 0 (done.payload 65000).length = done.payload 65000 :=
    Buffer.read_write_self _ rfl
  simp only [recvReturned, hsize, dif_pos h]
  refine ⟨?_, _, rfl⟩
  simp only [outgoing, Buffer.view, hread, Buffer.read_write_behind]
  rfl

/-- What does not fit aborts the process. -/
theorem recvReturned_of_not_fits (h : ¬ (done.payload 65000).length * 2 < 65000) :
    (s.recvReturned done).outgoing = none ∧ (s.recvReturned done).pc = .aborted := by
  have hsize : (recvmsg (n := 65000) done).buf.size = (done.payload 65000).length :=
    recvmsg_size done
  simp only [recvReturned, hsize, dif_neg h]
  exact ⟨rfl, trivial⟩

theorem sendReturned_pc (s : Server A) (res : Int) :
    (s.sendReturned res).pc = if res < 0 then .threw else .receiving := by
  simp only [sendReturned, sendmsg]
  by_cases hneg : res < 0
  · simp only [if_pos hneg]
  · simp only [if_neg hneg]

theorem sendReturned_outgoing (s : Server A) (res : Int) :
    (s.sendReturned res).outgoing = none := by
  simp only [sendReturned, sendmsg]
  by_cases hneg : res < 0
  · simp only [if_pos hneg, outgoing]
  · simp only [if_neg hneg, outgoing]

end Server

end Hnet
