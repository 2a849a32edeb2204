import Hnet.Fibers
import Hnet.UdpServer

/-!
# The fibers of the UDP server

The udp mode of `srv2.cc` over the ring. Each fiber makes the plain calls of its two methods of the
`Submitter`, and goes on with the `res` that `ring_submit` returned and with what the kernel has put
into its buffer and its address.
-/

namespace Hnet

variable {A : Type}

/-- `recvmsg` fills in its view from the memory of the request and from the `res` of
`ring_submit`. -/
def Server.recvResumed (s : Server A) (done : RecvDone A) (res : Int) : Server A :=
  let msg : ReadView A := readView (MemView.of 65000) done.addr res
  let buf := done.fill s.buf
  if h : msg.buf.size * 2 < 65000 then
    { buf := buf.write msg.buf.size (buf.read 0 msg.buf.size) (by
        rw [Buffer.length_read (by omega)]
        omega)
      pc := .sending { buf := { start := 0, size := msg.buf.size * 2 }, addr := msg.addr } }
  else
    { buf := buf, pc := .aborted }

theorem Server.recvResumed_res (s : Server A) (done : RecvDone A) :
    s.recvResumed done (done.res 65000) = s.recvReturned done := rfl

namespace ServerRun

/-- `io_uring_prep_recvmsg` with `IOSQE_ASYNC`, and `io_uring_prep_sendmsg`. -/
def asks (s : ServerRun A) : Option (Request × Bool) :=
  match s.server.pc with
  | .receiving => some (⟨.recvmsg, true, false⟩, false)
  | .sending _ => some (⟨.sendmsg, false, false⟩, false)
  | .threw | .aborted => none

/-- The plain `ring_submit` returns, or panics and takes the process with it. -/
def resume (s : ServerRun A) : Outcome → Option (Event A) → ServerRun A
  | .returned res, found =>
      match s.server.pc, found with
      | .receiving, some (.recv done) =>
          let server := s.server.recvResumed done res
          { s with
            server := server
            received := s.received ++ [done]
            sent := s.sent ++ (server.outgoing.map fun out => ⟨done, out.1, out.2⟩).toList }
      | .sending _, _ =>
          { s with server := s.server.sendReturned res, results := s.results ++ [res] }
      | _, _ => s
  | .threw _, _ => s
  | .panicked, _ => { s with server := { s.server with pc := .aborted } }

def Event.opcode : Event A → Opcode
  | .recv _ => .recvmsg
  | .send _ => .sendmsg

def Event.res : Event A → Int
  | .recv done => done.res 65000
  | .send res => res

/-- One fiber of the udp mode as a program over `ring_submit`. -/
def program : FiberProgram (ServerRun A) (Event A) where
  asks := asks
  resume := resume
  opcode := Event.opcode
  res := Event.res

end ServerRun

end Hnet
