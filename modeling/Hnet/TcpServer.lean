import Hnet.Lts
import Hnet.Submitter
import Mathlib.Logic.Function.Basic

/-!
# The TCP server

The `tcp` mode of `srv2.cc`: one fiber accepts connections and spawns a detached fiber for each.
The listening socket is a `net::Socket`, which closes its descriptor; what `accept` returns stays a
plain `int`.
-/

namespace Hnet

def ECONNRESET : Int := 104

/-! ### Descriptors -/

structure OpenFile where
  fd : Int
  nonblocking : Bool
  deriving DecidableEq, Repr

/-- The descriptors of the process, and those that `close` was called with, in order. -/
structure Files where
  opened : List OpenFile
  closed : List Int
  deriving DecidableEq, Repr

namespace Files

def fds (files : Files) : List Int := files.opened.map OpenFile.fd

def add (files : Files) (fd : Int) : Files :=
  { files with opened := files.opened ++ [{ fd := fd, nonblocking := false }] }

def close (files : Files) (fd : Int) : Files where
  opened := files.opened.eraseP fun file => file.fd == fd
  closed := files.closed ++ [fd]

end Files

/-- `SetSocketBlockingEnabled`. `fcntl` fails on a descriptor that is not open. -/
def setSocketBlockingEnabled (files : Files) (fd : Int) (blocking : Bool) : Bool × Files :=
  if fd < 0 then
    (false, files)
  else if fd ∈ files.fds then
    (true,
      { files with
        opened := files.opened.map fun file =>
          if file.fd = fd then { file with nonblocking := !blocking } else file })
  else
    (false, files)

/-- `net::Socket` -/
structure Socket where
  fd : Int
  deriving DecidableEq, Repr

/-- The constructor over what `socket` returns, `none` when its `SYSCALL_VERIFY` throws. -/
def Socket.create (res : Int) : Option Socket := if 0 ≤ res then some { fd := res } else none

/-- `~Socket` -/
def Socket.destroy (socket : Socket) (files : Files) : Files :=
  if 0 ≤ socket.fd then files.close socket.fd else files

/-- `Submitter::accept`, `none` when it throws. -/
def accept {A : Type} (res : Int) (addr : Addr A) : Option (Int × Addr A) :=
  if res < 0 then none else some (res, addr)

/-! ### A connection -/

def REPLY : String := "HTTP/1.1 200 OK\r\nContent-Length: 9\r\n\r\nninebytes"

/-- Where the fiber of a connection stands: in one of its two calls of the `Submitter`, or past
them. -/
inductive ConnPc (A : Type) where
  | receiving
  | sending (ww : WriteView A)
  /-- by one of the two `break`s -/
  | ended
  /-- `sendmsg` threw -/
  | threw
  deriving DecidableEq, Repr

/-- The fiber of a connection with what it captures. -/
structure Conn (A : Type) where
  fd : Int
  addr : Addr A
  pc : ConnPc A
  deriving DecidableEq, Repr

namespace Conn

variable {A : Type}

def finished (c : Conn A) : Bool :=
  match c.pc with
  | .ended | .threw => true
  | _ => false

/-- The loop from the return of `recvmsg` to its call of `sendmsg` or its end. A receive from a
stream leaves the address alone. -/
def recvReturned (c : Conn A) (res : Int) : Conn A :=
  let req : ReadView A := readView (MemView.of 65000) Addr.new res
  if req.ret = -ECONNRESET then
    { c with pc := .ended }
  else if req.buf.size = 0 then
    { c with pc := .ended }
  else
    { c with pc := .sending { buf := MemView.of REPLY.utf8ByteSize, addr := req.addr } }

/-- The loop from the return of `sendmsg` to its next call of `recvmsg`. -/
def sendReturned (c : Conn A) (res : Int) : Conn A :=
  match sendmsg res with
  | none => { c with pc := .threw }
  | some _ => { c with pc := .receiving }

@[simp]
theorem fd_recvReturned (c : Conn A) (res : Int) : (c.recvReturned res).fd = c.fd := by
  simp only [recvReturned]
  split
  · rfl
  · split <;> rfl

@[simp]
theorem fd_sendReturned (c : Conn A) (res : Int) : (c.sendReturned res).fd = c.fd := by
  unfold sendReturned
  split <;> rfl

/-- A receive keeps the fiber going exactly when it has received something. -/
theorem finished_recvReturned (c : Conn A) (res : Int) :
    (c.recvReturned res).finished = decide (res ≤ 0) := by
  unfold recvReturned readView
  by_cases hreset : res = -ECONNRESET
  · rw [if_pos hreset, hreset]
    rfl
  · rw [if_neg hreset]
    by_cases hpos : 0 < res
    · have hsize : ¬ res.toNat = 0 := by omega
      rw [if_pos hpos.le, if_neg hsize, decide_eq_false (not_le.mpr hpos)]
      rfl
    · have hle : res ≤ 0 := not_lt.mp hpos
      have hsize : (if 0 ≤ res
          then ({ start := (MemView.of 65000).start, size := res.toNat } : MemView)
          else MemView.empty).size = 0 := by
        split
        · exact Int.toNat_of_nonpos hle
        · rfl
      rw [if_pos hsize, decide_eq_true hle]
      rfl

theorem finished_sendReturned (c : Conn A) (res : Int) :
    (c.sendReturned res).finished = decide (res < 0) := by
  unfold sendReturned sendmsg
  by_cases hneg : res < 0
  · rw [if_pos hneg, decide_eq_true hneg]
    rfl
  · rw [if_neg hneg, decide_eq_false hneg]
    rfl

end Conn

/-! ### The server -/

/-- The accepting fiber, which owns the listening socket until `accept` throws, and the fibers of
the connections in the order of their accepts. -/
structure TcpServer (A : Type) where
  socket : Socket
  accepting : Bool
  conns : List (Conn A)
  files : Files
  deriving DecidableEq, Repr

namespace TcpServer

variable {A : Type}

def init (socket : Socket) : TcpServer A where
  socket := socket
  accepting := true
  conns := []
  files := { opened := [{ fd := socket.fd, nonblocking := false }], closed := [] }

/-- The accepting loop from the return of the kernel to its next call of `accept`, or to its end
by an exception. -/
def acceptReturned (s : TcpServer A) (res : Int) (addr : Addr A) : TcpServer A :=
  match accept res addr with
  | none => { s with accepting := false, files := s.socket.destroy s.files }
  | some (fd, addr) =>
      { s with
        conns := s.conns ++ [{ fd := fd, addr := addr, pc := .receiving }]
        files := (setSocketBlockingEnabled (s.files.add fd) fd false).2 }

inductive Event (A : Type) where
  | accept (res : Int) (addr : Addr A)
  /-- the receive, the send of the `i`-th connection returns -/
  | recv (i : Nat) (res : Int)
  | send (i : Nat) (res : Int)

/-- The kernel accepts into a descriptor that is not in use. -/
def step (s : TcpServer A) : Event A → Option (TcpServer A)
  | .accept res addr =>
      if s.accepting = true ∧ res ∉ s.files.fds then some (s.acceptReturned res addr) else none
  | .recv i res =>
      match s.conns[i]? with
      | some c =>
          match c.pc with
          | .receiving => some { s with conns := s.conns.set i (c.recvReturned res) }
          | _ => none
      | none => none
  | .send i res =>
      match s.conns[i]? with
      | some c =>
          match c.pc with
          | .sending _ => some { s with conns := s.conns.set i (c.sendReturned res) }
          | _ => none
      | none => none

section Cases

variable {s s' : TcpServer A} {i : Nat} {res : Int}

theorem step_accept {addr : Addr A} (h : s.step (.accept res addr) = some s') :
    s.accepting = true ∧ res ∉ s.files.fds ∧ s' = s.acceptReturned res addr := by
  simp only [step] at h
  obtain ⟨hcan, heq⟩ := Lts.of_guarded h
  exact ⟨hcan.1, hcan.2, heq⟩

theorem step_recv (h : s.step (.recv i res) = some s') :
    ∃ c, s.conns[i]? = some c ∧ c.pc = .receiving
      ∧ s' = { s with conns := s.conns.set i (c.recvReturned res) } := by
  simp only [step] at h
  split at h
  · rename_i c hc
    split at h
    · rename_i hpc
      exact ⟨c, hc, hpc, (Option.some.inj h).symm⟩
    · cases h
  · cases h

theorem step_send (h : s.step (.send i res) = some s') :
    ∃ c ww, s.conns[i]? = some c ∧ c.pc = .sending ww
      ∧ s' = { s with conns := s.conns.set i (c.sendReturned res) } := by
  simp only [step] at h
  split at h
  · rename_i c hc
    split at h
    · rename_i ww hpc
      exact ⟨c, ww, hc, hpc, (Option.some.inj h).symm⟩
    · cases h
  · cases h

end Cases

end TcpServer

/-! ### What the connections have been sent -/

/-- The characters of `reply`. -/
def reply : Buffer REPLY.utf8ByteSize where
  bytes := REPLY.toUTF8.data.toList
  length_eq := rfl

/-- What a connection in `sendmsg` has handed to the kernel. -/
def Conn.outgoing {A : Type} (c : Conn A) : Option Bytes :=
  match c.pc with
  | .sending ww => some (reply.view ww.buf)
  | _ => none

/-- How many reads have received something, and the bytes that the kernel has taken so far. -/
structure Wire where
  reads : Nat
  written : Bytes
  deriving DecidableEq, Repr

namespace Wire

def fresh : Wire := { reads := 0, written := [] }

def received (wire : Wire) (res : Int) : Wire :=
  if 0 < res then { wire with reads := wire.reads + 1 } else wire

/-- A send takes the first `res` bytes, and none when it fails. -/
def sent (wire : Wire) (bytes : Bytes) (res : Int) : Wire :=
  { wire with written := wire.written ++ bytes.take res.toNat }

end Wire

/-- How a send of `n` bytes to a stream may end. -/
def StreamTakes (n : Nat) (res : Int) : Prop := res < 0 ∨ 0 < res ∧ res ≤ n

instance (n : Nat) (res : Int) : Decidable (StreamTakes n res) :=
  inferInstanceAs (Decidable (res < 0 ∨ 0 < res ∧ res ≤ n))

/-- The server with what has gone over its connections, which are counted in the order of their
accepts. -/
structure TcpRun (A : Type) where
  server : TcpServer A
  wires : Nat → Wire

namespace TcpRun

variable {A : Type}

def init (socket : Socket) : TcpRun A where
  server := TcpServer.init socket
  wires := fun _ => Wire.fresh

def step (s : TcpRun A) : TcpServer.Event A → Option (TcpRun A)
  | .accept res addr =>
      (s.server.step (.accept res addr)).map fun server =>
        { server := server
          wires := Function.update s.wires s.server.conns.length Wire.fresh }
  | .recv i res =>
      (s.server.step (.recv i res)).map fun server =>
        { server := server, wires := Function.update s.wires i ((s.wires i).received res) }
  | .send i res =>
      match s.server.conns[i]?.bind Conn.outgoing with
      | some bytes =>
          if StreamTakes bytes.length res then
            (s.server.step (.send i res)).map fun server =>
              { server := server, wires := Function.update s.wires i ((s.wires i).sent bytes res) }
          else
            none
      | none => none

section Cases

variable {s s' : TcpRun A} {i : Nat} {res : Int}

theorem step_accept {addr : Addr A} (h : s.step (.accept res addr) = some s') :
    s' =
      { server := s.server.acceptReturned res addr
        wires := Function.update s.wires s.server.conns.length Wire.fresh } := by
  obtain ⟨server, hserver, rfl⟩ := Option.map_eq_some_iff.mp h
  rw [(TcpServer.step_accept hserver).2.2]

theorem step_recv (h : s.step (.recv i res) = some s') :
    ∃ c, s.server.conns[i]? = some c ∧ c.pc = .receiving ∧ s' =
      { server := { s.server with conns := s.server.conns.set i (c.recvReturned res) }
        wires := Function.update s.wires i ((s.wires i).received res) } := by
  obtain ⟨server, hserver, rfl⟩ := Option.map_eq_some_iff.mp h
  obtain ⟨c, hc, hpc, rfl⟩ := TcpServer.step_recv hserver
  exact ⟨c, hc, hpc, rfl⟩

theorem step_send (h : s.step (.send i res) = some s') :
    ∃ c ww, s.server.conns[i]? = some c ∧ c.pc = .sending ww
      ∧ StreamTakes (reply.view ww.buf).length res ∧ s' =
        { server := { s.server with conns := s.server.conns.set i (c.sendReturned res) }
          wires := Function.update s.wires i ((s.wires i).sent (reply.view ww.buf) res) } := by
  simp only [step] at h
  split at h
  · rename_i bytes hbytes
    split at h
    · rename_i htakes
      obtain ⟨server, hserver, rfl⟩ := Option.map_eq_some_iff.mp h
      obtain ⟨c, ww, hc, hpc, rfl⟩ := TcpServer.step_send hserver
      have heq : reply.view ww.buf = bytes := by
        simpa [hc, Conn.outgoing, hpc] using hbytes
      subst heq
      exact ⟨c, ww, hc, hpc, htakes, rfl⟩
    · cases h
  · cases h

end Cases

end TcpRun

/-! ### What the operations do to the descriptors -/

@[simp]
theorem Files.fds_add (files : Files) (fd : Int) : (files.add fd).fds = files.fds ++ [fd] := by
  simp [fds, add]

theorem Files.fds_close (files : Files) (fd : Int) : (files.close fd).fds = files.fds.erase fd := by
  rw [fds, fds, close, List.erase_eq_eraseP', List.eraseP_map]
  rfl

theorem Socket.fd_nonneg {socket : Socket} {res : Int} (h : Socket.create res = some socket) :
    0 ≤ socket.fd := by
  unfold create at h
  split at h
  · rename_i hres
    obtain rfl := Option.some.inj h
    exact hres
  · cases h

@[simp]
theorem fds_setSocketBlockingEnabled (files : Files) (fd : Int) (blocking : Bool) :
    (setSocketBlockingEnabled files fd blocking).2.fds = files.fds := by
  unfold setSocketBlockingEnabled
  split
  · rfl
  · split
    · simp only [Files.fds, List.map_map]
      refine List.map_congr_left fun file _ => ?_
      simp only [Function.comp_apply]
      split <;> rfl
    · rfl

@[simp]
theorem closed_setSocketBlockingEnabled (files : Files) (fd : Int) (blocking : Bool) :
    (setSocketBlockingEnabled files fd blocking).2.closed = files.closed := by
  unfold setSocketBlockingEnabled
  split
  · rfl
  · split <;> rfl

end Hnet
