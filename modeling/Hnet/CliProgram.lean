import Hnet.ClientProgram
import Hnet.UdpServer

/-!
# The other UDP client

`ClientProgram::Run` of `cli.cc` from the first `tf::Spawn` to the last `Join`. Its fibers send one
and the same message and share one socket, so a reply goes to whichever of them receives next. They
wait for it without a timeout and take it without a look at its length. On the other side are the
server fibers of `srv2.cc`, with a network in between that delivers the datagrams in any order.
-/

namespace Hnet

/-- What is read of `ClientConfig`. -/
structure CliConfig where
  dataToSend : Bytes
  count : Int
  threads : Int

/-- `data_to_send = data_to_send + data_to_send`, over and over. -/
def doubled : Nat → Bytes → Bytes
  | 0, data => data
  | i + 1, data => doubled i (data ++ data)

theorem length_doubled (i : Nat) (data : Bytes) :
    (doubled i data).length = 2 ^ i * data.length := by
  induction i generalizing data with
  | zero => exact (Nat.one_mul _).symm
  | succ i ih =>
      rw [doubled, ih, List.length_append, ← Nat.two_mul, ← Nat.mul_assoc, ← Nat.pow_succ]

/-- The message of all fibers. -/
def CliConfig.message (cfg : CliConfig) : Bytes := doubled 10 cfg.dataToSend

theorem CliConfig.length_message (cfg : CliConfig) :
    cfg.message.length = 1024 * cfg.dataToSend.length := length_doubled 10 cfg.dataToSend

inductive CliPc where
  /-- in front of its first reading of the clock -/
  | spawned
  | sending
  | receiving
  | returned
  | threw
  deriving DecidableEq, Repr

structure CliFiber where
  pc : CliPc
  i : Nat
  /-- `start`, in nanoseconds -/
  start : Int
  buf : Buffer 65000

namespace CliFiber

def spawn (buf : Buffer 65000) : CliFiber := { pc := .spawned, i := 0, start := 0, buf := buf }

def loopHead (cfg : CliConfig) (c : CliFiber) : CliFiber :=
  { c with pc := if (c.i : Int) < cfg.count then .sending else .returned }

/-- The fiber up to its first iteration. -/
def started (cfg : CliConfig) (c : CliFiber) (now : Int) : CliFiber :=
  { c with i := 0, start := now }.loopHead cfg

/-- An iteration from the return of `sendmsg` to its call of `recvmsg`. -/
def sendReturned (c : CliFiber) (res : Int) : CliFiber :=
  match sendmsg res with
  | none => { c with pc := .threw }
  | some res => if res ≤ 0 then { c with pc := .threw } else { c with pc := .receiving }

/-- The fiber leaves its lambda when what it has received is what is configured. -/
def isConfigured {A : Type} (cfg : CliConfig) (c : CliFiber) (result : ReadView A) : Prop :=
  c.buf.view result.buf = cfg.dataToSend

instance {A : Type} (cfg : CliConfig) (c : CliFiber) (result : ReadView A) :
    Decidable (c.isConfigured cfg result) :=
  inferInstanceAs (Decidable (c.buf.view result.buf = cfg.dataToSend))

/-- `end - start` or `++i` overflows. -/
def Overflows (c : CliFiber) (now : Int) : Prop :=
  i64 (now - c.start) = .error .overflow ∨ ClientProgram.OverflowsInt (c.i + 1)

instance (c : CliFiber) (now : Int) : Decidable (c.Overflows now) :=
  inferInstanceAs (Decidable (_ ∨ _))

/-- The rest of an iteration behind that test. -/
def next (cfg : CliConfig) (c : CliFiber) (now : Int) : CliFiber :=
  { c with i := c.i + 1, start := now }.loopHead cfg

end CliFiber

/-- The address of the client's socket and that of the server's. -/
structure CliTopology (A : Type) where
  client : A
  server : A
  client_ne_server : client ≠ server

/-- `n` client fibers, `m` server fibers and the network. `fault` is set when signed arithmetic
overflows, which is undefined in the source. The last three fields are history: the datagrams the
fibers received, and for each fiber its readings of the clock and what it pushed. -/
structure CliEcho (A : Type) (n m : Nat) where
  fibers : Fin n → CliFiber
  timings : List Int
  fault : Option Fault
  servers : Fin m → Server A
  aborted : Bool
  network : List (Packet A)
  received : List Bytes
  readings : Fin n → List Int
  pushed : Fin n → List Int

namespace CliEcho

variable {A : Type} {n m : Nat}

/-- The buffers on the stacks of the fibers hold whatever was there. -/
def init (fiberBuf : Fin n → Buffer 65000) (serverBuf : Fin m → Buffer 65000) : CliEcho A n m where
  fibers := fun thr => CliFiber.spawn (fiberBuf thr)
  timings := []
  fault := none
  servers := fun a => { buf := serverBuf a, pc := .receiving }
  aborted := false
  network := []
  received := []
  readings := fun _ => []
  pushed := fun _ => []

/-- The receive of a client fiber ends as `done` says. -/
def recvDone (cfg : CliConfig) (s : CliEcho A n m) (thr : Fin n) (done : RecvDone A) (now : Int) :
    CliEcho A n m :=
  let c := { s.fibers thr with buf := done.fill (s.fibers thr).buf }
  let result : ReadView A := recvmsg (n := 65000) done
  if c.isConfigured cfg result then
    { s with fibers := Function.update s.fibers thr { c with pc := .returned } }
  else if c.Overflows now then
    { s with fault := some .overflow }
  else
    { s with
      fibers := Function.update s.fibers thr (c.next cfg now)
      timings := s.timings ++ [now - c.start]
      readings := Function.update s.readings thr (s.readings thr ++ [now])
      pushed := Function.update s.pushed thr (s.pushed thr ++ [now - c.start]) }

def serverRecvDone (s : CliEcho A n m) (a : Fin m) (done : RecvDone A) : CliEcho A n m :=
  let server := (s.servers a).recvReturned done
  { s with
    servers := Function.update s.servers a server
    aborted := match server.pc with
      | .aborted => true
      | _ => s.aborted }

def serverSendDone (s : CliEcho A n m) (a : Fin m) (res : Int) : CliEcho A n m :=
  { s with servers := Function.update s.servers a ((s.servers a).sendReturned res) }

inductive Event (A : Type) (n m : Nat) where
  /-- a client fiber reads the clock and enters its loop -/
  | start (thr : Fin n) (now : Int64)
  /-- the kernel ends its send, with the datagram on its way or with an error -/
  | send (thr : Fin n)
  | sendFails (thr : Fin n) (err : Errno)
  /-- the kernel ends its receive with the `k`-th datagram in flight, or with an error -/
  | recv (thr : Fin n) (k : Nat) (now : Int64)
  | recvFails (thr : Fin n) (err : Errno) (now : Int64)
  /-- the same for a server fiber; `stale` is what an address that was never written holds -/
  | serverRecv (a : Fin m) (k : Nat)
  | serverRecvFails (a : Fin m) (err : Errno)
  | serverSend (a : Fin m) (stale : A)
  | serverSendFails (a : Fin m) (err : Errno)
  /-- the network loses or repeats the `k`-th datagram in flight -/
  | drop (k : Nat)
  | duplicate (k : Nat)
  /-- another host sends to the server -/
  | foreign (src : A) (payload : Bytes)

def step [DecidableEq A] (cfg : CliConfig) (topo : CliTopology A) (s : CliEcho A n m) :
    Event A n m → Option (CliEcho A n m)
  | .start thr now =>
      if s.fault = none ∧ (s.fibers thr).pc = .spawned then
        some
          { s with
            fibers := Function.update s.fibers thr ((s.fibers thr).started cfg now.toInt)
            readings := Function.update s.readings thr [now.toInt] }
      else
        none
  | .send thr =>
      if s.fault = none ∧ (s.fibers thr).pc = .sending then
        some
          { s with
            fibers := Function.update s.fibers thr
              ((s.fibers thr).sendReturned cfg.message.length)
            network := s.network ++ [⟨topo.client, topo.server, cfg.message⟩] }
      else
        none
  | .sendFails thr err =>
      if s.fault = none ∧ (s.fibers thr).pc = .sending then
        some { s with
          fibers := Function.update s.fibers thr ((s.fibers thr).sendReturned (-err.val)) }
      else
        none
  | .recv thr k now =>
      match s.network[k]? with
      | some d =>
          if s.fault = none ∧ (s.fibers thr).pc = .receiving ∧ d.dst = topo.client then
            let done : RecvDone A := .datagram d.src d.payload
            some (recvDone cfg
              { s with
                network := s.network.eraseIdx k
                received := s.received ++ [done.payload 65000] }
              thr done now.toInt)
          else
            none
      | none => none
  | .recvFails thr err now =>
      if s.fault = none ∧ (s.fibers thr).pc = .receiving then
        some (recvDone cfg s thr (.failed err) now.toInt)
      else
        none
  | .serverRecv a k =>
      match s.network[k]?, (s.servers a).pc with
      | some d, .receiving =>
          if s.aborted = false ∧ d.dst = topo.server then
            some (serverRecvDone { s with network := s.network.eraseIdx k } a
              (.datagram d.src d.payload))
          else
            none
      | _, _ => none
  | .serverRecvFails a err =>
      match s.aborted, (s.servers a).pc with
      | false, .receiving => some (serverRecvDone s a (.failed err))
      | _, _ => none
  | .serverSend a stale =>
      match s.aborted, (s.servers a).outgoing with
      | false, some (bytes, addr) =>
          some (serverSendDone
            { s with
              network := s.network ++ [⟨topo.server, addr.sockaddr.getD stale, bytes⟩] }
            a bytes.length)
      | _, _ => none
  | .serverSendFails a err =>
      match s.aborted, (s.servers a).outgoing with
      | false, some _ => some (serverSendDone s a (-err.val))
      | _, _ => none
  | .drop k =>
      if k < s.network.length then some { s with network := s.network.eraseIdx k } else none
  | .duplicate k =>
      match s.network[k]? with
      | some d => some { s with network := s.network ++ [d] }
      | none => none
  | .foreign src payload =>
      if src ≠ topo.client then
        some { s with network := s.network ++ [⟨src, topo.server, payload⟩] }
      else
        none

/-- All fibers have joined, none of them by an exception. -/
def Joined (s : CliEcho A n m) : Prop := s.fault = none ∧ ∀ thr, (s.fibers thr).pc = .returned

/-- The timings as the report finds them. -/
def durations (s : CliEcho A n m) : List Duration :=
  s.timings.map fun nanos => { nanos := Int64.ofInt nanos }

/-! ### What a step can do -/

/-- A receive makes a fiber leave, or overflows, or ends an iteration with a timing. -/
theorem recvDone_cases (cfg : CliConfig) (s : CliEcho A n m) (thr : Fin n) (done : RecvDone A)
    (now : Int) :
    (done.payload 65000 = cfg.dataToSend ∧ ∃ c : CliFiber, recvDone cfg s thr done now
      = { s with fibers := Function.update s.fibers thr { c with pc := .returned } }) ∨
    done.payload 65000 ≠ cfg.dataToSend ∧ (recvDone cfg s thr done now
      = { s with fault := some .overflow } ∨
    (∃ c : CliFiber, c.i = (s.fibers thr).i ∧ ¬ (s.fibers thr).Overflows now ∧
      recvDone cfg s thr done now =
        { s with
          fibers := Function.update s.fibers thr (c.next cfg now)
          timings := s.timings ++ [now - (s.fibers thr).start]
          readings := Function.update s.readings thr (s.readings thr ++ [now])
          pushed := Function.update s.pushed thr
            (s.pushed thr ++ [now - (s.fibers thr).start]) })) := by
  have hview : (done.fill (s.fibers thr).buf).view (recvmsg (n := 65000) done).buf
      = done.payload 65000 := by
    have hsize := recvmsg_size (n := 65000) done
    cases done with
    | datagram src payload => exact Buffer.read_write_self _ hsize
    | failed err =>
        rw [Buffer.view, hsize]
        exact List.take_zero
  by_cases hconfigured : done.payload 65000 = cfg.dataToSend
  · exact Or.inl ⟨hconfigured, { s.fibers thr with buf := done.fill (s.fibers thr).buf },
      if_pos (hview.trans hconfigured)⟩
  · have hnot := fun h => hconfigured (hview.symm.trans h)
    refine Or.inr ⟨hconfigured, ?_⟩
    by_cases hover : (s.fibers thr).Overflows now
    · exact Or.inl ((if_neg hnot).trans (if_pos hover))
    · exact Or.inr ⟨{ s.fibers thr with buf := done.fill (s.fibers thr).buf }, rfl, hover,
        (if_neg hnot).trans (if_neg hover)⟩

section Cases

variable [DecidableEq A] {cfg : CliConfig} {topo : CliTopology A} {s s' : CliEcho A n m}

theorem step_start {thr : Fin n} {now : Int64} (h : step cfg topo s (.start thr now) = some s') :
    (s.fault = none ∧ (s.fibers thr).pc = .spawned) ∧ s' =
      { s with
        fibers := Function.update s.fibers thr ((s.fibers thr).started cfg now.toInt)
        readings := Function.update s.readings thr [now.toInt] } := by
  simp only [step] at h
  exact Lts.of_guarded h

theorem step_send {thr : Fin n} (h : step cfg topo s (.send thr) = some s') :
    (s.fault = none ∧ (s.fibers thr).pc = .sending) ∧ s' =
      { s with
        fibers := Function.update s.fibers thr ((s.fibers thr).sendReturned cfg.message.length)
        network := s.network ++ [⟨topo.client, topo.server, cfg.message⟩] } := by
  simp only [step] at h
  exact Lts.of_guarded h

theorem step_sendFails {thr : Fin n} {err : Errno}
    (h : step cfg topo s (.sendFails thr err) = some s') :
    (s.fault = none ∧ (s.fibers thr).pc = .sending) ∧ s' =
      { s with
        fibers := Function.update s.fibers thr ((s.fibers thr).sendReturned (-err.val)) } := by
  simp only [step] at h
  exact Lts.of_guarded h

theorem step_recv {thr : Fin n} {k : Nat} {now : Int64}
    (h : step cfg topo s (.recv thr k now) = some s') :
    ∃ d, s.network[k]? = some d ∧
      (s.fault = none ∧ (s.fibers thr).pc = .receiving ∧ d.dst = topo.client) ∧
      s' = recvDone cfg
        { s with
          network := s.network.eraseIdx k
          received := s.received ++ [d.payload.take 65000] }
        thr (.datagram d.src d.payload) now.toInt := by
  simp only [step] at h
  split at h
  · rename_i d hd
    exact ⟨d, hd, Lts.of_guarded h⟩
  · cases h

theorem step_recvFails {thr : Fin n} {err : Errno} {now : Int64}
    (h : step cfg topo s (.recvFails thr err now) = some s') :
    (s.fault = none ∧ (s.fibers thr).pc = .receiving) ∧
      s' = recvDone cfg s thr (.failed err) now.toInt := by
  simp only [step] at h
  exact Lts.of_guarded h

theorem step_serverRecv {a : Fin m} {k : Nat} (h : step cfg topo s (.serverRecv a k) = some s') :
    ∃ d, s.network[k]? = some d ∧ (s.servers a).pc = .receiving ∧
      (s.aborted = false ∧ d.dst = topo.server) ∧
      s' = serverRecvDone { s with network := s.network.eraseIdx k } a
        (.datagram d.src d.payload) := by
  simp only [step] at h
  split at h
  · rename_i d hd hpc
    exact ⟨d, hd, hpc, Lts.of_guarded h⟩
  · cases h

theorem step_serverRecvFails {a : Fin m} {err : Errno}
    (h : step cfg topo s (.serverRecvFails a err) = some s') :
    (s.servers a).pc = .receiving ∧ s' = serverRecvDone s a (.failed err) := by
  simp only [step] at h
  split at h
  · rename_i hpc
    exact ⟨hpc, (Option.some.inj h).symm⟩
  · cases h

theorem step_serverSend {a : Fin m} {stale : A}
    (h : step cfg topo s (.serverSend a stale) = some s') :
    ∃ bytes addr, (s.servers a).outgoing = some (bytes, addr) ∧
      s' = serverSendDone
        { s with network := s.network ++ [⟨topo.server, addr.sockaddr.getD stale, bytes⟩] }
        a bytes.length := by
  simp only [step] at h
  split at h
  · rename_i bytes addr _ hout
    exact ⟨bytes, addr, hout, (Option.some.inj h).symm⟩
  · cases h

theorem step_serverSendFails {a : Fin m} {err : Errno}
    (h : step cfg topo s (.serverSendFails a err) = some s') :
    s' = serverSendDone s a (-err.val) := by
  simp only [step] at h
  split at h
  · exact (Option.some.inj h).symm
  · cases h

theorem step_drop {k : Nat} (h : step cfg topo s (.drop k) = some s') :
    s' = { s with network := s.network.eraseIdx k } := by
  simp only [step] at h
  exact (Lts.of_guarded h).2

theorem step_duplicate {k : Nat} (h : step cfg topo s (.duplicate k) = some s') :
    ∃ d, s.network[k]? = some d ∧ s' = { s with network := s.network ++ [d] } := by
  simp only [step] at h
  split at h
  · rename_i d hd
    exact ⟨d, hd, (Option.some.inj h).symm⟩
  · cases h

theorem step_foreign {src : A} {payload : Bytes}
    (h : step cfg topo s (.foreign src payload) = some s') :
    src ≠ topo.client ∧
      s' = { s with network := s.network ++ [⟨src, topo.server, payload⟩] } := by
  simp only [step] at h
  exact Lts.of_guarded h

end Cases

end CliEcho

end Hnet
