import Hnet.Lts
import Hnet.UdpClient
import Hnet.UdpReport
import Mathlib.Logic.Function.Basic

/-!
# The fibers of the UDP client together

`ClientProgram::Run` of `infallible_udp.cc` from the first `tf::Spawn` to the last `Join`. The
fibers share one vector of timings and one counter of dead packets. Whatever the network does shows
in how their calls of the `Submitter` end and in what is in their buffers then.
-/

namespace Hnet

/-! ### The message -/

/-- What has become of the loop that builds the message after a number of tests of its condition. -/
inductive Building where
  | done (data : Bytes)
  /-- `operator+` of a string that would be longer than `max_size()` -/
  | threw
  | running
  deriving DecidableEq

/-- `while (data_to_send.size() < (size_t)config.data_len)`, with a bound on the number of tests. -/
def buildFrom (maxSize : Nat) (configured : Bytes) (dataLen : UInt64) : Nat → Bytes → Building
  | 0, _ => .running
  | tests + 1, data =>
      if data.length < dataLen.toNat then
        if data.length + configured.length ≤ maxSize then
          buildFrom maxSize configured dataLen tests (data ++ configured)
        else
          .threw
      else
        .done data

/-- The loop with what is configured as `data_to_send` and `data_len`. -/
def buildMessage (maxSize : Nat) (configured : Bytes) (dataLen : Int64) (tests : Nat) : Building :=
  buildFrom maxSize configured dataLen.toUInt64 tests configured

/-! ### The fibers -/

/-- What a fiber has done so far: its readings of the clock, how its iterations ended, and what it
pushed. -/
structure Ledger where
  readings : List Int
  endings : List Verdict
  pushed : List Int

def Ledger.empty : Ledger := { readings := [], endings := [], pushed := [] }

def Ledger.record (ledger : Ledger) (start now : Int) (verdict : Verdict) : Ledger where
  readings := ledger.readings ++ [now]
  endings := ledger.endings ++ [verdict]
  pushed := ledger.pushed ++ if verdict = .reply then [now - start] else []

/-- `n` fibers and what they share. `fault` is set when a signed counter or a difference overflows,
which is undefined in the source; the ledgers are history. -/
structure ClientProgram (n : Nat) where
  clients : Fin n → Client
  stats : Stats
  fault : Option Fault
  ledgers : Fin n → Ledger

namespace ClientProgram

variable {A : Type} {n : Nat}

def init (buf : Fin n → Buffer 65000) : ClientProgram n where
  clients := fun thr => Client.spawn (buf thr)
  stats := { timings := [], deadPackets := 0, firstStop := 0, firstStopReqCount := 0 }
  fault := none
  ledgers := fun _ => Ledger.empty

def OverflowsInt (x : Nat) : Prop := 2 ^ 31 ≤ x

instance (x : Nat) : Decidable (OverflowsInt x) := Nat.decLe _ _

/-- An operation on signed numbers at the end of an iteration overflows: `++dead_packets`,
`end - start` or `++i`. -/
def Overflows (c : Client) (stats : Stats) (now : Int) : Verdict → Prop
  | .dead => OverflowsInt (stats.deadPackets + 1) ∨ OverflowsInt (c.i + 1)
  | .reply => i64 (now - c.start) = .error .overflow ∨ OverflowsInt (c.i + 1)
  | .threw | .panicked => False

instance (c : Client) (stats : Stats) (now : Int) (verdict : Verdict) :
    Decidable (Overflows c stats now verdict) := by
  cases verdict <;> unfold Overflows <;> infer_instance

/-- The end of an iteration once `recvmsg` has returned. -/
def iterationEnds (cfg : ClientConfig) (s : ClientProgram n) (thr : Fin n) (c : Client) (now : Int)
    (verdict : Verdict) : ClientProgram n :=
  let after := c.recvReturned cfg s.stats now verdict
  if Overflows c s.stats now verdict then
    { s with fault := some .overflow }
  else
    { s with
      clients := Function.update s.clients thr after.1
      stats := after.2
      ledgers := match verdict with
        | .dead | .reply =>
            Function.update s.ledgers thr ((s.ledgers thr).record c.start now verdict)
        | .threw | .panicked => s.ledgers }

inductive Event (A : Type) (n : Nat) where
  /-- a fiber creates and binds its socket, which may throw, and reads the clock -/
  | start (thr : Fin n) (now : Int64)
  | socketThrows (thr : Fin n)
  /-- the `ring_submit` of its send returns -/
  | send (thr : Fin n) (res : Int)
  /-- the timed one of its receive ends, with what is in its buffer then -/
  | recv (thr : Fin n) (buf : Buffer 65000) (addr : Addr A) (outcome : Outcome) (now : Int64)
  | leave (thr : Fin n) (elapsed : Int)

def step (cfg : ClientConfig) (s : ClientProgram n) : Event A n → Option (ClientProgram n)
  | .start thr now =>
      if s.fault = none ∧ (s.clients thr).pc = .spawned then
        some
          { s with
            clients := Function.update s.clients thr ((s.clients thr).started cfg now.toInt)
            ledgers := Function.update s.ledgers thr { Ledger.empty with readings := [now.toInt] } }
      else
        none
  | .socketThrows thr =>
      if s.fault = none ∧ (s.clients thr).pc = .spawned then
        some
          { s with clients := Function.update s.clients thr { s.clients thr with pc := .threw } }
      else
        none
  | .send thr res =>
      if s.fault = none ∧ (s.clients thr).pc = .sending then
        some { s with clients := Function.update s.clients thr ((s.clients thr).sendReturned res) }
      else
        none
  | .recv thr buf addr outcome now =>
      if s.fault = none ∧ (s.clients thr).pc = .receiving then
        let verdict := Client.judge cfg thr buf (recvmsgDur (MemView.of 65000) addr outcome)
        some (s.iterationEnds cfg thr { s.clients thr with buf := buf } now.toInt verdict)
      else
        none
  | .leave thr elapsed =>
      if s.fault = none ∧ (s.clients thr).pc = .leaving then
        let after := (s.clients thr).leave s.stats elapsed
        some { s with clients := Function.update s.clients thr after.1, stats := after.2 }
      else
        none

/-- All fibers have joined, none of them by an exception. -/
def Joined (s : ClientProgram n) : Prop := s.fault = none ∧ ∀ thr, (s.clients thr).pc = .joined

instance (s : ClientProgram n) : Decidable s.Joined :=
  inferInstanceAs (Decidable (s.fault = none ∧ ∀ thr, (s.clients thr).pc = .joined))

/-- The timings as the report finds them. -/
def durations (s : ClientProgram n) : List Duration :=
  s.stats.timings.map fun nanos => { nanos := Int64.ofInt nanos }

/-! ### What a step does -/

section Cases

variable {cfg : ClientConfig} {s s' : ClientProgram n} {thr : Fin n}

theorem iterationEnds_cases (cfg : ClientConfig) (s : ClientProgram n) (thr : Fin n) (c : Client)
    (now : Int) (verdict : Verdict) :
    s.iterationEnds cfg thr c now verdict = { s with fault := some .overflow } ∨
    (∃ pc, (pc = .threw ∨ pc = .panicked) ∧ s.iterationEnds cfg thr c now verdict =
      { s with clients := Function.update s.clients thr { c with pc := pc } }) ∨
    ((verdict = .dead ∨ verdict = .reply) ∧ ¬ Overflows c s.stats now verdict ∧
      s.iterationEnds cfg thr c now verdict =
        { s with
          clients := Function.update s.clients thr
            ({ c with i := c.i + 1, start := now }.loopHead cfg)
          stats :=
            { s.stats with
              timings := s.stats.timings ++ if verdict = .reply then [now - c.start] else []
              deadPackets := s.stats.deadPackets + if verdict = .dead then 1 else 0 }
          ledgers := Function.update s.ledgers thr
            ((s.ledgers thr).record c.start now verdict) }) := by
  unfold iterationEnds
  by_cases hover : Overflows c s.stats now verdict
  · exact Or.inl (if_pos hover)
  right
  rw [if_neg hover]
  cases verdict with
  | threw => exact Or.inl ⟨.threw, Or.inl rfl, rfl⟩
  | panicked => exact Or.inl ⟨.panicked, Or.inr rfl, rfl⟩
  | dead => exact Or.inr ⟨Or.inl rfl, hover, by simp [Client.recvReturned]⟩
  | reply => exact Or.inr ⟨Or.inr rfl, hover, by simp [Client.recvReturned]⟩

theorem step_start {now : Int64} (h : s.step (A := A) cfg (.start thr now) = some s') :
    (s.clients thr).pc = .spawned ∧ s' =
      { s with
        clients := Function.update s.clients thr ((s.clients thr).started cfg now.toInt)
        ledgers := Function.update s.ledgers thr
          { Ledger.empty with readings := [now.toInt] } } := by
  simp only [step] at h
  obtain ⟨hcan, heq⟩ := Lts.of_guarded h
  exact ⟨hcan.2, heq⟩

theorem step_socketThrows (h : s.step (A := A) cfg (.socketThrows thr) = some s') :
    (s.clients thr).pc = .spawned ∧ s' =
      { s with clients := Function.update s.clients thr { s.clients thr with pc := .threw } } := by
  simp only [step] at h
  obtain ⟨hcan, heq⟩ := Lts.of_guarded h
  exact ⟨hcan.2, heq⟩

theorem step_send {res : Int} (h : s.step (A := A) cfg (.send thr res) = some s') :
    (s.clients thr).pc = .sending ∧ s' =
      { s with
        clients := Function.update s.clients thr ((s.clients thr).sendReturned res) } := by
  simp only [step] at h
  obtain ⟨hcan, heq⟩ := Lts.of_guarded h
  exact ⟨hcan.2, heq⟩

theorem step_recv {buf : Buffer 65000} {addr : Addr A} {outcome : Outcome} {now : Int64}
    (h : s.step cfg (.recv thr buf addr outcome now) = some s') :
    (s.clients thr).pc = .receiving ∧
      s' = s.iterationEnds cfg thr { s.clients thr with buf := buf } now.toInt
        (Client.judge cfg thr buf (recvmsgDur (MemView.of 65000) addr outcome)) := by
  simp only [step] at h
  obtain ⟨hcan, heq⟩ := Lts.of_guarded h
  exact ⟨hcan.2, heq⟩

theorem step_leave {elapsed : Int} (h : s.step (A := A) cfg (.leave thr elapsed) = some s') :
    (s.clients thr).pc = .leaving ∧ s' =
      { s with
        clients := Function.update s.clients thr ((s.clients thr).leave s.stats elapsed).1
        stats := ((s.clients thr).leave s.stats elapsed).2 } := by
  simp only [step] at h
  obtain ⟨hcan, heq⟩ := Lts.of_guarded h
  exact ⟨hcan.2, heq⟩

end Cases

end ClientProgram

end Hnet
