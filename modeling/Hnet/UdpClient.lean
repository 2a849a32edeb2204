import Hnet.Decimal
import Hnet.Submitter

/-!
# The UDP client

One fiber of `infallible_udp.cc`. It sends its message and waits for the echo, over and over on one
socket. An iteration whose timed receive gives up is counted as a dead packet; the next one sends
the same message again.
-/

namespace Hnet

/-- What the fibers read of `ClientConfig`, with `data_to_send` as it has been built. -/
structure ClientConfig where
  dataToSend : Bytes
  count : Int
  fibers : Int

namespace ClientConfig

/-- A fiber appends its number. -/
def data (cfg : ClientConfig) (thr : Nat) : Bytes := cfg.dataToSend ++ decimal thr

def dataExpected (cfg : ClientConfig) (thr : Nat) : Bytes := cfg.data thr ++ cfg.data thr

/-- `config.count / config.fibers` -/
def iterations (cfg : ClientConfig) : Int := cfg.count.tdiv cfg.fibers

theorem data_ne_nil (cfg : ClientConfig) (thr : Nat) : cfg.data thr ≠ [] := by
  simp [data, decimal]

theorem dataExpected_ne_nil (cfg : ClientConfig) (thr : Nat) : cfg.dataExpected thr ≠ [] := by
  simp [dataExpected, cfg.data_ne_nil thr]

end ClientConfig

inductive ClientPc where
  /-- in front of its first reading of the clock -/
  | spawned
  | sending
  | receiving
  | leaving
  | joined
  | threw
  /-- `WHEELS_PANIC("bad response")` -/
  | panicked
  deriving DecidableEq, Repr

structure Client where
  pc : ClientPc
  i : Nat
  /-- `start`, in nanoseconds -/
  start : Int
  buf : Buffer 65000

structure Stats where
  timings : List Int
  deadPackets : Nat
  firstStop : Int
  firstStopReqCount : Nat

inductive Verdict where
  | threw
  | panicked
  | dead
  | reply
  deriving DecidableEq, Repr

namespace Client

def spawn (buf : Buffer 65000) : Client := { pc := .spawned, i := 0, start := 0, buf := buf }

def loopHead (cfg : ClientConfig) (c : Client) : Client :=
  { c with pc := if (c.i : Int) < cfg.iterations then .sending else .leaving }

/-- The fiber up to its first iteration. -/
def started (cfg : ClientConfig) (c : Client) (now : Int) : Client :=
  { c with i := 0, start := now }.loopHead cfg

/-- An iteration from the return of `sendmsg` to its call of `recvmsg`. -/
def sendReturned (c : Client) (res : Int) : Client :=
  match sendmsg res with
  | none => { c with pc := .threw }
  | some res => if res ≤ 0 then { c with pc := .threw } else { c with pc := .receiving }

def judge {A : Type} (cfg : ClientConfig) (thr : Nat) (buf : Buffer 65000) :
    Option (ReadView A) → Verdict
  | none => .threw
  | some result =>
      if result.ret = -ESQE_TIMEOUT ∨ result.ret = -EINTR then
        .dead
      else if result.ret ≤ 0 then
        .threw
      else if buf.view result.buf ≠ cfg.dataExpected thr then
        .panicked
      else
        .reply

/-- An iteration from the return of `recvmsg` to the head of the loop. The clock is read once, at
the end of a dead iteration and of one with a reply. -/
def recvReturned (cfg : ClientConfig) (c : Client) (stats : Stats) (now : Int) :
    Verdict → Client × Stats
  | .threw => ({ c with pc := .threw }, stats)
  | .panicked => ({ c with pc := .panicked }, stats)
  | .dead =>
      ({ c with i := c.i + 1, start := now }.loopHead cfg,
        { stats with deadPackets := stats.deadPackets + 1 })
  | .reply =>
      ({ c with i := c.i + 1, start := now }.loopHead cfg,
        { stats with timings := stats.timings ++ [now - c.start] })

def leave (c : Client) (stats : Stats) (elapsed : Int) : Client × Stats :=
  ({ c with pc := .joined },
    if stats.firstStop = 0 then
      { stats with firstStop := elapsed, firstStopReqCount := stats.timings.length }
    else
      stats)

/-! ### What one iteration does -/

section Lemmas

variable {A : Type} {cfg : ClientConfig} {c : Client}

theorem loopHead_pc (cfg : ClientConfig) (c : Client) :
    (c.loopHead cfg).pc = .sending ∨ (c.loopHead cfg).pc = .leaving := by
  unfold loopHead
  split
  · exact Or.inl rfl
  · exact Or.inr rfl

theorem sendReturned_pc (c : Client) (res : Int) :
    (c.sendReturned res).pc = .threw ∨ (c.sendReturned res).pc = .receiving := by
  unfold sendReturned
  split
  · exact Or.inl rfl
  · split
    · exact Or.inl rfl
    · exact Or.inr rfl

theorem sendReturned_i (c : Client) (res : Int) : (c.sendReturned res).i = c.i := by
  unfold sendReturned
  split
  · rfl
  · split <;> rfl

theorem recvReturned_pc (cfg : ClientConfig) (c : Client) (stats : Stats) (now : Int)
    (verdict : Verdict) :
    (verdict = .threw ∧ (c.recvReturned cfg stats now verdict).1.pc = .threw) ∨
    (verdict = .panicked ∧ (c.recvReturned cfg stats now verdict).1.pc = .panicked) ∨
    ((verdict = .dead ∨ verdict = .reply) ∧
      ((c.recvReturned cfg stats now verdict).1.pc = .sending ∨
        (c.recvReturned cfg stats now verdict).1.pc = .leaving)) := by
  cases verdict with
  | threw => exact Or.inl ⟨rfl, rfl⟩
  | panicked => exact Or.inr (Or.inl ⟨rfl, rfl⟩)
  | dead => exact Or.inr (Or.inr ⟨Or.inl rfl, loopHead_pc cfg _⟩)
  | reply => exact Or.inr (Or.inr ⟨Or.inr rfl, loopHead_pc cfg _⟩)

end Lemmas

end Client

/-! ### What the tests on the result say -/

theorem timedOutcome_cases (op timeout : Int) :
    timedOutcome op timeout = .returned op ∨
      timedOutcome op timeout = .returned (-ESQE_TIMEOUT) ∨
      ∃ code, timedOutcome op timeout = .threw code := by
  unfold timedOutcome
  split
  · exact Or.inl rfl
  · split
    · exact Or.inr (Or.inr ⟨_, rfl⟩)
    · split
      · exact Or.inl rfl
      · exact Or.inr (Or.inl rfl)

theorem Client.judge_cases {A : Type} (cfg : ClientConfig) (thr : Nat) (buf : Buffer 65000)
    (result : ReadView A) :
    (judge cfg thr buf (some result) = .reply ∧ 0 < result.ret
      ∧ buf.view result.buf = cfg.dataExpected thr) ∨
    (judge cfg thr buf (some result) = .panicked ∧ 0 < result.ret
      ∧ buf.view result.buf ≠ cfg.dataExpected thr) ∨
    judge cfg thr buf (some result) = .dead ∨ judge cfg thr buf (some result) = .threw := by
  by_cases hdead : result.ret = -ESQE_TIMEOUT ∨ result.ret = -EINTR
  · exact Or.inr (Or.inr (Or.inl (if_pos hdead)))
  by_cases hneg : result.ret ≤ 0
  · exact Or.inr (Or.inr (Or.inr ((if_neg hdead).trans (if_pos hneg))))
  by_cases hne : buf.view result.buf ≠ cfg.dataExpected thr
  · exact Or.inr (Or.inl
      ⟨(if_neg hdead).trans ((if_neg hneg).trans (if_pos hne)), not_le.mp hneg, hne⟩)
  · exact Or.inl
      ⟨(if_neg hdead).trans ((if_neg hneg).trans (if_neg hne)), not_le.mp hneg, not_not.mp hne⟩

/-- The fiber compares what the kernel put into its buffer with what it expects, and nothing
else. -/
theorem Client.judge_compares {A : Type} {cfg : ClientConfig} {thr : Nat} {buf : Buffer 65000}
    {done : RecvDone A} {timeout : Int} {verdict : Verdict}
    (h : judge cfg thr (done.fill buf)
      (recvmsgDur (MemView.of 65000) done.addr (timedOutcome (done.res 65000) timeout)) = verdict) :
    (verdict = .reply → done.payload 65000 = cfg.dataExpected thr) ∧
      (verdict = .panicked → done.payload 65000 ≠ cfg.dataExpected thr ∧ 0 < done.res 65000) := by
  have hview : 0 < done.res 65000 →
      (done.fill buf).view (readView (MemView.of 65000) done.addr (done.res 65000)).buf
        = done.payload 65000 := by
    intro hpos
    cases done with
    | datagram src payload => exact Buffer.read_write_self _ rfl
    | failed err =>
        have := err.pos
        simp only [RecvDone.res] at hpos
        omega
  subst h
  rcases timedOutcome_cases (done.res 65000) timeout with heq | heq | ⟨code, heq⟩ <;>
    rw [heq, recvmsgDur]
  · rcases judge_cases cfg thr (done.fill buf)
      (readView (MemView.of 65000) done.addr (done.res 65000)) with
      ⟨hjudge, hpos, hsame⟩ | ⟨hjudge, hpos, hne⟩ | hjudge | hjudge <;> rw [hjudge]
    · rw [hview hpos] at hsame
      exact ⟨fun _ => hsame, fun heq => by cases heq⟩
    · rw [hview hpos] at hne
      exact ⟨fun heq => (by cases heq), fun _ => ⟨hne, hpos⟩⟩
    · exact ⟨fun heq => (by cases heq), fun heq => by cases heq⟩
    · exact ⟨fun heq => (by cases heq), fun heq => by cases heq⟩
  · have hneg : ¬ (0 : Int) < -ESQE_TIMEOUT := by decide
    rcases judge_cases cfg thr (done.fill buf)
      (readView (MemView.of 65000) done.addr (-ESQE_TIMEOUT)) with
      ⟨_, hpos, _⟩ | ⟨_, hpos, _⟩ | hjudge | hjudge
    · exact absurd hpos hneg
    · exact absurd hpos hneg
    · rw [hjudge]
      exact ⟨fun heq => (by cases heq), fun heq => by cases heq⟩
    · rw [hjudge]
      exact ⟨fun heq => (by cases heq), fun heq => by cases heq⟩
  · exact ⟨fun heq => (by cases heq), fun heq => by cases heq⟩

end Hnet
