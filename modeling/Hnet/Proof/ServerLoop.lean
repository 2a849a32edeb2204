import Hnet.Lts
import Hnet.UdpServer

/-!
# What a server fiber sends

The loop answers each datagram it has received with the message twice, back to where it came from,
and goes on to its next receive. A message that does not fit twice into the buffer aborts the
process, as `WHEELS_VERIFY` is there to do.
-/

namespace Hnet

open Lts

variable {A : Type}

/-- What the protocol has a server send after a receive. -/
def RecvDone.answer : RecvDone A → Option (Option A × Bytes)
  | .datagram src m => some (some src, m ++ m)
  | .failed _ => none

def Sent.answer (x : Sent A) : Option (Option A × Bytes) :=
  match x.after with
  | .datagram _ _ => some (x.addr.sockaddr, x.bytes)
  | .failed _ => none

theorem RecvDone.fits_of_payload {src : A} {m : Bytes}
    (h : ((RecvDone.datagram src m).payload 65000).length * 2 < 65000) : m.length * 2 < 65000 := by
  rw [payload, List.length_take] at h
  omega

theorem Sent.answer_of_fits {done : RecvDone A} (h : (done.payload 65000).length * 2 < 65000) :
    Sent.answer ⟨done, done.payload 65000 ++ done.payload 65000, done.addr⟩ = done.answer := by
  cases done with
  | datagram src m =>
      have hlen := RecvDone.fits_of_payload h
      have hfull : m.take 65000 = m := List.take_of_length_le (by omega)
      simp only [Sent.answer, RecvDone.answer, RecvDone.payload, RecvDone.addr, hfull]
  | failed err => rfl

namespace ServerRun

variable {s s' : ServerRun A}

/-- A server that survives every receive: it sends only answers, each to the datagram it has just
received, and never aborts. -/
structure Survives (s : ServerRun A) : Prop where
  answers : ∀ x ∈ s.sent, ∃ src m, x.after = .datagram src m ∧ x.addr.sockaddr = some src ∧
    x.bytes = m ++ m
  alive : s.server.pc ≠ .aborted

/-- All datagrams among these receives were shorter than 32500 bytes, and what has been sent after
successful receives are the answers to them, one by one and in order. -/
def Served (s : ServerRun A) (received : List (RecvDone A)) : Prop :=
  (∀ src m, .datagram src m ∈ received → m.length * 2 < 65000) ∧
    s.sent.filterMap Sent.answer = received.filterMap RecvDone.answer

/-- A server that answers every datagram that fits twice into its buffer. It aborts on one that
does not, before it sends anything for it; it goes on to its next receive after each send that
succeeds, and otherwise ends by one that fails. -/
structure AnswersInOrder (s : ServerRun A) : Prop where
  alive : s.server.pc ≠ .aborted → s.Served s.received
  aborted : s.server.pc = .aborted → ∃ before src m, s.received = before ++ [.datagram src m] ∧
    65000 ≤ m.length * 2 ∧ s.Served before
  threw : s.server.pc = .threw → ∃ res ∈ s.results, res < 0
  goesOn : ∀ res s', 0 ≤ res → s.step (.send res) = some s' → s'.server.pc = .receiving

theorem sendReturned_ok {res : Int} (hres : 0 ≤ res) (h : s.step (.send res) = some s') :
    s'.server.pc = .receiving := by
  obtain ⟨_, rfl⟩ := step_send h
  exact (Server.sendReturned_pc s.server res).trans (if_neg (not_lt.mpr hres))

theorem answersInOrder_recv {done : RecvDone A} (hserved : s.AnswersInOrder)
    (h : s.step (.recv done) = some s') : s'.AnswersInOrder := by
  obtain ⟨hpc, rfl⟩ := step_recv h
  obtain ⟨hfits, hanswers⟩ := hserved.alive (by rw [hpc]; exact fun heq => by cases heq)
  have hthrew : s.server.pc ≠ .threw := by
    rw [hpc]
    exact fun heq => by cases heq
  by_cases hlen : (done.payload 65000).length * 2 < 65000
  · obtain ⟨hout, ww, hsending⟩ := Server.recvReturned_of_fits (s := s.server) hlen
    refine ⟨fun _ => ⟨fun src m hm => ?_, ?_⟩, fun hpc' => ?_, fun hpc' => ?_,
      fun res s' hres => sendReturned_ok hres⟩
    · rcases List.mem_append.mp hm with hm | hm
      · exact hfits src m hm
      · exact RecvDone.fits_of_payload (List.mem_singleton.mp hm ▸ hlen)
    · simp only [hout, Option.map_some, Option.toList_some, List.filterMap_append, hanswers,
        List.filterMap_cons, List.filterMap_nil, Sent.answer_of_fits hlen]
    · cases hsending.symm.trans hpc'
    · cases hsending.symm.trans hpc'
  · obtain ⟨hout, haborted⟩ := Server.recvReturned_of_not_fits (s := s.server) hlen
    refine ⟨fun hpc' => absurd haborted hpc', fun _ => ?_, fun hpc' => ?_,
      fun res s' hres => sendReturned_ok hres⟩
    · cases done with
      | datagram src m =>
          refine ⟨s.received, src, m, rfl, ?_, hfits, ?_⟩
          · by_contra hshort
            refine hlen ?_
            rw [RecvDone.payload, List.length_take]
            omega
          · simp only [hout, Option.map_none, Option.toList_none, List.append_nil, hanswers]
      | failed err => exact absurd (Nat.zero_lt_succ _) hlen
    · cases haborted.symm.trans hpc'

theorem answersInOrder_send {res : Int} (hserved : s.AnswersInOrder)
    (h : s.step (.send res) = some s') : s'.AnswersInOrder := by
  obtain ⟨⟨ww, hpc⟩, rfl⟩ := step_send h
  have hafter := Server.sendReturned_pc s.server res
  have hserving := hserved.alive (by rw [hpc]; exact fun heq => by cases heq)
  refine ⟨fun _ => hserving, fun hpc' => ?_, fun hpc' => ?_,
    fun res s' hres => sendReturned_ok hres⟩
  · have heq := hafter.symm.trans hpc'
    split at heq <;> cases heq
  · refine ⟨res, List.mem_append_right _ (List.mem_singleton_self _), ?_⟩
    by_contra hnonneg
    rw [if_neg hnonneg] at hafter
    cases hafter.symm.trans hpc'

/-- **The server answers every datagram that fits**, whatever the sequence of results of its
calls. -/
theorem answersInOrder_throughout (buf : Buffer 65000) (es : List (Event A)) :
    Throughout step AnswersInOrder (init buf : ServerRun A) es := by
  have hinit : (init buf : ServerRun A).AnswersInOrder :=
    ⟨fun _ => ⟨fun _ _ hm => (by cases hm), rfl⟩, fun hpc => (by cases hpc),
      fun hpc => (by cases hpc), fun _ _ hres => sendReturned_ok hres⟩
  refine throughout_of_invariant es hinit fun s e s' hserved hstep => ?_
  cases e with
  | recv done => exact answersInOrder_recv hserved hstep
  | send res => exact answersInOrder_send hserved hstep

/-- A datagram that does not fit twice into the buffer is the end of a server. -/
theorem not_survives_of_long {buf : Buffer 65000} {src : A} {m : Bytes}
    (hlen : 65000 ≤ m.length * 2) :
    ¬ Throughout step Survives (init buf) [.recv (.datagram src m)] := by
  intro h
  have hnot : ¬ ((RecvDone.datagram src m).payload 65000).length * 2 < 65000 := by
    rw [RecvDone.payload, List.length_take]
    omega
  exact (h.2 _ rfl).alive (Server.recvReturned_of_not_fits hnot).2

/-- It takes 32500 bytes. -/
theorem not_survives_32500 :
    ¬ Throughout step Survives (init (Buffer.zero 65000))
      [.recv (.datagram (0 : Nat) (List.replicate 32500 0))] := by
  refine not_survives_of_long ?_
  rw [List.length_replicate]

end ServerRun

end Hnet
