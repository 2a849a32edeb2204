import Hnet.Proof.FiberRuns
import Hnet.ServerFibers

/-!
# Over the ring, each datagram is answered with its own bytes

The UDP server from its loop down to the two queues. Whatever the kernel does and in whatever order,
and whichever fibers the poller wakes, a fiber reacts to the ends of its own receives and sends, and
what it has the kernel send is the answer to the datagram that the kernel delivered to it last.
-/

namespace Hnet

open Lts

namespace ServerRun

variable {A : Type}

theorem plain_program : (program : FiberProgram (ServerRun A) (Event A)).Plain := by
  intro p req timed hasks
  change p.asks = some (req, timed) at hasks
  unfold asks at hasks
  split at hasks <;> cases hasks <;> rfl

/-- On what a call can end with, the fiber goes on as the loop of the server does. -/
theorem step_of_fits {p : ServerRun A} {found : Outcome × Option (Event A)}
    (h : program.Fits p found) :
    ∃ e, found.2 = some e ∧ p.step e = some (p.resume found.1 found.2) := by
  obtain ⟨req, timed, e, hasks, hfound, hopcode, hended⟩ := h
  obtain rfl := plain_program p req timed hasks
  refine ⟨e, hfound, ?_⟩
  have hres : found.1 = .returned e.res := hended
  change p.asks = some (req, false) at hasks
  change e.opcode = req.opcode at hopcode
  rw [hfound, hres]
  unfold asks at hasks
  cases hpc : p.server.pc with
  | receiving =>
      rw [hpc] at hasks
      obtain rfl := (Prod.mk.inj (Option.some.inj hasks)).1
      cases e with
      | recv done =>
          simp only [step, resume, hpc, Event.res, Server.recvResumed_res]
      | send res => cases hopcode
  | sending ww =>
      rw [hpc] at hasks
      obtain rfl := (Prod.mk.inj (Option.some.inj hasks)).1
      cases e with
      | recv done => cases hopcode
      | send res => simp only [step, resume, hpc, Event.res]
  | threw => rw [hpc] at hasks; cases hasks
  | aborted => rw [hpc] at hasks; cases hasks

theorem sending_of_asks {p : ServerRun A} {req : Request} {timed : Bool}
    (h : p.asks = some (req, timed)) (hopcode : req.opcode = .sendmsg) :
    ∃ ww, p.server.pc = .sending ww := by
  unfold asks at h
  split at h
  · obtain rfl := (Prod.mk.inj (Option.some.inj h)).1
    cases hopcode
  · rename_i ww hpc
    exact ⟨ww, hpc⟩
  all_goals cases h

/-- A fiber that sends has just received, and sends what answers that. -/
theorem sending_of_run {s s' : ServerRun A} {es : List (Event A)} (h : run step s es = some s')
    (hinit : s.server.pc = .receiving) {ww : WriteView A} (hpc : s'.server.pc = .sending ww) :
    ∃ before done, es = before ++ [.recv done] ∧
      s'.server.outgoing = some (done.payload 65000 ++ done.payload 65000, done.addr) := by
  rcases List.eq_nil_or_concat es with rfl | ⟨before, e, rfl⟩
  · obtain rfl := Option.some.inj h
    cases hinit.symm.trans hpc
  · rw [List.concat_eq_append, run_append] at h
    obtain ⟨middle, _, hlast⟩ := Option.bind_eq_some_iff.mp h
    have hstep : middle.step e = some s' := by simpa using hlast
    cases e with
    | recv done =>
        refine ⟨before, done, List.concat_eq_append, ?_⟩
        obtain ⟨_, rfl⟩ := step_recv hstep
        by_cases hfits : (done.payload 65000).length * 2 < 65000
        · exact (Server.recvReturned_of_fits hfits).1
        · cases (Server.recvReturned_of_not_fits hfits).2.symm.trans hpc
    | send res =>
        obtain ⟨_, rfl⟩ := step_send hstep
        have hreturned := (Server.sendReturned_pc middle.server res).symm.trans hpc
        split at hreturned <;> cases hreturned

end ServerRun

namespace Fibers

variable {ι A : Type} [DecidableEq ι]

/-- Every fiber has taken the ends of its own operations, up to at most one that waits for it, and
an SQE that sends carries the answer to what its fiber received last. -/
structure AnswersOwn (buf : ι → Buffer 65000) (ended : ι → List (ServerRun.Event A))
    (s : Fibers ι (ServerRun A) (ServerRun.Event A)) : Prop where
  taken : ∀ f, ∃ taken waiting, ended f = taken ++ waiting ∧ waiting.length ≤ 1 ∧
    run ServerRun.step (ServerRun.init (buf f)) taken = some (s.programs f)
  answers : ∀ sqe ∈ s.runtime.loop.ring.ring.held, sqe.opcode = .sendmsg →
    ∃ before done, ended sqe.userData.fiber = before ++ [.recv done] ∧
      (s.programs sqe.userData.fiber).server.outgoing
        = some (done.payload 65000 ++ done.payload 65000, done.addr)

/-- **The UDP server answers each datagram with its own bytes**, from the loop of its fibers down to
the ring. -/
theorem serverFibers_answerOwn (entries capacity : Nat) (fits : entries + capacity < 2 ^ 64)
    (maxAttempts : UInt64) (buf : ι → Buffer 65000) {es : List (Event ι (ServerRun.Event A))}
    (hkernel : Along (step ServerRun.program) (SparesEnocqe ServerRun.program)
      (init entries capacity fits maxAttempts fun f => ServerRun.init (buf f)) es)
    {s : Fibers ι (ServerRun A) (ServerRun.Event A)}
    (hrun : run (step ServerRun.program)
      (init entries capacity fits maxAttempts fun f => ServerRun.init (buf f)) es = some s) :
    AnswersOwn buf (fun f => trace (step ServerRun.program) (endedFor f)
      (init entries capacity fits maxAttempts fun f => ServerRun.init (buf f)) es) s := by
  have htakes := takesOwn ServerRun.plain_program (fun _ _ h => ServerRun.step_of_fits h)
    hkernel hrun
  refine ⟨fun f => ?_, fun sqe hheld hopcode => ?_⟩
  · obtain ⟨taken, waiting, hended, hlength, htaken⟩ := htakes f
    refine ⟨taken, waiting, hended, ?_, htaken⟩
    rw [hlength]
    cases s.runtime.blockingCall f <;> simp [BlockingCall.toList]
  · have hs := ((sound_of_plain ServerRun.plain_program hkernel).last hrun).1
    have hcalls := hs.wake.calls
    obtain ⟨timed, hquestion, hasked⟩ := hcalls.asked hheld
    obtain rfl := hs.plain ServerRun.plain_program hquestion
    obtain ⟨req, hasking⟩ := hs.consistent _ false hquestion
    have hobj := hs.request ServerRun.plain_program hheld
    have haddr := hcalls.addr_eq hheld hobj
    rw [congrArg Ptr.call (hcalls.userData_eq hheld hobj hquestion)] at haddr
    obtain ⟨ww, hpc⟩ := ServerRun.sending_of_asks hasking.asks
      ((hasking.opcode sqe hheld haddr).symm.trans hopcode)
    -- the send has not ended, so the fiber has taken all that has
    obtain ⟨taken, waiting, hended, hlength, htaken⟩ := htakes sqe.userData.fiber
    rw [hasked] at hlength
    obtain rfl := List.length_eq_zero_iff.mp hlength
    obtain ⟨before, done, rfl, hsent⟩ := ServerRun.sending_of_run htaken rfl hpc
    exact ⟨before, done, by rw [hended, List.append_nil], hsent⟩

/-- Two fibers have received, not in the order in which they asked, and the second one sends. -/
def crossedReceives : List (Event (Fin 2) (ServerRun.Event Nat)) :=
  let f : Fin 2 := ⟨0, Nat.two_pos⟩
  let g : Fin 2 := ⟨1, Nat.one_lt_two⟩
  [.runtime (.resume f), .call f, .runtime (.get f), .runtime (.flush f), .runtime (.count f none),
    .runtime (.resume g), .call g, .runtime (.get g), .runtime (.flush g), .runtime (.count g none),
    .runtime (.kernel .consume), .runtime (.kernel .consume), .ends g (.recv (.datagram 7 [1, 2])),
    .ends f (.recv (.datagram 8 [3])), .runtime (.poll .tryPollMany), .runtime .dispatch,
    .runtime .dispatch, .runtime (.resume g), .runtime (.finish g), .call g, .runtime (.get g)]

theorem serverFibers_answerOwn_crossedReceives : ∃ s,
    run (step ServerRun.program) (init 8 8 (by decide) 1000000
      fun _ => ServerRun.init (Buffer.zero 65000)) crossedReceives = some s ∧
    ∃ sqe ∈ s.runtime.loop.ring.ring.held, sqe.opcode = .sendmsg ∧
      (s.programs sqe.userData.fiber).server.outgoing
        = some ([1, 2, 1, 2], { sockaddr := some 7, addrlen := 28 }) := by
  have hheld : (run (step ServerRun.program) (init 8 8 (by decide) 1000000
      fun _ => ServerRun.init (Buffer.zero 65000)) crossedReceives).map (fun s =>
        s.runtime.loop.ring.ring.held.map fun x => (x.opcode, x.userData.fiber))
        = some [(.sendmsg, 1)] := by decide +kernel
  obtain ⟨s, hrun, hmap⟩ := Option.map_eq_some_iff.mp hheld
  obtain ⟨sqe, hsqe, hpair⟩ : ∃ sqe ∈ s.runtime.loop.ring.ring.held,
      (sqe.opcode, sqe.userData.fiber) = (Opcode.sendmsg, 1) :=
    List.mem_map.mp (hmap ▸ List.mem_singleton_self _)
  obtain ⟨hopcode, hfiber⟩ := Prod.mk.inj hpair
  have hanswers := serverFibers_answerOwn 8 8 (by decide) 1000000 (fun _ => Buffer.zero 65000)
    (by decide +kernel) hrun
  obtain ⟨before, done, hended, hsent⟩ := hanswers.answers sqe hsqe hopcode
  have htrace : trace (step ServerRun.program) (endedFor sqe.userData.fiber) (init 8 8 (by decide)
      1000000 fun _ => ServerRun.init (Buffer.zero 65000)) crossedReceives
      = [.recv (.datagram 7 [1, 2])] := by
    rw [hfiber]
    rfl
  have hdone : done = .datagram 7 [1, 2] := by
    have hlast := congrArg List.getLast? (htrace.symm.trans hended)
    rw [List.getLast?_concat] at hlast
    exact (ServerRun.Event.recv.inj (Option.some.inj hlast)).symm
  rw [hdone] at hsent
  exact ⟨s, hrun, sqe, hsqe, hopcode, hsent⟩

end Fibers

end Hnet
