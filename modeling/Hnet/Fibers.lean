import Hnet.RingSubmit

/-!
# Programs over `ring_submit`

The fibers with what they do between their calls. A program makes one call of `ring_submit` after
the other. The kernel works on the memory that the request of a call names, and leaves its results
there before it posts the CQE; the fiber goes on with what it finds in that memory and with what
`ring_submit` returns.
-/

namespace Hnet

/-- A program by its calls. `D` is what the kernel leaves in the memory of a request when it ends
the operation. -/
structure FiberProgram (σ D : Type) where
  /-- The request of the next call, `true` for a timed one; `none` once the program has ended. -/
  asks : σ → Option (Request × Bool)
  resume : σ → Outcome → Option D → σ
  /-- The operations that can end so, and their result. -/
  opcode : D → Opcode
  res : D → Int

/-- `returned` is history: how the calls were left, with what was in the memory of their
requests. -/
structure Fibers (ι σ D : Type) where
  runtime : Runtime ι
  programs : ι → σ
  memory : Ptr ι → Option D
  returned : List (ι × Outcome × Option D)

namespace Fibers

variable {ι σ D : Type}

def init [DecidableEq ι] (entries capacity : Nat) (fits : entries + capacity < 2 ^ 64)
    (maxAttempts : UInt64) (programs : ι → σ) : Fibers ι σ D where
  runtime := .init entries capacity fits maxAttempts
  programs := programs
  memory := fun _ => none
  returned := []

inductive Event (ι D : Type) where
  /-- the `i`-th operation the kernel works on ends -/
  | ends (i : Nat) (d : D)
  /-- the running fiber begins the next call of its program -/
  | call (f : ι)
  /-- any other step, the end of a LINK_TIMEOUT among them -/
  | runtime (e : Runtime.Event ι)

/-- A step of the fibers, the poller and the kernel that neither begins a call nor touches the
memory of a request. -/
def Other (s : Fibers ι σ D) : Runtime.Event ι → Prop
  | .call _ _ _ => False
  | .kernel (.complete i _) =>
      ∃ sqe ∈ s.runtime.loop.ring.ring.inKernel[i]?, sqe.addr.obj = .kernelTs
  | .kernel .consume | .poll _ | .dispatch | .resume _ | .park _ | .get _ | .flush _ | .count _ _
  | .finish _ => True

instance (s : Fibers ι σ D) : ∀ e, Decidable (s.Other e)
  | .call _ _ _ => isFalse id
  | .kernel (.complete i _) => inferInstanceAs (Decidable
      (∃ sqe ∈ s.runtime.loop.ring.ring.inKernel[i]?, sqe.addr.obj = .kernelTs))
  | .kernel .consume | .poll _ | .dispatch | .resume _ | .park _ | .get _ | .flush _ | .count _ _
  | .finish _ => isTrue trivial

def runtimeEvent (program : FiberProgram σ D) (s : Fibers ι σ D) :
    Event ι D → Option (Runtime.Event ι)
  | .ends i d =>
      match s.runtime.loop.ring.ring.inKernel[i]? with
      | some sqe =>
          if sqe.addr.obj = .request ∧ program.opcode d = sqe.opcode then
            some (.kernel (.complete i (program.res d)))
          else
            none
      | none => none
  | .call f => (program.asks (s.programs f)).map fun ask => .call f ask.1 ask.2
  | .runtime e => if s.Other e then some e else none

variable [DecidableEq ι]

/-- The memory after a step. -/
def written (s : Fibers ι σ D) : Event ι D → Ptr ι → Option D
  | .ends i d =>
      match s.runtime.loop.ring.ring.inKernel[i]? with
      | some sqe => Function.update s.memory sqe.addr (some d)
      | none => s.memory
  | .call _ | .runtime _ => s.memory

/-- When a call has been left, its program goes on. -/
def goOn (program : FiberProgram σ D) (s : Fibers ι σ D) (runtime : Runtime ι)
    (memory : Ptr ι → Option D) : Fibers ι σ D :=
  match runtime.left.drop s.runtime.left.length with
  | [] => { s with runtime := runtime, memory := memory }
  | l :: _ =>
      let found := memory ⟨l.fiber, l.call, .request⟩
      { runtime := runtime
        programs := Function.update s.programs l.fiber
          (program.resume (s.programs l.fiber) l.outcome found)
        memory := memory
        returned := s.returned ++ [(l.fiber, l.outcome, found)] }

def step (program : FiberProgram σ D) (s : Fibers ι σ D) (e : Event ι D) :
    Option (Fibers ι σ D) :=
  (s.runtimeEvent program e).bind fun runtimeEvent =>
    (s.runtime.step runtimeEvent).map fun runtime => s.goOn program runtime (s.written e)

/-! ### What a step can do -/

variable {program : FiberProgram σ D} {s s' : Fibers ι σ D}

omit [DecidableEq ι] in
theorem runtimeEvent_ends {i : Nat} {d : D} {e : Runtime.Event ι}
    (h : s.runtimeEvent program (.ends i d) = some e) :
    ∃ sqe, s.runtime.loop.ring.ring.inKernel[i]? = some sqe ∧ sqe.addr.obj = .request
      ∧ program.opcode d = sqe.opcode ∧ e = .kernel (.complete i (program.res d)) := by
  simp only [runtimeEvent] at h
  split at h
  · rename_i sqe hsqe
    obtain ⟨⟨hobj, hopcode⟩, rfl⟩ := Lts.of_guarded h
    exact ⟨sqe, hsqe, hobj, hopcode, rfl⟩
  · cases h

omit [DecidableEq ι] in
theorem runtimeEvent_call {f : ι} {e : Runtime.Event ι}
    (h : s.runtimeEvent program (.call f) = some e) :
    ∃ req timed, program.asks (s.programs f) = some (req, timed) ∧ e = .call f req timed := by
  obtain ⟨⟨req, timed⟩, hasks, rfl⟩ := Option.map_eq_some_iff.mp h
  exact ⟨req, timed, hasks, rfl⟩

omit [DecidableEq ι] in
theorem runtimeEvent_runtime {e e' : Runtime.Event ι}
    (h : s.runtimeEvent program (.runtime e) = some e') : s.Other e ∧ e' = e :=
  Lts.of_guarded h

theorem step_runtime {e : Event ι D} (h : step program s e = some s') :
    ∃ e', s.runtimeEvent program e = some e' ∧ s.runtime.step e' = some s'.runtime
      ∧ s' = s.goOn program s'.runtime (s.written e) := by
  obtain ⟨e', hevent, hmap⟩ := Option.bind_eq_some_iff.mp h
  obtain ⟨runtime, hstep, rfl⟩ := Option.map_eq_some_iff.mp hmap
  have hruntime : (s.goOn program runtime (s.written e)).runtime = runtime := by
    simp only [goOn]
    split <;> rfl
  exact ⟨e', hevent, hruntime.symm ▸ hstep, by rw [hruntime]⟩

theorem goOn_of_same {runtime : Runtime ι} (memory : Ptr ι → Option D)
    (h : runtime.left = s.runtime.left) :
    s.goOn program runtime memory = { s with runtime := runtime, memory := memory } := by
  rw [goOn, h, List.drop_length]

theorem goOn_of_left {runtime : Runtime ι} {l : Left ι} (memory : Ptr ι → Option D)
    (h : runtime.left = s.runtime.left ++ [l]) :
    s.goOn program runtime memory =
      { runtime := runtime
        programs := Function.update s.programs l.fiber
          (program.resume (s.programs l.fiber) l.outcome (memory ⟨l.fiber, l.call, .request⟩))
        memory := memory
        returned := s.returned ++
          [(l.fiber, l.outcome, memory ⟨l.fiber, l.call, .request⟩)] } := by
  rw [goOn, h, List.drop_left]

end Fibers

end Hnet
