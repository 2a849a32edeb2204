import Hnet.Proof.Accounting

/-!
# The UDP client comes to an end if its calls do

The rings are not part of this model: a call of `ring_submit` is one step, and is taken to return.
Each step of a fiber uses up one of the steps it has: two for each iteration, one to start and one
to leave. What ends a fiber early takes the rest of its steps away.
-/

namespace Hnet.ClientProgram

open Lts

variable {A : Type} {n : Nat} {cfg : ClientConfig} {s s' : ClientProgram n}

/-- The steps a fiber has in front of it, unless it throws or panics. -/
def stepsLeft (cfg : ClientConfig) (c : Client) : Nat :=
  match c.pc with
  | .spawned => 2 * cfg.iterations.toNat + 2
  | .sending => 2 * (cfg.iterations.toNat - c.i) + 1
  | .receiving => 2 * (cfg.iterations.toNat - c.i)
  | .leaving => 1
  | .joined | .threw | .panicked => 0

/-- Once a fault is set, nothing moves. -/
theorem fault_of_step {e : Event A n} (hstep : s.step cfg e = some s') : s.fault = none := by
  cases e <;> simp only [step] at hstep <;> exact (of_guarded hstep).1.1

end Hnet.ClientProgram
