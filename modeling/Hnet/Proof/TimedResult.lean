import Hnet.Submitter

/-!
# What a timed call makes of its two results

The operation and the link timeout complete in either order, each with a result of its own. The
timed `ring_submit` looks at the timeout first: `-ENOENT` and `-ECANCELED` tell it that the
operation came first. Any other value counts as a timeout, also when the operation has succeeded.
-/

namespace Hnet

variable {ι A : Type} [DecidableEq ι] {fiber : ι} {call : Nat} {buf : MemView} {addr : Addr A}
  {opFirst : Bool} {op timeout : Int}

/-- The order of the two CQEs does not matter. The fiber is woken unless one of them carries the
sentinel. -/
theorem timedCall_eq (fiber : ι) (call : Nat) (opFirst : Bool) (op timeout : Int) :
    timedCall fiber call opFirst op timeout =
      if op ≠ -ENOCQE ∧ timeout ≠ -ENOCQE then some (timedOutcome op timeout) else none := by
  cases opFirst <;>
    simp [timedCall, timedCqes, dispatch, Setters.store_res, freshSetters, checkBothSet]

/-! ### The outcome by the result of the timeout -/

/-- The timer was taken down, or never armed: the operation came first. -/
theorem timedOutcome_of_unfired (h : timeout = -ENOENT ∨ timeout = -ECANCELED) :
    timedOutcome op timeout = .returned op := by
  rcases h with rfl | rfl <;> simp [timedOutcome]

/-- Any other result of the timeout hides a success. -/
theorem timedOutcome_of_success (hop : 0 ≤ op) (hnoent : timeout ≠ -ENOENT)
    (hcanceled : timeout ≠ -ECANCELED) : timedOutcome op timeout = .returned (-ESQE_TIMEOUT) := by
  simp [timedOutcome, hop, hnoent, hcanceled]

/-- A success is reported as such by a timed receive into `buf`: the call returns the result of the
operation, the view spans that many bytes from the start of the buffer, and a timeout is reported
only for an operation that did not succeed. -/
structure ReportsSuccess (fiber : ι) (call : Nat) (buf : MemView) (addr : Addr A) (opFirst : Bool)
    (op timeout : Int) : Prop where
  returned : 0 ≤ op → timedCall fiber call opFirst op timeout = some (.returned op)
  view : 0 ≤ op → (timedCall fiber call opFirst op timeout).bind (recvmsgDur buf addr)
    = some { ret := op, buf := { start := buf.start, size := op.toNat }, addr := addr }
  failed : timedCall fiber call opFirst op timeout = some (.returned (-ESQE_TIMEOUT)) → op < 0

/-- **A success is reported as such exactly when** the timeout says that it did not fire. -/
theorem reportsSuccess_iff :
    ReportsSuccess fiber call buf addr opFirst op timeout ↔
      op < 0 ∨ timeout = -ENOENT ∨ timeout = -ECANCELED := by
  rcases lt_or_ge op 0 with hneg | hop
  · refine iff_of_true ⟨fun hop => ?_, fun hop => ?_, fun _ => hneg⟩ (Or.inl hneg)
    · exact absurd hop (not_le.mpr hneg)
    · exact absurd hop (not_le.mpr hneg)
  have hset : op ≠ -ENOCQE := by
    rw [ENOCQE]
    omega
  have htimeout : op ≠ -ESQE_TIMEOUT := by
    rw [ESQE_TIMEOUT]
    omega
  constructor
  · intro hreports
    right
    by_contra hfired
    obtain ⟨hnoent, hcanceled⟩ := not_or.mp hfired
    have hreturned := hreports.returned hop
    rw [timedCall_eq, timedOutcome_of_success hop hnoent hcanceled] at hreturned
    split at hreturned
    · exact htimeout (Outcome.returned.inj (Option.some.inj hreturned)).symm
    · cases hreturned
  · intro h
    have hunfired : timeout = -ENOENT ∨ timeout = -ECANCELED := h.resolve_left (not_lt.mpr hop)
    have hsentinel : timeout ≠ -ENOCQE := by
      rcases hunfired with rfl | rfl <;> decide
    have hcall : timedCall fiber call opFirst op timeout = some (.returned op) := by
      rw [timedCall_eq, if_pos ⟨hset, hsentinel⟩, timedOutcome_of_unfired hunfired]
    refine ⟨fun _ => hcall, fun _ => ?_, fun hreported => ?_⟩
    · rw [hcall, Option.bind_some, recvmsgDur, readView, if_pos hop]
    · rw [hcall] at hreported
      exact absurd (Outcome.returned.inj (Option.some.inj hreported)) htimeout

/-- Ten bytes arrive while the timer fires: the receive reports a timeout. -/
theorem not_reportsSuccess_fired :
    ¬ ReportsSuccess (0 : Fin 1) 1 (MemView.of 65000) (Addr.new : Addr Nat) true 10 (-ETIME) :=
  fun h => absurd (h.returned (by decide)) (by decide)

end Hnet
