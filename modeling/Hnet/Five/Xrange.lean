import Mathlib.Algebra.Group.Int.Defs
import Mathlib.Data.List.Basic

/-!
# `five::xrange`

The range of `five/xrange.h` and the range-for over it. Arithmetic on `i64` is checked, since the
source leaves an overflow undefined, and a `WHEELS_ASSERT` that fails ends the computation.
-/

namespace Hnet

/-- How a computation of the library can go wrong. -/
inductive Fault where
  /-- of a signed operation -/
  | overflow
  | divisionByZero
  /-- a `WHEELS_ASSERT` -/
  | assertion
  deriving DecidableEq, Repr

/-- The `i64` operation with the exact result `x`. -/
def i64 (x : Int) : Except Fault Int64 :=
  if -2 ^ 63 ≤ x ∧ x < 2 ^ 63 then .ok (Int64.ofInt x) else .error .overflow

def i64Div (x y : Int) : Except Fault Int64 :=
  if y = 0 then .error .divisionByZero else i64 (x.tdiv y)

section Checked

theorem toInt_of_i64 {x : Int} {r : Int64} (h : i64 x = .ok r) : r.toInt = x := by
  unfold i64 at h
  split at h
  · rename_i hfits
    cases h
    exact Int64.toInt_ofInt_of_le hfits.1 hfits.2
  · cases h

/-- The computation has a result, unless an operation overflows. -/
def OkOrOverflow {α : Type} (x : Except Fault α) : Prop :=
  (∃ a, x = .ok a) ∨ x = .error .overflow

theorem okOrOverflow_i64 (x : Int) : OkOrOverflow (i64 x) := by
  unfold i64
  split
  · exact .inl ⟨_, rfl⟩
  · exact .inr rfl

theorem i64_ne_assertion (x : Int) : i64 x ≠ .error .assertion := by
  intro h
  obtain ⟨a, ha⟩ | hover := okOrOverflow_i64 x
  · rw [ha] at h
    cases h
  · rw [hover] at h
    cases h

theorem i64Div_zero (x : Int) : i64Div x 0 = .error .divisionByZero := if_pos rfl

theorem okOrOverflow_i64Div (x : Int) {y : Int} (hy : y ≠ 0) : OkOrOverflow (i64Div x y) := by
  rw [i64Div, if_neg hy]
  exact okOrOverflow_i64 _

section Bind

variable {α β : Type} {x : Except Fault α} {f : α → Except Fault β}

theorem okOrOverflow_bind (hx : OkOrOverflow x) (hf : ∀ a, OkOrOverflow (f a)) :
    OkOrOverflow (x >>= f) := by
  obtain ⟨a, rfl⟩ | rfl := hx
  · exact hf a
  · exact .inr rfl

theorem bind_eq_error {fault : Fault} (h : (x >>= f) = .error fault) :
    x = .error fault ∨ ∃ a, x = .ok a ∧ f a = .error fault := by
  cases x with
  | ok a => exact .inr ⟨a, rfl, h⟩
  | error fault' =>
      cases h
      exact .inl rfl

theorem bind_eq_ok {b : β} (h : (x >>= f) = .ok b) : ∃ a, x = .ok a ∧ f a = .ok b := by
  cases x with
  | ok a => exact ⟨a, rfl, h⟩
  | error fault => cases h

end Bind

end Checked

structure Xrange where
  start : Int64
  stop : Int64
  step : Int64
  deriving DecidableEq, Repr

/-- `Xrange::Iterator` -/
structure Xrange.Iterator where
  cur : Int64
  step : Int64
  deriving DecidableEq, Repr

namespace Xrange

namespace Iterator

/-- `operator!=` -/
def ne (it other : Iterator) : Bool := it.cur != other.cur

/-- `operator++`, with the assertion as the source has it: `WHEELS_ASSERT(!step_, "invalid")`. -/
def next (it : Iterator) : Except Fault Iterator :=
  if it.step = 0 then do
    let cur ← i64 (it.cur.toInt + it.step.toInt)
    return { it with cur := cur }
  else
    .error .assertion

end Iterator

/-- `calc_real_stop`: `start + ((stop - start - 1) / step + 1) * step`. -/
def calcRealStop (start stop step : Int64) : Except Fault Int64 := do
  let distance ← i64 (stop.toInt - start.toInt)
  let last ← i64 (distance.toInt - 1)
  let strides ← i64Div last.toInt step.toInt
  let terms ← i64 (strides.toInt + 1)
  let span ← i64 (terms.toInt * step.toInt)
  i64 (start.toInt + span.toInt)

/-- The constructor. The members are initialised before its body asserts `step != 0`. -/
def new (start stop step : Int64) : Except Fault Xrange := do
  let realStop ← calcRealStop start stop step
  if step = 0 then
    .error .assertion
  else
    return { start := start, stop := realStop, step := step }

def beginIterator (r : Xrange) : Iterator := { cur := r.start, step := r.step }

def endIterator (r : Xrange) : Iterator := { cur := r.start, step := r.step }

end Xrange

/-- The three overloads of `xrange`. -/
def xrange (stop : Int64) : Except Fault Xrange := Xrange.new 0 stop 1

def xrangeFrom (start stop : Int64) : Except Fault Xrange := Xrange.new start stop 1

def xrangeBy (start stop step : Int64) : Except Fault Xrange := Xrange.new start stop step

/-! ### The range-for -/

/-- What has become of a loop after a number of tests of its condition. -/
inductive Loop (σ : Type) where
  | done (s : σ)
  | failed (fault : Fault)
  | running
  deriving DecidableEq, Repr

/-- `for (; it != last; ++it)` over a state `s`, with a bound on the number of tests. -/
def loopFrom {σ : Type} (body : Int64 → σ → σ) (last : Xrange.Iterator) :
    Nat → Xrange.Iterator → σ → Loop σ
  | 0, _, _ => .running
  | tests + 1, it, s =>
      if it.ne last then
        match it.next with
        | .ok it' => loopFrom body last tests it' (body it.cur s)
        | .error fault => .failed fault
      else
        .done s

/-- `for (auto x : range) body` -/
def rangeFor {σ : Type} (range : Except Fault Xrange) (body : Int64 → σ → σ) (tests : Nat)
    (s : σ) : Loop σ :=
  match range with
  | .ok r => loopFrom body r.endIterator tests r.beginIterator s
  | .error fault => .failed fault

def visit (x : Int64) (visited : List Int64) : List Int64 := visited ++ [x]

section Lemmas

variable {r : Xrange}

/-- Both iterators start out at `start`, so a loop over a range is over at its first test. -/
theorem rangeFor_ok {σ : Type} (body : Int64 → σ → σ) (tests : Nat) (s : σ) :
    rangeFor (.ok r) body (tests + 1) s = .done s := by
  have hne : r.beginIterator.ne r.endIterator = false := bne_self_eq_false r.start
  simp only [rangeFor, loopFrom, hne, Bool.false_eq_true, if_false]

theorem rangeFor_done {σ : Type} {range : Except Fault Xrange} {body : Int64 → σ → σ} {tests : Nat}
    {s s' : σ} (h : rangeFor range body tests s = .done s') : s' = s := by
  cases range with
  | error fault => cases h
  | ok r =>
      cases tests with
      | zero => cases h
      | succ tests =>
          rw [rangeFor_ok] at h
          cases h
          rfl

end Lemmas

end Hnet
