import Hnet.Five.Time
import Hnet.Rounding
import Mathlib.Data.List.Sort

/-!
# The report of the UDP client

What `infallible_udp.cc` computes from the timings once its fibers have joined. The first 1000
records are cut off when there are more, and nothing is asked when there is none.
-/

namespace Hnet

/-- A number as a `double`, which has 53 significant bits. No result here leaves the range of its
exponents. -/
def double (x : ℚ) : ℚ := Rounding.round 53 x

/-- In percent. -/
def quantiles : List ℚ := [50, 90, 95, 99, 99.9, 99.99]

/-- `size_t(timings.size() * (quantile / 100.))` -/
def quantileIdx (size : Nat) (quantile : ℚ) : Nat :=
  ⌊double (double size * double (double quantile / 100))⌋₊

/-- `std::accumulate` from `five::Duration()` on. -/
def accumulate (timings : List Duration) : Except Fault Duration :=
  timings.foldlM TimeBase.add { nanos := 0 }

/-- The sum is an `i64` and the size a `size_t`, so the division is one of `size_t`. -/
def average (timings : List Duration) : Except Fault Nat := do
  let sum ← accumulate timings
  if timings.length = 0 then
    .error .divisionByZero
  else
    return sum.nanos.toUInt64.toNat / timings.length

/-- The values reported, `none` for an access outside of the vector. -/
structure Report where
  avg : Except Fault Nat
  min : Option Duration
  max : Option Duration
  quantiles : List (Option Duration)
  deriving DecidableEq

/-- `std::sort` and what is taken from the sorted vector, in which no element is less than one in
front of it. -/
def statistics (timings : List Duration) : Report :=
  let timings := timings.insertionSort fun t other => other.lt t = false
  { avg := average timings
    min := timings[0]?
    max := timings[timings.length - 1]?
    quantiles := quantiles.map fun quantile => timings[quantileIdx timings.length quantile]? }

/-- The first 1000 records go when there are more of them. -/
def cutFirst (timings : List Duration) : List Duration :=
  if 1000 < timings.length then timings.drop 1000 else timings

def report (timings : List Duration) : Report := statistics (cutFirst timings)

/-! ### The report of the other client -/

/-- The average of `cli.cc` is one of microseconds. Here too an `i64` is divided by a `size_t`. -/
def averageMicros (timings : List Duration) : Except Fault Nat := do
  let sum ← accumulate timings
  if timings.length = 0 then
    .error .divisionByZero
  else
    return sum.micros.toUInt64.toNat / timings.length

/-- The rest of its report is computed the same way. -/
def cliReport (timings : List Duration) : Report :=
  let timings := cutFirst timings
  { statistics timings with
    avg := averageMicros (timings.insertionSort fun t other => other.lt t = false) }

end Hnet
