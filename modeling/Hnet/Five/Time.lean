import Hnet.Five.Xrange

/-!
# Instants and durations

`five/time.h` and `five/time.cc`: nanoseconds in an `i64`, their arithmetic, the conversion to and
from a timespec, and how a duration is printed.
-/

namespace Hnet

/-- `five::detail::TimeBase`. An `Instant` and a `Duration` are one each. -/
structure TimeBase where
  nanos : Int64
  deriving DecidableEq, Repr

abbrev Instant := TimeBase

abbrev Duration := TimeBase

/-- `struct timespec` and `struct __kernel_timespec`, which have the same two members. -/
structure Timespec where
  tvSec : Int64
  tvNsec : Int64
  deriving DecidableEq, Repr

theorem i64_toInt (x : Int64) : i64 x.toInt = .ok x := by
  rw [i64, if_pos ⟨x.le_toInt, x.toInt_lt⟩, Int64.ofInt_toInt]

theorem i64_of_fits {x : Int} (hlow : -2 ^ 63 ≤ x) (hhigh : x < 2 ^ 63) :
    i64 x = .ok (Int64.ofInt x) := if_pos ⟨hlow, hhigh⟩

/-- What a cast of an `i64` to `size_t` gives. -/
theorem toNat_toUInt64 (x : Int64) : (x.toUInt64.toNat : Int) = x.toInt % 2 ^ 64 := by
  have hbits : x.toUInt64.toNat = x.toBitVec.toNat := rfl
  have hsigned : x.toInt = x.toBitVec.toInt := rfl
  have hcond := x.toBitVec.toInt_eq_toNat_cond
  have hlt := x.toBitVec.isLt
  rw [hbits, hsigned]
  omega

namespace TimeBase

/-- The constructor from a `timespec`. -/
def ofTimespec (ts : Timespec) : Except Fault TimeBase := do
  let secs ← i64 (ts.tvSec.toInt * 1000000000)
  let nanos ← i64 (secs.toInt + ts.tvNsec.toInt)
  return { nanos := nanos }

def asTimespec (t : TimeBase) : Timespec where
  tvSec := t.nanos / 1000000000
  tvNsec := t.nanos % 1000000000

def asKernelTimespec (t : TimeBase) : Timespec where
  tvSec := t.nanos / 1000000000
  tvNsec := t.nanos % 1000000000

/-- `operator+` -/
def add (t other : TimeBase) : Except Fault TimeBase := do
  let nanos ← i64 (t.nanos.toInt + other.nanos.toInt)
  return { nanos := nanos }

/-- `micros()` -/
def micros (t : TimeBase) : Int64 := t.nanos / 1000

/-- `operator<` -/
def lt (t other : TimeBase) : Bool := t.nanos < other.nanos

end TimeBase

/-! ### Printing -/

/-- What `operator<<` puts out: a number and the unit behind it. -/
structure Printed where
  value : Int64
  unit : String
  deriving DecidableEq, Repr

def Printed.text (p : Printed) : String := toString p.value ++ p.unit

/-- The three cascaded tests of `operator<<`. Each of them is on the nanoseconds themselves. -/
def scaleAndUnit (nanos : Int64) : Int64 × String :=
  let s : Int64 × String := (1, "ns")
  let s := if 2000 < nanos then (s.1 * 1000, "us") else s
  let s := if 2000000 < nanos then (s.1 * 1000, "ms") else s
  if 2000000000 < nanos then (s.1 * 1000, "s") else s

/-- `operator<<` -/
def Duration.print (dur : Duration) : Printed where
  value := dur.nanos / (scaleAndUnit dur.nanos).1
  unit := (scaleAndUnit dur.nanos).2

/-- The nanoseconds that a unit stands for. -/
def unitNanos : String → Option Int
  | "ns" => some 1
  | "us" => some 1000
  | "ms" => some 1000000
  | "s" => some 1000000000
  | _ => none

end Hnet
