import Hnet.Lts
import Hnet.TaggedWord

/-!
# `five::EitherPtr2`

The pointer of `five/bit_ptr.h` to a value of one of several types. The index of the type is in the
low bits of the address, which its alignment leaves free.
-/

namespace Hnet

/-- `uintptr_t` -/
abbrev UIntPtr := BitVec 64

/-- The `log2` of the source rounds up. It is asserted that `n` is from `1` to `32`. -/
def log2 (n : Nat) : Nat :=
  if n ≤ 1 then 0
  else if n ≤ 2 then 1
  else if n ≤ 4 then 2
  else if n ≤ 8 then 3
  else if n ≤ 16 then 4
  else if n ≤ 32 then 5
  else 0

/-- `EitherPtr2<Args...>`, for any list of types. -/
structure EitherPtr2 {Ty : Type} (types : List Ty) where
  ptr : UIntPtr
  deriving DecidableEq, Repr

namespace EitherPtr2

variable {Ty : Type} (types : List Ty)

def bitCount : Nat := log2 types.length

def mask : UIntPtr := (1#64 <<< bitCount types) - 1#64

def alignment : Nat := 1 <<< bitCount types

variable {types}

def getRaw (p : EitherPtr2 types) : UIntPtr := p.ptr

def getBits (p : EitherPtr2 types) : UIntPtr := p.ptr &&& mask types

def getAligned (p : EitherPtr2 types) : UIntPtr := p.ptr &&& ~~~mask types

/-- `get<N>`, which casts the address to a pointer to the `N`-th type. -/
def get (_N : Fin types.length) (p : EitherPtr2 types) : UIntPtr := p.getAligned

/-- The result is an `int`. -/
def getIndex (p : EitherPtr2 types) : Int := (p.getBits.setWidth 32).toInt

def setBits (p : EitherPtr2 types) (bits : UIntPtr) : EitherPtr2 types :=
  let bits := bits &&& mask types
  let asInt := p.ptr
  let asInt := asInt &&& ~~~mask types
  let asInt := asInt ||| bits
  { ptr := asInt }

/-- The constructor from a raw pointer. -/
def ofRaw (ptr : UIntPtr) : EitherPtr2 types := { ptr := ptr }

/-- The run of a destructor, that of the type with an index on the object at an address. -/
structure Destruction where
  index : Int
  address : UIntPtr
  deriving DecidableEq, Repr

/-- What `~EitherPtr2` runs. The body of `destroy` is empty. -/
def destroy (_p : EitherPtr2 types) : List Destruction := []

/-- `construct<N>` on the memory that `operator new` returns. A `WHEELS_VERIFY` checks its
alignment. -/
def construct (N : Fin types.length) (raw : UIntPtr) : Option (EitherPtr2 types) :=
  if raw.toNat % alignment types = 0 then
    some ((ofRaw raw).setBits (BitVec.ofNat 64 N))
  else
    none

/-! ### Handles and their scopes -/

/-- A program that holds each object it constructs by one handle, which it neither copies nor wraps
again. -/
structure Handles (types : List Ty) where
  inScope : List (EitherPtr2 types)
  /-- the handles that went out of scope -/
  gone : List (EitherPtr2 types)
  /-- the memory handed out by `operator new` and not given back -/
  allocated : List UIntPtr
  destroyed : List Destruction
  deriving DecidableEq, Repr

namespace Handles

def init : Handles types := { inScope := [], gone := [], allocated := [], destroyed := [] }

inductive Event (types : List Ty) where
  /-- `construct<N>`, with the memory that `operator new` returns -/
  | construct (N : Fin types.length) (raw : UIntPtr)
  /-- the scope of the `i`-th handle ends -/
  | leave (i : Nat)
  deriving DecidableEq, Repr

def leave (s : Handles types) (i : Nat) (p : EitherPtr2 types) : Handles types where
  inScope := s.inScope.eraseIdx i
  gone := s.gone ++ [p]
  allocated := s.allocated.diff (p.destroy.map Destruction.address)
  destroyed := s.destroyed ++ p.destroy

def step (s : Handles types) : Event types → Option (Handles types)
  | .construct N raw =>
      if raw ∈ s.allocated then
        none
      else
        (EitherPtr2.construct N raw).map fun p =>
          { s with inScope := s.inScope ++ [p], allocated := raw :: s.allocated }
  | .leave i => s.inScope[i]?.map fun p => s.leave i p

end Handles

end EitherPtr2

section Log2

theorem log2_lt (n : Nat) : log2 n < 6 := by
  unfold log2
  grind

theorem le_two_pow_log2 {n : Nat} (hn : n ≤ 32) : n ≤ 2 ^ log2 n := by
  unfold log2
  grind

end Log2

end Hnet
