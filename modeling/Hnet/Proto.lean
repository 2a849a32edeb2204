import Hnet.Decimal

/-!
# `serialize` and `deserialize`

The specialisations of `src/proto.cc` for `std::string` and `size_t`. `net::Buf` is not part of the
repository. What they rely on is that `Buf(k)` owns `k` bytes, which may hold anything, and that
`Buf()` owns none.
-/

namespace Hnet

/-- `net::Buf` -/
structure Buf where
  len : Nat
  data : Buffer len

/-- `Buf()` -/
def Buf.empty : Buf := { len := 0, data := Buffer.zero 0 }

/-- `serialize(const std::string&)` -/
def serializeString (_s : Bytes) : Buf := Buf.empty

/-- `serialize(const size_t&)`, with what `Buf(20)` holds at first. There is no result when
`sprintf` writes past the end. -/
def serializeSize (fresh : Buffer 20) (n : UInt64) : Option Buf :=
  let text := decimal n.toNat ++ [0]
  if h : 0 + text.length ≤ 20 then
    some { len := 20, data := fresh.write 0 text h }
  else
    none

/-- `deserialize<std::string>` -/
def deserializeString (buf : Buf) : Bytes := buf.data.read 0 buf.len

/-- `deserialize<size_t>`. There is no result when `strtoull` reads past the end. -/
def deserializeSize (buf : Buf) : Option UInt64 := strtoull buf.data.bytes

end Hnet
