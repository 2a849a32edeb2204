import Hnet.Sockaddr

/-!
# netring's `net::Addr`

`netring/net.cc` and the formatter in `netring/net.h`. The union is a `sockaddr_in6` here, in all
ways to make one. Both printers leave the result of `inet_ntop` unread.
-/

namespace Hnet

def INET6_ADDRSTRLEN : Nat := 46

/-- `inet_ntop(AF_INET6, src, dst, size)`, `none` when it returns a null pointer. Then it has not
written to `dst`. -/
def inetNtop (inet : Inet) (src : In6Addr) (size : Nat) : Option String :=
  (inet.ntop6 src).filter fun text => text.utf8ByteSize < size

theorem inetNtop_of_lt {inet : Inet} {src : In6Addr} {text : String} {size : Nat}
    (htext : inet.ntop6 src = some text) (hsize : text.utf8ByteSize < size) :
    inetNtop inet src size = some text := by
  rw [inetNtop, htext, Option.filter_some, if_pos (decide_eq_true hsize)]

theorem of_inetNtop_eq {inet : Inet} {src : In6Addr} {text : String} {size : Nat}
    (h : inetNtop inet src size = some text) :
    inet.ntop6 src = some text ∧ text.utf8ByteSize < size := by
  obtain ⟨htext, hsize⟩ := Option.filter_eq_some_iff.mp h
  exact ⟨htext, of_decide_eq_true hsize⟩

theorem length_sockaddrIn6 (sa : SockaddrIn6) : sa.bytes.length = sizeofSockaddrIn6 := by
  have hip := sa.sin6Addr.property
  simp only [SockaddrIn6.bytes, List.length_append, ByteOrder.length_bytesOf, hip]
  rfl

namespace Netring

/-- The union holds its `addr6_`. -/
structure Addr where
  addr6 : SockaddrIn6
  addrlen : Nat
  deriving DecidableEq

namespace Addr

/-! ### The constructors -/

def fromIn6Addr (in6 : In6Addr) (port : UInt16) : Addr where
  addr6 :=
    { SockaddrIn6.zero with sin6Addr := in6, sin6Port := htons port, sin6Family := AF_INET6 }
  addrlen := sizeofSockaddrIn6

def ip6Any (port : UInt16) : Addr := fromIn6Addr in6addrAny port

def ip6Local (port : UInt16) : Addr := fromIn6Addr in6addrLoopback port

/-- `none` when its `SYSCALL_VERIFY` throws. -/
def fromParts (inet : Inet) (address : String) (port : UInt16) : Option Addr :=
  (inet.pton6 address).map fun ip =>
    { addr6 :=
        { SockaddrIn6.zero with sin6Family := AF_INET6, sin6Port := htons port, sin6Addr := ip }
      addrlen := sizeofSockaddrIn6 }

def fromAddrIn6 (addrIn6 : SockaddrIn6) : Addr where
  addr6 := addrIn6
  addrlen := sizeofSockaddrIn6

/-! ### The printers -/

/-- The sixteen bytes at `&addr.addr6_`. -/
def front (addr : Addr) : In6Addr := ⟨addr.addr6.bytes.take 16, by
  rw [List.length_take, length_sockaddrIn6]
  rfl⟩

/-- `to_string`, `none` when it returns an array that nothing has been written to. -/
def toString (inet : Inet) (addr : Addr) : Option String :=
  inetNtop inet addr.addr6.sin6Addr INET6_ADDRSTRLEN

/-- The `format` of the formatter, likewise. It gives `inet_ntop` the address of the whole
`sockaddr_in6`, and its size. -/
def format (inet : Inet) (addr : Addr) : Option String :=
  (inetNtop inet addr.front addr.addrlen).map fun buf =>
    buf ++ ":" ++ Nat.repr (ntohs addr.addr6.sin6Port).toNat

end Addr

end Netring

end Hnet
