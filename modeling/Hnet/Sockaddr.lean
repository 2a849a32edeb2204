import Hnet.ByteOrder
import Hnet.Submitter

/-!
# `net::Addr` in memory

`ring2/addr.cc` on a little-endian host. The union is the bytes that have been written to it from
its start, and each member is read at its own offsets. What `inet_pton` and `inet_ntop` make of a
text and of an address is a parameter.
-/

namespace Hnet

open ByteOrder

def AF_UNSPEC : UInt16 := 0

def AF_INET : UInt16 := 2

def AF_INET6 : UInt16 := 10

def htons (hostshort : UInt16) : UInt16 := UInt16.ofNat (swap 2 hostshort.toNat)

def ntohs (netshort : UInt16) : UInt16 := UInt16.ofNat (swap 2 netshort.toNat)

/-! ### The members of the union -/

/-- `struct in_addr` and `struct in6_addr` in network byte order. -/
abbrev InAddr := { bytes : Bytes // bytes.length = 4 }

abbrev In6Addr := { bytes : Bytes // bytes.length = 16 }

/-- The address that an assignment to `s_addr` leaves in memory. -/
def InAddr.ofSAddr (sAddr : UInt32) : InAddr := ⟨bytesOf 4 sAddr.toNat, length_bytesOf 4 _⟩

def INADDR_ANY : UInt32 := 0

def INADDR_LOOPBACK : UInt32 := 0x7f000001

def in6addrAny : In6Addr := ⟨List.replicate 16 0, List.length_replicate⟩

def in6addrLoopback : In6Addr := ⟨List.replicate 15 0 ++ [1], rfl⟩

structure SockaddrIn where
  sinFamily : UInt16
  sinPort : UInt16
  sinAddr : InAddr
  sinZero : { bytes : Bytes // bytes.length = 8 }
  deriving DecidableEq

structure SockaddrIn6 where
  sin6Family : UInt16
  sin6Port : UInt16
  sin6Flowinfo : UInt32
  sin6Addr : In6Addr
  sin6ScopeId : UInt32
  deriving DecidableEq

def sizeofSockaddrIn : Nat := 16

def sizeofSockaddrIn6 : Nat := 28

/-- After `memset` -/
def SockaddrIn.zero : SockaddrIn where
  sinFamily := 0
  sinPort := 0
  sinAddr := ⟨List.replicate 4 0, List.length_replicate⟩
  sinZero := ⟨List.replicate 8 0, List.length_replicate⟩

def SockaddrIn6.zero : SockaddrIn6 where
  sin6Family := 0
  sin6Port := 0
  sin6Flowinfo := 0
  sin6Addr := ⟨List.replicate 16 0, List.length_replicate⟩
  sin6ScopeId := 0

def SockaddrIn.bytes (sa : SockaddrIn) : Bytes :=
  bytesOf 2 sa.sinFamily.toNat ++ (bytesOf 2 sa.sinPort.toNat
    ++ (sa.sinAddr.val ++ sa.sinZero.val))

def SockaddrIn6.bytes (sa : SockaddrIn6) : Bytes :=
  bytesOf 2 sa.sin6Family.toNat ++ (bytesOf 2 sa.sin6Port.toNat
    ++ (bytesOf 4 sa.sin6Flowinfo.toNat ++ (sa.sin6Addr.val ++ bytesOf 4 sa.sin6ScopeId.toNat)))

/-! ### Texts -/

inductive IPFamily where
  | V4
  | V6
  deriving DecidableEq, Repr

/-- `inet_pton` of the C string of a text, `none` when it does not return 1, and `inet_ntop` into a
buffer that is long enough, `none` when it returns a null pointer. -/
structure Inet where
  pton4 : String → Option InAddr
  ntop4 : InAddr → Option String
  pton6 : String → Option In6Addr
  ntop6 : In6Addr → Option String

/-- What becomes of a call of `to_string`. -/
inductive AddrText where
  | text (s : String)
  /-- `SYSCALL_VERIFY` -/
  | threw
  /-- `WHEELS_PANIC("unreachable")` -/
  | panicked
  /-- it reads a part of the union that nothing has been written to -/
  | uninitialised
  deriving DecidableEq, Repr

namespace Addr

/-! ### The constructors -/

def fromIn6Addr (in6 : In6Addr) (port : UInt16) : Addr Bytes where
  sockaddr := some
    { SockaddrIn6.zero with
      sin6Addr := in6, sin6Port := htons port, sin6Family := AF_INET6 }.bytes
  addrlen := sizeofSockaddrIn6

def ip6Any (port : UInt16) : Addr Bytes := fromIn6Addr in6addrAny port

def ip6Local (port : UInt16) : Addr Bytes := fromIn6Addr in6addrLoopback port

/-- What `ip4_any` and `ip4_local` do with a constant. -/
def fromSAddr (sAddr : UInt32) (port : UInt16) : Addr Bytes where
  sockaddr := some
    { SockaddrIn.zero with
      sinFamily := AF_INET, sinPort := htons port, sinAddr := InAddr.ofSAddr sAddr }.bytes
  addrlen := sizeofSockaddrIn

def ip4Any (port : UInt16) : Addr Bytes := fromSAddr INADDR_ANY port

def ip4Local (port : UInt16) : Addr Bytes := fromSAddr INADDR_LOOPBACK port

/-- `Addr::from_parts`, `none` when its `SYSCALL_VERIFY` throws. -/
def fromParts (inet : Inet) (address : String) (port : UInt16) : IPFamily → Option (Addr Bytes)
  | .V4 =>
      (inet.pton4 address).map fun ip =>
        { sockaddr := some
            { SockaddrIn.zero with
              sinFamily := AF_INET, sinPort := htons port, sinAddr := ip }.bytes
          addrlen := sizeofSockaddrIn }
  | .V6 =>
      (inet.pton6 address).map fun ip =>
        { sockaddr := some
            { SockaddrIn6.zero with
              sin6Family := AF_INET6, sin6Port := htons port, sin6Addr := ip }.bytes
          addrlen := sizeofSockaddrIn6 }

def fromAddrIn6 (addrIn6 : SockaddrIn6) : Addr Bytes where
  sockaddr := some addrIn6.bytes
  addrlen := sizeofSockaddrIn6

/-! ### The printer -/

/-- `len` bytes of the union from `off` on, if they have all been written. -/
def field (addr : Addr Bytes) (off len : Nat) : Option { bytes : Bytes // bytes.length = len } :=
  addr.sockaddr.bind fun bytes =>
    if h : off + len ≤ bytes.length then
      some ⟨(bytes.drop off).take len, by
        rw [List.length_take, List.length_drop]
        omega⟩
    else
      none

def u16At (addr : Addr Bytes) (off : Nat) : Option UInt16 :=
  (addr.field off 2).map fun bytes => UInt16.ofNat (ofBytes bytes.val)

/-- `addr_.sa_family` -/
def saFamily (addr : Addr Bytes) : Option UInt16 := addr.u16At 0

/-- `addr4_.sin_port` and `addr6_.sin6_port` are at the same place. -/
def sinPort (addr : Addr Bytes) : Option UInt16 := addr.u16At 2

def sinAddr (addr : Addr Bytes) : Option InAddr := addr.field 4 4

def sin6Addr (addr : Addr Bytes) : Option In6Addr := addr.field 8 16

/-- What the cases of `to_string` have in common: `inet_ntop`, then `fmt::format` of its text and
the port. -/
def print {I : Type} (ntop : I → Option String) (format : String → String → String)
    (ip : Option I) (port : Option UInt16) : AddrText :=
  match ip, port with
  | some ip, some port =>
      match ntop ip with
      | some ipStr => .text (format ipStr (Nat.repr (ntohs port).toNat))
      | none => .threw
  | _, _ => .uninitialised

def toString (inet : Inet) (addr : Addr Bytes) : AddrText :=
  match addr.saFamily with
  | none => .uninitialised
  | some family =>
      if family = AF_UNSPEC then
        .text "(null)"
      else if family = AF_INET then
        print inet.ntop4 (fun ip port => ip ++ ":" ++ port) addr.sinAddr addr.sinPort
      else if family = AF_INET6 then
        print inet.ntop6 (fun ip port => "[" ++ ip ++ "]:" ++ port) addr.sin6Addr addr.sinPort
      else
        .panicked

/-! ### What the members read back -/

section Fields

variable {before bytes after : Bytes} {addrlen off len : Nat}

theorem field_of_append (hoff : before.length = off) (hlen : bytes.length = len) :
    (⟨some (before ++ (bytes ++ after)), addrlen⟩ : Addr Bytes).field off len
      = some ⟨bytes, hlen⟩ := by
  have hle : off + len ≤ (before ++ (bytes ++ after)).length := by
    rw [List.length_append, List.length_append]
    omega
  rw [field, Option.bind_some, dif_pos hle]
  refine congrArg some (Subtype.ext ?_)
  change ((before ++ (bytes ++ after)).drop off).take len = bytes
  rw [List.drop_left' hoff, List.take_left' hlen]

theorem u16At_of_append (hoff : before.length = off) (x : UInt16) :
    (⟨some (before ++ (bytesOf 2 x.toNat ++ after)), addrlen⟩ : Addr Bytes).u16At off
      = some x := by
  rw [u16At, field_of_append hoff (length_bytesOf 2 _), Option.map_some,
    ofBytes_bytesOf x.toNat_lt, UInt16.ofNat_toNat]

@[simp]
theorem saFamily_sockaddrIn (sa : SockaddrIn) :
    (⟨some sa.bytes, addrlen⟩ : Addr Bytes).saFamily = some sa.sinFamily :=
  u16At_of_append (List.length_nil) sa.sinFamily

@[simp]
theorem saFamily_sockaddrIn6 (sa : SockaddrIn6) :
    (⟨some sa.bytes, addrlen⟩ : Addr Bytes).saFamily = some sa.sin6Family :=
  u16At_of_append (List.length_nil) sa.sin6Family

@[simp]
theorem sinPort_sockaddrIn (sa : SockaddrIn) :
    (⟨some sa.bytes, addrlen⟩ : Addr Bytes).sinPort = some sa.sinPort :=
  u16At_of_append (length_bytesOf 2 _) sa.sinPort

@[simp]
theorem sinPort_sockaddrIn6 (sa : SockaddrIn6) :
    (⟨some sa.bytes, addrlen⟩ : Addr Bytes).sinPort = some sa.sin6Port :=
  u16At_of_append (length_bytesOf 2 _) sa.sin6Port

@[simp]
theorem sinAddr_sockaddrIn (sa : SockaddrIn) :
    (⟨some sa.bytes, addrlen⟩ : Addr Bytes).sinAddr = some sa.sinAddr := by
  rw [SockaddrIn.bytes, ← List.append_assoc]
  exact field_of_append (by rw [List.length_append, length_bytesOf, length_bytesOf])
    sa.sinAddr.property

@[simp]
theorem sin6Addr_sockaddrIn6 (sa : SockaddrIn6) :
    (⟨some sa.bytes, addrlen⟩ : Addr Bytes).sin6Addr = some sa.sin6Addr := by
  rw [SockaddrIn6.bytes, ← List.append_assoc, ← List.append_assoc]
  exact field_of_append
    (by rw [List.length_append, List.length_append, length_bytesOf, length_bytesOf, length_bytesOf])
    sa.sin6Addr.property

end Fields

theorem length_sockaddrIn (sa : SockaddrIn) : sa.bytes.length = sizeofSockaddrIn := by
  have hip := sa.sinAddr.property
  have hzero := sa.sinZero.property
  simp only [SockaddrIn.bytes, List.length_append, length_bytesOf, hip, hzero]
  rfl

theorem ntohs_htons (port : UInt16) : ntohs (htons port) = port := by
  rw [ntohs, htons, UInt16.toNat_ofNat_of_lt' (swap_lt 2 _), swap_swap port.toNat_lt,
    UInt16.ofNat_toNat]

end Addr

end Hnet
