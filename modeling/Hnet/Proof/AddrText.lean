import Hnet.Sockaddr

/-!
# The ways to an address

An address printed is the text it was made of, and the named constructors make what `from_parts`
makes of the texts of the same addresses. Of `ip4_local` this is not true: it assigns the constant
as the host keeps it, not as the network does.
-/

namespace Hnet

namespace Addr

/-! ### Printing -/

section Printing

variable {inet : Inet} {text : String} {addrlen : Nat}

theorem toString_sockaddrIn {sa : SockaddrIn} (hfamily : sa.sinFamily = AF_INET)
    (htext : inet.ntop4 sa.sinAddr = some text) :
    (⟨some sa.bytes, addrlen⟩ : Addr Bytes).toString inet
      = .text (text ++ ":" ++ Nat.repr (ntohs sa.sinPort).toNat) := by
  have hspec : ¬ AF_INET = AF_UNSPEC := by decide
  simp only [toString, saFamily_sockaddrIn, hfamily, if_neg hspec, if_pos, sinAddr_sockaddrIn,
    sinPort_sockaddrIn, print, htext]

theorem toString_sockaddrIn6 {sa : SockaddrIn6} (hfamily : sa.sin6Family = AF_INET6)
    (htext : inet.ntop6 sa.sin6Addr = some text) :
    (⟨some sa.bytes, addrlen⟩ : Addr Bytes).toString inet
      = .text ("[" ++ text ++ "]:" ++ Nat.repr (ntohs sa.sin6Port).toNat) := by
  have hspec : ¬ AF_INET6 = AF_UNSPEC := by decide
  have hinet : ¬ AF_INET6 = AF_INET := by decide
  simp only [toString, saFamily_sockaddrIn6, hfamily, if_neg hspec, if_neg hinet, if_pos,
    sin6Addr_sockaddrIn6, sinPort_sockaddrIn6, print, htext]

end Printing

/-! ### The constructions -/

/-- 127.0.0.1 in network byte order. -/
def loopback4 : InAddr := ⟨[127, 0, 0, 1], rfl⟩

inductive Named where
  | ip4Any
  | ip4Local
  | ip6Any
  | ip6Local
  deriving DecidableEq, Repr

namespace Named

def build : Named → UInt16 → Addr Bytes
  | .ip4Any => Addr.ip4Any
  | .ip4Local => Addr.ip4Local
  | .ip6Any => Addr.ip6Any
  | .ip6Local => Addr.ip6Local

def family : Named → IPFamily
  | .ip4Any | .ip4Local => .V4
  | .ip6Any | .ip6Local => .V6

def text : Named → String
  | .ip4Any => "0.0.0.0"
  | .ip4Local => "127.0.0.1"
  | .ip6Any => "::"
  | .ip6Local => "::1"

/-- What is documented of `inet_pton` for the text of a name: the address in network byte order. -/
def Documented (inet : Inet) : Named → Prop
  | .ip4Any => inet.pton4 "0.0.0.0" = some ⟨[0, 0, 0, 0], rfl⟩
  | .ip4Local => inet.pton4 "127.0.0.1" = some loopback4
  | .ip6Any => inet.pton6 "::" = some in6addrAny
  | .ip6Local => inet.pton6 "::1" = some in6addrLoopback

end Named

/-- An address made of the canonical text of an IPv4 or IPv6 address, or by name. -/
inductive Construction where
  | parts4 (ip : InAddr) (text : String) (port : UInt16)
  | parts6 (ip : In6Addr) (text : String) (port : UInt16)
  | named (name : Named) (port : UInt16)

/-- The bytes of the address that the family of the union says is there. -/
def ipBytes (addr : Addr Bytes) : Option Bytes :=
  if addr.saFamily = some AF_INET then addr.sinAddr.map Subtype.val
  else if addr.saFamily = some AF_INET6 then addr.sin6Addr.map Subtype.val
  else none

structure SameParts (addr other : Addr Bytes) : Prop where
  family : addr.saFamily = other.saFamily
  ip : addr.ipBytes = other.ipBytes
  port : addr.field 2 2 = other.field 2 2
  addrlen : addr.addrlen = other.addrlen

namespace Construction

/-- What is documented of `inet_pton` and `inet_ntop` for the address: each makes of its canonical
text, and of it, the other. -/
def Documented (inet : Inet) : Construction → Prop
  | .parts4 ip text _ => inet.ntop4 ip = some text ∧ inet.pton4 text = some ip
  | .parts6 ip text _ => inet.ntop6 ip = some text ∧ inet.pton6 text = some ip
  | .named name _ => name.Documented inet

/-- The address is printed as the text and the port it was made of. One made by name has the parts
of the one made of the text of that name. -/
def Agrees (inet : Inet) : Construction → Prop
  | .parts4 _ text port => ∃ addr, fromParts inet text port .V4 = some addr ∧
      addr.toString inet = .text (text ++ ":" ++ Nat.repr port.toNat)
  | .parts6 _ text port => ∃ addr, fromParts inet text port .V6 = some addr ∧
      addr.toString inet = .text ("[" ++ text ++ "]:" ++ Nat.repr port.toNat)
  | .named name port => ∃ addr, fromParts inet name.text port name.family = some addr ∧
      SameParts (name.build port) addr

end Construction

section Agreement

variable {inet : Inet}

theorem fromParts_fromSAddr {text : String} {sAddr : UInt32}
    (hpton : inet.pton4 text = some (InAddr.ofSAddr sAddr)) (port : UInt16) :
    fromParts inet text port .V4 = some (fromSAddr sAddr port) := by
  rw [fromParts, hpton, Option.map_some]
  rfl

theorem fromParts_fromIn6Addr {text : String} {in6 : In6Addr} (hpton : inet.pton6 text = some in6)
    (port : UInt16) : fromParts inet text port .V6 = some (fromIn6Addr in6 port) := by
  rw [fromParts, hpton, Option.map_some]
  rfl

theorem SameParts.refl (addr : Addr Bytes) : SameParts addr addr := ⟨rfl, rfl, rfl, rfl⟩

theorem ipBytes_sockaddrIn {addrlen : Nat} {sa : SockaddrIn} (hfamily : sa.sinFamily = AF_INET) :
    (⟨some sa.bytes, addrlen⟩ : Addr Bytes).ipBytes = some sa.sinAddr.val := by
  rw [ipBytes, saFamily_sockaddrIn, hfamily, if_pos rfl, sinAddr_sockaddrIn, Option.map_some]

/-- The constant in host byte order is another address. -/
theorem not_sameParts_ip4Local {addr : Addr Bytes}
    (hpton : inet.pton4 "127.0.0.1" = some loopback4) (port : UInt16)
    (hparts : fromParts inet "127.0.0.1" port .V4 = some addr) :
    ¬ SameParts (ip4Local port) addr := by
  rw [fromParts, hpton, Option.map_some] at hparts
  obtain rfl := Option.some.inj hparts
  intro hsame
  have hip := hsame.ip
  rw [ipBytes_sockaddrIn rfl, ip4Local, fromSAddr, ipBytes_sockaddrIn rfl] at hip
  have hne : (InAddr.ofSAddr INADDR_LOOPBACK).val ≠ loopback4.val := by decide
  exact hne (Option.some.inj hip)

theorem agrees_of_ne {x : Construction} (hinet : x.Documented inet)
    (hne : ∀ port, x ≠ .named .ip4Local port) : x.Agrees inet := by
  cases x with
  | parts4 ip text port =>
      obtain ⟨hntop, hpton⟩ := hinet
      refine ⟨_, by rw [fromParts, hpton, Option.map_some], ?_⟩
      rw [toString_sockaddrIn rfl hntop, ntohs_htons]
  | parts6 ip text port =>
      obtain ⟨hntop, hpton⟩ := hinet
      refine ⟨_, by rw [fromParts, hpton, Option.map_some], ?_⟩
      rw [toString_sockaddrIn6 rfl hntop, ntohs_htons]
  | named name port =>
      cases name with
      | ip4Any =>
          have hany : inet.pton4 "0.0.0.0" = some (InAddr.ofSAddr INADDR_ANY) := hinet
          exact ⟨_, fromParts_fromSAddr hany port, SameParts.refl _⟩
      | ip4Local => exact absurd rfl (hne port)
      | ip6Any => exact ⟨_, fromParts_fromIn6Addr hinet port, SameParts.refl _⟩
      | ip6Local => exact ⟨_, fromParts_fromIn6Addr hinet port, SameParts.refl _⟩

/-- **The ways to an address agree, `ip4_local` excepted.** -/
theorem agrees_iff (inet : Inet) (x : Construction) (hinet : x.Documented inet) :
    x.Agrees inet ↔ ∀ port, x ≠ .named .ip4Local port := by
  constructor
  · rintro hagrees port rfl
    obtain ⟨addr, hparts, hsame⟩ := hagrees
    exact not_sameParts_ip4Local hinet port hparts hsame
  · exact agrees_of_ne hinet

/-- `inet_pton` and `inet_ntop` as far as `127.0.0.1` goes. -/
def loopbackInet : Inet where
  pton4 text := if text = "127.0.0.1" then some loopback4 else none
  ntop4 ip := if ip = loopback4 then some "127.0.0.1" else none
  pton6 _ := none
  ntop6 _ := none

theorem agrees_loopback :
    (Construction.parts4 loopback4 "127.0.0.1" 8080).Agrees loopbackInet := by
  refine (agrees_iff loopbackInet (.parts4 loopback4 "127.0.0.1" 8080) ?_).mpr ?_
  · exact ⟨rfl, rfl⟩
  · exact fun _ heq => by cases heq

/-- `ip4_local` of any port, say 8080, is `1.0.0.127`. -/
theorem not_agrees_ip4Local : ¬ (Construction.named .ip4Local 8080).Agrees loopbackInet := by
  rintro ⟨addr, hparts, hsame⟩
  exact not_sameParts_ip4Local rfl 8080 hparts hsame

end Agreement

end Addr

end Hnet
