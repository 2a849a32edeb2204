import Hnet.Proof.AddrText
import Hnet.TcpServer

/-!
# Which addresses are handed out

An address is valid when its union has been initialised with a family that the printer knows and its
length is that of the family. A receive keeps the length that the constructor has set and leaves the
union as it is when the kernel has no name to write. So only a receive of a name as long as
`sockaddr_in6` gives a valid address.
-/

namespace Hnet

open ByteOrder

/-- The name of a peer as the kernel has it: a family and what belongs to it, in the size of the two
families of the internet. -/
structure PeerName where
  family : UInt16
  rest : Bytes
  size_inet : family = AF_INET → rest.length + 2 = sizeofSockaddrIn
  size_inet6 : family = AF_INET6 → rest.length + 2 = sizeofSockaddrIn6

namespace PeerName

def bytes (name : PeerName) : Bytes := bytesOf 2 name.family.toNat ++ name.rest

def ofIn (sa : SockaddrIn) (hfamily : sa.sinFamily = AF_INET) : PeerName where
  family := sa.sinFamily
  rest := sa.bytes.drop 2
  size_inet _ := by
    rw [List.length_drop, Addr.length_sockaddrIn]
    rfl
  size_inet6 hfamily6 := absurd (hfamily.symm.trans hfamily6) (by decide)

theorem length_bytes (name : PeerName) : name.bytes.length = name.rest.length + 2 := by
  rw [bytes, List.length_append, length_bytesOf, Nat.add_comm]

end PeerName

namespace Addr

/-- The kernel has written a name in what was handed to it as `addr_` and `addrlen_`. It cuts off
what does not fit, and gives the full length. -/
def accepted (name : PeerName) : Addr Bytes where
  sockaddr := some (name.bytes.take (Addr.new : Addr Bytes).addrlen)
  addrlen := name.bytes.length

/-- The kernel has written the name of a datagram's sender to `msg_name`, and its length to
`msg_namelen`, or nothing to both: from a stream, or when it fails. -/
def received (name : Option PeerName) : Addr Bytes :=
  { (Addr.new : Addr Bytes) with
    sockaddr := name.map fun name => name.bytes.take (Addr.new : Addr Bytes).addrlen }

/-- The family is initialised, and the length is that of the family. -/
def Valid (addr : Addr Bytes) : Prop :=
  addr.saFamily = some AF_UNSPEC ∨
    (addr.saFamily = some AF_INET ∧ addr.addrlen = sizeofSockaddrIn) ∨
    (addr.saFamily = some AF_INET6 ∧ addr.addrlen = sizeofSockaddrIn6)

instance (addr : Addr Bytes) : Decidable addr.Valid := by
  unfold Valid
  infer_instance

theorem print_ne_panicked {I : Type} (ntop : I → Option String)
    (format : String → String → String) (ip : Option I) (port : Option UInt16) :
    print ntop format ip port ≠ .panicked := by
  unfold print
  intro h
  split at h
  · split at h <;> cases h
  · cases h

theorem Valid.toString_ne_panicked {addr : Addr Bytes} (h : addr.Valid) (inet : Inet) :
    addr.toString inet ≠ .panicked := by
  rcases h with hfamily | ⟨hfamily, _⟩ | ⟨hfamily, _⟩
  · rw [toString, hfamily]
    intro h
    cases h
  · rw [toString, hfamily]
    exact print_ne_panicked _ _ _ _
  · rw [toString, hfamily]
    exact print_ne_panicked _ _ _ _

section Written

variable {addrlen : Nat}

theorem valid_sockaddrIn {sa : SockaddrIn} (hfamily : sa.sinFamily = AF_INET) :
    (⟨some sa.bytes, sizeofSockaddrIn⟩ : Addr Bytes).Valid :=
  Or.inr (Or.inl ⟨by rw [saFamily_sockaddrIn, hfamily], rfl⟩)

theorem valid_sockaddrIn6 {sa : SockaddrIn6} (hfamily : sa.sin6Family = AF_INET6) :
    (⟨some sa.bytes, sizeofSockaddrIn6⟩ : Addr Bytes).Valid :=
  Or.inr (Or.inr ⟨by rw [saFamily_sockaddrIn6, hfamily], rfl⟩)

theorem saFamily_name (name : PeerName) :
    (⟨some (name.bytes.take (Addr.new : Addr Bytes).addrlen), addrlen⟩ : Addr Bytes).saFamily
      = some name.family := by
  rw [PeerName.bytes, List.take_append, List.take_of_length_le (by rw [length_bytesOf]; decide)]
  exact u16At_of_append List.length_nil name.family

theorem valid_accepted (name : PeerName) :
    (accepted name).Valid ↔
      name.family = AF_UNSPEC ∨ name.family = AF_INET ∨ name.family = AF_INET6 := by
  have hfamily : (accepted name).saFamily = some name.family := saFamily_name name
  have hlen : (accepted name).addrlen = name.rest.length + 2 := name.length_bytes
  rw [Valid, hfamily, hlen, Option.some_inj, Option.some_inj, Option.some_inj]
  constructor
  · rintro (h | ⟨h, _⟩ | ⟨h, _⟩)
    · exact Or.inl h
    · exact Or.inr (Or.inl h)
    · exact Or.inr (Or.inr h)
  · rintro (h | h | h)
    · exact Or.inl h
    · exact Or.inr (Or.inl ⟨h, name.size_inet h⟩)
    · exact Or.inr (Or.inr ⟨h, name.size_inet6 h⟩)

theorem valid_received (name : Option PeerName) :
    (received name).Valid ↔ ∃ peer, name = some peer ∧
      (peer.family = AF_UNSPEC ∨ peer.family = AF_INET6) := by
  cases name with
  | none =>
      refine iff_of_false ?_ (by rintro ⟨_, h, _⟩; cases h)
      rintro (h | ⟨h, _⟩ | ⟨h, _⟩) <;> cases h
  | some peer =>
      have hfamily : (received (some peer)).saFamily = some peer.family := saFamily_name peer
      have hlen : (received (some peer)).addrlen = sizeofSockaddrIn6 := rfl
      rw [Valid, hfamily, hlen, Option.some_inj, Option.some_inj, Option.some_inj]
      constructor
      · rintro (h | ⟨_, h⟩ | ⟨h, _⟩)
        · exact ⟨peer, rfl, Or.inl h⟩
        · exact absurd h (by decide)
        · exact ⟨peer, rfl, Or.inr h⟩
      · rintro ⟨other, hother, h⟩
        obtain rfl := Option.some.inj hother
        exact h.imp id fun h => Or.inr ⟨h, rfl⟩

end Written

end Addr

/-- The operations that hand an address to their caller, with what the kernel gives them. -/
inductive AddrSource where
  | ip4Any (port : UInt16)
  | ip4Local (port : UInt16)
  | ip6Any (port : UInt16)
  | ip6Local (port : UInt16)
  | fromParts (address : String) (port : UInt16) (family : IPFamily)
  | fromAddrIn6 (addrIn6 : SockaddrIn6) (hfamily : addrIn6.sin6Family = AF_INET6)
  | accept (res : Int) (name : PeerName)
  | recvmsgHdr (data : Buffer 65000) (res : Int) (name : Option PeerName)
  | recvmsg (buf : MemView) (res : Int) (name : Option PeerName)
  | recvmsgDur (buf : MemView) (outcome : Outcome) (name : Option PeerName)

namespace AddrSource

def handed (inet : Inet) : AddrSource → Option (Addr Bytes)
  | .ip4Any port => some (Addr.ip4Any port)
  | .ip4Local port => some (Addr.ip4Local port)
  | .ip6Any port => some (Addr.ip6Any port)
  | .ip6Local port => some (Addr.ip6Local port)
  | .fromParts address port family => Addr.fromParts inet address port family
  | .fromAddrIn6 addrIn6 _ => some (Addr.fromAddrIn6 addrIn6)
  | .accept res name => (Hnet.accept res (Addr.accepted name)).map Prod.snd
  | .recvmsgHdr data res name => some (Hnet.recvmsgHdr data (Addr.received name) res).addr
  | .recvmsg buf res name => some (readView buf (Addr.received name) res).addr
  | .recvmsgDur buf outcome name =>
      (Hnet.recvmsgDur buf (Addr.received name) outcome).map ReadView.addr

/-- What is handed out is valid, and printing it does not reach the panic. -/
def HandsOutValid (inet : Inet) (x : AddrSource) : Prop :=
  ∀ addr, x.handed inet = some addr → addr.Valid ∧ addr.toString inet ≠ .panicked

/-- The kernel has written a name that the operation takes over as it is: a receive one as long as
`sockaddr_in6`. The operations without the kernel need none. -/
def NameTaken : AddrSource → Prop
  | .accept res name =>
      0 ≤ res → name.family = AF_UNSPEC ∨ name.family = AF_INET ∨ name.family = AF_INET6
  | .recvmsgHdr _ _ name | .recvmsg _ _ name =>
      ∃ peer, name = some peer ∧ (peer.family = AF_UNSPEC ∨ peer.family = AF_INET6)
  | .recvmsgDur _ outcome name =>
      (∃ res, outcome = .returned res) →
        ∃ peer, name = some peer ∧ (peer.family = AF_UNSPEC ∨ peer.family = AF_INET6)
  | _ => True

theorem handsOutValid_of_valid {inet : Inet} {x : AddrSource}
    (h : ∀ addr, x.handed inet = some addr → addr.Valid) : x.HandsOutValid inet :=
  fun addr haddr => ⟨h addr haddr, (h addr haddr).toString_ne_panicked inet⟩

theorem handsOutValid_of_handed {inet : Inet} {x : AddrSource} {addr : Addr Bytes}
    (h : x.handed inet = some addr) : x.HandsOutValid inet ↔ addr.Valid := by
  constructor
  · intro hall
    exact (hall addr h).1
  · intro hvalid
    apply handsOutValid_of_valid
    intro other hother
    obtain rfl := Option.some.inj (h.symm.trans hother)
    exact hvalid

theorem handsOutValid_of_none {inet : Inet} {x : AddrSource} (h : x.handed inet = none) :
    x.HandsOutValid inet := by
  apply handsOutValid_of_valid
  intro addr haddr
  cases h.symm.trans haddr

theorem valid_fromParts {inet : Inet} {address : String} {port : UInt16} {family : IPFamily}
    {addr : Addr Bytes} (h : Addr.fromParts inet address port family = some addr) : addr.Valid := by
  cases family with
  | V4 =>
      obtain ⟨ip, _, rfl⟩ := Option.map_eq_some_iff.mp h
      exact Addr.valid_sockaddrIn rfl
  | V6 =>
      obtain ⟨ip, _, rfl⟩ := Option.map_eq_some_iff.mp h
      exact Addr.valid_sockaddrIn6 rfl

/-- **An operation hands out valid addresses exactly when it takes over the name that the kernel has
written, if it needs one.** -/
theorem handsOutValid_iff (inet : Inet) (x : AddrSource) : x.HandsOutValid inet ↔ x.NameTaken := by
  cases x with
  | ip4Any port =>
      exact iff_of_true ((handsOutValid_of_handed rfl).mpr (Addr.valid_sockaddrIn rfl)) trivial
  | ip4Local port =>
      exact iff_of_true ((handsOutValid_of_handed rfl).mpr (Addr.valid_sockaddrIn rfl)) trivial
  | ip6Any port =>
      exact iff_of_true ((handsOutValid_of_handed rfl).mpr (Addr.valid_sockaddrIn6 rfl)) trivial
  | ip6Local port =>
      exact iff_of_true ((handsOutValid_of_handed rfl).mpr (Addr.valid_sockaddrIn6 rfl)) trivial
  | fromParts address port family =>
      exact iff_of_true (handsOutValid_of_valid fun _ => valid_fromParts) trivial
  | fromAddrIn6 addrIn6 hfamily =>
      exact iff_of_true ((handsOutValid_of_handed rfl).mpr (Addr.valid_sockaddrIn6 hfamily)) trivial
  | accept res name =>
      by_cases hneg : res < 0
      · have hnone : (AddrSource.accept res name).handed inet = none := by
          rw [handed, Hnet.accept, if_pos hneg, Option.map_none]
        exact iff_of_true (handsOutValid_of_none hnone) fun hpos => absurd hneg (not_lt.mpr hpos)
      · have hsome : (AddrSource.accept res name).handed inet = some (Addr.accepted name) := by
          rw [handed, Hnet.accept, if_neg hneg, Option.map_some]
        rw [handsOutValid_of_handed hsome, Addr.valid_accepted, NameTaken]
        exact ⟨fun h _ => h, fun h => h (not_lt.mp hneg)⟩
  | recvmsgHdr data res name =>
      exact (handsOutValid_of_handed rfl).trans (Addr.valid_received name)
  | recvmsg buf res name =>
      exact (handsOutValid_of_handed rfl).trans (Addr.valid_received name)
  | recvmsgDur buf outcome name =>
      cases outcome with
      | returned res =>
          refine (handsOutValid_of_handed rfl).trans ((Addr.valid_received name).trans ?_)
          exact ⟨fun h _ => h, fun h => h ⟨res, rfl⟩⟩
      | threw code =>
          exact iff_of_true (handsOutValid_of_none rfl) (by rintro ⟨_, h⟩; cases h)
      | panicked =>
          exact iff_of_true (handsOutValid_of_none rfl) (by rintro ⟨_, h⟩; cases h)

/-- A sender with an IPv4 address: 127.0.0.1, port 5000. -/
def localSender : SockaddrIn :=
  { SockaddrIn.zero with
    sinFamily := AF_INET, sinPort := htons 5000, sinAddr := Addr.loopback4 }

/-- The length of the address of a datagram from there is that of `sockaddr_in6`. -/
theorem not_handsOutValid_datagram :
    ¬ (AddrSource.recvmsg (MemView.of 65000) 5
      (some (PeerName.ofIn localSender rfl))).HandsOutValid Addr.loopbackInet := by
  rw [handsOutValid_of_handed rfl]
  decide

end AddrSource

end Hnet
