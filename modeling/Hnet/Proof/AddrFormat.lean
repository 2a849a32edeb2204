import Hnet.Netring.Addr

/-!
# The two printers of netring's `net::Addr`

`to_string` prints the sixteen bytes of the address. The formatter prints the first sixteen bytes of
the `sockaddr_in6`, that is the family, the port, the flow information and half of the address, and
has room for 27 characters. The two agree on an address that repeats these bytes.
-/

namespace Hnet.Netring

namespace Addr

/-- The ways to make an address. -/
inductive Way where
  | parts (address : String) (port : UInt16)
  | ip6Any (port : UInt16)
  | ip6Local (port : UInt16)
  | addrIn6 (sa : SockaddrIn6)

namespace Way

def make (inet : Inet) : Way → Option Addr
  | .parts address port => fromParts inet address port
  | .ip6Any port => some (Addr.ip6Any port)
  | .ip6Local port => some (Addr.ip6Local port)
  | .addrIn6 sa => some (fromAddrIn6 sa)

def port : Way → UInt16
  | .parts _ port | .ip6Any port | .ip6Local port => port
  | .addrIn6 sa => ntohs sa.sin6Port

end Way

/-- What is documented of `inet_ntop` and `inet_pton` for an address: it has a text, which fits in
`INET6_ADDRSTRLEN` bytes and is read back. -/
def DocumentedAt (inet : Inet) (ip : In6Addr) : Prop :=
  ∃ text, inet.ntop6 ip = some text ∧ text.utf8ByteSize < INET6_ADDRSTRLEN ∧
    inet.pton6 text = some ip

/-- The formatter puts out the text of `to_string`, a colon and the port. -/
def FormatAgrees (inet : Inet) (addr : Addr) (port : UInt16) : Prop :=
  ∃ text, addr.toString inet = some text ∧
    addr.format inet = some (text ++ ":" ++ Nat.repr port.toNat)

/-- The address repeats the bytes in front of it, and its text is short enough for the length of
the `sockaddr_in6`. -/
structure Repeats (inet : Inet) (addr : Addr) : Prop where
  front_eq : addr.front = addr.addr6.sin6Addr
  short : ∀ text, inet.ntop6 addr.addr6.sin6Addr = some text →
    text.utf8ByteSize < sizeofSockaddrIn6

section Agreement

variable {inet : Inet} {way : Way} {addr : Addr}

/-- What all ways to make an address have in common. -/
theorem made (hmade : way.make inet = some addr) :
    addr.addrlen = sizeofSockaddrIn6 ∧ ntohs addr.addr6.sin6Port = way.port := by
  cases way with
  | parts address port =>
      obtain ⟨ip, -, rfl⟩ := Option.map_eq_some_iff.mp hmade
      exact ⟨rfl, Hnet.Addr.ntohs_htons port⟩
  | ip6Any port | ip6Local port =>
      cases hmade
      exact ⟨rfl, Hnet.Addr.ntohs_htons port⟩
  | addrIn6 sa =>
      cases hmade
      exact ⟨rfl, rfl⟩

/-- Two addresses with one text are the same. -/
theorem eq_of_ntop6_eq {ip ip' : In6Addr} (hip : DocumentedAt inet ip)
    (hip' : DocumentedAt inet ip') (hsame : inet.ntop6 ip = inet.ntop6 ip') : ip = ip' := by
  obtain ⟨text, htext, -, hback⟩ := hip
  obtain ⟨text', htext', -, hback'⟩ := hip'
  rw [htext, htext'] at hsame
  cases hsame
  exact Option.some.inj (hback.symm.trans hback')

/-- **The printers agree exactly on an address that repeats the bytes in front of it in a short
text.** -/
theorem formatAgrees_iff (inet : Inet) (way : Way) (addr : Addr)
    (hmade : way.make inet = some addr)
    (haddr : DocumentedAt inet addr.addr6.sin6Addr) (hfront : DocumentedAt inet addr.front) :
    FormatAgrees inet addr way.port ↔ Repeats inet addr := by
  obtain ⟨hlen, hport⟩ := made hmade
  obtain ⟨text, htext, hsize, -⟩ := id haddr
  have htoString : addr.toString inet = some text := inetNtop_of_lt htext hsize
  constructor
  · rintro ⟨text', htoString', hformat⟩
    rw [htoString] at htoString'
    cases htoString'
    obtain ⟨buf, hbuf, happend⟩ := Option.map_eq_some_iff.mp hformat
    obtain ⟨hfrontText, hshort⟩ := of_inetNtop_eq hbuf
    rw [hport] at happend
    obtain rfl : buf = text :=
      (String.append_left_inj _).mp ((String.append_left_inj _).mp happend)
    refine ⟨eq_of_ntop6_eq hfront haddr (hfrontText.trans htext.symm), fun text' htext' => ?_⟩
    rw [htext] at htext'
    cases htext'
    rwa [hlen] at hshort
  · intro hrepeats
    refine ⟨text, htoString, ?_⟩
    have hshort : text.utf8ByteSize < addr.addrlen := hlen ▸ hrepeats.short text htext
    rw [format, hrepeats.front_eq, inetNtop_of_lt htext hshort, Option.map_some, hport]

/-! ### Two addresses -/

/-- `a00:50:0:0:a00:50:0:0` -/
def repeating : In6Addr := ⟨[10, 0, 0, 80, 0, 0, 0, 0, 10, 0, 0, 80, 0, 0, 0, 0], rfl⟩

/-- What the formatter prints of `ip6_local(80)`. -/
def localFront : In6Addr := ⟨[10, 0, 0, 80, 0, 0, 0, 0, 0, 0, 0, 0, 0, 0, 0, 0], rfl⟩

/-- `inet_pton` and `inet_ntop` as far as three addresses go. -/
def sampleInet : Inet where
  pton4 _ := none
  ntop4 _ := none
  pton6 text :=
    if text = "::1" then some in6addrLoopback
    else if text = "a00:50::" then some localFront
    else if text = "a00:50::a00:50:0:0" then some repeating
    else none
  ntop6 ip :=
    if ip = in6addrLoopback then some "::1"
    else if ip = localFront then some "a00:50::"
    else if ip = repeating then some "a00:50::a00:50:0:0"
    else none

theorem documentedAt_repeating : DocumentedAt sampleInet repeating :=
  ⟨"a00:50::a00:50:0:0", by decide, by decide, by decide⟩

theorem formatAgrees_repeating : FormatAgrees sampleInet (fromIn6Addr repeating 80) 80 := by
  refine (formatAgrees_iff sampleInet (.parts "a00:50::a00:50:0:0" 80) (fromIn6Addr repeating 80)
    (by decide) documentedAt_repeating documentedAt_repeating).mpr ⟨by decide, ?_⟩
  intro text htext
  obtain rfl : "a00:50::a00:50:0:0" = text := Option.some.inj htext
  decide

/-- `to_string` gives `::1`, the formatter `a00:50:::80`. -/
theorem not_formatAgrees_ip6Local : ¬ ∀ addr, (Way.ip6Local 80).make sampleInet = some addr →
    FormatAgrees sampleInet addr 80 := by
  intro hall
  obtain ⟨text, htoString, hformat⟩ := hall (Addr.ip6Local 80) rfl
  have hlocal : (Addr.ip6Local 80).toString sampleInet = some "::1" := by decide
  have hfront : (Addr.ip6Local 80).format sampleInet = some "a00:50:::80" := by decide
  rw [hlocal] at htoString
  cases htoString
  rw [hfront] at hformat
  exact absurd hformat (by decide)

end Agreement

end Addr

end Hnet.Netring
