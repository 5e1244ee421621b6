/-
# `Wshttp.Address` — `ip_address` and the socket addresses it is read from

`ip_address` keeps its family twice, in the variant and in the flag `_is_v4`.
The flag is initialised from the variant's index before a constructor body runs,
so the `sockaddr` constructor, which assigns the variant in its body, leaves the
flag at the value for a default-constructed variant.

Two addresses are the same map key when `operator<=>` says so, and that looks at
the variant and the port only: `key` is what it looks at.
-/
import Wshttp.Encoding

namespace Wshttp

/-- Host order. -/
structure Ipv4 where
  addr : UInt32 := 0
  deriving DecidableEq, Repr

/-- Eight groups, host order. -/
structure Ipv6 where
  addr : Vector UInt16 8
  deriving DecidableEq, Repr

/-- `ipv4::to_in4`: the `s_addr`, network order. -/
def Ipv4.toIn4 (bigEndian : Bool) (a : Ipv4) : UInt32 := enc.hostToBig bigEndian a.addr

/-- `ipv6::to_in6`: the groups' memory, and then a swap of each of the first eight
elements of `s6_addr`, which are bytes. -/
def Ipv6.toIn6 (bigEndian : Bool) (a : Ipv6) : Vector UInt8 16 :=
  .ofFn fun i =>
    let group := enc.store16 bigEndian a.addr[i.val / 2]
    let byte := if i.val % 2 = 0 then group.1 else group.2
    if i.val < 8 then enc.bigToHost bigEndian byte else byte

/-- `std::variant<ipv4, ipv6>`. -/
inductive IpV where
  | v4 (a : Ipv4)
  | v6 (a : Ipv6)
  deriving DecidableEq, Repr

def IpV.index : IpV → Nat
  | .v4 _ => 0
  | .v6 _ => 1

/-- A `sockaddr` as the system fills it in: network byte order throughout. -/
inductive Sockaddr where
  | inet (sinAddr : UInt32) (sinPort : UInt16)
  | inet6 (sin6Addr : Vector UInt8 16) (sin6Port : UInt16)
  | other (saFamily : UInt16)
  deriving DecidableEq, Repr

structure IpAddress where
  ip : IpV
  port : UInt16
  isV4 : Bool
  deriving DecidableEq, Repr

namespace IpAddress

/-- `ip_address(uint16_t p = 0)`. -/
def ofPort (p : UInt16) : IpAddress := ⟨.v4 {}, p, IpV.index (.v4 {}) == 0⟩

/-- `ip_address(struct sockaddr*)`.  The port is swapped after either branch. -/
def ofSockaddr (bigEndian : Bool) : Sockaddr → Except Exn IpAddress
  | .inet a p =>
      .ok { ofPort 0 with
        ip := .v4 ⟨enc.bigToHost bigEndian a⟩
        port := enc.bigToHost bigEndian p }
  | .inet6 a p =>
      .ok { ofPort 0 with
        ip := .v6 ⟨.ofFn fun i =>
          enc.bigToHost bigEndian (enc.load16 bigEndian a[2 * i.val] a[2 * i.val + 1])⟩
        port := enc.bigToHost bigEndian p }
  | .other _ => .error (runtimeError "Failed to understand incoming address sa_family")

/-- `_ipv4`, which is `std::get<ipv4>`. -/
def ipv4 (a : IpAddress) : Except Exn Ipv4 :=
  match a.ip with
  | .v4 x => .ok x
  | .v6 _ => .error badVariantAccess

/-- `_ipv6`, which is `std::get<ipv6>`. -/
def ipv6 (a : IpAddress) : Except Exn Ipv6 :=
  match a.ip with
  | .v4 _ => .error badVariantAccess
  | .v6 x => .ok x

/-- What `operator<=>` compares and `std::hash` agrees with. -/
abbrev Key := IpV × UInt16

def key (a : IpAddress) : Key := (a.ip, a.port)

end IpAddress

/-- `path`: the two ends of a connection. -/
structure Path where
  localEnd : IpAddress
  remote : IpAddress
  deriving DecidableEq, Repr

end Wshttp
