/-
# `Wshttp.Node.BindArgument` — the bytes that `bind` is given for a local address

`_init_internals` fills in a `sockaddr_in` or a `sockaddr_in6` and passes `bind` a pointer
to it with a length.  The length is `sizeof(sockaddr)` for both:

    sockaddr_in     family 2   port 2   address 4    zero 8
    sockaddr_in6    family 2   port 2   flowinfo 4   address 16   scope id 4
    passed          the first 16 bytes

The members that are not assigned hold whatever was on the stack (`Unset`).  Of an IPv6
address eight bytes are passed, so addresses that differ after them look the same.

**Proved here.**  The argument determines the address exactly for IPv4 addresses, and
decoding the structure gives the address back for those and for the IPv6 addresses
that `to_in6` gets right (`bind_argument_iff`).
-/
import Wshttp.Node
import Wshttp.Address.In4
import Wshttp.Address.In6

namespace Wshttp

def AF_INET : UInt16 := 2
def AF_INET6 : UInt16 := 10

/-! ## What is passed -/

/-- The members of `_in4` and `_in6` that are not assigned. -/
structure Unset where
  sinZero : Vector UInt8 8
  sin6Flowinfo : Vector UInt8 4
  sin6ScopeId : Vector UInt8 4

/-- The bytes of the two members that both structures begin with. -/
def Sockaddr.head (bigEndian : Bool) (family port : UInt16) : Bytes :=
  [(enc.store16 bigEndian family).1, (enc.store16 bigEndian family).2,
    (enc.store16 bigEndian port).1, (enc.store16 bigEndian port).2]

/-- The bytes of the object; of an unknown family only the family is known. -/
def Sockaddr.object (bigEndian : Bool) (unset : Unset) : Sockaddr → Bytes
  | .inet sinAddr sinPort =>
      head bigEndian AF_INET sinPort ++ enc.store32 bigEndian sinAddr ++ unset.sinZero.toList
  | .inet6 sin6Addr sin6Port =>
      head bigEndian AF_INET6 sin6Port ++ unset.sin6Flowinfo.toList ++ sin6Addr.toList
        ++ unset.sin6ScopeId.toList
  | .other saFamily => [(enc.store16 bigEndian saFamily).1, (enc.store16 bigEndian saFamily).2]

/-- The first `addrlen` bytes of the argument. -/
def bindBytes (bigEndian : Bool) (unset : Unset) (a : IpAddress) : Except Exn Bytes :=
  (bindAddress bigEndian a).map fun sa => (sa.object bigEndian unset).take SIZEOF_SOCKADDR

/-- The argument is made, and its bytes are those of no other address. -/
structure Determined (bigEndian : Bool) (a : IpAddress) : Prop where
  made : ∃ sa, bindAddress bigEndian a = .ok sa
  unique : ∀ unset unset' b bytes, bindBytes bigEndian unset a = .ok bytes →
    bindBytes bigEndian unset' b = .ok bytes → b.key = a.key

/-- `ip_address(sockaddr*)` reads the address back, up to `==`. -/
def Decodes (bigEndian : Bool) (a : IpAddress) : Prop :=
  ((bindAddress bigEndian a).bind (IpAddress.ofSockaddr bigEndian)).map IpAddress.key = .ok a.key

def IpAddress.IsV4 (a : IpAddress) : Prop := a.isV4 = true ∧ ∃ x, a.ip = .v4 x

/-! ## The beginning of the object -/

section
variable {bigEndian : Bool} {unset unset' : Unset}

theorem head_append_inj {family family' port port' : UInt16} {rest rest' : Bytes} :
    Sockaddr.head bigEndian family port ++ rest = Sockaddr.head bigEndian family' port' ++ rest' ↔
      family = family' ∧ port = port' ∧ rest = rest' := by
  constructor
  · intro h
    obtain ⟨hf1, h⟩ := List.cons.inj h
    obtain ⟨hf2, h⟩ := List.cons.inj h
    obtain ⟨hp1, h⟩ := List.cons.inj h
    obtain ⟨hp2, hrest⟩ := List.cons.inj h
    exact ⟨enc.store16_inj.mp (Prod.ext hf1 hf2), enc.store16_inj.mp (Prod.ext hp1 hp2), hrest⟩
  · rintro ⟨rfl, rfl, rfl⟩
    rfl

/-- A `sockaddr_in` is passed whole. -/
theorem take_inet (sinAddr : UInt32) (sinPort : UInt16) :
    ((Sockaddr.inet sinAddr sinPort).object bigEndian unset).take SIZEOF_SOCKADDR
      = Sockaddr.head bigEndian AF_INET sinPort
        ++ (enc.store32 bigEndian sinAddr ++ unset.sinZero.toList) := by
  rw [Sockaddr.object, List.append_assoc]
  refine List.take_of_length_le ?_
  simp [Sockaddr.head, enc.length_store32, SIZEOF_SOCKADDR]

/-- Of a `sockaddr_in6` eight bytes of the address are. -/
theorem take_inet6 (sin6Addr : In6) (sin6Port : UInt16) :
    ((Sockaddr.inet6 sin6Addr sin6Port).object bigEndian unset).take SIZEOF_SOCKADDR
      = Sockaddr.head bigEndian AF_INET6 sin6Port
        ++ (unset.sin6Flowinfo.toList ++ sin6Addr.toList.take 8) := by
  rw [Sockaddr.object, List.append_assoc, List.append_assoc]
  simp [Sockaddr.head, SIZEOF_SOCKADDR, List.take_append]

end

/-! ## IPv4 -/

section
variable {bigEndian : Bool} {unset unset' : Unset} {p q : UInt16}

/-- The flag and the variant have to agree. -/
theorem bindAddress_made {a : IpAddress} (h : ∃ sa, bindAddress bigEndian a = .ok sa) :
    (∃ x p, a = ⟨.v4 x, p, true⟩) ∨ ∃ x p, a = ⟨.v6 x, p, false⟩ := by
  obtain ⟨sa, hsa⟩ := h
  obtain ⟨ip, p, isV4⟩ := a
  cases ip with
  | v4 x =>
      cases isV4 with
      | true => exact .inl ⟨x, p, rfl⟩
      | false => cases hsa
  | v6 x =>
      cases isV4 with
      | true => cases hsa
      | false => exact .inr ⟨x, p, rfl⟩

theorem bindBytes_made {a : IpAddress} {bytes : Bytes}
    (h : bindBytes bigEndian unset a = .ok bytes) : ∃ sa, bindAddress bigEndian a = .ok sa := by
  cases hsa : bindAddress bigEndian a with
  | error e =>
      rw [bindBytes, hsa] at h
      cases h
  | ok sa => exact ⟨sa, rfl⟩

theorem bindBytes_v4 (x : Ipv4) :
    bindBytes bigEndian unset ⟨.v4 x, p, true⟩
      = .ok (Sockaddr.head bigEndian AF_INET (enc.hostToBig bigEndian p)
        ++ (enc.store32 bigEndian (x.toIn4 bigEndian) ++ unset.sinZero.toList)) :=
  congrArg Except.ok (take_inet _ _)

theorem bindBytes_v6 (x : Ipv6) :
    bindBytes bigEndian unset ⟨.v6 x, p, false⟩
      = .ok (Sockaddr.head bigEndian AF_INET6 (enc.hostToBig bigEndian p)
        ++ (unset.sin6Flowinfo.toList ++ (x.toIn6 bigEndian).toList.take 8)) :=
  congrArg Except.ok (take_inet6 _ _)

theorem toIn4_inj {x y : Ipv4} (h : x.toIn4 bigEndian = y.toIn4 bigEndian) : x = y := by
  rw [← Ipv4.ofIn4_toIn4 bigEndian x, h, Ipv4.ofIn4_toIn4]

theorem determined_v4 (x : Ipv4) : Determined bigEndian ⟨.v4 x, p, true⟩ := by
  refine ⟨⟨_, rfl⟩, ?_⟩
  intro unset unset' b bytes ha hb
  have hsame := ha.trans hb.symm
  rw [bindBytes_v4] at hsame
  rcases bindAddress_made (bindBytes_made hb) with ⟨y, q, rfl⟩ | ⟨y, q, rfl⟩
  · rw [bindBytes_v4] at hsame
    obtain ⟨-, hport, hrest⟩ := head_append_inj.mp (Except.ok.inj hsame)
    have haddr := (List.append_inj hrest (by rw [enc.length_store32, enc.length_store32])).1
    rw [toIn4_inj ((enc.store32_inj bigEndian).mp haddr), enc.hostToBig_inj.mp hport]
  · rw [bindBytes_v6] at hsame
    obtain ⟨hfamily, -, -⟩ := head_append_inj.mp (Except.ok.inj hsame)
    exact absurd hfamily (by decide)

/-! ## IPv6 -/

/-- Another address, with the same first seven groups. -/
def Ipv6.neighbour (x : Ipv6) : Ipv6 := ⟨x.addr.set 7 (x.addr[7] + 1)⟩

theorem Ipv6.neighbour_ne (x : Ipv6) : x.neighbour ≠ x := by
  intro h
  have hlast : (x.addr.set 7 (x.addr[7] + 1))[7] = x.addr[7] := by
    show x.neighbour.addr[7] = x.addr[7]
    rw [h]
  rw [Vector.getElem_set_self] at hlast
  have hone := congrArg UInt16.toNat hlast
  rw [UInt16.toNat_add] at hone
  have hlt := x.addr[7].toNat_lt
  change (x.addr[7].toNat + 1) % 65536 = x.addr[7].toNat at hone
  omega

theorem Ipv6.neighbour_group (x : Ipv6) {i : Nat} (hi : i < 7) :
    x.neighbour.addr[i] = x.addr[i] :=
  Vector.getElem_set_ne (by decide) (Nat.lt_succ_of_lt hi) (Nat.ne_of_gt hi)

/-- The first eight bytes are those of the first four groups. -/
theorem Ipv6.neighbour_bytes (bigEndian : Bool) (x : Ipv6) :
    (x.neighbour.toIn6 bigEndian).toList.take 8 = (x.toIn6 bigEndian).toList.take 8 := by
  refine List.ext_getElem (by simp) fun i hi _ => ?_
  have hlt : i < 8 := by simpa using hi
  have hgroup : i / 2 < 7 := by omega
  simp only [List.getElem_take, Vector.getElem_toList, Ipv6.toIn6, Vector.getElem_ofFn,
    x.neighbour_group hgroup]

theorem not_determined_v6 (x : Ipv6) : ¬ Determined bigEndian ⟨.v6 x, p, false⟩ := by
  intro h
  have unset : Unset := ⟨.replicate 8 0, .replicate 4 0, .replicate 4 0⟩
  have hsame : bindBytes bigEndian unset ⟨.v6 x.neighbour, p, false⟩
      = bindBytes bigEndian unset ⟨.v6 x, p, false⟩ := by
    rw [bindBytes_v6, bindBytes_v6, x.neighbour_bytes]
  have hkey := h.unique unset unset _ _ (bindBytes_v6 x) (hsame.trans (bindBytes_v6 x))
  exact x.neighbour_ne (IpV.v6.inj (congrArg Prod.fst hkey))

/-! ## Every address -/

variable (bigEndian) (a : IpAddress)

theorem determined_iff : Determined bigEndian a ↔ a.IsV4 := by
  constructor
  · intro h
    rcases bindAddress_made h.made with ⟨x, p, rfl⟩ | ⟨x, p, rfl⟩
    · exact ⟨rfl, x, rfl⟩
    · exact absurd h (not_determined_v6 x)
  · rintro ⟨hflag, x, hip⟩
    obtain ⟨ip, p, isV4⟩ := a
    subst hflag hip
    exact determined_v4 x

theorem decodes_v4 (x : Ipv4) : Decodes bigEndian ⟨.v4 x, p, true⟩ := by
  show Except.ok (IpV.v4 ⟨enc.bigToHost bigEndian (enc.hostToBig bigEndian x.addr)⟩,
    enc.bigToHost bigEndian (enc.hostToBig bigEndian p)) = .ok (IpV.v4 x, p)
  rw [enc.bigToHost32_hostToBig, enc.bigToHost_hostToBig]

theorem decodes_v6_iff (x : Ipv6) :
    Decodes bigEndian ⟨.v6 x, p, false⟩ ↔ bigEndian = true ∨ x.Palindromic := by
  rw [← x.ofIn6_toIn6_iff bigEndian]
  show Except.ok (IpV.v6 (.ofIn6 bigEndian (x.toIn6 bigEndian)),
    enc.bigToHost bigEndian (enc.hostToBig bigEndian p)) = .ok (IpV.v6 x, p) ↔ _
  rw [enc.bigToHost_hostToBig]
  constructor
  · intro h
    exact IpV.v6.inj (congrArg Prod.fst (Except.ok.inj h))
  · intro h
    rw [h]

theorem Decodes.made {a : IpAddress} (h : Decodes bigEndian a) :
    ∃ sa, bindAddress bigEndian a = .ok sa := by
  cases hsa : bindAddress bigEndian a with
  | error e =>
      rw [Decodes, hsa] at h
      cases h
  | ok sa => exact ⟨sa, rfl⟩

theorem decodes_iff : Decodes bigEndian a ↔ a.IsV4 ∨
    a.isV4 = false ∧ ∃ x, a.ip = .v6 x ∧ (bigEndian = true ∨ x.Palindromic) := by
  constructor
  · intro h
    rcases bindAddress_made (h.made bigEndian) with ⟨x, p, rfl⟩ | ⟨x, p, rfl⟩
    · exact .inl ⟨rfl, x, rfl⟩
    · exact .inr ⟨rfl, x, rfl, (decodes_v6_iff bigEndian x).mp h⟩
  · obtain ⟨ip, p, isV4⟩ := a
    rintro (⟨hflag, x, hip⟩ | ⟨hflag, x, hip, hfits⟩)
    · subst hflag hip
      exact decodes_v4 bigEndian x
    · subst hflag hip
      exact (decodes_v6_iff bigEndian x).mpr hfits

/-- **The argument carries the address whole exactly if it is an IPv4 address.**  For
every address and host; the last part says when the structure at least reads back. -/
theorem bind_argument_iff :
    (Determined bigEndian a ∧ Decodes bigEndian a ↔ a.IsV4) ∧
    (Determined bigEndian a ↔ a.IsV4) ∧
    (Decodes bigEndian a ↔ a.IsV4 ∨
      a.isV4 = false ∧ ∃ x, a.ip = .v6 x ∧ (bigEndian = true ∨ x.Palindromic)) := by
  have hdetermined := determined_iff bigEndian a
  have hdecodes := decodes_iff bigEndian a
  refine ⟨?_, hdetermined, hdecodes⟩
  constructor
  · exact fun h => hdetermined.mp h.1
  · exact fun h => ⟨hdetermined.mpr h, hdecodes.mpr (.inl h)⟩

end

/-- `2001:db8::` and `2001:db8::1` give the same argument, whatever is on the stack. -/
theorem bind_argument_collides :
    ¬ (∀ a, Determined false a ∧ Decodes false a) ∧
    Ipv6.documentation.neighbour = ⟨#v[0x2001, 0xdb8, 0, 0, 0, 0, 0, 1]⟩ ∧
    ∀ unset, bindBytes false unset ⟨.v6 Ipv6.documentation.neighbour, 0, false⟩
      = bindBytes false unset ⟨.v6 Ipv6.documentation, 0, false⟩ := by
  refine ⟨fun h => ?_, by decide, fun unset => ?_⟩
  · exact not_determined_v6 Ipv6.documentation (h ⟨.v6 Ipv6.documentation, 0, false⟩).1
  · rw [bindBytes_v6, bindBytes_v6, Ipv6.neighbour_bytes]

end Wshttp
