/-
# `Wshttp.Address.In4` — `ipv4` and `in_addr`

`ipv4::addr` is in host order and `in_addr::s_addr` in network order.  The conversions
swap between the two; the mixed comparison

    constexpr bool operator==(const in_addr& a) const { return (addr <=> a.s_addr) == 0; }

takes the one for the other.  An `in_addr` is its `s_addr` here.

**Proved here.**  The conversions are inverse to each other, on either host.  On a
little-endian one the comparison is right exactly for an address that reads the same in
both orders, and for those that are equal to `s_addr` in neither (`in4_equality_iff`).
-/
import Wshttp.Address

namespace Wshttp.Ipv4

/-- `ipv4(struct in_addr*)`. -/
def ofIn4 (bigEndian : Bool) (a : UInt32) : Ipv4 := ⟨enc.bigToHost bigEndian a⟩

/-- `operator==(const in_addr&)`. -/
def eqIn4 (x : Ipv4) (a : UInt32) : Bool := x.addr == a

section
variable {bigEndian : Bool} {x : Ipv4} {a : UInt32}

theorem ofIn4_toIn4 (bigEndian : Bool) (x : Ipv4) : ofIn4 bigEndian (x.toIn4 bigEndian) = x :=
  congrArg Ipv4.mk (enc.bigToHost32_hostToBig bigEndian x.addr)

theorem toIn4_ofIn4 (bigEndian : Bool) (a : UInt32) : (ofIn4 bigEndian a).toIn4 bigEndian = a :=
  enc.hostToBig32_bigToHost bigEndian a

theorem eqIn4_iff : x.eqIn4 a = true ↔ x.addr = a := beq_iff_eq

theorem eq_ofIn4_iff : x = ofIn4 bigEndian a ↔ x.addr = enc.bigToHost bigEndian a := by
  constructor
  · intro h
    exact congrArg Ipv4.addr h
  · intro h
    exact congrArg Ipv4.mk h

/-- **The conversions are inverse, and the comparison is right exactly where the byte order
makes no difference.**  For every address of either kind. -/
theorem in4_equality_iff (bigEndian : Bool) (x : Ipv4) (a : UInt32) :
    ofIn4 bigEndian (x.toIn4 bigEndian) = x ∧
    (ofIn4 bigEndian a).toIn4 bigEndian = a ∧
    ((x.eqIn4 a = true ↔ x = ofIn4 bigEndian a) ↔
      bigEndian = true ∨ enc.EndianSwappable.byteswap a = a ∨
        x.addr ≠ a ∧ x.addr ≠ enc.EndianSwappable.byteswap a) := by
  refine ⟨ofIn4_toIn4 bigEndian x, toIn4_ofIn4 bigEndian a, ?_⟩
  rw [eqIn4_iff, eq_ofIn4_iff]
  cases bigEndian with
  | true => exact iff_of_true Iff.rfl (.inl rfl)
  | false =>
      rw [or_iff_right Bool.false_ne_true]
      show (x.addr = a ↔ x.addr = enc.EndianSwappable.byteswap a) ↔ _
      constructor
      · intro hiff
        by_cases haddr : x.addr = a
        · exact .inl ((hiff.mp haddr).symm.trans haddr)
        · exact .inr ⟨haddr, fun hswap => haddr (hiff.mpr hswap)⟩
      · rintro (hsame | ⟨haddr, hswap⟩)
        · rw [hsame]
        · exact iff_of_false haddr hswap

end

/-- `127.0.0.1`, which is not equal to the `in_addr` it is read from, on a little-endian
host; what is equal to that `in_addr` is `1.0.0.127`. -/
theorem localhost_not_equal :
    ¬ ((⟨0x7f000001⟩ : Ipv4).eqIn4 0x0100007f = true ↔
        (⟨0x7f000001⟩ : Ipv4) = ofIn4 false 0x0100007f) ∧
      (⟨0x7f000001⟩ : Ipv4) = ofIn4 false 0x0100007f ∧
      (⟨0x0100007f⟩ : Ipv4).eqIn4 0x0100007f = true := by
  decide

end Wshttp.Ipv4
